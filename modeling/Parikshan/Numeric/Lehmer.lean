import Mathlib.NumberTheory.LucasPrimality
import Mathlib.FieldTheory.Finite.Basic
import Mathlib.Tactic.Ring
import Mathlib.Tactic.Linarith

/-!
# Multiplicative congruential generators

A generator with multiplier `a` and modulus `m` replaces its state `x` by `a * x % m`. The product
may be too large for the machine. With `m = a * q + r` and `r < q` the same residue can be had from
`a * (x % q) - r * (x / q)`, whose parts are all smaller than `m`.

If the modulus is prime and the multiplier a primitive root, the states form one cycle.

## Main definitions

* `Schrage`: a modulus with its quotient and its remainder by the multiplier.

## Main results

* `Schrage.mul_mod_mem`, `Schrage.mul_div_mem`: the parts are in range.
* `Schrage.residue`: the difference, corrected by its sign, is the residue of the product.
* `pow_mul_eq_self_iff`, `existsUnique_pow_mul_eq`: the cycle.
-/

namespace Parikshan.Lehmer

/-! ### Schrage's method -/

/-- A modulus `m` with its quotient `q` and its remainder `r` by the multiplier `a`. -/
structure Schrage (a m q r : ℤ) : Prop where
  eq : m = a * q + r
  pos : 0 < a
  nonneg : 0 ≤ r
  lt : r < q

namespace Schrage

variable {a m q r x : ℤ}

theorem quotient_pos (h : Schrage a m q r) : 0 < q := h.nonneg.trans_lt h.lt

/-- The difference is the product less a multiple of the modulus. -/
theorem sub_eq (h : Schrage a m q r) (x : ℤ) :
    a * (x % q) - r * (x / q) = a * x - m * (x / q) := by
  have hx := Int.mul_ediv_add_emod x q
  calc a * (x % q) - r * (x / q)
      = a * (q * (x / q) + x % q) - (a * q + r) * (x / q) := by ring
    _ = a * x - m * (x / q) := by rw [hx, ← h.eq]

theorem mul_mod_mem (h : Schrage a m q r) (x : ℤ) : 0 ≤ a * (x % q) ∧ a * (x % q) < m := by
  have hq := h.quotient_pos
  have hmod := Int.emod_lt_of_pos x hq
  refine ⟨mul_nonneg h.pos.le (Int.emod_nonneg x hq.ne'), ?_⟩
  calc a * (x % q) < a * q := by gcongr; exact h.pos
    _ ≤ m := by linarith [h.eq, h.nonneg]

theorem mul_div_mem (h : Schrage a m q r) (hx : 0 ≤ x) :
    0 ≤ r * (x / q) ∧ r * (x / q) ≤ x := by
  have hq := h.quotient_pos
  have hdiv : 0 ≤ x / q := Int.ediv_nonneg hx hq.le
  refine ⟨mul_nonneg h.nonneg hdiv, ?_⟩
  calc r * (x / q) ≤ q * (x / q) := by gcongr; exact h.lt.le
    _ ≤ x := Int.mul_ediv_self_le hq.ne'

/-- The difference is between `-m` and `m`. -/
theorem sub_mem (h : Schrage a m q r) (hx : 0 ≤ x) (hxm : x < m) :
    -m < a * (x % q) - r * (x / q) ∧ a * (x % q) - r * (x / q) < m := by
  obtain ⟨hmod, hmod'⟩ := h.mul_mod_mem x
  obtain ⟨hdiv, hdiv'⟩ := h.mul_div_mem hx
  exact ⟨by linarith, by linarith⟩

/-- **Schrage's method.** -/
theorem residue (h : Schrage a m q r) (hx : 0 ≤ x) (hxm : x < m) (hne : a * x % m ≠ 0) :
    (if 0 < a * (x % q) - r * (x / q) then a * (x % q) - r * (x / q)
      else a * (x % q) - r * (x / q) + m) = a * x % m := by
  have hmod : (a * (x % q) - r * (x / q)) % m = a * x % m := by
    rw [h.sub_eq, Int.sub_mul_emod_self_left]
  obtain ⟨hlow, hhigh⟩ := h.sub_mem hx hxm
  split_ifs with hpos
  · rw [← hmod, Int.emod_eq_of_lt hpos.le hhigh]
  · have hneg : a * (x % q) - r * (x / q) ≠ 0 := by
      intro hzero
      rw [hzero, Int.zero_emod] at hmod
      exact hne hmod.symm
    have hlt : a * (x % q) - r * (x / q) < 0 := lt_of_le_of_ne (not_lt.mp hpos) hneg
    calc a * (x % q) - r * (x / q) + m
        = (a * (x % q) - r * (x / q) + m) % m :=
          (Int.emod_eq_of_lt (by linarith) (by linarith)).symm
      _ = a * x % m := by rw [Int.add_emod_right, hmod]

end Schrage

/-! ### The cycle -/

section Cycle

variable {p : ℕ} [Fact p.Prime] {g x y : ZMod p} {k : ℕ}

/-- The states come back after as many steps as there are states, and not earlier. -/
theorem pow_mul_eq_self_iff (hg : orderOf g = p - 1) (hx : x ≠ 0) :
    g ^ k * x = x ↔ p - 1 ∣ k := by
  rw [mul_eq_right₀ hx, ← hg, orderOf_dvd_iff_pow_eq_one]

theorem ne_zero_of_orderOf (hg : orderOf g = p - 1) : g ≠ 0 := by
  rintro rfl
  have hp := (Fact.out : p.Prime).one_lt
  have hpow : (0 : ZMod p) ^ (p - 1) = 1 := hg ▸ pow_orderOf_eq_one (0 : ZMod p)
  rw [zero_pow (Nat.sub_ne_zero_of_lt hp)] at hpow
  exact zero_ne_one hpow

/-- Every element other than zero is a power of a primitive root. -/
theorem exists_pow_eq (hg : orderOf g = p - 1) (hy : y ≠ 0) : ∃ k < p - 1, g ^ k = y := by
  have hg₀ := ne_zero_of_orderOf hg
  have hunit : orderOf (Units.mk0 g hg₀) = p - 1 := by
    rw [← hg, ← orderOf_units, Units.val_mk0]
  have htop : Subgroup.zpowers (Units.mk0 g hg₀) = ⊤ := by
    refine Subgroup.eq_top_of_card_eq _ ?_
    rw [Nat.card_zpowers, hunit, Nat.card_eq_fintype_card, ZMod.card_units]
  have hmem : Units.mk0 y hy ∈ Subgroup.zpowers (Units.mk0 g hg₀) := htop ▸ Subgroup.mem_top _
  rw [← mem_powers_iff_mem_zpowers, mem_powers_iff_mem_range_orderOf, Finset.mem_image] at hmem
  obtain ⟨k, hk, hpow⟩ := hmem
  refine ⟨k, by simpa [hunit] using hk, ?_⟩
  simpa using congrArg Units.val hpow

/-- The cycle visits every state once. -/
theorem existsUnique_pow_mul_eq (hg : orderOf g = p - 1) (hx : x ≠ 0) (hy : y ≠ 0) :
    ∃! k, k < p - 1 ∧ g ^ k * x = y := by
  obtain ⟨k, hk, hpow⟩ := exists_pow_eq hg (div_ne_zero hy hx)
  refine ⟨k, ⟨hk, by rw [hpow, div_mul_cancel₀ y hx]⟩, ?_⟩
  rintro j ⟨hj, hpow'⟩
  have heq : g ^ j = g ^ k := by rw [hpow, ← hpow', mul_div_cancel_right₀ _ hx]
  exact pow_injOn_Iio_orderOf (by simpa [hg] using hj) (by simpa [hg] using hk) heq

end Cycle

end Parikshan.Lehmer
