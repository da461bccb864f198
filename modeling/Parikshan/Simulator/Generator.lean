import Parikshan.Numeric.Double
import Parikshan.Numeric.Lehmer
import Mathlib

/-!
# The random numbers of the simulator

`rand_val` is a multiplicative congruential generator in integer arithmetic, whose state is a static
variable. `queue_sim.c` and `loop_queue_sim.c` have the same text of it. A `long` has 32 or 64 bits,
so an operation whose result does not fit in `w` bits is undefined here.

`exponential` draws from it until the number is neither 0 nor 1.

## Main definitions

* `randVal`: `rand_val`, on a machine with a `long` of `w` bits.
* `calls`: the state after some calls of `rand_val(0)`.
* `pull`: the loop of `exponential`.

## Main results

* `randVal_fullPeriod`: the states form one cycle through all values but 0, and nothing overflows.
-/

namespace Parikshan.Simulator

open Numeric

/-! ### The functions -/

/-- The constant `a`. -/
def multiplier : ℤ := 16807

/-- The constant `m`. -/
def modulus : ℤ := 2147483647

/-- The constant `q`, which is `m div a`. -/
def quotient : ℤ := 127773

/-- The constant `r`, which is `m mod a`. -/
def remainder : ℤ := 2836

/-- The result of an operation on `long`s of `w` bits, unless it overflows. -/
def long (w : ℕ) (v : ℤ) : Option ℤ :=
  if -2 ^ (w - 1) ≤ v ∧ v < 2 ^ (w - 1) then some v else none

/-- `rand_val(seed)`, with the static variable `x` before and after it. The conversion of `x` to
`double` is exact. -/
def randVal (w : ℕ) (seed x : ℤ) : Option (ℤ × ℚ) := do
  let x := if seed ≠ 0 then seed else x
  let xDivQ := x.tdiv quotient
  let xModQ := x.tmod quotient
  let ax ← long w (multiplier * xModQ)
  let rx ← long w (remainder * xDivQ)
  let xNew ← long w (ax - rx)
  let x ← if 0 < xNew then some xNew else long w (xNew + modulus)
  return (x, double (x / modulus))

/-- The state after `k` calls of `rand_val(0)`. -/
def calls (w : ℕ) : ℕ → ℤ → Option ℤ
  | 0, x => some x
  | k + 1, x => (randVal w 0 x).bind fun y => calls w k y.1

/-- The loop of `exponential`, if it ends within `n` passes, with the number that it leaves. -/
def pull (w : ℕ) : ℕ → ℤ → Option (ℤ × ℚ)
  | 0, _ => none
  | n + 1, x => (randVal w 0 x).bind fun y => if y.2 = 0 ∨ y.2 = 1 then pull w n y.1 else some y

/-! ### The modulus and the multiplier -/

theorem schrage : Lehmer.Schrage multiplier modulus quotient remainder where
  eq := by decide
  pos := by decide
  nonneg := by decide
  lt := by decide

/-- The prime factors of `m - 1`. -/
def primeFactors : List ℕ := [2, 3, 7, 11, 31, 151, 331]

theorem mem_primeFactors {q : ℕ} (hq : q.Prime) (hdvd : q ∣ 2147483647 - 1) : q ∈ primeFactors := by
  have hfactors : 2147483647 - 1 = 2 * 3 ^ 2 * 7 * 11 * 31 * 151 * 331 := by norm_num
  have hmem {p : ℕ} (hp : p.Prime) (h : q ∣ p) (hl : p ∈ primeFactors) : q ∈ primeFactors :=
    (Nat.prime_dvd_prime_iff_eq hq hp).mp h ▸ hl
  rw [hfactors] at hdvd
  simp only [hq.dvd_mul] at hdvd
  rcases hdvd with (((((h | h) | h) | h) | h) | h) | h
  · exact hmem (by norm_num) h (by decide)
  · exact hmem (by norm_num) (hq.dvd_of_dvd_pow h) (by decide)
  · exact hmem (by norm_num) h (by decide)
  · exact hmem (by norm_num) h (by decide)
  · exact hmem (by norm_num) h (by decide)
  · exact hmem (by norm_num) h (by decide)
  · exact hmem (by norm_num) h (by decide)

theorem multiplier_pow : (16807 : ZMod 2147483647) ^ (2147483647 - 1) = 1 := by
  reduce_mod_char

theorem multiplier_pow_ne {q : ℕ} (hq : q.Prime) (hdvd : q ∣ 2147483647 - 1) :
    (16807 : ZMod 2147483647) ^ ((2147483647 - 1) / q) ≠ 1 := by
  have hmem := mem_primeFactors hq hdvd
  simp only [primeFactors, List.mem_cons, List.not_mem_nil, or_false] at hmem
  rcases hmem with rfl | rfl | rfl | rfl | rfl | rfl | rfl
  all_goals
    norm_num only
    reduce_mod_char
    decide

/-- **The modulus is prime.** -/
instance prime_modulus : Fact (Nat.Prime 2147483647) :=
  ⟨lucas_primality _ 16807 multiplier_pow fun _ hq hdvd => multiplier_pow_ne hq hdvd⟩

/-- **The multiplier is a primitive root.** -/
theorem orderOf_multiplier : orderOf (16807 : ZMod 2147483647) = 2147483647 - 1 :=
  orderOf_eq_of_pow_and_pow_div_prime (by norm_num) multiplier_pow fun _ hq hdvd =>
    multiplier_pow_ne hq hdvd

/-! ### One call -/

/-- The states of a generator that has been seeded well. -/
def states : Set ℤ := Set.Icc 1 (modulus - 1)

section Call

variable {w : ℕ} {x : ℤ}

theorem pos_of_mem (hx : x ∈ states) : 0 < x := by linarith [hx.1]

theorem lt_of_mem (hx : x ∈ states) : x < modulus := by linarith [hx.2]

theorem long_eq (hw : 32 ≤ w) {v : ℤ} (hlow : -2 ^ 31 ≤ v) (hhigh : v < 2 ^ 31) :
    long w v = some v := by
  have hpow : (2 : ℤ) ^ 31 ≤ 2 ^ (w - 1) := pow_le_pow_right₀ (by norm_num) (by omega)
  exact if_pos ⟨by linarith, by linarith⟩

/-- No state is divisible by the modulus. -/
theorem cast_ne_zero (hx : x ∈ states) : (x : ZMod 2147483647) ≠ 0 := by
  rw [ne_eq, ZMod.intCast_zmod_eq_zero_iff_dvd]
  exact fun hdvd => absurd (Int.le_of_dvd (pos_of_mem hx) hdvd) (not_le.mpr (lt_of_mem hx))

theorem cast_emod (y : ℤ) : ((y % modulus : ℤ) : ZMod 2147483647) = y :=
  (ZMod.intCast_eq_intCast_iff' _ _ 2147483647).mpr (Int.emod_emod_of_dvd _ dvd_rfl)

/-- States are equal if they are congruent. -/
theorem eq_of_cast {y : ℤ} (hx : x ∈ states) (hy : y ∈ states)
    (h : (x : ZMod 2147483647) = y) : x = y := by
  have hmod := (ZMod.intCast_eq_intCast_iff' _ _ 2147483647).mp h
  have hx' : x % modulus = x := Int.emod_eq_of_lt (pos_of_mem hx).le (lt_of_mem hx)
  have hy' : y % modulus = y := Int.emod_eq_of_lt (pos_of_mem hy).le (lt_of_mem hy)
  exact hx'.symm.trans (hmod.trans hy')

theorem emod_mem {y : ℤ} (hy : (y : ZMod 2147483647) ≠ 0) : y % modulus ∈ states := by
  have hpos : 0 ≤ y % modulus := Int.emod_nonneg y (by decide)
  have hlt : y % modulus < modulus := Int.emod_lt_of_pos y (by decide)
  have hne : y % modulus ≠ 0 := by
    intro hzero
    rw [← cast_emod, hzero, Int.cast_zero] at hy
    exact hy rfl
  exact ⟨by omega, by omega⟩

theorem cast_pow_mul (k : ℕ) (x : ℤ) :
    ((multiplier ^ k * x : ℤ) : ZMod 2147483647) = 16807 ^ k * x := by
  push_cast [multiplier]
  rfl

theorem pow_mul_mem (hx : x ∈ states) (k : ℕ) : multiplier ^ k * x % modulus ∈ states := by
  refine emod_mem ?_
  rw [cast_pow_mul]
  exact mul_ne_zero (pow_ne_zero k (Lehmer.ne_zero_of_orderOf orderOf_multiplier))
    (cast_ne_zero hx)

theorem next_mem (hx : x ∈ states) : multiplier * x % modulus ∈ states := by
  simpa using pow_mul_mem hx 1

/-- **One call of `rand_val(0)`.** -/
theorem randVal_zero (hw : 32 ≤ w) (hx : x ∈ states) :
    randVal w 0 x =
      some (multiplier * x % modulus, double ((multiplier * x % modulus : ℤ) / modulus)) := by
  have hpos := (pos_of_mem hx).le
  have hlt := lt_of_mem hx
  have hmodulus : modulus < 2 ^ 31 := by decide
  obtain ⟨hax, hax'⟩ := schrage.mul_mod_mem x
  obtain ⟨hrx, hrx'⟩ := schrage.mul_div_mem hpos
  obtain ⟨hnew, hnew'⟩ := schrage.sub_mem hpos hlt
  have hres := schrage.residue hpos hlt (pos_of_mem (next_mem hx)).ne'
  simp only [randVal, ne_eq, not_true_eq_false, if_false, Int.tdiv_eq_ediv_of_nonneg hpos,
    Int.tmod_eq_emod_of_nonneg hpos, long_eq hw (v := multiplier * (x % quotient)) (by linarith)
    (by linarith), long_eq hw (v := remainder * (x / quotient)) (by linarith) (by linarith),
    long_eq hw (v := multiplier * (x % quotient) - remainder * (x / quotient)) (by linarith)
    (by linarith), Option.bind_eq_bind, Option.bind_some]
  split_ifs at hres ⊢ with h
  · simp [hres]
  · rw [long_eq hw (by linarith) (by linarith), hres]
    rfl

/-- What a call returns is neither 0 nor 1. -/
theorem double_mem (hx : x ∈ states) :
    0 < double ((x : ℚ) / modulus) ∧ double ((x : ℚ) / modulus) < 1 := by
  have hpos : (1 : ℚ) ≤ x := by exact_mod_cast hx.1
  have hle : (x : ℚ) ≤ modulus - 1 := by exact_mod_cast hx.2
  have hm : (0 : ℚ) < modulus := by norm_num [modulus]
  refine ⟨double_pos (by positivity), double_lt_one (by positivity) ?_⟩
  calc (x : ℚ) / modulus ≤ (modulus - 1) / modulus := by gcongr
    _ ≤ 1 - 1 / 2 ^ 52 := by norm_num [modulus]

/-- **The loop of `exponential` ends in its first pass.** -/
theorem pull_one (hw : 32 ≤ w) (hx : x ∈ states) :
    ∃ y, randVal w 0 x = some y ∧ pull w 1 x = some y := by
  obtain ⟨hpos, hlt⟩ := double_mem (next_mem hx)
  refine ⟨_, randVal_zero hw hx, ?_⟩
  rw [pull, randVal_zero hw hx, Option.bind_some, if_neg]
  exact fun h => h.elim hpos.ne' hlt.ne

end Call

/-! ### The cycle -/

section Cycle

variable {w : ℕ} {x : ℤ}

theorem calls_eq (hw : 32 ≤ w) (hx : x ∈ states) (k : ℕ) :
    calls w k x = some (multiplier ^ k * x % modulus) := by
  induction k generalizing x with
  | zero =>
    rw [calls, pow_zero, one_mul, Int.emod_eq_of_lt (pos_of_mem hx).le (lt_of_mem hx)]
  | succ k ih =>
    rw [calls, randVal_zero hw hx, Option.bind_some, ih (next_mem hx), Int.mul_emod,
      Int.emod_emod_of_dvd _ dvd_rfl, ← Int.mul_emod, pow_succ, mul_assoc]

theorem calls_eq_some_iff (hw : 32 ≤ w) (hx : x ∈ states) {y : ℤ} (hy : y ∈ states) (k : ℕ) :
    calls w k x = some y ↔ (16807 : ZMod 2147483647) ^ k * x = y := by
  rw [calls_eq hw hx, Option.some_inj, ← cast_pow_mul]
  refine ⟨fun h => by rw [← h, cast_emod], fun h => ?_⟩
  exact eq_of_cast (pow_mul_mem hx k) hy (by rw [cast_emod, h])

/-- **The full period.** From every state but 0 one call leads to the product with the multiplier
modulo the modulus, without overflow in 32 bits; the states come back after `2 ^ 31 - 2` calls and
not earlier, and every value is visited once. The loop of `exponential` ends in its first pass, with
the number that it has drawn there. -/
theorem randVal_fullPeriod (hw : 32 ≤ w) (hx : x ∈ Set.Icc 1 (2 ^ 31 - 2)) :
    (∃ z, randVal w 0 x = some (16807 * x % (2 ^ 31 - 1), z)) ∧
      16807 * x % (2 ^ 31 - 1) ∈ Set.Icc 1 (2 ^ 31 - 2) ∧
      (∀ k, calls w k x = some x ↔ 2 ^ 31 - 2 ∣ k) ∧
      (∀ y ∈ Set.Icc (1 : ℤ) (2 ^ 31 - 2), ∃! k, k < 2 ^ 31 - 2 ∧ calls w k x = some y) ∧
      ∀ k, ∃ y z, calls w k x = some y ∧ randVal w 0 y = some z ∧ pull w 1 y = some z := by
  have hx' : x ∈ states := hx
  have hx₀ := cast_ne_zero hx'
  refine ⟨⟨_, randVal_zero hw hx'⟩, next_mem hx', fun k => ?_, fun y hy => ?_, fun k => ?_⟩
  · rw [calls_eq_some_iff hw hx' hx']
    exact Lehmer.pow_mul_eq_self_iff (p := 2147483647) orderOf_multiplier hx₀
  · have hy' : y ∈ states := hy
    simp only [calls_eq_some_iff hw hx' hy']
    exact Lehmer.existsUnique_pow_mul_eq (p := 2147483647) orderOf_multiplier hx₀
      (cast_ne_zero hy')
  · obtain ⟨z, hz⟩ := pull_one hw (pow_mul_mem hx' k)
    exact ⟨_, z, calls_eq hw hx' k, hz⟩

theorem randVal_fullPeriod_seeded :
    (∃ z, randVal 64 0 1 = some (16807 * 1 % (2 ^ 31 - 1), z)) ∧
      16807 * 1 % (2 ^ 31 - 1) ∈ Set.Icc (1 : ℤ) (2 ^ 31 - 2) ∧
      (∀ k, calls 64 k 1 = some 1 ↔ 2 ^ 31 - 2 ∣ k) ∧
      (∀ y ∈ Set.Icc (1 : ℤ) (2 ^ 31 - 2), ∃! k, k < 2 ^ 31 - 2 ∧ calls 64 k 1 = some y) ∧
      ∀ k, ∃ y z, calls 64 k 1 = some y ∧ randVal 64 0 y = some z ∧ pull 64 1 y = some z :=
  randVal_fullPeriod (by decide) (by norm_num)

end Cycle

end Parikshan.Simulator
