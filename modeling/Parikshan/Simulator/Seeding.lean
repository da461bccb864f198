import Parikshan.Simulator.Generator

/-!
# The seeds of the generator

`rand_val(seed)` takes every `seed` other than 0, and its comment promises random numbers for every
positive one. The largest positive `int` is the modulus itself. It is congruent to 0, and so is
every later state: since `rand_val` adds the modulus to a difference that is not positive, the state
stays at the modulus, every number is 1, and the loop of `exponential`, which rejects 1, never ends.

## Main definitions

* `Later`: the states after a call of `rand_val(seed)`.

## Main results

* `pull_modulus`: the loop that never ends.
* `randVal_seeded_iff`: which seeds are safe.
-/

namespace Parikshan.Simulator

open Numeric

variable {w : ℕ} {x y seed : ℤ}

/-- The states after `rand_val(seed)`, whatever functions are called from then on; the static
variable is `x` before. -/
inductive Later (w : ℕ) (seed x : ℤ) : ℤ → Prop
  | seed {z : ℤ × ℚ} (h : randVal w seed x = some z) : Later w seed x z.1
  | randVal {y : ℤ} {z : ℤ × ℚ} (hy : Later w seed x y) (h : randVal w 0 y = some z) :
      Later w seed x z.1
  | exponential {y : ℤ} {n : ℕ} {z : ℤ × ℚ} (hy : Later w seed x y) (h : pull w n y = some z) :
      Later w seed x z.1

/-- A call that seeds the generator makes the first step from the seed. -/
theorem randVal_seed (hseed : seed ≠ 0) (x : ℤ) : randVal w seed x = randVal w 0 seed := by
  simp only [randVal, if_pos hseed, ne_eq, not_true_eq_false, if_false]

/-! ### Safe states -/

theorem randVal_mem {z : ℤ × ℚ} (hw : 32 ≤ w) (hx : x ∈ states) (h : randVal w 0 x = some z) :
    z.1 ∈ states ∧ z.2 ∈ Set.Ioo 0 1 := by
  rw [randVal_zero hw hx] at h
  obtain rfl := Option.some.inj h
  exact ⟨next_mem hx, double_mem (next_mem hx)⟩

theorem pull_mem {n : ℕ} {z : ℤ × ℚ} (hw : 32 ≤ w) (hx : x ∈ states) (h : pull w n x = some z) :
    z.1 ∈ states := by
  induction n generalizing x with
  | zero => cases h
  | succ n ih =>
    rw [pull] at h
    obtain ⟨y, hy, h⟩ := Option.bind_eq_some_iff.mp h
    have hmem := (randVal_mem hw hx hy).1
    split_ifs at h with hreject
    · exact ih hmem h
    · exact Option.some.inj h ▸ hmem

/-- The states that follow a safe seed are safe. -/
theorem Later.mem (hw : 32 ≤ w) (hseed : seed ∈ states) (h : Later w seed x y) : y ∈ states := by
  induction h with
  | seed hz =>
    rw [randVal_seed (pos_of_mem hseed).ne'] at hz
    exact (randVal_mem hw hseed hz).1
  | randVal hy hz ih => exact (randVal_mem hw ih hz).1
  | exponential hy hz ih => exact pull_mem hw ih hz

/-! ### The modulus as a state -/

/-- The modulus is a state that a call leaves as it is, and the number that it returns is 1. -/
theorem randVal_modulus (hw : 32 ≤ w) : randVal w 0 modulus = some (modulus, 1) := by
  have hdiv : modulus.tdiv quotient = multiplier := by decide
  have hmod : modulus.tmod quotient = remainder := by decide
  have hax : long w (multiplier * remainder) = some (multiplier * remainder) :=
    long_eq hw (by decide) (by decide)
  have hrx : long w (remainder * multiplier) = some (multiplier * remainder) := by
    rw [mul_comm, hax]
  have hnew : long w (multiplier * remainder - multiplier * remainder) = some 0 := by
    rw [sub_self]
    exact long_eq hw (by decide) (by decide)
  have hm : long w (0 + modulus) = some modulus := by
    rw [zero_add]
    exact long_eq hw (by decide) (by decide)
  have hone : (modulus : ℚ) / modulus = 1 := div_self (by norm_num [modulus])
  simp only [randVal, ne_eq, not_true_eq_false, if_false, hdiv, hmod, hax, hrx, hnew, hm,
    Option.bind_eq_bind, Option.bind_some, lt_irrefl, hone, double_one]
  rfl

/-- **The loop of `exponential` never ends** once the state is the modulus. -/
theorem pull_modulus (hw : 32 ≤ w) (n : ℕ) : pull w n modulus = none := by
  induction n with
  | zero => rfl
  | succ n ih => rw [pull, randVal_modulus hw, Option.bind_some, if_pos (Or.inr rfl), ih]

/-! ### Seeds -/

/-- **Safe seeds.** After `rand_val(seed)` with a positive `int` each of the following holds if and
only if `seed` is not the modulus: every later state is between 1 and `2 ^ 31 - 2`; every call of
`rand_val(0)` returns a number between 0 and 1; in every call of `exponential` the loop ends. -/
theorem randVal_seeded_iff (hw : 32 ≤ w) (hseed : seed ∈ Set.Icc 1 (2 ^ 31 - 1)) (x : ℤ) :
    (∃ z, randVal w seed x = some z) ∧
      ((∀ y, Later w seed x y → y ∈ Set.Icc 1 (2 ^ 31 - 2)) ↔ seed ≠ 2 ^ 31 - 1) ∧
      ((∀ y, Later w seed x y → ∃ z, randVal w 0 y = some z ∧ z.2 ∈ Set.Ioo 0 1) ↔
        seed ≠ 2 ^ 31 - 1) ∧
      ((∀ y, Later w seed x y → ∃ n z, pull w n y = some z) ↔ seed ≠ 2 ^ 31 - 1) := by
  have hstart : randVal w seed x = randVal w 0 seed :=
    randVal_seed (Int.lt_of_lt_of_le one_pos hseed.1).ne' x
  have hgood (hne : seed ≠ 2 ^ 31 - 1) : seed ∈ states :=
    ⟨hseed.1, Int.le_sub_one_of_lt (lt_of_le_of_ne hseed.2 hne)⟩
  have hbad (heq : seed = modulus) : Later w seed x modulus :=
    Later.seed (by rw [hstart, heq, randVal_modulus hw])
  refine ⟨?_, ⟨fun h heq => ?_, fun hne y hy => hy.mem hw (hgood hne)⟩, ⟨fun h heq => ?_,
    fun hne y hy => ?_⟩, fun h heq => ?_, fun hne y hy => ?_⟩
  · rw [hstart]
    by_cases heq : seed = modulus
    · exact ⟨_, heq ▸ randVal_modulus hw⟩
    · exact ⟨_, randVal_zero hw (hgood heq)⟩
  · exact absurd (h modulus (hbad heq)).2 (by decide)
  · obtain ⟨z, hz, hlt⟩ := h modulus (hbad heq)
    rw [randVal_modulus hw] at hz
    obtain rfl := Option.some.inj hz
    exact lt_irrefl _ hlt.2
  · have hz := randVal_zero hw (hy.mem hw (hgood hne))
    exact ⟨_, hz, (randVal_mem hw (hy.mem hw (hgood hne)) hz).2⟩
  · obtain ⟨n, z, hz⟩ := h modulus (hbad heq)
    rw [pull_modulus hw] at hz
    cases hz
  · obtain ⟨z, -, hz⟩ := pull_one hw (hy.mem hw (hgood hne))
    exact ⟨1, z, hz⟩

/-- The largest seed that is safe. -/
theorem randVal_seeded_iff_last :
    (∃ z, randVal 64 (2 ^ 31 - 2) 0 = some z) ∧
      (∀ y, Later 64 (2 ^ 31 - 2) 0 y → y ∈ Set.Icc 1 (2 ^ 31 - 2)) ∧
      (∀ y, Later 64 (2 ^ 31 - 2) 0 y → ∃ z, randVal 64 0 y = some z ∧ z.2 ∈ Set.Ioo 0 1) ∧
      ∀ y, Later 64 (2 ^ 31 - 2) 0 y → ∃ n z, pull 64 n y = some z := by
  have hlast : (2 ^ 31 - 2 : ℤ) ∈ Set.Icc 1 (2 ^ 31 - 1) := ⟨by decide, by decide⟩
  obtain ⟨hseeded, hstates, hvalues, hends⟩ := randVal_seeded_iff (w := 64) (by decide) hlast 0
  exact ⟨hseeded, hstates.mpr (by decide), hvalues.mpr (by decide), hends.mpr (by decide)⟩

/-- **The seed that is not safe.** It is the largest `int`. -/
theorem randVal_seeded_fails :
    Later 64 2147483647 0 2147483647 ∧ 2147483647 ∉ Set.Icc (1 : ℤ) (2 ^ 31 - 2) ∧
      randVal 64 0 2147483647 = some (2147483647, 1) ∧ ∀ n, pull 64 n 2147483647 = none := by
  have hfixed : randVal 64 0 2147483647 = some (2147483647, 1) := randVal_modulus (by decide)
  refine ⟨Later.seed (z := (2147483647, 1)) ?_, fun h => absurd h.2 (by decide), hfixed,
    pull_modulus (by decide)⟩
  rw [randVal_seed (by decide), hfixed]

end Parikshan.Simulator
