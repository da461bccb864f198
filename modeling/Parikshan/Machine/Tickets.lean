import Mathlib.Logic.Function.Basic
import Mathlib.Data.Set.Card
import Mathlib.Tactic.Common

/-!
# Numbers handed out by a counter

Takers read a counter, become pending with the number they read, and settle when the counter has
been incremented on their behalf. If no taker becomes pending while another is, every number below
the counter is settled by exactly one taker.

## Main definitions

* `Ticketed n P S`: with the counter at `n`, `P` the pending and `S` the settled numbers.
* `Listed l H`: the takers in the order of their numbers.
* `Counted n S`: the counter is the number of settled takers, however they interleave.

## Main results

* `Ticketed.take`, `Ticketed.settle`: the two steps of a taker.
* `Ticketed.injective`, `Ticketed.exists_taken`: when a number is held twice.
* `Listed.append`: a taker takes the next number.
* `Counted.lt`: a taker that is not settled reads a number below the number of takers.
-/

namespace Parikshan

variable {ι : Type*} {n c d : ℕ} {P S : ι → Option ℕ} {i j : ι}

/-- The pending takers hold the value of the counter, and there is at most one; the settled ones
hold the numbers below it, each of them exactly once. -/
structure Ticketed (n : ℕ) (P S : ι → Option ℕ) : Prop where
  pending_eq : ∀ i c, P i = some c → c = n
  pending_unique : ∀ i j, P i ≠ none → P j ≠ none → i = j
  settled_lt : ∀ i c, S i = some c → c < n
  settled_inj : ∀ i j c, S i = some c → S j = some c → i = j
  settled_surj : ∀ c < n, ∃ i, S i = some c

namespace Ticketed

theorem zero : Ticketed 0 (fun _ : ι => none) fun _ => none where
  pending_eq _ _ h := by cases h
  pending_unique _ _ h := absurd rfl h
  settled_lt _ _ h := by cases h
  settled_inj _ _ _ h := by cases h
  settled_surj _ h := absurd h (Nat.not_lt_zero _)

variable [DecidableEq ι]

/-- A taker reads the counter while no other is pending. -/
theorem take (h : Ticketed n P S) (hP : ∀ j, P j = none) :
    Ticketed n (Function.update P i (some n)) S where
  pending_eq j c hj := by
    rw [Function.update_apply] at hj
    split_ifs at hj
    · exact (Option.some.inj hj).symm
    · exact h.pending_eq j c hj
  pending_unique j k hj hk := by
    have hi {j : ι} (hj : Function.update P i (some n) j ≠ none) : j = i := by
      by_contra hne
      exact hj (by rw [Function.update_of_ne hne, hP])
    rw [hi hj, hi hk]
  settled_lt := h.settled_lt
  settled_inj := h.settled_inj
  settled_surj := h.settled_surj

/-- A pending taker settles when the counter is incremented. -/
theorem settle (h : Ticketed n P S) (hP : P i = some c) (hS : S i = none) :
    Ticketed (n + 1) (Function.update P i none) (Function.update S i (some c)) where
  pending_eq j d hj := by
    rw [Function.update_apply] at hj
    split_ifs at hj with hji
    exact absurd (h.pending_unique j i (by simp [hj]) (by simp [hP])) hji
  pending_unique j k hj := by
    refine absurd ?_ hj
    rw [Function.update_apply]
    split_ifs with hji
    · rfl
    · by_contra hne
      exact hji (h.pending_unique j i hne (by simp [hP]))
  settled_lt j d hj := by
    rw [Function.update_apply] at hj
    split_ifs at hj
    · rw [← Option.some.inj hj, h.pending_eq i c hP]
      exact Nat.lt_succ_self n
    · exact (h.settled_lt j d hj).trans (Nat.lt_succ_self n)
  settled_inj j k d hj hk := by
    have hc := h.pending_eq i c hP
    rw [Function.update_apply] at hj hk
    split_ifs at hj hk with hji hki hki
    · rw [hji, hki]
    · have hlt := h.settled_lt k d hk
      have hd := Option.some.inj hj
      omega
    · have hlt := h.settled_lt j d hj
      have hd := Option.some.inj hk
      omega
    · exact h.settled_inj j k d hj hk
  settled_surj d hd := by
    by_cases hdn : d = n
    · exact ⟨i, by rw [Function.update_self, h.pending_eq i c hP, hdn]⟩
    · obtain ⟨j, hj⟩ := h.settled_surj d (by omega)
      refine ⟨j, ?_⟩
      rw [Function.update_of_ne ?_, hj]
      rintro rfl
      simp [hS] at hj

omit [DecidableEq ι] in
/-- No two takers hold the same number, pending or settled. -/
theorem injective (h : Ticketed n P S) {H : ι → Option ℕ}
    (hH : ∀ i c, H i = some c → P i = some c ∨ S i = some c) (hi : H i = some c)
    (hj : H j = some c) : i = j := by
  rcases hH i c hi with hi | hi <;> rcases hH j c hj with hj | hj
  · exact h.pending_unique i j (by simp [hi]) (by simp [hj])
  · exact absurd (h.settled_lt j c hj) (by simp [h.pending_eq i c hi])
  · exact absurd (h.settled_lt i c hi) (by simp [h.pending_eq j c hj])
  · exact h.settled_inj i j c hi hj

omit [DecidableEq ι] in
/-- A number that is not the counter's, or that another taker is pending with, is taken. -/
theorem exists_taken (h : Ticketed n P S) (hle : c ≤ n)
    (hbad : c ≠ n ∨ ∃ j, j ≠ i ∧ P j ≠ none) (hS : S i = none) :
    ∃ j, j ≠ i ∧ (P j = some c ∨ S j = some c) := by
  by_cases hc : c = n
  · obtain ⟨j, hji, hj⟩ := hbad.resolve_left (not_not_intro hc)
    obtain ⟨d, hd⟩ := Option.ne_none_iff_exists'.mp hj
    exact ⟨j, hji, Or.inl (by rw [hd, h.pending_eq j d hd, hc])⟩
  · obtain ⟨j, hj⟩ := h.settled_surj c (by omega)
    refine ⟨j, ?_, Or.inr hj⟩
    rintro rfl
    simp [hS] at hj

end Ticketed

/-- The takers in the order of their numbers. -/
def Listed (l : List ι) (H : ι → Option ℕ) : Prop := ∀ c i, l[c]? = some i ↔ H i = some c

namespace Listed

variable {l : List ι} {H : ι → Option ℕ}

theorem nil : Listed [] fun _ : ι => none := by simp [Listed]

/-- The list is as long as there are numbers. -/
theorem length_eq (h : Listed l H) (hlt : ∀ i c, H i = some c → c < n)
    (hsurj : ∀ c < n, ∃ i, H i = some c) : l.length = n := by
  rcases Nat.lt_trichotomy l.length n with hlen | hlen | hlen
  · obtain ⟨i, hi⟩ := hsurj l.length hlen
    have hget := (h l.length i).mpr hi
    simp at hget
  · exact hlen
  · exact absurd (hlt _ n ((h n l[n]).mp (List.getElem?_eq_getElem hlen))) (Nat.lt_irrefl n)

/-- A taker that holds no number takes the next one. -/
theorem append [DecidableEq ι] (h : Listed l H) (hi : H i = none) :
    Listed (l ++ [i]) (Function.update H i (some l.length)) := by
  intro c j
  rcases Nat.lt_trichotomy c l.length with hc | rfl | hc
  · rw [List.getElem?_append_left hc, h c j, Function.update_apply]
    split_ifs with hji
    · subst hji
      simp [hi, hc.ne']
    · rfl
  · rw [List.getElem?_append_right le_rfl, Nat.sub_self, Function.update_apply]
    split_ifs with hji
    · simp [hji]
    · have hnone : H j ≠ some l.length := fun hj => by simpa using (h l.length j).mpr hj
      simpa [hnone] using Ne.symm hji
  · have hnone : H j ≠ some c := fun hj => by
      have hget := (h c j).mpr hj
      rw [List.getElem?_eq_none hc.le] at hget
      cases hget
    rw [List.getElem?_eq_none (by simpa using hc), Function.update_apply]
    split_ifs
    · simp [hc.ne]
    · simpa using hnone

end Listed

/-- The counter is the number of settled takers. -/
def Counted (n : ℕ) (S : ι → Option ℕ) : Prop := {i | S i ≠ none}.encard = n

namespace Counted

theorem zero : Counted 0 fun _ : ι => none := by simp [Counted]

/-- A taker that has not settled does so when the counter is incremented. -/
theorem settle [DecidableEq ι] (h : Counted n S) (hS : S i = none) :
    Counted (n + 1) (Function.update S i (some c)) := by
  have hset : {j | Function.update S i (some c) j ≠ none} = insert i {j | S j ≠ none} := by
    ext j
    by_cases hji : j = i
    · simp [hji]
    · simp [hji]
  rw [Counted, hset, Set.encard_insert_of_notMem (by simpa using hS), h]
  norm_cast

/-- A taker that has not settled reads a number below the number of takers. -/
theorem lt {S : ℕ → Option ℕ} {i N : ℕ} (h : Counted n S) (hN : ∀ j, N ≤ j → S j = none)
    (hi : i < N) (hS : S i = none) : n < N := by
  have hsub : insert i {j | S j ≠ none} ⊆ ((Finset.range N : Finset ℕ) : Set ℕ) := by
    rintro j (rfl | hj)
    · simpa using hi
    · by_contra hlt
      exact hj (hN j (by simpa using hlt))
  have hcard := Set.encard_le_encard hsub
  rw [Set.encard_insert_of_notMem (by simpa using hS), h, Set.encard_coe_eq_coe_finsetCard,
    Finset.card_range] at hcard
  exact_mod_cast hcard

end Counted

end Parikshan
