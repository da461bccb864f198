import Mathlib.Data.List.Basic
import Mathlib.Logic.Function.Basic
import Mathlib.Tactic.Common

/-!
# Linked cells in a heap

A heap maps the allocated addresses to cells, each with data and a link; a pointer is an address or
null. A chain leads from a pointer along the links to null. What is written to cells off the chain
does not change it, and so a chain grows at its end and shrinks at its front.

## Main definitions

* `Cell`, `Heap`: the cells and where they are.
* `Chain`: the addresses from a pointer to null.

## Main results

* `Chain.congr`: a chain depends on its own cells only.
* `Chain.concat`: linking a cell to the end of a chain.
-/

namespace Parikshan.Pointers

/-- A cell of a linked list. -/
structure Cell (α : Type*) where
  data : α
  link : Option ℕ
  deriving DecidableEq, Repr

/-- The cells that are allocated. -/
abbrev Heap (α : Type*) := ℕ → Option (Cell α)

/-- The links lead from `p` over the addresses of the list to null. -/
inductive Chain {α : Type*} (h : Heap α) : Option ℕ → List ℕ → Prop
  | nil : Chain h none []
  | cons {a : ℕ} {c : Cell α} {l : List ℕ} (hc : h a = some c) (hl : Chain h c.link l) :
      Chain h (some a) (a :: l)

namespace Chain

variable {α : Type*} {h h' : Heap α} {p : Option ℕ} {a b : ℕ} {l : List ℕ} {c : Cell α}

theorem eq_nil_iff (hp : Chain h p l) : p = none ↔ l = [] := by
  cases hp <;> simp

theorem allocated (hp : Chain h p l) (ha : a ∈ l) : ∃ c, h a = some c := by
  induction hp with
  | nil => cases ha
  | cons hc hl ih =>
    rcases List.mem_cons.mp ha with rfl | ha
    · exact ⟨_, hc⟩
    · exact ih ha

/-- A chain depends on its own cells only. -/
theorem congr (hp : Chain h p l) (heq : ∀ a ∈ l, h' a = h a) : Chain h' p l := by
  induction hp with
  | nil => exact .nil
  | cons hc hl ih =>
    refine .cons ((heq _ List.mem_cons_self).trans hc) (ih fun a ha => ?_)
    exact heq a (List.mem_cons_of_mem _ ha)

/-- A write to a cell off the chain. -/
theorem update (hp : Chain h p l) (ha : a ∉ l) (x : Option (Cell α)) :
    Chain (Function.update h a x) p l :=
  hp.congr fun _ hb => Function.update_of_ne (ne_of_mem_of_not_mem hb ha) ..

/-- Linking a cell to the last one of a chain makes it the last one. -/
theorem concat (hp : Chain h p (l ++ [a])) (hnodup : (l ++ [a]).Nodup) (hb : b ∉ l ++ [a])
    (c : Cell α) {d : Cell α} (hcb : h b = some d) (hd : d.link = none) :
    Chain (Function.update h a (some { c with link := some b })) p (l ++ [a] ++ [b]) := by
  have hba : b ≠ a := (ne_of_mem_of_not_mem List.mem_concat_self hb).symm
  induction l generalizing p with
  | nil =>
    cases hp with
    | cons hc hl =>
      refine .cons (Function.update_self ..) (.cons ((Function.update_of_ne hba ..).trans hcb) ?_)
      rw [hd]
      exact .nil
  | cons e l ih =>
    cases hp with
    | cons hc hl =>
      rw [List.cons_append] at hnodup hb
      have hea : e ≠ a :=
        (ne_of_mem_of_not_mem List.mem_concat_self (List.nodup_cons.mp hnodup).1).symm
      exact .cons ((Function.update_of_ne hea ..).trans hc)
        (ih hl (List.nodup_cons.mp hnodup).2 fun hmem => hb (List.mem_cons_of_mem e hmem))

end Chain

end Parikshan.Pointers
