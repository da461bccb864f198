import Parikshan.Machine.Basic

/-!
# Forward simulation and two-run isolation

A machine `M` is simulated by a machine `N` when each visible step of `M` is matched by the step
of `N` with the corresponding label, and each hidden step of `M` is matched by no step at all.
What `N` does is determined by its labels; hence two runs of `M` with the same visible labels,
however different their hidden steps, end in states related to one and the same state of `N`.
This is the unwinding argument for noninterference: the hidden part of `M` never feeds back.

## Main results

* `Machine.Simulation.run`: a run of `M` maps to the run of `N` on its visible labels.
* `Machine.Simulation.two_run`: isolation of the visible part.
* `Machine.Unwinding.two_run`: the same within one machine, for a view of its states.
* `Machine.run_restrict`: a run whose steps all meet a condition, as a run of a machine of its own.
-/

namespace Parikshan.Machine

variable {σ τ α β : Type*}

/-- `R` relates the states of `M` to those of `N` so that hidden steps keep the related state and
visible steps are matched label by label. -/
structure Simulation (M : Machine σ α) (N : Machine τ β) (label : α → Option β)
    (R : σ → τ → Prop) : Prop where
  hidden {s t : σ} {u : τ} {a : α} (hR : R s u) (ha : label a = none)
    (h : M.step s a = some t) : R t u
  visible {s t : σ} {u : τ} {a : α} {b : β} (hR : R s u) (ha : label a = some b)
    (h : M.step s a = some t) : ∃ v, N.step u b = some v ∧ R t v

namespace Simulation

variable {M : Machine σ α} {N : Machine τ β} {label : α → Option β} {R : σ → τ → Prop}

/-- A run of the simulated machine maps to the run on its visible labels. -/
theorem run (hS : Simulation M N label R) {s t : σ} {u : τ} {as : List α} (hR : R s u)
    (hrun : M.run s as = some t) : ∃ v, N.run u (as.filterMap label) = some v ∧ R t v := by
  induction as generalizing s u with
  | nil => exact ⟨u, rfl, Option.some.inj hrun ▸ hR⟩
  | cons a as ih =>
    obtain ⟨s', hs', hrun⟩ := (run_cons_eq_some M).mp hrun
    cases ha : label a with
    | none =>
      rw [List.filterMap_cons_none ha]
      exact ih (hS.hidden hR ha hs') hrun
    | some b =>
      obtain ⟨u', hu', hR'⟩ := hS.visible hR ha hs'
      obtain ⟨v, hv, hRv⟩ := ih hR' hrun
      refine ⟨v, ?_, hRv⟩
      rw [List.filterMap_cons_some ha]
      exact (run_cons_eq_some N).mpr ⟨u', hu', hv⟩

/-- **Isolation.** Two runs with the same visible labels, started in states related to the same
state, end in states related to the same state. -/
theorem two_run (hS : Simulation M N label R) {s₁ s₂ t₁ t₂ : σ} {u : τ} {as₁ as₂ : List α}
    (hR₁ : R s₁ u) (hR₂ : R s₂ u) (hrun₁ : M.run s₁ as₁ = some t₁)
    (hrun₂ : M.run s₂ as₂ = some t₂) (hsame : as₁.filterMap label = as₂.filterMap label) :
    ∃ v, R t₁ v ∧ R t₂ v := by
  obtain ⟨v, hv, hRv⟩ := hS.run hR₁ hrun₁
  obtain ⟨w, hw, hRw⟩ := hS.run hR₂ hrun₂
  rw [hsame] at hv
  obtain rfl : v = w := Option.some.inj (hv.symm.trans hw)
  exact ⟨v, hRv, hRw⟩

end Simulation

/-! ### Unwinding -/

/-- In the states of the invariant `I`, hidden steps do not change the view of a state, and visible
steps with the same label lead from states with the same view to states with the same view. -/
structure Unwinding {ν : Type*} (M : Machine σ α) (I : σ → Prop) (label : α → Option β)
    (view : σ → ν) : Prop where
  inv {s t : σ} {a : α} (hs : I s) (h : M.step s a = some t) : I t
  hidden {s t : σ} {a : α} (hs : I s) (ha : label a = none) (h : M.step s a = some t) :
    view t = view s
  visible {s t u v : σ} {a b : α} {c : β} (hs : I s) (hu : I u) (hsu : view s = view u)
    (ha : label a = some c) (hb : label b = some c) (hst : M.step s a = some t)
    (huv : M.step u b = some v) : view t = view v

namespace Unwinding

variable {ν : Type*} {M : Machine σ α} {I : σ → Prop} {label : α → Option β} {view : σ → ν}

theorem hidden_run (hU : Unwinding M I label view) {s t : σ} {as : List α} (hs : I s)
    (hhidden : as.filterMap label = []) (hrun : M.run s as = some t) : view t = view s := by
  induction as generalizing s with
  | nil => rw [Option.some.inj hrun]
  | cons a as ih =>
    obtain ⟨s', hs', hrun⟩ := (run_cons_eq_some M).mp hrun
    cases ha : label a with
    | none =>
      rw [List.filterMap_cons_none ha] at hhidden
      exact (ih (hU.inv hs hs') hhidden hrun).trans (hU.hidden hs ha hs')
    | some b => simp [List.filterMap_cons_some ha] at hhidden

/-- **Isolation by unwinding.** Two runs with the same visible labels, started in states with the
same view, end in states with the same view. -/
theorem two_run (hU : Unwinding M I label view) {s t u v : σ} {as bs : List α} (hs : I s)
    (hu : I u) (hsu : view s = view u) (hrun : M.run s as = some t) (hrun' : M.run u bs = some v)
    (hsame : as.filterMap label = bs.filterMap label) : view t = view v := by
  induction as generalizing s u bs with
  | nil =>
    rw [← Option.some.inj hrun, hU.hidden_run hu hsame.symm hrun', hsu]
  | cons a as ih =>
    obtain ⟨s', hs', hrun⟩ := (run_cons_eq_some M).mp hrun
    cases ha : label a with
    | none =>
      rw [List.filterMap_cons_none ha] at hsame
      exact ih (hU.inv hs hs') hu ((hU.hidden hs ha hs').trans hsu) hrun hrun' hsame
    | some c =>
      rw [List.filterMap_cons_some ha] at hsame
      -- the other run comes to the same label after hidden steps
      induction bs generalizing u with
      | nil => cases hsame
      | cons b bs ihb =>
        obtain ⟨u', hu', hrun'⟩ := (run_cons_eq_some M).mp hrun'
        cases hb : label b with
        | none =>
          rw [List.filterMap_cons_none hb] at hsame
          exact ihb (hU.inv hu hu') (hsu.trans (hU.hidden hu hb hu').symm) hrun' hsame
        | some d =>
          rw [List.filterMap_cons_some hb] at hsame
          obtain ⟨rfl, htail⟩ := List.cons.inj hsame
          exact ih (hU.inv hs hs') (hU.inv hu hu') (hU.visible hs hu hsu ha hb hs' hu') hrun
            hrun' htail

end Unwinding

/-! ### Restriction -/

/-- The machine that takes only the steps that meet `G`. -/
def restrict (M : Machine σ α) (G : σ → α → Prop) [∀ s a, Decidable (G s a)] : Machine σ α where
  step s a := if G s a then M.step s a else none

section Restrict

variable {M : Machine σ α} {G : σ → α → Prop} [∀ s a, Decidable (G s a)] {s t : σ}

theorem restrict_step {a : α} : (M.restrict G).step s a = some t ↔ G s a ∧ M.step s a = some t := by
  simp only [restrict]
  split_ifs with hG <;> simp [hG]

theorem run_restrict {as : List α} (hG : M.Along G s as) (hrun : M.run s as = some t) :
    (M.restrict G).run s as = some t := by
  induction as generalizing s with
  | nil => exact hrun
  | cons a as ih =>
    obtain ⟨u, hu, hrun⟩ := (run_cons_eq_some M).mp hrun
    obtain ⟨ha, hG⟩ := hG u hu
    exact (run_cons_eq_some _).mpr ⟨u, restrict_step.mpr ⟨ha, hu⟩, ih hG hrun⟩

end Restrict

end Parikshan.Machine
