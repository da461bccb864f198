import Mathlib.Data.List.Basic
import Mathlib.Data.Option.Basic
import Mathlib.Tactic.Common

/-!
# Labelled machines

A machine has a partial step function: `step s a` is the state after the step labelled `a`, and
`none` when that step is not enabled in `s`. All nondeterminism (the scheduler, the environment,
the outcome of a call) is in the labels, so a run is determined by its labels and a property of
every interleaving is a property of every list of labels.

## Main definitions

* `Machine.run`: finite runs.
* `Machine.Along`: a condition on the steps of a run, each judged in the state before the step.
* `Machine.Throughout`: a property of all states of a run.
* `Machine.check`: a condition evaluated along a run.
* `Machine.recorded`: the machine that keeps the labels of its steps.
* `Machine.track`: a history variable, computed beside a run.

## Main results

* `Machine.Along.invariant`: an invariant kept by the steps that meet a condition.
* `Machine.Along.track_invariant`: the same for an invariant that mentions a history variable.
* `Machine.along_iff_throughout`: a condition on steps that is exact for a property of states.
* `Machine.Along.dichotomy`: a condition on steps whose violation cannot be undone.
-/

namespace Parikshan

/-- A machine with labelled partial steps. -/
structure Machine (σ α : Type*) where
  step : σ → α → Option σ

namespace Machine

variable {σ α η : Type*} (M : Machine σ α)

/-! ### Runs -/

/-- The state after the steps labelled by a list, if all of them are enabled. -/
def run : σ → List α → Option σ
  | s, [] => some s
  | s, a :: as => (M.step s a).bind fun t => run t as

@[simp] theorem run_nil (s : σ) : M.run s [] = some s := rfl

theorem run_cons (s : σ) (a : α) (as : List α) :
    M.run s (a :: as) = (M.step s a).bind fun t => M.run t as := rfl

theorem run_cons_eq_some {s u : σ} {a : α} {as : List α} :
    M.run s (a :: as) = some u ↔ ∃ t, M.step s a = some t ∧ M.run t as = some u := by
  rw [run_cons, Option.bind_eq_some_iff]

theorem run_append (s : σ) (as bs : List α) :
    M.run s (as ++ bs) = (M.run s as).bind fun t => M.run t bs := by
  induction as generalizing s with
  | nil => rfl
  | cons a as ih =>
    rw [List.cons_append, run_cons, run_cons, Option.bind_assoc]
    exact Option.bind_congr fun t _ => ih t

theorem run_append_eq_some {s u : σ} {as bs : List α} :
    M.run s (as ++ bs) = some u ↔ ∃ t, M.run s as = some t ∧ M.run t bs = some u := by
  rw [run_append, Option.bind_eq_some_iff]

variable {M} in
theorem run_concat {s t u : σ} {as : List α} {a : α} (hrun : M.run s as = some t)
    (hstep : M.step t a = some u) : M.run s (as ++ [a]) = some u := by
  rw [run_append, hrun, Option.bind_some, run_cons, hstep, Option.bind_some, run_nil]

/-! ### Conditions along a run -/

/-- Every step of the run meets `G`, judged in the state before the step. -/
def Along (G : σ → α → Prop) : σ → List α → Prop
  | _, [] => True
  | s, a :: as => ∀ t, M.step s a = some t → G s a ∧ Along G t as

/-- Every state of the run, the first and the last included, has `P`. -/
def Throughout (P : σ → Prop) : σ → List α → Prop
  | s, [] => P s
  | s, a :: as => P s ∧ ∀ t, M.step s a = some t → Throughout P t as

variable {M} {G : σ → α → Prop} {P I : σ → Prop}

theorem along_of_forall_mem {Q : α → Prop} {as : List α} (h : ∀ a ∈ as, Q a) (s : σ) :
    M.Along (fun _ a => Q a) s as := by
  induction as generalizing s with
  | nil => trivial
  | cons a as ih =>
    exact fun t _ => ⟨h a List.mem_cons_self, ih (fun b hb => h b (List.mem_cons_of_mem _ hb)) t⟩

/-- All steps meet the condition that is none. -/
theorem along_true (s : σ) (as : List α) : M.Along (fun _ _ => True) s as :=
  along_of_forall_mem (fun _ _ => trivial) s

/-- A Boolean condition, evaluated along a run. -/
def check (M : Machine σ α) (g : σ → α → Bool) : σ → List α → Bool
  | _, [] => true
  | s, a :: as => (M.step s a).all fun t => g s a && check M g t as

theorem along_of_check {g : σ → α → Bool} {s : σ} {as : List α} (h : M.check g s as = true) :
    M.Along (fun s a => g s a = true) s as := by
  induction as generalizing s with
  | nil => trivial
  | cons a as ih =>
    intro t ht
    simp only [check, ht, Option.all_some, Bool.and_eq_true] at h
    exact ⟨h.1, ih h.2⟩

theorem Along.and {H : σ → α → Prop} {s : σ} {as : List α} (hG : M.Along G s as)
    (hH : M.Along H s as) : M.Along (fun s a => G s a ∧ H s a) s as := by
  induction as generalizing s with
  | nil => trivial
  | cons a as ih =>
    exact fun t ht => ⟨⟨(hG t ht).1, (hH t ht).1⟩, ih (hG t ht).2 (hH t ht).2⟩

theorem Along.mono {H : σ → α → Prop} (h : ∀ s a, G s a → H s a) {s : σ} {as : List α}
    (hG : M.Along G s as) : M.Along H s as := by
  induction as generalizing s with
  | nil => trivial
  | cons a as ih => exact fun t ht => ⟨h s a (hG t ht).1, ih (hG t ht).2⟩

theorem along_of_decide {H : σ → α → Prop} [∀ s a, Decidable (H s a)] {s : σ} {as : List α}
    (h : M.check (fun s a => decide (H s a)) s as = true) : M.Along H s as :=
  (along_of_check h).mono fun _ _ => of_decide_eq_true

/-- **Invariant rule.** A property of the first state that every step meeting `G` keeps holds in
the last state of every run whose steps meet `G`. -/
theorem Along.invariant (hstep : ∀ s a t, I s → G s a → M.step s a = some t → I t)
    {s t : σ} {as : List α} (hG : M.Along G s as) (hs : I s) (hrun : M.run s as = some t) :
    I t := by
  induction as generalizing s with
  | nil => exact Option.some.inj hrun ▸ hs
  | cons a as ih =>
    obtain ⟨u, hu, hrun⟩ := (run_cons_eq_some M).mp hrun
    obtain ⟨ha, hG⟩ := hG u hu
    exact ih hG (hstep s a u hs ha hu) hrun

/-- An invariant of all steps holds in every reachable state. -/
theorem invariant_of_step (hstep : ∀ s a t, I s → M.step s a = some t → I t) {s t : σ}
    {as : List α} (hs : I s) (hrun : M.run s as = some t) : I t :=
  Along.invariant (fun s a t hs _ => hstep s a t hs) (along_true s as) hs hrun

/-- An invariant of the steps that meet `G` holds in all states of a run whose steps meet `G`. -/
theorem Along.throughout (hstep : ∀ s a t, I s → G s a → M.step s a = some t → I t)
    (hIP : ∀ s, I s → P s) {s : σ} {as : List α} (hG : M.Along G s as) (hs : I s) :
    M.Throughout P s as := by
  induction as generalizing s with
  | nil => exact hIP s hs
  | cons a as ih =>
    refine ⟨hIP s hs, fun t ht => ?_⟩
    obtain ⟨ha, hG⟩ := hG t ht
    exact ih hG (hstep s a t hs ha ht)

theorem Throughout.last {s t : σ} {as : List α} (h : M.Throughout P s as)
    (hrun : M.run s as = some t) : P t := by
  induction as generalizing s with
  | nil => exact Option.some.inj hrun ▸ h
  | cons a as ih =>
    obtain ⟨u, hu, hrun⟩ := (run_cons_eq_some M).mp hrun
    exact ih (h.2 u hu) hrun

/-- **Invariant rule with labels.** A property of the labels so far and the state that every step
meeting `G` keeps. -/
theorem Along.labels_invariant {J : List α → σ → Prop}
    (hstep : ∀ past s a t, J past s → G s a → M.step s a = some t → J (past ++ [a]) t)
    {s t : σ} {past as : List α} (hG : M.Along G s as) (hs : J past s)
    (hrun : M.run s as = some t) : J (past ++ as) t := by
  induction as generalizing s past with
  | nil =>
    obtain rfl := Option.some.inj hrun
    rwa [List.append_nil]
  | cons a as ih =>
    obtain ⟨u, hu, hrun⟩ := (run_cons_eq_some M).mp hrun
    obtain ⟨ha, hG⟩ := hG u hu
    rw [← List.singleton_append, ← List.append_assoc]
    exact ih hG (hstep past s a u hs ha hu) hrun

theorem labels_invariant_of_step {J : List α → σ → Prop}
    (hstep : ∀ past s a t, J past s → M.step s a = some t → J (past ++ [a]) t)
    {s t : σ} {past as : List α} (hs : J past s) (hrun : M.run s as = some t) :
    J (past ++ as) t :=
  Along.labels_invariant (fun past s a t hs _ => hstep past s a t hs) (along_true s as) hs hrun

/-- A condition on steps that follows from another one in the states of an invariant. -/
theorem Along.imp {H : σ → α → Prop} (hstep : ∀ s a t, I s → H s a → M.step s a = some t → I t)
    (himp : ∀ s a t, I s → H s a → M.step s a = some t → G s a) {s : σ} {as : List α} (hs : I s)
    (hH : M.Along H s as) : M.Along G s as := by
  induction as generalizing s with
  | nil => trivial
  | cons a as ih =>
    intro t ht
    obtain ⟨ha, hH⟩ := hH t ht
    exact ⟨himp s a t hs ha ht, ih (hstep s a t hs ha ht) hH⟩

/-- **Exact step conditions.** Among the runs whose steps all meet `H`, let `I` be an invariant of
the steps that meet `G` which implies `P`, and let a step that does not meet `G` always lead out of
`P`. Then the states of a run all have `P` if and only if its steps all meet `G`. -/
theorem along_iff_throughout {H : σ → α → Prop}
    (hstep : ∀ s a t, I s → H s a → G s a → M.step s a = some t → I t) (hIP : ∀ s, I s → P s)
    (hbreak : ∀ s a t, I s → H s a → ¬ G s a → M.step s a = some t → ¬ P t)
    {s : σ} {as : List α} (hs : I s) (hH : M.Along H s as) :
    M.Along G s as ↔ M.Throughout P s as := by
  refine ⟨fun hG => (hH.and hG).throughout
    (fun s a t hs h => hstep s a t hs h.1 h.2) hIP hs, fun hP => ?_⟩
  induction as generalizing s with
  | nil => trivial
  | cons a as ih =>
    intro t ht
    obtain ⟨hHa, hH⟩ := hH t ht
    have htail := hP.2 t ht
    have hPt : P t := by
      cases as with
      | nil => exact htail
      | cons b bs => exact htail.1
    have ha : G s a := by
      by_contra hbad
      exact hbreak s a t hs hHa hbad ht hPt
    exact ⟨ha, ih (hstep s a t hs hHa ha ht) hH htail⟩

/-- **A step that cannot be undone.** Among the runs whose steps all meet `H`, let `I` be an
invariant of the steps that meet `G`, and let a step that does not meet `G` lead to `B`, for good.
Then a run whose steps all meet `G` ends in `I`, and any other one in `B`. -/
theorem Along.dichotomy {H : σ → α → Prop} {B : σ → Prop}
    (hstep : ∀ s a t, I s → H s a → G s a → M.step s a = some t → I t)
    (hbreak : ∀ s a t, I s → H s a → ¬ G s a → M.step s a = some t → B t)
    (hpersist : ∀ s a t, B s → H s a → M.step s a = some t → B t)
    {s t : σ} {as : List α} (hs : I s) (hH : M.Along H s as) (hrun : M.run s as = some t) :
    M.Along G s as ∧ I t ∨ ¬ M.Along G s as ∧ B t := by
  induction as generalizing s with
  | nil => exact Or.inl ⟨trivial, Option.some.inj hrun ▸ hs⟩
  | cons a as ih =>
    obtain ⟨u, hu, hrun⟩ := (run_cons_eq_some M).mp hrun
    obtain ⟨ha, hH⟩ := hH u hu
    by_cases hG : G s a
    · refine (ih (hstep s a u hs ha hG hu) hH hrun).imp (fun h => ⟨fun v hv => ?_, h.2⟩)
        fun h => ⟨fun hall => h.1 (hall u hu).2, h.2⟩
      obtain rfl := Option.some.inj (hu.symm.trans hv)
      exact ⟨hG, h.1⟩
    · exact Or.inr ⟨fun hall => hG (hall u hu).1,
        hH.invariant (fun s a t hs ha h => hpersist s a t hs ha h) (hbreak s a u hs ha hG hu) hrun⟩

theorem along_append {s : σ} {as bs : List α} (hG : M.Along G s as)
    (hH : ∀ t, M.run s as = some t → M.Along G t bs) : M.Along G s (as ++ bs) := by
  induction as generalizing s with
  | nil => exact hH s rfl
  | cons a as ih =>
    intro t ht
    refine ⟨(hG t ht).1, ih (hG t ht).2 fun u hu => hH u ?_⟩
    exact (run_cons_eq_some M).mpr ⟨t, ht, hu⟩

theorem Along.append_left {s : σ} {as bs : List α} (h : M.Along G s (as ++ bs)) :
    M.Along G s as := by
  induction as generalizing s with
  | nil => trivial
  | cons a as ih => exact fun t ht => ⟨(h t ht).1, ih (h t ht).2⟩

theorem Along.of_append {s t : σ} {as bs : List α} (h : M.Along G s (as ++ bs))
    (hrun : M.run s as = some t) : M.Along G t bs := by
  induction as generalizing s with
  | nil => exact Option.some.inj hrun ▸ h
  | cons a as ih =>
    obtain ⟨u, hu, hrun⟩ := (run_cons_eq_some M).mp hrun
    exact ih (h u hu).2 hrun

/-! ### History variables -/

variable (M) in
/-- The machine that keeps the labels of its steps. -/
def recorded : Machine (σ × List α) α where
  step s a := (M.step s.1 a).map fun t => (t, s.2 ++ [a])

theorem run_recorded {s t : σ} {past as : List α} (h : M.run s as = some t) :
    M.recorded.run (s, past) as = some (t, past ++ as) := by
  induction as generalizing s past with
  | nil =>
    obtain rfl := Option.some.inj h
    rw [run_nil, List.append_nil]
  | cons a as ih =>
    obtain ⟨u, hu, h⟩ := (run_cons_eq_some M).mp h
    refine (run_cons_eq_some _).mpr ⟨(u, past ++ [a]), by simp [recorded, hu], ?_⟩
    rw [ih h, List.append_assoc, List.singleton_append]

variable (M) in
/-- The value of a history variable after a run: `upd` is applied at each step to the state
before the step and its label. -/
def track (upd : σ → α → η → η) : σ → List α → η → η
  | _, [], h => h
  | s, a :: as, h =>
    match M.step s a with
    | none => h
    | some t => track upd t as (upd s a h)

/-- **Invariant rule with history.** -/
theorem Along.track_invariant {upd : σ → α → η → η} {J : σ → η → Prop}
    (hstep : ∀ s a t h, J s h → G s a → M.step s a = some t → J t (upd s a h))
    {s t : σ} {as : List α} {h : η} (hG : M.Along G s as) (hs : J s h)
    (hrun : M.run s as = some t) : J t (M.track upd s as h) := by
  induction as generalizing s h with
  | nil => exact Option.some.inj hrun ▸ hs
  | cons a as ih =>
    obtain ⟨u, hu, hrun⟩ := (run_cons_eq_some M).mp hrun
    obtain ⟨ha, hG⟩ := hG u hu
    simp only [track, hu]
    exact ih hG (hstep s a u h hs ha hu) hrun

end Machine

end Parikshan
