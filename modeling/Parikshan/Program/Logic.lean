import Parikshan.Program.Basic
import Mathlib.Logic.Relation

/-!
# Pre- and postconditions of programs

A program is judged for all outcomes of its commands that meet a condition `G`, with steps of the
environment in between. An assertion between two commands must therefore be stable: no step of the
environment falsifies it. Programs that return and programs that exit have separate postconditions.

## Main definitions

* `Stable`: an assertion that the environment can not falsify.
* `Shell.Triple`: from the precondition, whatever the outcomes that meet `G`, the program returns
  with the one postcondition or exits with the other.
* `Shell.track`: the same commands on a world with a history.
* `Shell.member`, `Shell.others`: one of several programs, and the other ones as its environment.

## Main results

* `Triple.bind`, `Triple.issue`, `Triple.ret`, `Triple.exit`, `Triple.conseq`: the rules.
* `Triple.of_all`, `Triple.keep`, `Triple.track_all`, `Triple.track_keep`: a program whose commands
  all keep an invariant.
* `Triple.run`, `Triple.track_run`: a triple speaks about all runs of the machine.
* `Triple.system_run`: a triple in the environment of the others speaks about all interleavings.
-/

namespace Parikshan

/-- No step of the environment falsifies the assertion. -/
def Stable {W N : Type} (env : N → W → Option W) (P : W → Prop) : Prop :=
  ∀ n w w', P w → env n w = some w' → P w'

namespace Stable

variable {W N : Type} {env : N → W → Option W} {P Q : W → Prop}

theorem and (hP : Stable env P) (hQ : Stable env Q) : Stable env fun w => P w ∧ Q w :=
  fun n w w' h hn => ⟨hP n w w' h.1 hn, hQ n w w' h.2 hn⟩

theorem imp (p : Prop) (hP : Stable env P) : Stable env fun w => p → P w :=
  fun n w w' h hn hp => hP n w w' (h hp) hn

theorem const (p : Prop) : Stable env fun _ => p := fun _ _ _ h _ => h

/-- What the environment does not change it does not falsify. -/
theorem of_eq {β : Type} (f : W → β) (hf : ∀ n w w', env n w = some w' → f w' = f w)
    (P : β → Prop) : Stable env fun w => P (f w) := by
  intro n w w' h hn
  rw [hf n w w' hn]
  exact h

end Stable

namespace Shell

variable {C : Type} {R : C → Type} {W N α β : Type}

/-- Any number of steps of the environment. -/
def Settles (env : N → W → Option W) : W → W → Prop :=
  Relation.ReflTransGen fun w w' => ∃ n, env n w = some w'

theorem Settles.of_stable {env : N → W → Option W} {P : W → Prop} (hP : Stable env P) {w w' : W}
    (h : Settles env w w') (hw : P w) : P w' := by
  induction h with
  | refl => exact hw
  | tail _ hn ih =>
    obtain ⟨n, hn⟩ := hn
    exact hP n _ _ ih hn

section Logic

variable (S : Shell C R W) (env : N → W → Option W) (G : W → S.Event → Prop)

/-- The weakest precondition of a program. -/
def wp (Q : α → W → Prop) (E : ℕ → W → Prop) : Prog C R α → W → Prop
  | .ret a, w => ∀ w', Settles env w w' → Q a w'
  | .exit n, w => ∀ w', Settles env w w' → E n w'
  | .call c k, w => ∀ w₁, Settles env w w₁ → ∀ o w₂, G w₁ ⟨c, o⟩ → S.exec c o w₁ = some w₂ →
      wp Q E (k (S.reply c o)) w₂

/-- **Triples.** From a world with `P`, for all outcomes that meet `G` and all steps of the
environment, the program returns with `Q` or exits with `E`. -/
def Triple (P : W → Prop) (p : Prog C R α) (Q : α → W → Prop) (E : ℕ → W → Prop) : Prop :=
  ∀ w, P w → S.wp env G Q E p w

variable {S env G} {P P' : W → Prop} {Q Q' : α → W → Prop} {E E' : ℕ → W → Prop} {p : Prog C R α}

/-- The environment does not falsify a weakest precondition. -/
theorem wp_settles {w w' : W} (h : S.wp env G Q E p w) (hw : Settles env w w') :
    S.wp env G Q E p w' := by
  cases p with
  | ret a => exact fun w₁ h₁ => h w₁ (hw.trans h₁)
  | exit n => exact fun w₁ h₁ => h w₁ (hw.trans h₁)
  | call c k => exact fun w₁ h₁ => h w₁ (hw.trans h₁)

namespace Triple

/-- Strengthen the precondition and weaken the postconditions. -/
theorem conseq (h : S.Triple env G P p Q E) (hP : ∀ w, P' w → P w) (hQ : ∀ a w, Q a w → Q' a w)
    (hE : ∀ n w, E n w → E' n w) : S.Triple env G P' p Q' E' := by
  have hwp : ∀ w, S.wp env G Q E p w → S.wp env G Q' E' p w := by
    clear h
    induction p with
    | ret a => exact fun w h w' hw => hQ a w' (h w' hw)
    | exit n => exact fun w h w' hw => hE n w' (h w' hw)
    | call c k ih => exact fun w h w₁ h₁ o w₂ hG ho => ih _ w₂ (h w₁ h₁ o w₂ hG ho)
  exact fun w hw => hwp w (h w (hP w hw))

/-- Strengthen the precondition. -/
theorem pre (h : S.Triple env G P p Q E) (hP : ∀ w, P' w → P w) : S.Triple env G P' p Q E :=
  h.conseq hP (fun _ _ h => h) fun _ _ h => h

/-- Weaken the postcondition of the programs that return. -/
theorem post (h : S.Triple env G P p Q E) (hQ : ∀ a w, Q a w → Q' a w) :
    S.Triple env G P p Q' E :=
  h.conseq (fun _ h => h) hQ fun _ _ h => h

/-- **Sequencing.** -/
theorem bind {f : α → Prog C R β} {Q' : β → W → Prop} (h : S.Triple env G P p Q E)
    (hf : ∀ a, S.Triple env G (Q a) (f a) Q' E) : S.Triple env G P (p >>= f) Q' E := by
  have hwp : ∀ w, S.wp env G Q E p w → S.wp env G Q' E (p >>= f) w := by
    clear h
    induction p with
    | ret a => exact fun w h => hf a w (h w .refl)
    | exit n => exact fun w h => h
    | call c k ih => exact fun w h w₁ h₁ o w₂ hG ho => ih _ w₂ (h w₁ h₁ o w₂ hG ho)
  exact fun w hw => hwp w (h w hw)

theorem ret {a : α} (hP : Stable env P) (hQ : ∀ w, P w → Q a w) :
    S.Triple env G P (.ret a) Q E :=
  fun _ hw w' h => hQ w' (h.of_stable hP hw)

theorem exit {n : ℕ} (hP : Stable env P) (hE : ∀ w, P w → E n w) :
    S.Triple env G P (.exit n : Prog C R α) Q E :=
  fun _ hw w' h => hE w' (h.of_stable hP hw)

theorem call {c : C} {k : R c → Prog C R α} (hP : Stable env P)
    (h : ∀ o, S.Triple env G (fun w' => ∃ w, P w ∧ G w ⟨c, o⟩ ∧ S.exec c o w = some w')
      (k (S.reply c o)) Q E) : S.Triple env G P (.call c k) Q E :=
  fun _ hw w₁ h₁ o w₂ hG ho => h o w₂ ⟨w₁, h₁.of_stable hP hw, hG, ho⟩

/-- One command. -/
theorem issue {c : C} {Q : R c → W → Prop} (hP : Stable env P) (hQ : ∀ r, Stable env (Q r))
    (h : ∀ o w w', P w → G w ⟨c, o⟩ → S.exec c o w = some w' → Q (S.reply c o) w') :
    S.Triple env G P (Prog.issue c) Q E :=
  call hP fun o w' hw w₂ h₂ => h₂.of_stable (hQ _) (by
    obtain ⟨w, hPw, hG, ho⟩ := hw
    exact h o w w' hPw hG ho)

theorem when {b : Bool} {p : Prog C R Unit} {Q : Unit → W → Prop}
    (h : b = true → S.Triple env G P p Q E)
    (hQ : b = false → S.Triple env G P (.ret () : Prog C R Unit) Q E) :
    S.Triple env G P (Prog.when b p) Q E := by
  cases b with
  | true => exact h rfl
  | false => exact hQ rfl

theorem orDo {p : Prog C R Bool} {q : Prog C R Unit} {K : Bool → W → Prop} {Q : Unit → W → Prop}
    (hp : S.Triple env G P p K E) (hQ : S.Triple env G (K true) (.ret () : Prog C R Unit) Q E)
    (hq : S.Triple env G (K false) q Q E) : S.Triple env G P (p.orDo q) Q E := by
  refine hp.bind fun ok => ?_
  cases ok with
  | true => exact hQ
  | false => exact hq

theorem ignore {K : α → W → Prop} {Q : Unit → W → Prop} (hp : S.Triple env G P p K E)
    (hQ : ∀ a, S.Triple env G (K a) (.ret () : Prog C R Unit) Q E) :
    S.Triple env G P p.ignore Q E :=
  hp.bind hQ

/-- A fact about the precondition that does not depend on the world. -/
theorem of_pure {A : Prop} (hA : ∀ w, P w → A) (h : A → S.Triple env G P p Q E) :
    S.Triple env G P p Q E :=
  fun w hw => h (hA w hw) w hw

/-- **Invariants.** A program whose commands all keep an invariant keeps it, wherever it exits. -/
theorem of_all {I : W → Prop} {A : C → Prop} {V : α → Prop} {X : ℕ → Prop}
    (hall : p.All A V X) (hI : Stable env I)
    (hcall : ∀ c, A c → ∀ o w w', I w → G w ⟨c, o⟩ → S.exec c o w = some w' → I w') :
    S.Triple env G I p (fun a w => V a ∧ I w) fun n w => X n ∧ I w := by
  intro w hw
  induction p generalizing w with
  | ret a => exact fun w' h => ⟨hall, h.of_stable hI hw⟩
  | exit n => exact fun w' h => ⟨hall, h.of_stable hI hw⟩
  | call c k ih =>
    exact fun w₁ h₁ o w₂ hG ho =>
      ih _ (hall.2 _) w₂ (hcall c hall.1 o w₁ w₂ (h₁.of_stable hI hw) hG ho)

theorem of_true (p : Prog C R α) : S.Triple env G P p (fun _ _ => True) fun _ _ => True :=
  (of_all (I := fun _ => True) (A := fun _ => True) (V := fun _ => True) (X := fun _ => True)
    (.of_forall p (fun _ => trivial) (fun _ => trivial) fun _ => trivial) (Stable.const True)
    fun _ _ _ _ _ _ _ _ => trivial).conseq (fun _ _ => trivial) (fun _ _ _ => trivial)
      fun _ _ _ => trivial

/-- A program that does not exit and whose commands all keep an invariant. -/
theorem keep {I : W → Prop} {A : C → Prop} (hall : p.All A (fun _ => True) fun _ => False)
    (hI : Stable env I)
    (hcall : ∀ c, A c → ∀ o w w', I w → G w ⟨c, o⟩ → S.exec c o w = some w' → I w') :
    S.Triple env G I p (fun _ => I) E :=
  (of_all hall hI hcall).conseq (fun _ h => h) (fun _ _ h => h.2) fun _ _ h => h.1.elim

section Run

variable [DecidableEq C]

/-- A condition on the outcomes of the commands, along a run of the machine. -/
def Given (G : W → S.Event → Prop) (s : Prog C R α × W) : S.Event ⊕ N → Prop
  | .inl e => G s.2 e
  | .inr _ => True

/-- Outcomes that meet a condition in every world. -/
theorem along_play {f : ∀ c, W → Option (S.Out c)}
    (hf : ∀ c w o, f c w = some o → ∀ w', G w' ⟨c, o⟩) (p : Prog C R α) (w : W) :
    (S.machine env).Along (Given G) (p, w) ((S.play f p w).1.map Sum.inl) := by
  refine Machine.Along.mono (fun s a ha => ha s) (Machine.along_of_forall_mem
    (Q := fun a => ∀ s : Prog C R α × W, Given G s a) ?_ _)
  intro a ha s
  obtain ⟨e, he, rfl⟩ := List.mem_map.mp ha
  obtain ⟨w₁, hw₁⟩ := mem_play he
  exact hf e.1 w₁ e.2 hw₁ s.2

/-- Outcomes that meet a condition in the world in which they are chosen. -/
theorem along_play_at {f : ∀ c, W → Option (S.Out c)}
    (hf : ∀ c w o, f c w = some o → G w ⟨c, o⟩) (p : Prog C R α) (w : W) :
    (S.machine env).Along (Given G) (p, w) ((S.play f p w).1.map Sum.inl) := by
  induction p generalizing w with
  | ret a => trivial
  | exit n => trivial
  | call c k ih =>
    cases ho : f c w with
    | none => simp only [play, ho, List.map_nil, Machine.Along]
    | some o =>
      cases hw : S.exec c o w with
      | none => simp only [play, ho, hw, List.map_nil, Machine.Along]
      | some w' =>
        simp only [play, ho, hw, List.map_cons, Machine.Along]
        intro t ht
        obtain rfl := Option.some.inj ((step_call hw).symm.trans ht)
        exact ⟨hf c w o ho, ih _ w'⟩

/-- **Soundness.** In a run in which all outcomes meet `G` a program that exits does so with the
postcondition. -/
theorem run (h : S.Triple env G P p Q E) {w w' : W} {n : ℕ} {as : List (S.Event ⊕ N)} (hw : P w)
    (hG : (S.machine env).Along (Given G) (p, w) as)
    (hrun : (S.machine env).run (p, w) as = some (.exit n, w')) : E n w' := by
  have hwp : S.wp env G Q E (.exit n : Prog C R α) w' := by
    refine hG.invariant (I := fun s => S.wp env G Q E s.1 s.2) ?_ (h w hw) hrun
    rintro ⟨p₁, w₁⟩ a ⟨p₂, w₂⟩ h₁ ha hstep
    rcases machine_step_cases hstep with ⟨e, rfl, he⟩ | ⟨n, rfl, hn, hp⟩
    · obtain ⟨c, k, o, rfl, rfl, ho, rfl⟩ := step_cases he
      exact h₁ w₁ .refl o w₂ ha ho
    · obtain rfl : p₂ = p₁ := hp
      exact wp_settles h₁ (.single ⟨n, hn⟩)
  exact hwp w' .refl

end Run

end Triple

end Logic

/-! ### Histories -/

section Track

variable {η : Type} (S : Shell C R W) (upd : W → S.Event → η → η)

/-- The commands on a world with a history, which is updated with every outcome. -/
def track : Shell C R (W × η) where
  Out := S.Out
  reply := S.reply
  exec c o x := (S.exec c o x.1).map fun w => (w, upd x.1 ⟨c, o⟩ x.2)

/-- The environment leaves the history alone. -/
def trackEnv (env : N → W → Option W) (n : N) (x : W × η) : Option (W × η) :=
  (env n x.1).map fun w => (w, x.2)

/-- An assertion is stable if it is so for each history. -/
theorem stable_trackEnv {env : N → W → Option W} {P : W × η → Prop}
    (h : ∀ t, Stable env fun w => P (w, t)) : Stable (trackEnv env) P := by
  rintro n ⟨w, t⟩ x hP hx
  obtain ⟨w', hw', rfl⟩ := Option.map_eq_some_iff.mp hx
  exact h t n w w' hP hw'

/-- The history of a run of the machine. -/
def history [DecidableEq C] (s : Prog C R α × W) : S.Event ⊕ N → η → η
  | .inl e, h => upd s.2 e h
  | .inr _, h => h

variable {S upd} {env : N → W → Option W}

/-- One command with a history. -/
theorem Triple.track_issue {G : W → S.Event → Prop} {P : W × η → Prop} {c : C}
    {Q : R c → W × η → Prop} {E : ℕ → W × η → Prop} (hP : Stable (trackEnv env) P)
    (hQ : ∀ r, Stable (trackEnv env) (Q r))
    (h : ∀ o w w' t, P (w, t) → G w ⟨c, o⟩ → S.exec c o w = some w' →
      Q (S.reply c o) (w', upd w ⟨c, o⟩ t)) :
    (S.track upd).Triple (trackEnv env) (fun x e => G x.1 e) P (Prog.issue c) Q E := by
  refine Triple.issue hP hQ ?_
  rintro o ⟨w, t⟩ x hw hG hx
  obtain ⟨w', hw', rfl⟩ := Option.map_eq_some_iff.mp hx
  exact h o w w' t hw hG hw'

/-- **Invariants of a world with a history.** -/
theorem Triple.track_all {G : W → S.Event → Prop} {I : W × η → Prop} {A : C → Prop}
    {V : α → Prop} {X : ℕ → Prop} {p : Prog C R α} (hall : p.All A V X)
    (hI : Stable (trackEnv env) I)
    (hcall : ∀ c, A c → ∀ o w w' t, I (w, t) → G w ⟨c, o⟩ → S.exec c o w = some w' →
      I (w', upd w ⟨c, o⟩ t)) :
    (S.track upd).Triple (trackEnv env) (fun x e => G x.1 e) I p (fun a x => V a ∧ I x)
      fun n x => X n ∧ I x := by
  refine Triple.of_all hall hI ?_
  rintro c hc o ⟨w, t⟩ x hw hG hx
  obtain ⟨w', hw', rfl⟩ := Option.map_eq_some_iff.mp hx
  exact hcall c hc o w w' t hw hG hw'

/-- A program that does not exit, on a world with a history. -/
theorem Triple.track_keep {G : W → S.Event → Prop} {I : W × η → Prop} {A : C → Prop}
    {p : Prog C R α} {E : ℕ → W × η → Prop} (hall : p.All A (fun _ => True) fun _ => False)
    (hI : Stable (trackEnv env) I)
    (hcall : ∀ c, A c → ∀ o w w' t, I (w, t) → G w ⟨c, o⟩ → S.exec c o w = some w' →
      I (w', upd w ⟨c, o⟩ t)) :
    (S.track upd).Triple (trackEnv env) (fun x e => G x.1 e) I p (fun _ => I) E :=
  (Triple.track_all hall hI hcall).conseq (fun _ h => h) (fun _ _ h => h.2)
    fun _ _ h => h.1.elim

/-- **Soundness with a history.** -/
theorem Triple.track_run [DecidableEq C] {G : W → S.Event → Prop} {P : W × η → Prop}
    {p : Prog C R α} {Q : α → W × η → Prop} {E : ℕ → W × η → Prop}
    (h : (S.track upd).Triple (trackEnv env) (fun x e => G x.1 e) P p Q E) {w w' : W} {t : η}
    {n : ℕ} {as : List (S.Event ⊕ N)} (hw : P (w, t))
    (hG : (S.machine env).Along (Given G) (p, w) as)
    (hrun : (S.machine env).run (p, w) as = some (.exit n, w')) :
    E n (w', (S.machine env).track (S.history upd) (p, w) as t) := by
  have hwp : (S.track upd).wp (trackEnv env) (fun x e => G x.1 e) Q E (.exit n : Prog C R α)
      (w', (S.machine env).track (S.history upd) (p, w) as t) := by
    refine hG.track_invariant (h := t)
      (J := fun s h => (S.track upd).wp (trackEnv env) (fun x e => G x.1 e) Q E s.1 (s.2, h)) ?_
      (h _ hw) hrun
    rintro ⟨p₁, w₁⟩ a ⟨p₂, w₂⟩ η₁ h₁ ha hstep
    rcases machine_step_cases hstep with ⟨e, rfl, he⟩ | ⟨n, rfl, hn, hp⟩
    · obtain ⟨c, k, o, rfl, rfl, ho, rfl⟩ := step_cases he
      exact h₁ (w₁, η₁) .refl o (w₂, upd w₁ ⟨c, o⟩ η₁) ha (by simp [track, ho])
    · obtain rfl : p₂ = p₁ := hp
      have hn' : trackEnv env n (w₁, η₁) = some (w₂, η₁) := by
        simp only [trackEnv]
        rw [hn, Option.map_some]
      exact wp_settles h₁ (.single ⟨n, hn'⟩)
  exact hwp _ .refl

end Track

/-! ### One program among several -/

section System

variable {ι : Type} [DecidableEq ι] (S : Shell C R W) (env : N → W → Option W) (i : ι)

/-- The commands of one of several programs, on a world with the labels so far. -/
def member : Shell C R (W × List ((ι × S.Event) ⊕ N)) :=
  S.track fun _ e past => past ++ [.inl (i, e)]

/-- What this program finds around it: the commands of the others, and the environment of all. -/
def others : (ι × S.Event) ⊕ N → W × List ((ι × S.Event) ⊕ N) →
    Option (W × List ((ι × S.Event) ⊕ N))
  | .inl (j, e), x =>
    if j = i then none else (S.exec e.1 e.2 x.1).map fun w => (w, x.2 ++ [.inl (j, e)])
  | .inr n, x => (env n x.1).map fun w => (w, x.2 ++ [.inr n])

variable {S env i} {P : W × List ((ι × S.Event) ⊕ N) → Prop}

/-- An assertion is stable if neither the others nor the environment of all falsify it. -/
theorem stable_others
    (hother : ∀ past j e w w', j ≠ i → P (w, past) → S.exec e.1 e.2 w = some w' →
      P (w', past ++ [.inl (j, e)]))
    (henv : ∀ past n w w', P (w, past) → env n w = some w' → P (w', past ++ [.inr n])) :
    Stable (S.others env i) P := by
  rintro (⟨j, e⟩ | n) ⟨w, past⟩ x hP hx
  · simp only [others, Option.ite_none_left_eq_some] at hx
    obtain ⟨hne, hx⟩ := hx
    obtain ⟨w', hw', rfl⟩ := Option.map_eq_some_iff.mp hx
    exact hother past j e w w' hne hP hw'
  · obtain ⟨w', hw', rfl⟩ := Option.map_eq_some_iff.mp hx
    exact henv past n w w' hP hw'

/-- One command of the program. -/
theorem Triple.member_issue {c : C} {Q : R c → W × List ((ι × S.Event) ⊕ N) → Prop}
    {E : ℕ → W × List ((ι × S.Event) ⊕ N) → Prop} (hP : Stable (S.others env i) P)
    (hQ : ∀ r, Stable (S.others env i) (Q r))
    (h : ∀ o w w' past, P (w, past) → S.exec c o w = some w' →
      Q (S.reply c o) (w', past ++ [.inl (i, ⟨c, o⟩)])) :
    (S.member i).Triple (S.others env i) (fun _ _ => True) P (Prog.issue c) Q E := by
  refine Triple.issue hP hQ ?_
  rintro o ⟨w, past⟩ x hw - hx
  obtain ⟨w', hw', rfl⟩ := Option.map_eq_some_iff.mp hx
  exact h o w w' past hw hw'

/-- **Soundness among others.** In every interleaving of several programs one that exits does so
with the postcondition. -/
theorem Triple.system_run [DecidableEq C] {p : Prog C R α}
    {Q : α → W × List ((ι × S.Event) ⊕ N) → Prop} {E : ℕ → W × List ((ι × S.Event) ⊕ N) → Prop}
    (h : (S.member i).Triple (S.others env i) (fun _ _ => True) P p Q E)
    {s t : (ι → Prog C R α) × W} {past as : List ((ι × S.Event) ⊕ N)} {n : ℕ} (hp : s.1 i = p)
    (hw : P (s.2, past)) (hrun : (S.system env).run s as = some t) (hexit : t.1 i = .exit n) :
    E n (t.2, past ++ as) := by
  have hwp : (S.member i).wp (S.others env i) (fun _ _ => True) Q E (t.1 i) (t.2, past ++ as) := by
    refine Machine.labels_invariant_of_step (J := fun past s =>
      (S.member i).wp (S.others env i) (fun _ _ => True) Q E (s.1 i) (s.2, past)) ?_
      (hp ▸ h _ hw) hrun
    intro past s a t hs hstep
    rcases system_step_cases hstep with ⟨j, e, q, rfl, he, ht⟩ | ⟨n, rfl, hn, ht⟩
    · obtain ⟨c, k, o, hj, rfl, ho, rfl⟩ := step_cases he
      by_cases hij : j = i
      · subst hij
        rw [hj] at hs
        rw [ht, Function.update_self]
        exact hs (s.2, past) .refl o (t.2, past ++ [.inl (j, ⟨c, o⟩)]) trivial
          (by simp [member, track, ho])
      · rw [ht, Function.update_of_ne (Ne.symm hij)]
        exact wp_settles hs (.single ⟨.inl (j, ⟨c, o⟩), by simp [others, hij, ho]⟩)
    · rw [ht]
      exact wp_settles hs (.single ⟨.inr n, by simp [others, hn]⟩)
  rw [hexit] at hwp
  exact hwp _ .refl

end System

end Shell

end Parikshan
