import Parikshan.Program.Logic
import Mathlib.Data.Sum.Basic

/-!
# Guarantees of programs

A triple says how a program ends. A guarantee says what it does on the way: whatever world one of
its commands finds, the world that the command leaves is related to it. As with triples, the
environment takes steps in between, and the outcomes are those that meet a condition.

A program can be looked at among more commands than its own. What is known about it carries over,
and it does not matter what else the environment could do as long as an invariant of the program
keeps the environment from doing it.

## Main definitions

* `Shell.Guarantee`: from the precondition every command of the program does what is guaranteed.
* `Shell.sum`, `Prog.lift`: two shells on one world, and a program of the first one among the
  commands of both.

## Main results

* `Guarantee.bind`, `Guarantee.issue`, `Guarantee.of_all`: the rules.
* `does_step`: a guarantee speaks about all steps of the machine.
* `Triple.lift`, `Guarantee.lift`: the commands of the other shell do not matter.
* `Triple.confined`: neither do the steps that the environment can not take.
-/

namespace Parikshan

namespace Shell

variable {C : Type} {R : C → Type} {W N α β : Type}

section Guarantee

variable (S : Shell C R W) (env : N → W → Option W) (G : W → S.Event → Prop)
  (H : W → S.Event → W → Prop)

/-- Every command that the program is going to issue does `H`. -/
def does : Prog C R α → W → Prop
  | .call c k, w => ∀ w₁, Settles env w w₁ → ∀ o w₂, G w₁ ⟨c, o⟩ → S.exec c o w₁ = some w₂ →
      H w₁ ⟨c, o⟩ w₂ ∧ does (k (S.reply c o)) w₂
  | _, _ => True

/-- **Guarantees.** From a world with `P`, for all outcomes that meet `G` and all steps of the
environment, every command of the program does `H`. -/
def Guarantee (P : W → Prop) (p : Prog C R α) : Prop := ∀ w, P w → S.does env G H p w

variable {S env G H} {P P' : W → Prop} {Q : α → W → Prop} {E : ℕ → W → Prop} {p : Prog C R α}

theorem does_settles {w w' : W} (h : S.does env G H p w) (hw : Settles env w w') :
    S.does env G H p w' := by
  cases p with
  | ret a => trivial
  | exit n => trivial
  | call c k => exact fun w₁ h₁ => h w₁ (hw.trans h₁)

namespace Guarantee

theorem pre (h : S.Guarantee env G H P p) (hP : ∀ w, P' w → P w) : S.Guarantee env G H P' p :=
  fun w hw => h w (hP w hw)

/-- A fact about the precondition that does not depend on the world. -/
theorem of_pure {A : Prop} (hA : ∀ w, P w → A) (h : A → S.Guarantee env G H P p) :
    S.Guarantee env G H P p :=
  fun w hw => h (hA w hw) w hw

theorem ret (a : α) : S.Guarantee env G H P (.ret a : Prog C R α) := fun _ _ => trivial

theorem exit (n : ℕ) : S.Guarantee env G H P (.exit n : Prog C R α) := fun _ _ => trivial

/-- **Sequencing.** What comes first is judged by its triple. -/
theorem bind {f : α → Prog C R β} (h : S.Guarantee env G H P p) (hp : S.Triple env G P p Q E)
    (hf : ∀ a, S.Guarantee env G H (Q a) (f a)) : S.Guarantee env G H P (p >>= f) := by
  have hdoes : ∀ w, S.does env G H p w → S.wp env G Q E p w → S.does env G H (p >>= f) w := by
    clear h hp
    induction p with
    | ret a => exact fun w _ hw => hf a w (hw w .refl)
    | exit n => exact fun _ _ _ => trivial
    | call c k ih =>
      intro w hd hw w₁ h₁ o w₂ hG ho
      obtain ⟨hH, hk⟩ := hd w₁ h₁ o w₂ hG ho
      exact ⟨hH, ih _ w₂ hk (hw w₁ h₁ o w₂ hG ho)⟩
  exact fun w hw => hdoes w (h w hw) (hp w hw)

/-- One command. -/
theorem issue {c : C} (hP : Stable env P)
    (h : ∀ o w w', P w → G w ⟨c, o⟩ → S.exec c o w = some w' → H w ⟨c, o⟩ w') :
    S.Guarantee env G H P (Prog.issue c) :=
  fun _ hw w₁ h₁ o w₂ hG ho => ⟨h o w₁ w₂ (h₁.of_stable hP hw) hG ho, trivial⟩

theorem orDo {p : Prog C R Bool} {q : Prog C R Unit} {K : Bool → W → Prop}
    (h : S.Guarantee env G H P p) (hp : S.Triple env G P p K E)
    (hq : S.Guarantee env G H (K false) q) : S.Guarantee env G H P (p.orDo q) := by
  refine h.bind hp fun ok => ?_
  cases ok with
  | true => exact ret ()
  | false => exact hq

/-- **Invariants.** The commands of a program that all keep an invariant do what they do in the
worlds of the invariant. -/
theorem of_all {I : W → Prop} {A : C → Prop} {V : α → Prop} {X : ℕ → Prop} (hall : p.All A V X)
    (hI : Stable env I)
    (hcall : ∀ c, A c → ∀ o w w', I w → G w ⟨c, o⟩ → S.exec c o w = some w' →
      H w ⟨c, o⟩ w' ∧ I w') : S.Guarantee env G H I p := by
  intro w hw
  induction p generalizing w with
  | ret a => trivial
  | exit n => trivial
  | call c k ih =>
    intro w₁ h₁ o w₂ hG ho
    obtain ⟨hH, hw₂⟩ := hcall c hall.1 o w₁ w₂ (h₁.of_stable hI hw) hG ho
    exact ⟨hH, ih _ (hall.2 _) w₂ hw₂⟩

end Guarantee

/-- **Soundness.** A step of a program of which it is guaranteed what its commands do. -/
theorem does_step [DecidableEq C] {s t : Prog C R α × W} {a : S.Event ⊕ N}
    (h : S.does env G H s.1 s.2) (hG : Triple.Given G s a)
    (hstep : (S.machine env).step s a = some t) :
    S.does env G H t.1 t.2 ∧
      ((∃ e, a = .inl e ∧ H s.2 e t.2) ∨ ∃ n, a = .inr n ∧ env n s.2 = some t.2) := by
  obtain ⟨p, w⟩ := s
  obtain ⟨p', w'⟩ := t
  rcases machine_step_cases hstep with ⟨e, rfl, he⟩ | ⟨n, rfl, hn, hp⟩
  · obtain ⟨c, k, o, rfl, rfl, ho, rfl⟩ := step_cases he
    obtain ⟨hH, hk⟩ := h w .refl o w' hG ho
    exact ⟨hk, .inl ⟨_, rfl, hH⟩⟩
  · obtain rfl : p' = p := hp
    exact ⟨does_settles h (.single ⟨n, hn⟩), .inr ⟨n, rfl, hn⟩⟩

end Guarantee

/-! ### Confined environments -/

/-- A program whose commands keep an invariant, in an environment that can do more, but not in the
worlds of the invariant. -/
theorem Triple.confined {N' : Type} {S : Shell C R W} {env : N → W → Option W}
    {env' : N' → W → Option W} {G : W → S.Event → Prop} {P I : W → Prop} {Q : α → W → Prop}
    {E : ℕ → W → Prop} {A : C → Prop} {V : α → Prop} {X : ℕ → Prop} {p : Prog C R α}
    (hall : p.All A V X) (hI : Stable env' I)
    (hcall : ∀ c, A c → ∀ o w w', I w → G w ⟨c, o⟩ → S.exec c o w = some w' → I w')
    (henv : ∀ n w w', I w → env' n w = some w' → ∃ m, env m w = some w')
    (h : S.Triple env G P p Q E) :
    S.Triple env' G (fun w => P w ∧ I w) p (fun a w => V a ∧ Q a w ∧ I w)
      fun n w => X n ∧ E n w ∧ I w := by
  have hsettles {w w' : W} (hw : I w) (hs : Settles env' w w') : Settles env w w' ∧ I w' := by
    induction hs with
    | refl => exact ⟨.refl, hw⟩
    | tail _ hn ih =>
      obtain ⟨n, hn⟩ := hn
      exact ⟨ih.1.tail (henv n _ _ ih.2 hn), hI n _ _ ih.2 hn⟩
  have hwp : ∀ w, I w → S.wp env G Q E p w →
      S.wp env' G (fun a w => V a ∧ Q a w ∧ I w) (fun n w => X n ∧ E n w ∧ I w) p w := by
    clear h
    induction p with
    | ret a => exact fun w hw h w' hs => ⟨hall, h w' (hsettles hw hs).1, (hsettles hw hs).2⟩
    | exit n => exact fun w hw h w' hs => ⟨hall, h w' (hsettles hw hs).1, (hsettles hw hs).2⟩
    | call c k ih =>
      intro w hw h w₁ hs o w₂ hG ho
      obtain ⟨hs, hw₁⟩ := hsettles hw hs
      exact ih _ (hall.2 _) w₂ (hcall c hall.1 o w₁ w₂ hw₁ hG ho) (h w₁ hs o w₂ hG ho)
  exact fun w hw => hwp w hw.2 (h w hw.1)

end Shell

/-! ### More commands -/

variable {C D : Type} {R : C → Type} {R' : D → Type} {W N α β : Type}

namespace Prog

/-- The program among the commands of two shells. -/
def lift (R' : D → Type) : Prog C R α → Prog (C ⊕ D) (Sum.elim R R') α
  | ret a => ret a
  | exit n => exit n
  | call c k => call (.inl c) fun r => (k r).lift R'

theorem All.lift {P : C ⊕ D → Prop} {Q : α → Prop} {E : ℕ → Prop} {p : Prog C R α}
    (h : p.All (fun c => P (.inl c)) Q E) : (p.lift R').All P Q E := by
  induction p with
  | ret a => exact h
  | exit n => exact h
  | call c k ih => exact ⟨h.1, fun r => ih r (h.2 r)⟩

end Prog

namespace Shell

/-- Two shells on one world. -/
def sum (S : Shell C R W) (T : Shell D R' W) : Shell (C ⊕ D) (Sum.elim R R') W where
  Out := Sum.elim S.Out T.Out
  reply
    | .inl c => S.reply c
    | .inr d => T.reply d
  exec
    | .inl c => S.exec c
    | .inr d => T.exec d

variable {S : Shell C R W} {T : Shell D R' W} {env : N → W → Option W} {G : W → S.Event → Prop}
  {G' : W → (S.sum T).Event → Prop} {P : W → Prop} {p : Prog C R α}

theorem Triple.lift {Q : α → W → Prop} {E : ℕ → W → Prop} (h : S.Triple env G P p Q E)
    (hG : ∀ w c o, G' w ⟨.inl c, o⟩ → G w ⟨c, o⟩) :
    (S.sum T).Triple env G' P (p.lift R') Q E := by
  have hwp : ∀ w, S.wp env G Q E p w → (S.sum T).wp env G' Q E (p.lift R') w := by
    clear h
    induction p with
    | ret a => exact fun _ h => h
    | exit n => exact fun _ h => h
    | call c k ih => exact fun w h w₁ h₁ o w₂ hw ho => ih _ w₂ (h w₁ h₁ o w₂ (hG w₁ c o hw) ho)
  exact fun w hw => hwp w (h w hw)

theorem Guarantee.lift {H : W → S.Event → W → Prop} {H' : W → (S.sum T).Event → W → Prop}
    (h : S.Guarantee env G H P p) (hG : ∀ w c o, G' w ⟨.inl c, o⟩ → G w ⟨c, o⟩)
    (hH : ∀ w c o w', H w ⟨c, o⟩ w' → H' w ⟨.inl c, o⟩ w') :
    (S.sum T).Guarantee env G' H' P (p.lift R') := by
  have hdoes : ∀ w, S.does env G H p w → (S.sum T).does env G' H' (p.lift R') w := by
    clear h
    induction p with
    | ret a => exact fun _ _ => trivial
    | exit n => exact fun _ _ => trivial
    | call c k ih =>
      intro w h w₁ h₁ o w₂ hw ho
      obtain ⟨hdo, hk⟩ := h w₁ h₁ o w₂ (hG w₁ c o hw) ho
      exact ⟨hH w₁ c o w₂ hdo, ih _ w₂ hk⟩
  exact fun w hw => hdoes w (h w hw)

end Shell

end Parikshan
