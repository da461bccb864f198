import Parikshan.Machine.Basic

/-!
# Programs that issue commands

A program issues commands one after another, decides from what each of them returns how to go on,
and ends by returning a value or by exiting with a status, from wherever it is. What a command does
to the world is not up to the program: a `Shell` says for every command how it can turn out, what
the program sees of that, and what has become of the world.

A program and a world make a machine whose labels are the commands with their outcomes, beside
steps of the environment that act on the world at any time. Several programs, each with its own
identifier, make one on a world that they share.

## Main definitions

* `Prog`: programs, with `do` notation.
* `Shell`: the meaning of the commands.
* `Shell.machine`: one program and its environment.
* `Shell.system`: several programs on one world.
* `Shell.play`: the run of a program with given outcomes.
* `Prog.All`: what holds of all commands, returned values and exits of a program.

## Main results

* `Shell.machine_step_cases`, `Shell.system_step_cases`: inversion of the steps.
* `Shell.run_play`, `Shell.system_run_play`: a run with given outcomes is a run.
* `Prog.All.bind`: sequencing.
-/

namespace Parikshan

/-- A program that issues commands in `C` and gets replies in `R`. -/
inductive Prog (C : Type) (R : C → Type) (α : Type)
  | ret (a : α)
  | exit (n : ℕ)
  | call (c : C) (k : R c → Prog C R α)

namespace Prog

variable {C : Type} {R : C → Type} {α β : Type}

/-- Sequencing; a program that has exited does not go on. -/
def bind : Prog C R α → (α → Prog C R β) → Prog C R β
  | ret a, f => f a
  | exit n, _ => exit n
  | call c k, f => call c fun r => (k r).bind f

instance : Monad (Prog C R) where
  pure := ret
  bind := bind

/-- Issue one command and return its reply. -/
def issue (c : C) : Prog C R (R c) := call c ret

/-- Do something only if a condition holds. -/
def when (b : Bool) (p : Prog C R Unit) : Prog C R Unit := if b then p else ret ()

/-- Do something else if the first program returns failure. -/
def orDo (p : Prog C R Bool) (q : Prog C R Unit) : Prog C R Unit :=
  p >>= fun ok => if ok then ret () else q

/-- Forget what a program returns. -/
def ignore (p : Prog C R α) : Prog C R Unit := p >>= fun _ => ret ()

@[simp] theorem ret_bind (a : α) (f : α → Prog C R β) : (ret a >>= f) = f a := rfl

@[simp] theorem exit_bind (n : ℕ) (f : α → Prog C R β) : (exit n >>= f) = exit n := rfl

@[simp] theorem call_bind (c : C) (k : R c → Prog C R α) (f : α → Prog C R β) :
    (call c k >>= f) = call c fun r => k r >>= f := rfl

@[simp] theorem pure_eq (a : α) : (pure a : Prog C R α) = ret a := rfl

end Prog

/-- The meaning of commands: how each can turn out, what a program sees of that, and what it makes
of the world; an outcome that is not possible in a world makes nothing of it. -/
structure Shell (C : Type) (R : C → Type) (W : Type) where
  Out : C → Type
  reply : ∀ c, Out c → R c
  exec : ∀ c, Out c → W → Option W

namespace Shell

variable {C : Type} {R : C → Type} {W N ι α : Type} (S : Shell C R W)

/-- A command with its outcome. -/
abbrev Event : Type := Σ c, S.Out c

section Step

variable [DecidableEq C]

/-- One step of a program: the command that it issues turns out in some way. -/
def step (p : Prog C R α) (w : W) (e : S.Event) : Option (Prog C R α × W) :=
  match p with
  | .call c k =>
    if h : e.1 = c then (S.exec c (h ▸ e.2) w).map fun w' => (k (S.reply c (h ▸ e.2)), w') else none
  | _ => none

/-- A program and its environment. -/
def machine (env : N → W → Option W) : Machine (Prog C R α × W) (S.Event ⊕ N) where
  step s
    | .inl e => S.step s.1 s.2 e
    | .inr n => (env n s.2).map fun w => (s.1, w)

/-- Several programs on one world, and their environment. -/
def system [DecidableEq ι] (env : N → W → Option W) :
    Machine ((ι → Prog C R α) × W) ((ι × S.Event) ⊕ N) where
  step s
    | .inl a => (S.step (s.1 a.1) s.2 a.2).map fun x => (Function.update s.1 a.1 x.1, x.2)
    | .inr n => (env n s.2).map fun w => (s.1, w)

variable {S} {p p' : Prog C R α} {w w' : W} {e : S.Event}

theorem step_call {c : C} {k : R c → Prog C R α} {o : S.Out c} (h : S.exec c o w = some w') :
    S.step (.call c k) w ⟨c, o⟩ = some (k (S.reply c o), w') := by
  simp [step, h]

/-- **Inversion of a step.** -/
theorem step_cases (h : S.step p w e = some (p', w')) :
    ∃ (c : C) (k : R c → Prog C R α) (o : S.Out c), p = .call c k ∧ e = ⟨c, o⟩ ∧
      S.exec c o w = some w' ∧ p' = k (S.reply c o) := by
  cases p with
  | call c k =>
    obtain ⟨c', o⟩ := e
    simp only [step] at h
    split_ifs at h with hc
    subst hc
    obtain ⟨w₁, hw, heq⟩ := Option.map_eq_some_iff.mp h
    obtain ⟨rfl, rfl⟩ := Prod.mk.inj heq
    exact ⟨c', k, o, rfl, rfl, hw, rfl⟩
  | _ => cases h

theorem machine_step_cases {env : N → W → Option W} {s t : Prog C R α × W} {a : S.Event ⊕ N}
    (h : (S.machine env).step s a = some t) :
    (∃ e, a = .inl e ∧ S.step s.1 s.2 e = some t) ∨
      ∃ n, a = .inr n ∧ env n s.2 = some t.2 ∧ t.1 = s.1 := by
  cases a with
  | inl e => exact Or.inl ⟨e, rfl, h⟩
  | inr n =>
    obtain ⟨w, hw, rfl⟩ := Option.map_eq_some_iff.mp h
    exact Or.inr ⟨n, rfl, hw, rfl⟩

theorem system_step_cases [DecidableEq ι] {env : N → W → Option W}
    {s t : (ι → Prog C R α) × W} {a : (ι × S.Event) ⊕ N} (h : (S.system env).step s a = some t) :
    (∃ i e p, a = .inl (i, e) ∧ S.step (s.1 i) s.2 e = some (p, t.2) ∧
      t.1 = Function.update s.1 i p) ∨
      ∃ n, a = .inr n ∧ env n s.2 = some t.2 ∧ t.1 = s.1 := by
  cases a with
  | inl a =>
    obtain ⟨⟨p, w⟩, hx, rfl⟩ := Option.map_eq_some_iff.mp h
    exact Or.inl ⟨a.1, a.2, p, rfl, hx, rfl⟩
  | inr n =>
    obtain ⟨w, hw, rfl⟩ := Option.map_eq_some_iff.mp h
    exact Or.inr ⟨n, rfl, hw, rfl⟩

end Step

/-! ### Runs with given outcomes -/

section Play

/-- The commands of a program with the outcomes that `f` gives them, until `f` gives none or one
that is not possible, and what is left of the program and of the world then. -/
def play (f : ∀ c, W → Option (S.Out c)) :
    Prog C R α → W → List S.Event × Prog C R α × W
  | .call c k, w =>
    match f c w with
    | none => ([], .call c k, w)
    | some o =>
      match S.exec c o w with
      | none => ([], .call c k, w)
      | some w' => (⟨c, o⟩ :: (play f (k (S.reply c o)) w').1, (play f (k (S.reply c o)) w').2)
  | p, w => ([], p, w)

variable [DecidableEq C] {S} {f : ∀ c, W → Option (S.Out c)}

theorem run_play (env : N → W → Option W) (p : Prog C R α) (w : W) :
    (S.machine env).run (p, w) ((S.play f p w).1.map Sum.inl) = some (S.play f p w).2 := by
  induction p generalizing w with
  | ret a => rfl
  | exit n => rfl
  | call c k ih =>
    cases hf : f c w with
    | none => simp [play, hf]
    | some o =>
      cases ho : S.exec c o w with
      | none => simp [play, hf, ho]
      | some w' =>
        simp only [play, hf, ho]
        exact (Machine.run_cons_eq_some _).mpr ⟨_, step_call ho, ih _ w'⟩

omit [DecidableEq C] in
theorem mem_play {e : S.Event} {p : Prog C R α} {w : W} (h : e ∈ (S.play f p w).1) :
    ∃ w, f e.1 w = some e.2 := by
  induction p generalizing w with
  | ret a => cases h
  | exit n => cases h
  | call c k ih =>
    cases hf : f c w with
    | none => simp [play, hf] at h
    | some o =>
      cases ho : S.exec c o w with
      | none => simp [play, hf, ho] at h
      | some w' =>
        simp only [play, hf, ho, List.mem_cons] at h
        rcases h with rfl | h
        · exact ⟨w, hf⟩
        · exact ih _ h

/-- Among several programs one alone takes steps. -/
theorem system_run_play [DecidableEq ι] (env : N → W → Option W) (i : ι) (p : ι → Prog C R α)
    (w : W) :
    (S.system env).run (p, w) ((S.play f (p i) w).1.map fun e => .inl (i, e)) =
      some (Function.update p i (S.play f (p i) w).2.1, (S.play f (p i) w).2.2) := by
  suffices h : ∀ q : Prog C R α, ∀ p w, p i = q →
      (S.system env).run (p, w) ((S.play f q w).1.map fun e => .inl (i, e)) =
        some (Function.update p i (S.play f q w).2.1, (S.play f q w).2.2) from h _ p w rfl
  intro q
  induction q with
  | ret a => exact fun p w hp => by simp [play, ← hp]
  | exit n => exact fun p w hp => by simp [play, ← hp]
  | call c k ih =>
    intro p w hp
    have hself : Function.update p i (.call c k) = p := by rw [← hp, Function.update_eq_self]
    cases hf : f c w with
    | none => simp [play, hf, hself]
    | some o =>
      cases ho : S.exec c o w with
      | none => simp [play, hf, ho, hself]
      | some w' =>
        simp only [play, hf, ho]
        refine (Machine.run_cons_eq_some _).mpr
          ⟨(Function.update p i (k (S.reply c o)), w'), ?_, ?_⟩
        · simp [system, hp, step_call ho]
        · rw [ih (S.reply c o) _ w' (Function.update_self ..)]
          simp

end Play

end Shell

namespace Prog

variable {C : Type} {R : C → Type} {α β : Type} {P : C → Prop} {Q : α → Prop} {E : ℕ → Prop}

/-- Every command that the program can issue has `P`, every value that it can return has `Q` and
every status with which it can exit has `E`, whatever the replies. -/
def All (P : C → Prop) (Q : α → Prop) (E : ℕ → Prop) : Prog C R α → Prop
  | ret a => Q a
  | exit n => E n
  | call c k => P c ∧ ∀ r, (k r).All P Q E

theorem All.mono {P' : C → Prop} {Q' : α → Prop} {E' : ℕ → Prop} {p : Prog C R α}
    (h : p.All P Q E) (hP : ∀ c, P c → P' c) (hQ : ∀ a, Q a → Q' a) (hE : ∀ n, E n → E' n) :
    p.All P' Q' E' := by
  induction p with
  | ret a => exact hQ a h
  | exit n => exact hE n h
  | call c k ih => exact ⟨hP c h.1, fun r => ih r (h.2 r)⟩

/-- What holds of all commands, values and exits there are. -/
theorem All.of_forall (p : Prog C R α) (hP : ∀ c, P c) (hQ : ∀ a, Q a) (hE : ∀ n, E n) :
    p.All P Q E := by
  induction p with
  | ret a => exact hQ a
  | exit n => exact hE n
  | call c k ih => exact ⟨hP c, ih⟩

theorem All.and {P' : C → Prop} {Q' : α → Prop} {E' : ℕ → Prop} {p : Prog C R α}
    (h : p.All P Q E) (h' : p.All P' Q' E') :
    p.All (fun c => P c ∧ P' c) (fun a => Q a ∧ Q' a) fun n => E n ∧ E' n := by
  induction p with
  | ret a => exact ⟨h, h'⟩
  | exit n => exact ⟨h, h'⟩
  | call c k ih => exact ⟨⟨h.1, h'.1⟩, fun r => ih r (h.2 r) (h'.2 r)⟩

/-- **Sequencing.** -/
theorem All.bind {Q' : β → Prop} {p : Prog C R α} {f : α → Prog C R β} (h : p.All P Q E)
    (hf : ∀ a, Q a → (f a).All P Q' E) : (p >>= f).All P Q' E := by
  induction p with
  | ret a => exact hf a h
  | exit n => exact h
  | call c k ih => exact ⟨h.1, fun r => ih r (h.2 r)⟩

theorem All.when {b : Bool} {p : Prog C R Unit} {Q : Unit → Prop} (h : b = true → p.All P Q E)
    (hQ : b = false → Q ()) : (Prog.when b p).All P Q E := by
  cases b with
  | true => exact h rfl
  | false => exact hQ rfl

theorem All.orDo {p : Prog C R Bool} {q : Prog C R Unit} {Q : Unit → Prop}
    (hp : p.All P (fun _ => True) E) (hQ : Q ()) (hq : q.All P Q E) : (p.orDo q).All P Q E := by
  refine hp.bind fun ok _ => ?_
  cases ok with
  | true => exact hQ
  | false => exact hq

theorem All.ignore {p : Prog C R α} {Q : Unit → Prop} (hp : p.All P (fun _ => True) E)
    (hQ : Q ()) : p.ignore.All P Q E :=
  hp.bind fun _ _ => hQ

end Prog

end Parikshan
