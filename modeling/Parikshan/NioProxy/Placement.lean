import Mathlib.Logic.Relation
import Parikshan.NioProxy.Server

/-!
# Where a handler is

A handler is in a queue, in the hands of the worker that has taken it from there, registered with
the selector of that worker, or done with. It is in one of these places only, goes through them in
this order, and does not come back. So `register` is called once at most for a handler, `destroy` is
called by `shutdown()` once at most and not for one that has been registered, and a connector, whose
buffers are not synchronized, is processed by one worker only.

## Main definitions

* `Place`, `State.At`: the places of a handler, and where it is.
* `Place.Next`: the place to which a handler goes.
* `Placed`: the invariant.

## Main results

* `tcpProxy_placed`: the places of the handlers in every run.
-/

namespace Parikshan.NioProxy.Server

open Posix

/-- The handler of an operation. -/
def Call.handler : Call → Handler
  | .accept g => .acceptor g
  | .connector c _ => .connector c

/-- What has become of a handler. -/
inductive Status
  | absent
  | waiting
  | registered (w : Worker)
  | finished
  deriving DecidableEq, Repr

/-- What has become of an acceptor. -/
def Acceptor.status : Acceptor → Status
  | .absent => .absent
  | .constructed => .waiting
  | .registered w _ => .registered w
  | .failed => .finished
  | .destroyed => .finished

/-- What has become of a connector. -/
def Connector.status : Connector → Status
  | .absent => .absent
  | .constructed _ => .waiting
  | .registered w _ => .registered w
  | .destroyed => .finished
  | .abandoned _ => .finished

theorem Connector.status_eq_registered {x : Connector} {w : Worker} :
    x.status = .registered w ↔ ∃ u, x = .registered w u := by
  cases x <;> simp [Connector.status]

/-- What has become of a handler. -/
def State.status (s : State) : Handler → Status
  | .acceptor g => (s.acceptor g).status
  | .connector c => (s.connector c).status

/-- A place for a handler: none yet, the queue of a generation, a worker that has taken it, the
selector of a worker, or none any more. -/
inductive Place
  | absent
  | queue (g : ℕ)
  | worker (w : Worker)
  | selector (w : Worker)
  | finished
  deriving DecidableEq, Repr

/-- The generation to which a place belongs. -/
def Place.gen : Place → Option ℕ
  | .queue g => some g
  | .worker w => some w.1
  | .selector w => some w.1
  | _ => none

/-- A handler is at a place. -/
def State.At (s : State) (h : Handler) : Place → Prop
  | .absent => s.status h = .absent
  | .queue g => h ∈ s.handlers g
  | .worker w => s.pc w = .register h
  | .selector w => s.status h = .registered w
  | .finished => s.status h = .finished

instance (s : State) (h : Handler) : (p : Place) → Decidable (s.At h p)
  | .absent => inferInstanceAs (Decidable (s.status h = _))
  | .queue g => inferInstanceAs (Decidable (h ∈ s.handlers g))
  | .worker w => inferInstanceAs (Decidable (s.pc w = _))
  | .selector _ => inferInstanceAs (Decidable (s.status h = _))
  | .finished => inferInstanceAs (Decidable (s.status h = _))

/-- The place to which a handler goes. -/
inductive Place.Next : Place → Place → Prop
  | create (g : ℕ) : Next .absent (.queue g)
  | poll (w : Worker) : Next (.queue w.1) (.worker w)
  | register (w : Worker) : Next (.worker w) (.selector w)
  | throw (w : Worker) : Next (.worker w) .finished
  | destroy (g : ℕ) : Next (.queue g) .finished

/-- A handler stays in its generation. -/
theorem Place.Next.gen {p q : Place} (h : p.Next q) (hp : p ≠ .absent) :
    q.gen = none ∨ q.gen = p.gen := by
  cases h with
  | create g => exact absurd rfl hp
  | poll w => exact .inr rfl
  | register w => exact .inr rfl
  | throw w => exact .inl rfl
  | destroy g => exact .inl rfl

/-- A worker that has no handler in its hands and no operation to process. -/
def Pc.Idle : Pc → Prop
  | .unborn | .register _ | .process _ => False
  | _ => True

/-- A handler has been created. -/
def State.Born (s : State) : Handler → Prop
  | .acceptor g => g ≤ s.gen
  | .connector c => c < s.count

/-- The invariant of the places. -/
structure Placed (s : State) : Prop where
  place : ∀ h, ∃! p, s.At h p
  nodup : ∀ g, (s.handlers g).Nodup
  calls : ∀ w, ∀ x ∈ (s.pc w).calls, s.At x.handler (.selector w)
  born : ∀ h, ¬ s.Born h → s.At h .absent
  queue : ∀ g h, h ∈ s.handlers g → g ≤ s.gen
  worker : ∀ w : Worker, s.gen < w.1 → s.pc w = .unborn
  own : ∀ g p, s.At (.acceptor g) p → p.gen = none ∨ p.gen = some g

section Frame

variable (s : State) (w w' : Worker) (g g' c : ℕ) (h h' : Handler) (p : Pc) (q : List Handler)
  (x : Connector) (y : Acceptor)

@[simp] theorem State.goto_status : (s.goto w p).status h = s.status h := by cases h <;> rfl

@[simp] theorem State.goto_handlers : (s.goto w p).handlers = s.handlers := rfl

@[simp] theorem State.goto_gen : (s.goto w p).gen = s.gen := rfl

@[simp] theorem State.goto_count : (s.goto w p).count = s.count := rfl

@[simp] theorem State.setHandlers_status : (s.setHandlers g q).status h = s.status h := by
  cases h <;> rfl

theorem State.goto_pc_self : (s.goto w p).pc w = p := Function.update_self ..

variable {w w'} in
theorem State.goto_pc_of_ne (hne : w' ≠ w) : (s.goto w p).pc w' = s.pc w' :=
  Function.update_of_ne hne ..

theorem State.setHandlers_self : (s.setHandlers g q).handlers g = q := Function.update_self ..

variable {g g'} in
theorem State.setHandlers_of_ne (hne : g' ≠ g) :
    (s.setHandlers g q).handlers g' = s.handlers g' :=
  Function.update_of_ne hne ..

theorem State.setConnector_status_self :
    (s.setConnector c x).status (.connector c) = x.status := by
  simp [State.status, State.setConnector]

theorem State.setAcceptor_status_self : (s.setAcceptor g y).status (.acceptor g) = y.status := by
  simp [State.status, State.setAcceptor]

variable {c h} in
theorem State.setConnector_status_of_ne (hne : h ≠ .connector c) :
    (s.setConnector c x).status h = s.status h := by
  cases h with
  | acceptor g => rfl
  | connector c' =>
    have hc : c' ≠ c := fun heq => hne (heq ▸ rfl)
    simp [State.status, State.setConnector, hc]

variable {g h} in
theorem State.setAcceptor_status_of_ne (hne : h ≠ .acceptor g) :
    (s.setAcceptor g y).status h = s.status h := by
  cases h with
  | acceptor g' =>
    have hg : g' ≠ g := fun heq => hne (heq ▸ rfl)
    simp [State.status, State.setAcceptor, hg]
  | connector c => rfl

variable {s g y} in
/-- What becomes of a registered acceptor does not move it. -/
theorem State.setAcceptor_status (hy : y.status = s.status (.acceptor g)) :
    (s.setAcceptor g y).status h = s.status h := by
  by_cases hh : h = .acceptor g
  · subst hh
    rw [setAcceptor_status_self, hy]
  · exact setAcceptor_status_of_ne s y hh

variable {s c x} in
theorem State.setConnector_status (hx : x.status = s.status (.connector c)) :
    (s.setConnector c x).status h = s.status h := by
  by_cases hh : h = .connector c
  · subst hh
    rw [setConnector_status_self, hx]
  · exact setConnector_status_of_ne s x hh

theorem State.destroy_status_self : (s.destroy h).status h = .finished := by
  cases h with
  | acceptor g => exact s.setAcceptor_status_self g _
  | connector c => exact s.setConnector_status_self c _

variable {h h'} in
theorem State.destroy_status_of_ne (hne : h' ≠ h) : (s.destroy h).status h' = s.status h' := by
  cases h with
  | acceptor g => exact s.setAcceptor_status_of_ne _ hne
  | connector c => exact s.setConnector_status_of_ne _ hne

theorem State.create_status_self (client : Option Sock) :
    (s.create g client).status (.connector s.count) = .waiting := by
  simp [State.status, State.create, Connector.status]

variable {s h} in
theorem State.create_status_of_ne (client : Option Sock) (hne : h ≠ .connector s.count) :
    (s.create g client).status h = s.status h := by
  cases h with
  | acceptor g' => rfl
  | connector c =>
    have hc : c ≠ s.count := fun heq => hne (heq ▸ rfl)
    simp [State.status, State.create, hc]

variable {s h} in
/-- A handler stays where it is. -/
theorem State.at_congr {t : State} (hstatus : t.status h = s.status h)
    (hhandlers : ∀ g, h ∈ t.handlers g ↔ h ∈ s.handlers g)
    (hheld : ∀ v, t.pc v = .register h ↔ s.pc v = .register h) (r : Place) :
    t.At h r ↔ s.At h r := by
  cases r with
  | queue g => exact hhandlers g
  | worker v => exact hheld v
  | _ => simp only [State.At, hstatus]

theorem State.mem_create (client : Option Sock) : h ∈ (s.create g client).handlers g' ↔
    h ∈ s.handlers g' ∨ h = .connector s.count ∧ g' = g := by
  change h ∈ (s.setHandlers g (s.handlers g ++ [.connector s.count])).handlers g' ↔ _
  by_cases hg' : g' = g
  · subst hg'
    rw [s.setHandlers_self]
    simp
  · rw [s.setHandlers_of_ne _ hg']
    simp [hg']

end Frame

/-- A step keeps the invariant, and the handlers stay where they are or go on. -/
structure Moved (s t : State) : Prop where
  placed : Placed t
  next : ∀ h p, s.At h p → ∃ q, t.At h q ∧ Relation.ReflTransGen Place.Next p q

theorem Moved.refl {s : State} (hs : Placed s) : Moved s s := ⟨hs, fun _ p hp => ⟨p, hp, .refl⟩⟩

theorem Moved.trans {s t u : State} (hst : Moved s t) (htu : Moved t u) : Moved s u := by
  refine ⟨htu.placed, fun h p hp => ?_⟩
  obtain ⟨q, hq, hpq⟩ := hst.next h p hp
  obtain ⟨r, hr, hqr⟩ := htu.next h q hq
  exact ⟨r, hr, hpq.trans hqr⟩

namespace Placed

variable {cfg : TcpServerConfig} {s t : State} {w : Worker} {h : Handler} {g : ℕ} {p q : Place}

theorem new : Placed .new where
  place h := by
    refine ⟨.absent, by cases h <;> rfl, fun p hp => ?_⟩
    cases p with
    | absent => rfl
    | _ => cases h <;> cases hp
  nodup _ := .nil
  calls _ _ hx := by cases hx
  born h _ := by cases h <;> rfl
  queue _ _ hmem := by cases hmem
  worker _ _ := rfl
  own g p hp := by
    cases p with
    | absent => exact .inl rfl
    | _ => cases hp

theorem eq_of_at (hs : Placed s) (hp : s.At h p) (hq : s.At h q) : p = q :=
  (hs.place h).unique hp hq

/-- What has become of a handler that is in a queue or in the hands of a worker. -/
theorem waiting (hs : Placed s) (hp : s.At h p) (habsent : p ≠ .absent)
    (hselector : ∀ w, p ≠ .selector w) (hfinished : p ≠ .finished) : s.status h = .waiting := by
  cases hstatus : s.status h with
  | absent => exact absurd (hs.eq_of_at hp (q := .absent) hstatus) habsent
  | waiting => rfl
  | registered w => exact absurd (hs.eq_of_at hp (q := .selector w) hstatus) (hselector w)
  | finished => exact absurd (hs.eq_of_at hp (q := .finished) hstatus) hfinished

/-- All handlers stay where they are. -/
theorem stay (hs : Placed s) (hgen : t.gen = s.gen) (hcount : t.count = s.count)
    (hhandlers : t.handlers = s.handlers) (hstatus : ∀ h, t.status h = s.status h)
    (hheld : ∀ v h, t.pc v = .register h ↔ s.pc v = .register h)
    (hcalls : ∀ v, ∀ x ∈ (t.pc v).calls, s.At x.handler (.selector v))
    (hworker : ∀ v, s.pc v = .unborn → t.pc v = .unborn) : Moved s t := by
  have hat (h : Handler) (r : Place) : t.At h r ↔ s.At h r :=
    State.at_congr (hstatus h) (fun g => by rw [hhandlers]) (fun v => hheld v h) r
  refine ⟨⟨fun h => ?_, ?_, fun v x hx => (hat _ _).mpr (hcalls v x hx), fun h hh => ?_, ?_,
    fun v hv => ?_, fun g p hp => hs.own g p ((hat _ p).mp hp)⟩,
    fun h p hp => ⟨p, (hat h p).mpr hp, .refl⟩⟩
  · simpa only [hat] using hs.place h
  · exact hhandlers ▸ hs.nodup
  · have hborn : t.Born h ↔ s.Born h := by cases h <;> simp only [State.Born, hgen, hcount]
    exact (hat h _).mpr (hs.born h (hborn.not.mp hh))
  · rw [hhandlers, hgen]
    exact hs.queue
  · exact hworker v (hs.worker v (hgen ▸ hv))

/-- A handler goes on, and the others stay where they are. -/
theorem move (hs : Placed s) (hp : s.At h p) (hpq : p.Next q) (hq : t.At h q)
    (hself : ∀ r, t.At h r → r = q ∨ r ≠ p ∧ s.At h r)
    (hother : ∀ h', h' ≠ h → ∀ r, t.At h' r ↔ s.At h' r) (hnodup : ∀ g, (t.handlers g).Nodup)
    (hcalls : ∀ v, (t.pc v).calls ⊆ (s.pc v).calls) (hborn : ∀ h', t.Born h' ↔ s.Born h' ∨ h' = h)
    (hgen : s.gen ≤ t.gen) (hqueue : ∀ g, q = .queue g → g ≤ t.gen)
    (hworker : ∀ v, t.gen < v.1 → s.pc v = .unborn → t.pc v = .unborn)
    (hown : p = .absent → ∀ g, h = .acceptor g → q = .queue g) : Moved s t := by
  have hto (r : Place) (hr : t.At h r) : r = q :=
    (hself r hr).resolve_right fun ⟨hrp, hr⟩ => hrp (hs.eq_of_at hr hp)
  refine ⟨⟨fun h' => ?_, hnodup, fun v x hx => ?_, fun h' hh' => ?_, fun g h' hmem => ?_,
    fun v hv => hworker v hv (hs.worker v (hgen.trans_lt hv)), fun g r hr => ?_⟩,
    fun h' r hr => ?_⟩
  · by_cases hne : h' = h
    · subst hne
      exact ⟨q, hq, hto⟩
    · simpa only [hother h' hne] using hs.place h'
  · have hx := hs.calls v x (hcalls v hx)
    refine (hother _ (fun heq => ?_) _).mpr hx
    -- nothing leads away from a selector
    obtain rfl := hs.eq_of_at hp (heq ▸ hx)
    cases hpq
  · rw [hborn, not_or] at hh'
    exact (hother h' hh'.2 _).mpr (hs.born h' hh'.1)
  · by_cases hne : h' = h
    · subst hne
      rcases hself (.queue g) hmem with heq | ⟨-, hr⟩
      · exact hqueue g heq.symm
      · exact (hs.queue g h' hr).trans hgen
    · exact (hs.queue g h' ((hother h' hne (.queue g)).mp hmem)).trans hgen
  · by_cases hne : .acceptor g = h
    · obtain rfl := hto r (hne ▸ hr)
      by_cases habsent : p = .absent
      · rw [hown habsent g hne.symm]
        exact .inr rfl
      · rcases hpq.gen habsent with heq | heq
        · exact .inl heq
        · rw [heq]
          exact hs.own g p (hne ▸ hp)
    · exact hs.own g r ((hother _ hne r).mp hr)
  · by_cases hne : h' = h
    · subst hne
      obtain rfl := hs.eq_of_at hp hr
      exact ⟨q, hq, .single hpq⟩
    · exact ⟨r, (hother h' hne r).mpr hr, .refl⟩

/-! ### The steps -/

/-- No worker goes on. -/
theorem still (hs : Placed s) (hgen : t.gen = s.gen) (hcount : t.count = s.count)
    (hhandlers : t.handlers = s.handlers) (hpc : t.pc = s.pc)
    (hstatus : ∀ h, t.status h = s.status h) : Moved s t :=
  hs.stay hgen hcount hhandlers hstatus (fun v h => by rw [hpc])
    (fun v x hx => hs.calls v x (hpc ▸ hx)) fun v hv => hpc ▸ hv

/-- A worker that has no handler in its hands goes on, with operations of its own handlers. -/
theorem goto (hs : Placed s) {p' : Pc} (hfree : ∀ h, s.pc w ≠ .register h)
    (hborn : s.pc w ≠ .unborn) (hp : ∀ h, p' ≠ .register h)
    (hcalls : ∀ x ∈ p'.calls, s.At x.handler (.selector w)) : Moved s (s.goto w p') := by
  refine hs.stay rfl rfl rfl (fun h => s.goto_status w h p') (fun v h => ?_) (fun v x hx => ?_)
    fun v hv => ?_
  · by_cases hvw : v = w
    · subst hvw
      rw [s.goto_pc_self]
      exact iff_of_false (hp h) (hfree h)
    · rw [s.goto_pc_of_ne p' hvw]
  · by_cases hvw : v = w
    · subst hvw
      rw [s.goto_pc_self] at hx
      exact hcalls x hx
    · rw [s.goto_pc_of_ne p' hvw] at hx
      exact hs.calls v x hx
  · have hvw : v ≠ w := by
      rintro rfl
      exact hborn hv
    rw [s.goto_pc_of_ne p' hvw]
    exact hv

theorem idle (hs : Placed s) {p p' : Pc} (hpc : s.pc w = p) (hidle : p.Idle) (hp : p'.Idle) :
    Moved s (s.goto w p') := by
  refine hs.goto (fun h heq => ?_) (fun heq => ?_) (fun h heq => ?_) fun x hx => ?_
  · rw [← hpc, heq] at hidle
    exact hidle
  · rw [← hpc, heq] at hidle
    exact hidle
  · rw [heq] at hp
    exact hp
  · cases p' with
    | process cs => exact hp.elim
    | _ => cases hx

/-- A worker has processed an operation. -/
theorem advance (hs : Placed s) {x : Call} {cs : List Call} (hpc : s.pc w = .process (x :: cs)) :
    Moved s (s.goto w (.process cs)) := by
  refine hs.goto (by simp [hpc]) (by simp [hpc]) (by simp) fun y hy => hs.calls w y ?_
  rw [hpc]
  exact List.mem_cons_of_mem _ hy

theorem select (hs : Placed s) {ks : List Key} (hpc : s.pc w = .select)
    (hks : ∀ k ∈ ks, s.Selectable w k) :
    Moved s (s.goto w (.process (ks.flatMap Key.calls))) := by
  refine hs.goto (by simp [hpc]) (by simp [hpc]) (by simp) fun x hx => ?_
  obtain ⟨k, hk, hx⟩ := List.mem_flatMap.mp hx
  have hselectable := hks k hk
  cases k with
  | acceptor g =>
    obtain rfl := List.mem_singleton.mp hx
    change (s.acceptor g).status = _
    rw [hselectable]
    rfl
  | connector c i r =>
    obtain ⟨-, -, rfl⟩ := List.mem_map.mp hx
    change (s.connector c).status = _
    change (s.connector c).Selectable w i r at hselectable
    cases hc : s.connector c with
    | registered v u =>
      rw [hc] at hselectable
      rw [← hselectable.1]
      rfl
    | _ =>
      rw [hc] at hselectable
      exact hselectable.elim

/-- `register` ends: the handler that the worker has in its hands is registered, or done with. -/
theorem resolve (hs : Placed s) {p : Pc} (hpc : s.pc w = .register h) (hgen : t.gen = s.gen)
    (hcount : t.count = s.count) (hhandlers : t.handlers = s.handlers) (htpc : t.pc = s.pc)
    (hstatus : ∀ h', h' ≠ h → t.status h' = s.status h') (hp : ∀ h, p ≠ .register h)
    (hcalls : p.calls = []) (hpq : (Place.worker w).Next q) (hq : t.At h q) :
    Moved s (t.goto w p) := by
  have hat : (t.goto w p).At h q := by
    cases hpq with
    | register => exact (t.goto_status w h p).trans hq
    | throw => exact (t.goto_status w h p).trans hq
  have hheld (v : Worker) (h' : Handler) :
      (t.goto w p).pc v = .register h' ↔ v ≠ w ∧ s.pc v = .register h' := by
    by_cases hv : v = w
    · subst hv
      rw [t.goto_pc_self]
      exact iff_of_false (hp h') fun hne => hne.1 rfl
    · rw [t.goto_pc_of_ne p hv, htpc]
      exact (and_iff_right hv).symm
  have hborn (h' : Handler) : (t.goto w p).Born h' ↔ s.Born h' := by
    cases h' <;> simp only [State.Born, State.goto_gen, State.goto_count, hgen, hcount]
  refine hs.move (p := .worker w) hpc hpq hat (fun r hr => ?_) (fun h' hne r => ?_) ?_
    (fun v => ?_) (fun h' => ?_) hgen.ge (fun g heq => ?_) (fun v _ hv => ?_) (by simp)
  · cases r with
    | queue g =>
      refine .inr ⟨by simp, ?_⟩
      change h ∈ s.handlers g
      rw [← hhandlers]
      exact hr
    | worker v => exact .inr ⟨by simpa using ((hheld v h).mp hr).1, ((hheld v h).mp hr).2⟩
    | absent => cases hpq <;> cases hr.symm.trans hat
    | selector v =>
      cases hpq with
      | register => exact .inl (by rw [Status.registered.inj (hr.symm.trans hat)])
      | throw => cases hr.symm.trans hat
    | finished =>
      cases hpq with
      | register => cases hr.symm.trans hat
      | throw => exact .inl rfl
  · refine State.at_congr (by rw [t.goto_status, hstatus h' hne]) (fun g => by
      rw [t.goto_handlers, hhandlers]) (fun v => ?_) r
    rw [hheld, and_iff_right_iff_imp]
    rintro hv rfl
    exact hne (Pc.register.inj (hv.symm.trans hpc))
  · rw [t.goto_handlers, hhandlers]
    exact hs.nodup
  · by_cases hv : v = w
    · subst hv
      rw [t.goto_pc_self, hcalls]
      exact List.nil_subset _
    · rw [t.goto_pc_of_ne p hv, htpc]
      exact List.Subset.refl _
  · rw [hborn, iff_self_or]
    rintro rfl
    by_contra hnot
    cases hs.eq_of_at (p := .worker w) hpc (hs.born h' hnot)
  · rw [heq] at hpq
    cases hpq
  · have hvw : v ≠ w := by
      rintro rfl
      cases hv.symm.trans hpc
    rw [t.goto_pc_of_ne p hvw, htpc]
    exact hv

/-- The queues without a handler that has been at the front of one. -/
theorem mem_pop (hs : Placed s) {q : List Handler} (hqueue : s.handlers g = h :: q) (g' : ℕ)
    (h' : Handler) :
    h' ∈ (s.setHandlers g q).handlers g' ↔ h' ∈ s.handlers g' ∧ h' ≠ h := by
  have hnodup := hs.nodup g
  rw [hqueue] at hnodup
  by_cases hg : g' = g
  · subst hg
    rw [s.setHandlers_self, hqueue]
    refine ⟨fun hmem => ⟨List.mem_cons_of_mem _ hmem, fun heq => ?_⟩, fun ⟨hmem, hne⟩ => ?_⟩
    · exact (List.nodup_cons.mp hnodup).1 (heq ▸ hmem)
    · exact List.mem_of_ne_of_mem hne hmem
  · rw [s.setHandlers_of_ne q hg]
    refine ⟨fun hmem => ⟨hmem, fun heq => hg ?_⟩, And.left⟩
    have hfront : s.At h (.queue g) := by
      change h ∈ s.handlers g
      rw [hqueue]
      exact List.mem_cons_self
    exact Place.queue.inj (hs.eq_of_at (p := .queue g') (heq ▸ hmem) hfront)

theorem nodup_pop (hs : Placed s) {q : List Handler} (hqueue : s.handlers g = h :: q) (g' : ℕ) :
    ((s.setHandlers g q).handlers g').Nodup := by
  by_cases hg : g' = g
  · subst hg
    have hnodup := hs.nodup g'
    rw [hqueue] at hnodup
    rw [s.setHandlers_self]
    exact hnodup.tail
  · rw [s.setHandlers_of_ne q hg]
    exact hs.nodup g'

/-- The handler at the front of a queue goes on. -/
theorem pop (hs : Placed s) {q : List Handler} {r : Place} (hqueue : s.handlers g = h :: q)
    (hgen : t.gen = s.gen) (hcount : t.count = s.count)
    (hhandlers : t.handlers = (s.setHandlers g q).handlers)
    (hstatus : ∀ h', h' ≠ h → t.status h' = s.status h')
    (hheld : ∀ v h', t.pc v = .register h' ↔ s.pc v = .register h' ∨ r = .worker v ∧ h' = h)
    (hcalls : ∀ v, (t.pc v).calls ⊆ (s.pc v).calls)
    (hworker : ∀ v, s.pc v = .unborn → t.pc v = .unborn) (hr : (Place.queue g).Next r)
    (hat : t.At h r)
    (hself : ∀ σ, t.status h = σ → r = .finished ∧ σ = .finished ∨ s.status h = σ) :
    Moved s t := by
  have hmem : s.At h (.queue g) := by
    change h ∈ s.handlers g
    rw [hqueue]
    exact List.mem_cons_self
  have hborn (h' : Handler) : t.Born h' ↔ s.Born h' := by
    cases h' <;> simp only [State.Born, hgen, hcount]
  have hkeep {σ : Status} (hσ : t.status h = σ) (hw : σ ≠ .waiting) :
      r = .finished ∧ σ = .finished := by
    refine (hself σ hσ).resolve_right fun hs' => hw ?_
    exact hs'.symm.trans (hs.waiting hmem (by simp) (by simp) (by simp))
  refine hs.move hmem hr hat (fun p hp => ?_) (fun h' hne p => ?_) (fun g' => ?_) hcalls
    (fun h' => ?_) hgen.ge (fun g' heq => ?_) (fun v _ hv => hworker v hv) (by simp)
  · cases p with
    | queue g' =>
      change h ∈ t.handlers g' at hp
      rw [hhandlers] at hp
      exact absurd rfl ((hs.mem_pop hqueue g' h).mp hp).2
    | worker v =>
      rcases (hheld v h).mp hp with hv | ⟨hv, -⟩
      · exact .inr ⟨by simp, hv⟩
      · exact .inl hv.symm
    | absent => cases (hkeep hp (by simp)).2
    | selector v => cases (hkeep hp (by simp)).2
    | finished => exact .inl (hkeep hp (by simp)).1.symm
  · refine State.at_congr (hstatus h' hne) (fun g' => ?_) (fun v => ?_) p
    · rw [hhandlers, hs.mem_pop hqueue g' h']
      exact and_iff_left hne
    · rw [hheld, or_iff_left fun heq => hne heq.2]
  · rw [hhandlers]
    exact hs.nodup_pop hqueue g'
  · rw [hborn, iff_self_or]
    rintro rfl
    by_contra hnot
    cases hs.eq_of_at hmem (hs.born h' hnot)
  · rw [heq] at hr
    cases hr

/-- A worker takes a handler from the queue. -/
theorem poll (hs : Placed s) {q : List Handler} (hpc : s.pc w = .poll)
    (hqueue : s.handlers w.1 = h :: q) :
    Moved s ((s.setHandlers w.1 q).goto w (.register h)) := by
  refine hs.pop hqueue (r := .worker w) rfl rfl rfl (fun h' _ => by simp) (fun v h' => ?_)
    (fun v => ?_) (fun v hv => ?_) (.poll w) (State.goto_pc_self ..) fun σ hσ => .inr ?_
  · by_cases hv : v = w
    · subst hv
      rw [State.goto_pc_self, hpc]
      simp [eq_comm]
    · rw [State.goto_pc_of_ne _ _ hv]
      simp [Ne.symm hv, State.setHandlers]
  · by_cases hv : v = w
    · subst hv
      rw [State.goto_pc_self]
      exact List.nil_subset _
    · rw [State.goto_pc_of_ne _ _ hv]
      exact List.Subset.refl _
  · have hvw : v ≠ w := by
      rintro rfl
      cases hv.symm.trans hpc
    rw [State.goto_pc_of_ne _ _ hvw]
    exact hv
  · simpa using hσ

/-- `shutdown` destroys a handler that has been left in the queue. -/
theorem drain (hs : Placed s) {q : List Handler} (hqueue : s.handlers g = h :: q) :
    Moved s ((s.setHandlers g q).destroy h) := by
  have hpc : ((s.setHandlers g q).destroy h).pc = s.pc := by cases h <;> rfl
  refine hs.pop hqueue (r := .finished) (by cases h <;> rfl) (by cases h <;> rfl)
    (by cases h <;> rfl) (fun h' hne => ?_) (fun v h' => ?_) (fun v => ?_) (fun v hv => ?_)
    (.destroy g) (State.destroy_status_self _ h) fun σ hσ => .inl ⟨rfl, ?_⟩
  · rw [State.destroy_status_of_ne _ hne, State.setHandlers_status]
  · simp [hpc]
  · rw [hpc]
    exact List.Subset.refl _
  · rw [hpc]
    exact hv
  · rw [← hσ, State.destroy_status_self]

/-- A handler is created and put into a queue. -/
theorem create_at (hs : Placed s) (habsent : s.At h .absent) (hwaiting : t.status h = .waiting)
    (hstatus : ∀ h', h' ≠ h → t.status h' = s.status h')
    (hmem : ∀ g' h', h' ∈ t.handlers g' ↔ h' ∈ s.handlers g' ∨ h' = h ∧ g' = g)
    (hheld : ∀ v h', t.pc v = .register h' ↔ s.pc v = .register h')
    (hcalls : ∀ v, (t.pc v).calls ⊆ (s.pc v).calls) (hnodup : ∀ g, (t.handlers g).Nodup)
    (hborn : ∀ h', t.Born h' ↔ s.Born h' ∨ h' = h) (hgen : s.gen ≤ t.gen) (hg : g ≤ t.gen)
    (hworker : ∀ v, t.gen < v.1 → s.pc v = .unborn → t.pc v = .unborn)
    (hown : ∀ g', h = .acceptor g' → g' = g) : Moved s t := by
  have hat : t.At h (.queue g) := (hmem g h).mpr (.inr ⟨rfl, rfl⟩)
  refine hs.move habsent (.create g) hat (fun r hr => ?_) (fun h' hne r => ?_) hnodup hcalls hborn
    hgen (fun g' heq => Place.queue.inj heq ▸ hg) hworker
    fun _ g' hg' => congrArg Place.queue (hown g' hg').symm
  · cases r with
    | queue g' =>
      rcases (hmem g' h).mp hr with hr | ⟨-, rfl⟩
      · exact .inr ⟨by simp, hr⟩
      · exact .inl rfl
    | worker v => exact .inr ⟨by simp, (hheld v h).mp hr⟩
    | _ => cases hwaiting.symm.trans hr
  · refine State.at_congr (hstatus h' hne) (fun g' => ?_) (fun v => hheld v h') r
    rw [hmem, or_iff_left fun heq => hne heq.1]

/-- The acceptor creates a connector. -/
theorem create (hs : Placed s) (client : Option Sock) (hg : s.At (.acceptor g) (.selector w)) :
    Moved s (s.create g client) := by
  have habsent : s.At (.connector s.count) .absent := hs.born _ (lt_irrefl s.count)
  have hgen : g ≤ s.gen := by
    by_contra hnot
    cases hs.eq_of_at hg (hs.born (.acceptor g) hnot)
  refine hs.create_at habsent (s.create_status_self g client)
    (fun h' hne => State.create_status_of_ne g client hne)
    (fun g' h' => s.mem_create g g' h' client) (fun _ _ => .rfl)
    (fun _ => List.Subset.refl _) (fun g' => ?_) (fun h' => ?_) le_rfl hgen (fun _ _ hv => hv)
    (by simp)
  · change ((s.setHandlers g (s.handlers g ++ [.connector s.count])).handlers g').Nodup
    by_cases hg' : g' = g
    · subst hg'
      rw [s.setHandlers_self]
      refine List.nodup_append.mpr ⟨hs.nodup g', by simp, fun h hh h' hh' heq => ?_⟩
      rw [heq, List.mem_singleton.mp hh'] at hh
      cases hs.eq_of_at (p := .queue g') hh habsent
    · rw [s.setHandlers_of_ne _ hg']
      exact hs.nodup g'
  · cases h' with
    | acceptor g' => simp [State.Born, State.create, State.setHandlers]
    | connector c =>
      simp only [State.Born, State.create, Handler.connector.injEq]
      omega

/-- The server is started. -/
theorem started (hs : Placed s) : Moved s (s.started cfg) := by
  have habsent : s.At (.acceptor (s.gen + 1)) .absent := hs.born _ (Nat.lt_irrefl _)
  have hnil : s.handlers (s.gen + 1) = [] :=
    List.eq_nil_iff_forall_not_mem.mpr fun h hmem => Nat.lt_irrefl _ (hs.queue _ h hmem)
  have hhandlers : (s.started cfg).handlers =
      (s.setHandlers (s.gen + 1) [.acceptor (s.gen + 1)]).handlers := rfl
  have hpc (v : Worker) (hv : s.pc v ≠ .unborn) : (s.started cfg).pc v = s.pc v := by
    have hne : v.1 ≠ s.gen + 1 := fun heq => hv (hs.worker v (heq ▸ Nat.lt_succ_self _))
    simp [State.started, hne]
  have hnew (v : Worker) (hv : s.pc v = .unborn) :
      (s.started cfg).pc v = .unborn ∨ (s.started cfg).pc v = .opening := by
    simp only [State.started, hv]
    split_ifs <;> simp
  refine hs.create_at (g := s.gen + 1) habsent
    (by simp [State.status, State.started, Acceptor.status])
    (fun h' hne => s.setAcceptor_status_of_ne .constructed hne) (fun g' h' => ?_) (fun v h' => ?_)
    (fun v => ?_) (fun g' => ?_) (fun h' => ?_) (Nat.le_succ _) le_rfl (fun v hv hunborn => ?_)
    fun g' heq => (Handler.acceptor.inj heq).symm
  · rw [hhandlers]
    by_cases hg : g' = s.gen + 1
    · subst hg
      rw [s.setHandlers_self, hnil]
      simp
    · rw [s.setHandlers_of_ne _ hg]
      simp [hg]
  · by_cases hv : s.pc v = .unborn
    · rw [hv]
      rcases hnew v hv with heq | heq <;> simp [heq]
    · rw [hpc v hv]
  · by_cases hv : s.pc v = .unborn
    · rcases hnew v hv with heq | heq <;> simp [heq, Pc.calls]
    · rw [hpc v hv]
      exact List.Subset.refl _
  · rw [hhandlers]
    by_cases hg : g' = s.gen + 1
    · subst hg
      rw [s.setHandlers_self]
      simp
    · rw [s.setHandlers_of_ne _ hg]
      exact hs.nodup g'
  · cases h' with
    | acceptor g' => simp [State.Born, State.started, Nat.le_succ_iff]
    | connector c => simp [State.Born, State.started]
  · change s.gen + 1 < v.1 at hv
    simp only [State.started, if_neg fun hnew : v.1 = s.gen + 1 ∧ _ => hv.ne' hnew.1]
    exact hunborn

/-- **What a step does to the places.** -/
theorem step (hs : Placed s) {a : Act} (hstep : (tcpProxy cfg).step s a = some t) :
    Moved s t := by
  cases trans_of_step hstep with
  | refused ha => exact .refl hs
  | start hmain hworkers => exact hs.started
  | shutdown hmain hworkers => exact hs.still rfl rfl rfl rfl fun h => by cases h <;> rfl
  | interruptWorker hmain hi => exact hs.still rfl rfl rfl rfl fun h => by cases h <;> rfl
  | joined hmain hi => exact hs.still rfl rfl rfl rfl fun h => by cases h <;> rfl
  | join hmain hjoin => exact hs.still rfl rfl rfl rfl fun h => by cases h <;> rfl
  | drained hmain hqueue => exact hs.still rfl rfl rfl rfl fun h => by cases h <;> rfl
  | drain hmain hqueue => exact hs.drain hqueue
  | interrupt => exact hs.still rfl rfl rfl rfl fun h => by cases h <;> rfl
  | @opening w ok hpc => cases ok <;> exact hs.idle hpc trivial trivial
  | @loop w hpc =>
    have hcleared : Moved s { s with interrupts := Function.update s.interrupts w false } :=
      hs.still rfl rfl rfl rfl fun h => by cases h <;> rfl
    split_ifs
    · exact hcleared.trans (hcleared.placed.idle hpc trivial trivial)
    · exact hcleared.trans (hcleared.placed.idle hpc trivial trivial)
  | pollNull hpc hqueue => exact hs.idle hpc trivial trivial
  | poll hpc hqueue => exact hs.poll hpc hqueue
  | @bind w g room hpc hfree =>
    exact hs.resolve hpc (t := s.setAcceptor g _) rfl rfl rfl rfl
      (fun h hne => s.setAcceptor_status_of_ne _ hne) (by simp) rfl (.register w)
      (s.setAcceptor_status_self _ _)
  | @bindThrows w g r p hpc hr =>
    refine hs.resolve hpc (t := s.setAcceptor g _) rfl rfl rfl rfl
      (fun h hne => s.setAcceptor_status_of_ne _ hne) ?_ ?_ (.throw w)
      (s.setAcceptor_status_self _ _) <;>
      obtain ⟨-, rfl⟩ | ⟨-, rfl⟩ := hr <;> simp [Pc.calls]
  | @connect w c room x hpc hc =>
    exact hs.resolve hpc (t := s.setConnector c _) rfl rfl rfl rfl
      (fun h hne => s.setConnector_status_of_ne _ hne) (by simp) rfl (.register w)
      (s.setConnector_status_self _ _)
  | @connectFails w c x hpc hc =>
    exact hs.resolve hpc (t := s.setConnector c _) rfl rfl rfl rfl
      (fun h hne => s.setConnector_status_of_ne _ hne) (by simp) rfl (.throw w)
      (s.setConnector_status_self _ _)
  | @connectThrows w c client hpc hc =>
    exact hs.resolve hpc (t := s.setConnector c _) rfl rfl rfl rfl
      (fun h hne => s.setConnector_status_of_ne _ hne) (by simp) rfl (.throw w)
      (s.setConnector_status_self _ _)
  | selectThrows hpc => exact hs.idle hpc trivial trivial
  | select hpc hnodup hks => exact hs.select hpc hks
  | @accept w g a client cs hpc hbound ha =>
    have hreg := hs.calls w (.accept g) (by rw [hpc]; exact List.mem_cons_self)
    have hcreated := hs.create client hreg
    exact hcreated.trans (hcreated.placed.advance hpc)
  | @acceptInterrupted w g cs hpc hbound hinterrupt =>
    have hreg := hs.calls w (.accept g) (by rw [hpc]; exact List.mem_cons_self)
    have hclosed : Moved s (s.setAcceptor g (.registered w false)) :=
      hs.still rfl rfl rfl rfl fun h => State.setAcceptor_status h hreg.symm
    exact hclosed.trans (hclosed.placed.advance hpc)
  | acceptNothing hpc ha => exact hs.advance hpc
  | @call w v k c x cs u u' hpc hc hcall =>
    have hcalled : Moved s (s.setConnector c (.registered v u')) :=
      hs.still rfl rfl rfl rfl fun h => State.setConnector_status h (by rw [State.status, hc]; rfl)
    exact hcalled.trans (hcalled.placed.advance hpc)
  | @callInterrupted w v c x cs u hpc hc hinterrupt hopen =>
    have hclosed : Moved s
        (s.setConnector c (.registered v (u.destroy x.1 .closedByInterrupt))) :=
      hs.still rfl rfl rfl rfl fun h => State.setConnector_status h (by rw [State.status, hc]; rfl)
    exact hclosed.trans (hclosed.placed.advance hpc)
  | clear hpc =>
    exact hs.goto (by simp [hpc]) (by simp [hpc]) (by simp) (by simp [Pc.calls])
  | peerClient hc hpeer =>
    exact hs.still rfl rfl rfl rfl fun h =>
      State.setConnector_status h (by rw [State.status, hc]; rfl)
  | peer hc hpeer =>
    exact hs.still rfl rfl rfl rfl fun h =>
      State.setConnector_status h (by rw [State.status, hc]; rfl)

theorem run (hs : Placed s) {as : List Act} (hrun : (tcpProxy cfg).run s as = some t) :
    Moved s t :=
  Machine.invariant_of_step (I := Moved s)
    (fun _ _ _ hmoved hstep => hmoved.trans (hmoved.placed.step hstep)) (.refl hs) hrun

end Placed

/-- **The places of the handlers.** In every run a handler is at one place, and in a queue once; a
worker has operations of those handlers only to process that are registered with its selector; and a
handler goes through its places in one direction. -/
theorem tcpProxy_placed {cfg : TcpServerConfig} {s t : State} {as bs : List Act}
    (hs : (tcpProxy cfg).run .new as = some s) (ht : (tcpProxy cfg).run s bs = some t) :
    (∀ h, ∃! p, t.At h p) ∧ (∀ g, (t.handlers g).Nodup) ∧
      (∀ w, ∀ x ∈ (t.pc w).calls, t.At x.handler (.selector w)) ∧
        ∀ h p q, s.At h p → t.At h q → Relation.ReflTransGen Place.Next p q := by
  have hplaced := (Placed.new.run hs).placed
  obtain ⟨ht, hnext⟩ := hplaced.run ht
  refine ⟨ht.place, ht.nodup, ht.calls, fun h p q hp hq => ?_⟩
  obtain ⟨q', hq', hpq⟩ := hnext h p hp
  exact ht.eq_of_at hq hq' ▸ hpq

/-- A server with two workers. -/
def pair : TcpServerConfig where
  port := 8080
  workerCount := 2
  pos := by decide

/-- The first worker accepts a connection. -/
def accepts : List Act :=
  [.start, .opening (1, 0) true, .loop (1, 0), .poll (1, 0), .register (1, 0) (.registered 0),
    .select (1, 0) (some [.acceptor 1]), .accept (1, 0) (.accepted 8)]

/-- The second one serves it. -/
def serves : List Act :=
  [.opening (1, 1) true, .loop (1, 1), .poll (1, 1), .register (1, 1) (.registered 8),
    .peer 0 .client (.deliver [1, 2, 3]),
    .select (1, 1) (some [.connector 0 .client ⟨true, false⟩]), .call (1, 1) 3]

theorem tcpProxy_placed_pair :
    ∃ s t, (tcpProxy pair).run .new accepts = some s ∧ (tcpProxy pair).run s serves = some t ∧
      s.At (.connector 0) (.queue 1) ∧ t.At (.connector 0) (.selector (1, 1)) ∧
        Relation.ReflTransGen Place.Next (.queue 1) (.selector (1, 1)) := by
  have hrun : ((tcpProxy pair).run .new accepts).any (fun s =>
      decide (s.At (.connector 0) (.queue 1)) && ((tcpProxy pair).run s serves).any fun t =>
        decide (t.At (.connector 0) (.selector (1, 1)))) = true := by decide
  obtain ⟨s, hs, hrun⟩ := (Option.any_eq_true ..).mp hrun
  obtain ⟨hqueue, hrun⟩ := Bool.and_eq_true_iff.mp hrun
  obtain ⟨t, ht, hselector⟩ := (Option.any_eq_true ..).mp hrun
  have hq := of_decide_eq_true hqueue
  have hr := of_decide_eq_true hselector
  exact ⟨s, t, hs, ht, hq, hr, (tcpProxy_placed hs ht).2.2.2 (.connector 0) _ _ hq hr⟩

end Parikshan.NioProxy.Server
