import Parikshan.Aggregator.Ownership

/-!
# Handlers that take turns

If the counter section of a handler ends before the next one begins, the races on the counters are
gone: production handlers read the first counter alone, and a clone handler compares counters that
do not move. The connections then get the indices `0, 1, …` in the order of their sections.

## Main definitions

* `Phase.InSection`, `SectionAlone`: the condition on the steps of a run.
* `Serial`: the invariant of the runs that meet it.
* `Order`: the connections that have taken an index, in the order of their counter sections.

## Main results

* `SectionAlone.readsAlone`, `Serial.passesAlone`: the races on the counters are gone.
* `Serial.step`: the connections take the indices in order.
-/

namespace Parikshan.Aggregator

open Posix

/-- The handler is between its first read of a counter and the end of its increment. -/
def Phase.InSection : Phase → Prop
  | .reading _ => True
  | .checking _ _ => True
  | .counting _ _ => True
  | .idle => False
  | .holding _ => False

/-- A handler begins its counter section only while no handler is in it. -/
def SectionAlone (s : State) : Act → Prop
  | .count k => s.phase k = .idle → ∀ k', ¬ (s.phase k').InSection
  | _ => True

instance (φ : Phase) : Decidable φ.InSection :=
  match φ with
  | .reading _ => .isTrue trivial
  | .checking _ _ => .isTrue trivial
  | .counting _ _ => .isTrue trivial
  | .idle => .isFalse id
  | .holding _ => .isFalse id

/-- The same for the connections accepted so far. -/
def sectionAlone (s : State) : Act → Bool
  | .count k => decide (s.phase k = .idle → ∀ k' ∈ s.connections, ¬ (s.phase k').InSection)
  | _ => true

theorem Vacant.sectionAlone {s : State} {a : Act} (hs : Vacant s)
    (h : Aggregator.sectionAlone s a = true) : SectionAlone s a := by
  cases a with
  | count k =>
    intro hidle k' hin
    have haccepted : s.Accepted k' := by
      by_contra hk
      rw [State.phase, hs k' .main hk] at hin
      exact hin
    refine of_decide_eq_true h hidle k' ?_ hin
    cases k' <;> simpa [State.connections, State.Accepted] using haccepted
  | _ => trivial

/-- The condition can be evaluated along a run. -/
theorem sectionAlone_of_check {cfg : Config} {cap : PipeId → ℕ} {as : List Act}
    (h : (aggregator cfg).check sectionAlone (listening cap) as = true) :
    (aggregator cfg).Along SectionAlone (listening cap) as :=
  Machine.Along.imp (I := Vacant) (fun _ _ _ hs _ hstep => hs.step hstep)
    (fun _ _ _ hs ha _ => hs.sectionAlone ha) (.listening cap) (Machine.along_of_check h)

/-- The production connections whose backend connect has succeeded and the clone connections that
have passed the order check, each in the order of their counter sections. -/
structure Order where
  prods : List ℕ := []
  clones : List ℕ := []

/-- The connections by the counter they take from. -/
def Order.get (o : Order) : Counter → List ℕ
  | .first => o.prods
  | .second => o.clones

/-- A production handler gets into the order as it reads the counter, which it does once its
backend connect has succeeded, and a clone handler as it passes the check. -/
def Order.update (s : State) : Act → Order → Order
  | .count (.prod i), o =>
    match s.phase (.prod i) with
    | .idle => { o with prods := o.prods ++ [i] }
    | _ => o
  | .count (.clone j), o =>
    match s.phase (.clone j) with
    | .checking c2 c1 => if c2 ≥ c1 then o else { o with clones := o.clones ++ [j] }
    | _ => o
  | _, o => o

/-- The indices of the connections that take from a counter. -/
def indices (x : Counter) (φ : Conn → Phase) (i : ℕ) : Option ℕ := (φ (x.conn i)).index

/-- At most one handler is in its counter section, what a clone handler has read of the second
counter is still its value, and the connections have taken the indices in order. -/
structure Serial (m : Shm) (φ : Conn → Phase) (o : Order) : Prop extends Ordered m φ where
  unique : ∀ k k', (φ k).InSection → (φ k').InSection → k = k'
  fresh : ∀ j c2, φ (.clone j) = .reading c2 → c2 = m.shm2
  checking : ∀ j c2 c1, φ (.clone j) = .checking c2 c1 → c2 = m.shm2
  listed : ∀ x, Listed (o.get x) (indices x φ)

theorem Phase.InSection.of_pending {φ : Phase} {c : ℕ} (h : φ.pending = some c) :
    φ.InSection := by
  cases φ with
  | counting d i => trivial
  | _ => cases h

/-- A handler comes into its section from being idle. -/
theorem Phase.Step.inSection {m m' : Shm} {k : Conn} {φ ψ : Phase} (h : Phase.Step m k φ m' ψ) :
    φ = .idle ∨ φ.InSection := by
  cases h <;> simp [InSection]

theorem indices_update (x : Counter) (φ : Conn → Phase) (i : ℕ) (ψ : Phase) :
    indices x (Function.update φ (x.conn i) ψ) = Function.update (indices x φ) i ψ.index := by
  funext j
  simp only [indices, Function.update_apply, x.conn_injective.eq_iff]
  split_ifs <;> rfl

theorem indices_update_same {x : Counter} {φ : Conn → Phase} {k : Conn} {ψ : Phase}
    (h : k.counter = x → ψ.index = (φ k).index) :
    indices x (Function.update φ k ψ) = indices x φ := by
  funext j
  rw [indices, indices, Function.update_apply]
  split_ifs with hk
  · rw [hk, h (by rw [← hk, Counter.conn_counter])]
  · rfl

theorem SectionAlone.readsAlone {s : State} {a : Act} (ha : SectionAlone s a) : ReadsAlone s a := by
  unfold ReadsAlone
  split
  · next i =>
    intro hidle j
    by_contra hne
    obtain ⟨c, hc⟩ := Option.ne_none_iff_exists'.mp hne
    exact ha hidle _ (.of_pending hc)
  · trivial

namespace Serial

variable {cfg : Config} {s t : State} {a : Act} {o : Order} {k : Conn} {m m' : Shm}
  {φ : Conn → Phase} {ψ : Phase}

theorem listening (cap : PipeId → ℕ) : Serial (listening cap).shm (listening cap).phase {} where
  toOrdered := .listening cap
  unique _ _ h := h.elim
  fresh _ _ h := by cases h
  checking _ _ _ h := by cases h
  listed x := by cases x <;> exact .nil

theorem passesAlone (h : Serial s.shm s.phase o) : PassesAlone s a := by
  unfold PassesAlone
  split
  · next j =>
    intro c2 c1 hφ _
    refine ⟨(h.checking j c2 c1 hφ).symm, fun j' => ?_⟩
    by_contra hne
    obtain ⟨c, hc⟩ := Option.ne_none_iff_exists'.mp hne
    have hjj := h.unique (.clone j') (.clone j) (.of_pending hc) (by simp [hφ, Phase.InSection])
    rw [hjj, hφ] at hc
    cases hc
  · trivial

/-- While no handler has an index pending, as many connections have taken an index as the counter
says. -/
theorem length_eq {x : Counter} (h : Serial m φ o) (hfree : ∀ i, pendings x φ i = none) :
    (o.get x).length = m.get x := by
  have hsettled (i c : ℕ) : indices x φ i = some c ↔ settleds x φ i = some c := by
    rw [indices, Phase.index_eq_some, ← pendings, hfree i, settleds]
    simp
  have hticketed : Ticketed (m.get x) (pendings x φ) (settleds x φ) := by
    cases x
    · exact h.prod
    · exact h.clone
  refine (h.listed x).length_eq (fun i c hi => ?_) fun c hc => ?_
  · exact hticketed.settled_lt i c ((hsettled i c).mp hi)
  · obtain ⟨i, hi⟩ := hticketed.settled_surj c hc
    exact ⟨i, (hsettled i c).mpr hi⟩

/-- The order is kept by the steps of the counter sections. -/
theorem listed_step (h : Serial s.shm s.phase o) (ha : SectionAlone s (.count k))
    (hstep : Phase.Step s.shm k (s.phase k) m' ψ) (x : Counter) :
    Listed ((o.update s (.count k)).get x) (indices x (Function.update s.phase k ψ)) := by
  have hkeep (hindex : k.counter = x → ψ.index = (s.phase k).index)
      (ho : (o.update s (.count k)).get x = o.get x) :
      Listed ((o.update s (.count k)).get x) (indices x (Function.update s.phase k ψ)) := by
    rw [indices_update_same hindex, ho]
    exact h.listed x
  generalize hφ : s.phase k = φ₀ at hstep
  cases hstep with
  | take i =>
    have hfree : ∀ j, pendings .first s.phase j = none := ha.readsAlone hφ
    have hnone : indices .first s.phase i = none := by
      rw [indices, Counter.conn, hφ]
      rfl
    cases x with
    | first =>
      have hlen : o.prods.length = s.shm.shm := h.length_eq hfree
      have happend := (h.listed .first).append hnone
      have hupdate := indices_update .first s.phase i (.counting s.shm.shm .p)
      rw [Counter.conn] at hupdate
      rw [hupdate]
      simp only [Order.update, hφ, Order.get] at happend ⊢
      rwa [hlen] at happend
    | second => exact hkeep (by simp [Conn.counter]) (by simp [Order.update, hφ, Order.get])
  | read j => exact hkeep (fun _ => by rw [hφ]; rfl) (by simp [Order.update, hφ])
  | compare j c2 => exact hkeep (fun _ => by rw [hφ]; rfl) (by simp [Order.update, hφ])
  | reject j c2 c1 hc =>
    exact hkeep (fun _ => by rw [hφ]; rfl) (by simp [Order.update, hφ, hc])
  | pass j c2 c1 hc =>
    obtain ⟨hshm, hfree⟩ := h.passesAlone (a := .count (.clone j)) c2 c1 hφ hc
    have hnone : indices .second s.phase j = none := by
      rw [indices, Counter.conn, hφ]
      rfl
    cases x with
    | first =>
      refine hkeep (by simp [Conn.counter]) ?_
      simp only [Order.update, hφ]
      split_ifs <;> rfl
    | second =>
      have hlen : o.clones.length = s.shm.shm2 := h.length_eq (x := .second) hfree
      have happend := (h.listed .second).append hnone
      have hupdate := indices_update .second s.phase j (.counting c2 .p)
      rw [Counter.conn] at hupdate
      rw [hupdate]
      simp only [Order.update, hφ, Order.get, if_neg (Nat.not_le.mpr hc)] at happend ⊢
      rwa [hlen, hshm] at happend
  | @increment _ c i _ r hr =>
    refine hkeep (fun _ => ?_) ?_
    · rw [hφ]
      cases r <;> rfl
    · cases k <;> simp [Order.update, hφ]

/-- **Taking turns.** Every step keeps the invariant as long as counter sections do not overlap. -/
theorem step (hs : Vacant s) (h : Serial s.shm s.phase o) (ha : SectionAlone s a)
    (hstep : (aggregator cfg).step s a = some t) : Serial t.shm t.phase (o.update s a) := by
  have hordered := h.toOrdered.step hs ha.readsAlone h.passesAlone hstep
  rcases step_phase hs hstep with ⟨k, ψ, rfl, hp, hphase⟩ | ⟨hne, hshm, hphase⟩
  · have halone : ∀ k' ≠ k, ¬ (s.phase k').InSection := by
      intro k' hk' hin'
      rcases hp.inSection with hidle | hin
      · exact ha hidle k' hin'
      · exact hk' (h.unique k' k hin' hin)
    have honly (k' : Conn) (hin : (t.phase k').InSection) : k' = k := by
      by_contra hk'
      rw [hphase, Function.update_of_ne hk'] at hin
      exact halone k' hk' hin
    refine { toOrdered := hordered, unique := ?_, fresh := ?_, checking := ?_, listed := ?_ }
    · intro k₁ k₂ h₁ h₂
      rw [honly k₁ h₁, honly k₂ h₂]
    · intro j c2 hj
      obtain rfl := honly (.clone j) (by rw [hj]; trivial)
      rw [hphase, Function.update_self] at hj
      generalize s.phase (.clone j) = φ₀ at hp
      generalize t.shm = m' at hp
      cases hp with
      | read => exact (Phase.reading.inj hj).symm
      | @increment _ _ _ _ r => cases r <;> cases hj
      | _ => cases hj
    · intro j c2 c1 hj
      obtain rfl := honly (.clone j) (by rw [hj]; trivial)
      rw [hphase, Function.update_self] at hj
      generalize hφ : s.phase (.clone j) = φ₀ at hp
      generalize t.shm = m' at hp
      cases hp with
      | compare =>
        cases hj
        exact h.fresh j _ hφ
      | @increment _ _ _ _ r => cases r <;> cases hj
      | _ => cases hj
    · intro x
      rw [hphase]
      exact h.listed_step ha hp x
  · have ho : o.update s a = o := by
      cases a with
      | count k => exact absurd rfl (hne k)
      | _ => rfl
    rw [ho, hshm, hphase]
    exact h

end Serial

end Parikshan.Aggregator
