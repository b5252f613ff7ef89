import Tenure.Proofs.Lease.Writes
import Tenure.World.Campaigning

/-!
# Turns of a call of `run`

- **Calls on the store** (`perform_cases`): a call is refused and changes nothing, is taken with a
  new row under the contender's key, or breaks off.
- **Taking the loop** (`Engages`): a call of `run` that goes on has the loop already or begins with
  a clean ledger.
- **Turns** (`Turn`): everything that one turn of a call can do to its contender and to the store,
  with the guards under which it does it and the notes it makes.
- **Any store** (`Step`, `Turn.step`): what a turn can do to its contender whatever its store answers.
-/

namespace Tenure.Election

open Lease World

/-! ## Calls on the store -/

/-- What a store has to hold for a call to be taken: no live row of the key, or the live row of
the revision that is to be renewed. -/
def Grants (s : Store) (now : Nat) (y : Candidacy) : Request → Prop
  | .acquire => s.live? now y.key = none
  | .renew revision => ∃ row, s.live? now y.key = some row ∧ row.revision = revision

/-- The row that a contender writes. -/
def rowOf (s : Store) (now : Nat) (y : Candidacy) : Row :=
  ⟨utf8 y.identity, s.issued + 1, now + y.ttl.nanos⟩

/-- The store after a call that broke off: a renewal has replaced the row and kept its deadline. -/
def spoilt (s : Store) (now : Nat) (y : Candidacy) : Request → Store
  | .acquire => s.advance
  | .renew _ =>
    match s.live? now y.key with
    | some row => s.advance.put y.key { rowOf s now y with deadline := row.deadline }
    | none => s

/-- A call is refused, or the store grants it and it is taken or breaks off. -/
theorem perform_cases (s : Store) (now : Nat) (y : Candidacy) (q : Request) :
    (∃ e, perform s now y q = (s, .error e) ∧ e ≠ .beyondClock) ∨
    (Grants s now y q ∧
      perform s now y q = (s.advance.put y.key (rowOf s now y), .ok (s.issued + 1))) ∨
    (Grants s now y q ∧ perform s now y q = (spoilt s now y q, .error .beyondClock)) := by
  cases q with
  | acquire => exact s.create_cases now y.key (utf8 y.identity) y.ttl
  | renew revision =>
    rcases s.update_cases now y.key (utf8 y.identity) revision y.ttl with
      h | ⟨row, hl, hrev, h⟩ | ⟨row, hl, hrev, h⟩
    · exact .inl h
    · exact .inr (.inl ⟨⟨row, hl, hrev⟩, h⟩)
    · refine .inr (.inr ⟨⟨row, hl, hrev⟩, ?_⟩)
      simp only [perform, h, spoilt, hl, rowOf]

section

variable {s u : Store} {now : Nat} {y : Candidacy} {q : Request}

theorem perform_ok {revision : Nat} (h : perform s now y q = (u, .ok revision)) :
    Grants s now y q ∧ revision = s.issued + 1 ∧ u = s.advance.put y.key (rowOf s now y) := by
  rcases perform_cases s now y q with ⟨e, hp, -⟩ | ⟨grants, hp⟩ | ⟨-, hp⟩ <;>
    obtain ⟨hs, ha⟩ := Prod.mk.inj (hp.symm.trans h)
  · cases ha
  · exact ⟨grants, (Except.ok.inj ha).symm, hs.symm⟩
  · cases ha

theorem perform_refused {e : StoreError} (h : perform s now y q = (u, .error e))
    (he : e ≠ .beyondClock) : u = s := by
  rcases perform_cases s now y q with ⟨e', hp, -⟩ | ⟨-, hp⟩ | ⟨-, hp⟩ <;>
    obtain ⟨hs, ha⟩ := Prod.mk.inj (hp.symm.trans h)
  · exact hs.symm
  · cases ha
  · exact absurd (Except.error.inj ha).symm he

theorem perform_broken (h : perform s now y q = (u, .error .beyondClock)) :
    Grants s now y q ∧ u = spoilt s now y q := by
  rcases perform_cases s now y q with ⟨e, hp, he⟩ | ⟨-, hp⟩ | ⟨grants, hp⟩ <;>
    obtain ⟨hs, ha⟩ := Prod.mk.inj (hp.symm.trans h)
  · exact absurd (Except.error.inj ha) he
  · cases ha
  · exact ⟨grants, hs.symm⟩

/-- A call that the store does not grant is refused. -/
theorem perform_of_not_grants (h : ¬ Grants s now y q) :
    ∃ e, perform s now y q = (s, .error e) := by
  rcases perform_cases s now y q with ⟨e, hp, -⟩ | ⟨grants, -⟩ | ⟨grants, -⟩
  · exact ⟨e, hp⟩
  · exact absurd grants h
  · exact absurd grants h

/-- A call that an available store grants is taken or breaks off. -/
theorem perform_of_grants (h : Grants s now y q) (available : s.available = true) :
    perform s now y q = (s.advance.put y.key (rowOf s now y), .ok (s.issued + 1)) ∨
    perform s now y q = (spoilt s now y q, .error .beyondClock) := by
  rcases perform_cases s now y q with ⟨e, hp, he⟩ | ⟨-, hp⟩ | ⟨-, hp⟩
  · refine absurd (congrArg Prod.snd hp) ?_
    cases q with
    | acquire =>
      simp only [perform, Store.create, available, show s.live? now y.key = none from h]
      cases Clock.after now y.ttl <;> simp [he.symm]
    | renew revision =>
      obtain ⟨row, hlive, hrev⟩ := h
      obtain ⟨hrow, hnow⟩ := Store.live?_eq_some_iff.1 hlive
      simp only [perform, Store.update, available, hrow, Row.isLive, hnow, hrev]
      cases Clock.after now y.ttl <;> simp [he.symm]
  · exact .inl hp
  · exact .inr hp

end

/-- A call does not break off if the lease that it asks for ends within the range of the clock. -/
theorem perform_ne_beyondClock {now : Nat} {y : Candidacy} (fits : now + y.ttl.nanos < Clock.limit)
    (s : Store) (q : Request) : (perform s now y q).2 ≠ .error .beyondClock := by
  have after : Clock.after now y.ttl = .ok (now + y.ttl.nanos) := if_pos fits
  cases q with
  | acquire =>
    simp only [perform, Store.create, after]
    split
    · simp [Store.offline]
    · split <;> simp
  | renew revision =>
    simp only [perform, Store.update, after]
    split
    · simp [Store.offline]
    · split
      · simp
      · split
        · simp
        · split <;> simp

theorem perform_later (s : Store) (now : Nat) (y : Candidacy) (q : Request) :
    s.Later (perform s now y q).1 := by
  cases q with
  | acquire => exact .create ..
  | renew revision => exact .update ..

/-- A call leaves the other keys of the store alone. -/
theorem get?_rows_perform_of_ne (s : Store) (now : Nat) (y : Candidacy) (q : Request)
    {key : String} (h : y.key ≠ key) :
    (perform s now y q).1.rows.get? key = s.rows.get? key := by
  cases q with
  | acquire => exact s.get?_rows_create_of_ne now _ y.ttl h
  | renew revision => exact s.get?_rows_update_of_ne now _ revision y.ttl h

/-! ## Taking the loop -/

/-- Takes the loop for a call that begins with a clean ledger. -/
def Contender.enter (c : Contender) (i : Nat) : Contender :=
  { c.modifyRun i fun r => { r with ledger := {} } with looping := true }

/-- The `i`-th call of `run` goes on: it is in the loop, or takes it if the loop is free. The
contender and the call are given as they are then. -/
inductive Engages (c : Contender) (i : Nat) : Contender → Run → Prop
  | begins {r : Run} (run : c.runs[i]? = some r) (phase : r.phase = .fresh)
      (free : c.looping = false) : Engages c i (c.enter i) { r with ledger := {} }
  | goesOn {r : Run} (run : c.runs[i]? = some r) (phase : r.phase.inLoop = true) : Engages c i c r

theorem Engages.candidacy {c d : Contender} {i : Nat} {r : Run} (h : Engages c i d r) :
    d.candidacy = c.candidacy := by
  cases h <;> rfl

theorem Engages.standing {c d : Contender} {i : Nat} {r : Run} (h : Engages c i d r) :
    d.standing = c.standing := by
  cases h <;> rfl

/-- The call on the store that a call of `run` makes next: one that is held back, or a new one. -/
def Run.call? (r : Run) (standing : Standing) : Option Request :=
  match r.phase with
  | .calling q _ _ => some q
  | _ => request? standing r.ledger

/-- What is noted before the call acts. A call that was held back has been noted before. -/
def Run.opening (r : Run) (q : Request) : List Note :=
  match r.phase with
  | .calling _ _ _ => []
  | _ => [.asked q]

/-! ## The end of a campaign -/

/-- Where a call of `run` stands while it waits for the next campaign. -/
def Wait.phase (now : Nat) (interval : Duration) (draw : Nat) : Wait → Phase
  | .plain => .waiting (Clock.wake now interval.nanos)
  | .backoff strategy failures =>
    match strategy.next failures draw with
    | .ok d => .waiting (Clock.wake now d.nanos)
    | .error _ => .broken

/-- What is noted when the wait begins. -/
def Wait.notes (draw : Nat) : Wait → List Note
  | .plain => []
  | .backoff strategy failures =>
    match strategy.next failures draw with
    | .ok d => [.backedOff failures d]
    | .error _ => []

/-- A campaign of a contender from its answer on. -/
def Contender.conclusion (c : Contender) (r : Run) (answer? : Option Answer) : Conclusion :=
  conclude c.candidacy.backoff? c.standing r.ledger answer?

/-- The contender after a campaign of its `i`-th call of `run`. -/
def Contender.concluded (c : Contender) (i : Nat) (e : Conclusion) (now draw : Nat) : Contender :=
  (c.settle i e).setPhase i (e.wait.phase now c.candidacy.interval draw)

/-! ## Turns -/

/-- What a turn of a call of `run` leads to. -/
structure Outcome where
  /-- The contender. -/
  contender : Contender
  /-- The store it contends in. -/
  store : Store
  /-- The notes, in order. -/
  notes : List Note

/-- A turn of the `i`-th call of `run` of a contender, at an instant, with a store that holds calls
back for `delay`. -/
inductive Turn (now delay draw : Nat) (c : Contender) (s : Store) (i : Nat) : Outcome → Prop
  /-- Nothing happens. -/
  | still : Turn now delay draw c s i ⟨c, s, []⟩
  /-- The call finds the loop taken. -/
  | refused {r : Run} (run : c.runs[i]? = some r) (phase : r.phase = .fresh)
      (taken : c.looping = true) : Turn now delay draw c s i ⟨c.setPhase i .over, s, []⟩
  /-- The call was cancelled. -/
  | left {d : Contender} {r : Run} (engages : Engages c i d r) (cancelled : r.cancelled = true) :
      Turn now delay draw c s i ⟨d.leave i, s, []⟩
  /-- A call on the store begins and is held back. -/
  | asks {d : Contender} {r : Run} {q : Request} (engages : Engages c i d r)
      (cancelled : r.cancelled = false)
      (due : ∀ t, r.phase.deadline? = some t → Clock.hasFired now t = true)
      (anew : ∀ q' asked t, r.phase ≠ .calling q' asked t)
      (request : request? d.standing r.ledger = some q) (held : delay ≠ 0) :
      Turn now delay draw c s i
        ⟨d.setPhase i (.calling q now (Clock.wake now delay)), s, [.asked q]⟩
  /-- A call on the store acts, is answered, and ends the campaign. -/
  | acts {d : Contender} {r : Run} {q : Request} {u : Store} {a : Answer}
      (engages : Engages c i d r) (cancelled : r.cancelled = false)
      (due : ∀ t, r.phase.deadline? = some t → Clock.hasFired now t = true)
      (call : r.call? d.standing = some q)
      (performs : perform s now d.candidacy q = (u, a)) (ends : a ≠ .error .beyondClock) :
      Turn now delay draw c s i
        ⟨d.concluded i (d.conclusion r (some a)) now draw, u,
          r.opening q ++ .answered q a ::
            ((d.conclusion r (some a)).notes ++ (d.conclusion r (some a)).wait.notes draw)⟩
  /-- A call on the store acts and breaks off. -/
  | breaks {d : Contender} {r : Run} {q : Request} {u : Store} (engages : Engages c i d r)
      (cancelled : r.cancelled = false)
      (due : ∀ t, r.phase.deadline? = some t → Clock.hasFired now t = true)
      (call : r.call? d.standing = some q)
      (performs : perform s now d.candidacy q = (u, .error .beyondClock)) :
      Turn now delay draw c s i ⟨d.setPhase i .broken, u, r.opening q⟩
  /-- A campaign ends without a call on the store. -/
  | idles {d : Contender} {r : Run} (engages : Engages c i d r) (cancelled : r.cancelled = false)
      (due : ∀ t, r.phase.deadline? = some t → Clock.hasFired now t = true)
      (anew : ∀ q' asked t, r.phase ≠ .calling q' asked t)
      (request : request? d.standing r.ledger = none) :
      Turn now delay draw c s i
        ⟨d.concluded i (d.conclusion r none) now draw, s,
          (d.conclusion r none).notes ++ (d.conclusion r none).wait.notes draw⟩

/-- A turn leads to a later store. -/
theorem Turn.later {now delay draw : Nat} {c : Contender} {s : Store} {i : Nat} {o : Outcome}
    (t : Turn now delay draw c s i o) : s.Later o.store := by
  cases t with
  | still | refused | left | asks | idles => exact .refl s
  | @acts d r q s' a _ _ _ _ performs _ | @breaks d r q s' _ _ _ _ performs =>
    have := perform_later s now d.candidacy q
    rwa [performs] at this

/-- A turn leaves the other keys of the store alone. -/
theorem Turn.get?_rows_of_ne {now delay draw : Nat} {c : Contender} {s : Store} {i : Nat}
    {o : Outcome} (t : Turn now delay draw c s i o) {key : String} (h : c.candidacy.key ≠ key) :
    o.store.rows.get? key = s.rows.get? key := by
  cases t with
  | still | refused | left | asks | idles => rfl
  | @acts d r q s' a e _ _ _ performs _ | @breaks d r q s' e _ _ _ performs =>
    have := get?_rows_perform_of_ne s now d.candidacy q (e.candidacy ▸ h)
    rwa [performs] at this

/-! ## Any store -/

/-- A turn of the `i`-th call of `run` of a contender whose store does as it likes: it takes a call on
it, refuses it, holds it back or breaks it off, whatever it has done before. With the turn go the
answer that the call gets in it, if any, and what it notes. -/
inductive Step (c : Contender) (i : Nat) : Option Answer → Contender → List Note → Prop
  /-- Nothing happens. -/
  | still : Step c i none c []
  /-- The call of `run` finds the loop taken. -/
  | refused {r : Run} (run : c.runs[i]? = some r) (phase : r.phase = .fresh)
      (taken : c.looping = true) : Step c i none (c.setPhase i .over) []
  /-- The call of `run` was cancelled. -/
  | left {d : Contender} {r : Run} (engages : Engages c i d r) (cancelled : r.cancelled = true) :
      Step c i none (d.leave i) []
  /-- A call on the store begins and is held back, for any time. -/
  | asks {d : Contender} {r : Run} {q : Request} {asked due : Nat} (engages : Engages c i d r)
      (cancelled : r.cancelled = false) (anew : ∀ q' asked' t, r.phase ≠ .calling q' asked' t)
      (request : request? d.standing r.ledger = some q) :
      Step c i none (d.setPhase i (.calling q asked due)) [.asked q]
  /-- A call on the store gets any answer, and the campaign ends. -/
  | acts {d : Contender} {r : Run} {q : Request} {a : Answer} {now draw : Nat}
      (engages : Engages c i d r) (cancelled : r.cancelled = false)
      (call : r.call? d.standing = some q) (ends : a ≠ .error .beyondClock) :
      Step c i (some a) (d.concluded i (d.conclusion r (some a)) now draw)
        (r.opening q ++ .answered q a ::
          ((d.conclusion r (some a)).notes ++ (d.conclusion r (some a)).wait.notes draw))
  /-- A call on the store breaks off. -/
  | breaks {d : Contender} {r : Run} {q : Request} (engages : Engages c i d r)
      (cancelled : r.cancelled = false) (call : r.call? d.standing = some q) :
      Step c i (some (.error .beyondClock)) (d.setPhase i .broken) (r.opening q)
  /-- A campaign ends without a call on the store. -/
  | idles {d : Contender} {r : Run} {now draw : Nat} (engages : Engages c i d r)
      (cancelled : r.cancelled = false) (anew : ∀ q asked t, r.phase ≠ .calling q asked t)
      (request : request? d.standing r.ledger = none) :
      Step c i none (d.concluded i (d.conclusion r none) now draw)
        ((d.conclusion r none).notes ++ (d.conclusion r none).wait.notes draw)

/-- Every turn is a step, in which a call breaks off only if its lease would end beyond the clock. -/
theorem Turn.step {now delay draw : Nat} {c : Contender} {s : Store} {i : Nat} {o : Outcome}
    (t : Turn now delay draw c s i o) :
    ∃ reply?, Step c i reply? o.contender o.notes ∧
      (now + c.candidacy.ttl.nanos < Clock.limit → reply? ≠ some (.error .beyondClock)) := by
  cases t with
  | still => exact ⟨_, .still, by simp⟩
  | refused run phase taken => exact ⟨_, .refused run phase taken, by simp⟩
  | left engages cancelled => exact ⟨_, .left engages cancelled, by simp⟩
  | asks engages cancelled _ anew request _ =>
    exact ⟨_, .asks engages cancelled anew request, by simp⟩
  | acts engages cancelled _ call _ ends =>
    exact ⟨_, .acts engages cancelled call ends, fun _ => by simpa using ends⟩
  | @breaks d r q u engages cancelled _ call performs =>
    refine ⟨_, .breaks engages cancelled call, fun fits => ?_⟩
    have ends := perform_ne_beyondClock (engages.candidacy.symm ▸ fits) s q
    rw [performs] at ends
    exact absurd rfl ends
  | idles engages cancelled _ anew request =>
    exact ⟨_, .idles engages cancelled anew request, by simp⟩

end Tenure.Election
