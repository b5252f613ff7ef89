import Tenure.Proofs.World.Turns

/-!
# Renumbered revisions

Nobody asks of a revision more than whether it is another one. So a contender whose store has
other numbers for the revisions of its key does the same under the other numbers.

- **Other numbers** (`Row.renumber`, `Contender.renumber`): rows and contenders with other numbers
  for the revisions in them.
- **Stores** (`Store.Mirrors`, `Store.Parallel`): a store has the row of another one under a key,
  with its number. Writes of the key go the same way in both (`Store.create_parallel`,
  `Store.update_parallel`), and so do the calls of contenders (`perform_parallel`).
- **Turns** (`Contender.turn`, `World.pollRun_turn`): a turn of a call of `run` as a function.
  `turn_parallel` says that a turn goes the same way in both stores.
-/

namespace Tenure

/-! ## Stores -/

namespace Lease

/-- The row with another number for its revision. -/
def Row.renumber (ρ : Nat → Nat) (row : Row) : Row := { row with revision := ρ row.revision }

namespace Store

variable {ρ : Nat → Nat} {key : String} {s s' : Store}

theorem available_create (s : Store) (now : Nat) (key : String) (value : Bytes) (ttl : Duration) :
    (s.create now key value ttl).1.available = s.available := by
  rcases s.create_cases now key value ttl with ⟨e, h, -⟩ | ⟨-, h⟩ | ⟨-, h⟩ <;> rw [h] <;> rfl

theorem available_update (s : Store) (now : Nat) (key : String) (value : Bytes) (expected : Nat)
    (ttl : Duration) : (s.update now key value expected ttl).1.available = s.available := by
  rcases s.update_cases now key value expected ttl with
    ⟨e, h, -⟩ | ⟨row, -, -, h⟩ | ⟨row, -, -, h⟩ <;> rw [h] <;> rfl

/-- The second store is as available as the first one and has its row under the key, renumbered. -/
structure Mirrors (ρ : Nat → Nat) (key : String) (s s' : Store) : Prop where
  available : s'.available = s.available
  row : s'.rows.get? key = (s.rows.get? key).map (·.renumber ρ)

/-- Two stores go the same way: both refuse and stay as they are, or both take a revision and what
they answer is the same if the second revision is the number of the first one. -/
def Parallel (ρ : Nat → Nat) (key : String) (s s' : Store)
    (o o' : Store × Except StoreError Nat) : Prop :=
  (∃ e, o = (s, .error e) ∧ o' = (s', .error e)) ∨
  (o.1.issued = s.issued + 1 ∧ o'.1.issued = s'.issued + 1 ∧
    (ρ (s.issued + 1) = s'.issued + 1 → Mirrors ρ key o.1 o'.1 ∧ o'.2 = o.2.map ρ))

theorem Mirrors.live? (h : Mirrors ρ key s s') (now : Nat) :
    s'.live? now key = (s.live? now key).map (·.renumber ρ) := by
  simp only [Store.live?, h.row]
  cases s.rows.get? key with
  | none => rfl
  | some row =>
    show (if row.isLive now then some (row.renumber ρ) else none) = _
    simp only [Option.filter]
    split <;> rfl

theorem Mirrors.write (h : Mirrors ρ key s s') (value : Bytes) (deadline : Nat)
    (next : ρ (s.issued + 1) = s'.issued + 1) :
    Mirrors ρ key (s.advance.put key ⟨value, s.issued + 1, deadline⟩)
      (s'.advance.put key ⟨value, s'.issued + 1, deadline⟩) where
  available := h.available
  row := by
    rw [get?_rows_put, get?_rows_put, if_pos rfl, if_pos rfl, Option.map_some, Row.renumber, next]

theorem create_parallel (h : Mirrors ρ key s s') (now : Nat) (value : Bytes) (ttl : Duration) :
    Parallel ρ key s s' (s.create now key value ttl) (s'.create now key value ttl) := by
  simp only [create, h.available, h.live?]
  cases s.available with
  | false => exact .inl ⟨_, rfl, rfl⟩
  | true =>
    cases s.live? now key with
    | some row => exact .inl ⟨_, rfl, rfl⟩
    | none =>
      cases Clock.after now ttl with
      | ok deadline => exact .inr ⟨rfl, rfl, fun next => ⟨h.write value deadline next, next ▸ rfl⟩⟩
      | error o => exact .inr ⟨rfl, rfl, fun _ => ⟨⟨h.available, h.row⟩, rfl⟩⟩

theorem update_parallel (inj : Function.Injective ρ) (h : Mirrors ρ key s s') (now : Nat)
    (value : Bytes) (expected : Nat) (ttl : Duration) :
    Parallel ρ key s s' (s.update now key value expected ttl)
      (s'.update now key value (ρ expected) ttl) := by
  simp only [update, h.available, h.row]
  cases s.available with
  | false => exact .inl ⟨_, rfl, rfl⟩
  | true =>
    cases s.rows.get? key with
    | none => exact .inl ⟨_, rfl, rfl⟩
    | some row =>
      have hlive : (row.renumber ρ).isLive now = row.isLive now := rfl
      simp only [Option.map_some, hlive]
      cases row.isLive now with
      | false => exact .inl ⟨_, rfl, rfl⟩
      | true =>
        by_cases hrev : row.revision = expected
        · have hrev' : (row.renumber ρ).revision = ρ expected := congrArg ρ hrev
          simp only [hrev, hrev', ne_eq, not_true_eq_false, if_false]
          cases Clock.after now ttl with
          | ok deadline =>
            exact .inr ⟨rfl, rfl, fun next => ⟨h.write value deadline next, next ▸ rfl⟩⟩
          | error o => exact .inr ⟨rfl, rfl, fun next => ⟨h.write value row.deadline next, rfl⟩⟩
        · have hrev' : (row.renumber ρ).revision ≠ ρ expected := fun he => hrev (inj he)
          simp only [hrev, hrev', ne_eq, not_false_eq_true, if_true]
          exact .inl ⟨_, rfl, rfl⟩

/-- The expected revision counts only in that the row has it or not. -/
theorem update_congr {expected expected' : Nat} (now : Nat) (value : Bytes) (ttl : Duration)
    (h : ∀ row, s.rows.get? key = some row →
      (row.revision = expected ↔ row.revision = expected')) :
    s.update now key value expected ttl = s.update now key value expected' ttl := by
  simp only [update]
  generalize s.rows.get? key = row? at h
  cases row? with
  | none => rfl
  | some row => simp only [ne_eq, h row rfl]

variable {o o' : Store × Except StoreError Nat}

theorem Parallel.mirrors (h : Parallel ρ key s s' o o') (hs : Mirrors ρ key s s')
    (next : o.1.issued ≠ s.issued → ρ (s.issued + 1) = s'.issued + 1) :
    Mirrors ρ key o.1 o'.1 ∧ o'.2 = o.2.map ρ := by
  rcases h with ⟨e, rfl, rfl⟩ | ⟨issued, -, same⟩
  · exact ⟨hs, rfl⟩
  · exact same (next (by omega))

theorem Parallel.issued (h : Parallel ρ key s s' o o') (ho : o.1.issued ≠ s.issued) :
    o.1.issued = s.issued + 1 ∧ o'.1.issued = s'.issued + 1 := by
  rcases h with ⟨e, rfl, rfl⟩ | ⟨issued, issued', -⟩
  · exact absurd rfl ho
  · exact ⟨issued, issued'⟩

end Store

end Lease

/-! ## Contenders -/

namespace Election

open Lease World

/-- The call with another number for its revision. -/
def Request.renumber (ρ : Nat → Nat) : Request → Request
  | .acquire => .acquire
  | .renew revision => .renew (ρ revision)

/-- The note with other numbers for the revisions in it. -/
def Note.renumber (ρ : Nat → Nat) : Note → Note
  | .asked q => .asked (q.renumber ρ)
  | .answered q a => .answered (q.renumber ρ) (a.map ρ)
  | n => n

/-- The ledger with another number for its revision. -/
def Ledger.renumber (ρ : Nat → Nat) (l : Ledger) : Ledger :=
  { l with revision? := l.revision?.map ρ }

/-- The point with another number for the revision of a call that is held back. -/
def Phase.renumber (ρ : Nat → Nat) : Phase → Phase
  | .calling q asked due => .calling (q.renumber ρ) asked due
  | p => p

/-- The call of `run` with other numbers for the revisions in it. -/
def Run.renumber (ρ : Nat → Nat) (r : Run) : Run :=
  { r with phase := r.phase.renumber ρ, ledger := r.ledger.renumber ρ }

/-- The contender with other numbers for the revisions in it. -/
def Contender.renumber (ρ : Nat → Nat) (c : Contender) : Contender :=
  { c with runs := c.runs.map (·.renumber ρ) }

/-- The conclusion with another number for the revision in it. -/
def Conclusion.renumber (ρ : Nat → Nat) (e : Conclusion) : Conclusion :=
  { e with ledger := e.ledger.renumber ρ }

section

variable (ρ : Nat → Nat)

theorem request?_renumber (s : Standing) (l : Ledger) :
    request? s (l.renumber ρ) = (request? s l).map (·.renumber ρ) := by
  cases s with
  | candidate => rfl
  | leader => cases h : l.revision? <;> simp [request?, Ledger.renumber, h, Request.renumber]

theorem conclude_renumber (backoff? : Option Backoff) (before : Standing) (l : Ledger)
    (a? : Option Answer) : conclude backoff? before (l.renumber ρ) (a?.map (·.map ρ)) =
      (conclude backoff? before l a?).renumber ρ := by
  obtain _ | a := a?
  · cases before <;> rfl
  · cases before <;> cases a <;> rfl

/-- A conclusion notes no revision. -/
theorem renumber_notes_conclude (backoff? : Option Backoff) (before : Standing) (l : Ledger)
    (a? : Option Answer) : (conclude backoff? before l a?).notes.map (·.renumber ρ) =
      (conclude backoff? before l a?).notes := by
  simp only [conclude, notesOf]
  generalize standingAfter a? = after
  cases backoff? <;> cases before <;> cases after <;> rfl

theorem renumber_notes_wait (wait : Wait) (draw : Nat) :
    (wait.notes draw).map (·.renumber ρ) = wait.notes draw := by
  cases wait with
  | plain => rfl
  | backoff strategy failures =>
    simp only [Wait.notes]
    split <;> rfl

theorem renumber_phase_wait (wait : Wait) (now : Nat) (interval : Duration) (draw : Nat) :
    (wait.phase now interval draw).renumber ρ = wait.phase now interval draw := by
  cases wait with
  | plain => rfl
  | backoff strategy failures =>
    simp only [Wait.phase]
    split <;> rfl

namespace Contender

variable (c : Contender) (i : Nat)

theorem renumber_modifyRun {f g : Run → Run}
    (h : ∀ r, (f r).renumber ρ = g (r.renumber ρ)) :
    (c.modifyRun i f).renumber ρ = (c.renumber ρ).modifyRun i g := by
  simp only [renumber, modifyRun, Contender.mk.injEq, true_and]
  refine List.ext_getElem? fun j => ?_
  simp only [List.getElem?_map, List.getElem?_modify]
  cases c.runs[j]? with
  | none => rfl
  | some r =>
    simp only [Option.map_some, Option.some.injEq, Functor.map]
    split
    · exact h r
    · rfl

theorem renumber_setPhase (p : Phase) :
    (c.setPhase i p).renumber ρ = (c.renumber ρ).setPhase i (p.renumber ρ) :=
  c.renumber_modifyRun ρ i fun _ => rfl

theorem renumber_enter : (c.enter i).renumber ρ = (c.renumber ρ).enter i := by
  have := c.renumber_modifyRun ρ i (f := fun r => { r with ledger := {} })
    (g := fun r => { r with ledger := {} }) fun _ => rfl
  simp only [enter, ← this]
  rfl

theorem renumber_leave : (c.leave i).renumber ρ = (c.renumber ρ).leave i := by
  have := (c.setStanding .candidate).renumber_setPhase ρ i .over
  simp only [leave]
  exact congrArg (fun d : Contender => { d with looping := false }) this

theorem renumber_settle (e : Conclusion) :
    (c.settle i e).renumber ρ = (c.renumber ρ).settle i (e.renumber ρ) := by
  have edits (d : Contender) := d.renumber_modifyRun ρ i
    (f := fun r => { r with ledger := e.ledger })
    (g := fun r => { r with ledger := e.ledger.renumber ρ }) fun _ => rfl
  simp only [settle, show (c.renumber ρ).standing = c.standing from rfl,
    show (e.renumber ρ).standing = e.standing from rfl]
  split <;> exact edits _

theorem renumber_concluded (e : Conclusion) (now draw : Nat) :
    (c.concluded i e now draw).renumber ρ =
      (c.renumber ρ).concluded i (e.renumber ρ) now draw := by
  rw [concluded, renumber_setPhase, renumber_settle, renumber_phase_wait]
  rfl

theorem conclusion_renumber (r : Run) (a? : Option Answer) :
    (c.renumber ρ).conclusion (r.renumber ρ) (a?.map (·.map ρ)) =
      (c.conclusion r a?).renumber ρ :=
  conclude_renumber ..

end Contender

end

/-! ## Turns -/

namespace Contender

/-- A call on the store acts, and the campaign ends or breaks off. -/
def act (d : Contender) (now draw : Nat) (s : Store) (i : Nat) (r : Run) (opening : List Note)
    (q : Request) : Outcome :=
  let (u, a) := perform s now d.candidacy q
  if a = .error .beyondClock then ⟨d.setPhase i .broken, u, opening⟩
  else
    let e := d.conclusion r (some a)
    ⟨d.concluded i e now draw, u, opening ++ .answered q a :: (e.notes ++ e.wait.notes draw)⟩

/-- A campaign begins. -/
def campaign (d : Contender) (now delay draw : Nat) (s : Store) (i : Nat) (r : Run) : Outcome :=
  match request? d.standing r.ledger with
  | none =>
    let e := d.conclusion r none
    ⟨d.concluded i e now draw, s, e.notes ++ e.wait.notes draw⟩
  | some q =>
    if delay = 0 then d.act now draw s i r [.asked q] q
    else ⟨d.setPhase i (.calling q now (Clock.wake now delay)), s, [.asked q]⟩

/-- A turn of the `i`-th call of `run`. -/
def turn (c : Contender) (now delay draw : Nat) (s : Store) (i : Nat) : Outcome :=
  match c.runs[i]? with
  | none => ⟨c, s, []⟩
  | some r =>
    match r.phase with
    | .fresh =>
      if c.looping then ⟨c.setPhase i .over, s, []⟩
      else if r.cancelled then ⟨(c.enter i).leave i, s, []⟩
      else (c.enter i).campaign now delay draw s i { r with ledger := {} }
    | .calling q _ due =>
      if r.cancelled then ⟨c.leave i, s, []⟩
      else if Clock.hasFired now due then c.act now draw s i r [] q
      else ⟨c, s, []⟩
    | .waiting due =>
      if r.cancelled then ⟨c.leave i, s, []⟩
      else if Clock.hasFired now due then c.campaign now delay draw s i r
      else ⟨c, s, []⟩
    | .over | .broken => ⟨c, s, []⟩

end Contender

section

variable {ρ : Nat → Nat} {s s' : Store} {c : Contender}

theorem perform_parallel (inj : Function.Injective ρ) {y : Candidacy}
    (h : Store.Mirrors ρ y.key s s') (now : Nat) (q : Request) :
    Store.Parallel ρ y.key s s' (perform s now y q) (perform s' now y (q.renumber ρ)) := by
  cases q with
  | acquire => exact Store.create_parallel h ..
  | renew revision => exact Store.update_parallel inj h ..

/-- Two outcomes in two stores are the same up to the numbers of revisions. -/
structure Outcome.Parallel (ρ : Nat → Nat) (key : String) (s s' : Store) (o o' : Outcome) :
    Prop where
  same : (o.store.issued ≠ s.issued → ρ (s.issued + 1) = s'.issued + 1) →
    o'.contender = o.contender.renumber ρ ∧ o'.notes = o.notes.map (·.renumber ρ) ∧
      Store.Mirrors ρ key o.store o'.store
  issued : o.store.issued ≠ s.issued →
    o.store.issued = s.issued + 1 ∧ o'.store.issued = s'.issued + 1

theorem parallel_of_stores {key : String} (h : Store.Mirrors ρ key s s') {d d' : Contender}
    {notes notes' : List Note} (hd : d' = d.renumber ρ) (hn : notes' = notes.map (·.renumber ρ)) :
    Outcome.Parallel ρ key s s' ⟨d, s, notes⟩ ⟨d', s', notes'⟩ :=
  ⟨fun _ => ⟨hd, hn, h⟩, fun hne => absurd rfl hne⟩

theorem store_act (d : Contender) (now draw : Nat) (s : Store) (i : Nat) (r : Run)
    (opening : List Note) (q : Request) :
    (d.act now draw s i r opening q).store = (perform s now d.candidacy q).1 := by
  simp only [Contender.act]
  split <;> rfl

theorem conclude_parallel (ρ : Nat → Nat) (c : Contender) (now draw i : Nat) (r : Run)
    (a? : Option Answer) :
    (c.renumber ρ).concluded i ((c.renumber ρ).conclusion (r.renumber ρ) (a?.map (·.map ρ)))
        now draw = (c.concluded i (c.conclusion r a?) now draw).renumber ρ ∧
      ((c.renumber ρ).conclusion (r.renumber ρ) (a?.map (·.map ρ))).notes ++
          ((c.renumber ρ).conclusion (r.renumber ρ) (a?.map (·.map ρ))).wait.notes draw =
        ((c.conclusion r a?).notes ++ (c.conclusion r a?).wait.notes draw).map
          (·.renumber ρ) := by
  rw [Contender.conclusion_renumber, Contender.renumber_concluded, List.map_append,
    renumber_notes_wait, show (c.conclusion r a?).notes.map (·.renumber ρ) = _ from
      renumber_notes_conclude ..]
  exact ⟨rfl, rfl⟩

theorem act_parallel (inj : Function.Injective ρ)
    (h : Store.Mirrors ρ c.candidacy.key s s') (now draw i : Nat) (r : Run) (opening : List Note)
    (q : Request) : Outcome.Parallel ρ c.candidacy.key s s' (c.act now draw s i r opening q)
      ((c.renumber ρ).act now draw s' i (r.renumber ρ) (opening.map (·.renumber ρ))
        (q.renumber ρ)) := by
  have hp : Store.Parallel ρ c.candidacy.key s s' _ (perform s' now (c.renumber ρ).candidacy _) :=
    perform_parallel inj h now q
  refine ⟨fun next => ?_, fun hne => ?_⟩
  · rw [store_act] at next ⊢
    rw [store_act]
    obtain ⟨mirrors, answer⟩ := hp.mirrors h next
    suffices ((c.renumber ρ).act now draw s' i (r.renumber ρ) (opening.map (·.renumber ρ))
          (q.renumber ρ)).contender = (c.act now draw s i r opening q).contender.renumber ρ ∧
        ((c.renumber ρ).act now draw s' i (r.renumber ρ) (opening.map (·.renumber ρ))
          (q.renumber ρ)).notes = (c.act now draw s i r opening q).notes.map (·.renumber ρ) from
      ⟨this.1, this.2, mirrors⟩
    simp only [Contender.act]
    rw [answer]
    have broken (a : Answer) : a.map ρ = .error .beyondClock ↔ a = .error .beyondClock := by
      cases a <;> simp [Except.map]
    by_cases hb : (perform s now c.candidacy q).2 = .error .beyondClock
    · rw [if_pos hb, if_pos ((broken _).2 hb)]
      exact ⟨(c.renumber_setPhase ρ i .broken).symm, rfl⟩
    · rw [if_neg hb, if_neg fun hb' => hb ((broken _).1 hb')]
      obtain ⟨hcon, hnotes⟩ :=
        conclude_parallel ρ c now draw i r (some (perform s now c.candidacy q).2)
      refine ⟨hcon, ?_⟩
      rw [List.map_append, List.map_cons, ← hnotes]
      rfl
  · rw [store_act] at hne ⊢
    rw [store_act]
    exact hp.issued hne

theorem campaign_parallel (inj : Function.Injective ρ)
    (h : Store.Mirrors ρ c.candidacy.key s s') (now delay draw i : Nat) (r : Run) :
    Outcome.Parallel ρ c.candidacy.key s s' (c.campaign now delay draw s i r)
      ((c.renumber ρ).campaign now delay draw s' i (r.renumber ρ)) := by
  have hq : request? (c.renumber ρ).standing (r.renumber ρ).ledger =
      (request? c.standing r.ledger).map (·.renumber ρ) := request?_renumber ρ c.standing r.ledger
  simp only [Contender.campaign, hq]
  cases request? c.standing r.ledger with
  | none =>
    obtain ⟨hcon, hnotes⟩ := conclude_parallel ρ c now draw i r none
    exact parallel_of_stores h hcon hnotes
  | some q =>
    simp only [Option.map_some]
    split
    · exact act_parallel inj h now draw i r [.asked q] q
    · exact parallel_of_stores h (c.renumber_setPhase ρ i (.calling q now _)).symm rfl

/-- A call leaves the store as available as it was. -/
theorem available_perform (s : Store) (now : Nat) (y : Candidacy) (q : Request) :
    (perform s now y q).1.available = s.available := by
  cases q with
  | acquire => exact s.available_create ..
  | renew revision => exact s.available_update ..

theorem Turn.available {now delay draw i : Nat} {o : Outcome}
    (t : Turn now delay draw c s i o) : o.store.available = s.available := by
  cases t with
  | still | refused | left | asks | idles => rfl
  | @acts d r q u a _ _ _ _ performs _ | @breaks d r q u _ _ _ _ performs =>
    have := available_perform s now d.candidacy q
    rwa [performs] at this

/-- A turn goes the same way in a store with other numbers. -/
theorem turn_parallel (inj : Function.Injective ρ)
    (h : Store.Mirrors ρ c.candidacy.key s s') (now delay draw i : Nat) :
    Outcome.Parallel ρ c.candidacy.key s s' (c.turn now delay draw s i)
      ((c.renumber ρ).turn now delay draw s' i) := by
  have hrun : (c.renumber ρ).runs[i]? = (c.runs[i]?).map (·.renumber ρ) := List.getElem?_map
  have leaves : Outcome.Parallel ρ c.candidacy.key s s' ⟨c.leave i, s, []⟩
      ⟨(c.renumber ρ).leave i, s', []⟩ :=
    parallel_of_stores h (c.renumber_leave ρ i).symm rfl
  have still : Outcome.Parallel ρ c.candidacy.key s s' ⟨c, s, []⟩ ⟨c.renumber ρ, s', []⟩ :=
    parallel_of_stores h rfl rfl
  simp only [Contender.turn, hrun]
  cases c.runs[i]? with
  | none => exact still
  | some r =>
    simp only [Option.map_some, show (r.renumber ρ).phase = r.phase.renumber ρ from rfl,
      show (r.renumber ρ).cancelled = r.cancelled from rfl,
      show (c.renumber ρ).looping = c.looping from rfl]
    cases r.phase with
    | fresh =>
      simp only [Phase.renumber]
      split
      · exact parallel_of_stores h (c.renumber_setPhase ρ i .over).symm rfl
      · rw [← Contender.renumber_enter]
        split
        · exact parallel_of_stores h ((c.enter i).renumber_leave ρ i).symm rfl
        · exact campaign_parallel (c := c.enter i) inj h now delay draw i { r with ledger := {} }
    | calling q asked due =>
      simp only [Phase.renumber]
      split
      · exact leaves
      · split
        · exact act_parallel inj h now draw i r [] q
        · exact still
    | waiting due =>
      simp only [Phase.renumber]
      split
      · exact leaves
      · split
        · exact campaign_parallel inj h now delay draw i r
        · exact still
    | _ => exact still

end

end Election

namespace World

open Election

variable {w u : World} {id : String} {y : Candidacy} {c d : Contender}

theorem actOnStore_act (i : Nat) (r : Run) (q : Request) (draw : Nat) {opening : List Note}
    (h : Effect w id y ⟨d, (w.bucket y.bucket).store, opening⟩ u) (hd : d.candidacy = y)
    (hc : c.candidacy = y) (hs : c.standing = d.standing) :
    Effect w id y (d.act w.now draw (w.bucket y.bucket).store i r opening q)
      (u.actOnStore id i c r q draw) := by
  have hstore : (u.bucket y.bucket).store = (w.bucket y.bucket).store := by
    rw [h.bucket, if_pos rfl]
  simp only [actOnStore, Contender.act, hc, hd, hstore, h.now]
  rcases perform (w.bucket y.bucket).store w.now y q with ⟨s', a⟩
  have hact := h.setStore s'
  dsimp only
  split
  · exact hact.modifyContender fun x => x.setPhase i .broken
  · have hnote := hact.note (n := .answered q a) fun p => rfl
    simpa using hnote.concludeRun i (some a) draw hd hc hs

theorem campaign_campaign (i : Nat) (r : Run) (draw : Nat)
    (h : Effect w id y ⟨d, (w.bucket y.bucket).store, []⟩ u) (hd : d.candidacy = y)
    (hc : c.candidacy = y) (hs : c.standing = d.standing) :
    Effect w id y
      (d.campaign w.now (w.bucket y.bucket).delay draw (w.bucket y.bucket).store i r)
      (u.campaign id i c r draw) := by
  have hdelay : (u.bucket y.bucket).delay = (w.bucket y.bucket).delay := by
    rw [h.bucket, if_pos rfl]
  simp only [World.campaign, Contender.campaign, hs]
  cases request? d.standing r.ledger with
  | none => simpa using h.concludeRun i none draw hd hc hs
  | some q =>
    have hnote := h.note (n := .asked q) fun p => rfl
    simp only [hc, show ((u.note id (.asked q)).bucket y.bucket).delay = _ from hdelay]
    split
    · exact actOnStore_act i r q draw hnote hd hc hs
    · rw [show (u.note id (.asked q)).now = w.now from h.now]
      exact hnote.modifyContender fun x => x.setPhase i (.calling q w.now (Clock.wake w.now _))

/-- What a turn of a call of `run` does is the effect of the function. -/
theorem pollRun_turn (hc : w.contenders.get? id = some c) (i draw : Nat) :
    Effect w id c.candidacy (c.turn w.now (w.bucket c.candidacy.bucket).delay draw
      (w.bucket c.candidacy.bucket).store i) (w.pollRun id i draw) := by
  have still := Effect.refl (y := c.candidacy) hc
  have leaves {d : Contender} {u : World}
      (h : Effect w id c.candidacy ⟨d, (w.bucket c.candidacy.bucket).store, []⟩ u) :
      Effect w id c.candidacy ⟨d.leave i, (w.bucket c.candidacy.bucket).store, []⟩
        (u.leaveRun id i c.candidacy) :=
    (h.modifyContender (·.leave i)).modifyMetrics _
  simp only [pollRun, hc, Contender.turn]
  cases c.runs[i]? with
  | none => exact still
  | some r =>
    dsimp only
    cases r.phase with
    | fresh =>
      dsimp only
      split
      · exact still.modifyContender fun x => x.setPhase i .over
      · have enters := still.modifyContender (·.enter i)
        split
        · exact leaves enters
        · exact campaign_campaign i _ draw enters rfl rfl rfl
    | calling q asked due =>
      dsimp only
      split
      · exact leaves still
      · split
        · exact actOnStore_act i r q draw still rfl rfl rfl
        · exact still
    | waiting due =>
      dsimp only
      split
      · exact leaves still
      · split
        · exact campaign_campaign i r draw still rfl rfl rfl
        · exact still
    | _ => exact still

end World

end Tenure
