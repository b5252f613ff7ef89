import Tenure.Proofs.Election.Exclusion

/-!
# Reigns

What keeps a leader in place while everybody is on time, the store answers and nobody cancels it.

- **Calls by standing** (`Engages.acquires`, `Engages.renews`): a candidate tries to write the key, and
  a leader to renew it with the revision that it remembers.
- **Rivals** (`Turn.store_eq_of_candidate`): the turns of a candidate leave the store as it is while the
  key has a live entry.
- **Renewals** (`Turn.renews`): the turns of a leader that remembers the live entry leave it leader.
- **Reigns** (`Reigns`, `Reigns.move`): a leader that remembers the entry of the key stays one, and its
  calls are granted. A candidate whose call is answered while the key is free begins to reign
  (`reigns_of_answered`).
-/

namespace Tenure

open Election Lease
open World (perform)

namespace Election

variable {now delay draw : Nat} {c d : Contender} {s : Store} {i : Nat} {o : Outcome} {r : Run}

/-! ## Calls by standing -/

/-- A candidate tries to write the key. -/
theorem Engages.acquires (e : Engages c i d r) (hc : Orderly c) (cand : c.standing = .candidate)
    {q : Request} (call : r.call? d.standing = some q) : q = .acquire := by
  rw [Run.call?_eq (e.atWork hc).2, e.standing, cand] at call
  exact (Option.some.inj call).symm

/-- A leader tries to renew the key with the revision that it remembers. -/
theorem Engages.renews (e : Engages c i d r) (hc : Orderly c) (led : c.standing = .leader)
    {q : Request} (call : r.call? d.standing = some q) {revision : Nat}
    (remembers : r.ledger.revision? = some revision) : q = .renew revision := by
  rw [Run.call?_eq (e.atWork hc).2, e.standing, led, request?, remembers] at call
  exact (Option.some.inj call).symm

/-- A call whose lease would end beyond the clock's range is not answered. -/
theorem Turn.ne_beyondClock (t : Turn now delay draw c s i o) {q : Request} {a : Answer}
    (h : .answered q a ∈ o.notes) : a ≠ .error .beyondClock := by
  cases t with
  | still | refused | left => cases h
  | asks => cases List.mem_singleton.1 h
  | acts _ _ _ _ _ ends =>
    rcases List.mem_append.1 h with h | h
    · cases reply?_opening h
    · rcases List.mem_cons.1 h with h | h
      · cases h
        exact ends
      · cases isCall_conclusion h
  | breaks => cases reply?_opening h
  | idles => cases isCall_conclusion h

/-- A call of `run` that has an answer is not cancelled. -/
theorem Turn.acting (t : Turn now delay draw c s i o) {q : Request} {a : Answer}
    (h : .answered q a ∈ o.notes) : ∃ r, c.runs[i]? = some r ∧ r.cancelled = false := by
  cases t with
  | still | refused | left => cases h
  | asks e cancelled | acts e cancelled | breaks e cancelled | idles e cancelled =>
    obtain ⟨r₀, hr₀, hsame, -⟩ := e.exists_run e.run
    exact ⟨r₀, hr₀, hsame.trans cancelled⟩

/-! ## Rivals -/

/-- A candidate leaves the store as it is while the key has a live entry. -/
theorem Turn.store_eq_of_candidate (t : Turn now delay draw c s i o) (hc : Orderly c)
    (cand : c.standing = .candidate) {row : Row} (hlive : s.live? now c.candidacy.key = some row) :
    o.store = s := by
  cases t with
  | still | refused | left | asks | idles => rfl
  | @acts d r q u a e _ _ call performs _ | @breaks d r q u e _ _ call performs =>
    obtain rfl := e.acquires hc cand call
    rw [e.candidacy] at performs
    have hno : ¬ Grants s now c.candidacy .acquire := by
      intro free
      cases hlive.symm.trans free
    obtain ⟨err, hp⟩ := perform_of_not_grants hno
    exact (Prod.mk.inj (hp.symm.trans performs)).1.symm

/-- A candidate leaves all entries as they are unless its call is answered. -/
theorem Turn.rows_eq_of_candidate (t : Turn now delay draw c s i o) (hc : Orderly c)
    (cand : c.standing = .candidate) (mute : ∀ q a, .answered q a ∉ o.notes) :
    o.store.rows = s.rows := by
  cases t with
  | still | refused | left | asks | idles => rfl
  | acts => exact absurd (List.mem_append_right _ (List.mem_cons_self ..)) (mute _ _)
  | breaks e _ _ call performs =>
    obtain rfl := e.acquires hc cand call
    obtain ⟨-, rfl⟩ := perform_broken performs
    rfl

/-- If all calls of `run` are cancelled, so is the one that goes on. -/
theorem Engages.cancelled_of_all (e : Engages c i d r)
    (cancelled : ∀ {j : Nat} {r : Run}, c.runs[j]? = some r → r.cancelled = true) :
    r.cancelled = true := by
  obtain ⟨r₀, hr₀, hsame, -⟩ := e.exists_run e.run
  exact hsame.symm.trans (cancelled hr₀)

/-- A contender all of whose calls of `run` are cancelled does nothing. -/
theorem Turn.quiet_of_cancelled (t : Turn now delay draw c s i o)
    (cancelled : ∀ {j : Nat} {r : Run}, c.runs[j]? = some r → r.cancelled = true) :
    o.store = s ∧ o.notes = [] := by
  cases t with
  | still | refused | left => exact ⟨rfl, rfl⟩
  | asks e running | acts e running | breaks e running | idles e running =>
    cases running.symm.trans (e.cancelled_of_all cancelled)

/-! ## Renewals -/

/-- A leader whose call of `run` remembers the live entry stays leader: its renewal is granted, and
then it remembers the new entry. If the renewal breaks off, it is not answered. -/
theorem Turn.renews (t : Turn now delay draw c s i o) (hc : Orderly c) (led : c.standing = .leader)
    {j : Nat} (work : AtWork c j r) (holds : r.phase.holdsLoop = true)
    (acting : r.cancelled = false) (available : s.available = true)
    (remembers : r.phase.inLoop = true → ∃ row, s.live? now c.candidacy.key = some row ∧
      r.ledger.revision? = some row.revision) :
    (∃ r', o.contender.standing = .leader ∧ AtWork o.contender j r' ∧
      r'.phase.holdsLoop = true ∧
      (r'.phase.inLoop = true → ∃ row, o.store.rows.get? c.candidacy.key = some row ∧
        r'.ledger.revision? = some row.revision)) ∧
    ∀ q a, .answered q a ∈ o.notes → ∃ revision, a = .ok revision := by
  have kept (hin : r.phase.inLoop = true) : ∃ row, s.rows.get? c.candidacy.key = some row ∧
      r.ledger.revision? = some row.revision := by
    obtain ⟨row, hlive, hrev⟩ := remembers hin
    exact ⟨row, (Store.live?_eq_some_iff.1 hlive).1, hrev⟩
  -- the renewal is of the live entry, so the store grants it
  have granted {d : Contender} {r₁ : Run} {q : Request} {u : Store} {a : Answer}
      (e : Engages c i d r₁) (call : r₁.call? d.standing = some q)
      (performs : perform s now d.candidacy q = (u, a)) :
      (d = c ∧ i = j ∧ r₁ = r ∧ r.phase.inLoop = true) ∧
      ((u = s.advance.put c.candidacy.key (rowOf s now c.candidacy) ∧ a = .ok (s.issued + 1)) ∨
        a = .error .beyondClock) := by
    obtain ⟨rfl, rfl, rfl, hin⟩ := e.eq_of_atWork work
    obtain ⟨row, hlive, hrev⟩ := remembers hin
    obtain rfl := e.renews hc led call hrev
    refine ⟨⟨rfl, rfl, rfl, hin⟩, ?_⟩
    rcases perform_of_grants (show Grants s now d.candidacy (.renew row.revision) from
      ⟨row, hlive, rfl⟩) available with hp | hp
    · obtain ⟨rfl, rfl⟩ := Prod.mk.inj (hp.symm.trans performs)
      exact .inl ⟨rfl, rfl⟩
    · exact .inr (Prod.mk.inj (hp.symm.trans performs)).2.symm
  cases t with
  | still => exact ⟨⟨r, led, work, holds, kept⟩, nofun⟩
  | refused run phase _ => exact ⟨⟨r, led, work.refuse holds run phase, holds, kept⟩, nofun⟩
  | left e cancelled =>
    obtain ⟨-, -, rfl, -⟩ := e.eq_of_atWork work
    cases acting.symm.trans cancelled
  | asks e _ _ _ _ _ =>
    obtain ⟨rfl, rfl, rfl, hin⟩ := e.eq_of_atWork work
    refine ⟨⟨_, led, work.setPhase _, rfl, fun _ => kept hin⟩, fun q a hn => ?_⟩
    cases List.mem_singleton.1 hn
  | @acts d r₁ q u a e _ _ call performs ends =>
    obtain ⟨⟨rfl, rfl, rfl, -⟩, ⟨rfl, rfl⟩ | rfl⟩ := granted e call performs
    · refine ⟨⟨_, ?_, work.concluded _ now draw, Wait.holdsLoop_phase .., fun _ => ?_⟩,
        fun q' a' hn => ?_⟩
      · rw [Contender.standing_concluded]
        rfl
      · refine ⟨rowOf s now d.candidacy, ?_, World.revision?_after_ok ..⟩
        rw [Store.get?_rows_put, if_pos rfl]
      · rcases List.mem_append.1 hn with hn | hn
        · cases reply?_opening hn
        · rcases List.mem_cons.1 hn with hn | hn
          · cases hn
            exact ⟨_, rfl⟩
          · cases isCall_conclusion hn
    · exact absurd rfl ends
  | breaks e _ _ call performs =>
    obtain ⟨⟨rfl, rfl, rfl, -⟩, -⟩ := granted e call performs
    exact ⟨⟨_, led, work.setPhase _, rfl, nofun⟩, fun q a hn => by cases reply?_opening hn⟩
  | idles e _ _ _ request => exact absurd request (request?_ne_none e hc)

end Election

namespace World

variable {bucket key : String} {w : World} {m : Move} {id : String} {c : Contender} {i : Nat}
  {r : Run}

/-! ## Reigns -/

/-- The contender is leader, and its call of `run` remembers the entry of the key unless it broke
off. -/
structure Reigns (w : World) (id : String) (c : Contender) (i : Nat) (r : Run) : Prop where
  contender : w.contenders.get? id = some c
  led : c.standing = .leader
  work : AtWork c i r
  holds : r.phase.holdsLoop = true
  remembers : r.phase.inLoop = true → ∃ row, w.row? c.candidacy = some row ∧
    r.ledger.revision? = some row.revision

/-- The entry of a leader stays in place in a move that is no turn of its own. -/
theorem Exclusive.row?_move (h : Exclusive bucket key w) (timely : w.Timely bucket key)
    (hm : m.Respects bucket key) (hc : w.contenders.get? id = some c)
    (hkey : c.candidacy.Contends bucket key) (led : c.standing = .leader)
    (others : ∀ i draw, m ≠ .poll (.run id i) draw) :
    (w.move m).row? c.candidacy = w.row? c.candidacy := by
  obtain ⟨row, hlive⟩ := h.exists_liveRow? timely hc hkey led
  obtain ⟨hb, hk⟩ := hkey
  rcases get?_rows_move w m c.candidacy.bucket c.candidacy.key with
    hsame | htouch | ⟨id₁, c₁, j, draw, poll, hc₁, hb₁, hk₁⟩
  · exact hsame
  · rw [hb, hk] at htouch
    cases m <;> first | exact absurd htouch hm | exact htouch.elim
  · -- a rival is a candidate, and finds the entry live
    have cand : c₁.standing = .candidate := by
      cases hs : c₁.standing with
      | candidate => rfl
      | leader =>
        obtain rfl := h.unique _ _ _ _ hc₁ hc ⟨hb₁.trans hb, hk₁.trans hk⟩ ⟨hb, hk⟩ hs led
        exact absurd poll (others j draw)
    obtain ⟨o, turn, effect⟩ := pollRun_effect hc₁ j draw
    have effect : Effect w id₁ c₁.candidacy o (w.move m) := poll ▸ effect
    rw [liveRow?, ← hb₁, ← hk₁] at hlive
    rw [row?, effect.bucket, if_pos hb₁, turn.store_eq_of_candidate (h.ordered hc₁) cand hlive,
      row?, hb₁]

/-- A leader that remembers the entry of the key goes on to reign, if its call of `run` is not
cancelled and the store answers. The answers are grants. -/
theorem Reigns.move (h : Reigns w id c i r) (exclusive : Exclusive bucket key w)
    (timely : w.Timely bucket key) (hm : m.Respects bucket key)
    (hkey : c.candidacy.Contends bucket key) (acting : r.cancelled = false)
    (available : (w.bucket bucket).store.available = true) :
    (∃ c' r', Reigns (w.move m) id c' i r') ∧
    ∀ q a, w.Records m (.contender id) (.noted (.answered q a)) → ∃ revision, a = .ok revision := by
  have hord := exclusive.ordered h.contender
  by_cases hturn : ∃ j draw, m = .poll (.run id j) draw
  · obtain ⟨j, draw, rfl⟩ := hturn
    obtain ⟨o, turn, effect⟩ := pollRun_effect h.contender j draw
    have effect : Effect w id c.candidacy o (w.move (.poll (.run id j) draw)) := effect
    obtain ⟨row, hlive⟩ := exclusive.exists_liveRow? timely h.contender hkey h.led
    have remembers (hin : r.phase.inLoop = true) : ∃ row,
        (w.bucket c.candidacy.bucket).store.live? w.now c.candidacy.key = some row ∧
          r.ledger.revision? = some row.revision := by
      obtain ⟨row', hrow', hrev⟩ := h.remembers hin
      obtain rfl := Option.some.inj ((liveRow?_eq_some_iff.1 hlive).1.symm.trans hrow')
      exact ⟨row, hlive, hrev⟩
    rw [← hkey.1] at available
    obtain ⟨⟨r', led, work, holds, remembers'⟩, grants⟩ :=
      turn.renews hord h.led h.work h.holds acting available remembers
    refine ⟨⟨o.contender, r', ?_, led, work, holds, fun hin => ?_⟩, fun q a hrec => ?_⟩
    · rw [effect.contenders, if_pos rfl]
    · rw [row?, turn.candidacy, effect.bucket, if_pos rfl]
      exact remembers' hin
    · exact grants q a (effect.mem_of_records hrec)
  · have others (j draw : Nat) : m ≠ .poll (.run id j) draw := fun h => hturn ⟨j, draw, h⟩
    obtain ⟨c', hc'⟩ := exists_contender_move h.contender m
    refine ⟨?_, fun q a hrec => ?_⟩
    · cases became hc' with
      | opened _ free _ _ => cases h.contender.symm.trans (eq_none_of_free free).1
      | turn poll => exact absurd poll (others _ _)
      | aside was aside _ =>
        obtain rfl := Option.some.inj (h.contender.symm.trans was)
        obtain ⟨b, work'⟩ := aside.atWork h.work
        refine ⟨c', _, hc', aside.standing.trans h.led, work', h.holds, fun hin => ?_⟩
        rw [aside.candidacy, exclusive.row?_move timely hm h.contender hkey h.led others]
        exact h.remembers hin
    · obtain ⟨_, j, draw, _, poll, _⟩ := hrec.turn
      exact absurd poll (others j draw)

/-- A candidate whose call is answered while the key is free begins to reign, if the store answers at
all. -/
theorem reigns_of_answered (hw : w.Ordered) (hc : w.contenders.get? id = some c)
    (cand : c.standing = .candidate) (free : w.liveRow? c.candidacy = none)
    (available : (w.bucket c.candidacy.bucket).store.available = true) {q : Request} {a : Answer}
    (hrec : w.Records m (.contender id) (.noted (.answered q a))) :
    ∃ c' i r, Reigns (w.move m) id c' i r ∧ r.cancelled = false ∧ ∃ revision, a = .ok revision := by
  obtain ⟨c₀, i, draw, o, poll, was, turn, effect, hn⟩ := hrec.turn
  obtain rfl := Option.some.inj (hc.symm.trans was)
  obtain ⟨d, r, e, call, performs, after⟩ := turn.acted hn
  obtain rfl := e.acquires (hw hc) cand call
  have granted := perform_of_grants (q := .acquire) free available
  rw [performs] at granted
  rcases granted with h | h
  · obtain ⟨hs, rfl⟩ := Prod.mk.inj h
    have work := (e.atWork (hw hc)).1.concluded
      (.ok ((w.bucket c.candidacy.bucket).store.issued + 1)) w.now draw
    rw [← after] at work
    refine ⟨o.contender, i, _, ⟨?_, ?_, work, Wait.holdsLoop_phase .., fun _ => ?_⟩, ?_, _, rfl⟩
    · rw [effect.contenders, if_pos rfl]
    · rw [after, Contender.standing_concluded]
      rfl
    · refine ⟨rowOf (w.bucket c.candidacy.bucket).store w.now c.candidacy, ?_,
        revision?_after_ok ..⟩
      rw [turn.candidacy, row?, effect.bucket, if_pos rfl, hs, Store.get?_rows_put, if_pos rfl]
    · obtain ⟨r₀, hr₀, acting⟩ := turn.acting hn
      obtain ⟨r₁, hr₁, hsame, -⟩ := turn.exists_run work.run
      obtain rfl := Option.some.inj (hr₀.symm.trans hr₁)
      exact hsame.symm.trans acting
  · exact absurd (Prod.mk.inj h).2 (turn.ne_beyondClock hn)

/-- The contender is the only leader among those who contend for the key. -/
def SoleLeader (bucket key id : String) (w : World) : Prop :=
  (∃ c, w.contenders.get? id = some c ∧ c.candidacy.Contends bucket key ∧ c.standing = .leader) ∧
  ∀ id' c', w.contenders.get? id' = some c' → c'.candidacy.Contends bucket key →
    c'.standing = .leader → id' = id

theorem Reigns.sole (h : Reigns w id c i r) (exclusive : Exclusive bucket key w)
    (hkey : c.candidacy.Contends bucket key) : SoleLeader bucket key id w :=
  ⟨⟨c, h.contender, hkey, h.led⟩, fun _ _ hc' hkey' led' =>
    exclusive.unique _ _ _ _ hc' h.contender hkey' hkey led' h.led⟩

theorem exclusive_fresh (host : String) (wall : Int) (now : Nat) :
    Exclusive bucket key (fresh host wall now) :=
  ⟨fun h => by simp at h, fun h => by simp at h, fun h => by simp at h, fun h => by simp at h,
    fun _ _ _ _ h => by simp at h⟩

end World

end Tenure
