import Mathlib.Data.List.Induction
import Tenure.Proofs.Election.Leading
import Tenure.Proofs.Election.Terms

/-!
# Fencing

- **Writes** (`Turn.taken`): a granted call puts the contender's row under its key, with the next
  revision of the store.
- **Last writes** (`Fenced`): the revision of a contender's last write has been given out, belongs
  to no other contender, and is that of no row but the one it wrote.
- **Origins** (`origin`): the revision that a call of `run` remembers comes from an earlier turn of
  the same call.
- **Fencing** (`Fencing`, `fencing`): what follows for every course, whatever outsiders do to the store
  and however late the calls are. A renewal replaces the entry of the same call of `run`
  (`replacesOwnWrite_of_renewal`), and is not granted after the lease was over
  (`not_grants_of_leaseOver`).
-/

namespace Tenure

open Election Lease
open World (perform)

namespace Election

variable {now delay draw : Nat} {c : Contender} {s : Store} {i : Nat} {o : Outcome}

/-- An answered call is one that acted in the turn. -/
theorem Turn.acted (t : Turn now delay draw c s i o) {q : Request} {a : Answer}
    (h : .answered q a ∈ o.notes) :
    ∃ d r, Engages c i d r ∧ r.call? d.standing = some q ∧
      perform s now c.candidacy q = (o.store, a) ∧
      o.contender = d.concluded i (d.conclusion r (some a)) now draw := by
  cases t with
  | still | refused | left => exact nomatch h
  | asks => exact nomatch List.mem_singleton.1 h
  | @acts d r q' s' a' e _ _ call performs _ =>
    rcases List.mem_append.1 h with h | h
    · exact nomatch reply?_opening h
    · rcases List.mem_cons.1 h with h | h
      · cases h
        exact ⟨d, r, e, call, e.candidacy ▸ performs, rfl⟩
      · exact nomatch isCall_conclusion h
  | breaks => exact nomatch reply?_opening h
  | idles => exact nomatch isCall_conclusion h

/-- A granted call puts the contender's row under its key. -/
theorem Turn.taken (t : Turn now delay draw c s i o) {q : Request} {revision : Nat}
    (h : .answered q (.ok revision) ∈ o.notes) :
    Grants s now c.candidacy q ∧ revision = s.issued + 1 ∧
      o.store = s.advance.put c.candidacy.key (rowOf s now c.candidacy) := by
  obtain ⟨d, r, -, -, performs, -⟩ := t.acted h
  exact perform_ok performs

/-! ## Origins -/

/-- A call of `run` that goes on remembers no more than before. -/
theorem Engages.remembered {d : Contender} {r r' : Run} (e : Engages c i d r) {j revision : Nat}
    (hr' : d.runs[j]? = some r') (hrev : r'.ledger.revision? = some revision) :
    ∃ r, c.runs[j]? = some r ∧ r.ledger.revision? = some revision := by
  cases e with
  | begins run _ _ =>
    rw [show (c.enter i).runs = (c.modifyRun i _).runs from rfl,
      Contender.getElem?_modifyRun] at hr'
    split at hr'
    · obtain ⟨r₀, -, rfl⟩ := Option.map_eq_some_iff.1 hr'
      exact nomatch hrev
    · exact ⟨r', hr', hrev⟩
  | goesOn _ _ => exact ⟨r', hr', hrev⟩

theorem revision?_after {ledger : Ledger} {before : Standing} {answer? : Option Answer}
    {revision : Nat} (h : (ledger.after before answer?).revision? = some revision) :
    answer? = some (.ok revision) ∨ ledger.revision? = some revision := by
  rcases before with _ | _ <;> rcases answer? with _ | (_ | revision')
  all_goals first
    | exact .inr h
    | exact .inl (by rw [Option.some.inj h])
    | exact nomatch h

/-- A revision that a call of `run` remembers after a turn is one that it remembered before, or the
answer to its call in the turn. -/
theorem Turn.remembered (t : Turn now delay draw c s i o) {j revision : Nat} {r' : Run}
    (hr' : o.contender.runs[j]? = some r') (hrev : r'.ledger.revision? = some revision) :
    (∃ r, c.runs[j]? = some r ∧ r.ledger.revision? = some revision) ∨
    (i = j ∧ ∃ q, .answered q (.ok revision) ∈ o.notes) := by
  -- a campaign that ends with an answer or without one
  have concluded {d : Contender} {r : Run} {answer? : Option Answer} (e : Engages c i d r)
      (hr' : (d.concluded i (d.conclusion r answer?) now draw).runs[j]? = some r') :
      (∃ r, c.runs[j]? = some r ∧ r.ledger.revision? = some revision) ∨
      (i = j ∧ answer? = some (.ok revision)) := by
    rw [Contender.getElem?_concluded] at hr'
    split at hr'
    · rename_i hij
      subst j
      rw [e.run] at hr'
      obtain rfl := Option.some.inj hr'
      rcases revision?_after hrev with h | h
      · exact .inr ⟨rfl, h⟩
      · exact .inl (e.remembered e.run h)
    · exact .inl (e.remembered hr' hrev)
  cases t with
  | still => exact .inl ⟨r', hr', hrev⟩
  | refused =>
    obtain ⟨r, hr, hl, -⟩ := Contender.exists_run_of_setPhase hr'
    exact .inl ⟨r, hr, hl ▸ hrev⟩
  | left e _ | asks e _ _ _ _ _ | breaks e _ _ _ _ =>
    obtain ⟨r, hr, hl, -⟩ := Contender.exists_run_of_setPhase hr'
    exact .inl (e.remembered hr (hl ▸ hrev))
  | acts e _ _ _ _ _ =>
    rcases concluded e hr' with h | ⟨hij, ha⟩
    · exact .inl h
    · cases ha
      exact .inr ⟨hij, _, List.mem_append_right _ (List.mem_cons_self ..)⟩
  | idles e _ _ _ _ =>
    rcases concluded e hr' with h | ⟨-, ha⟩
    · exact .inl h
    · exact nomatch ha

end Election

namespace World

section

variable {w : World} {m : Move} {id : String}

/-- A granted call puts the contender's row under its key. -/
theorem Records.taken {q : Request} {revision : Nat}
    (h : w.Records m (.contender id) (.noted (.answered q (.ok revision)))) :
    ∃ c i draw, m = .poll (.run id i) draw ∧ w.contenders.get? id = some c ∧
      Grants (w.bucket c.candidacy.bucket).store w.now c.candidacy q ∧
      revision = (w.bucket c.candidacy.bucket).store.issued + 1 ∧
      ((w.move m).bucket c.candidacy.bucket).store =
        (w.bucket c.candidacy.bucket).store.advance.put c.candidacy.key
          (rowOf (w.bucket c.candidacy.bucket).store w.now c.candidacy) := by
  obtain ⟨c, i, draw, o, poll, was, turn, effect, hn⟩ := h.turn
  obtain ⟨grants, hrev, hstore⟩ := turn.taken hn
  refine ⟨c, i, draw, poll, was, grants, hrev, ?_⟩
  rw [effect.bucket, if_pos rfl, ← hstore]

/-- A revision that a call of `run` remembers after a move is one that it remembered before, or the
answer to its call in the move. -/
theorem remembered_move {c' : Contender} {i revision : Nat} {r' : Run}
    (hc' : (w.move m).contenders.get? id = some c') (hr' : c'.runs[i]? = some r')
    (hrev : r'.ledger.revision? = some revision) :
    ∃ c, w.contenders.get? id = some c ∧ c'.candidacy = c.candidacy ∧
      ((∃ r, c.runs[i]? = some r ∧ r.ledger.revision? = some revision) ∨
      ∃ draw q, m = .poll (.run id i) draw ∧
        w.Records m (.contender id) (.noted (.answered q (.ok revision)))) := by
  cases became hc' with
  | opened _ _ new _ => exact nomatch new ▸ hr'
  | @aside c was aside _ =>
    refine ⟨c, was, aside.candidacy, .inl ?_⟩
    rcases aside.run hr' with ⟨b, hr⟩ | ⟨b, t, rfl⟩
    · exact ⟨_, hr, hrev⟩
    · exact nomatch hrev
  | @turn c j draw o poll was turn effect after =>
    subst after
    refine ⟨c, was, turn.candidacy, ?_⟩
    rcases turn.remembered hr' hrev with h | ⟨rfl, q, hq⟩
    · exact .inl h
    · exact .inr ⟨draw, q, poll, effect.records hq⟩

end

/-- The revision was the answer to an earlier turn of the `i`-th call of `run`. -/
def Gained (w : World) (course : List Move) (id : String) (i revision : Nat) (before : List Move)
    (draw : Nat) (between : List Move) : Prop :=
  course = before ++ .poll (.run id i) draw :: between ∧
    ∃ q, (w.follow before).Records (.poll (.run id i) draw) (.contender id)
      (.noted (.answered q (.ok revision)))

/-- The revision that a call of `run` remembers at the end of a course comes from an earlier turn of
the same call. -/
theorem origin (host : String) (wall : Int) (now : Nat) (course : List Move) {id : String}
    {c : Contender} {i revision : Nat} {r : Run}
    (hc : ((fresh host wall now).follow course).contenders.get? id = some c)
    (hr : c.runs[i]? = some r) (hrev : r.ledger.revision? = some revision) :
    ∃ before draw between,
      (fresh host wall now).Gained course id i revision before draw between := by
  induction course using List.reverseRecOn generalizing c r with
  | nil => simp at hc
  | append_singleton course m ih =>
    rw [follow_concat] at hc
    obtain ⟨c₀, hc₀, -, ⟨r₀, hr₀, hrev₀⟩ | ⟨draw, q, rfl, hrec⟩⟩ := remembered_move hc hr hrev
    · obtain ⟨before, draw, between, rfl, hrec⟩ := ih hc₀ hr₀ hrev₀
      exact ⟨before, draw, between ++ [m], by simp, hrec⟩
    · exact ⟨course, draw, [], rfl, q, hrec⟩

/-! ## Last writes -/

/-- The last write that a contender was granted after a move is the one before, or was granted in
the move. -/
theorem lastWrite?_move {w : World} {m : Move} {id : String} {c' : Contender} {t revision : Nat}
    (silent : w.contenders.get? id = none → w.notes id = [])
    (hc' : (w.move m).contenders.get? id = some c')
    (last : (w.move m).lastWrite? id = some (t, revision)) :
    ∃ c, w.contenders.get? id = some c ∧ c'.candidacy = c.candidacy ∧
      (w.lastWrite? id = some (t, revision) ∨
      t = w.now ∧ ∃ q, w.Records m (.contender id) (.noted (.answered q (.ok revision)))) := by
  cases became hc' with
  | opened _ free _ quiet =>
    have hnone := silent (eq_none_of_free free).1
    rw [lastWrite?, answers, quiet, hnone] at last
    cases last
  | @aside c was aside quiet =>
    exact ⟨c, was, aside.candidacy,
      .inl ((lastWrite?_congr (answers_of_notes quiet)).symm.trans last)⟩
  | @turn c i draw o poll was turn effect after =>
    subst after
    refine ⟨c, was, turn.candidacy, ?_⟩
    rcases effect.answers_cases turn with ⟨-, h⟩ | ⟨q, a, hmem, h⟩
    · exact .inl ((lastWrite?_congr h).symm.trans last)
    · cases a with
      | error e => exact .inl ((lastWrite?_of_error h).symm.trans last)
      | ok revision' =>
        obtain ⟨rfl, rfl⟩ := Prod.mk.inj (Option.some.inj ((lastWrite?_of_ok h).symm.trans last))
        exact .inr ⟨rfl, q, effect.records hmem⟩

/-- The row under the key that a candidacy contends for, live or not. -/
def row? (w : World) (y : Candidacy) : Option Row := (w.bucket y.bucket).store.rows.get? y.key

/-- The live row under the key that a candidacy contends for. -/
def liveRow? (w : World) (y : Candidacy) : Option Row :=
  (w.bucket y.bucket).store.live? w.now y.key

theorem liveRow?_eq_some_iff {w : World} {y : Candidacy} {row : Row} :
    w.liveRow? y = some row ↔ w.row? y = some row ∧ w.now < row.deadline :=
  Store.live?_eq_some_iff

/-- What the stores hold of the last writes of contenders. -/
structure Fenced (w : World) : Prop where
  silent : ∀ {id}, w.contenders.get? id = none → w.notes id = []
  issued : ∀ {id c t revision}, w.contenders.get? id = some c →
    w.lastWrite? id = some (t, revision) →
    revision ≤ (w.bucket c.candidacy.bucket).store.issued
  own : ∀ {id c t revision row}, w.contenders.get? id = some c →
    w.lastWrite? id = some (t, revision) → w.row? c.candidacy = some row →
    row.revision = revision →
    row = ⟨utf8 c.candidacy.identity, revision, t + c.candidacy.ttl.nanos⟩
  distinct : ∀ {id id' c c' t t' revision}, w.contenders.get? id = some c →
    w.contenders.get? id' = some c' → c.candidacy.bucket = c'.candidacy.bucket →
    w.lastWrite? id = some (t, revision) → w.lastWrite? id' = some (t', revision) → id = id'

theorem fenced_fresh (host : String) (wall : Int) (now : Nat) : (fresh host wall now).Fenced :=
  ⟨fun _ => rfl, fun h => by simp at h, fun h => by simp at h, fun h => by simp at h⟩

theorem fenced_move {w : World} (h : w.Fenced) (m : Move) : (w.move m).Fenced where
  silent := notes_eq_nil_move h.silent
  issued {id c' t revision} hc' last := by
    obtain ⟨c, hc, hy, last | ⟨-, q, hrec⟩⟩ := lastWrite?_move h.silent hc' last
    · have hold := h.issued hc last
      have hlater := (later_move w m c.candidacy.bucket).issued_le
      rw [hy]
      omega
    · obtain ⟨c₀, i, draw, -, hc₀, -, hrev, hstore⟩ := hrec.taken
      obtain rfl := Option.some.inj (hc.symm.trans hc₀)
      rw [hy, hstore, hrev]
      exact Nat.le_refl _
  own {id c' t revision row} hc' last hrow hrev := by
    obtain ⟨c, hc, hy, last | ⟨rfl, q, hrec⟩⟩ := lastWrite?_move h.silent hc' last
    · rw [row?, hy] at hrow
      have hle : row.revision ≤ (w.bucket c.candidacy.bucket).store.issued :=
        hrev ▸ h.issued hc last
      have hbefore := (later_move w m c.candidacy.bucket).row_of_le hrow hle
      rw [hy]
      exact h.own hc last hbefore hrev
    · obtain ⟨c₀, i, draw, -, hc₀, -, rfl, hstore⟩ := hrec.taken
      obtain rfl := Option.some.inj (hc.symm.trans hc₀)
      rw [row?, hy, hstore, Store.get?_rows_put, if_pos rfl] at hrow
      rw [hy, ← Option.some.inj hrow]
      rfl
  distinct {id id' c₁ c₁' t t' revision} hc₁ hc₁' hb last last' := by
    obtain ⟨c, hc, hy, hlast⟩ := lastWrite?_move h.silent hc₁ last
    obtain ⟨c', hc', hy', hlast'⟩ := lastWrite?_move h.silent hc₁' last'
    rw [hy, hy'] at hb
    rcases hlast with hlast | ⟨-, q, hrec⟩ <;> rcases hlast' with hlast' | ⟨-, q', hrec'⟩
    · exact h.distinct hc hc' hb hlast hlast'
    · obtain ⟨c₀, i, draw, -, hc₀, -, hrev, -⟩ := hrec'.taken
      obtain rfl := Option.some.inj (hc'.symm.trans hc₀)
      have := h.issued hc hlast
      rw [hb] at this
      omega
    · obtain ⟨c₀, i, draw, -, hc₀, -, hrev, -⟩ := hrec.taken
      obtain rfl := Option.some.inj (hc.symm.trans hc₀)
      have := h.issued hc' hlast'
      rw [← hb] at this
      omega
    · obtain ⟨c₀, i, draw, hm, -⟩ := hrec.taken
      obtain ⟨c₀', i', draw', hm', -⟩ := hrec'.taken
      rw [hm] at hm'
      cases hm'
      rfl

theorem fenced_follow (host : String) (wall : Int) (now : Nat) (course : List Move) :
    ((fresh host wall now).follow course).Fenced :=
  follow_induct course (I := Fenced) (fenced_fresh host wall now) fun _ m h => fenced_move h m

/-- The last write of a contender is in the past. -/
theorem written_le_now (host : String) (wall : Int) (now : Nat) (course : List Move) {id : String}
    {c : Contender} {t revision : Nat}
    (hc : ((fresh host wall now).follow course).contenders.get? id = some c)
    (last : ((fresh host wall now).follow course).lastWrite? id = some (t, revision)) :
    t ≤ ((fresh host wall now).follow course).now := by
  have h := follow_induct course (w := fresh host wall now)
    (I := fun w => w.Fenced ∧ ∀ {c}, w.contenders.get? id = some c →
      ∀ {t revision}, w.lastWrite? id = some (t, revision) → t ≤ w.now)
    ⟨fenced_fresh host wall now, fun h => by simp at h⟩ fun v m h => by
      refine ⟨fenced_move h.1 m, fun {c'} hc' {t revision} last => ?_⟩
      have hnow := now_le_move v m
      obtain ⟨c, hc, -, last | ⟨rfl, -⟩⟩ := lastWrite?_move h.1.silent hc' last
      · have hpast := h.2 hc last
        omega
      · exact hnow
  exact h.2 hc last

/-! ## Fencing -/

/-- A call of `run` in the loop remembers the revision. -/
def Remembers (c : Contender) (revision : Nat) : Prop :=
  ∃ r ∈ c.runs, r.phase.inLoop = true ∧ r.ledger.revision? = some revision

/-- The entry that a contender wrote last does not count any more: it lapsed, its lease was ended,
or another entry has come in its place. -/
def LeaseOver (w : World) (id : String) : Prop :=
  ∃ c t revision, w.contenders.get? id = some c ∧ w.lastWrite? id = some (t, revision) ∧
    ∀ row, w.liveRow? c.candidacy = some row → row.revision ≠ revision

/-- A renewal replaces the entry that the same call of `run` was granted before. Ever since, this
entry has been in place and its lease has not lapsed. -/
def ReplacesOwnWrite (start : World) (course : List Move) (m : Move) (id : String)
    (revision revision' : Nat) : Prop :=
  ∃ c i draw row before draw₀ between,
    (start.follow course).contenders.get? id = some c ∧ m = .poll (.run id i) draw ∧
    start.Gained course id i revision before draw₀ between ∧
    row = ⟨utf8 c.candidacy.identity, revision,
      (start.follow before).now + c.candidacy.ttl.nanos⟩ ∧
    (∀ part, part <+: between →
      (start.follow (before ++ .poll (.run id i) draw₀ :: part)).row? c.candidacy = some row) ∧
    (start.follow course).now < row.deadline ∧
    ((start.follow course).move m).row? c.candidacy = some ⟨utf8 c.candidacy.identity,
      revision', (start.follow course).now + c.candidacy.ttl.nanos⟩

/-- What revisions achieve on a course, without any assumption on time. -/
structure Fencing (start : World) (course : List Move) : Prop where
  /-- A granted renewal replaces an entry of the same call of `run`. -/
  renewal : ∀ {m id revision revision'},
    (start.follow course).Records m (.contender id)
      (.noted (.answered (.renew revision) (.ok revision'))) →
    start.ReplacesOwnWrite course m id revision revision'
  /-- A leader that remembers the revision of the live entry wrote it, and no other leader that
  contends for the key remembers it. -/
  holder : ∀ {id c row}, (start.follow course).contenders.get? id = some c →
    c.standing = .leader → (start.follow course).liveRow? c.candidacy = some row →
    Remembers c row.revision →
    row.value = utf8 c.candidacy.identity ∧
    ∀ {id' c'}, (start.follow course).contenders.get? id' = some c' → c'.standing = .leader →
      c'.candidacy.bucket = c.candidacy.bucket → c'.candidacy.key = c.candidacy.key →
      Remembers c' row.revision → id' = id
  /-- A contender that is still leader although its lease was over at some point is a candidate
  after its next call that is answered. -/
  deposed : ∀ {before between m id c q a}, course = before ++ between →
    (start.follow before).LeaseOver id →
    (start.follow course).answers id = (start.follow before).answers id →
    (start.follow course).contenders.get? id = some c → c.standing = .leader →
    (start.follow course).Records m (.contender id) (.noted (.answered q a)) →
    ∃ c', ((start.follow course).move m).contenders.get? id = some c' ∧ c'.standing = .candidate

/-- A renewal is made by a call of `run` that remembers the revision. -/
theorem revision?_of_request {standing : Standing} {ledger : Ledger} {revision : Nat}
    (h : request? standing ledger = some (.renew revision)) :
    ledger.revision? = some revision := by
  cases standing with
  | candidate => exact nomatch h
  | leader =>
    obtain ⟨revision', hrev, heq⟩ := Option.map_eq_some_iff.1 h
    rw [hrev, Request.renew.inj heq]

theorem replacesOwnWrite_of_renewal (host : String) (wall : Int) (now : Nat)
    (course : List Move) {m : Move} {id : String} {revision revision' : Nat}
    (h : ((fresh host wall now).follow course).Records m (.contender id)
      (.noted (.answered (.renew revision) (.ok revision')))) :
    (fresh host wall now).ReplacesOwnWrite course m id revision revision' := by
  generalize hstart : fresh host wall now = start at h ⊢
  obtain ⟨c, i, draw, o, poll, was, turn, effect, hn⟩ := h.turn
  obtain ⟨d, r, e, call, -, -⟩ := turn.acted hn
  obtain ⟨⟨row, hlive, hrow⟩, hrev', hstore'⟩ := turn.taken hn
  -- the call of `run` remembers the revision, so an earlier turn of it was granted the write
  have hord : (start.follow course).Ordered := hstart ▸ ordered_follow host wall now course
  obtain ⟨work, asking⟩ := e.atWork (hord was)
  have hrev := revision?_of_request ((Run.call?_eq asking).symm.trans call)
  obtain ⟨r₀, hr₀, hrev₀⟩ := e.remembered e.run hrev
  subst hstart
  obtain ⟨before, draw₀, between, rfl, q, hrec⟩ := origin host wall now course was hr₀ hrev₀
  generalize fresh host wall now = start at *
  obtain ⟨c₀, i₀, draw', -, hc₀, -, hissued, hstore⟩ := hrec.taken
  have hy : c.candidacy = c₀.candidacy := by
    rw [follow_append] at was
    exact candidacy_follow (.poll (.run id i) draw₀ :: between) hc₀ was
  rw [← hy] at hissued hstore
  -- the row that is renewed now was in place all along, since its revision was given out then
  have held (part : List Move) (hpart : part <+: between) :
      (start.follow (before ++ .poll (.run id i) draw₀ :: part)).row? c.candidacy =
        some row := by
    obtain ⟨rest, rfl⟩ := hpart
    have hlate := later_follow (start.follow (before ++ .poll (.run id i) draw₀ :: part)) rest
      c.candidacy.bucket
    have hle := (later_follow ((start.follow before).move (.poll (.run id i) draw₀)) part
      c.candidacy.bucket).issued_le
    rw [← follow_append, List.append_assoc, List.cons_append] at hlate
    rw [← follow_cons, ← follow_append] at hle
    refine hlate.row_of_le (Store.live?_eq_some_iff.1 hlive).1 ?_
    rw [hstore] at hle
    simp only [Store.issued_put, Store.issued_advance] at hle
    omega
  have hfirst := held [] (List.nil_prefix)
  rw [follow_concat, row?, hstore, Store.get?_rows_put, if_pos rfl] at hfirst
  refine ⟨c, i, draw, row, before, draw₀, between, was, poll, ⟨rfl, q, hrec⟩, ?_, held,
    (Store.live?_eq_some_iff.1 hlive).2, ?_⟩
  · rw [← Option.some.inj hfirst, hissued]
    rfl
  · rw [row?, effect.bucket, if_pos rfl, hstore', Store.get?_rows_put, if_pos rfl, hrev']
    rfl

/-- The revision that a call of `run` of a leader remembers is that of the last write that the
contender was granted. -/
theorem Recalls.lastWrite?_eq {w : World} {id : String} {c : Contender} (h : w.Recalls id c)
    (hlead : c.standing = .leader) {revision : Nat} (hrem : Remembers c revision) :
    ∃ t, w.lastWrite? id = some (t, revision) := by
  obtain ⟨i, r, t, revision', work, hrev, last⟩ := h hlead
  obtain ⟨r', hmem, phase, hrev'⟩ := hrem
  obtain ⟨j, hr'⟩ := List.getElem?_of_mem hmem
  obtain rfl := work.alone hr' (Phase.holdsLoop_of_inLoop phase)
  obtain rfl := Option.some.inj (hr'.symm.trans work.run)
  obtain rfl := Option.some.inj (hrev'.symm.trans hrev)
  exact ⟨t, last⟩

/-- An entry whose revision was given out before, and whose lease has not lapsed, was live then. -/
theorem liveRow?_of_follow {w : World} {course : List Move} {y : Candidacy} {row : Row}
    (h : (w.follow course).liveRow? y = some row)
    (hle : row.revision ≤ (w.bucket y.bucket).store.issued) : w.liveRow? y = some row := by
  obtain ⟨hrow, hnow⟩ := liveRow?_eq_some_iff.1 h
  exact liveRow?_eq_some_iff.2 ⟨(later_follow w course _).row_of_le hrow hle,
    Nat.lt_of_le_of_lt (now_le_follow w course) hnow⟩

/-- A renewal of a lease that was over before is not granted. -/
theorem not_grants_of_leaseOver {w : World} (hw : w.Fenced) {between : List Move} {id : String}
    {c : Contender} {t revision : Nat} (hover : w.LeaseOver id)
    (hc : (w.follow between).contenders.get? id = some c)
    (last : w.lastWrite? id = some (t, revision)) :
    ¬ Grants ((w.follow between).bucket c.candidacy.bucket).store (w.follow between).now
      c.candidacy (.renew revision) := by
  rintro ⟨row, hlive, hrow⟩
  obtain ⟨c₀, t₀, revision₀, hc₀, last₀, hgone⟩ := hover
  obtain ⟨rfl, rfl⟩ := Prod.mk.inj (Option.some.inj (last.symm.trans last₀))
  have hy := candidacy_follow between hc₀ hc
  have hle := hw.issued hc₀ last
  rw [hy] at hlive
  exact hgone row (liveRow?_of_follow hlive (hrow ▸ hle)) hrow

theorem fencing (host : String) (wall : Int) (now : Nat) (course : List Move) :
    Fencing (fresh host wall now) course where
  renewal := replacesOwnWrite_of_renewal host wall now course
  holder {id c row} hc hlead hlive hrem := by
    have hfenced := fenced_follow host wall now course
    obtain ⟨t, last⟩ := (recalls_follow host wall now course hc).lastWrite?_eq hlead hrem
    refine ⟨?_, fun {id' c'} hc' hlead' hb _ hrem' => ?_⟩
    · rw [hfenced.own hc last (liveRow?_eq_some_iff.1 hlive).1 rfl]
    · obtain ⟨t', last'⟩ := (recalls_follow host wall now course hc').lastWrite?_eq hlead' hrem'
      exact hfenced.distinct hc' hc hb last' last
  deposed {before between m id c q a} hcourse hover hanswers hc hlead hrec := by
    have hord := ordered_follow host wall now course hc
    have hfenced := fenced_follow host wall now before
    obtain ⟨j, r₀, t, revision, work, hrev, last⟩ := recalls_follow host wall now course hc hlead
    rw [lastWrite?_congr hanswers] at last
    subst hcourse
    rw [follow_append] at hc hrec ⊢
    generalize (fresh host wall now).follow before = u at *
    -- the call that acts is the renewal of the last write
    obtain ⟨c₀, i, draw, o, poll, was, turn, effect, hn⟩ := hrec.turn
    obtain rfl := Option.some.inj (hc.symm.trans was)
    obtain ⟨d, r, e, call, performs, after⟩ := turn.acted hn
    obtain ⟨rfl, rfl, rfl, -⟩ := e.eq_of_atWork work
    have hq : q = .renew revision := by
      have hreq := (Run.call?_eq (e.atWork hord).2).symm.trans call
      simp only [request?, hlead, hrev, Option.map_some, Option.some.injEq] at hreq
      exact hreq.symm
    subst hq
    have hno := not_grants_of_leaseOver hfenced hover hc last
    obtain ⟨err, hp⟩ := perform_of_not_grants hno
    obtain ⟨-, rfl⟩ := Prod.mk.inj (hp.symm.trans performs)
    refine ⟨o.contender, by rw [effect.contenders, if_pos rfl], ?_⟩
    rw [after, Contender.standing_concluded]
    rfl

/-- A contender wins the key and waits for an interval. -/
def incumbency : List Move :=
  [.openPublisher "x" (.solo "45s") "r" "o" (some "b") {}, .startPublisher "x" false,
    .poll (.run "x" 0) 0, .advance 10000000000]

theorem fencing_incumbency :
    (fresh "h" 0 0).ReplacesOwnWrite incumbency (.poll (.run "x" 0) 0) "x" 1 2 :=
  (fencing "h" 0 0 incumbency).renewal (by decide +kernel)

end World

end Tenure
