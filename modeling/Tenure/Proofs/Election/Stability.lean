import Tenure.Proofs.Election.Reign

/-!
# Stability

Nothing changes hands while nothing goes wrong.

- **Premises** (`Faultless`): waits and calls are on time, the store answers, and nobody is cancelled.
- **Verdicts** (`Turn.verdicts`, `verdicts_move`): a contender hears of a win or a loss iff its standing
  changes.
- **Revisions** (`ascends_follow`): the revisions that a contender is granted grow.
- **Phases** (`Vacant`, `Settled`): nobody has a verdict or an entry before the first answer, and from
  then on the one who had it reigns.
- **Stability** (`stable_leader`): the first answer decides for the rest of the course.
-/

namespace Tenure

open Election Lease

namespace Election

/-- Whether the note tells of a win or a loss. -/
def Note.isVerdict : Note → Bool
  | .won _ | .lost _ => true
  | _ => false

/-- What a contender hears when it has come from one standing to the other. -/
def verdict (before after : Standing) : List Note :=
  if before = after then [] else if after = .leader then [.won after] else [.lost after]

@[simp] theorem verdict_self (standing : Standing) : verdict standing standing = [] := if_pos rfl

theorem verdicts_opening (r : Run) (q : Request) : (r.opening q).filter Note.isVerdict = [] := by
  unfold Run.opening
  split <;> rfl

theorem verdicts_conclusion (c : Contender) (r : Run) (answer? : Option Answer) (draw : Nat) :
    ((c.conclusion r answer?).notes ++ (c.conclusion r answer?).wait.notes draw).filter
      Note.isVerdict = verdict c.standing (standingAfter answer?) := by
  have hwait (wait : Wait) : (wait.notes draw).filter Note.isVerdict = [] := by
    cases wait with
    | plain => rfl
    | backoff strategy failures =>
      simp only [Wait.notes]
      split <;> rfl
  rw [List.filter_append, hwait, List.append_nil]
  simp only [Contender.conclusion, conclude, notesOf]
  cases c.standing <;> cases standingAfter answer? <;> cases c.candidacy.backoff? <;> rfl

/-- In a turn a contender hears of a win or a loss iff its standing changes, unless a call was
cancelled. -/
theorem Turn.verdicts {now delay draw : Nat} {c : Contender} {s : Store} {i : Nat} {o : Outcome}
    (t : Turn now delay draw c s i o)
    (acting : ∀ {j : Nat} {r : Run}, c.runs[j]? = some r → r.cancelled = false) :
    o.notes.filter Note.isVerdict = verdict c.standing o.contender.standing := by
  cases t with
  | still | refused => exact (verdict_self _).symm
  | left e cancelled =>
    obtain ⟨r₀, hr₀, hsame, -⟩ := e.exists_run e.run
    rw [acting hr₀, cancelled] at hsame
    cases hsame
  | asks e =>
    rw [← e.standing]
    exact (verdict_self _).symm
  | acts e =>
    rw [List.filter_append, verdicts_opening, List.nil_append,
      List.filter_cons_of_neg (by simp [Note.isVerdict]), verdicts_conclusion, ← e.standing,
      Contender.standing_concluded]
    rfl
  | breaks e =>
    rw [verdicts_opening, ← e.standing]
    exact (verdict_self _).symm
  | idles e =>
    rw [verdicts_conclusion, ← e.standing, Contender.standing_concluded]
    rfl

end Election

namespace World

variable {bucket key : String} {w : World} {m : Move} {id : String}

/-! ## Premises -/

/-- Waits and calls of the contenders for a key are on time, the store answers, and no call of `run`
is cancelled. -/
def Faultless (bucket key : String) (w : World) : Prop :=
  w.Timely bucket key ∧ (w.bucket bucket).store.available = true ∧
    ∀ e ∈ w.contenders.toList, e.2.candidacy.Contends bucket key →
      ∀ r ∈ e.2.runs, r.cancelled = false

instance (bucket key : String) : DecidablePred (Faultless bucket key) := fun w => by
  unfold Faultless
  infer_instance

theorem Faultless.acting (h : w.Faultless bucket key) {c : Contender}
    (hc : w.contenders.get? id = some c) (hkey : c.candidacy.Contends bucket key) {j : Nat}
    {r : Run} (hr : c.runs[j]? = some r) : r.cancelled = false :=
  h.2.2 (id, c) ((w.contenders.mem_toList_iff id c).2 hc) hkey r (List.mem_of_getElem? hr)

/-- No contender for the key has had an answer. -/
def Unclaimed (bucket key : String) (w : World) : Prop :=
  ∀ e ∈ w.contenders.toList, e.2.candidacy.Contends bucket key → w.answers e.1 = []

instance (bucket key : String) : DecidablePred (Unclaimed bucket key) := fun w => by
  unfold Unclaimed
  infer_instance

theorem Unclaimed.answers (h : w.Unclaimed bucket key) {c : Contender}
    (hc : w.contenders.get? id = some c) (hkey : c.candidacy.Contends bucket key) :
    w.answers id = [] :=
  h (id, c) ((w.contenders.mem_toList_iff id c).2 hc) hkey

/-- Answers are not taken back. -/
theorem Unclaimed.of_move (h : (w.move m).Unclaimed bucket key) : w.Unclaimed bucket key := by
  intro ⟨id, c⟩ hmem hkey
  have hc := (w.contenders.mem_toList_iff id c).1 hmem
  obtain ⟨c', hc'⟩ := exists_contender_move hc m
  have hnone := h.answers hc' (candidacy_move hc hc' ▸ hkey)
  rcases answers_move w m id with hsame | ⟨q, a, -, hcons⟩
  · exact hsame.symm.trans hnone
  · cases hcons.symm.trans hnone

/-! ## Verdicts -/

/-- The wins and losses that a contender heard of, with their times, latest first. -/
def verdicts (w : World) (id : String) : List (Nat × Note) :=
  (w.notes id).filter (·.2.isVerdict)

/-- What becomes of the verdicts of a contender for the key in a move: a new one has none, and one that
was there hears of the change of its standing. -/
theorem verdicts_move (silent : ∀ {id}, w.contenders.get? id = none → w.notes id = [])
    (faultless : w.Faultless bucket key) {c' : Contender}
    (hc' : (w.move m).contenders.get? id = some c') (hkey : c'.candidacy.Contends bucket key) :
    (w.contenders.get? id = none ∧ (w.move m).verdicts id = []) ∨
    ∃ c, w.contenders.get? id = some c ∧ c.candidacy.Contends bucket key ∧
      (w.move m).verdicts id =
        (verdict c.standing c'.standing).map (w.now, ·) ++ w.verdicts id := by
  cases became hc' with
  | opened _ free _ quiet =>
    have hnone := (eq_none_of_free free).1
    refine .inl ⟨hnone, ?_⟩
    rw [verdicts, quiet, silent hnone]
    rfl
  | @aside c was aside quiet =>
    refine .inr ⟨c, was, aside.candidacy ▸ hkey, ?_⟩
    rw [verdicts, quiet, aside.standing, verdict_self]
    rfl
  | @turn c i draw o _ was turn effect after =>
    have hkey : c.candidacy.Contends bucket key := turn.candidacy ▸ after ▸ hkey
    have heard := turn.verdicts (faultless.acting was hkey)
    rw [← after] at heard
    refine .inr ⟨c, was, hkey, ?_⟩
    rw [verdicts, effect.notes, if_pos rfl, List.filter_append, verdicts, List.filter_reverse,
      List.filter_map]
    congr 1
    rw [show (fun x : Nat × Note => x.2.isVerdict) ∘ (w.now, ·) = Note.isVerdict from rfl, heard]
    cases c.standing <;> cases c'.standing <;> rfl

/-! ## Revisions -/

/-- The revisions that a contender was granted, latest first. -/
def revisions (w : World) (id : String) : List Nat :=
  (w.answers id).filterMap (·.2.2.toOption)

/-- The revisions that a contender was granted have been given out, each one after those before
it. -/
structure Ascends (w : World) (id : String) (c : Contender) : Prop where
  ascending : (w.revisions id).Pairwise (· > ·)
  issued : ∀ revision ∈ w.revisions id,
    revision ≤ (w.bucket c.candidacy.bucket).store.issued

theorem ascends_move (silent : ∀ {id}, w.contenders.get? id = none → w.notes id = [])
    (h : ∀ {id c}, w.contenders.get? id = some c → w.Ascends id c) (m : Move) {c' : Contender}
    (hc' : (w.move m).contenders.get? id = some c') : (w.move m).Ascends id c' := by
  cases hc : w.contenders.get? id with
  | none =>
    have hnone : (w.move m).answers id = [] := by
      rcases answers_move w m id with hsame | ⟨q, a, hrec, -⟩
      · rw [hsame, answers, silent hc]
        rfl
      · obtain ⟨c, _, _, _, _, was, _⟩ := hrec.turn
        cases hc.symm.trans was
    rw [World.answers] at hnone
    constructor <;> simp [revisions, World.answers, hnone]
  | some c =>
    obtain ⟨ascending, issued⟩ := h hc
    have hlater := (later_move w m c.candidacy.bucket).issued_le
    have hy := candidacy_move hc hc'
    have keeps (hsame : (w.move m).revisions id = w.revisions id) : (w.move m).Ascends id c' := by
      refine ⟨hsame ▸ ascending, fun revision hmem => ?_⟩
      rw [hy]
      exact Nat.le_trans (issued revision (hsame ▸ hmem)) hlater
    rcases answers_move w m id with hsame | ⟨q, a, hrec, hcons⟩
    · exact keeps (by rw [revisions, hsame, revisions])
    · cases a with
      | error e => exact keeps (by rw [revisions, hcons, revisions]; rfl)
      | ok revision =>
        obtain ⟨c₀, i, draw, -, was, -, hrev, hstore⟩ := hrec.taken
        obtain rfl := Option.some.inj (hc.symm.trans was)
        have hgrown : (w.move m).revisions id = revision :: w.revisions id := by
          rw [revisions, hcons, revisions]
          rfl
        have hnow : ((w.move m).bucket c.candidacy.bucket).store.issued = revision := by
          rw [hstore, hrev]
          rfl
        rw [← hy] at hnow
        constructor
        · rw [hgrown, List.pairwise_cons]
          refine ⟨fun revision' hmem => ?_, ascending⟩
          have := issued revision' hmem
          omega
        · intro revision' hmem
          rw [hgrown, List.mem_cons] at hmem
          rw [hnow]
          rcases hmem with rfl | hmem
          · exact Nat.le_refl _
          · have := issued revision' hmem
            omega

/-- The revisions that a contender is granted grow, whatever happens. -/
theorem ascends_follow (host : String) (wall : Int) (now : Nat) (course : List Move)
    {c : Contender} (hc : ((fresh host wall now).follow course).contenders.get? id = some c) :
    ((fresh host wall now).follow course).Ascends id c := by
  have h := follow_induct course (w := fresh host wall now)
    (I := fun w => w.Fenced ∧ ∀ {id c}, w.contenders.get? id = some c → w.Ascends id c)
    ⟨fenced_fresh host wall now, fun h => by simp at h⟩
    fun v m h => ⟨fenced_move h.1 m, ascends_move h.1.silent h.2 m⟩
  exact h.2 hc

/-! ## Phases -/

/-- The key is free, and nobody who contends for it has won or lost it. -/
structure Vacant (bucket key : String) (w : World) : Prop where
  row : (w.bucket bucket).store.rows.get? key = none
  candidate : ∀ {id c}, w.contenders.get? id = some c → c.candidacy.Contends bucket key →
    c.standing = .candidate
  quiet : ∀ {id c}, w.contenders.get? id = some c → c.candidacy.Contends bucket key →
    w.verdicts id = []

theorem vacant_fresh (host : String) (wall : Int) (now : Nat) :
    Vacant bucket key (fresh host wall now) :=
  ⟨rfl, fun h => by simp at h, fun h => by simp at h⟩

/-- As long as nobody who contends for the key has an answer, it stays free. -/
theorem vacant_move (h : Vacant bucket key w) (hw : w.Ordered)
    (silent : ∀ {id}, w.contenders.get? id = none → w.notes id = [])
    (hm : m.Respects bucket key) (faultless : w.Faultless bucket key)
    (unclaimed : (w.move m).Unclaimed bucket key) : Vacant bucket key (w.move m) := by
  have candidate {id : String} {c' : Contender} (hc' : (w.move m).contenders.get? id = some c')
      (hkey : c'.candidacy.Contends bucket key) : c'.standing = .candidate := by
    cases hs : c'.standing with
    | candidate => rfl
    | leader =>
      rcases (leads hw hc' hs).led_or_wrote with ⟨c, was, led, -⟩ | ⟨q, revision, -, hcons⟩
      · cases led.symm.trans (h.candidate was (candidacy_move was hc' ▸ hkey))
      · cases (unclaimed.answers hc' hkey).symm.trans hcons
  refine ⟨?_, candidate, fun {id c'} hc' hkey => ?_⟩
  · rcases get?_rows_move w m bucket key with
      hsame | htouch | ⟨id, c, i, draw, rfl, was, hb, hk⟩
    · exact hsame.trans h.row
    · cases m <;> first | exact absurd htouch hm | exact htouch.elim
    · obtain ⟨o, turn, effect⟩ := pollRun_effect was i draw
      have effect : Effect w id c.candidacy o (w.move (.poll (.run id i) draw)) := effect
      have mute (q : Request) (a : Answer) : .answered q a ∉ o.notes := by
        intro hn
        have hkey : o.contender.candidacy.Contends bucket key := turn.candidacy ▸ ⟨hb, hk⟩
        have hnone := unclaimed.answers (by rw [effect.contenders, if_pos rfl]) hkey
        rcases effect.answers_cases turn with ⟨mute, -⟩ | ⟨_, _, -, hcons⟩
        · cases mute _ hn
        · cases hcons.symm.trans hnone
      rw [effect.bucket, if_pos hb,
        turn.rows_eq_of_candidate (hw was) (h.candidate was ⟨hb, hk⟩) mute, hb]
      exact h.row
  · rcases verdicts_move silent faultless hc' hkey with ⟨-, hnone⟩ | ⟨c, hc, hkey₀, hheard⟩
    · exact hnone
    · rw [hheard, h.candidate hc hkey₀, candidate hc' hkey, verdict_self, h.quiet hc hkey₀]
      rfl

/-- The contender reigns. It won at this instant, and nobody who contends for the key has heard of
another win or loss. Its calls have all been granted. -/
structure Settled (bucket key : String) (w : World) (id : String) (t : Nat) : Prop where
  reigns : ∃ c i r, Reigns w id c i r ∧ c.candidacy.Contends bucket key
  verdicts : ∀ {id' c'}, w.contenders.get? id' = some c' → c'.candidacy.Contends bucket key →
    w.verdicts id' = if id' = id then [(t, .won .leader)] else []
  granted : ∀ x ∈ w.answers id, ∃ revision, x.2.2 = .ok revision

/-- Besides a leader all contenders for the key are candidates. -/
theorem Exclusive.candidate (h : Exclusive bucket key w) {id' : String} {c c' : Contender}
    (hc : w.contenders.get? id = some c) (hkey : c.candidacy.Contends bucket key)
    (led : c.standing = .leader) (hc' : w.contenders.get? id' = some c')
    (hkey' : c'.candidacy.Contends bucket key) (hne : id' ≠ id) : c'.standing = .candidate := by
  cases hs : c'.standing with
  | candidate => rfl
  | leader => exact absurd (h.unique _ _ _ _ hc' hc hkey' hkey hs led) hne

/-- The first contender with an answer begins to reign. -/
theorem settled_of_answered (h : Vacant bucket key w) (exclusive : Exclusive bucket key w)
    (silent : ∀ {id}, w.contenders.get? id = none → w.notes id = [])
    (hm : m.Respects bucket key) (faultless : w.Faultless bucket key)
    (unclaimed : w.Unclaimed bucket key) {c : Contender} (hc : w.contenders.get? id = some c)
    (hkey : c.candidacy.Contends bucket key) {q : Request} {a : Answer}
    (hrec : w.Records m (.contender id) (.noted (.answered q a))) :
    Settled bucket key (w.move m) id w.now := by
  have free : w.liveRow? c.candidacy = none := by
    rw [liveRow?, hkey.1, hkey.2, Store.live?, h.row]
    rfl
  have available : (w.bucket c.candidacy.bucket).store.available = true := by
    rw [hkey.1]
    exact faultless.2.1
  obtain ⟨c', i, r, reigns, -, revision, rfl⟩ := reigns_of_answered exclusive.ordered hc
    (h.candidate hc hkey) free available hrec
  have hkey' : c'.candidacy.Contends bucket key := candidacy_move hc reigns.contender ▸ hkey
  refine ⟨⟨c', i, r, reigns, hkey'⟩, fun {id' c₁'} hc₁' hkey₁' => ?_, fun x hx => ?_⟩
  · rcases verdicts_move silent faultless hc₁' hkey₁' with ⟨hnew, hnone⟩ | ⟨c₁, hc₁, hkey₁, hheard⟩
    · rw [hnone, if_neg]
      rintro rfl
      cases hnew.symm.trans hc
    · rw [hheard, h.quiet hc₁ hkey₁, h.candidate hc₁ hkey₁]
      split
      · subst id'
        obtain rfl := Option.some.inj (hc₁'.symm.trans reigns.contender)
        rw [reigns.led]
        rfl
      · rw [(exclusive_move exclusive faultless.1 hm).candidate reigns.contender hkey' reigns.led
          hc₁' hkey₁' ‹_›]
        rfl
  · rcases answers_move w m id with hsame | ⟨q', a', hrec', hcons⟩
    · rw [hsame, unclaimed.answers hc hkey] at hx
      cases hx
    · rw [hcons, unclaimed.answers hc hkey, List.mem_singleton] at hx
      subst hx
      obtain ⟨_, _, _, -, was, -⟩ := hrec'.turn
      obtain ⟨_, _, _, _, _, revision', rfl⟩ := reigns_of_answered exclusive.ordered hc
        (h.candidate hc hkey) free available hrec'
      exact ⟨revision', rfl⟩

/-- The one who reigns goes on to do so. -/
theorem settled_move {t : Nat} (h : Settled bucket key w id t)
    (exclusive : Exclusive bucket key w)
    (silent : ∀ {id}, w.contenders.get? id = none → w.notes id = [])
    (hm : m.Respects bucket key) (faultless : w.Faultless bucket key) :
    Settled bucket key (w.move m) id t := by
  obtain ⟨c, i, r, reigns, hkey⟩ := h.reigns
  obtain ⟨⟨c', r', reigns'⟩, grants⟩ := reigns.move exclusive faultless.1 hm hkey
    (faultless.acting reigns.contender hkey reigns.work.run) faultless.2.1
  have hkey' : c'.candidacy.Contends bucket key :=
    candidacy_move reigns.contender reigns'.contender ▸ hkey
  refine ⟨⟨c', i, r', reigns', hkey'⟩, fun {id' c₁'} hc₁' hkey₁' => ?_, fun x hx => ?_⟩
  · rcases verdicts_move silent faultless hc₁' hkey₁' with ⟨hnew, hnone⟩ | ⟨c₁, hc₁, hkey₁, hheard⟩
    · rw [hnone, if_neg]
      rintro rfl
      cases hnew.symm.trans reigns.contender
    · -- nobody's standing changes
      have same : c₁.standing = c₁'.standing := by
        by_cases hid : id' = id
        · subst id'
          obtain rfl := Option.some.inj (hc₁.symm.trans reigns.contender)
          obtain rfl := Option.some.inj (hc₁'.symm.trans reigns'.contender)
          rw [reigns.led, reigns'.led]
        · rw [exclusive.candidate reigns.contender hkey reigns.led hc₁ hkey₁ hid,
            (exclusive_move exclusive faultless.1 hm).candidate reigns'.contender hkey' reigns'.led
              hc₁' hkey₁' hid]
      rw [hheard, h.verdicts hc₁ hkey₁, same, verdict_self]
      rfl
  · rcases answers_move w m id with hsame | ⟨q, a, hrec, hcons⟩
    · exact h.granted x (hsame ▸ hx)
    · rw [hcons, List.mem_cons] at hx
      rcases hx with rfl | hx
      · exact grants q a hrec
      · exact h.granted x hx

/-! ## Stability -/

/-- The contender that has the first answer on a course reigns at every point after it. -/
theorem settled_follow (host : String) (wall : Int) (now : Nat) {before after : List Move}
    {c : Contender} {q : Request} {a : Answer}
    (respects : ∀ m' ∈ before ++ m :: after, m'.Respects bucket key)
    (faultless : (fresh host wall now).Along (Faultless bucket key) (before ++ m :: after))
    (hc : ((fresh host wall now).follow before).contenders.get? id = some c)
    (hkey : c.candidacy.Contends bucket key)
    (unclaimed : ((fresh host wall now).follow before).Unclaimed bucket key)
    (first : ((fresh host wall now).follow before).Records m (.contender id)
      (.noted (.answered q a))) :
    Exclusive bucket key ((fresh host wall now).follow (before ++ m :: after)) ∧
      Settled bucket key ((fresh host wall now).follow (before ++ m :: after)) id
        ((fresh host wall now).follow before).now := by
  obtain ⟨faultless₁, faultless₂⟩ := along_append.1 faultless
  have respects₁ (m' : Move) (hmem : m' ∈ before) := respects m' (List.mem_append_left _ hmem)
  have respects₂ (m' : Move) (hmem : m' ∈ m :: after) :=
    respects m' (List.mem_append_right _ hmem)
  -- until then the key is free
  have h₁ := along_induct faultless₁
    (I := fun w => Exclusive bucket key w ∧ w.Fenced ∧
      (w.Unclaimed bucket key → Vacant bucket key w))
    ⟨exclusive_fresh host wall now, fenced_fresh host wall now, fun _ => vacant_fresh host wall now⟩
    fun v m' hmem hv ⟨exclusive, fenced, vacant⟩ =>
      ⟨exclusive_move exclusive hv.1 (respects₁ m' hmem), fenced_move fenced m', fun unclaimed =>
        vacant_move (vacant unclaimed.of_move) exclusive.ordered fenced.silent (respects₁ m' hmem) hv
          unclaimed⟩
  rw [follow_append]
  generalize (fresh host wall now).follow before = u at *
  obtain ⟨exclusive, fenced, vacant⟩ := h₁
  have hm := respects₂ m (List.mem_cons_self ..)
  have h₂ := along_induct faultless₂.2
    (I := fun w => Exclusive bucket key w ∧ w.Fenced ∧ Settled bucket key w id u.now)
    ⟨exclusive_move exclusive faultless₂.1.1 hm, fenced_move fenced m,
      settled_of_answered (vacant unclaimed) exclusive fenced.silent hm faultless₂.1 unclaimed hc
        hkey first⟩
    fun v m' hmem hv ⟨exclusive, fenced, settled⟩ =>
      have hm' := respects₂ m' (List.mem_cons_of_mem _ hmem)
      ⟨exclusive_move exclusive hv.1 hm', fenced_move fenced m',
        settled_move settled exclusive fenced.silent hm' hv⟩
  exact ⟨h₂.1, h₂.2.2⟩

/-- On a course without faults the contender whose call is answered first is the only leader from then
on. It hears that it won, nobody who contends for the key hears of anything else, and all its calls
are granted, each one with a greater revision than the one before. -/
theorem stable_leader (host : String) (wall : Int) (now : Nat) (bucket key : String)
    {before after : List Move} {m : Move} {id : String} {c : Contender} {q : Request} {a : Answer}
    (respects : ∀ m' ∈ before ++ m :: after, m'.Respects bucket key)
    (faultless : (fresh host wall now).Along (Faultless bucket key) (before ++ m :: after))
    (hc : ((fresh host wall now).follow before).contenders.get? id = some c)
    (hkey : c.candidacy.Contends bucket key)
    (unclaimed : ((fresh host wall now).follow before).Unclaimed bucket key)
    (first : ((fresh host wall now).follow before).Records m (.contender id)
      (.noted (.answered q a))) :
    (∀ part, part <+: after →
      SoleLeader bucket key id ((fresh host wall now).follow (before ++ m :: part))) ∧
    (∀ id' c',
      ((fresh host wall now).follow (before ++ m :: after)).contenders.get? id' = some c' →
      c'.candidacy.Contends bucket key →
      ((fresh host wall now).follow (before ++ m :: after)).verdicts id' =
        if id' = id then [(((fresh host wall now).follow before).now, .won .leader)] else []) ∧
    ∃ revisions : List Nat,
      (((fresh host wall now).follow (before ++ m :: after)).answers id).map (·.2.2) =
        revisions.map .ok ∧
      revisions.Pairwise (· > ·) := by
  obtain ⟨-, settled⟩ := settled_follow host wall now respects faultless hc hkey unclaimed first
  refine ⟨fun part hpart => ?_, fun id' c' => settled.verdicts, ?_⟩
  · obtain ⟨rest, rfl⟩ := hpart
    rw [← List.cons_append, ← List.append_assoc] at respects faultless
    obtain ⟨exclusive, settled⟩ := settled_follow host wall now
      (fun m' hmem => respects m' (List.mem_append_left _ hmem)) (along_append.1 faultless).1 hc hkey
      unclaimed first
    obtain ⟨c', i, r, reigns, hkey'⟩ := settled.reigns
    exact reigns.sole exclusive hkey'
  · obtain ⟨c', i, r, reigns, -⟩ := settled.reigns
    have ascends := ascends_follow host wall now (before ++ m :: after) reigns.contender
    refine ⟨_, ?_, ascends.ascending⟩
    have granted := settled.granted
    simp only [revisions]
    generalize ((fresh host wall now).follow (before ++ m :: after)).answers id = answers at granted
    induction answers with
    | nil => rfl
    | cons x answers ih =>
      obtain ⟨revision, hx⟩ := granted x (List.mem_cons_self ..)
      rw [List.map_cons, List.filterMap_cons_some (by rw [hx]; rfl), List.map_cons, hx,
        ih fun y hy => granted y (List.mem_cons_of_mem _ hy)]

theorem stable_leader_relay :
    SoleLeader "b" "e.k" "x" ((fresh "h" 0 0).follow relay) ∧
    (∀ id' c', ((fresh "h" 0 0).follow relay).contenders.get? id' = some c' →
      c'.candidacy.Contends "b" "e.k" →
      ((fresh "h" 0 0).follow relay).verdicts id' =
        if id' = "x" then [(0, .won .leader)] else []) ∧
    ∃ revisions : List Nat,
      (((fresh "h" 0 0).follow relay).answers "x").map (·.2.2) = revisions.map .ok ∧
      revisions.Pairwise (· > ·) := by
  have hopened : (((fresh "h" 0 0).follow (relay.take 4)).contenders.get? "x").map
      (fun c => (c.candidacy.bucket, c.candidacy.key)) = some ("b", "e.k") := by decide +kernel
  obtain ⟨c, hc, hkey⟩ := Option.map_eq_some_iff.1 hopened
  have split : relay.take 4 ++ .poll (.run "x" 0) 0 :: relay.drop 5 = relay := rfl
  have start : ((fresh "h" 0 0).follow (relay.take 4)).now = 0 := by decide +kernel
  obtain ⟨alone, verdicts, granted⟩ := @stable_leader "h" 0 0 "b" "e.k" (relay.take 4)
    (relay.drop 5) (.poll (.run "x" 0) 0) "x" c .acquire (.ok 1) (by decide +kernel)
    (by decide +kernel) hc (Prod.mk.inj hkey) (by decide +kernel) (by decide +kernel)
  have alone := alone (relay.drop 5) (List.prefix_refl _)
  rw [split] at alone verdicts granted
  rw [start] at verdicts
  exact ⟨alone, verdicts, granted⟩

end World

end Tenure
