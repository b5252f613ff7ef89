import Tenure.Proofs.Election.Leading
import Tenure.Proofs.Election.Transcript

/-!
# The store decides what is told

- **Calls** (`CallsOnce`, `callsOnce`): a turn of a call of `run` makes at most one call on the
  store, and tells its answer.
- **Hearing** (`hearings`, `Hears`, `hears`): whenever a listener hears of a standing, the
  contender has taken it before.
- **Together** (`Chronicled`, `chronicled`): what is told is the chronicle of the store's answers.
-/

namespace Tenure

namespace World

open Election

/-! ## Calls on the store -/

/-- A turn of a call of `run` makes at most one call on the store and tells its answer, unless the
call breaks off. -/
def CallsOnce (id : String) (i : Nat) (w : World) (m : Move) : Prop :=
  ∀ {c draw}, w.contenders.get? id = some c → m = .poll (.run id i) draw →
    let before := (w.bucket c.candidacy.bucket).store
    let after := ((w.move m).bucket c.candidacy.bucket).store
    (∃ q a, (w.voiced id i m).filterMap Note.reply? = [(q, a)] ∧
      perform before w.now c.candidacy q = (after, a)) ∨
    ((w.voiced id i m).filterMap Note.reply? = [] ∧ (after = before ∨
      ∃ q, perform before w.now c.candidacy q = (after, .error .beyondClock)))

theorem callsOnce (id : String) (i : Nat) (w : World) (m : Move) : w.CallsOnce id i m := by
  intro c draw hc poll
  obtain ⟨o, turn, effect⟩ := pollRun_effect hc i draw
  have effect : Effect w id c.candidacy o (w.move m) := by rw [poll]; exact effect
  have hafter : ((w.move m).bucket c.candidacy.bucket).store = o.store := by
    rw [effect.bucket, if_pos rfl]
  dsimp only
  rw [voiced_of_effect poll effect, hafter]
  have mute {notes : List Note} (h : ∀ n ∈ notes, n.reply? = none) :
      notes.filterMap Note.reply? = [] := List.filterMap_eq_nil_iff.2 h
  have concluded (d : Contender) (r : Run) (a? : Option Answer) :
      ((d.conclusion r a?).notes ++ (d.conclusion r a?).wait.notes draw).filterMap Note.reply? =
        [] := mute fun n hn => Note.reply?_eq_none (isCall_conclusion hn)
  cases turn with
  | still | refused | left => exact .inr ⟨rfl, .inl rfl⟩
  | asks => exact .inr ⟨rfl, .inl rfl⟩
  | @acts d r q u a engages _ _ _ performs _ =>
    refine .inl ⟨q, a, ?_, engages.candidacy ▸ performs⟩
    rw [List.filterMap_append, mute fun n => reply?_opening, List.filterMap_cons, concluded]
    rfl
  | @breaks d r q u engages _ _ _ performs =>
    exact .inr ⟨mute fun n => reply?_opening, .inr ⟨q, engages.candidacy ▸ performs⟩⟩
  | idles => exact .inr ⟨concluded .., .inl rfl⟩

/-! ## Hearing -/

/-- The worlds in which the notes are heard one after another, each with its note. -/
def hearings (y : Candidacy) (id : String) (w : World) : List Note → List (World × Note)
  | [] => []
  | n :: notes => (w, n) :: hearings y id (hear y id w n) notes

/-- If a turn of a call of `run` tells a listener of a standing, it ends a campaign, and whenever
the listener hears of a standing the contender has it already. -/
def Hears (id : String) (i : Nat) (w : World) (m : Move) : Prop :=
  (∀ n ∈ w.voiced id i m, n.seen? = none) ∨
  ∃ (v : World) (c : Contender) (r : Run) (answer? : Option Answer) (draw : Nat),
    w.move m = v.concludeRun id i c r answer? draw ∧
    let e := conclude c.candidacy.backoff? c.standing r.ledger answer?
    let heard := hearings c.candidacy id (v.modifyContender id (·.settle i e)) e.notes
    (w.voiced id i m).filter (·.seen?.isSome) =
      (heard.map Prod.snd).filter (·.seen?.isSome) ∧
    ∀ x ∈ heard, ∃ d, x.1.contenders.get? id = some d ∧
      ∀ seen, x.2.seen? = some seen → d.standing = seen

section

variable {w v u : World} {id : String} {i : Nat}

theorem map_snd_hearings (y : Candidacy) (id : String) (w : World) (notes : List Note) :
    (hearings y id w notes).map Prod.snd = notes := by
  induction notes generalizing w with
  | nil => rfl
  | cons n notes ih => rw [hearings, List.map_cons, ih]

theorem contenders_hear (w : World) (y : Candidacy) (id : String) (n : Note) :
    (hear y id w n).contenders = w.contenders := by
  obtain ⟨publishers, metrics, heq, -⟩ := hear_eq w y id n
  rw [heq]
  rfl

theorem contenders_of_mem_hearings {y : Candidacy} {notes : List Note} {x : World × Note}
    (h : x ∈ hearings y id w notes) : x.1.contenders = w.contenders ∧ x.2 ∈ notes := by
  induction notes generalizing w with
  | nil => cases h
  | cons n notes ih =>
    rcases List.mem_cons.1 h with rfl | h
    · exact ⟨rfl, List.mem_cons_self ..⟩
    · obtain ⟨hc, hn⟩ := ih h
      exact ⟨hc.trans (contenders_hear ..), List.mem_cons_of_mem _ hn⟩

theorem notes_hear (w : World) (y : Candidacy) (id : String) (n : Note) :
    (hear y id w n).notes id = (w.now, n) :: w.notes id ∧ (hear y id w n).now = w.now := by
  obtain ⟨publishers, metrics, heq, -⟩ := hear_eq w y id n
  rw [heq]
  exact ⟨by simp [notes, note, record, Event.note?], rfl⟩

theorem notes_hearAll (w : World) (y : Candidacy) (id : String) (notes : List Note) :
    (notes.foldl (hear y id) w).notes id = (notes.map (w.now, ·)).reverse ++ w.notes id := by
  induction notes generalizing w with
  | nil => rfl
  | cons n notes ih =>
    rw [List.foldl_cons, ih, (notes_hear w y id n).1, (notes_hear w y id n).2]
    simp

/-- No listener is told of a standing on the way from one world to the other. -/
def Hushed (id : String) (w v : World) : Prop :=
  ∃ new, v.notes id = new ++ w.notes id ∧ ∀ x ∈ new, x.2.seen? = none

theorem Hushed.of_history (h : v.history = w.history) : Hushed id w v :=
  ⟨[], notes_congr h id, nofun⟩

theorem Hushed.note (h : Hushed id w v) {n : Note} (hn : n.seen? = none) :
    Hushed id w (v.note id n) := by
  obtain ⟨new, hv, hnew⟩ := h
  refine ⟨(v.now, n) :: new, ?_, List.forall_mem_cons.2 ⟨hn, hnew⟩⟩
  rw [List.cons_append, ← hv]
  simp [notes, World.note, record, Event.note?]

theorem Hushed.congr (h : Hushed id w v) (hu : u.history = v.history) : Hushed id w u := by
  obtain ⟨new, hv, hnew⟩ := h
  exact ⟨new, (notes_congr hu id).trans hv, hnew⟩

/-- No listener has been told of a standing, or a campaign ends now. -/
def Concludes (id : String) (i : Nat) (w v : World) : Prop :=
  Hushed id w v ∨ ∃ (u : World) (c : Contender) (r : Run) (answer? : Option Answer) (draw : Nat),
    v = u.concludeRun id i c r answer? draw ∧ Hushed id w u ∧ ∃ d, u.contenders.get? id = some d

theorem actOnStore_concludes {d : Contender} (h : Hushed id w u)
    (hd : u.contenders.get? id = some d) (c : Contender) (r : Run) (q : Request) (draw : Nat) :
    Concludes id i w (u.actOnStore id i c r q draw) := by
  simp only [actOnStore]
  split
  · exact .inl (h.congr rfl)
  · exact .inr ⟨_, c, r, _, draw, rfl, (h.congr rfl).note rfl, d, hd⟩

theorem campaign_concludes {d : Contender} (h : Hushed id w u)
    (hd : u.contenders.get? id = some d) (c : Contender) (r : Run) (draw : Nat) :
    Concludes id i w (u.campaign id i c r draw) := by
  simp only [campaign]
  split
  · exact .inr ⟨u, c, r, none, draw, rfl, h, d, hd⟩
  · split
    · exact actOnStore_concludes (h.note rfl) hd c r _ draw
    · exact .inl ((h.note rfl).congr rfl)

theorem pollRun_concludes {c : Contender} (hc : w.contenders.get? id = some c) (i draw : Nat) :
    Concludes id i w (w.pollRun id i draw) := by
  have still : Hushed id w w := .of_history rfl
  have leaves : Hushed id w (w.leaveRun id i c.candidacy) := .of_history rfl
  simp only [pollRun, hc]
  split
  · exact .inl still
  · split
    · split
      · exact .inl (.of_history rfl)
      · split
        · exact .inl (.of_history rfl)
        · exact campaign_concludes (.of_history rfl)
            (by rw [enterRun, get?_contenders_modify, if_pos rfl, hc]; rfl) ..
    · split
      · exact .inl leaves
      · split
        · exact actOnStore_concludes still hc ..
        · exact .inl still
    · split
      · exact .inl leaves
      · split
        · exact campaign_concludes still hc ..
        · exact .inl still
    · exact .inl still
    · exact .inl still

theorem notes_beginWait (w : World) (id : String) (i : Nat) (interval : Duration) (wait : Wait)
    (draw : Nat) : (w.beginWait id i interval wait draw).notes id =
      ((wait.notes draw).map (w.now, ·)).reverse ++ w.notes id := by
  cases wait with
  | plain => rfl
  | backoff strategy failures =>
    simp only [beginWait, Wait.notes]
    cases strategy.next failures draw with
    | ok d =>
      show (w.note id (.backedOff failures d)).notes id = _
      simp [notes, note, record, Event.note?]
    | error e => rfl

theorem now_hearAll (w : World) (y : Candidacy) (id : String) (notes : List Note) :
    (notes.foldl (hear y id) w).now = w.now := by
  induction notes generalizing w with
  | nil => rfl
  | cons n notes ih => rw [List.foldl_cons, ih, (notes_hear w y id n).2]

theorem notes_concludeRun (w : World) (id : String) (i : Nat) (c : Contender) (r : Run)
    (answer? : Option Answer) (draw : Nat) :
    (w.concludeRun id i c r answer? draw).notes id =
      (((c.conclusion r answer?).notes ++ (c.conclusion r answer?).wait.notes draw).map
        (w.now, ·)).reverse ++ w.notes id := by
  simp only [concludeRun, notes_beginWait, Contender.conclusion]
  generalize conclude c.candidacy.backoff? c.standing r.ledger answer? = e
  generalize hu : e.notes.foldl (hear c.candidacy id) (w.modifyContender id (·.settle i e)) = u
  have hnow : (u.countCampaign c.candidacy e.standing).now = w.now := hu ▸ now_hearAll ..
  have hnotes : (u.countCampaign c.candidacy e.standing).notes id =
      (e.notes.map (w.now, ·)).reverse ++ w.notes id := hu ▸ notes_hearAll ..
  rw [hnow, hnotes, List.map_append, List.reverse_append, List.append_assoc]

theorem seen?_waitNotes {wait : Wait} {draw : Nat} {n : Note} (h : n ∈ wait.notes draw) :
    n.seen? = none := by
  cases wait with
  | plain => cases h
  | backoff strategy failures =>
    simp only [Wait.notes] at h
    split at h
    · rw [List.mem_singleton.1 h]
      rfl
    · cases h

theorem hears (id : String) (i : Nat) (w : World) (m : Move) : w.Hears id i m := by
  by_cases poll : ∃ draw, m = .poll (.run id i) draw
  · obtain ⟨draw, rfl⟩ := poll
    have silent {new : List (Nat × Note)} (h : ∀ x ∈ new, x.2.seen? = none) :
        ∀ n ∈ new.reverse.map Prod.snd, n.seen? = none := by
      intro n hn
      obtain ⟨x, hx, rfl⟩ := List.mem_map.1 hn
      exact h x (List.mem_reverse.1 hx)
    cases hc : w.contenders.get? id with
    | none =>
      refine .inl ?_
      rw [voiced_of_quiet i (by simp only [move, World.poll, pollRun, hc])]
      intro n hn
      cases hn
    | some c =>
      rcases pollRun_concludes hc i draw with
        ⟨new, hnew, hushed⟩ | ⟨u, c', r, answer?, draw', hm, ⟨new, hnew, hushed⟩, d, hd⟩
      · refine .inl ?_
        rw [voiced_of_notes rfl hnew]
        exact silent hushed
      · refine .inr ⟨u, c', r, answer?, draw', hm, ?_, fun x hx => ?_⟩
        · have hnotes : (w.move (.poll (.run id i) draw)).notes id = _ :=
            (congrArg (·.notes id) hm).trans (notes_concludeRun u id i c' r answer? draw')
          rw [hnew, ← List.append_assoc] at hnotes
          have before : (new.reverse.map Prod.snd).filter (·.seen?.isSome) = [] :=
            List.filter_eq_nil_iff.2 fun n hn => by simp [silent hushed n hn]
          have after (wait : Wait) : (wait.notes draw').filter (·.seen?.isSome) = [] :=
            List.filter_eq_nil_iff.2 fun n hn => by simp [seen?_waitNotes hn]
          rw [voiced_of_notes rfl hnotes, map_snd_hearings, List.reverse_append, List.map_append,
            List.filter_append, before, List.reverse_reverse, List.map_map, List.nil_append]
          refine (congrArg (List.filter _) (List.map_id _)).trans ?_
          rw [List.filter_append, after, List.append_nil]
          rfl
        · obtain ⟨hcon, hn⟩ := contenders_of_mem_hearings hx
          rw [hcon, get?_contenders_modify, if_pos rfl, hd]
          refine ⟨_, rfl, fun seen hseen => ?_⟩
          rw [Contender.standing_settle]
          exact (seen?_conclude hn hseen).symm
  · refine .inl ?_
    rw [voiced_eq_nil fun draw h => poll ⟨draw, h⟩]
    intro n hn
    cases hn

end

/-! ## Both together -/

/-- What a call of `run` that has been given these answers has told. -/
structure Tells (answers : List Answer) (tail told : List Note) : Prop where
  /-- Campaign after campaign, and at most the call of one more that has not been answered. -/
  chronicle : told = chronicle answers ++ tail
  unanswered : Unanswered answers tail
  /-- The first change a listener hears of is a win, and from then on losses and wins by turns. -/
  alternates : ∀ {k seen}, (told.filterMap Note.change?)[k]? = some seen →
    (seen = .leader ↔ k % 2 = 0)
  /-- The listener hears of every campaign once, in order. -/
  ticks : told.filterMap Note.tick? = List.range answers.length

theorem tells_of_chronicle {answers : List Answer} {tail told : List Note}
    (h : told = Election.chronicle answers ++ tail) (unanswered : Unanswered answers tail) :
    Tells answers tail told := by
  have htick : tail.filterMap Note.tick? = [] := by
    rcases unanswered with rfl | rfl <;> rfl
  have hchange : tail.filterMap Note.change? = [] := by
    rcases unanswered with rfl | rfl <;> rfl
  refine ⟨h, unanswered, fun {k seen} hk => ?_, ?_⟩
  · rw [h, List.filterMap_append, hchange, List.append_nil] at hk
    have := changes_alternate hk
    cases seen with
    | candidate => simp only [standingAfter, true_iff] at this; simp [this]
    | leader => simp only [standingAfter, reduceCtorEq, false_iff] at this; simp; omega
  · rw [h, List.filterMap_append, htick, List.append_nil, Election.chronicle, ticks_chronicleFrom,
      List.range_eq_range']

/-- What the `i`-th call of `run` of a contender does on a course. -/
structure Chronicled (w : World) (course : List Move) (id : String) (i : Nat) : Prop where
  /-- It has been given some answers, and has told what they make of it. -/
  tells : ∃ answers tail, Tells answers tail (w.transcript id i course)
  /-- Each answer is that of the store to one call that acts on it. -/
  calls : w.Through (CallsOnce id i) course
  /-- Listeners hear of a standing that the contender has. -/
  hears : w.Through (Hears id i) course

theorem through_of_all {R : World → Move → Prop} (h : ∀ w m, R w m) (w : World)
    (course : List Move) : w.Through R course := by
  induction course generalizing w with
  | nil => trivial
  | cons m course ih => exact ⟨h w m, ih _⟩

/-- What campaigns tell is a function of the answers of the store, whatever these are; and a call of
`run` tells it on every course. -/
theorem chronicled :
    (∀ (backoff? : Option Backoff) (answers : List Answer),
      Tells answers [] ((recite backoff? .candidate {} answers).filter Note.isTold)) ∧
    ∀ (host : String) (wall : Int) (now : Nat) (course : List Move) (id : String) (i : Nat),
      (fresh host wall now).Chronicled course id i := by
  refine ⟨fun backoff? answers => tells_of_chronicle ?_ (.inl rfl),
    fun host wall now course id i =>
      ⟨?_, through_of_all (callsOnce id i) .., through_of_all (hears id i) ..⟩⟩
  · rw [filter_recite, List.append_nil]
  · have narrated := narrated_follow host wall now course id i
    by_cases absent : ∀ c, ((fresh host wall now).follow course).contenders.get? id = some c →
        c.runs[i]? = none
    · exact ⟨[], [], tells_of_chronicle (narrated.absent absent) (.inl rfl)⟩
    · obtain ⟨c, hc⟩ := Classical.not_forall.1 absent
      obtain ⟨hc, hrun⟩ := Classical.not_imp.1 hc
      obtain ⟨r, hr⟩ := Option.ne_none_iff_exists'.1 hrun
      obtain ⟨answers, tail, unanswered, tells⟩ := (narrated.run hc hr).exists
      exact ⟨answers, tail, tells_of_chronicle tells unanswered⟩

end World

end Tenure
