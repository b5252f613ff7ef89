import Tenure.Proofs.Election.Admission
import Tenure.Proofs.Election.Leading
import Tenure.Proofs.Election.Transcript

/-!
# What backs a leader

A leader has a call of `run` in the loop that remembers the revision of its last write, and a
candidate in the loop remembers none. So every campaign makes a call on the store, and nobody is
demoted without one. This does not depend on what the store answers.

- **Grants** (`lastGrant?`, `recount`): the revision of the last write in what a call of `run` has told.
- **Calls of `run`** (`Mindful`, `Step.mindful`): what a call of `run` remembers, and what it has told
  last, after each of its steps.
- **Contenders** (`Sustained`, `Step.sustained`): the same for all calls of a contender, with the order
  among them and the standing that watchers see.
- **Backing** (`Backed`, `Stranded`): a standing is backed, unless the store broke off the renewal of a
  leader. Only a lease that ends beyond the clock does that.
- **Any store** (`Lineage`): what becomes of a contender whose store answers as it likes.
- **Courses** (`sustained_follow`, `afloat_follow`, `deposes`): the same for the contenders of a world.
- **Together** (`leader_backed`).
-/

namespace Tenure

open Election

namespace Election

/-! ## Grants -/

/-- The revision of the write that the note tells of. -/
def Note.revision? (n : Note) : Option Nat := n.reply?.bind fun reply => reply.2.toOption

/-- The revision of the last write that was granted. -/
def lastGrant? (notes : List Note) : Option Nat := (notes.filterMap Note.revision?).getLast?

/-- What is told of the store's answers is all that is noted of them. -/
theorem lastGrant?_append (told notes : List Note) :
    lastGrant? (told ++ notes.filter Note.isTold) = (lastGrant? notes).or (lastGrant? told) := by
  have told_answers : (fun n => if n.isTold then Note.revision? n else none) = Note.revision? := by
    funext n
    cases n <;> rfl
  rw [lastGrant?, List.filterMap_append, List.getLast?_append, List.filterMap_filter, told_answers,
    lastGrant?, lastGrant?]

theorem revisions_eq_nil {notes : List Note} (h : ∀ n ∈ notes, n.reply? = none) :
    notes.filterMap Note.revision? = [] :=
  List.filterMap_eq_nil_iff.2 fun n hn => by rw [Note.revision?, h n hn]; rfl

theorem lastGrant?_of_no_reply {notes : List Note} (h : ∀ n ∈ notes, n.reply? = none) :
    lastGrant? notes = none := by
  rw [lastGrant?, revisions_eq_nil h]
  rfl

theorem lastGrant?_of_ok {before after : List Note} (q : Request) (revision : Nat)
    (h : ∀ n ∈ after, n.reply? = none) :
    lastGrant? (before ++ .answered q (.ok revision) :: after) = some revision := by
  have grant : Note.revision? (.answered q (.ok revision)) = some revision := rfl
  rw [lastGrant?, List.filterMap_append, List.filterMap_cons_some grant, revisions_eq_nil h,
    List.getLast?_concat]

/-- What the calls of `run` have told when the `i`-th one has noted more. -/
def recount (told : Nat → List Note) (i : Nat) (notes : List Note) : Nat → List Note :=
  fun j => if i = j then told j ++ notes.filter Note.isTold else told j

theorem recount_self (told : Nat → List Note) (i : Nat) (notes : List Note) :
    recount told i notes i = told i ++ notes.filter Note.isTold := if_pos rfl

theorem recount_of_ne {i j : Nat} (told : Nat → List Note) (h : i ≠ j) (notes : List Note) :
    recount told i notes j = told j := if_neg h

/-! ## Calls of `run` -/

/-- What a call of `run` that has told this knows. -/
structure Mindful (standing : Standing) (r : Run) (told : List Note) : Prop where
  /-- In the loop of a leader it remembers the last revision it was granted. -/
  recalls : standing = .leader → r.phase.holdsLoop = true → r.ledger.revision? = lastGrant? told
  /-- It has told of the call that is held back, and of nothing since. -/
  pending : ∀ {q asked due}, r.phase = .calling q asked due → told.getLast? = some (.asked q)
  /-- If it broke off while the contender was leader, its renewal has not been answered. -/
  unanswered : standing = .leader → r.phase = .broken →
    ∃ revision, r.ledger.revision? = some revision ∧
      told.getLast? = some (.asked (.renew revision))

section

variable {c d : Contender} {i : Nat} {r r' : Run} {told : List Note} {standing : Standing}
  {reply? : Option Answer} {notes : List Note}

theorem mindful_of_ended (h : r.phase.holdsLoop = false) : Mindful standing r told where
  recalls _ holds := by
    rw [h] at holds
    cases holds
  pending phase := by
    rw [phase] at h
    cases h
  unanswered _ phase := by
    rw [phase] at h
    cases h

theorem Mindful.of_cancelled {cancelled : Bool} (h : Mindful standing r told) :
    Mindful standing { r with cancelled := cancelled } told :=
  ⟨h.recalls, h.pending, h.unanswered⟩

/-- A call of `run` of a leader that goes on remembers the last revision it was granted. -/
theorem recalls_of_engages (e : Engages c i d r) (hc : Orderly c)
    (h : ∀ {r₀}, c.runs[i]? = some r₀ → Mindful c.standing r₀ told) (led : d.standing = .leader) :
    r.ledger.revision? = lastGrant? told := by
  cases e with
  | begins run phase free =>
    -- a call that takes the loop does so for a candidate
    cases hc with
    | resting _ standing _ => cases standing.symm.trans led
    | working work _ _ => cases free.symm.trans work.looping
  | goesOn run phase => exact (h run).recalls led (Phase.holdsLoop_of_inLoop phase)

/-- A call of `run` has told of a call on the store when that acts. -/
theorem getLast?_opening {q : Request} (e : Engages c i d r)
    (h : ∀ {r₀}, c.runs[i]? = some r₀ → Mindful c.standing r₀ told)
    (call : r.call? d.standing = some q) :
    (told ++ r.opening q).getLast? = some (.asked q) := by
  cases phase : r.phase with
  | calling q' asked due =>
    have held : q' = q := by simpa [Run.call?, phase] using call
    have opens : r.opening q = [] := by simp [Run.opening, phase]
    rw [opens, List.append_nil, ← held]
    cases e with
    | begins _ fresh _ => cases fresh.symm.trans phase
    | goesOn run _ => exact (h run).pending phase
  | _ => simp [Run.opening, phase]

/-- A call of `run` that gets an answer is granted a revision now, or goes on as a candidate. -/
theorem mindful_concluded (d : Contender) (r : Run) (q : Request) (a : Answer) (now draw : Nat)
    (told : List Note) :
    Mindful (d.conclusion r (some a)).standing
      { r with
        ledger := r.ledger.after d.standing (some a)
        phase := (d.conclusion r (some a)).wait.phase now d.candidacy.interval draw }
      (told ++ (r.opening q ++ .answered q a :: ((d.conclusion r (some a)).notes ++
        (d.conclusion r (some a)).wait.notes draw)).filter Note.isTold) where
  recalls led _ := by
    cases a with
    | error => cases led
    | ok revision =>
      rw [World.revision?_after_ok, lastGrant?_append, lastGrant?_of_ok q revision fun n hn =>
        Note.reply?_eq_none (isCall_conclusion hn), Option.some_or]
  pending phase := (Wait.phase_ne_calling _ _ _ _ _ _ _ phase).elim
  unanswered led phase := by
    cases a with
    | error => cases led
    | ok revision =>
      rw [World.phase_wait_of_ok] at phase
      cases phase

/-- After its own step a call of `run` knows what it has to. -/
theorem Step.mindful (t : Step c i reply? d notes) (hc : Orderly c)
    (h : ∀ {r₀}, c.runs[i]? = some r₀ → Mindful c.standing r₀ told) (run : d.runs[i]? = some r') :
    Mindful d.standing r' (told ++ notes.filter Note.isTold) := by
  cases t with
  | still => simpa using h run
  | @refused r run₀ =>
    obtain rfl : { r with phase := .over } = r' := by simpa [run₀] using run
    exact mindful_of_ended rfl
  | @left d r e =>
    obtain rfl : { r with phase := .over } = r' := by simpa [e.run] using run
    exact mindful_of_ended rfl
  | @asks d r q asked due e _ _ request =>
    obtain rfl : { r with phase := .calling q asked due } = r' := by simpa [e.run] using run
    have recalls := recalls_of_engages e hc h
    refine ⟨fun led _ => ?_, fun phase => ?_, fun _ phase => ?_⟩
    · rw [lastGrant?_append]
      exact recalls led
    · cases phase
      exact List.getLast?_concat
    · cases phase
  | @acts d r q a now draw e =>
    obtain rfl : { r with
        ledger := r.ledger.after d.standing (some a)
        phase := (d.conclusion r (some a)).wait.phase now d.candidacy.interval draw } = r' := by
      rw [Contender.getElem?_concluded, if_pos rfl, e.run] at run
      exact Option.some.inj run
    rw [Contender.standing_concluded]
    exact mindful_concluded ..
  | @breaks d r q e _ call =>
    obtain rfl : { r with phase := .broken } = r' := by simpa [e.run] using run
    have recalls := recalls_of_engages e hc h
    refine ⟨fun led _ => ?_, fun phase => ?_, fun led _ => ?_⟩
    · rw [lastGrant?_append, lastGrant?_of_no_reply fun n => reply?_opening]
      exact recalls led
    · cases phase
    · -- the call that broke off was the renewal of the revision in the ledger
      have led : d.standing = .leader := led
      have request := (Run.call?_eq (e.atWork hc).2).symm.trans call
      rw [led, request?] at request
      obtain ⟨revision, remembers, rfl⟩ := Option.map_eq_some_iff.1 request
      rw [filter_opening]
      exact ⟨revision, remembers, getLast?_opening e h call⟩
  | idles e _ _ request => exact absurd request (Turn.request?_ne_none e hc)

end

/-! ## Contenders -/

/-- What always holds of a contender whose calls of `run` have told this. -/
structure Sustained (c : Contender) (told : Nat → List Note) : Prop where
  orderly : Orderly c
  posted : c.posted = c.standing
  mindful : ∀ {i r}, c.runs[i]? = some r → Mindful c.standing r (told i)

theorem sustained_of_new (y : Candidacy) (told : Nat → List Note) :
    Sustained { candidacy := y } told :=
  ⟨orderly_of_new y, rfl, fun run => by cases run⟩

theorem Retains.sustained {c d : Contender} {told : Nat → List Note} (h : Retains c d)
    (hc : Sustained c told) : Sustained d told where
  orderly := h.orderly hc.orderly
  posted := by rw [h.posted, h.standing, hc.posted]
  mindful run := by
    rcases h.run run with ⟨b, run⟩ | ⟨b, t, rfl⟩
    · rw [h.standing]
      exact (hc.mindful run).of_cancelled
    · exact mindful_of_ended rfl

section

variable {c d : Contender} {i : Nat} {reply? : Option Answer} {notes : List Note}
  {told : Nat → List Note}

theorem Engages.posted {r : Run} (e : Engages c i d r) : d.posted = c.posted := by
  cases e <;> rfl

theorem Contender.posted_concluded (h : c.posted = c.standing) (e : Conclusion) (now draw : Nat) :
    (c.concluded i e now draw).posted = (c.concluded i e now draw).standing := by
  rw [standing_concluded]
  show (c.settle i e).posted = e.standing
  unfold settle
  split
  · rename_i same
    exact h.trans same
  · rfl

theorem Step.posted (t : Step c i reply? d notes) (h : c.posted = c.standing) :
    d.posted = d.standing := by
  have engages {d : Contender} {r : Run} (e : Engages c i d r) : d.posted = d.standing := by
    rw [e.posted, e.standing, h]
  cases t with
  | still | refused => exact h
  | left => rfl
  | @asks _ _ _ _ _ e | @breaks _ _ _ e => exact (engages e :)
  | acts e | idles e => exact Contender.posted_concluded (engages e) ..

theorem Step.sustained (t : Step c i reply? d notes) (h : Sustained c told) :
    Sustained d (recount told i notes) where
  orderly := t.orderly h.orderly
  posted := t.posted h.posted
  mindful {j r} run := by
    by_cases hij : i = j
    · subst hij
      rw [recount_self]
      exact t.mindful h.orderly h.mindful run
    · rw [t.run_of_ne hij] at run
      rw [recount_of_ne told hij]
      by_cases holds : r.phase.holdsLoop = true
      · rw [t.standing_of_ne hij h.orderly run holds]
        exact h.mindful run
      · exact mindful_of_ended (Bool.eq_false_iff.2 holds)

/-- No call of `run` of a leader has broken off. -/
def Afloat (c : Contender) : Prop :=
  c.standing = .leader → ∀ (i : Nat) (r : Run), c.runs[i]? = some r → r.phase ≠ .broken

theorem Retains.afloat (h : Retains c d) (hc : Afloat c) : Afloat d := by
  intro led i r run
  rcases h.run run with ⟨b, run⟩ | ⟨b, t, rfl⟩
  · exact (hc (h.standing.symm.trans led) i _ run :)
  · intro phase
    cases phase

/-- The call of `run` of a leader that has a turn only breaks off when its call on the store does. -/
theorem Step.phase_ne_broken {r' : Run} (t : Step c i reply? d notes) (hc : Orderly c)
    (answers : reply? ≠ some (.error .beyondClock)) (h : Afloat c) (led : d.standing = .leader)
    (run : d.runs[i]? = some r') : r'.phase ≠ .broken := by
  intro phase
  cases t with
  | still => exact h led i r' run phase
  | @refused r run₀ =>
    obtain rfl : { r with phase := .over } = r' := by simpa [run₀] using run
    cases phase
  | left => cases led
  | @asks d r q asked due e =>
    obtain rfl : { r with phase := .calling q asked due } = r' := by simpa [e.run] using run
    cases phase
  | @acts d r q a now draw e =>
    rw [Contender.standing_concluded] at led
    cases a with
    | error => cases led
    | ok revision =>
      rw [Contender.getElem?_concluded, if_pos rfl, e.run] at run
      obtain rfl := Option.some.inj run
      rw [World.phase_wait_of_ok] at phase
      cases phase
  | breaks => exact answers rfl
  | idles e _ _ request => exact Turn.request?_ne_none e hc request

theorem Step.afloat (t : Step c i reply? d notes) (hc : Orderly c)
    (answers : reply? ≠ some (.error .beyondClock)) (h : Afloat c) : Afloat d := by
  intro led j r run
  by_cases hij : i = j
  · subst hij
    exact t.phase_ne_broken hc answers h led run
  · intro phase
    rw [t.run_of_ne hij] at run
    have same := t.standing_of_ne hij hc run (by rw [phase]; rfl)
    exact h (same.symm.trans led) j r run phase

end

/-- The `i`-th call of `run` has the loop for itself and remembers the revision of its last write. -/
structure Upholds (c : Contender) (i : Nat) (r : Run) (told : List Note) (revision : Nat) :
    Prop where
  run : c.runs[i]? = some r
  alone : ∀ j r', c.runs[j]? = some r' → r'.phase.holdsLoop = true → j = i
  ledger : r.ledger.revision? = some revision
  granted : lastGrant? told = some revision

/-- What backs the standing of a contender whose calls of `run` have told this. -/
structure Backed (c : Contender) (told : Nat → List Note) : Prop where
  /-- Watchers see the standing. -/
  posted : c.posted = c.standing
  /-- A leader has one call of `run` that goes on with the loop. -/
  leader : c.standing = .leader →
    ∃ i r revision, Upholds c i r (told i) revision ∧ r.phase.inLoop = true
  /-- In the loop of a candidate no revision is remembered. -/
  candidate : c.standing = .candidate → ∀ (i : Nat) (r : Run), c.runs[i]? = some r →
    r.phase.holdsLoop = true → r.ledger.revision? = none
  /-- No campaign goes without a call on the store. -/
  calls : ∀ i d r, Engages c i d r → request? d.standing r.ledger ≠ none

/-- The store broke off the renewal of a leader, which will not be answered any more. -/
structure Stranded (c : Contender) (told : Nat → List Note) : Prop where
  posted : c.posted = c.standing
  standing : c.standing = .leader
  run : ∃ i r revision, Upholds c i r (told i) revision ∧ r.phase = .broken ∧
    (told i).getLast? = some (.asked (.renew revision))

theorem Sustained.backed_or_stranded {c : Contender} {told : Nat → List Note}
    (h : Sustained c told) : Backed c told ∨ Stranded c told := by
  have calls (i : Nat) (d : Contender) (r : Run) (e : Engages c i d r) :
      request? d.standing r.ledger ≠ none := Turn.request?_ne_none e h.orderly
  cases standing : c.standing with
  | candidate =>
    refine .inl ⟨h.posted, fun led => ?_, fun _ i r run holds => ?_, calls⟩
    · cases standing.symm.trans led
    cases h.orderly with
    | resting _ _ idle =>
      rw [idle run] at holds
      cases holds
    | working work _ _ =>
      obtain rfl := work.alone run holds
      obtain rfl := Option.some.inj (run.symm.trans work.run)
      have backed := work.backed
      rw [standing] at backed
      exact Option.isNone_iff_eq_none.1 (Option.isSome_eq_false_iff.1 backed)
  | leader =>
    obtain ⟨i, r, work, holds⟩ := h.orderly.atWork_of_leader standing
    have mindful := h.mindful work.run
    obtain ⟨revision, ledger⟩ :=
      Option.isSome_iff_exists.1 (work.backed.trans (by rw [standing]; rfl))
    have upholds : Upholds c i r (told i) revision :=
      ⟨work.run, fun _ _ => work.alone, ledger, (mindful.recalls standing holds).symm.trans ledger⟩
    cases phase : r.phase with
    | calling | waiting =>
      refine .inl ⟨h.posted, fun _ => ⟨i, r, revision, upholds, by rw [phase]; rfl⟩,
        fun cand => ?_, calls⟩
      cases standing.symm.trans cand
    | broken =>
      obtain ⟨revision', ledger', last⟩ := mindful.unanswered standing phase
      obtain rfl := Option.some.inj (ledger.symm.trans ledger')
      exact .inr ⟨h.posted, standing, i, r, revision, upholds, phase, last⟩
    | _ => simp [phase, Phase.holdsLoop] at holds

theorem Stranded.not_afloat {c : Contender} {told : Nat → List Note} (h : Stranded c told) :
    ¬ Afloat c := by
  intro afloat
  obtain ⟨i, r, revision, upholds, phase, -⟩ := h.run
  exact afloat h.standing i r upholds.run phase

/-! ## Any store -/

/-- What can become of a contender on these terms, with what its calls of `run` tell, if the store may
hold a call back and give any answer to it, but breaks none off. -/
inductive Lineage (y : Candidacy) : Contender → (Nat → List Note) → Prop
  | opened : Lineage y { candidacy := y } fun _ => []
  /-- `run` is called, by the publisher or by anybody else. -/
  | called {c : Contender} {told : Nat → List Note} (h : Lineage y c told) (cancelled tied : Bool) :
      Lineage y (c.start cancelled tied) told
  /-- A single call of `run` is cancelled. -/
  | cancelled {c : Contender} {told : Nat → List Note} (h : Lineage y c told) (i : Nat) :
      Lineage y (c.modifyRun i fun r => { r with cancelled := true }) told
  /-- The watcher looks. -/
  | looked {c : Contender} {told : Nat → List Note} (h : Lineage y c told) : Lineage y c.look told
  /-- A call of `run` has a turn. -/
  | stepped {c d : Contender} {told : Nat → List Note} {i : Nat} {reply? : Option Answer}
      {notes : List Note} (h : Lineage y c told) (step : Step c i reply? d notes)
      (answers : reply? ≠ some (.error .beyondClock)) : Lineage y d (recount told i notes)

theorem Lineage.sustained {y : Candidacy} {c : Contender} {told : Nat → List Note}
    (h : Lineage y c told) : Sustained c told ∧ Afloat c := by
  have outside {c d : Contender} {told : Nat → List Note} (retains : Retains c d)
      (ih : Sustained c told ∧ Afloat c) : Sustained d told ∧ Afloat d :=
    ⟨retains.sustained ih.1, retains.afloat ih.2⟩
  induction h with
  | opened => exact ⟨sustained_of_new .., fun led => by cases led⟩
  | called _ b t ih => exact outside (Aside.start .refl b t).retains ih
  | cancelled _ i ih => exact outside (retains_modifyRun_cancelled _ i) ih
  | looked _ ih => exact outside (Aside.look .refl).retains ih
  | stepped _ step answers ih =>
    exact ⟨step.sustained ih.1, step.afloat ih.1.orderly answers ih.2⟩

theorem Lineage.backed {y : Candidacy} {c : Contender} {told : Nat → List Note}
    (h : Lineage y c told) : Backed c told := by
  obtain ⟨sustained, afloat⟩ := h.sustained
  exact sustained.backed_or_stranded.resolve_right fun stranded => stranded.not_afloat afloat

/-- A store may number its writes downwards: it grants the key, and a second call of `run` finds the
loop taken; then it holds a renewal back and grants it. -/
theorem exists_lineage (y : Candidacy) : ∃ c told, Lineage y c told ∧ c.standing = .leader ∧
    c.runs.map (·.phase.inLoop) = [true, false] ∧ lastGrant? (told 0) = some 3 := by
  have twice := ((Lineage.opened (y := y)).called false false).called false false
  obtain ⟨name, key, replicator, identity, bucket, ttl, interval, backoff?, audience⟩ := y
  -- a leader waits for its interval, with a backoff and without one
  cases backoff?
  all_goals
    have wins := twice.stepped (@Step.acts _ 0 _ _ .acquire (.ok 7) 0 0 (.begins rfl rfl rfl) rfl
      rfl (by decide)) (by decide)
    have refused := wins.stepped (@Step.refused _ 1 _ rfl rfl rfl) (by decide)
    have asks := refused.stepped (@Step.asks _ 0 _ _ (.renew 7) 0 1 (.goesOn rfl rfl) rfl
      (fun _ _ _ h => by cases h) rfl) (by decide)
    have renews := asks.stepped (@Step.acts _ 0 _ _ (.renew 7) (.ok 3) 1 0 (.goesOn rfl rfl) rfl
      rfl (by decide)) (by decide)
    exact ⟨_, _, renews, rfl, rfl, rfl⟩

end Election

namespace World

/-! ## Courses -/

/-- What the calls of `run` of a contender tell on a course. -/
def transcripts (w : World) (id : String) (course : List Move) : Nat → List Note :=
  fun i => w.transcript id i course

section

variable {w : World} {id : String} {course : List Move} {m : Move}

theorem transcripts_of_turn {i draw : Nat} {y : Candidacy} {o : Election.Outcome}
    (poll : m = .poll (.run id i) draw)
    (effect : Effect (w.follow course) id y o ((w.follow course).move m)) :
    w.transcripts id (course ++ [m]) = recount (w.transcripts id course) i o.notes := by
  funext j
  unfold transcripts recount
  rw [transcript_concat]
  split
  · rename_i hij
    subst hij
    rw [voiced_of_effect poll effect]
  · rename_i hij
    rw [voiced_eq_nil fun draw' hm => hij (by cases poll.symm.trans hm; rfl), List.filter_nil,
      List.append_nil]

theorem transcripts_of_quiet
    (quiet : ((w.follow course).move m).notes id = (w.follow course).notes id) :
    w.transcripts id (course ++ [m]) = w.transcripts id course := by
  funext j
  unfold transcripts
  rw [transcript_concat, voiced_of_quiet j quiet, List.filter_nil, List.append_nil]

end

theorem sustained_follow (host : String) (wall : Int) (now : Nat) (course : List Move) {id : String}
    {c : Contender} (hc : ((fresh host wall now).follow course).contenders.get? id = some c) :
    Sustained c ((fresh host wall now).transcripts id course) := by
  induction course using List.reverseRecOn generalizing c with
  | nil => simp at hc
  | append_singleton course m ih =>
    rw [follow_concat] at hc
    cases became hc with
    | opened _ _ new _ => exact new ▸ sustained_of_new ..
    | aside was aside quiet =>
      rw [transcripts_of_quiet quiet]
      exact aside.retains.sustained (ih was)
    | turn poll was turn effect after =>
      subst after
      obtain ⟨_, step, -⟩ := turn.step
      rw [transcripts_of_turn poll effect]
      exact step.sustained (ih was)

/-- A store only breaks a call off if the lease would end beyond the clock. -/
theorem afloat_move {w : World} (hw : w.Ordered)
    (h : ∀ {id c}, w.contenders.get? id = some c →
      w.now + c.candidacy.ttl.nanos < Clock.limit → Afloat c)
    {m : Move} {id : String} {c' : Contender} (hc' : (w.move m).contenders.get? id = some c')
    (fits : (w.move m).now + c'.candidacy.ttl.nanos < Clock.limit) : Afloat c' := by
  have fitted {c : Contender} (hc : w.contenders.get? id = some c) :
      w.now + c.candidacy.ttl.nanos < Clock.limit := by
    rw [← candidacy_move hc hc']
    exact Nat.lt_of_le_of_lt (Nat.add_le_add_right (now_le_move w m) _) fits
  cases became hc' with
  | opened _ _ new _ =>
    rw [new]
    intro led
    cases led
  | aside was aside _ => exact aside.retains.afloat (h was (fitted was))
  | turn _ was turn _ after =>
    subst after
    obtain ⟨_, step, answers⟩ := turn.step
    exact step.afloat (hw was) (answers (fitted was)) (h was (fitted was))

theorem afloat_follow (host : String) (wall : Int) (now : Nat) (course : List Move) {id : String}
    {c : Contender} (hc : ((fresh host wall now).follow course).contenders.get? id = some c)
    (fits : ((fresh host wall now).follow course).now + c.candidacy.ttl.nanos < Clock.limit) :
    Afloat c := by
  have h := follow_induct course (w := fresh host wall now)
    (I := fun w => w.Ordered ∧ ∀ {id c}, w.contenders.get? id = some c →
      w.now + c.candidacy.ttl.nanos < Clock.limit → Afloat c)
    ⟨fun h => by simp at h, fun h => by simp at h⟩
    fun w m h => ⟨ordered_move h.1 m, afloat_move h.1 h.2⟩
  exact h.2 hc fits

/-- In the move a call of `run` of the contender has a turn. Its renewal is refused, or it leaves the
loop because it was cancelled. -/
inductive Deposes (w : World) (m : Move) (id : String) : Prop
  | refusal {i draw revision : Nat} {e : StoreError} (poll : m = .poll (.run id i) draw)
      (records : w.Records m (.contender id) (.noted (.answered (.renew revision) (.error e))))
  | leave {c : Contender} {i draw : Nat} {r : Run} (poll : m = .poll (.run id i) draw)
      (was : w.contenders.get? id = some c) (run : c.runs[i]? = some r)
      (cancelled : r.cancelled = true)

/-- A leader becomes a candidate in no other way. -/
theorem deposes {w : World} (hw : w.Ordered) {m : Move} {id : String} {c c' : Contender}
    (hc : w.contenders.get? id = some c) (led : c.standing = .leader)
    (hc' : (w.move m).contenders.get? id = some c') (lost : c'.standing = .candidate) :
    w.Deposes m id := by
  have still (same : c'.standing = c.standing) : w.Deposes m id := by
    cases (same.trans led).symm.trans lost
  cases became hc' with
  | opened _ free _ _ => cases hc.symm.trans (eq_none_of_free free).1
  | aside was aside _ =>
    obtain rfl := Option.some.inj (hc.symm.trans was)
    exact still aside.standing
  | turn poll was turn effect after =>
    obtain rfl := Option.some.inj (hc.symm.trans was)
    subst after
    cases turn with
    | still | refused => exact still rfl
    | asks e | breaks e => exact still e.standing
    | left e cancelled =>
      obtain ⟨r, run, same, -⟩ := e.exists_run e.run
      exact .leave poll was run (same.trans cancelled)
    | idles e _ _ _ request => exact absurd request (Turn.request?_ne_none e (hw was))
    | @acts d r q u a e _ _ call performs _ =>
      rw [Contender.standing_concluded] at lost
      cases a with
      | ok => cases lost
      | error refusal =>
        have request := (Run.call?_eq (e.atWork (hw was)).2).symm.trans call
        rw [e.standing, led, request?] at request
        obtain ⟨revision, -, rfl⟩ := Option.map_eq_some_iff.1 request
        exact .refusal poll (effect.records (List.mem_append_right _ (List.mem_cons_self ..)))

/-! ## Together -/

/-- A standing is backed, whatever a store answers. Watchers see it. A leader has exactly one call of
`run` in the loop, which remembers the revision of the last write that it was granted; in the loop of a
candidate none is remembered; and no campaign goes without a call on the store.

So it is in every world, except that a leader whose lease would end beyond the clock loses its call of
`run` in a renewal that is never answered. Nobody is demoted but by a refusal or by cancellation. -/
theorem leader_backed :
    (∀ (y : Candidacy) (c : Contender) (told : Nat → List Note),
      Lineage y c told → Backed c told) ∧
    (∀ (host : String) (wall : Int) (now : Nat) (course : List Move) (id : String) (c : Contender),
      ((fresh host wall now).follow course).contenders.get? id = some c →
      Backed c ((fresh host wall now).transcripts id course) ∨
        Stranded c ((fresh host wall now).transcripts id course) ∧
          Clock.limit ≤ ((fresh host wall now).follow course).now + c.candidacy.ttl.nanos) ∧
    ∀ (host : String) (wall : Int) (now : Nat) (course : List Move) (m : Move) (id : String)
      (c c' : Contender),
      ((fresh host wall now).follow course).contenders.get? id = some c → c.standing = .leader →
      (((fresh host wall now).follow course).move m).contenders.get? id = some c' →
      c'.standing = .candidate → ((fresh host wall now).follow course).Deposes m id := by
  refine ⟨fun y c told h => h.backed, ?_, ?_⟩
  · intro host wall now course id c hc
    have sustained := sustained_follow host wall now course hc
    refine sustained.backed_or_stranded.imp_right fun stranded => ⟨stranded, ?_⟩
    exact Nat.le_of_not_lt fun fits =>
      stranded.not_afloat (afloat_follow host wall now course hc fits)
  · intro host wall now course m id c c' hc led hc' lost
    exact deposes (ordered_follow host wall now course) hc led hc' lost

/-- A leader renews. Its next renewal is held back, and meanwhile its lease is ended. -/
def ousting : List Move :=
  [.openContender "x" (contenderFor "e" "k"), .callRun "x" false, .poll (.run "x" 0) 0,
    .advance 15000000000, .poll (.run "x" 0) 0, .setStoreDelay "m" 1000000000,
    .advance 15000000000, .poll (.run "x" 0) 0, .expire "m" "e.k", .advance 1000000000]

theorem leader_backed_ousting :
    (∃ y c told, Lineage y c told ∧ c.standing = .leader ∧ lastGrant? (told 0) = some 3 ∧
      Backed c told) ∧
    ∃ c c', ((fresh "h" 0 0).follow ousting).contenders.get? "x" = some c ∧
      c.standing = .leader ∧
      lastGrant? ((fresh "h" 0 0).transcripts "x" ousting 0) = some 2 ∧
      (Backed c ((fresh "h" 0 0).transcripts "x" ousting) ∨
        Stranded c ((fresh "h" 0 0).transcripts "x" ousting) ∧
          Clock.limit ≤ ((fresh "h" 0 0).follow ousting).now + c.candidacy.ttl.nanos) ∧
      (((fresh "h" 0 0).follow ousting).move (.poll (.run "x" 0) 0)).contenders.get? "x" = some c' ∧
      c'.standing = .candidate ∧
      ((fresh "h" 0 0).follow ousting).Deposes (.poll (.run "x" 0) 0) "x" := by
  have before : (((fresh "h" 0 0).follow ousting).contenders.get? "x").map (·.standing) =
      some .leader := by decide +kernel
  have after : ((((fresh "h" 0 0).follow ousting).move (.poll (.run "x" 0) 0)).contenders.get?
      "x").map (·.standing) = some .candidate := by decide +kernel
  obtain ⟨d, hd, leads⟩ := Option.map_eq_some_iff.1 before
  obtain ⟨e, he, lost⟩ := Option.map_eq_some_iff.1 after
  obtain ⟨c, told, lineage, led, -, last⟩ := exists_lineage d.candidacy
  refine ⟨⟨d.candidacy, c, told, lineage, led, last, leader_backed.1 _ c told lineage⟩, ?_⟩
  exact ⟨d, e, hd, leads, by decide +kernel, leader_backed.2.1 "h" 0 0 ousting "x" d hd, he, lost,
    leader_backed.2.2 "h" 0 0 ousting _ "x" d e hd leads he lost⟩

end World

end Tenure
