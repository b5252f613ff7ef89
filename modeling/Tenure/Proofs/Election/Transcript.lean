import Mathlib.Data.List.Induction
import Tenure.Proofs.Election.Chronicle
import Tenure.Proofs.World.Moves

/-!
# Transcripts of calls of `run`

- **Turns** (`Narrates`, `Narrates.turn`): where a call of `run` stands says how far its campaigns
  are in the chronicle of the answers it was given. Turns of other calls do not matter
  (`Narrates.turn_of_ne`).
- **Courses** (`transcript`, `narrated_follow`): so what a call of `run` tells on a course is the
  chronicle of its answers.
-/

namespace Tenure

namespace Election

/-! ## Transcripts -/

/-- The call of a campaign that has begun and has not been answered, or nothing. -/
def Unanswered (answers : List Answer) (tail : List Note) : Prop :=
  tail = [] ∨ tail = [.asked (requestAfter answers.getLast?)]

/-- How far a call of `run` is that has told this. -/
inductive Narrates (c : Contender) (r : Run) (told : List Note) : Prop
  | fresh (phase : r.phase = .fresh) (silent : told = [])
  | waiting {answers : List Answer} {due : Nat} (phase : r.phase = .waiting due)
      (tells : told = chronicle answers) (ready : UpToDate c.standing r.ledger answers)
  | calling {answers : List Answer} {asked due : Nat}
      (phase : r.phase = .calling (requestAfter answers.getLast?) asked due)
      (tells : told = chronicle answers ++ [.asked (requestAfter answers.getLast?)])
      (ready : UpToDate c.standing r.ledger answers)
  | ended {answers : List Answer} {tail : List Note} (phase : r.phase.isOver = true)
      (unanswered : Unanswered answers tail) (tells : told = chronicle answers ++ tail)

section

variable {c d : Contender} {r : Run} {i : Nat} {told : List Note}

theorem Narrates.exists (h : Narrates c r told) :
    ∃ answers tail, Unanswered answers tail ∧ told = chronicle answers ++ tail := by
  cases h with
  | fresh _ silent => exact ⟨[], [], .inl rfl, silent⟩
  | @waiting answers _ _ tells _ => exact ⟨answers, [], .inl rfl, by rw [tells, List.append_nil]⟩
  | @calling answers _ _ _ tells _ => exact ⟨answers, _, .inr rfl, tells⟩
  | @ended answers tail _ unanswered tells => exact ⟨answers, tail, unanswered, tells⟩

/-- A call of `run` tells the same whether it is cancelled or not. -/
theorem Narrates.of_cancelled {cancelled : Bool} (h : Narrates c r told)
    (hs : d.standing = c.standing) : Narrates d { r with cancelled := cancelled } told := by
  cases h with
  | fresh phase silent => exact .fresh phase silent
  | waiting phase tells ready => exact .waiting phase tells (hs ▸ ready)
  | calling phase tells ready => exact .calling phase tells (hs ▸ ready)
  | ended phase unanswered tells => exact .ended phase unanswered tells

/-- Where a call of `run` is when it goes on. -/
theorem Narrates.engages (engages : Engages c i d r) (orderly : Orderly c)
    (h : ∀ {r₀}, c.runs[i]? = some r₀ → Narrates c r₀ told) :
    ∃ answers, UpToDate d.standing r.ledger answers ∧
      r.call? d.standing = some (requestAfter answers.getLast?) ∧
      told ++ r.opening (requestAfter answers.getLast?) =
        chronicle answers ++ [.asked (requestAfter answers.getLast?)] := by
  cases engages with
  | @begins r run phase free =>
    have hs : (c.enter i).standing = .candidate := by
      cases orderly with
      | resting _ standing _ => exact standing
      | working work _ _ => exact absurd work.looping (by simp [free])
    cases h run with
    | fresh _ silent =>
      refine ⟨[], hs ▸ upToDate_nil, ?_, ?_⟩
      · rw [hs]
        simp [Run.call?, phase, request?, requestAfter]
      · rw [silent]
        simp [Run.opening, phase, chronicle, chronicleFrom]
    | waiting phase' | calling phase' => cases phase.symm.trans phase'
    | ended finished => simp [phase, Phase.isOver] at finished
  | goesOn run phase =>
    cases h run with
    | fresh phase' => simp [phase', Phase.inLoop] at phase
    | @waiting answers due phase' tells ready =>
      exact ⟨answers, ready, by simp [Run.call?, phase', ready.request],
        by simp [Run.opening, phase', tells]⟩
    | @calling answers asked due phase' tells ready =>
      exact ⟨answers, ready, by simp [Run.call?, phase'], by simp [Run.opening, phase', tells]⟩
    | ended finished =>
      revert phase finished
      cases r.phase <;> simp [Phase.isOver, Phase.inLoop]

end

/-- A call of `run` that is not there tells nothing. -/
theorem Turn.notes_eq_nil {now delay draw : Nat} {c : Contender} {s : Lease.Store} {i : Nat}
    {o : Outcome} (t : Turn now delay draw c s i o) (absent : c.runs[i]? = none) :
    o.notes = [] := by
  have engages {d : Contender} {r : Run} (e : Engages c i d r) : False := by
    obtain ⟨r₀, run, -⟩ := e.exists_run e.run
    cases absent.symm.trans run
  cases t with
  | still | refused => rfl
  | left e | asks e | acts e | breaks e | idles e => exact (engages e).elim

/-- A turn of another call of `run` leaves the standing to a call in the loop. -/
theorem Turn.standing_of_ne {now delay draw : Nat} {c : Contender} {s : Lease.Store} {i j : Nat}
    {r : Run} {o : Outcome} (t : Turn now delay draw c s i o) (h : i ≠ j) (orderly : Orderly c)
    (run : c.runs[j]? = some r) (phase : r.phase.inLoop = true) :
    o.contender.standing = c.standing := by
  obtain ⟨_, step, -⟩ := t.step
  exact step.standing_of_ne h orderly run (Phase.holdsLoop_of_inLoop phase)

theorem Narrates.turn_of_ne {now delay draw : Nat} {c : Contender} {s : Lease.Store} {i j : Nat}
    {r : Run} {o : Outcome} {told : List Note} (h : Narrates c r told)
    (t : Turn now delay draw c s i o) (hij : i ≠ j) (orderly : Orderly c)
    (run : c.runs[j]? = some r) : Narrates o.contender r told := by
  cases h with
  | fresh phase silent => exact .fresh phase silent
  | waiting phase tells ready =>
    exact .waiting phase tells (t.standing_of_ne hij orderly run (by rw [phase]; rfl) ▸ ready)
  | calling phase tells ready =>
    exact .calling phase tells (t.standing_of_ne hij orderly run (by rw [phase]; rfl) ▸ ready)
  | ended phase unanswered tells => exact .ended phase unanswered tells

theorem filter_opening (r : Run) (q : Request) :
    (r.opening q).filter Note.isTold = r.opening q := by
  unfold Run.opening
  split <;> rfl

theorem filter_waitNotes (wait : Wait) (draw : Nat) :
    (wait.notes draw).filter Note.isTold = [] := by
  cases wait with
  | plain => rfl
  | backoff strategy failures =>
    simp only [Wait.notes]
    split <;> rfl

/-- A wait begins, or breaks off. -/
theorem Wait.phase_cases (wait : Wait) (now : Nat) (interval : Duration) (draw : Nat) :
    (∃ due, wait.phase now interval draw = .waiting due) ∨
      wait.phase now interval draw = .broken := by
  cases wait with
  | plain => exact .inl ⟨_, rfl⟩
  | backoff strategy failures =>
    simp only [Wait.phase]
    split
    · exact .inl ⟨_, rfl⟩
    · exact .inr rfl

/-- What an answered campaign tells goes on with the chronicle of the answers. -/
theorem tells_answered {d : Contender} {r : Run} {told : List Note} {answers : List Answer}
    (ready : UpToDate d.standing r.ledger answers)
    (tells : told ++ r.opening (requestAfter answers.getLast?) =
      chronicle answers ++ [.asked (requestAfter answers.getLast?)]) (a : Answer) (draw : Nat) :
    told ++ (r.opening (requestAfter answers.getLast?) ++
      .answered (requestAfter answers.getLast?) a ::
        ((d.conclusion r (some a)).notes ++ (d.conclusion r (some a)).wait.notes draw)).filter
          Note.isTold = chronicle (answers ++ [a]) := by
  rw [List.filter_append, filter_opening, ← List.append_assoc, tells, chronicle_concat,
    ← ready.chapter d.candidacy.backoff? a, List.append_assoc]
  congr 1
  simp [List.filter_cons, Note.isTold, filter_waitNotes, Contender.conclusion]

/-- A turn of a call of `run` goes on with what it tells. -/
theorem Narrates.turn {now delay draw : Nat} {c : Contender} {s : Lease.Store} {i : Nat}
    {r : Run} {o : Outcome} {told : List Note} (t : Turn now delay draw c s i o)
    (orderly : Orderly c) (h : ∀ {r₀}, c.runs[i]? = some r₀ → Narrates c r₀ told)
    (run : o.contender.runs[i]? = some r) :
    Narrates o.contender r (told ++ o.notes.filter Note.isTold) := by
  cases t with
  | still => simpa using h run
  | @refused r₀ run₀ phase taken =>
    obtain rfl : { r₀ with phase := .over } = r := by simpa [run₀] using run
    cases h run₀ with
    | fresh _ silent => exact @ended _ _ _ [] [] rfl (.inl rfl) (by simp [silent]; rfl)
    | waiting phase' | calling phase' => cases phase.symm.trans phase'
    | ended finished => simp [phase, Phase.isOver] at finished
  | @left d r₀ engages cancelled =>
    obtain rfl : { r₀ with phase := .over } = r := by simpa [engages.run] using run
    obtain ⟨r₁, run₁, -⟩ := engages.exists_run engages.run
    obtain ⟨answers, tail, unanswered, tells⟩ := (h run₁).exists
    exact .ended rfl unanswered (by simp [tells])
  | @asks d r₀ q engages cancelled due anew request held =>
    obtain rfl : { r₀ with phase := .calling q now (Clock.wake now delay) } = r := by
      simpa [engages.run] using run
    obtain ⟨answers, ready, -, tells⟩ := Narrates.engages engages orderly h
    obtain rfl := Option.some.inj (request.symm.trans ready.request)
    have opens : r₀.opening (requestAfter answers.getLast?) =
        [.asked (requestAfter answers.getLast?)] := by
      unfold Run.opening
      split
      · exact absurd ‹_› (anew _ _ _)
      · rfl
    exact .calling rfl (by rw [← tells, opens]; rfl) ready
  | @acts d r₀ q u a engages cancelled due call performs ends =>
    obtain ⟨answers, ready, calls, tells⟩ := Narrates.engages engages orderly h
    obtain rfl := Option.some.inj (call.symm.trans calls)
    have told' := tells_answered ready tells a draw
    obtain rfl : { r₀ with
        ledger := r₀.ledger.after d.standing (some a)
        phase := (d.conclusion r₀ (some a)).wait.phase now d.candidacy.interval draw } = r := by
      rw [Contender.getElem?_concluded, if_pos rfl, engages.run] at run
      exact Option.some.inj run
    have after : UpToDate (d.concluded i (d.conclusion r₀ (some a)) now draw).standing
        (r₀.ledger.after d.standing (some a)) (answers ++ [a]) := by
      rw [Contender.standing_concluded]
      exact ready.conclude a
    rcases (d.conclusion r₀ (some a)).wait.phase_cases now d.candidacy.interval draw with
      ⟨due', phase⟩ | phase
    · exact .waiting phase told' after
    · exact .ended (by rw [phase]; rfl) (.inl rfl) (by rw [List.append_nil]; exact told')
  | @breaks d r₀ q u engages cancelled due call performs =>
    obtain ⟨answers, ready, calls, tells⟩ := Narrates.engages engages orderly h
    obtain rfl := Option.some.inj (call.symm.trans calls)
    obtain rfl : { r₀ with phase := .broken } = r := by simpa [engages.run] using run
    exact .ended rfl (.inr rfl) (by rw [filter_opening, tells])
  | idles engages _ _ _ request => exact absurd request (Turn.request?_ne_none engages orderly)

end Election

namespace World

open Election

/-- What the `i`-th call of `run` of a contender notes in a move, in order. -/
def voiced (w : World) (id : String) (i : Nat) (m : Move) : List Note :=
  match m with
  | .poll (.run id' j) _ =>
    if id' = id ∧ j = i then ((w.added m).filterMap (·.note? id)).reverse.map Prod.snd else []
  | _ => []

/-- What the `i`-th call of `run` of a contender tells on a course, in order. -/
def transcript (w : World) (id : String) (i : Nat) : List Move → List Note
  | [] => []
  | m :: course => (w.voiced id i m).filter Note.isTold ++ (w.move m).transcript id i course

theorem transcript_concat (w : World) (id : String) (i : Nat) (course : List Move) (m : Move) :
    w.transcript id i (course ++ [m]) =
      w.transcript id i course ++ ((w.follow course).voiced id i m).filter Note.isTold := by
  induction course generalizing w with
  | nil => simp [transcript]
  | cons m' course ih => simp [transcript, ih]

theorem filterMap_added {w : World} {m : Move} {id : String} {new : List (Nat × Note)}
    (h : (w.move m).notes id = new ++ w.notes id) :
    (w.added m).filterMap (·.note? id) = new := by
  obtain ⟨events, hist⟩ := w.history_move m
  rw [notes, notes, hist, List.filterMap_append] at h
  rw [added_eq hist, List.append_cancel_right h]

/-- What a turn of a call of `run` adds to the notes of its contender is what the call notes. -/
theorem voiced_of_notes {w : World} {m : Move} {id : String} {i draw : Nat}
    {new : List (Nat × Note)} (poll : m = .poll (.run id i) draw)
    (h : (w.move m).notes id = new ++ w.notes id) :
    w.voiced id i m = new.reverse.map Prod.snd := by
  have : w.voiced id i m = ((w.added m).filterMap (·.note? id)).reverse.map Prod.snd := by
    rw [poll]
    exact if_pos ⟨rfl, rfl⟩
  rw [this, filterMap_added h]

theorem voiced_of_effect {w : World} {m : Move} {id : String} {i draw : Nat} {y : Candidacy}
    {o : Election.Outcome} (poll : m = .poll (.run id i) draw)
    (h : Effect w id y o (w.move m)) : w.voiced id i m = o.notes := by
  have hnotes := h.notes id
  rw [if_pos rfl] at hnotes
  rw [voiced_of_notes poll hnotes, List.reverse_reverse, List.map_map]
  exact List.map_id _

theorem voiced_eq_nil {w : World} {m : Move} {id : String} {i : Nat}
    (h : ∀ draw, m ≠ .poll (.run id i) draw) : w.voiced id i m = [] := by
  unfold voiced
  split
  · exact if_neg fun ⟨hid, hi⟩ => h _ (by rw [hid, hi])
  · rfl

theorem voiced_of_quiet {w : World} {m : Move} {id : String} (i : Nat)
    (h : (w.move m).notes id = w.notes id) : w.voiced id i m = [] := by
  unfold voiced
  split
  · rw [@filterMap_added _ _ _ [] h]
    split <;> rfl
  · rfl

/-- What a call of `run` has told is what brought it where it is, and nobody tells anything who is
not there. -/
structure Narrated (w : World) (id : String) (i : Nat) (told : List Note) : Prop where
  run : ∀ {c r}, w.contenders.get? id = some c → c.runs[i]? = some r → Narrates c r told
  absent : (∀ c, w.contenders.get? id = some c → c.runs[i]? = none) → told = []

theorem Narrated.move {w : World} (hw : w.Ordered) {id : String} {i : Nat} {told : List Note}
    (h : w.Narrated id i told) (m : Move) :
    (w.move m).Narrated id i (told ++ (w.voiced id i m).filter Note.isTold) where
  run {c' r} hc' hr := by
    cases became hc' with
    | opened _ _ new _ => simp [new] at hr
    | @aside c was aside quiet =>
      rw [voiced_of_quiet i quiet, List.filter_nil, List.append_nil]
      cases hrun : c.runs[i]? with
      | some r₀ =>
        obtain ⟨b, hb⟩ := aside.run' hrun
        obtain rfl := Option.some.inj (hb.symm.trans hr)
        exact (h.run was hrun).of_cancelled aside.standing
      | none =>
        rcases aside.run hr with ⟨b, hb⟩ | ⟨b, t, rfl⟩
        · cases hrun.symm.trans hb
        · refine .fresh rfl (h.absent fun c₀ hc₀ => ?_)
          rw [← Option.some.inj (was.symm.trans hc₀), hrun]
    | @turn c j draw o poll was turn effect after =>
      subst after
      by_cases hij : j = i
      · subst hij
        rw [voiced_of_effect poll effect]
        exact .turn turn (hw was) (h.run was) hr
      · rw [voiced_eq_nil fun draw' hm => hij (by cases poll.symm.trans hm; rfl), List.filter_nil,
          List.append_nil]
        have run := (turn.run_of_ne hij).symm.trans hr
        exact (h.run was run).turn_of_ne turn hij (hw was) run
  absent habsent := by
    have before : ∀ c, w.contenders.get? id = some c → c.runs[i]? = none := by
      intro c hc
      cases run : c.runs[i]? with
      | none => rfl
      | some r =>
        obtain ⟨c', r', hc', run', -⟩ := exists_run_move hc run m
        cases (habsent _ hc').symm.trans run'
    rw [h.absent before, List.nil_append]
    cases w.played m with
    | @turn id' c j draw o poll was turn effect =>
      by_cases hid : id' = id ∧ j = i
      · obtain ⟨rfl, rfl⟩ := hid
        rw [voiced_of_effect poll effect, turn.notes_eq_nil (before c was), List.filter_nil]
      · rw [voiced_eq_nil fun draw' hm => hid (by cases poll.symm.trans hm; exact ⟨rfl, rfl⟩),
          List.filter_nil]
    | beat _ _ _ effect => rw [voiced_of_quiet i (effect.notes id), List.filter_nil]
    | call called =>
      rw [voiced_of_quiet i (notes_congr called.recast.history id), List.filter_nil]
    | stage staged => rw [voiced_of_quiet i (notes_congr staged.history id), List.filter_nil]

theorem narrated_follow (host : String) (wall : Int) (now : Nat) (course : List Move) (id : String)
    (i : Nat) : ((fresh host wall now).follow course).Narrated id i
      ((fresh host wall now).transcript id i course) := by
  induction course using List.reverseRecOn with
  | nil => exact ⟨fun h => by simp at h, fun _ => rfl⟩
  | append_singleton course m ih =>
    rw [follow_concat, transcript_concat]
    exact ih.move (ordered_follow host wall now course) m

end World

end Tenure
