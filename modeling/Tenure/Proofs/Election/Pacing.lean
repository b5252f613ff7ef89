import Tenure.Proofs.Election.Hearing
import Tenure.Proofs.Election.Terms

/-!
# Waits between campaigns

How long a contender waits after a campaign depends on the campaigns that its call of `run` has behind
it, and on nothing else.

- **Losses** (`losses`, `losses_concat`): the creates that failed one after another. A win and a failed
  renewal begin the count anew.
- **The law** (`waitFor`, `wait_conclude`): the wait after a campaign as a function of the replies that
  the store gave. The ledger counts the losses up to the greatest 32-bit number (`failures_after`).
- **Courses** (`Paces`, `paced`): each campaign on a course ends with the wait of its law. The backoff is
  asked for it if the law says so, and is reset by a win. It is never called otherwise.
-/

namespace Tenure

namespace Election

/-! ## Losses -/

/-- A call on the store with its answer. -/
abbrev Reply := Request × Answer

/-- The key was written. -/
def isWin : Reply → Bool
  | (.acquire, .ok _) => true
  | _ => false

/-- The key could not be written. -/
def isLoss : Reply → Bool
  | (.acquire, .error _) => true
  | _ => false

/-- The entry could not be renewed. -/
def isLapse : Reply → Bool
  | (.renew _, .error _) => true
  | _ => false

/-- The number of creates that failed since the beginning, the last win and the last failed renewal,
whichever came last. The replies are given in order. -/
def losses (replies : List Reply) : Nat :=
  ((replies.reverse.takeWhile fun x => !(isWin x || isLapse x)).filter isLoss).length

/-- The greatest 32-bit number, where counting stops. -/
def mostFailures : Nat := 4294967295

theorem losses_concat (replies : List Reply) (x : Reply) :
    losses (replies ++ [x]) =
      if isWin x || isLapse x then 0 else losses replies + if isLoss x then 1 else 0 := by
  unfold losses
  rw [List.reverse_append, List.reverse_singleton, List.singleton_append, List.takeWhile_cons]
  by_cases anew : (isWin x || isLapse x) = true
  · simp [anew]
  · by_cases lost : isLoss x = true
    · simp [anew, lost]
    · simp [anew, lost]

/-! ## The law -/

/-- The wait after the last of some campaigns, by the standing after it and the replies so far. It is the
campaign interval for a leader, after a failed renewal, and for those who have no backoff. Otherwise
the backoff is asked, with the number of losses before the last one. -/
def waitFor (backoff? : Option Backoff) (after : Standing) (replies : List Reply) : Wait :=
  match backoff? with
  | none => .plain
  | some strategy =>
    if after = .leader ∨ replies.getLast?.any isLapse = true then .plain
    else .backoff strategy (min (losses replies) mostFailures - 1)

section

variable {before : Standing} {ledger : Ledger} {q : Request} {replies : List Reply}

/-- A candidate writes, and a leader renews. -/
theorem request?_cases (request : request? before ledger = some q) :
    (before = .candidate ∧ q = .acquire) ∨ ∃ revision, before = .leader ∧ q = .renew revision := by
  cases before with
  | candidate => exact .inl ⟨rfl, (Option.some.inj request).symm⟩
  | leader =>
    obtain ⟨revision, -, rfl⟩ := Option.map_eq_some_iff.1 request
    exact .inr ⟨revision, rfl, rfl⟩

/-- The ledger counts the losses. -/
theorem failures_after (request : request? before ledger = some q)
    (counts : ledger.failures = min (losses replies) mostFailures) (a : Answer) :
    (ledger.after before (some a)).failures =
      min (losses (replies ++ [(q, a)])) mostFailures := by
  rw [losses_concat]
  rcases request?_cases request with ⟨rfl, rfl⟩ | ⟨revision, rfl, rfl⟩
  · cases a with
    | ok => rfl
    | error e =>
      show min (ledger.failures + 1) mostFailures = min (losses replies + 1) mostFailures
      rw [counts]
      unfold mostFailures
      omega
  · cases a with
    | ok =>
      show ledger.failures = _
      rw [counts]
      rfl
    | error => rfl

/-- A campaign ends with the wait of the law. -/
theorem wait_conclude (backoff? : Option Backoff) (request : request? before ledger = some q)
    (counts : ledger.failures = min (losses replies) mostFailures) (a : Answer) :
    (conclude backoff? before ledger (some a)).wait =
      waitFor backoff? (standingAfter (some a)) (replies ++ [(q, a)]) := by
  show waitAfter backoff? (standingAfter (some a)) (ledger.after before (some a)).failures = _
  have last : (replies ++ [(q, a)]).getLast? = some (q, a) := List.getLast?_concat
  unfold waitFor
  rw [failures_after request counts a, last]
  cases backoff? with
  | none => rfl
  | some strategy =>
    cases a with
    | ok => rfl
    | error e =>
      rcases request?_cases request with ⟨-, rfl⟩ | ⟨revision, -, rfl⟩
      · -- the campaign that has just been lost counts, so the backoff is asked
        have lost : 0 < min (losses (replies ++ [(.acquire, .error e)])) mostFailures := by
          rw [losses_concat]
          show 0 < min (losses replies + 1) mostFailures
          unfold mostFailures
          omega
        show (if 0 < _ then _ else _) = _
        rw [if_pos lost]
        rfl
      · have none_lost : losses (replies ++ [(.renew revision, .error e)]) = 0 := by
          rw [losses_concat]
          rfl
        rw [none_lost]
        rfl

/-- Until its wait begins a campaign calls the backoff only to reset it after a win. -/
theorem resets_conclude (backoff? : Option Backoff) (request : request? before ledger = some q)
    (a : Answer) :
    (conclude backoff? before ledger (some a)).notes.filter (!·.isTold) =
      if backoff?.isSome ∧ isWin (q, a) = true then [.backoffReset] else [] := by
  rcases request?_cases request with ⟨rfl, rfl⟩ | ⟨revision, rfl, rfl⟩
  · cases backoff? <;> cases a <;> rfl
  · cases backoff? <;> cases a <;> rfl

end

theorem filter_not_told_waitNotes (wait : Wait) (draw : Nat) :
    (wait.notes draw).filter (!·.isTold) = wait.notes draw := by
  cases wait with
  | plain => rfl
  | backoff strategy failures =>
    unfold Wait.notes
    dsimp only
    split <;> rfl

theorem isTold_opening {r : Run} {n : Note} (h : n ∈ r.opening q) : n.isTold = true := by
  unfold Run.opening at h
  split at h
  · cases h
  · rw [List.mem_singleton.1 h]
    rfl

/-! ## Turns -/

/-- A turn of the `i`-th call of `run`, after the replies it was given: either no campaign ends in it and
the backoff is not called, or the campaign ends as the law says. -/
inductive PacedTurn (now draw : Nat) (i : Nat) (replies : List Reply) (o : Outcome) : Prop
  | between (unanswered : o.notes.filterMap Note.reply? = [])
      (told : ∀ n ∈ o.notes, n.isTold = true)
      (counts : ∀ {r}, o.contender.runs[i]? = some r → r.phase.inLoop = true →
        r.ledger.failures = min (losses replies) mostFailures)
  | campaign {x : Reply} {r : Run} {wait : Wait} (answered : o.notes.filterMap Note.reply? = [x])
      (run : o.contender.runs[i]? = some r)
      (counts : r.ledger.failures = min (losses (replies ++ [x])) mostFailures)
      (law : wait = waitFor o.contender.candidacy.backoff? o.contender.standing (replies ++ [x]))
      (calls : o.notes.filter (!·.isTold) =
        (if o.contender.candidacy.backoff?.isSome ∧ isWin x = true then [.backoffReset] else []) ++
          wait.notes draw)
      (phase : r.phase = wait.phase now o.contender.candidacy.interval draw)

theorem Turn.pacedTurn {now delay draw : Nat} {c : Contender} {s : Lease.Store} {i : Nat}
    {o : Outcome} {replies : List Reply} (t : Turn now delay draw c s i o) (orderly : Orderly c)
    (counts : ∀ {d r}, Engages c i d r →
      r.ledger.failures = min (losses replies) mostFailures) :
    PacedTurn now draw i replies o := by
  have mute {r : Run} {q : Request} : (r.opening q).filterMap Note.reply? = [] :=
    List.filterMap_eq_nil_iff.2 fun n => reply?_opening
  cases t with
  | still => exact .between rfl nofun fun run phase => counts (.goesOn run phase)
  | @refused r run phase taken =>
    refine .between rfl nofun fun {r'} run' inLoop => ?_
    obtain rfl : { r with phase := .over } = r' := by simpa [run] using run'
    cases inLoop
  | @left d r engages cancelled =>
    refine .between rfl nofun fun {r'} run' inLoop => ?_
    obtain rfl : { r with phase := .over } = r' := by simpa [engages.run] using run'
    cases inLoop
  | @asks d r q engages cancelled due anew request held =>
    refine .between rfl (by simp [Note.isTold]) fun {r'} run' inLoop => ?_
    obtain rfl : { r with phase := .calling q now (Clock.wake now delay) } = r' := by
      simpa [engages.run] using run'
    have counted := counts engages
    exact counted
  | @acts d r q u a engages cancelled due call performs ends =>
    obtain ⟨work, asking⟩ := engages.atWork orderly
    have request : request? d.standing r.ledger = some q :=
      (Run.call?_eq asking).symm.trans call
    have counted := counts engages
    -- what the campaign notes after its answer is no reply, and what it notes before is told
    have after : ((d.conclusion r (some a)).notes ++
        (d.conclusion r (some a)).wait.notes draw).filterMap Note.reply? = [] :=
      List.filterMap_eq_nil_iff.2 fun n hn => Note.reply?_eq_none (isCall_conclusion hn)
    have before : (r.opening q).filter (!·.isTold) = [] :=
      List.filter_eq_nil_iff.2 fun n hn => by simp [isTold_opening hn]
    have prescribed : (d.conclusion r (some a)).wait =
        waitFor (d.concluded i (d.conclusion r (some a)) now draw).candidacy.backoff?
          (d.concluded i (d.conclusion r (some a)) now draw).standing (replies ++ [(q, a)]) := by
      rw [Contender.standing_concluded, Contender.candidacy_concluded]
      exact wait_conclude d.candidacy.backoff? request counted a
    refine .campaign (x := (q, a)) ?_ (work.concluded a now draw).run
      (failures_after request counted a) prescribed ?_ ?_
    · rw [List.filterMap_append, mute, List.filterMap_cons, after]
      rfl
    · rw [Contender.candidacy_concluded, List.filter_append, before, List.nil_append,
        List.filter_cons_of_neg (by simp [Note.isTold]), List.filter_append,
        filter_not_told_waitNotes]
      exact congrArg (· ++ _) (resets_conclude d.candidacy.backoff? request a)
    · rw [Contender.candidacy_concluded]
  | @breaks d r q u engages cancelled due call performs =>
    refine .between mute (fun n => isTold_opening) fun {r'} run' inLoop => ?_
    obtain rfl : { r with phase := .broken } = r' := by simpa [engages.run] using run'
    cases inLoop
  | idles engages _ _ _ request => exact absurd request (Turn.request?_ne_none engages orderly)

end Election

namespace World

open Election

/-! ## Courses -/

/-- The replies that the `i`-th call of `run` of a contender is given on a course, in order. -/
def replies (w : World) (id : String) (i : Nat) (course : List Move) : List Reply :=
  (w.transcript id i course).filterMap Note.reply?

theorem replies_concat (w : World) (id : String) (i : Nat) (course : List Move) (m : Move) :
    w.replies id i (course ++ [m]) =
      w.replies id i course ++ ((w.follow course).voiced id i m).filterMap Note.reply? := by
  unfold replies
  rw [transcript_concat, List.filterMap_append, List.filterMap_filter]
  congr 2
  funext n
  cases n <;> rfl

/-- The move is a turn of the `i`-th call of `run` in which a campaign ends and the wait begins that the
law prescribes after these replies and the new one, or the backoff is not called in it. -/
inductive Paces (w : World) (m : Move) (id : String) (i : Nat) (replies : List Reply) : Prop
  | between (unanswered : (w.voiced id i m).filterMap Note.reply? = [])
      (told : ∀ n ∈ w.voiced id i m, n.isTold = true)
  | campaign {draw : Nat} {x : Reply} {c : Contender} {r : Run} {wait : Wait}
      (poll : m = .poll (.run id i) draw)
      (answered : (w.voiced id i m).filterMap Note.reply? = [x])
      (contender : (w.move m).contenders.get? id = some c) (run : c.runs[i]? = some r)
      (law : wait = waitFor c.candidacy.backoff? c.standing (replies ++ [x]))
      (calls : (w.voiced id i m).filter (!·.isTold) =
        (if c.candidacy.backoff?.isSome ∧ isWin x = true then [.backoffReset] else []) ++
          wait.notes draw)
      (phase : r.phase = wait.phase w.now c.candidacy.interval draw)

/-- While a call of `run` is in the loop, its ledger counts its losses. -/
def Counts (w : World) (id : String) (i : Nat) (replies : List Reply) : Prop :=
  ∀ {c r}, w.contenders.get? id = some c → c.runs[i]? = some r → r.phase.inLoop = true →
    r.ledger.failures = min (losses replies) mostFailures

section

variable {w : World} {id : String} {i : Nat} {told : List Note}

/-- A call of `run` that goes on has counted its losses. One that begins has no replies yet. -/
theorem Counts.engages {c d : Contender} {r : Run}
    (counts : w.Counts id i (told.filterMap Note.reply?)) (narrated : w.Narrated id i told)
    (hc : w.contenders.get? id = some c) (engages : Engages c i d r) :
    r.ledger.failures = min (losses (told.filterMap Note.reply?)) mostFailures := by
  cases engages with
  | begins run phase free =>
    cases narrated.run hc run with
    | fresh _ silent =>
      rw [silent]
      rfl
    | waiting phase' | calling phase' => cases phase.symm.trans phase'
    | ended finished => simp [phase, Phase.isOver] at finished
  | goesOn run phase => exact counts hc run phase

/-- A move keeps the count, and a campaign that ends in it paces itself. -/
theorem Counts.move (counts : w.Counts id i (told.filterMap Note.reply?)) (ordered : w.Ordered)
    (narrated : w.Narrated id i told) (m : Move) :
    w.Paces m id i (told.filterMap Note.reply?) ∧ (w.move m).Counts id i
      (told.filterMap Note.reply? ++ (w.voiced id i m).filterMap Note.reply?) := by
  -- a move in which the call has no turn leaves it as it is or makes it
  have idle (quiet : w.voiced id i m = [])
      (before : ∀ {c' r'}, (w.move m).contenders.get? id = some c' → c'.runs[i]? = some r' →
        r'.phase.inLoop = true → r'.ledger.failures =
          min (losses (told.filterMap Note.reply?)) mostFailures) :
      w.Paces m id i (told.filterMap Note.reply?) ∧ (w.move m).Counts id i
        (told.filterMap Note.reply? ++ (w.voiced id i m).filterMap Note.reply?) := by
    rw [quiet]
    refine ⟨.between (by rw [quiet]; rfl) (by rw [quiet]; exact nofun), ?_⟩
    rw [List.filterMap_nil, List.append_nil]
    exact before
  cases hc' : (w.move m).contenders.get? id with
  | none =>
    have gone : w.contenders.get? id = none := by
      cases h : w.contenders.get? id with
      | none => rfl
      | some c =>
        obtain ⟨c', h'⟩ := exists_contender_move h m
        cases h'.symm.trans hc'
    refine idle ?_ fun h => by cases h.symm.trans hc'
    by_cases poll : ∃ draw, m = .poll (.run id i) draw
    · obtain ⟨draw, rfl⟩ := poll
      exact voiced_of_quiet i (by simp only [World.move, World.poll, pollRun, gone])
    · exact voiced_eq_nil fun draw h => poll ⟨draw, h⟩
  | some c' =>
    cases became hc' with
    | opened _ _ new quiet =>
      refine idle (voiced_of_quiet i quiet) fun h run => ?_
      obtain rfl := Option.some.inj (h.symm.trans hc')
      rw [new] at run
      cases run
    | @aside c was aside quiet =>
      refine idle (voiced_of_quiet i quiet) fun h run inLoop => ?_
      obtain rfl := Option.some.inj (h.symm.trans hc')
      rcases aside.run run with ⟨b, hb⟩ | ⟨b, t, rfl⟩
      · have counted := counts was hb inLoop
        exact counted
      · cases inLoop
    | @turn c j draw o poll was turn effect after =>
      subst after
      by_cases hij : j = i
      · subst hij
        rw [voiced_of_effect poll effect]
        have voiced := voiced_of_effect poll effect
        cases turn.pacedTurn (ordered was) (counts.engages narrated was) with
        | between unanswered told counts =>
          refine ⟨.between (by rw [voiced, unanswered]) (by rw [voiced]; exact told), ?_⟩
          rw [unanswered, List.append_nil]
          intro c' r h run
          obtain rfl := Option.some.inj (h.symm.trans hc')
          exact counts run
        | campaign answered run counts law calls phase =>
          refine ⟨.campaign poll (by rw [voiced, answered]) hc' run law (by rw [voiced, calls]) phase,
            ?_⟩
          rw [answered]
          intro c' r h run' _
          obtain rfl := Option.some.inj (h.symm.trans hc')
          obtain rfl := Option.some.inj (run.symm.trans run')
          exact counts
      · refine idle (voiced_eq_nil fun draw' hm => hij (by cases poll.symm.trans hm; rfl)) ?_
        intro c' r h run inLoop
        obtain rfl := Option.some.inj (h.symm.trans hc')
        exact counts was ((turn.run_of_ne hij).symm.trans run) inLoop

theorem counts_follow (host : String) (wall : Int) (now : Nat) (course : List Move) (id : String)
    (i : Nat) : ((fresh host wall now).follow course).Counts id i
      ((fresh host wall now).replies id i course) := by
  induction course using List.reverseRecOn with
  | nil => exact fun h => by simp at h
  | append_singleton course m ih =>
    rw [follow_concat, replies_concat]
    exact (Counts.move ih (ordered_follow host wall now course)
      (narrated_follow host wall now course id i) m).2

/-- Nobody notes anything but in a turn of one of his calls of `run`. -/
theorem notes_move_of_ne {m : Move} (h : ∀ i draw, m ≠ .poll (.run id i) draw) :
    (w.move m).notes id = w.notes id := by
  cases w.played m with
  | @turn id' c j draw o poll was turn effect =>
    have hid : id' ≠ id := by
      rintro rfl
      exact h j draw poll
    rw [effect.notes, if_neg hid, List.nil_append]
  | beat _ _ _ effect => exact effect.notes id
  | call called => exact notes_congr called.recast.history id
  | stage staged => exact notes_congr staged.history id

end

/-- The exact law of waits. Every campaign that a call of `run` ends on a course is followed by the wait
that its replies prescribe. The backoff is asked for it if the law says so, is reset by a win, and is
not called otherwise: neither while no campaign ends nor by anybody but a call of `run` in its turn. -/
theorem paced :
    (∀ (host : String) (wall : Int) (now : Nat) (course : List Move) (id : String) (i : Nat)
      (m : Move), ((fresh host wall now).follow course).Paces m id i
        ((fresh host wall now).replies id i course)) ∧
    (∀ (w : World) (m : Move) (id : String), (∀ i draw, m ≠ .poll (.run id i) draw) →
      (w.move m).notes id = w.notes id) ∧
    ∀ (o : Options) (host nonce : String) (y : Candidacy),
      Candidacy.ofOptions o host nonce = .ok y →
      y.backoff? = if o.relaxations.noBackoff then none else o.backoff? := by
  refine ⟨fun host wall now course id i m => ?_, fun w m id => notes_move_of_ne,
    fun o host nonce y accepted => ?_⟩
  · exact (Counts.move (counts_follow host wall now course id i)
      (ordered_follow host wall now course) (narrated_follow host wall now course id i) m).1
  · obtain ⟨bucket, -, rfl, -⟩ := Candidacy.eq_of_ofOptions accepted
    rfl

/-- One contender holds the key, and another one has lost a campaign when it begins the next one. -/
def streak : List Move :=
  [.openPublisher "x" (.solo "45s") "r" "o" (some "b") {}, .startPublisher "x" false,
    .openPublisher "y" (.solo "45s") "r" "o" (some "b") {}, .startPublisher "y" false,
    .poll (.run "x" 0) 0, .poll (.run "y" 0) 0, .advance 10000000000]

theorem paced_streak :
    (fresh "h" 0 0).replies "y" 0 streak = [(.acquire, .error (.conflict "e.k"))] ∧
    ((((fresh "h" 0 0).follow streak).move (.poll (.run "y" 0) 0)).contenders.get? "y").map
      (·.runs.map (·.phase)) = some [.waiting 30000000000] ∧
    ((fresh "h" 0 0).follow streak).Paces (.poll (.run "y" 0) 0) "y" 0
      [(.acquire, .error (.conflict "e.k"))] ∧
    (((fresh "h" 0 0).follow streak).move (.poll (.run "x" 0) 0)).notes "y" =
      ((fresh "h" 0 0).follow streak).notes "y" ∧
    ∃ y, Candidacy.ofOptions (contenderFor "e" "k") "h" "0" = .ok y ∧ y.backoff? = none := by
  have given : (fresh "h" 0 0).replies "y" 0 streak = [(.acquire, .error (.conflict "e.k"))] := by
    decide +kernel
  have law := paced.1 "h" 0 0 streak "y" 0 (.poll (.run "y" 0) 0)
  rw [given] at law
  have others : ∀ i draw, Move.poll (.run "x" 0) 0 ≠ .poll (.run "y" i) draw := by
    intro i draw same
    simp at same
  have accepted : (Candidacy.ofOptions (contenderFor "e" "k") "h" "0").toOption.isSome = true := by
    decide +kernel
  refine ⟨given, by decide +kernel, law, paced.2.1 _ _ "y" others, ?_⟩
  cases hy : Candidacy.ofOptions (contenderFor "e" "k") "h" "0" with
  | error e =>
    rw [hy] at accepted
    cases accepted
  | ok y => exact ⟨y, rfl, paced.2.2 _ _ _ y hy⟩

end World

end Tenure
