import Tenure.Proofs.Election.Terms
import Tenure.Proofs.Heartbeat.Gauges
import Tenure.Proofs.World.Joined

/-!
# Calls of `run` that are turned away

At most one call of `run` of a contender is in the loop, and a publisher is started once. Further calls
do not count: everything else goes on as if they had not been made.

- **Two courses** (`Move.without`, `TurnedAway`, `joined_follow`): a course with a call that finds the
  loop taken when it has its first turn, and the same course without the call and its turns. Every
  other move does the same in both (`joined_move`).
- **One start** (`Started`, `Started.refuses`): a publisher that was started is not started again.
- **Together** (`runs_once`).
-/

namespace Tenure

open Election

/-! ## Two courses -/

/-- The move without the call of `run` at place `n`: the call has no turns and cannot be cancelled, and
later calls come one place earlier. -/
def Move.without (id : String) (n : Nat) : Move → Option Move
  | .poll (.run id' j) draw =>
    if id' = id then if j = n then none else some (.poll (.run id' (unseat n j)) draw)
    else some (.poll (.run id' j) draw)
  | .cancelRun id' j =>
    if id' = id then if j = n then none else some (.cancelRun id' (unseat n j))
    else some (.cancelRun id' j)
  | m => some m

namespace World

variable {w v : World} {id : String} {n : Nat} {x : Run} {c : Contender}

/-- A move other than a turn of the additional call does what it would do without that call, which at
most is cancelled by it. -/
theorem joined_move (seat : w.HasSeat id n) (m : Move) (h : ∀ draw, m ≠ .poll (.run id n) draw) :
    ∃ b, (w.joined id n x).move m =
      (w.follow (m.without id n).toList).joined id n { x with cancelled := b } := by
  have taken : w.isTaken id = true := by
    obtain ⟨c, hc, -⟩ := seat
    simp [isTaken, Table.contains, hc]
  have ne_of_free {id' : String} (free : ¬ w.isTaken id' = true) : id' ≠ id := by
    rintro rfl
    exact free taken
  cases m with
  | openContender id' options =>
    refine ⟨x.cancelled, ?_⟩
    show _ = (w.move (.openContender id' options)).joined id n x
    simp only [move, isTaken_joined]
    split
    · rfl
    · rename_i free
      unfold openContender
      rw [host_joined, nonce_joined]
      cases Candidacy.ofOptions options w.host w.nonce with
      | error e => rfl
      | ok y => exact w.enrol_joined (ne_of_free free) y
  | openPublisher id' config replicator outbox bucket? relaxations =>
    refine ⟨x.cancelled, ?_⟩
    show _ = (w.move (.openPublisher id' config replicator outbox bucket? relaxations)).joined id n x
    simp only [move, isTaken_joined]
    split
    · rfl
    · rename_i free
      unfold openPublisher
      rw [host_joined, nonce_joined]
      cases Publisher.ofConfig config replicator w.host outbox bucket? relaxations w.nonce with
      | error e => rfl
      | ok opened =>
        obtain ⟨p, y?⟩ := opened
        cases y? with
        | none => rfl
        | some y =>
          exact enrol_joined { w with publishers := w.publishers.insert id' p } (ne_of_free free) y
  | callRun id' cancelled => exact ⟨x.cancelled, start_joined seat id' cancelled false⟩
  | cancelRun id' j =>
    by_cases hid : id' = id
    · subst id'
      by_cases here : j = n
      · subst here
        obtain ⟨b, cancels⟩ := w.cancelRun_joined_self id j x
        refine ⟨b, cancels.trans ?_⟩
        simp only [Move.without, if_true, Option.toList_none, follow_nil]
      · have cancels := w.cancelRun_joined (n := n) (x := x) id id (unseat n j)
        unfold seatOf at cancels
        rw [if_pos rfl, seat_unseat here] at cancels
        refine ⟨x.cancelled, cancels.trans ?_⟩
        simp only [Move.without, if_true, if_neg here]
        rfl
    · have cancels := w.cancelRun_joined (n := n) (x := x) id id' j
      unfold seatOf at cancels
      rw [if_neg hid] at cancels
      refine ⟨x.cancelled, cancels.trans ?_⟩
      simp only [Move.without, if_neg hid]
      rfl
  | cancelContender id' => exact w.cancel_joined id id' n x false
  | startPublisher id' cancelled => exact startPublisher_joined seat id' cancelled
  | cancelPublisher id' => exact w.cancelPublisher_joined id id' n x
  | look id' =>
    exact ⟨x.cancelled, modifyContender_joined (fun _ _ _ => rfl) fun _ => ⟨rfl, rfl⟩⟩
  | poll task draw =>
    cases task with
    | run id' j =>
      by_cases hid : id' = id
      · subst id'
        have other : j ≠ n := by
          rintro rfl
          exact h draw rfl
        have turn := w.pollRun_joined id id n (unseat n j) draw x
        unfold seatOf at turn
        rw [if_pos rfl, seat_unseat other] at turn
        refine ⟨x.cancelled, turn.trans ?_⟩
        simp only [Move.without, if_true, if_neg other]
        rfl
      · have turn := w.pollRun_joined id id' n j draw x
        unfold seatOf at turn
        rw [if_neg hid] at turn
        refine ⟨x.cancelled, turn.trans ?_⟩
        simp only [Move.without, if_neg hid]
        rfl
    | loop id' j => exact ⟨x.cancelled, w.pollLoop_joined id id' j⟩
    | closing id' => exact ⟨x.cancelled, w.pollClosing_joined id id'⟩
    | stopping id' => exact w.pollStopping_joined id id' n x
  | _ => exact ⟨x.cancelled, rfl⟩

/-- If the move is a turn of the call of `run` at place `n` that has not begun, the loop is taken. -/
def TurnedAway (id : String) (n : Nat) (v : World) : Move → Prop
  | .poll (.run id' j) _ =>
    id' = id ∧ j = n ∧ ((v.contenders.get? id).bind (·.runs[n]?)).map (·.phase) = some .fresh →
      (v.contenders.get? id).map (·.looping) = some true
  | _ => True

instance (id : String) (n : Nat) (v : World) (m : Move) : Decidable (TurnedAway id n v m) := by
  unfold TurnedAway
  split <;> infer_instance

/-- The additional call in its turn. -/
theorem joined_turn (hc : w.contenders.get? id = some c) (fits : n ≤ c.runs.length)
    (idle : x.phase = .fresh ∨ x.phase = .over) (draw : Nat)
    (away : TurnedAway id n (w.joined id n x) (.poll (.run id n) draw)) :
    (w.joined id n x).move (.poll (.run id n) draw) = w.joined id n { x with phase := .over } := by
  have hc' : (w.joined id n x).contenders.get? id = some (c.withRun n x) := by
    unfold joined
    rw [get?_contenders_modify, if_pos rfl, hc, Option.map_some]
  have run := c.getElem?_withRun_self (x := x) fits
  show (w.joined id n x).pollRun id n draw = _
  unfold pollRun
  rw [hc']
  dsimp only
  rw [run]
  rcases idle with fresh | returned
  · have looping : c.looping = true := by
      have taken := away ⟨rfl, rfl, by rw [hc', Option.bind_some, run, Option.map_some, fresh]⟩
      rw [hc'] at taken
      exact Option.some.inj taken
    replace looping : (c.withRun n x).looping = true := looping
    simp only [fresh, looping, if_true]
    unfold joined modifyContender
    simp only [Table.modify_modify, Contender.setPhase, Contender.modifyRun_withRun_self]
  · simp only [returned]
    rw [← returned]

/-- What comes after a call of `run` that is turned away goes on as if the call had not been made. The
call is over if it has had a turn. -/
theorem joined_follow (seat : w.HasSeat id n) (idle : x.phase = .fresh ∨ x.phase = .over)
    {after : List Move} (away : (w.joined id n x).Through (TurnedAway id n) after) :
    ∃ x' : Run, (x'.phase = .over ∨ x'.phase = x.phase ∧ ∀ draw, .poll (.run id n) draw ∉ after) ∧
      (w.joined id n x).follow after =
        (w.follow (after.filterMap (Move.without id n))).joined id n x' := by
  induction after generalizing w x with
  | nil => exact ⟨x, .inr ⟨rfl, fun draw => List.not_mem_nil⟩, rfl⟩
  | cons m after ih =>
    by_cases turn : ∃ draw, m = .poll (.run id n) draw
    · obtain ⟨draw, rfl⟩ := turn
      obtain ⟨c, hc, fits⟩ := seat
      have without : Move.without id n (.poll (.run id n) draw) = none := by
        simp only [Move.without, if_true]
      have stays := joined_turn hc fits idle draw away.1
      have rest := away.2
      rw [stays] at rest
      obtain ⟨x', returned, follows⟩ := ih ⟨c, hc, fits⟩ (.inr rfl) rest
      refine ⟨x', .inl (returned.elim (fun h => h) And.left), ?_⟩
      rw [follow_cons, stays, follows, List.filterMap_cons_none without]
    · have other : ∀ draw, m ≠ .poll (.run id n) draw := fun draw h => turn ⟨draw, h⟩
      obtain ⟨b, moves⟩ := joined_move (x := x) seat m other
      have rest := away.2
      rw [moves] at rest
      have remains : (m :: after).filterMap (Move.without id n) =
          (m.without id n).toList ++ after.filterMap (Move.without id n) := by
        cases without : m.without id n <;> simp [without]
      obtain ⟨x', returned, follows⟩ := ih (x := { x with cancelled := b }) (seat.follow _) idle rest
      refine ⟨x', ?_, ?_⟩
      · rcases returned with returned | ⟨same, kept⟩
        · exact .inl returned
        · refine .inr ⟨same, fun draw h => ?_⟩
          rcases List.mem_cons.1 h with h | h
          · exact other draw h.symm
          · exact kept draw h
      · rw [follow_cons, moves, follows, remains, follow_append]

/-- A new call of `run` comes after all others. -/
theorem callRun_eq_joined (hc : w.contenders.get? id = some c) (cancelled : Bool) :
    w.callRun id cancelled = w.joined id c.runs.length { cancelled := cancelled } := by
  refine congrArg (fun t => { w with contenders := t }) (Table.modify_congr _ fun d hd => ?_)
  obtain rfl := Option.some.inj (hd.symm.trans hc)
  unfold Contender.start Contender.withRun
  rw [List.insertIdx_length_self]

/-! ## One start -/

variable {p : Publisher}

theorem started_follow {host : String} {wall : Int} {now : Nat} {before : List Move}
    (hp : ((fresh host wall now).follow before).publishers.get? id = some p) (cancelled : Bool)
    (after : List Move) :
    ((fresh host wall now).follow (before ++ .startPublisher id cancelled :: after)).Started id
      p.replicator := by
  induction after using List.reverseRecOn with
  | nil =>
    rw [follow_concat]
    exact started_startPublisher hp cancelled
  | append_singleton after m ih =>
    rw [← List.cons_append, ← List.append_assoc, follow_concat]
    exact ih.move (kempt_follow host wall now _).scheduled m

/-- A publisher that was started is not started again. -/
theorem Started.refuses {replicator : String} (h : w.Started id replicator) :
    w.runPublisher id = (w, .error (.invalidState (.alreadyRunning replicator))) := by
  obtain ⟨p, hp, started, rfl⟩ := h
  simp only [runPublisher, hp, started, if_true]

/-! ## Together -/

/-- One campaign loop per election, and one start per publisher. At most one call of `run` of a contender
has the loop. A call that finds it taken does nothing but return: the course is the one without the call,
its turns and its cancellation. A publisher that was started refuses any further start, which leaves
everything as it is. -/
theorem runs_once :
    (∀ (host : String) (wall : Int) (now : Nat) (course : List Move) (id : String) (c : Contender)
      (i j : Nat) (r s : Run), ((fresh host wall now).follow course).contenders.get? id = some c →
      c.runs[i]? = some r → c.runs[j]? = some s → r.phase.holdsLoop = true →
      s.phase.holdsLoop = true → i = j) ∧
    (∀ (w : World) (id : String) (c : Contender) (cancelled : Bool) (after : List Move),
      w.contenders.get? id = some c →
      (w.callRun id cancelled).Through (TurnedAway id c.runs.length) after →
      ∃ x : Run, (x.phase = .over ∨
          x.phase = .fresh ∧ ∀ draw, .poll (.run id c.runs.length) draw ∉ after) ∧
        (w.callRun id cancelled).follow after =
          (w.follow (after.filterMap (Move.without id c.runs.length))).joined id c.runs.length x) ∧
    ∀ (host : String) (wall : Int) (now : Nat) (before after : List Move) (id : String)
      (cancelled : Bool) (p : Publisher),
      ((fresh host wall now).follow before).publishers.get? id = some p →
      let w := (fresh host wall now).follow (before ++ .startPublisher id cancelled :: after)
      w.runPublisher id = (w, .error (.invalidState (.alreadyRunning p.replicator))) := by
  refine ⟨?_, ?_, ?_⟩
  · intro host wall now course id c i j r s hc hr hs holds holds'
    cases ordered_follow host wall now course hc with
    | resting _ _ idle => cases (idle hr).symm.trans holds
    | working work _ _ => exact (work.alone hr holds).trans (work.alone hs holds').symm
  · intro w id c cancelled after hc away
    rw [callRun_eq_joined hc] at away ⊢
    exact joined_follow ⟨c, hc, Nat.le_refl _⟩ (.inl rfl) away
  · intro host wall now before after id cancelled p hp
    exact (started_follow hp cancelled after).refuses

/-- A contender is leader. -/
def enthroned : List Move :=
  [.openContender "x" (contenderFor "e" "k"), .callRun "x" false, .poll (.run "x" 0) 0]

/-- After a second call of `run` there is a third one. All of them have turns. -/
def importuned : List Move :=
  [.callRun "x" false, .poll (.run "x" 1) 0, .advance 15000000000, .poll (.run "x" 0) 0,
    .poll (.run "x" 2) 0]

/-- A publisher without a gate. -/
def announced : List Move :=
  [.openPublisher "p" { Config.solo "45s" with leaderElection := false } "r" "o" none {}]

theorem runs_once_enthroned :
    (∀ c, ((fresh "h" 0 0).follow enthroned).contenders.get? "x" = some c →
      ∀ i r, c.runs[i]? = some r → r.phase.holdsLoop = true → i = 0) ∧
    (∃ x : Run, x.phase = .over ∧
      (((fresh "h" 0 0).follow enthroned).callRun "x" false).follow importuned =
        (((fresh "h" 0 0).follow enthroned).follow
          (importuned.filterMap (Move.without "x" 1))).joined "x" 1 x) ∧
    let w := (fresh "h" 0 0).follow (announced ++ .startPublisher "p" false :: [.cancelPublisher "p"])
    w.runPublisher "p" = (w, .error (.invalidState (.alreadyRunning "r"))) := by
  have once : (((fresh "h" 0 0).follow enthroned).contenders.get? "x").map
      (·.runs.map (·.phase)) = some [.waiting 15000000000] := by
    decide +kernel
  have opened : (((fresh "h" 0 0).follow announced).publishers.get? "p").map (·.replicator) =
      some "r" := by
    decide +kernel
  have away : (((fresh "h" 0 0).follow enthroned).callRun "x" false).Through
      (TurnedAway "x" 1) importuned := by
    decide +kernel
  obtain ⟨c, hc, phases⟩ := Option.map_eq_some_iff.1 once
  obtain ⟨p, hp, label⟩ := Option.map_eq_some_iff.1 opened
  have length : c.runs.length = 1 := by
    rw [← List.length_map (f := (·.phase)), phases]
    rfl
  obtain ⟨r₀, run⟩ : ∃ r, c.runs[0]? = some r := ⟨_, List.getElem?_eq_getElem (by omega)⟩
  have holds : r₀.phase.holdsLoop = true := by
    have phase := congrArg (·[0]?) phases
    simp only [List.getElem?_map, run, Option.map_some] at phase
    rw [Option.some.inj phase]
    rfl
  refine ⟨fun c' hc' i r hr holding => ?_, ?_, ?_⟩
  · obtain rfl := Option.some.inj (hc.symm.trans hc')
    exact runs_once.1 "h" 0 0 enthroned "x" c i 0 r r₀ hc hr run holding holds
  · rw [← length] at away
    obtain ⟨x, returned, same⟩ := runs_once.2.1 _ "x" c false importuned hc away
    rw [length] at returned same
    refine ⟨x, ?_, same⟩
    rcases returned with returned | ⟨-, unheard⟩
    · exact returned
    · exact absurd (by simp [importuned]) (unheard 0)
  · have refuses := runs_once.2.2 "h" 0 0 announced [.cancelPublisher "p"] "p" false p hp
    rwa [label] at refuses

end World

end Tenure
