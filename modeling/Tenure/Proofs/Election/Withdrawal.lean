import Tenure.Proofs.Election.Hearing
import Tenure.Proofs.Election.Renumbering
import Tenure.Proofs.World.Display

/-!
# Cancelled calls of `run`

A cancelled call of `run` does no more than leave the loop. The lease that it holds stays as it is.

- **Cancellation** (`Aside.run_of_cancelled`, `cancelled_follow`): a call of `run` that is cancelled
  stays so.
- **Leaving** (`pollRun_of_cancelled`, `Withdraws`): a turn of a cancelled call makes no call on the
  store, lets nobody hear of anything, and ends the call. If the call had the loop or finds it free,
  the contender is a candidate then, for watchers and in its gauge too (`Released`).
- **Beginning anew** (`BeginsAnew`, `begins_anew`): a call that takes the loop remembers nothing of
  the calls before it.
- **Together** (`withdrawal`).
-/

namespace Tenure

open Election Metrics

namespace Election

variable {c d : Contender} {i j : Nat} {r : Run}

/-! ## Cancellation -/

/-- What happens aside from turns leaves a cancelled call of `run` as it is. -/
theorem Aside.run_of_cancelled (h : Aside c d) (run : c.runs[j]? = some r)
    (cancelled : r.cancelled = true) : d.runs[j]? = some r := by
  induction h with
  | refl => exact run
  | look _ ih => exact ih
  | @cancel d _ t ih => exact (d.marks_cancel t).run_of_cancelled ih cancelled
  | @cancelRun d _ i ih => exact (d.marks_cancelRun i).run_of_cancelled ih cancelled
  | start _ b t ih =>
    unfold Contender.start
    rw [List.getElem?_append_left (List.getElem?_eq_some_iff.1 ih).1, ih]

end Election

namespace World

variable {w u : World} {id : String} {c d : Contender} {i : Nat} {r : Run} {y : Candidacy}

theorem cancelled_move (hc : w.contenders.get? id = some c) (run : c.runs[i]? = some r)
    (cancelled : r.cancelled = true) (m : Move) :
    ∃ c' r', (w.move m).contenders.get? id = some c' ∧ c'.runs[i]? = some r' ∧
      r'.cancelled = true := by
  obtain ⟨c', hc'⟩ := exists_contender_move hc m
  cases became hc' with
  | opened _ free _ _ => cases hc.symm.trans (eq_none_of_free free).1
  | aside was aside _ =>
    obtain rfl := Option.some.inj (hc.symm.trans was)
    exact ⟨c', r, hc', aside.run_of_cancelled run cancelled, cancelled⟩
  | turn _ was turn _ after =>
    obtain rfl := Option.some.inj (hc.symm.trans was)
    obtain ⟨r', run', same, -⟩ := turn.exists_run' run
    exact ⟨c', r', hc', after ▸ run', same.trans cancelled⟩

/-- A cancelled call of `run` stays cancelled. -/
theorem cancelled_follow (hc : w.contenders.get? id = some c) (run : c.runs[i]? = some r)
    (cancelled : r.cancelled = true) (later : List Move) :
    ∃ c' r', (w.follow later).contenders.get? id = some c' ∧ c'.runs[i]? = some r' ∧
      r'.cancelled = true := by
  induction later generalizing w c r with
  | nil => exact ⟨c, r, hc, run, cancelled⟩
  | cons m later ih =>
    obtain ⟨c', r', hc', run', cancelled'⟩ := cancelled_move hc run cancelled m
    exact ih hc' run' cancelled'

/-! ## Leaving -/

/-- A call of `run` that has ended does nothing. -/
theorem pollRun_of_over (hc : w.contenders.get? id = some c) (run : c.runs[i]? = some r)
    (ended : r.phase.isOver = true) (draw : Nat) : w.pollRun id i draw = w := by
  unfold pollRun
  simp only [hc, run]
  cases phase : r.phase with
  | fresh | calling | waiting =>
    rw [phase] at ended
    cases ended
  | _ => rfl

/-- A turn of a cancelled call of `run`: it has ended before, finds the loop taken, or leaves it. -/
theorem pollRun_of_cancelled (hc : w.contenders.get? id = some c) (run : c.runs[i]? = some r)
    (cancelled : r.cancelled = true) (draw : Nat) :
    (r.phase.isOver = true ∧ w.pollRun id i draw = w) ∨
    (r.phase = .fresh ∧ c.looping = true ∧
      w.pollRun id i draw = w.modifyContender id (·.setPhase i .over)) ∨
    (r.phase = .fresh ∧ c.looping = false ∧
      w.pollRun id i draw = (w.enterRun id i).leaveRun id i c.candidacy) ∨
    (r.phase.inLoop = true ∧ w.pollRun id i draw = w.leaveRun id i c.candidacy) := by
  unfold pollRun
  simp only [hc, run, cancelled, if_true]
  cases phase : r.phase with
  | fresh =>
    cases taken : c.looping with
    | true => exact .inr (.inl ⟨rfl, rfl, rfl⟩)
    | false => exact .inr (.inr (.inl ⟨rfl, rfl, rfl⟩))
  | calling | waiting => exact .inr (.inr (.inr ⟨rfl, rfl⟩))
  | _ => exact .inl ⟨rfl, rfl⟩

/-- The contender has left the loop: nobody is in it, and the contender is a candidate, for its watchers
and in its gauge too. -/
structure Released (v : World) (c : Contender) : Prop where
  free : c.looping = false
  standing : c.standing = .candidate
  posted : c.posted = .candidate
  shown : v.metrics.value c.candidacy.gauge = 0

theorem released_leaveRun (hd : u.contenders.get? id = some d) (run : d.runs[i]? = some r)
    (hy : d.candidacy = y) :
    ∃ c' r', (u.leaveRun id i y).contenders.get? id = some c' ∧ c'.runs[i]? = some r' ∧
      r'.phase = .over ∧ (u.leaveRun id i y).Released c' := by
  have left : (u.leaveRun id i y).contenders.get? id = some (d.leave i) := by
    apply (get?_contenders_modify ..).trans
    rw [if_pos rfl, hd, Option.map_some]
  refine ⟨d.leave i, _, left, by rw [Contender.getElem?_leave, if_pos rfl, run]; rfl, rfl, rfl, rfl,
    rfl, ?_⟩
  rw [Contender.candidacy_leave, hy]
  exact Registry.value_setFlag_self ..

/-- What a turn of a cancelled call of `run` does. It leaves the stores as they are, and nobody hears of
anything: no call on the store begins or acts, and neither the listener nor the backoff is called. If
the call has not ended it need not wait for its turn, and ends in it. Then it has left the loop, unless
another call was in it. -/
structure Withdraws (w : World) (id : String) (i draw : Nat) : Prop where
  stores : (w.move (.poll (.run id i) draw)).buckets = w.buckets
  silent : (w.move (.poll (.run id i) draw)).history = w.history
  ready : ∀ c r, w.contenders.get? id = some c → c.runs[i]? = some r → r.phase.isOver = false →
    w.isReady (.run id i) = true
  ends : ∀ c r, w.contenders.get? id = some c → c.runs[i]? = some r → r.phase.isOver = false →
    ∃ c' r', (w.move (.poll (.run id i) draw)).contenders.get? id = some c' ∧
      c'.runs[i]? = some r' ∧ r'.phase = .over ∧
      ((w.move (.poll (.run id i) draw)).Released c' ∨
        r.phase = .fresh ∧ c.looping = true ∧
          w.move (.poll (.run id i) draw) = w.modifyContender id (·.setPhase i .over))

/-- A cancelled call of `run` that has not ended can have a turn at any time. -/
theorem isReady_of_cancelled (hc : w.contenders.get? id = some c) (run : c.runs[i]? = some r)
    (cancelled : r.cancelled = true) (active : r.phase.isOver = false) :
    w.isReady (.run id i) = true := by
  show (((w.contenders.get? id).bind (·.runs[i]?)).map (·.isReady w.now)).getD false = true
  rw [hc, Option.bind_some, run, Option.map_some, Option.getD_some]
  unfold Run.isReady
  rw [cancelled]
  cases phase : r.phase with
  | fresh | calling | waiting => rfl
  | _ =>
    rw [phase] at active
    cases active

theorem withdraws (hc : w.contenders.get? id = some c) (run : c.runs[i]? = some r)
    (cancelled : r.cancelled = true) (draw : Nat) : w.Withdraws id i draw := by
  have poll : w.move (.poll (.run id i) draw) = w.pollRun id i draw := rfl
  have turn := pollRun_of_cancelled hc run cancelled draw
  have kept : (w.pollRun id i draw).buckets = w.buckets ∧
      (w.pollRun id i draw).history = w.history := by
    rcases turn with ⟨-, after⟩ | ⟨-, -, after⟩ | ⟨-, -, after⟩ | ⟨-, after⟩ <;> rw [after] <;>
      exact ⟨rfl, rfl⟩
  refine ⟨kept.1, kept.2, fun c₀ r₀ hc₀ run₀ active => ?_, fun c₀ r₀ hc₀ run₀ active => ?_⟩
  · obtain rfl := Option.some.inj (hc.symm.trans hc₀)
    obtain rfl := Option.some.inj (run.symm.trans run₀)
    exact isReady_of_cancelled hc run cancelled active
  · obtain rfl := Option.some.inj (hc.symm.trans hc₀)
    obtain rfl := Option.some.inj (run.symm.trans run₀)
    rcases turn with ⟨ended, -⟩ | ⟨fresh, taken, after⟩ | ⟨-, -, after⟩ | ⟨-, after⟩
    · rw [active] at ended
      cases ended
    · refine ⟨c.setPhase i .over, { r with phase := .over }, ?_, ?_, rfl,
        .inr ⟨fresh, taken, poll.trans after⟩⟩
      · rw [poll, after, get?_contenders_modify, if_pos rfl, hc, Option.map_some]
      · rw [Contender.getElem?_setPhase, if_pos rfl, run, Option.map_some]
    · rw [poll, after]
      have entered : (w.enterRun id i).contenders.get? id = some (c.enter i) := by
        apply (get?_contenders_modify ..).trans
        rw [if_pos rfl, hc]
        rfl
      have within : (c.enter i).runs[i]? = some { r with ledger := {} } := by
        simp [Contender.enter, run]
      obtain ⟨c', r', hc', run', returned, released⟩ := released_leaveRun entered within rfl
      exact ⟨c', r', hc', run', returned, .inl released⟩
    · rw [poll, after]
      obtain ⟨c', r', hc', run', returned, released⟩ := released_leaveRun hc run rfl
      exact ⟨c', r', hc', run', returned, .inl released⟩

/-! ## Beginning anew -/

/-- In a turn of a call of `run` a campaign begins that tries to write the key. Either it ends as the
first campaign of all does that gets this answer, or there is no answer: the call on the store is held
back, or breaks off. Whatever has been before is not remembered. -/
inductive BeginsAnew (w : World) (id : String) (i draw : Nat) (y : Candidacy) : Prop
  | answered {a : Answer} {c : Contender} {r : Run}
      (tells : w.voiced id i (.poll (.run id i) draw) = .asked .acquire :: .answered .acquire a ::
        ((conclude y.backoff? .candidate {} (some a)).notes ++
          (conclude y.backoff? .candidate {} (some a)).wait.notes draw))
      (contender : (w.move (.poll (.run id i) draw)).contenders.get? id = some c)
      (run : c.runs[i]? = some r) (looping : c.looping = true)
      (standing : c.standing = standingAfter (some a))
      (ledger : r.ledger = ({} : Ledger).after .candidate (some a))
  | unanswered {c : Contender} {r : Run}
      (tells : w.voiced id i (.poll (.run id i) draw) = [.asked .acquire])
      (contender : (w.move (.poll (.run id i) draw)).contenders.get? id = some c)
      (run : c.runs[i]? = some r) (looping : c.looping = true) (standing : c.standing = .candidate)
      (ledger : r.ledger = {})

/-- A call of `run` that is not cancelled and finds the loop free begins anew. -/
theorem begins_anew (ordered : Orderly c) (hc : w.contenders.get? id = some c)
    (run : c.runs[i]? = some r) (phase : r.phase = .fresh) (free : c.looping = false)
    (active : r.cancelled = false) (draw : Nat) : w.BeginsAnew id i draw c.candidacy := by
  have standing : c.standing = .candidate := by
    cases ordered with
    | resting _ standing _ => exact standing
    | working work _ _ => cases free.symm.trans work.looping
  generalize hs : (w.bucket c.candidacy.bucket).store = s
  have turn := pollRun_turn hc i draw
  have enters : (c.enter i).runs[i]? = some { r with ledger := {} } := by
    simp [Contender.enter, run]
  -- the turn is that of a campaign of a candidate with an empty ledger
  have campaign : c.turn w.now (w.bucket c.candidacy.bucket).delay draw s i =
      if (w.bucket c.candidacy.bucket).delay = 0 then
        (c.enter i).act w.now draw s i { r with ledger := {} } [.asked .acquire] .acquire
      else ⟨(c.enter i).setPhase i (.calling .acquire w.now
        (Clock.wake w.now (w.bucket c.candidacy.bucket).delay)), s, [.asked .acquire]⟩ := by
    have entered : (c.enter i).standing = .candidate := standing
    simp only [Contender.turn, run, phase, free, active, Bool.false_eq_true, if_false,
      Contender.campaign, entered, request?]
  rw [hs, campaign] at turn
  have held {p : Phase} {o : Election.Outcome}
      (effect : Effect w id c.candidacy o (w.pollRun id i draw))
      (after : o.contender = (c.enter i).setPhase i p) (tells : o.notes = [.asked .acquire]) :
      w.BeginsAnew id i draw c.candidacy := by
    refine .unanswered (r := { r with ledger := {}, phase := p })
      ((voiced_of_effect rfl effect).trans tells) ((effect.contenders id).trans (if_pos rfl)) ?_
      (after ▸ rfl) (after ▸ standing) rfl
    rw [after, Contender.getElem?_setPhase, if_pos rfl, enters]
    rfl
  split at turn
  · cases ha : perform s w.now c.candidacy .acquire with
    | mk u a =>
      have performs : perform s w.now (c.enter i).candidacy .acquire = (u, a) := ha
      simp only [Contender.act, performs] at turn
      split at turn
      · exact held turn rfl rfl
      · have concludes : (c.enter i).conclusion { r with ledger := {} } (some a) =
            conclude c.candidacy.backoff? .candidate {} (some a) := by
          rw [← standing]
          rfl
        rw [concludes] at turn
        refine .answered (r := { r with
            ledger := ({} : Ledger).after .candidate (some a)
            phase := (conclude c.candidacy.backoff? .candidate {} (some a)).wait.phase w.now
              c.candidacy.interval draw })
          (voiced_of_effect rfl turn) ((turn.contenders id).trans (if_pos rfl)) ?_ ?_ ?_ rfl
        · rw [Contender.getElem?_concluded, if_pos rfl, enters]
          rfl
        · rw [Contender.looping_concluded]
          rfl
        · rw [Contender.standing_concluded]
          rfl
  · exact held turn rfl rfl

/-! ## Together -/

/-- Cancelling marks some calls of `run` of a contender as cancelled and does nothing else to it. Nothing
is recorded, and the stores and metrics stay as they are. -/
structure Cancels (w v : World) (id : String) (which : Nat → Run → Bool) : Prop where
  buckets : v.buckets = w.buckets
  history : v.history = w.history
  metrics : v.metrics = w.metrics
  contender : ∀ c, w.contenders.get? id = some c → v.contenders.get? id = some { c with
    runs := c.runs.mapIdx fun i r => if which i r then { r with cancelled := true } else r }

theorem cancels_modifyContender (w : World) (id : String) {f : Contender → Contender}
    {which : Nat → Run → Bool} (hf : ∀ c, f c = { c with
      runs := c.runs.mapIdx fun i r => if which i r then { r with cancelled := true } else r }) :
    w.Cancels (w.modifyContender id f) id which where
  buckets := rfl
  history := rfl
  metrics := rfl
  contender c hc := by
    rw [get?_contenders_modify, if_pos rfl, hc, Option.map_some, hf]

theorem cancels_cancel (w : World) (id : String) (tied : Bool) :
    w.Cancels (w.modifyContender id (·.cancel tied)) id fun _ r => r.tied == tied :=
  cancels_modifyContender w id fun c => by
    unfold Contender.cancel
    congr 1
    apply List.ext_getElem?
    simp

theorem cancels_cancelRun (w : World) (id : String) (i : Nat) :
    w.Cancels (w.cancelRun id i) id fun j r => j == i && !r.tied :=
  cancels_modifyContender w id fun c => by
    unfold Contender.cancelRun Contender.modifyRun
    congr 1
    apply List.ext_getElem?
    intro j
    by_cases hij : i = j
    · subst hij
      simp only [List.getElem?_modify, List.getElem?_mapIdx, if_true, beq_self_eq_true, Bool.true_and,
        Option.map_eq_map]
      congr 1
      funext r
      cases htied : r.tied <;> simp
    · simp [hij, Ne.symm hij]

/-- A cancelled call of `run` is cut off. A publisher cancels its own call, anybody else their own, one
by one or together. From the cancellation on, the turns of the call leave the stores and the history as
they are, and at its end the contender is a candidate that has left the loop. Whoever takes the loop then
begins anew. -/
theorem withdrawal :
    (∀ (w : World) (id : String),
      w.Cancels (w.cancelPublisher id) id (fun _ r => r.tied) ∧
      w.Cancels (w.cancelContender id) id (fun _ r => !r.tied) ∧
      ∀ i, w.Cancels (w.cancelRun id i) id fun j r => j == i && !r.tied) ∧
    (∀ (w : World) (id : String) (c : Contender) (i : Nat) (r : Run),
      w.contenders.get? id = some c → c.runs[i]? = some r → r.cancelled = true →
      ∀ later draw, (w.follow later).Withdraws id i draw) ∧
    ∀ (host : String) (wall : Int) (now : Nat) (course : List Move) (id : String) (c : Contender)
      (i : Nat) (r : Run) (draw : Nat),
      ((fresh host wall now).follow course).contenders.get? id = some c → c.runs[i]? = some r →
      r.phase = .fresh → r.cancelled = false → c.looping = false →
      ((fresh host wall now).follow course).BeginsAnew id i draw c.candidacy := by
  refine ⟨fun w id => ⟨?_, ?_, cancels_cancelRun w id⟩, ?_, ?_⟩
  · have cancels := cancels_cancel (w.modifyPublisher id fun p => { p with cancelled := true }) id true
    simp only [beq_true] at cancels
    exact ⟨cancels.buckets, cancels.history, cancels.metrics, cancels.contender⟩
  · have cancels := cancels_cancel w id false
    simp only [beq_false] at cancels
    exact cancels
  · intro w id c i r hc run cancelled later draw
    obtain ⟨c', r', hc', run', cancelled'⟩ := cancelled_follow hc run cancelled later
    exact withdraws hc' run' cancelled' draw
  · intro host wall now course id c i r draw hc run phase active free
    exact begins_anew (ordered_follow host wall now course hc) hc run phase free active draw

/-- A leader makes a renewal that is on its way for a second. -/
def dismissal : List Move :=
  [.openContender "x" (contenderFor "e" "k"), .callRun "x" false, .poll (.run "x" 0) 0,
    .setStoreDelay "m" 1000000000, .advance 15000000000, .poll (.run "x" 0) 0]

/-- It is cancelled, and its call of `run` has a turn when the renewal would act. There is a new call. -/
def reinstatement : List Move :=
  [.cancelContender "x", .advance 2000000000, .poll (.run "x" 0) 0, .callRun "x" false]

theorem withdrawal_dismissal :
    ((fresh "h" 0 0).follow dismissal).Cancels
      (((fresh "h" 0 0).follow dismissal).cancelContender "x") "x" (fun _ r => !r.tied) ∧
    (((fresh "h" 0 0).follow (dismissal ++ reinstatement.take 1)).follow [.advance 2000000000]).Withdraws
      "x" 0 0 ∧
    ((((fresh "h" 0 0).follow (dismissal ++ reinstatement)).bucket "m").store.rows.get? "e.k").map
      (fun row => (row.revision, row.deadline)) = some (1, 30000000000) ∧
    ∃ y, ((fresh "h" 0 0).follow (dismissal ++ reinstatement)).BeginsAnew "x" 1 0 y := by
  have cut : (((fresh "h" 0 0).follow (dismissal ++ reinstatement.take 1)).contenders.get? "x").map
      (·.runs) = some [⟨.calling (.renew 1) 15000000000 16000000000, ⟨1, some 1, 0⟩, true, false⟩] := by
    decide +kernel
  have again : (((fresh "h" 0 0).follow (dismissal ++ reinstatement)).contenders.get? "x").map
      (fun c => (c.runs.map (·.phase), c.runs.map (·.cancelled), c.looping)) =
        some ([.over, .fresh], [true, false], false) := by
    decide +kernel
  obtain ⟨c, hc, runs⟩ := Option.map_eq_some_iff.1 cut
  obtain ⟨d, hd, state⟩ := Option.map_eq_some_iff.1 again
  simp only [Prod.mk.injEq] at state
  obtain ⟨phases, cancelled, free⟩ := state
  have run : ∃ r, d.runs[1]? = some r := by
    have length := congrArg List.length phases
    rw [List.length_map] at length
    exact ⟨_, List.getElem?_eq_getElem (by rw [length]; decide)⟩
  obtain ⟨r, run⟩ := run
  have phase := congrArg (·[1]?) phases
  have active := congrArg (·[1]?) cancelled
  simp only [List.getElem?_map, run] at phase active
  refine ⟨(withdrawal.1 _ "x").2.1, ?_, by decide +kernel, d.candidacy, ?_⟩
  · exact withdrawal.2.1 _ "x" c 0 _ hc (by rw [runs]; rfl) rfl [.advance 2000000000] 0
  · exact withdrawal.2.2 "h" 0 0 _ "x" d 1 r 0 hd run (Option.some.inj phase)
      (Option.some.inj active) free

end World

end Tenure
