import Tenure.Proofs.Heartbeat.Gauges

/-!
# The cadence of heartbeats

A loop of a publisher ticks at the multiples of its interval after its start, whatever becomes of its
heartbeats: rounding to whole milliseconds does not add up, and neither suspensions nor refusals nor other
loops shift a tick.

- **Ticks** (`beats`, `ticks`): what a loop does in a move, and the ticks of a loop on a course.
- **The schedule** (`Schedule.tickAt`, `Tick.Regular`): when a tick is due, and what the loop does at it.
- **Turns** (`Moved`, `moved`): in a move a loop has a turn, or stays where it is and does nothing.
- **Courses** (`Clockwork`, `Cadent`, `cadence`): a loop whose timers fire on time keeps to the schedule.
  Timers wait for thirty years at most, and so do tickers between ticks (`cadence_cut`).
-/

namespace Tenure

/-- What a loop does, if the event is its own. -/
def Event.beat? (id : String) (j : Nat) (e : Event) : Option Happening :=
  if e.source = .loop id j then some e.what else none

/-- When the `k`-th tick of a loop is due that is started at `start`, counted from zero. -/
def Schedule.tickAt (s : Schedule) (start k : Nat) : Nat :=
  start + s.interval.nanos + k * Clock.cut s.interval.nanos

/-- The ticks are due at the multiples of an interval that is not too long. -/
theorem Schedule.tickAt_of_le {s : Schedule} (h : s.interval.nanos ≤ Clock.longestWait)
    (start k : Nat) : s.tickAt start k = start + (k + 1) * s.interval.nanos := by
  unfold tickAt
  rw [Clock.cut_of_le h, Nat.add_mul, Nat.one_mul]
  omega

theorem Schedule.tickAt_succ (s : Schedule) (start k : Nat) :
    s.tickAt start (k + 1) = s.tickAt start k + Clock.cut s.interval.nanos := by
  unfold tickAt
  rw [Nat.add_mul, Nat.one_mul]
  omega

theorem Schedule.tickAt_mono (s : Schedule) (start : Nat) {k n : Nat} (h : k ≤ n) :
    s.tickAt start k ≤ s.tickAt start n :=
  Nat.add_le_add_left (Nat.mul_le_mul_right _ h) _

/-- A tick of a loop. -/
structure Tick where
  /-- When it came. -/
  time : Nat
  /-- Whether publication was suspended. -/
  suspended : Bool
  /-- What the loop did, in order. -/
  happenings : List Happening

/-- The `k`-th tick as it should be. It comes at the first whole millisecond at which it is due. The loop
makes one attempt to publish, or lets the tick pass if publication is suspended. -/
structure Tick.Regular (tick : Tick) (s : Schedule) (start k : Nat) : Prop where
  onTime : Clock.millis tick.time = Clock.dueMillis (s.tickAt start k)
  passed : tick.suspended = true → tick.happenings = [.passed]
  sent : tick.suspended = false → ∃ m answer, tick.happenings = [.sending m, .sent s.subject answer] ∧
    m.subject = s.subject

namespace World

variable {w : World} {m : Move} {id : String} {j : Nat} {p : Publisher}

/-! ## Ticks -/

/-- What a loop does in a move, in order. -/
def beats (w : World) (id : String) (j : Nat) (m : Move) : List Happening :=
  ((w.added m).filterMap (·.beat? id j)).reverse

/-- Whether publication is suspended. -/
def isSuspended (w : World) (id : String) : Bool :=
  ((w.publishers.get? id).map fun p => p.gated && p.paused).getD false

/-- The tick of a loop in a move. There is one if the loop does anything. -/
def tick (w : World) (id : String) (j : Nat) (m : Move) : List Tick :=
  match w.beats id j m with
  | [] => []
  | happenings => [⟨w.now, w.isSuspended id, happenings⟩]

/-- The ticks of a loop on a course, in order. -/
def ticks (w : World) (id : String) (j : Nat) : List Move → List Tick
  | [] => []
  | m :: course => w.tick id j m ++ (w.move m).ticks id j course

theorem beats_of_history (h : (w.move m).history = w.history) : w.beats id j m = [] := by
  unfold beats
  rw [@added_eq _ _ [] h]
  rfl

/-- What is recorded in a turn of a loop is what this loop does. -/
theorem BeatEffect.beats {id' : String} {j' : Nat} {o : Publisher.Outcome}
    (h : BeatEffect w id' j' p o (w.move m)) :
    w.beats id j m = if id' = id ∧ j' = j then o.happenings else [] := by
  unfold World.beats
  rw [added_eq h.history, ← List.map_reverse, List.filterMap_map, ← List.filterMap_reverse,
    List.reverse_reverse]
  by_cases own : id' = id ∧ j' = j
  · obtain ⟨rfl, rfl⟩ := own
    rw [if_pos ⟨rfl, rfl⟩]
    simp [Function.comp_def, Event.beat?]
  · rw [if_neg own]
    simp [Function.comp_def, Event.beat?, own]

/-! ## Turns -/

end World

/-- After a turn of a loop not all loops are as they are at the start, unless nothing happens. -/
theorem Publisher.Beat.loops_of_new {now : Nat} {wall : Int} {p : Publisher} {box : Outbox} {j : Nat}
    {o : Publisher.Outcome} (b : p.Beat now wall box j o)
    (new : o.publisher.loops = p.schedules.map fun s => { schedule := s }) :
    o.publisher.loops = p.loops := by
  -- the loop that has its turn would be somewhere else
  have moved {l : Loop} {phase : Phase} (loop : p.loops[j]? = some l) (hne : phase ≠ .fresh)
      (new : (p.setPhase j phase).loops = p.schedules.map fun s => { schedule := s }) : False := by
    have here := congrArg (·[j]?) new
    simp only [getElem?_setPhase, loop, if_true, Option.map_some, List.getElem?_map] at here
    obtain ⟨s, -, same⟩ := Option.map_eq_some_iff.1 here.symm
    exact hne (congrArg Loop.phase same).symm
  cases b with
  | still => rfl
  | ends loop | begins loop | passes loop | launches loop | sends loop | completes loop =>
    exact (moved loop (by intro h; cases h) new).elim

namespace World

variable {w : World} {m : Move} {id : String} {j : Nat} {p : Publisher}

/-- What a move makes of a publisher that was started: one of its loops has a turn, or all of them stay
where they are and do nothing. -/
inductive Moved (w : World) (m : Move) (id : String) (p : Publisher) : Publisher → Prop
  | beat {j draw : Nat} {o : Publisher.Outcome} (poll : m = .poll (.loop id j) draw)
      (beat : p.Beat w.now w.wall (w.outbox p.outbox) j o) (effect : BeatEffect w id j p o (w.move m)) :
      Moved w m id p o.publisher
  | rests {p' : Publisher} (aside : p.Aside p') (loops : p'.loops = p.loops)
      (quiet : ∀ j, w.beats id j m = []) : Moved w m id p p'

theorem moved (hp : w.publishers.get? id = some p) (started : p.started = true)
    (scheduled : w.Scheduled) (m : Move) :
    ∃ p', (w.move m).publishers.get? id = some p' ∧ Moved w m id p p' := by
  cases w.played m with
  | @turn id' c i draw o poll was turn effect =>
    have quiet (j : Nat) : w.beats id j m = [] := by
      unfold beats
      rw [added_eq effect.history, ← List.map_reverse, List.filterMap_map]
      simp [Function.comp_def, Event.beat?]
    have after := effect.publishers id
    rw [hp] at after
    split at after
    · obtain ⟨paused, heard⟩ := p.hearAll_eq o.notes
      exact ⟨_, after, .rests (p.aside_hearAll _) (by
        show (p.hearAll o.notes).loops = p.loops
        rw [heard]) quiet⟩
    · exact ⟨p, after, .rests (.refl p) rfl quiet⟩
  | @beat id' q j draw o poll was beat effect =>
    have after := effect.publishers id
    by_cases hid : id' = id
    · subst id'
      obtain rfl := Option.some.inj (hp.symm.trans was)
      rw [if_pos rfl] at after
      exact ⟨o.publisher, after, .beat poll beat effect⟩
    · rw [if_neg hid, hp] at after
      exact ⟨p, after, .rests (.refl p) rfl fun j' =>
        effect.beats.trans (if_neg fun h => hid h.1)⟩
  | call called =>
    obtain ⟨p', hp', fares⟩ := hasFate hp scheduled m
    have aside : p.Aside p' := by
      rcases called.publishers id with ⟨q, -, free, -⟩ | rel
      · cases hp.symm.trans (eq_none_of_free free).2
      · rw [hp, hp'] at rel
        cases rel with
        | some aside => exact aside
    refine ⟨p', hp', .rests aside ?_ fun j => beats_of_history called.recast.history⟩
    rcases aside.loops with same | new
    · exact same
    · cases fares with
      | @turn c i draw o =>
        split
        · obtain ⟨paused, heard⟩ := p.hearAll_eq o.notes
          rw [heard]
        · rfl
      | beat _ beat => exact beat.loops_of_new new
      | closes | aside => rfl
      | starts _ fresh => cases fresh.symm.trans started
  | stage staged =>
    rw [staged.publishers]
    exact ⟨p, hp, .rests (.refl p) rfl fun j => beats_of_history staged.history⟩

/-! ## Ticks on time -/

end World

/-- The timers of a loop that was started at `start` fire on time: the loop begins at once, and it does
not wait beyond the first whole millisecond at which its next tick is due. -/
def Publisher.Phase.OnTime (now start : Nat) : Publisher.Phase → Prop
  | .fresh => now = start
  | .idle t => Clock.millis now ≤ Clock.dueMillis t.next
  | _ => True

instance (now start : Nat) : DecidablePred (Publisher.Phase.OnTime now start) := fun phase => by
  cases phase <;> unfold Publisher.Phase.OnTime <;> infer_instance

/-- Where a loop stands that was started at `start` and has had `n` ticks. -/
def Publisher.Phase.Awaits (s : Schedule) (start n : Nat) (phase : Publisher.Phase) : Prop :=
  (phase = .fresh ∧ n = 0) ∨ phase = .idle ⟨Clock.cut s.interval.nanos, s.tickAt start n⟩

/-- A tick that comes on time leaves the ticker waiting for the next one on the schedule. -/
theorem Schedule.tick_of_onTime {s : Schedule} {start now n : Nat}
    (onTime : Clock.millis now ≤ Clock.dueMillis (s.tickAt start n)) :
    Ticker.tick ⟨Clock.cut s.interval.nanos, s.tickAt start n⟩ now =
      ⟨Clock.cut s.interval.nanos, s.tickAt start (n + 1)⟩ := by
  have late := Clock.lt_of_millis_le onTime
  have next : (Ticker.tick ⟨Clock.cut s.interval.nanos, s.tickAt start n⟩ now).next =
      s.tickAt start n + Clock.cut s.interval.nanos := by
    apply Ticker.next_tick_of_le
    unfold Ticker.tolerance
    show now ≤ s.tickAt start n + _
    omega
  rw [Schedule.tickAt_succ, ← next]
  rfl

namespace Publisher

variable {now : Nat} {wall : Int} {p : Publisher} {box : Outbox} {j k start n : Nat} {o : Outcome}
  {l : Loop}

theorem Beat.getElem?_of_ne (b : p.Beat now wall box j o) (h : j ≠ k) :
    o.publisher.loops[k]? = p.loops[k]? := by
  cases b with
  | still => rfl
  | ends | begins | passes | launches | sends | completes => rw [getElem?_setPhase, if_neg h]

/-- A turn of a loop that is on time: nothing happens, or the next tick comes as it should. -/
theorem Beat.regular (b : p.Beat now wall box j o) (loop : p.loops[j]? = some l)
    (running : p.cancelled = false) (instant : box.delay = 0) (onTime : l.phase.OnTime now start)
    (awaits : l.phase.Awaits l.schedule start n) :
    ∃ l', o.publisher.loops[j]? = some l' ∧ l'.schedule = l.schedule ∧
      ((o.happenings = [] ∧ l'.phase.Awaits l.schedule start n) ∨
        o.happenings ≠ [] ∧
          Tick.Regular ⟨now, p.gated && p.paused, o.happenings⟩ l.schedule start n ∧
          l'.phase.Awaits l.schedule start (n + 1)) := by
  have moves {phase : Phase} :
      (p.setPhase j phase).loops[j]? = some { l with phase := phase } := by
    rw [getElem?_setPhase, if_pos rfl, loop, Option.map_some]
  -- a tick comes at the first whole millisecond at which it is due, and the next one is on schedule
  have comes {t : Ticker} (phase : l.phase = .idle t) (due : t.isDue now = true) :
      Clock.millis now = Clock.dueMillis (l.schedule.tickAt start n) ∧
        t.tick now = ⟨Clock.cut l.schedule.interval.nanos, l.schedule.tickAt start (n + 1)⟩ := by
    rw [phase] at onTime awaits
    rcases awaits with ⟨fresh, -⟩ | same
    · cases fresh
    · cases same
      exact ⟨Nat.le_antisymm onTime (Clock.hasFired_iff.1 due), Schedule.tick_of_onTime onTime⟩
  cases b with
  | still => exact ⟨l, loop, rfl, .inl ⟨rfl, awaits⟩⟩
  | ends _ cancelled => cases running.symm.trans cancelled
  | @begins l' loop' _ phase =>
    obtain rfl := Option.some.inj (loop.symm.trans loop')
    rw [phase] at onTime awaits
    rcases awaits with ⟨-, rfl⟩ | idle
    · refine ⟨_, moves, rfl, .inl ⟨rfl, .inr ?_⟩⟩
      obtain rfl : now = start := onTime
      unfold Ticker.start Schedule.tickAt
      rw [Nat.zero_mul, Nat.add_zero]
    · cases idle
  | @passes l' t loop' _ phase due suspended =>
    obtain rfl := Option.some.inj (loop.symm.trans loop')
    obtain ⟨time, next⟩ := comes phase due
    refine ⟨_, moves, rfl, .inr ⟨by simp, ⟨time, fun _ => rfl, fun h => ?_⟩, .inr ?_⟩⟩
    · cases suspended.symm.trans h
    · rw [next]
  | @sends l' t loop' _ phase due allowed _ =>
    obtain rfl := Option.some.inj (loop.symm.trans loop')
    obtain ⟨time, next⟩ := comes phase due
    refine ⟨_, moves, rfl, .inr ⟨by simp, ⟨time, fun h => ?_, fun _ => ?_⟩, .inr ?_⟩⟩
    · cases allowed.symm.trans h
    · exact ⟨_, _, rfl, rfl⟩
    · rw [next]
  | launches _ _ _ _ _ held => exact absurd instant held
  | @completes l' t message due loop' _ phase _ =>
    obtain rfl := Option.some.inj (loop.symm.trans loop')
    rw [phase] at awaits
    rcases awaits with ⟨fresh, -⟩ | idle
    · cases fresh
    · cases idle

end Publisher

/-! ## Courses -/

namespace World

variable {w : World} {m : Move} {id : String} {j start : Nat} {p : Publisher} {s : Schedule}
  {ticks : List Tick}

/-- The outbox of the publisher answers at once, and the timers of the loop fire on time. -/
def Clockwork (id : String) (j start : Nat) (w : World) : Prop :=
  ∀ p ∈ w.publishers.get? id, (w.outbox p.outbox).delay = 0 ∧
    ∀ l ∈ p.loops[j]?, l.phase.OnTime w.now start

instance (id : String) (j start : Nat) : DecidablePred (Clockwork id j start) := fun w => by
  unfold Clockwork
  infer_instance

/-- A loop has kept to its schedule, and if it has not been cancelled it awaits the next tick. -/
structure Cadent (w : World) (id : String) (j start : Nat) (s : Schedule) (ticks : List Tick) :
    Prop where
  regular : ∀ (k : Nat) (tick : Tick), ticks[k]? = some tick → tick.Regular s start k
  stands : ∃ p l, w.publishers.get? id = some p ∧ p.started = true ∧ p.loops[j]? = some l ∧
    l.schedule = s ∧ (p.cancelled = false → l.phase.Awaits s start ticks.length)

/-- One more tick. -/
theorem regular_concat {tick : Tick}
    (regular : ∀ (k : Nat) (tick : Tick), ticks[k]? = some tick → tick.Regular s start k)
    (next : tick.Regular s start ticks.length) (k : Nat) (t : Tick)
    (ht : (ticks ++ [tick])[k]? = some t) : t.Regular s start k := by
  rw [List.getElem?_append] at ht
  split at ht
  · exact regular k t ht
  · rename_i last
    rw [List.getElem?_singleton] at ht
    split at ht
    · cases ht
      rwa [show k = ticks.length by omega]
    · cases ht

theorem tick_eq_nil (h : w.beats id j m = []) : w.tick id j m = [] := by
  unfold tick
  rw [h]

theorem Cadent.move (h : w.Cadent id j start s ticks) (scheduled : w.Scheduled)
    (clockwork : w.Clockwork id j start) (m : Move) :
    (w.move m).Cadent id j start s (ticks ++ w.tick id j m) := by
  obtain ⟨p, l, hp, started, loop, rfl, awaits⟩ := h.stands
  obtain ⟨instant, onTime⟩ := clockwork p hp
  obtain ⟨p', hp', moved⟩ := moved hp started scheduled m
  obtain ⟨q, hq, started', -⟩ := Started.move ⟨p, hp, started, rfl⟩ scheduled m
  obtain rfl := Option.some.inj (hp'.symm.trans hq)
  cases moved with
  | rests aside loops quiet =>
    rw [tick_eq_nil (quiet j), List.append_nil]
    refine ⟨h.regular, p', l, hp', started', by rw [loops, loop], rfl, fun running => awaits ?_⟩
    cases cancelled : p.cancelled with
    | false => rfl
    | true => exact (aside.cancelled cancelled).symm.trans running
  | @beat j' draw o poll beat effect =>
    have cancels : o.publisher.cancelled = p.cancelled := by
      obtain ⟨loops, after⟩ := beat.exists_loops
      rw [after]
    by_cases hj : j' = j
    · subst j'
      have beats : w.beats id j m = o.happenings := effect.beats.trans (if_pos ⟨rfl, rfl⟩)
      cases cancelled : p.cancelled with
      | true =>
        obtain ⟨after, nothing⟩ := beat.of_cancelled cancelled
        rw [tick_eq_nil (beats.trans nothing), List.append_nil]
        obtain ⟨l', loop', schedule⟩ : ∃ l', o.publisher.loops[j]? = some l' ∧
            l'.schedule = l.schedule := by
          rcases after with after | after
          · exact ⟨l, by rw [after, loop], rfl⟩
          · rw [after, Publisher.getElem?_setPhase, if_pos rfl, loop]
            exact ⟨_, rfl, rfl⟩
        refine ⟨h.regular, _, l', hp', started', loop', schedule, fun running => ?_⟩
        cases (cancels.trans cancelled).symm.trans running
      | false =>
        obtain ⟨l', loop', schedule, ⟨nothing, stays⟩ | ⟨something, regular, next⟩⟩ :=
          beat.regular loop cancelled instant (onTime l loop) (awaits cancelled)
        · rw [tick_eq_nil (beats.trans nothing), List.append_nil]
          exact ⟨h.regular, _, l', hp', started', loop', schedule, fun _ => stays⟩
        · have ticked : w.tick id j m = [⟨w.now, p.gated && p.paused, o.happenings⟩] := by
            unfold tick isSuspended
            rw [beats, hp]
            cases happenings : o.happenings with
            | nil => exact absurd happenings something
            | cons => rfl
          rw [ticked]
          refine ⟨regular_concat h.regular regular, _, l', hp', started', loop', schedule,
            fun _ => ?_⟩
          rw [List.length_append, List.length_singleton]
          exact next
    · have quiet : w.beats id j m = [] := effect.beats.trans (if_neg fun same => hj same.2)
      rw [tick_eq_nil quiet, List.append_nil]
      refine ⟨h.regular, _, l, hp', started', (beat.getElem?_of_ne hj).trans loop, rfl,
        fun running => awaits (cancels.symm.trans running)⟩

/-- A loop that has been started awaits its first tick. -/
theorem cadent_start (hp : w.publishers.get? id = some p) (new : p.started = false)
    (subject : p.schedules[j]? = some s) (cancelled : Bool) :
    (w.move (.startPublisher id cancelled)).Cadent id j start s [] := by
  refine ⟨(fun k tick h => by cases h), ?_⟩
  obtain ⟨q, hq, same, fresh⟩ : ∃ q,
      (if cancelled = true then w.cancelPublisher id else w).publishers.get? id = some q ∧
        q.schedules = p.schedules ∧ q.started = false := by
    cases cancelled with
    | false => exact ⟨p, hp, rfl, new⟩
    | true =>
      exact ⟨{ p with cancelled := true }, by simp [get?_publishers_cancelPublisher, hp], rfl, new⟩
  refine ⟨_, { schedule := s }, (runPublisher_of_new hq fresh).1, rfl, ?_, rfl,
    fun _ => .inl ⟨rfl, rfl⟩⟩
  rw [List.getElem?_map, same, subject]
  rfl

theorem Cadent.follow {course : List Move} (h : w.Cadent id j start s ticks)
    (scheduled : w.Scheduled) (clockwork : w.Along (Clockwork id j start) course) :
    (w.follow course).Cadent id j start s (ticks ++ w.ticks id j course) := by
  induction course generalizing w ticks with
  | nil =>
    unfold World.ticks
    rwa [List.append_nil]
  | cons m course ih =>
    unfold World.ticks
    rw [← List.append_assoc]
    exact ih (h.move scheduled clockwork.head m) (scheduled_move scheduled m) clockwork.2

/-- A tick that was due before the current millisecond has come. -/
theorem Cadent.lt_length (h : w.Cadent id j start s ticks) (clockwork : w.Clockwork id j start)
    (hp : w.publishers.get? id = some p) (running : p.cancelled = false) {k : Nat}
    (past : Clock.dueMillis (s.tickAt start k) < Clock.millis w.now) : k < ticks.length := by
  obtain ⟨p', l, hp', -, loop, -, awaits⟩ := h.stands
  obtain rfl := Option.some.inj (hp.symm.trans hp')
  have onTime := (clockwork p hp).2 l loop
  refine Nat.lt_of_not_le fun ahead => ?_
  rcases awaits running with ⟨fresh, -⟩ | idle
  · rw [fresh] at onTime
    obtain rfl : w.now = start := onTime
    have first : w.now ≤ s.tickAt w.now k := by
      unfold Schedule.tickAt
      omega
    have := Clock.millis_le_dueMillis w.now
    have := Clock.dueMillis_mono first
    omega
  · rw [idle] at onTime
    have onTime : Clock.millis w.now ≤ Clock.dueMillis (s.tickAt start ticks.length) := onTime
    have := Clock.dueMillis_mono (s.tickAt_mono start ahead)
    omega

/-- Every loop of a publisher that is started and not cancelled keeps to its schedule if the outbox
answers at once and its timers fire on time. All ticks come that are due, each in its millisecond. The
loop makes one attempt to publish at every tick at which publication is not suspended, and does nothing
else. The schedule is that of the multiples of the interval, up to thirty years. -/
theorem cadence (host : String) (wall : Int) (now : Nat) (reached : Reaches (fresh host wall now) w)
    (hp : w.publishers.get? id = some p) (new : p.started = false)
    (subject : p.schedules[j]? = some s) (cancelled : Bool) (after : List Move)
    (clockwork : (w.move (.startPublisher id cancelled)).Along (Clockwork id j w.now) after)
    (running : ((w.follow (.startPublisher id cancelled :: after)).publishers.get? id).map
      (·.cancelled) = some false) :
    let ticks := (w.move (.startPublisher id cancelled)).ticks id j after
    (∀ (k : Nat) (tick : Tick), ticks[k]? = some tick → tick.Regular s w.now k) ∧
    (∀ k, Clock.dueMillis (s.tickAt w.now k) <
      Clock.millis (w.follow (.startPublisher id cancelled :: after)).now → k < ticks.length) ∧
    (s.interval.nanos ≤ Clock.longestWait →
      ∀ k, s.tickAt w.now k = w.now + (k + 1) * s.interval.nanos) := by
  obtain ⟨before, rfl⟩ := reached
  have scheduled : (((fresh host wall now).follow before).move
      (.startPublisher id cancelled)).Scheduled :=
    scheduled_move (kempt_follow host wall now before).scheduled _
  have cadent := (cadent_start hp new subject cancelled).follow scheduled clockwork
  obtain ⟨q, hq, running⟩ := Option.map_eq_some_iff.1 running
  exact ⟨cadent.regular, fun k past => cadent.lt_length clockwork.last hq running past,
    fun short k => Schedule.tickAt_of_le short _ k⟩

/-- A publisher that is gated. -/
def premiere : List Move := [.openPublisher "p" (.solo "5s") "r" "o" (some "b") {}]

/-- It is suspended at its first tick. Then it wins the election, and its heartbeat is refused. -/
def season : List Move :=
  [.poll (.loop "p" 0) 0, .advance 5000000000, .poll (.loop "p" 0) 0, .poll (.run "p" 0) 0,
    .setFailing "o" true, .advance 5000000000, .poll (.loop "p" 0) 0, .advance 1000000]

theorem cadence_season :
    ∃ s : Schedule, s.interval.nanos = 5000000000 ∧
      ((((fresh "h" 0 0).follow premiere).move (.startPublisher "p" false)).ticks "p" 0 season).map
        (fun t => (t.time, t.suspended)) = [(5000000000, true), (10000000000, false)] ∧
      (∀ (k : Nat) (tick : Tick),
        ((((fresh "h" 0 0).follow premiere).move (.startPublisher "p" false)).ticks "p" 0 season)[k]? =
          some tick → tick.Regular s 0 k) ∧
      ∀ k, s.tickAt 0 k = 0 + (k + 1) * s.interval.nanos := by
  have opened : (((fresh "h" 0 0).follow premiere).publishers.get? "p").map
      (fun p => (p.started, p.schedules.map (·.interval.nanos))) = some (false, [5000000000]) := by
    decide +kernel
  obtain ⟨p, hp, state⟩ := Option.map_eq_some_iff.1 opened
  obtain ⟨new, intervals⟩ := Prod.mk.inj state
  obtain ⟨s, subject⟩ : ∃ s, p.schedules[0]? = some s := by
    have length := congrArg List.length intervals
    rw [List.length_map] at length
    exact ⟨_, List.getElem?_eq_getElem (by rw [length]; decide)⟩
  have interval : s.interval.nanos = 5000000000 := by
    have first := congrArg (·[0]?) intervals
    simp only [List.getElem?_map, subject] at first
    exact Option.some.inj first
  have short : s.interval.nanos ≤ Clock.longestWait := by
    rw [interval]
    decide +kernel
  have reached : Reaches (fresh "h" 0 0) ((fresh "h" 0 0).follow premiere) := ⟨premiere, rfl⟩
  have law := cadence "h" 0 0 reached hp new subject false season (by decide +kernel)
    (by decide +kernel)
  have start : ((fresh "h" 0 0).follow premiere).now = 0 := by decide +kernel
  rw [start] at law
  exact ⟨s, interval, by decide +kernel, law.1, law.2.2 short⟩

/-- A publisher with an interval of 275000 hours, which is more than thirty years. -/
def sequoia : List Move :=
  [.openPublisher "p" { Config.solo "275000h" with leaderElection := false } "r" "o" none {}]

/-- Its first tick comes after the interval, and the second one thirty years later. -/
def eons : List Move :=
  [.poll (.loop "p" 0) 0, .advance 990000000000000000, .poll (.loop "p" 0) 0,
    .advance 946080000000000000, .poll (.loop "p" 0) 0]

/-- The ticks of an interval of more than thirty years do not come at its multiples. -/
theorem cadence_cut :
    (((fresh "h" 0 0).follow sequoia).publishers.get? "p").map
      (fun p => (p.started, p.schedules.map (·.interval.nanos))) = some (false, [990000000000000000]) ∧
    (((fresh "h" 0 0).follow sequoia).move (.startPublisher "p" false)).Along (Clockwork "p" 0 0)
      eons ∧
    ((((fresh "h" 0 0).follow sequoia).follow (.startPublisher "p" false :: eons)).publishers.get?
      "p").map (·.cancelled) = some false ∧
    ((((fresh "h" 0 0).follow sequoia).move (.startPublisher "p" false)).ticks "p" 0 eons).map
      (fun t => Clock.millis t.time) = [990000000000, 1936080000000] ∧
    Clock.dueMillis (0 + 2 * 990000000000000000) = 1980000000000 := by
  decide +kernel

end World

end Tenure
