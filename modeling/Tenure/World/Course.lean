import Tenure.World.Schedule

/-!
# Courses of a world

A course is any sequence of moves: calls from outside, movements of the clock, and turns of single
tasks, in any order and at any time. Tasks that are due may be kept waiting and tasks that are not
due may be given a turn, so what holds after every course does not depend on the order in which
tasks take turns nor on timers being on time.

* `Reaches`: one world becomes the other on some course.
* `reaches_startContender`: calls that are cancelled together are calls that are cancelled one by one.
* `reaches_settle`, `reaches_sleep`, `reaches_jump`, `reaches_runUntilStopped`: the ways in which
  the clock is moved with all tasks on time are courses.
-/

namespace Tenure

/-- Something that can happen to a world. -/
inductive Move where
  /-- A contender is opened under a name that is not in use. -/
  | openContender (id : String) (options : Election.Options)
  /-- A publisher is opened under a name that is not in use. -/
  | openPublisher (id : String) (config : Config) (replicator outbox : String)
      (bucket? : Option String) (relaxations : Election.Relaxations)
  /-- `run` of a contender is called by somebody else than its publisher. -/
  | callRun (id : String) (cancelled : Bool)
  /-- A call of `run` of a contender is cancelled, unless its publisher made it. -/
  | cancelRun (id : String) (i : Nat)
  /-- The calls of `run` of a contender are cancelled, except for that of its publisher. -/
  | cancelContender (id : String)
  /-- A publisher is started. -/
  | startPublisher (id : String) (cancelled : Bool)
  /-- A publisher is cancelled, and its call of `run` of its contender with it. -/
  | cancelPublisher (id : String)
  /-- A timer is set that cancels a publisher. -/
  | stopPublisherAt (id : String) (due : Nat)
  /-- The watcher of a contender looks. -/
  | look (id : String)
  /-- A task gets a turn. -/
  | poll (task : Task) (draw : Nat)
  /-- The clock moves on. -/
  | advance (nanos : Nat)
  /-- The time of day is set. -/
  | setWall (time : Int)
  /-- A key of a store is written. -/
  | create (bucket key : String) (value : Bytes) (ttl : Duration)
  /-- The entry of a key of a store is replaced. -/
  | update (bucket key : String) (value : Bytes) (revision : Nat) (ttl : Duration)
  /-- The lease of a key ends. -/
  | expire (bucket key : String)
  /-- A store is switched on or off. -/
  | setAvailable (bucket : String) (available : Bool)
  /-- Contenders' calls on a store get a delay. -/
  | setStoreDelay (bucket : String) (delay : Nat)
  /-- A message is sent. -/
  | publish (outbox : String) (delivery : Delivery)
  /-- An outbox is switched to fail or back. -/
  | setFailing (outbox : String) (failing : Bool)
  /-- Heartbeats get a delay. -/
  | setOutboxDelay (outbox : String) (delay : Nat)
  /-- A series is read. -/
  | readMetric (series : Metrics.Series)

namespace World

/-- Whether a contender or publisher has the name. -/
def isTaken (w : World) (id : String) : Bool :=
  w.contenders.contains id || w.publishers.contains id

/-- The world after a move. A move that is refused changes nothing. -/
def move (w : World) : Move → World
  | .openContender id options =>
    if w.isTaken id then w else (w.openContender id options).toOption.getD w
  | .openPublisher id config replicator outbox bucket? relaxations =>
    if w.isTaken id then w
    else (w.openPublisher id config replicator outbox bucket? relaxations).toOption.getD w
  | .callRun id cancelled => w.callRun id cancelled
  | .cancelRun id i => w.cancelRun id i
  | .cancelContender id => w.cancelContender id
  | .startPublisher id cancelled => (w.startPublisher id cancelled).1
  | .cancelPublisher id => w.cancelPublisher id
  | .stopPublisherAt id due => w.stopPublisherAt id due
  | .look id => w.look id
  | .poll task draw => w.poll task draw
  | .advance nanos => { w with now := w.now + nanos }
  | .setWall time => { w with wall := time }
  | .create bucket key value ttl => (w.create bucket key value ttl).1
  | .update bucket key value revision ttl => (w.update bucket key value revision ttl).1
  | .expire bucket key => w.modifyStore bucket (·.expire key)
  | .setAvailable bucket available => w.modifyStore bucket (·.setAvailable available)
  | .setStoreDelay bucket delay => w.setStoreDelay bucket delay
  | .publish outbox delivery => (w.publish outbox delivery).1
  | .setFailing outbox failing => w.modifyOutbox outbox ({ · with failing := failing })
  | .setOutboxDelay outbox delay => w.modifyOutbox outbox ({ · with delay := delay })
  | .readMetric series => (w.readMetric series).1

/-- The world at the end of a course. -/
def follow (w : World) (course : List Move) : World := course.foldl move w

@[simp] theorem follow_nil (w : World) : w.follow [] = w := rfl

@[simp] theorem follow_cons (w : World) (m : Move) (course : List Move) :
    w.follow (m :: course) = (w.move m).follow course := rfl

theorem follow_append (w : World) (first second : List Move) :
    w.follow (first ++ second) = (w.follow first).follow second := List.foldl_append

/-- Some course leads from a world to another. -/
def Reaches (w v : World) : Prop := ∃ course, w.follow course = v

theorem Reaches.refl (w : World) : Reaches w w := ⟨[], rfl⟩

theorem Reaches.trans {u v w : World} (h : Reaches u v) (h' : Reaches v w) : Reaches u w := by
  obtain ⟨first, rfl⟩ := h
  obtain ⟨second, rfl⟩ := h'
  exact ⟨first ++ second, follow_append u first second⟩

theorem reaches_move (w : World) (m : Move) : Reaches w (w.move m) := ⟨[m], rfl⟩

/-- What a move keeps holds at the end of every course. -/
theorem Reaches.induct {P : World → Prop} (step : ∀ w m, P w → P (w.move m)) {w v : World}
    (h : Reaches w v) (base : P w) : P v := by
  obtain ⟨course, rfl⟩ := h
  induction course generalizing w with
  | nil => exact base
  | cons m course ih => exact ih (step w m base)

theorem reaches_startContender (w : World) (id : String) (cancelled : Bool) :
    Reaches w (w.startContender id cancelled) := by
  cases cancelled with
  | false => exact reaches_move w (.callRun id false)
  | true => exact (reaches_move w (.cancelContender id)).trans (reaches_move _ (.callRun id true))

/-! ## Tasks on time -/

theorem reaches_settleWith (fuel : Nat) (w : World) : Reaches w (settleWith fuel w) := by
  induction fuel generalizing w with
  | zero => exact .refl w
  | succ fuel ih =>
    simp only [settleWith]
    cases w.tasks.find? w.isReady with
    | none => exact .refl w
    | some t => exact (reaches_move w (.poll t 0)).trans (ih _)

theorem reaches_settle (w : World) : Reaches w w.settle := reaches_settleWith patience w

theorem reaches_advanceMillis (w : World) (ms : Nat) : Reaches w (w.advanceMillis ms) :=
  reaches_move w (.advance _)

theorem reaches_sleepUntil (target steps : Nat) (w : World) :
    Reaches w (sleepUntil target steps w) := by
  have halt (v : World) : Reaches v (v.advanceMillis target).settle :=
    (reaches_advanceMillis v target).trans (reaches_settle _)
  induction steps generalizing w with
  | zero => exact halt w
  | succ steps ih =>
    simp only [sleepUntil]
    cases w.nextMillis? with
    | none => exact halt w
    | some ms =>
      dsimp only
      split
      · exact ((reaches_advanceMillis w ms).trans (reaches_settle _)).trans (ih _)
      · exact halt w

theorem reaches_sleep (w : World) (d : Duration) : Reaches w (w.sleep d) :=
  (reaches_settle w).trans (reaches_sleepUntil _ _ _)

theorem reaches_jump {w v : World} {d : Duration} (h : w.jump d = .ok v) : Reaches w v := by
  simp only [jump, Clock.after] at h
  split at h
  · cases h
    exact (reaches_move w (.advance d.nanos)).trans (reaches_settle _)
  · exact nomatch h

theorem reaches_runUntilStopped (w : World) (id : String) (d : Duration) :
    Reaches w (w.runUntilStopped id d).1 := by
  have start : Reaches w (w.runPublisher id).1 := reaches_move w (.startPublisher id false)
  have timed : Reaches w ((w.runPublisher id).1.stopPublisherAt id
      (Clock.wake (w.runPublisher id).1.now d.nanos)) :=
    start.trans (reaches_move _ (.stopPublisherAt id _))
  simp only [runUntilStopped]
  split
  · exact timed
  · dsimp only
    split
    · exact timed.trans (reaches_settle _)
    · exact timed.trans (reaches_sleep _ d)

end World

end Tenure
