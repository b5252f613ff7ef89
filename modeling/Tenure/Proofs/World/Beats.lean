import Tenure.Proofs.World.Turns

/-!
# What a turn of a subject's loop does to a world

- **Turns** (`Beat`): everything that one turn of a loop can do to its publisher and to the outbox,
  with the guards under which it does it and what it records.
- **Effects** (`BeatEffect`, `pollLoop_effect`): a turn of a loop does to the world what a `Beat`
  does to publisher and outbox, and nothing else but to the metrics.
-/

namespace Tenure

namespace Publisher

/-- What a turn of a loop leads to. -/
structure Outcome where
  /-- The publisher. -/
  publisher : Publisher
  /-- Its outbox. -/
  outbox : Outbox
  /-- What happens, in order. -/
  happenings : List Happening

/-- The heartbeat that a loop begins to publish at a time of day. -/
def heartbeat (p : Publisher) (l : Loop) (wall : Int) : Message :=
  .stamp l.schedule.subject p.host l.schedule.headers wall

/-- A turn of the `j`-th loop of a publisher, at an instant and a time of day, with its outbox. -/
inductive Beat (now : Nat) (wall : Int) (p : Publisher) (box : Outbox) (j : Nat) : Outcome → Prop
  /-- Nothing happens. -/
  | still : Beat now wall p box j ⟨p, box, []⟩
  /-- The publisher was cancelled. -/
  | ends {l : Loop} (loop : p.loops[j]? = some l) (cancelled : p.cancelled = true) :
      Beat now wall p box j ⟨p.setPhase j .over, box, []⟩
  /-- The loop begins to wait for its first tick. -/
  | begins {l : Loop} (loop : p.loops[j]? = some l) (cancelled : p.cancelled = false)
      (phase : l.phase = .fresh) :
      Beat now wall p box j
        ⟨p.setPhase j (.idle (.start now l.schedule.interval.nanos)), box, []⟩
  /-- A tick passes while publication is suspended. -/
  | passes {l : Loop} {t : Ticker} (loop : p.loops[j]? = some l) (cancelled : p.cancelled = false)
      (phase : l.phase = .idle t) (due : t.isDue now = true)
      (suspended : (p.gated && p.paused) = true) :
      Beat now wall p box j ⟨p.setPhase j (.idle (t.tick now)), box, [.passed]⟩
  /-- A heartbeat begins and is held back. -/
  | launches {l : Loop} {t : Ticker} (loop : p.loops[j]? = some l)
      (cancelled : p.cancelled = false) (phase : l.phase = .idle t) (due : t.isDue now = true)
      (allowed : (p.gated && p.paused) = false) (held : box.delay ≠ 0) :
      Beat now wall p box j
        ⟨p.setPhase j (.sending (t.tick now) (p.heartbeat l wall) (Clock.wake now box.delay)), box,
          [.sending (p.heartbeat l wall)]⟩
  /-- A heartbeat begins and is sent or refused at once. -/
  | sends {l : Loop} {t : Ticker} (loop : p.loops[j]? = some l) (cancelled : p.cancelled = false)
      (phase : l.phase = .idle t) (due : t.isDue now = true)
      (allowed : (p.gated && p.paused) = false) (instant : box.delay = 0) :
      Beat now wall p box j
        ⟨p.setPhase j (.idle (t.tick now)), (box.send (p.heartbeat l wall).deliver).1,
          [.sending (p.heartbeat l wall),
            .sent (p.heartbeat l wall).subject (box.send (p.heartbeat l wall).deliver).2]⟩
  /-- A heartbeat that was held back is sent or refused. -/
  | completes {l : Loop} {t : Ticker} {m : Message} {due : Nat} (loop : p.loops[j]? = some l)
      (cancelled : p.cancelled = false) (phase : l.phase = .sending t m due)
      (fired : Clock.hasFired now due = true) :
      Beat now wall p box j
        ⟨p.setPhase j (.idle t), (box.send m.deliver).1, [.sent m.subject (box.send m.deliver).2]⟩

/-- A turn of a loop changes nothing of its publisher but the loop. -/
theorem Beat.exists_loops {now : Nat} {wall : Int} {p : Publisher} {box : Outbox} {j : Nat}
    {o : Outcome} (h : p.Beat now wall box j o) : ∃ loops, o.publisher = { p with loops := loops } := by
  cases h <;> exact ⟨_, rfl⟩

end Publisher

namespace World

/-- A loop of the publisher `id` has come to `o`, and the world to `v`. -/
structure BeatEffect (w : World) (id : String) (j : Nat) (p : Publisher) (o : Publisher.Outcome)
    (v : World) : Prop where
  now : v.now = w.now
  contenders : v.contenders = w.contenders
  buckets : v.buckets = w.buckets
  publishers : ∀ id', v.publishers.get? id' =
    if id = id' then some o.publisher else w.publishers.get? id'
  outbox : ∀ name, v.outbox name = if p.outbox = name then o.outbox else w.outbox name
  history : v.history = (o.happenings.map fun x => ⟨w.now, .loop id j, x⟩).reverse ++ w.history

namespace BeatEffect

variable {w v : World} {id : String} {j : Nat} {p : Publisher} {o : Publisher.Outcome}

theorem refl (hp : w.publishers.get? id = some p) :
    BeatEffect w id j p ⟨p, w.outbox p.outbox, []⟩ w where
  now := rfl
  contenders := rfl
  buckets := rfl
  publishers id' := by
    split
    · rename_i h
      rw [← h, hp]
    · rfl
  outbox name := by
    split
    · rename_i h
      rw [← h]
    · rfl
  history := rfl

/-- The metrics do not matter. -/
theorem modifyMetrics (h : BeatEffect w id j p o v) (f : Metrics.Registry → Metrics.Registry) :
    BeatEffect w id j p o (v.modifyMetrics f) :=
  ⟨h.now, h.contenders, h.buckets, h.publishers, h.outbox, h.history⟩

theorem moveLoop (h : BeatEffect w id j p o v) (phase : Publisher.Phase) :
    BeatEffect w id j p { o with publisher := o.publisher.setPhase j phase }
      (v.moveLoop id j phase) where
  now := h.now
  contenders := h.contenders
  buckets := h.buckets
  publishers id' := by
    rw [World.moveLoop, get?_publishers_modify, h.publishers]
    by_cases hid : id = id' <;> simp [hid]
  outbox := h.outbox
  history := h.history

theorem endLoop (h : BeatEffect w id j p o v) (s : Schedule) :
    BeatEffect w id j p { o with publisher := o.publisher.setPhase j .over }
      (v.endLoop id j p s) :=
  (h.moveLoop .over).modifyMetrics _

theorem record (h : BeatEffect w id j p o v) (what : Happening) :
    BeatEffect w id j p { o with happenings := o.happenings ++ [what] }
      (v.record (.loop id j) what) where
  now := h.now
  contenders := h.contenders
  buckets := h.buckets
  publishers := h.publishers
  outbox := h.outbox
  history := by simp [World.record, h.history, h.now]

theorem setOutbox (h : BeatEffect w id j p o v) (box : Outbox) :
    BeatEffect w id j p { o with outbox := box } (v.setOutbox p.outbox box) where
  now := h.now
  contenders := h.contenders
  buckets := h.buckets
  publishers := h.publishers
  outbox name := by
    have hv := h.outbox name
    simp only [World.outbox, World.setOutbox, Table.getD, Table.get?_insert] at hv ⊢
    split
    · rfl
    · rename_i hne
      rw [hv, if_neg hne]
  history := h.history

theorem countSent (h : BeatEffect w id j p o v) (replicator subject : String)
    (answer : Except PublishError Unit) :
    BeatEffect w id j p o (v.countSent replicator subject answer) := by
  cases answer with
  | ok => exact h.modifyMetrics (·.increment (.published replicator subject))
  | error => exact h.modifyMetrics (·.increment (.publishErrors replicator subject))

theorem sendBeat (h : BeatEffect w id j p o v) (t : Ticker) (m : Message) :
    BeatEffect w id j p ⟨o.publisher.setPhase j (.idle t), (o.outbox.send m.deliver).1,
      o.happenings ++ [.sent m.subject (o.outbox.send m.deliver).2]⟩ (v.sendBeat id j p t m) := by
  have hbox : v.outbox p.outbox = o.outbox := by rw [h.outbox, if_pos rfl]
  have := (((h.setOutbox (o.outbox.send m.deliver).1).record
    (.sent m.subject (o.outbox.send m.deliver).2)).countSent p.replicator m.subject
    (o.outbox.send m.deliver).2).moveLoop (.idle t)
  simpa [World.sendBeat, hbox] using this

end BeatEffect

/-- A turn of a loop has the effect of a `Beat` on its publisher. -/
theorem pollLoop_effect {w : World} {id : String} {p : Publisher}
    (hp : w.publishers.get? id = some p) (j : Nat) :
    ∃ o, p.Beat w.now w.wall (w.outbox p.outbox) j o ∧
      BeatEffect w id j p o (w.pollLoop id j) := by
  have still := BeatEffect.refl (j := j) hp
  simp only [pollLoop, hp]
  cases hl : p.loops[j]? with
  | none => exact ⟨_, .still, still⟩
  | some l =>
    dsimp only
    cases hph : l.phase with
    | fresh =>
      dsimp only
      have hshown : BeatEffect w id j p ⟨p, w.outbox p.outbox, []⟩ (if p.gated then w
          else w.modifyMetrics (·.setFlag (.subjectActive p.replicator l.schedule.subject) true)) := by
        split
        · exact still
        · exact still.modifyMetrics _
      have hnow := hshown.now
      generalize (if p.gated then w
        else w.modifyMetrics (·.setFlag (.subjectActive p.replicator l.schedule.subject) true)) = u
        at hshown hnow
      split
      · exact ⟨_, .ends hl ‹_›, hshown.endLoop _⟩
      · rename_i hcan
        refine ⟨_, .begins hl (Bool.eq_false_iff.2 hcan) hph, ?_⟩
        rw [← hnow]
        exact hshown.moveLoop _
    | idle t =>
      dsimp only
      split
      · exact ⟨_, .ends hl ‹_›, still.endLoop _⟩
      · rename_i hcan
        have hcan := Bool.eq_false_iff.2 hcan
        split
        · exact ⟨_, .still, still⟩
        · rename_i hdue
          have hdue : t.isDue w.now = true := by simpa using hdue
          split
          · rename_i hsus
            exact ⟨_, .passes hl hcan hph hdue hsus, (still.record .passed).moveLoop _⟩
          · rename_i hall
            have hall := Bool.eq_false_iff.2 hall
            simp only [beat]
            have hbegun := still.record (.sending (p.heartbeat l w.wall))
            split
            · exact ⟨_, .sends hl hcan hph hdue hall ‹_›, hbegun.sendBeat ..⟩
            · exact ⟨_, .launches hl hcan hph hdue hall ‹_›, hbegun.moveLoop _⟩
    | sending t m due =>
      dsimp only
      split
      · exact ⟨_, .ends hl ‹_›, still.endLoop _⟩
      · rename_i hcan
        split
        · exact ⟨_, .completes hl (Bool.eq_false_iff.2 hcan) hph ‹_›, still.sendBeat ..⟩
        · exact ⟨_, .still, still⟩
    | _ => exact ⟨_, .still, still⟩

end World

end Tenure
