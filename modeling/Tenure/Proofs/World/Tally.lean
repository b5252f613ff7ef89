import Tenure.Proofs.World.Balance

/-!
# What the counters count

- **Moves** (`value_move_of_counter`): what a move adds to a counter is what it records for its slot.
- **Courses** (`tally`, `tallied`): a counter shows how often its slot was meant.
-/

namespace Tenure

open Election Metrics

/-! ## Moves -/

/-- Whether the move is a turn of a call of `run` or of a loop. -/
def Move.isTurn : Move → Bool
  | .poll (.run _ _) _ | .poll (.loop _ _) _ => true
  | _ => false

namespace World

variable {w : World} {m : Move} {id : String} {t : Series}

theorem history_of_idle (idle : m.isTurn = false) : (w.move m).history = w.history := by
  cases w.played m with
  | turn poll | beat poll =>
    subst poll
    cases idle
  | call called => exact called.recast.history
  | stage staged => exact staged.history

/-- What a move is: a turn of a call of `run` or of a loop, a turn of nobody, or no turn at all. -/
inductive Acted (w : World) (m : Move) : Prop
  | run {id : String} {c : Contender} {i draw : Nat} {o : Election.Outcome}
      (poll : m = .poll (.run id i) draw) (was : w.contenders.get? id = some c)
      (turn : Turn w.now (w.bucket c.candidacy.bucket).delay draw c
        (w.bucket c.candidacy.bucket).store i o)
      (effect : Effect w id c.candidacy o (w.move m))
  | loop {id : String} {p : Publisher} {j draw : Nat} {o : Publisher.Outcome}
      (poll : m = .poll (.loop id j) draw) (was : w.publishers.get? id = some p)
      (beat : p.Beat w.now w.wall (w.outbox p.outbox) j o)
      (effect : BeatEffect w id j p o (w.move m))
  | nobody (same : w.move m = w)
  | idle (idle : m.isTurn = false)

theorem acted (w : World) (m : Move) : Acted w m := by
  cases idle : m.isTurn with
  | false => exact .idle idle
  | true =>
    cases m with
    | poll task draw =>
      cases task with
      | run id i =>
        cases hc : w.contenders.get? id with
        | none => exact .nobody (by simp only [move, poll, pollRun, hc])
        | some c =>
          obtain ⟨o, turn, effect⟩ := pollRun_effect hc i draw
          exact .run rfl hc turn effect
      | loop id j =>
        cases hp : w.publishers.get? id with
        | none => exact .nobody (by simp only [move, poll, pollLoop, hp])
        | some p =>
          obtain ⟨o, beat, effect⟩ := pollLoop_effect hp j
          exact .loop rfl hp beat effect
      | closing | stopping => cases idle
    | _ => cases idle

theorem value_runPublisher (v : World) (id : String) (counter : t.family.isCounter = true) :
    (v.runPublisher id).1.metrics.value t = v.metrics.value t := by
  have announced (p : Publisher) : (announce p v.metrics).value t = v.metrics.value t := by
    unfold announce
    dsimp only
    split
    · rw [Registry.value_setFlags_of_counter _ _ _ _ counter,
        Registry.value_setFlag_of_counter _ _ rfl counter]
    · exact Registry.value_setFlag_of_counter _ _ rfl counter
  unfold runPublisher
  split
  · rfl
  · split
    · rfl
    · dsimp only
      split <;> exact announced _

/-- Only turns count. -/
theorem value_of_idle (idle : m.isTurn = false) (counter : t.family.isCounter = true) :
    (w.move m).metrics.value t = w.metrics.value t := by
  cases m with
  | openContender id options =>
    simp only [move]
    split
    · rfl
    · simp only [openContender]
      cases Candidacy.ofOptions options w.host w.nonce <;> rfl
  | openPublisher id config replicator outbox bucket? relaxations =>
    simp only [move]
    split
    · rfl
    · simp only [openPublisher]
      cases Publisher.ofConfig config replicator w.host outbox bucket? relaxations w.nonce with
      | error e => rfl
      | ok opened =>
        obtain ⟨p, y?⟩ := opened
        cases y? <;> rfl
  | startPublisher id cancelled =>
    refine (value_runPublisher _ id counter).trans ?_
    cases cancelled <;> rfl
  | poll task draw =>
    cases task with
    | run | loop => cases idle
    | closing id =>
      simp only [move, poll, pollClosing]
      split
      · rfl
      · split
        · exact Registry.value_setFlag_of_counter _ _ rfl counter
        · rfl
    | stopping id =>
      simp only [move, poll, pollStopping]
      split <;> rfl
  | readMetric s => exact Registry.value_touch ..
  | _ => rfl

/-- The counter that an event counts for, by the labels of the contender or publisher it comes from. -/
def series? (w : World) (e : Event) : Option Series :=
  match e.source with
  | .contender id => (w.contenders.get? id).bind fun c => e.what.campaign? c.candidacy
  | .loop id _ => (w.publishers.get? id).bind fun p => e.what.heartbeat? p.replicator

/-- Whether the event counts for the slot of the series. -/
def countsFor (w : World) (t : Series) (e : Event) : Bool := (w.series? e).any (·.slot = t.slot)

theorem series?_of_contender {c : Contender} (hc : w.contenders.get? id = some c) (time : Nat)
    (what : Happening) : w.series? ⟨time, .contender id, what⟩ = what.campaign? c.candidacy := by
  show (w.contenders.get? id).bind _ = _
  rw [hc, Option.bind_some]

theorem series?_of_publisher {p : Publisher} (hp : w.publishers.get? id = some p) (time j : Nat)
    (what : Happening) : w.series? ⟨time, .loop id j, what⟩ = what.heartbeat? p.replicator := by
  show (w.publishers.get? id).bind _ = _
  rw [hp, Option.bind_some]

/-- What a move adds to a counter is what it records for its slot. -/
theorem value_move_of_counter (w : World) (m : Move) (counter : t.family.isCounter = true) :
    (w.move m).metrics.value t = w.metrics.value t + (w.added m).countP ((w.move m).countsFor t) := by
  -- a turn counts what it records, if that is what its events count for
  have grows {f : Happening → Option Series} {events : List Event} (balanced : Balanced f w (w.move m))
      (history : (w.move m).history = events ++ w.history)
      (labelled : ∀ e ∈ events, (w.move m).series? e = f e.what) :
      (w.move m).metrics.value t =
        w.metrics.value t + (w.added m).countP ((w.move m).countsFor t) := by
    have same : events.countP ((w.move m).countsFor t) =
        events.countP fun e => (f e.what).any (·.slot = t.slot) :=
      List.countP_congr fun e he => by rw [countsFor, labelled e he]
    have grown := balanced.grows t counter
    rw [meant, meant, history, List.countP_append] at grown
    rw [added_eq history, same]
    omega
  have still (history : (w.move m).history = w.history)
      (value : (w.move m).metrics.value t = w.metrics.value t) : (w.move m).metrics.value t =
        w.metrics.value t + (w.added m).countP ((w.move m).countsFor t) := by
    rw [@added_eq _ _ [] history, value]
    rfl
  cases w.acted m with
  | idle idle => exact still (history_of_idle idle) (value_of_idle idle counter)
  | nobody same => exact still (congrArg history same) (by rw [same])
  | @run id c i draw o poll was turn effect =>
    have balanced : Balanced (Happening.campaign? c.candidacy) w (w.move m) :=
      poll ▸ Balanced.pollRun was i draw
    refine grows balanced effect.history fun e he => ?_
    obtain ⟨n, -, rfl⟩ := List.mem_map.1 (List.mem_reverse.1 he)
    have after := (effect.contenders id).trans (if_pos rfl)
    rw [series?_of_contender after, turn.candidacy]
  | @loop id p j draw o poll was beat effect =>
    have balanced : Balanced (Happening.heartbeat? p.replicator) w (w.move m) :=
      poll ▸ Balanced.pollLoop was j
    refine grows balanced effect.history fun e he => ?_
    obtain ⟨x, -, rfl⟩ := List.mem_map.1 (List.mem_reverse.1 he)
    have after := (effect.publishers id).trans (if_pos rfl)
    obtain ⟨loops, same⟩ := beat.exists_loops
    rw [series?_of_publisher after, same]

/-! ## Courses -/

/-- The one that an event comes from is there. -/
def Knows (w : World) : Source → Prop
  | .contender id => ∃ c, w.contenders.get? id = some c
  | .loop id _ => ∃ p, w.publishers.get? id = some p

/-- The terms of a publisher never change. -/
theorem publisher_move {p : Publisher} (hp : w.publishers.get? id = some p) (m : Move) :
    ∃ p', (w.move m).publishers.get? id = some p' ∧ p'.replicator = p.replicator ∧
      p'.outbox = p.outbox ∧ p'.schedules = p.schedules := by
  obtain ⟨p', hp', -⟩ := exists_publisher_move hp m
  refine ⟨p', hp', ?_⟩
  cases publisherBecame hp' with
  | opened _ free => cases hp.symm.trans (eq_none_of_free free).2
  | aside was aside =>
    cases hp.symm.trans was
    exact ⟨aside.replicator, aside.outbox, aside.schedules⟩
  | beat _ was beat _ after =>
    cases hp.symm.trans was
    obtain ⟨loops, same⟩ := beat.exists_loops
    rw [after, same]
    exact ⟨rfl, rfl, rfl⟩

theorem Knows.move {source : Source} (h : w.Knows source) (m : Move) : (w.move m).Knows source := by
  cases source with
  | contender id =>
    obtain ⟨c, hc⟩ := h
    exact exists_contender_move hc m
  | loop id j =>
    obtain ⟨p, hp⟩ := h
    obtain ⟨p', hp', -⟩ := publisher_move hp m
    exact ⟨p', hp'⟩

/-- What an event counts for does not change. -/
theorem series?_move {e : Event} (known : w.Knows e.source) (m : Move) :
    (w.move m).series? e = w.series? e := by
  obtain ⟨time, source, what⟩ := e
  cases source with
  | contender id =>
    obtain ⟨c, hc⟩ := known
    obtain ⟨c', hc'⟩ := exists_contender_move hc m
    rw [series?_of_contender hc, series?_of_contender hc', candidacy_move hc hc']
  | loop id j =>
    obtain ⟨p, hp⟩ := known
    obtain ⟨p', hp', same, -⟩ := publisher_move hp m
    rw [series?_of_publisher hp, series?_of_publisher hp', same]

/-- Whoever does something is there. -/
theorem knows_of_mem_added {e : Event} (h : e ∈ w.added m) : w.Knows e.source := by
  cases w.played m with
  | turn _ was _ effect =>
    rw [added_eq effect.history] at h
    obtain ⟨n, -, rfl⟩ := List.mem_map.1 (List.mem_reverse.1 h)
    exact ⟨_, was⟩
  | beat _ was _ effect =>
    rw [added_eq effect.history] at h
    obtain ⟨x, -, rfl⟩ := List.mem_map.1 (List.mem_reverse.1 h)
    exact ⟨_, was⟩
  | call called =>
    rw [@added_eq _ _ [] called.recast.history] at h
    cases h
  | stage staged =>
    rw [@added_eq _ _ [] staged.history] at h
    cases h

/-- Every event comes from somebody who is there. -/
def Sourced (w : World) : Prop := ∀ e ∈ w.history, w.Knows e.source

theorem Sourced.move (h : w.Sourced) (m : Move) : (w.move m).Sourced := by
  obtain ⟨events, history⟩ := w.history_move m
  intro e he
  rw [history] at he
  rcases List.mem_append.1 he with new | old
  · exact (knows_of_mem_added (added_eq history ▸ new)).move m
  · exact (h e old).move m

/-- How often the slot of a series was meant. -/
def tally (w : World) (t : Series) : Nat := w.history.countP (w.countsFor t)

theorem tally_move (h : w.Sourced) (m : Move) (t : Series) :
    (w.move m).tally t = w.tally t + (w.added m).countP ((w.move m).countsFor t) := by
  obtain ⟨events, history⟩ := w.history_move m
  have old : w.history.countP ((w.move m).countsFor t) = w.tally t :=
    List.countP_congr fun e he => by rw [countsFor, countsFor, series?_move (h e he)]
  unfold tally at *
  rw [history, added_eq history, List.countP_append, old, Nat.add_comm]

/-- A counter shows how often its slot was meant. -/
theorem tallied (host : String) (wall : Int) (now : Nat) (course : List Move)
    (counter : t.family.isCounter = true) :
    ((fresh host wall now).follow course).metrics.value t =
      ((fresh host wall now).follow course).tally t := by
  have both : ((fresh host wall now).follow course).Sourced ∧
      ((fresh host wall now).follow course).metrics.value t =
        ((fresh host wall now).follow course).tally t := by
    refine follow_induct course (I := fun w => w.Sourced ∧ w.metrics.value t = w.tally t)
      ⟨List.forall_mem_nil _, rfl⟩ fun v m h => ⟨h.1.move m, ?_⟩
    rw [value_move_of_counter v m counter, tally_move h.1, h.2]
  exact both.2

end World

end Tenure
