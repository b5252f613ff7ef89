import Tenure.Proofs.World.Display

/-!
# How turns count

Every answer to a heartbeat and every finished campaign is counted once, when it is recorded, and nothing
else is counted.

- **Entries** (`heartbeat?`, `campaign?`): the counter that a doing counts for.
- **Balance** (`Balanced`): on the way from one world to another the counters grow by what is recorded.
- **Turns** (`Balanced.pollRun`, `Balanced.pollLoop`): so they do in every turn, which is followed step by
  step.
-/

namespace Tenure

open Election Metrics

/-! ## Entries -/

/-- The counter that a loop's doing counts for: a heartbeat that was sent or refused. -/
def Happening.heartbeat? (replicator : String) : Happening → Option Series
  | .sent s (.ok _) => some (.published replicator s)
  | .sent s (.error _) => some (.publishErrors replicator s)
  | .noted _ | .passed | .sending _ => none

/-- The counter that a contender's doing counts for: a finished campaign. -/
def Happening.campaign? (y : Candidacy) : Happening → Option Series
  | .noted (.campaigned _ x _) => some (.campaigns y.replicator y.name x)
  | _ => none

theorem Metrics.Series.slot_ne_of_counter {s t : Series} (hs : s.family.isCounter = false)
    (ht : t.family.isCounter = true) : s.slot ≠ t.slot := by
  refine slot_ne_of_family_ne fun h => ?_
  rw [h, ht] at hs
  cases hs

/-- Flags leave counters alone. -/
theorem Metrics.Registry.value_setFlag_of_counter (r : Registry) {s t : Series} (on : Bool)
    (hs : s.family.isCounter = false) (ht : t.family.isCounter = true) :
    (r.setFlag s on).value t = r.value t :=
  value_setFlag_of_ne r on (Series.slot_ne_of_counter hs ht)

/-- So do the flags of several subjects. -/
theorem Metrics.Registry.value_setFlags_of_counter (r : Registry) (replicator : String)
    (subjects : List String) (on : Bool) {t : Series} (ht : t.family.isCounter = true) :
    (subjects.foldl (fun m s => m.setFlag (.subjectActive replicator s) on) r).value t = r.value t := by
  rw [value_setFlags, if_neg]
  rintro ⟨s, -, same⟩
  exact Series.slot_ne_of_counter rfl ht same

namespace World

variable {w u v : World} {m : Move} {id : String} {f : Happening → Option Series} {t : Series}

/-! ## Balance -/

/-- How many events of the world count for the slot of a series, as `f` has it. -/
def meant (f : Happening → Option Series) (t : Series) (w : World) : Nat :=
  w.history.countP fun e => (f e.what).any (·.slot = t.slot)

/-- From one world to the other every counter grows by the events that are recorded for its slot. -/
structure Balanced (f : Happening → Option Series) (w v : World) : Prop where
  grows : ∀ t : Series, t.family.isCounter = true →
    v.metrics.value t + w.meant f t = w.metrics.value t + v.meant f t

namespace Balanced

theorem trans (h : Balanced f w u) (h' : Balanced f u v) : Balanced f w v := by
  constructor
  intro t counter
  have first := h.grows t counter
  have second := h'.grows t counter
  omega

/-- Nothing is recorded, and the counters stay as they are. -/
theorem of_quiet (history : v.history = w.history)
    (values : ∀ t : Series, t.family.isCounter = true → v.metrics.value t = w.metrics.value t) :
    Balanced f w v := by
  constructor
  intro t counter
  rw [values t counter, meant, meant, history]

theorem refl (w : World) : Balanced f w w := .of_quiet rfl fun _ _ => rfl

/-- A flag is set. -/
theorem setFlag (w : World) {s : Series} (on : Bool) (gauge : s.family.isCounter = false) :
    Balanced f w (w.modifyMetrics (·.setFlag s on)) :=
  .of_quiet rfl fun _ counter => Registry.value_setFlag_of_counter _ on gauge counter

/-- Something is recorded that does not count. -/
theorem record (w : World) (source : Source) {what : Happening} (none : f what = none) :
    Balanced f w (w.record source what) := by
  constructor
  intro t _
  rw [meant, meant, World.record, List.countP_cons]
  simp [none]

/-- Something is recorded, and then counted. -/
theorem increment {e : Event} {s : Series} (counts : f e.what = some s)
    (history : u.history = e :: w.history)
    (values : ∀ t : Series, t.family.isCounter = true → u.metrics.value t = w.metrics.value t) :
    Balanced f w (u.modifyMetrics (·.increment s)) := by
  constructor
  intro t counter
  have value : (u.modifyMetrics (·.increment s)).metrics.value t =
      w.metrics.value t + if s.slot = t.slot then 1 else 0 := by
    rw [← values t counter]
    exact Registry.value_increment ..
  have meant : (u.modifyMetrics (·.increment s)).meant f t =
      w.meant f t + if s.slot = t.slot then 1 else 0 := by
    show u.history.countP _ = _
    rw [history, List.countP_cons, World.meant]
    simp [counts]
  omega

end Balanced

/-! ## Campaigns -/

section Campaigns

variable {y : Candidacy}

/-- What a gate makes of a note does not count. -/
theorem value_hearAtGate (w : World) (id : String) (n : Note) (counter : t.family.isCounter = true) :
    (w.hearAtGate id n).metrics.value t = w.metrics.value t := by
  unfold hearAtGate
  split
  · rfl
  · split
    · exact Registry.value_setFlag_of_counter _ _ rfl counter
    · exact Registry.value_setFlag_of_counter _ _ rfl counter
    · exact Registry.value_setFlags_of_counter _ _ _ _ counter
    · rfl

theorem value_hear (w : World) (y : Candidacy) (id : String) (n : Note)
    (counter : t.family.isCounter = true) : (hear y id w n).metrics.value t = w.metrics.value t := by
  unfold hear
  dsimp only
  split
  · exact value_hearAtGate _ id n counter
  · rfl

theorem history_hear (w : World) (y : Candidacy) (id : String) (n : Note) :
    (hear y id w n).history = ⟨w.now, .contender id, .noted n⟩ :: w.history := by
  obtain ⟨publishers, metrics, same, -⟩ := hear_eq w y id n
  rw [same]
  rfl

theorem Balanced.hearAll (w : World) (id : String) {notes : List Note}
    (none : ∀ n ∈ notes, f (.noted n) = none) : Balanced f w (notes.foldl (hear y id) w) := by
  induction notes generalizing w with
  | nil => exact .refl w
  | cons n notes ih =>
    rw [List.forall_mem_cons] at none
    refine Balanced.trans ?_ (ih _ none.2)
    exact (Balanced.record w (.contender id) none.1).trans
      (.of_quiet (history_hear w y id n) fun _ counter => value_hear w y id n counter)

/-- A campaign is told to the listener, and then counted. -/
theorem Balanced.campaigned (w : World) (id : String) (tick : Nat) (x : Standing) (changed : Bool) :
    Balanced (Happening.campaign? y) w
      ((hear y id w (.campaigned tick x changed)).countCampaign y x) :=
  Balanced.trans (.increment rfl (history_hear w y id _) fun _ counter => value_hear w y id _ counter)
    (.setFlag _ x.isLeader rfl)

/-- The wait for the next campaign does not count. -/
theorem Balanced.beginWait (w : World) (i : Nat) (interval : Duration) (wait : Wait) (draw : Nat) :
    Balanced (Happening.campaign? y) w (w.beginWait id i interval wait draw) := by
  unfold World.beginWait
  split
  · exact .of_quiet rfl fun _ _ => rfl
  · split
    · exact (Balanced.record w (.contender id) rfl).trans (.of_quiet rfl fun _ _ => rfl)
    · exact .of_quiet rfl fun _ _ => rfl

/-- What is told at the end of a campaign, the standing after it at last. -/
theorem notesOf_eq (hasBackoff : Bool) (tick : Nat) (before after : Standing) :
    ∃ notes, notesOf hasBackoff tick before after =
        notes ++ [.campaigned tick after (decide (before ≠ after))] ∧
      ∀ n ∈ notes, Happening.campaign? y (.noted n) = none := by
  refine ⟨_, rfl, fun n hn => ?_⟩
  rcases List.mem_append.1 hn with hn | hn <;> split at hn
  · rw [List.mem_singleton.1 hn]
    rfl
  · cases hn
  · cases hn
  · split at hn <;> rw [List.mem_singleton.1 hn] <;> rfl

theorem Balanced.concludeRun (w : World) (i : Nat) (c : Contender) (r : Run) (answer? : Option Answer)
    (draw : Nat) : Balanced (Happening.campaign? c.candidacy) w (w.concludeRun id i c r answer? draw) := by
  obtain ⟨notes, split, none⟩ := notesOf_eq (y := c.candidacy) c.candidacy.backoff?.isSome r.ledger.tick
    c.standing (standingAfter answer?)
  simp only [World.concludeRun, conclude, split, List.foldl_append, List.foldl_cons, List.foldl_nil]
  refine Balanced.trans ?_ (.beginWait ..)
  refine Balanced.trans ?_ (.campaigned ..)
  refine Balanced.trans ?_ (.hearAll _ id none)
  exact .of_quiet rfl fun _ _ => rfl

theorem Balanced.actOnStore (w : World) (i : Nat) (c : Contender) (r : Run) (q : Request) (draw : Nat) :
    Balanced (Happening.campaign? c.candidacy) w (w.actOnStore id i c r q draw) := by
  simp only [World.actOnStore]
  split
  · exact .of_quiet rfl fun _ _ => rfl
  · refine Balanced.trans ?_ (.concludeRun ..)
    refine Balanced.trans ?_ (.record (w.setStore ..) (.contender id) rfl)
    exact .of_quiet rfl fun _ _ => rfl

theorem Balanced.campaign (w : World) (i : Nat) (c : Contender) (r : Run) (draw : Nat) :
    Balanced (Happening.campaign? c.candidacy) w (w.campaign id i c r draw) := by
  simp only [World.campaign]
  split
  · exact .concludeRun ..
  · rename_i q _
    have asks : Balanced (Happening.campaign? c.candidacy) w (w.note id (.asked q)) :=
      .record w (.contender id) rfl
    refine asks.trans ?_
    split
    · exact .actOnStore ..
    · exact .of_quiet rfl fun _ _ => rfl

/-- In a turn of a call of `run` every finished campaign is counted. -/
theorem Balanced.pollRun {c : Contender} (hc : w.contenders.get? id = some c) (i draw : Nat) :
    Balanced (Happening.campaign? c.candidacy) w (w.pollRun id i draw) := by
  have leaves (u : World) : Balanced (Happening.campaign? c.candidacy) u (u.leaveRun id i c.candidacy) := by
    refine Balanced.trans ?_ (.setFlag (u.modifyContender ..) false rfl)
    exact .of_quiet rfl fun _ _ => rfl
  simp only [World.pollRun, hc]
  split
  · exact .refl w
  · split
    · split
      · exact .of_quiet rfl fun _ _ => rfl
      · have enters : Balanced (Happening.campaign? c.candidacy) w (w.enterRun id i) :=
          .of_quiet rfl fun _ _ => rfl
        split
        · exact enters.trans (leaves _)
        · exact enters.trans (.campaign ..)
    · split
      · exact leaves w
      · split
        · exact .actOnStore ..
        · exact .refl w
    · split
      · exact leaves w
      · split
        · exact .campaign ..
        · exact .refl w
    · exact .refl w
    · exact .refl w

end Campaigns

/-! ## Heartbeats -/

section Heartbeats

variable {p : Publisher} {j : Nat}

/-- A heartbeat is sent or refused, and counted. -/
theorem Balanced.sendBeat (w : World) (ticker : Ticker) (message : Message) :
    Balanced (Happening.heartbeat? p.replicator) w (w.sendBeat id j p ticker message) := by
  simp only [World.sendBeat]
  generalize (w.outbox p.outbox).send message.deliver = sent
  obtain ⟨box, answer⟩ := sent
  dsimp only
  -- the loop goes back to waiting, which does not count
  refine Balanced.trans (u := ((w.setOutbox p.outbox box).record (.loop id j)
    (.sent message.subject answer)).countSent p.replicator message.subject answer) ?_
    (.of_quiet rfl fun _ _ => rfl)
  cases answer with
  | ok => exact .increment rfl rfl fun _ _ => rfl
  | error => exact .increment rfl rfl fun _ _ => rfl

/-- In a turn of a loop every answer to a heartbeat is counted. -/
theorem Balanced.pollLoop (hp : w.publishers.get? id = some p) (j : Nat) :
    Balanced (Happening.heartbeat? p.replicator) w (w.pollLoop id j) := by
  have ends (u : World) (s : Schedule) :
      Balanced (Happening.heartbeat? p.replicator) u (u.endLoop id j p s) := by
    refine Balanced.trans ?_ (.setFlag (u.moveLoop ..) false rfl)
    exact .of_quiet rfl fun _ _ => rfl
  simp only [World.pollLoop, hp]
  split
  · exact .refl w
  · rename_i l _
    split
    · have lights : Balanced (Happening.heartbeat? p.replicator) w (if p.gated then w
          else w.modifyMetrics (·.setFlag (.subjectActive p.replicator l.schedule.subject) true)) := by
        split
        · exact .refl w
        · exact .setFlag w true rfl
      split
      · exact lights.trans (ends ..)
      · exact lights.trans (.of_quiet rfl fun _ _ => rfl)
    · split
      · exact ends ..
      · split
        · exact .refl w
        · split
          · refine Balanced.trans (@Balanced.record _ w (.loop id j) .passed rfl) ?_
            exact .of_quiet rfl fun _ _ => rfl
          · simp only [beat]
            have begins : Balanced (Happening.heartbeat? p.replicator) w
                (w.record (.loop id j) (.sending (p.heartbeat l w.wall))) :=
              .record w (.loop id j) rfl
            refine begins.trans ?_
            split
            · exact .sendBeat ..
            · exact .of_quiet rfl fun _ _ => rfl
    · split
      · exact ends ..
      · split
        · exact .sendBeat ..
        · exact .refl w
    · exact .refl w

end Heartbeats

end World

end Tenure
