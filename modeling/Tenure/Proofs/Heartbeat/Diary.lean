import Mathlib.Data.List.Chain
import Tenure.Proofs.Heartbeat.Cadence

/-!
# The diary of a loop

What the loop of a subject has done since the world began, with the times.

- **Loops** (`loop?`, `loop_move`): in a move a loop is made, has a turn, or stays where it is.
- **Diaries** (`diary`, `diary_move`): what a move adds to the diary of a loop.
- **Calls** (`Serial`, `recorded_follow`): a call, that is an attempt to publish, ends before the loop does
  anything else, so that its calls never overlap. Only the last one can be under way, or have been dropped when
  the loop ended.
-/

namespace Tenure

/-- What a loop does, with the time, if the event is its own. -/
def Event.deed? (id : String) (j : Nat) (e : Event) : Option (Nat × Happening) :=
  (e.beat? id j).map (e.time, ·)

/-- Where there is no loop nothing happens. -/
theorem Publisher.Beat.eq_of_absent {now : Nat} {wall : Int} {p : Publisher} {box : Outbox} {j : Nat}
    {o : Publisher.Outcome} (b : p.Beat now wall box j o) (absent : p.loops[j]? = none) :
    o = ⟨p, box, []⟩ := by
  cases b with
  | still => rfl
  | ends loop | begins loop | passes loop | launches loop | sends loop | completes loop =>
    cases absent.symm.trans loop

namespace World

variable {w : World} {m : Move} {id : String} {j : Nat} {l : Publisher.Loop}

/-! ## Loops -/

/-- The loop at a place in a publisher's list of subjects. -/
def loop? (w : World) (id : String) (j : Nat) : Option Publisher.Loop :=
  (w.publishers.get? id).bind (·.loops[j]?)

theorem loop?_eq_some_iff :
    w.loop? id j = some l ↔ ∃ p, w.publishers.get? id = some p ∧ p.loops[j]? = some l :=
  Option.bind_eq_some_iff

theorem loop?_of_publisher {p : Publisher} (h : w.publishers.get? id = some p) :
    w.loop? id j = p.loops[j]? := by
  rw [loop?, h, Option.bind_some]

/-- What a move makes of a loop: it has a turn, or it stays where it is and does nothing, or it is made. -/
inductive LoopMoved (w : World) (m : Move) (id : String) (j : Nat) : Prop
  | beat {p : Publisher} {l : Publisher.Loop} {draw : Nat} {o : Publisher.Outcome}
      (poll : m = .poll (.loop id j) draw) (was : w.publishers.get? id = some p)
      (loop : p.loops[j]? = some l) (beat : p.Beat w.now w.wall (w.outbox p.outbox) j o)
      (effect : BeatEffect w id j p o (w.move m))
  | rests (quiet : w.beats id j m = []) (same : (w.move m).loop? id j = w.loop? id j)
  | made {s : Schedule} (quiet : w.beats id j m = []) (absent : w.loop? id j = none)
      (new : (w.move m).loop? id j = some { schedule := s })

/-- Where there is no loop nothing is done. -/
theorem beats_of_absent (absent : w.loop? id j = none) : w.beats id j m = [] := by
  cases w.played m with
  | turn _ _ _ effect =>
    unfold beats
    rw [added_eq effect.history, ← List.map_reverse, List.filterMap_map]
    simp [Function.comp_def, Event.beat?]
  | @beat id' p j' draw o _ was beat effect =>
    rw [effect.beats]
    split
    · rename_i own
      obtain ⟨rfl, rfl⟩ := own
      rw [loop?_of_publisher was] at absent
      rw [beat.eq_of_absent absent]
    · rfl
  | call called => exact beats_of_history called.recast.history
  | stage staged => exact beats_of_history staged.history

/-- The loops of a publisher that has not been started are made at its start. -/
theorem loopMoved_of_new (kempt : w.Kempt) {p : Publisher} (hp : w.publishers.get? id = some p)
    (new : p.started = false) (m : Move) : LoopMoved w m id j := by
  obtain ⟨empty, -⟩ := (kempt.fits hp).new new
  have absent : w.loop? id j = none := by
    rw [loop?_of_publisher hp, empty]
    rfl
  have quiet := beats_of_absent absent (m := m)
  obtain ⟨p', hp', fares⟩ := hasFate hp kempt.scheduled m
  have stays (loops : p'.loops = p.loops) : LoopMoved w m id j := by
    refine .rests quiet ?_
    rw [loop?_of_publisher hp', loop?_of_publisher hp, loops]
  cases fares with
  | @turn c i draw o =>
    refine stays ?_
    split
    · obtain ⟨paused, heard⟩ := p.hearAll_eq o.notes
      rw [heard]
    · rfl
  | beat loop =>
    rw [empty] at loop
    cases loop
  | closes | aside => exact stays rfl
  | starts =>
    cases subject : p.schedules[j]? with
    | none =>
      refine .rests quiet ?_
      rw [loop?_of_publisher hp', absent, List.getElem?_map, subject]
      rfl
    | some s =>
      refine @LoopMoved.made _ _ _ _ s quiet absent ?_
      rw [loop?_of_publisher hp', List.getElem?_map, subject]
      rfl

theorem loop_move (kempt : w.Kempt) (m : Move) (id : String) (j : Nat) : LoopMoved w m id j := by
  cases hp : w.publishers.get? id with
  | none =>
    have absent : w.loop? id j = none := by rw [loop?, hp, Option.bind_none]
    refine .rests (beats_of_absent absent) ?_
    rw [absent]
    cases hp' : (w.move m).publishers.get? id with
    | none => rw [loop?, hp', Option.bind_none]
    | some p' =>
      rw [loop?_of_publisher hp']
      cases publisherBecame hp' with
      | opened opens free =>
        obtain ⟨fits, new, -⟩ := fits_of_opened opens free
        rw [(fits.new new).1]
        rfl
      | aside was | beat _ was => cases hp.symm.trans was
  | some p =>
    cases started : p.started with
    | false => exact loopMoved_of_new kempt hp started m
    | true =>
      obtain ⟨p', hp', moved⟩ := moved hp started kempt.scheduled m
      cases moved with
      | rests aside loops quiet =>
        refine .rests (quiet j) ?_
        rw [loop?_of_publisher hp', loop?_of_publisher hp, loops]
      | @beat j' draw o poll beat effect =>
        by_cases hj : j' = j
        · subst j'
          cases loop : p.loops[j]? with
          | none =>
            have absent : w.loop? id j = none := (loop?_of_publisher hp).trans loop
            refine .rests (beats_of_absent absent) ?_
            rw [absent, loop?_of_publisher hp', beat.eq_of_absent loop, loop]
          | some l => exact .beat poll hp loop beat effect
        · refine .rests (effect.beats.trans (if_neg fun same => hj same.2)) ?_
          rw [loop?_of_publisher hp', loop?_of_publisher hp, beat.getElem?_of_ne hj]

/-! ## Diaries -/

/-- What a loop has done, in order. -/
def diary (w : World) (id : String) (j : Nat) : List (Nat × Happening) :=
  (w.history.filterMap (·.deed? id j)).reverse

/-- What a move adds happens at its time. -/
theorem time_of_mem_added {e : Event} (h : e ∈ w.added m) : e.time = w.now := by
  cases w.played m with
  | turn _ _ _ effect =>
    rw [added_eq effect.history, List.mem_reverse, List.mem_map] at h
    obtain ⟨n, -, rfl⟩ := h
    rfl
  | beat _ _ _ effect =>
    rw [added_eq effect.history, List.mem_reverse, List.mem_map] at h
    obtain ⟨x, -, rfl⟩ := h
    rfl
  | call called =>
    rw [@added_eq _ _ [] called.recast.history] at h
    cases h
  | stage staged =>
    rw [@added_eq _ _ [] staged.history] at h
    cases h

/-- A move adds what the loop does in it. -/
theorem diary_move (w : World) (m : Move) (id : String) (j : Nat) :
    (w.move m).diary id j = w.diary id j ++ (w.beats id j m).map (w.now, ·) := by
  obtain ⟨events, history⟩ := w.history_move m
  have now : ∀ e ∈ events, e.time = w.now := fun e he =>
    time_of_mem_added (added_eq history ▸ he)
  have deeds : events.filterMap (·.deed? id j) = (events.filterMap (·.beat? id j)).map (w.now, ·) := by
    rw [List.map_filterMap]
    refine List.filterMap_congr fun e he => ?_
    rw [Event.deed?, now e he]
  unfold diary beats
  rw [history, added_eq history, List.filterMap_append, List.reverse_append, deeds, List.map_reverse]

/-! ## Calls -/

end World

/-- A loop on a subject has done one thing after another: a call, that is an attempt to publish, begins only
when none is under way, and nothing else is done before it ends. `pending?` is the call under way, or the one
that was dropped. -/
inductive Serial (subject : String) : List (Nat × Happening) → Option Message → Prop
  | empty : Serial subject [] none
  | passes {d : List (Nat × Happening)} {time : Nat} (before : Serial subject d none)
      (past : ∀ x ∈ d, x.1 ≤ time) : Serial subject (d ++ [(time, .passed)]) none
  | begins {d : List (Nat × Happening)} {time : Nat} {m : Message} (before : Serial subject d none)
      (past : ∀ x ∈ d, x.1 ≤ time) (topic : m.subject = subject) :
      Serial subject (d ++ [(time, .sending m)]) (some m)
  | ends {d : List (Nat × Happening)} {time : Nat} {m : Message} {answer : Except PublishError Unit}
      (before : Serial subject d (some m)) (past : ∀ x ∈ d, x.1 ≤ time) :
      Serial subject (d ++ [(time, .sent m.subject answer)]) none

namespace Publisher

/-- What the diary of a loop on a subject is like where the loop stands. -/
def Phase.Writes (subject : String) (d : List (Nat × Happening)) : Phase → Prop
  | .fresh => d = []
  | .idle _ => Serial subject d none
  | .sending _ m _ => Serial subject d (some m)
  | .over => ∃ pending?, Serial subject d pending?

theorem Phase.Writes.serial {subject : String} {d : List (Nat × Happening)} {phase : Phase}
    (h : phase.Writes subject d) : ∃ pending?, Serial subject d pending? := by
  cases phase with
  | fresh => exact ⟨none, h ▸ .empty⟩
  | idle | sending => exact ⟨_, h⟩
  | _ => exact h

variable {now : Nat} {wall : Int} {p : Publisher} {box : Outbox} {j : Nat} {o : Outcome} {l : Loop}
  {d : List (Nat × Happening)}

/-- In a turn a loop goes on with its diary. -/
theorem Beat.writes (b : p.Beat now wall box j o) (loop : p.loops[j]? = some l)
    (past : ∀ x ∈ d, x.1 ≤ now) (writes : l.phase.Writes l.schedule.subject d) :
    ∃ phase, o.publisher.loops[j]? = some { l with phase := phase } ∧
      phase.Writes l.schedule.subject (d ++ o.happenings.map (now, ·)) := by
  have moves (phase : Phase) : (p.setPhase j phase).loops[j]? = some { l with phase := phase } := by
    rw [getElem?_setPhase, if_pos rfl, loop, Option.map_some]
  have quiet : d ++ [] = d := List.append_nil d
  cases b with
  | still => exact ⟨l.phase, loop, quiet.symm ▸ writes⟩
  | ends => exact ⟨.over, moves _, quiet.symm ▸ writes.serial⟩
  | @begins l' loop' _ fresh =>
    cases loop.symm.trans loop'
    rw [fresh] at writes
    obtain rfl : d = [] := writes
    exact ⟨_, moves (.idle _), .empty⟩
  | @passes l' t loop' _ idle =>
    cases loop.symm.trans loop'
    rw [idle] at writes
    exact ⟨_, moves (.idle _), .passes writes past⟩
  | @launches l' t loop' _ idle =>
    cases loop.symm.trans loop'
    rw [idle] at writes
    exact ⟨_, moves (.sending _ _ _), .begins writes past rfl⟩
  | @sends l' t loop' _ idle =>
    cases loop.symm.trans loop'
    rw [idle] at writes
    have begun : Serial l.schedule.subject (d ++ [(now, .sending (p.heartbeat l wall))])
        (some (p.heartbeat l wall)) := .begins writes past rfl
    refine ⟨_, moves (.idle _), ?_⟩
    rw [List.map_cons, List.append_cons]
    refine .ends begun fun x hx => ?_
    rcases List.mem_append.1 hx with hx | hx
    · exact past x hx
    · rw [List.mem_singleton.1 hx]
  | @completes l' t m due loop' _ sending =>
    cases loop.symm.trans loop'
    rw [sending] at writes
    exact ⟨_, moves (.idle _), .ends writes past⟩

end Publisher

namespace World

variable {w : World} {m : Move} {id : String} {j : Nat} {l : Publisher.Loop}

/-- The loop keeps its diary, and where there is no loop there is none. -/
structure Recorded (w : World) (id : String) (j : Nat) : Prop where
  past : ∀ x ∈ w.diary id j, x.1 ≤ w.now
  absent : w.loop? id j = none → w.diary id j = []
  writes : ∀ l, w.loop? id j = some l → l.phase.Writes l.schedule.subject (w.diary id j)

theorem Recorded.move (h : w.Recorded id j) (kempt : w.Kempt) (m : Move) :
    (w.move m).Recorded id j := by
  have past : ∀ x ∈ (w.move m).diary id j, x.1 ≤ (w.move m).now := by
    intro x hx
    refine Nat.le_trans ?_ (now_le_move w m)
    rw [diary_move] at hx
    rcases List.mem_append.1 hx with hx | hx
    · exact h.past x hx
    · obtain ⟨_, -, rfl⟩ := List.mem_map.1 hx
      exact Nat.le_refl _
  have still (quiet : w.beats id j m = []) : (w.move m).diary id j = w.diary id j := by
    rw [diary_move, quiet, List.map_nil, List.append_nil]
  cases loop_move kempt m id j with
  | rests quiet same =>
    refine ⟨past, fun none => ?_, fun l loop => ?_⟩
    · exact (still quiet).trans (h.absent (same.symm.trans none))
    · rw [still quiet]
      exact h.writes l (same.symm.trans loop)
  | made quiet absent new =>
    have empty : (w.move m).diary id j = [] := (still quiet).trans (h.absent absent)
    refine ⟨past, fun _ => empty, fun l loop => ?_⟩
    cases new.symm.trans loop
    exact empty
  | @beat p l draw o poll was loop beat effect =>
    obtain ⟨phase, loop', writes⟩ := beat.writes loop h.past
      (h.writes l ((loop?_of_publisher was).trans loop))
    have after : (w.move m).loop? id j = some { l with phase := phase } :=
      (loop?_of_publisher ((effect.publishers id).trans (if_pos rfl))).trans loop'
    have diary : (w.move m).diary id j = w.diary id j ++ o.happenings.map (w.now, ·) := by
      rw [diary_move, effect.beats, if_pos ⟨rfl, rfl⟩]
    refine ⟨past, fun none => ?_, fun l' hl' => ?_⟩
    · cases after.symm.trans none
    · cases after.symm.trans hl'
      rw [diary]
      exact writes

/-- Every loop keeps its diary. -/
theorem recorded_follow (host : String) (wall : Int) (now : Nat) (course : List Move) (id : String)
    (j : Nat) : ((fresh host wall now).follow course).Recorded id j := by
  have base : (fresh host wall now).Recorded id j := by
    constructor
    case past => exact List.forall_mem_nil _
    case absent => exact fun _ => rfl
    case writes => exact fun l loop => by cases loop
  have both := follow_induct (w := fresh host wall now) (I := fun w => w.Kempt ∧ w.Recorded id j)
    course ⟨kempt_fresh host wall now, base⟩ fun v m h => ⟨h.1.move m, h.2.move h.1 m⟩
  exact both.2

end World

end Tenure
