import Mathlib.Data.List.Induction
import Mathlib.Data.List.NodupEquivFin
import Tenure.Proofs.Config.Check
import Tenure.Proofs.Heartbeat.Diary

/-!
# The distance between heartbeats

A loop that was held up does not make up for the ticks it missed. Its ticks are periods apart, less the five
milliseconds that a tick may be late without a new start of the period, and this lateness does not add up.

- **Instants** (`Spread`): instants of which any two are as many periods apart as places, less the tolerance.
  Only so many of them lie in a window (`Spread.length_le`).
- **Tickers** (`Ticker.Spaces`): the ticks so far with the next one after them are spread, which is what a
  tick keeps (`Ticker.Spaces.tick`).
- **Courses** (`Begins`, `spaced`): so are the ticks of every loop on every course, whatever the clock, the
  outbox and the election do. The period is the interval, up to thirty years (`spaced_cut`).
-/

namespace Tenure

/-! ## Instants -/

/-- Any two of the instants lie as many periods apart as there are places between them, less the
tolerance. -/
def Spread (period : Nat) (times : List Nat) : Prop :=
  ∀ k n x y, times[k]? = some x → times[k + n]? = some y → x + n * period ≤ y + Ticker.tolerance

variable {period : Nat} {times : List Nat}

theorem spread_concat {y : Nat} : Spread period (times ++ [y]) ↔ Spread period times ∧
    ∀ k n x, times[k]? = some x → k + n = times.length → x + n * period ≤ y + Ticker.tolerance := by
  constructor
  · intro h
    refine ⟨fun k n x z hx hz => ?_, fun k n x hx last => ?_⟩
    · obtain ⟨hk, -⟩ := List.getElem?_eq_some_iff.1 hx
      obtain ⟨hn, -⟩ := List.getElem?_eq_some_iff.1 hz
      exact h k n x z (by rw [List.getElem?_append_left hk, hx])
        (by rw [List.getElem?_append_left hn, hz])
    · obtain ⟨hk, -⟩ := List.getElem?_eq_some_iff.1 hx
      exact h k n x y (by rw [List.getElem?_append_left hk, hx]) (by rw [last, List.getElem?_concat_length])
  · rintro ⟨spread, next⟩ k n x z hx hz
    rcases Nat.lt_trichotomy (k + n) times.length with inside | last | beyond
    · rw [List.getElem?_append_left inside] at hz
      rw [List.getElem?_append_left (by omega)] at hx
      exact spread k n x z hx hz
    · rw [last, List.getElem?_concat_length] at hz
      cases hz
      rcases Nat.eq_zero_or_pos n with rfl | pos
      · rw [Nat.add_zero] at last
        rw [last, List.getElem?_concat_length] at hx
        cases hx
        omega
      · rw [List.getElem?_append_left (by omega)] at hx
        exact next k n x hx last
    · rw [List.getElem?_eq_none (by rw [List.length_append, List.length_singleton]; omega)] at hz
      cases hz

/-- Not many of the instants lie in a window. -/
theorem Spread.length_le (h : Spread period times) (pos : 0 < period) {chosen : List Nat}
    (among : chosen.Sublist times) {first length : Nat}
    (inside : ∀ x ∈ chosen, first ≤ x ∧ x ≤ first + length) :
    chosen.length ≤ (length + Ticker.tolerance) / period + 1 := by
  obtain ⟨place, same⟩ := List.sublist_iff_exists_orderEmbedding_getElem?_eq.1 among
  cases number : chosen.length with
  | zero => exact Nat.zero_le _
  | succ n =>
    have hx : chosen[0]? = some chosen[0] := List.getElem?_eq_getElem (by omega)
    have hy : chosen[n]? = some chosen[n] := List.getElem?_eq_getElem (by omega)
    -- the first and the last of them are at least `n` places apart
    obtain ⟨k, apart⟩ : ∃ k, place n = place 0 + k ∧ n ≤ k := by
      have gap := StrictMono.add_le_nat place.strictMono n 0
      rw [Nat.add_zero] at gap
      exact ⟨place n - place 0, by omega, by omega⟩
    have distance := h (place 0) k chosen[0] chosen[n] (by rw [← same, hx])
      (by rw [← apart.1, ← same, hy])
    have below := (inside chosen[0] (List.getElem_mem _)).1
    have above := (inside chosen[n] (List.getElem_mem _)).2
    have periods : n * period ≤ k * period := Nat.mul_le_mul_right _ apart.2
    exact Nat.succ_le_succ ((Nat.le_div_iff_mul_le pos).2 (by omega))

/-! ## Tickers -/

namespace Ticker

theorem next_add_le_next_tick {t : Ticker} {now : Nat} (due : t.next ≤ now) :
    t.next + t.period ≤ (t.tick now).next := by
  rw [next_tick]
  split <;> omega

/-- A ticker that was started at `start` keeps the ticks apart: those so far, and the next one after them. -/
structure Spaces (t : Ticker) (s : Schedule) (start : Nat) (times : List Nat) : Prop where
  period : t.period = Clock.cut s.interval.nanos
  first : start + s.interval.nanos ≤ t.next
  spread : Spread t.period (times ++ [t.next])

theorem spaces_start (s : Schedule) (start : Nat) :
    (Ticker.start start s.interval.nanos).Spaces s start [] := by
  refine ⟨rfl, Nat.le_refl _, spread_concat.2 ⟨?_, ?_⟩⟩
  · exact fun k n x y hx => by cases hx
  · exact fun k n x hx => by cases hx

theorem Spaces.tick {t : Ticker} {s : Schedule} {start now : Nat} (h : t.Spaces s start times)
    (due : t.next ≤ now) : (t.tick now).Spaces s start (times ++ [now]) := by
  obtain ⟨spread, next⟩ := spread_concat.1 h.spread
  have later := next_add_le_next_tick due
  have since := le_next_tick t now
  refine ⟨h.period, Nat.le_trans h.first (by omega), spread_concat.2 ⟨spread_concat.2 ⟨spread, ?_⟩, ?_⟩⟩
  · intro k n x hx last
    exact Nat.le_trans (next k n x hx last) (Nat.add_le_add_right due _)
  · intro k n x hx last
    rw [List.length_append, List.length_singleton] at last
    show x + n * t.period ≤ _
    rcases Nat.lt_or_ge k times.length with inside | new
    · rw [List.getElem?_append_left inside] at hx
      obtain ⟨n, rfl⟩ : ∃ i, n = i + 1 := ⟨n - 1, by omega⟩
      have before := next k n x hx (by omega)
      rw [Nat.add_mul, Nat.one_mul]
      omega
    · obtain ⟨hk, -⟩ := List.getElem?_eq_some_iff.1 hx
      rw [List.length_append, List.length_singleton] at hk
      obtain rfl : k = times.length := by omega
      obtain rfl : n = 1 := by omega
      rw [List.getElem?_concat_length] at hx
      cases hx
      rw [Nat.one_mul]
      exact since

end Ticker

/-! ## Loops -/

/-- Whether the loop publishes at a tick, if this is one. -/
def Happening.stroke? : Happening → Option Bool
  | .passed => some false
  | .sending _ => some true
  | .noted _ | .sent _ _ => none

/-- The ticks in a diary with their times, and whether the loop published. -/
def strokes (d : List (Nat × Happening)) : List (Nat × Bool) :=
  d.filterMap fun x => x.2.stroke?.map (x.1, ·)

/-- When the loop ticked. -/
def strokeTimes (d : List (Nat × Happening)) : List Nat := (strokes d).map (·.1)

/-- When the loop began to publish. -/
def callTimes (d : List (Nat × Happening)) : List Nat := ((strokes d).filter (·.2)).map (·.1)

theorem strokeTimes_append (d e : List (Nat × Happening)) :
    strokeTimes (d ++ e) = strokeTimes d ++ strokeTimes e := by
  rw [strokeTimes, strokes, List.filterMap_append, List.map_append]
  rfl

/-- The ticks of a loop that began at `start`. -/
structure Spaced (s : Schedule) (start : Nat) (times : List Nat) : Prop where
  first : ∀ x ∈ times, start + s.interval.nanos ≤ x
  spread : Spread (Clock.cut s.interval.nanos) times

theorem spaced_nil (s : Schedule) (start : Nat) : Spaced s start [] where
  first := List.forall_mem_nil _
  spread k n x y hx := by cases hx

theorem Ticker.Spaces.concat {t : Ticker} {s : Schedule} {start now : Nat}
    (h : t.Spaces s start times) (due : t.next ≤ now) (spaced : Spaced s start times) :
    Spaced s start (times ++ [now]) := by
  refine ⟨fun x hx => ?_, h.period ▸ (spread_concat.1 (h.tick due).spread).1⟩
  rcases List.mem_append.1 hx with hx | hx
  · exact spaced.first x hx
  · rw [List.mem_singleton.1 hx]
    exact Nat.le_trans h.first due

namespace Publisher

/-- Where a loop stands that began at `start`, with the times of its ticks. -/
def Phase.Spaces (s : Schedule) (start : Nat) (times : List Nat) : Phase → Prop
  | .fresh => False
  | .idle t | .sending t _ _ => t.Spaces s start times
  | .over => True

variable {now start : Nat} {wall : Int} {p : Publisher} {box : Outbox} {j : Nat} {o : Outcome}
  {l : Loop} {d : List (Nat × Happening)}

/-- The first turn of a loop: it begins, or it ends at once. -/
theorem Beat.spaces_of_fresh (b : p.Beat now wall box j o) (loop : p.loops[j]? = some l)
    (fresh : l.phase = .fresh) :
    ∃ phase, o.publisher.loops[j]? = some { l with phase := phase } ∧ o.happenings = [] ∧
      (phase = .fresh ∨ phase.Spaces l.schedule now []) := by
  have moves (phase : Phase) : (p.setPhase j phase).loops[j]? = some { l with phase := phase } := by
    rw [getElem?_setPhase, if_pos rfl, loop, Option.map_some]
  have here {l' : Loop} (loop' : p.loops[j]? = some l') : l'.phase = .fresh := by
    rwa [Option.some.inj (loop'.symm.trans loop)]
  cases b with
  | still => exact ⟨l.phase, loop, rfl, .inl fresh⟩
  | ends => exact ⟨.over, moves _, rfl, .inr trivial⟩
  | @begins l' loop' =>
    obtain rfl := Option.some.inj (loop.symm.trans loop')
    exact ⟨_, moves _, rfl, .inr (Ticker.spaces_start _ now)⟩
  | passes loop' _ phase | launches loop' _ phase | sends loop' _ phase | completes loop' _ phase =>
    cases (here loop').symm.trans phase

/-- Every other turn keeps the ticks apart. -/
theorem Beat.spaces (b : p.Beat now wall box j o) (loop : p.loops[j]? = some l)
    (spaced : Spaced l.schedule start (strokeTimes d))
    (spaces : l.phase.Spaces l.schedule start (strokeTimes d)) :
    ∃ phase, o.publisher.loops[j]? = some { l with phase := phase } ∧
      Spaced l.schedule start (strokeTimes (d ++ o.happenings.map (now, ·))) ∧
      phase.Spaces l.schedule start (strokeTimes (d ++ o.happenings.map (now, ·))) := by
  have moves (phase : Phase) : (p.setPhase j phase).loops[j]? = some { l with phase := phase } := by
    rw [getElem?_setPhase, if_pos rfl, loop, Option.map_some]
  rw [strokeTimes_append]
  -- at a tick the ticker goes on to the next one
  have comes {t : Ticker} (phase : l.phase = .idle t) (due : t.isDue now = true) :
      Spaced l.schedule start (strokeTimes d ++ [now]) ∧
        (t.tick now).Spaces l.schedule start (strokeTimes d ++ [now]) := by
    rw [phase] at spaces
    have due := Clock.le_of_hasFired due
    exact ⟨Ticker.Spaces.concat spaces due spaced, Ticker.Spaces.tick spaces due⟩
  have quiet : strokeTimes d ++ [] = strokeTimes d := List.append_nil _
  cases b with
  | still => exact ⟨l.phase, loop, quiet.symm ▸ spaced, quiet.symm ▸ spaces⟩
  | ends => exact ⟨.over, moves _, quiet.symm ▸ spaced, trivial⟩
  | @begins l' loop' _ phase =>
    obtain rfl := Option.some.inj (loop.symm.trans loop')
    rw [phase] at spaces
    exact spaces.elim
  | @passes l' t loop' _ phase due =>
    obtain rfl := Option.some.inj (loop.symm.trans loop')
    obtain ⟨spaced, next⟩ := comes phase due
    exact ⟨_, moves (.idle (t.tick now)), spaced, next⟩
  | @launches l' t loop' _ phase due =>
    obtain rfl := Option.some.inj (loop.symm.trans loop')
    obtain ⟨spaced, next⟩ := comes phase due
    exact ⟨_, moves (.sending (t.tick now) _ _), spaced, next⟩
  | @sends l' t loop' _ phase due =>
    obtain rfl := Option.some.inj (loop.symm.trans loop')
    obtain ⟨spaced, next⟩ := comes phase due
    exact ⟨_, moves (.idle (t.tick now)), spaced, next⟩
  | @completes l' t m due loop' _ phase =>
    obtain rfl := Option.some.inj (loop.symm.trans loop')
    rw [phase] at spaces
    exact ⟨_, moves (.idle t), quiet.symm ▸ spaced, quiet.symm ▸ spaces⟩

end Publisher

/-! ## Intervals -/

/-- The intervals of an accepted publisher are not zero. -/
theorem Publisher.interval_pos {global : Headers} {subject : SubjectSettings} {s : Schedule}
    (h : Publisher.scheduleOf global subject = .ok s) : 0 < s.interval.nanos := by
  obtain ⟨-, period, -⟩ := Publisher.scheduleOf_eq_ok_iff.1 h
  exact (SubjectSettings.period_eq_ok_iff.1 period).2

namespace World

variable {w : World} {m : Move} {id : String} {j : Nat} {l : Publisher.Loop}

/-- The intervals of all publishers are positive. -/
def Lively (w : World) : Prop :=
  ∀ {id p}, w.publishers.get? id = some p → ∀ s ∈ p.schedules, 0 < s.interval.nanos

theorem lively_move (h : w.Lively) (m : Move) : (w.move m).Lively := by
  intro id p' hp' s hs
  cases publisherBecame hp' with
  | opened opens _ =>
    cases opens with
    | mk accepted =>
      obtain ⟨schedules, made, rfl, -⟩ := Publisher.ofConfig_ok accepted
      obtain ⟨subject, -, hs⟩ := exists_of_mapM_ok made hs
      exact Publisher.interval_pos hs
  | aside was aside =>
    rw [aside.schedules] at hs
    exact h was s hs
  | beat _ was beat _ after =>
    obtain ⟨loops, same⟩ := beat.exists_loops
    rw [after, same] at hs
    exact h was s hs

/-- The interval of every loop is positive. -/
theorem interval_pos (host : String) (wall : Int) (now : Nat) (course : List Move)
    (loop : ((fresh host wall now).follow course).loop? id j = some l) :
    0 < l.schedule.interval.nanos := by
  have lively : ((fresh host wall now).follow course).Lively :=
    follow_induct course (I := Lively) (fun h => by simp at h) fun _ m h => lively_move h m
  obtain ⟨p, hp, here⟩ := loop?_eq_some_iff.1 loop
  exact lively hp _ ((kempt_follow host wall now course).scheduled hp
    (List.mem_map_of_mem (List.mem_of_getElem? here)))

/-! ## Courses -/

/-- On the course the loop begins at `start`: then it has its first turn. -/
def Begins (w : World) (course : List Move) (id : String) (j start : Nat) : Prop :=
  ∃ before draw after l, course = before ++ .poll (.loop id j) draw :: after ∧
    (w.follow before).loop? id j = some l ∧ l.phase = .fresh ∧ (w.follow before).now = start

theorem Begins.concat {course : List Move} {start : Nat} (h : w.Begins course id j start) (m : Move) :
    w.Begins (course ++ [m]) id j start := by
  obtain ⟨before, draw, after, l, rfl, loop, fresh, now⟩ := h
  exact ⟨before, draw, after ++ [m], l, by simp, loop, fresh, now⟩

/-- The loop has not begun, or it keeps its ticks apart since it began. -/
def PacesSince (w : World) (course : List Move) (id : String) (j : Nat) (l : Publisher.Loop) : Prop :=
  l.phase = .fresh ∨ ∃ start, w.Begins course id j start ∧
    Spaced l.schedule start (strokeTimes ((w.follow course).diary id j)) ∧
    l.phase.Spaces l.schedule start (strokeTimes ((w.follow course).diary id j))

theorem paces_follow (host : String) (wall : Int) (now : Nat) (course : List Move)
    (loop : ((fresh host wall now).follow course).loop? id j = some l) :
    (fresh host wall now).PacesSince course id j l := by
  induction course using List.reverseRecOn generalizing l with
  | nil => cases loop
  | append_singleton course m ih =>
    have kempt := kempt_follow host wall now course
    have recorded := recorded_follow host wall now course id j
    rw [follow_concat] at loop
    unfold PacesSince
    rw [follow_concat, diary_move]
    cases loop_move kempt m id j with
    | rests quiet same =>
      rw [quiet, List.map_nil, List.append_nil]
      rcases ih (same.symm.trans loop) with fresh | ⟨start, begins, spaced, spaces⟩
      · exact .inl fresh
      · exact .inr ⟨start, begins.concat m, spaced, spaces⟩
    | made _ _ new =>
      cases new.symm.trans loop
      exact .inl rfl
    | @beat p l₀ draw o poll was loop₀ beat effect =>
      have was_loop := (loop?_of_publisher was).trans loop₀
      have after : (((fresh host wall now).follow course).move m).loop? id j =
          o.publisher.loops[j]? := loop?_of_publisher ((effect.publishers id).trans (if_pos rfl))
      rw [effect.beats, if_pos ⟨rfl, rfl⟩]
      rcases ih was_loop with fresh | ⟨start, begins, spaced, spaces⟩
      · obtain ⟨phase, loop', nothing, begun⟩ := beat.spaces_of_fresh loop₀ fresh
        cases (after.symm.trans loop).symm.trans loop'
        have empty := recorded.writes l₀ was_loop
        rw [fresh] at empty
        rw [show (((World.fresh host wall now).follow course).diary id j) = [] from empty, nothing]
        rcases begun with stays | spaces
        · exact .inl stays
        · exact .inr ⟨_, ⟨course, draw, [], l₀, poll ▸ rfl, was_loop, fresh, rfl⟩, spaced_nil _ _, spaces⟩
      · obtain ⟨phase, loop', spaced', spaces'⟩ := beat.spaces loop₀ spaced spaces
        cases (after.symm.trans loop).symm.trans loop'
        exact .inr ⟨start, begins.concat m, spaced', spaces'⟩

/-- Whatever the clock, the outbox and the election do, no loop publishes in storms. Its calls come one after
another, the first one no earlier than an interval after the loop began. Any two ticks are as many periods
apart as there are ticks from one to the other, less five milliseconds, and so only so many calls begin in a
window. The period is the interval, up to thirty years. -/
theorem spaced (host : String) (wall : Int) (now : Nat) (course : List Move)
    (loop : ((fresh host wall now).follow course).loop? id j = some l) :
    let d := ((fresh host wall now).follow course).diary id j
    let period := Clock.cut l.schedule.interval.nanos
    (∃ pending?, Serial l.schedule.subject d pending?) ∧
    (l.phase = .fresh ∧ d = [] ∨ ∃ start, (fresh host wall now).Begins course id j start ∧
      ∀ x ∈ callTimes d, start + l.schedule.interval.nanos ≤ x) ∧
    (∀ (k n : Nat) (x y : Nat × Bool), (strokes d)[k]? = some x → (strokes d)[k + n]? = some y →
      x.1 + n * period ≤ y.1 + Ticker.tolerance) ∧
    (∀ first length, ((callTimes d).filter fun x => first ≤ x ∧ x ≤ first + length).length ≤
      (length + Ticker.tolerance) / period + 1) ∧
    (l.schedule.interval.nanos ≤ Clock.longestWait → period = l.schedule.interval.nanos) := by
  intro d period
  have writes := (recorded_follow host wall now course id j).writes l loop
  have calls : (callTimes d).Sublist (strokeTimes d) := List.filter_sublist.map _
  have pos : 0 < period := by
    refine Nat.lt_min.2 ⟨interval_pos host wall now course loop, ?_⟩
    unfold Clock.longestWait
    decide
  have spread : Spread period (strokeTimes d) := by
    rcases paces_follow host wall now course loop with fresh | ⟨start, -, spaced, -⟩
    · rw [fresh] at writes
      rw [show d = [] from writes]
      exact (spaced_nil l.schedule now).spread
    · exact spaced.spread
  refine ⟨writes.serial, ?_, fun k n x y hx hy => ?_, fun first length => ?_, Clock.cut_of_le⟩
  · rcases paces_follow host wall now course loop with fresh | ⟨start, begins, spaced, -⟩
    · rw [fresh] at writes
      exact .inl ⟨fresh, writes⟩
    · exact .inr ⟨start, begins, fun x hx => spaced.first x (calls.subset hx)⟩
  · refine spread k n x.1 y.1 ?_ ?_
    · rw [strokeTimes, List.getElem?_map, hx, Option.map_some]
    · rw [strokeTimes, List.getElem?_map, hy, Option.map_some]
  · have inside : ∀ x ∈ (callTimes d).filter fun x => first ≤ x ∧ x ≤ first + length,
        first ≤ x ∧ x ≤ first + length := fun x hx => of_decide_eq_true (List.mem_filter.1 hx).2
    exact spread.length_le pos (List.filter_sublist.trans calls) inside

/-- A heartbeat every five seconds, of which one is held up for twelve. -/
def stall : List Move :=
  [.openPublisher "p" { Config.solo "5s" with leaderElection := false } "r" "o" none {},
    .startPublisher "p" false, .poll (.loop "p" 0) 0, .setOutboxDelay "o" 12000000000,
    .advance 5000000000, .poll (.loop "p" 0) 0, .setOutboxDelay "o" 0, .advance 12000000000,
    .poll (.loop "p" 0) 0, .poll (.loop "p" 0) 0, .advance 5000000000, .poll (.loop "p" 0) 0]

theorem spaced_stall :
    callTimes (((fresh "h" 0 0).follow stall).diary "p" 0) = [5000000000, 17000000000, 22000000000] ∧
    ∀ first length, ((callTimes (((fresh "h" 0 0).follow stall).diary "p" 0)).filter
      fun x => first ≤ x ∧ x ≤ first + length).length ≤ (length + Ticker.tolerance) / 5000000000 + 1 := by
  have made : (((fresh "h" 0 0).follow stall).loop? "p" 0).map (·.schedule.interval.nanos) =
      some 5000000000 := by decide +kernel
  obtain ⟨l, loop, interval⟩ := Option.map_eq_some_iff.1 made
  have law := spaced "h" 0 0 stall loop
  have period := law.2.2.2.2
  rw [interval] at period
  have short : 5000000000 ≤ Clock.longestWait := by decide +kernel
  refine ⟨by decide +kernel, fun first length => ?_⟩
  have window := law.2.2.2.1 first length
  rwa [interval, period short] at window

/-- Heartbeats with an interval of more than thirty years come closer than that. -/
theorem spaced_cut :
    (((fresh "h" 0 0).follow (sequoia ++ .startPublisher "p" false :: eons)).loop? "p" 0).map
      (·.schedule.interval.nanos) = some 990000000000000000 ∧
    strokes (((fresh "h" 0 0).follow (sequoia ++ .startPublisher "p" false :: eons)).diary "p" 0) =
      [(990000000000000000, true), (1936080000000000000, true)] ∧
    1936080000000000000 + Ticker.tolerance < 990000000000000000 + 1 * 990000000000000000 := by
  decide +kernel

end World

end Tenure
