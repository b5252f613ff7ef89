import Tenure.Proofs.Config.Check
import Tenure.Proofs.Election.Doubling

/-!
# How far jitter lengthens a wait

- **Jitter** (`Backoff.jitter_eq_ok_iff`, `Backoff.exists_jitter`, `Backoff.jitter_range`): a whole number of
  milliseconds is added, up to half of the delay, and none to a delay below two milliseconds. There is
  no overflow if there is room for half of the delay.
- **Publishers** (`Publisher.backoffOf_eq_ok_iff`, `Publisher.next_range`): the waits of a publisher's backoff
  begin at its campaign interval, and at twice the interval from the second loss on.
- **Ranges** (`Backoff.waits_in_range`): jitter over any strategy, a doubling pace, and both together on a
  campaign interval that was read from a text.
-/

namespace Tenure

namespace Backoff

variable {b : Backoff} {delay d : Duration} {failures draw : Nat}

/-! ## Jitter -/

theorem spread_le (delay : Duration) : spread delay * nanosPerMilli ≤ delay.nanos / 2 := by
  have cut : spread delay ≤ delay.millis / 2 := Nat.mod_le _ _
  simp only [Duration.millis, nanosPerMilli] at cut ⊢
  omega

theorem spread_eq_zero (h : delay.nanos < 2 * nanosPerMilli) : spread delay = 0 := by
  have cut := spread_le delay
  simp only [nanosPerMilli] at h cut
  omega

/-- Jitter adds the draw, reduced to the spread, and fails exactly if there is no room for it. -/
theorem jitter_eq_ok_iff : jitter delay draw = .ok d ↔
    d.nanos = delay.nanos + draw % (spread delay + 1) * nanosPerMilli := by
  unfold jitter
  split
  · rename_i flat
    rw [flat, Nat.zero_add, Nat.mod_one, Nat.zero_mul, Nat.add_zero, Except.ok.injEq]
    exact ⟨fun same => by rw [same], fun same => Duration.ext same.symm⟩
  · cases extra : Duration.ofNanos? (draw % (spread delay + 1) * nanosPerMilli) with
    | some e =>
      rw [Duration.ofNanos?_eq_some_iff] at extra
      rw [← extra]
      exact Duration.plus_eq_ok_iff
    | none =>
      rw [Duration.ofNanos?_eq_none_iff] at extra
      have := d.bounded
      simp only [reduceCtorEq, false_iff]
      omega

theorem draw_le (delay : Duration) (draw : Nat) :
    draw % (spread delay + 1) * nanosPerMilli ≤ delay.nanos / 2 := by
  have drawn : draw % (spread delay + 1) ≤ spread delay :=
    Nat.le_of_lt_succ (Nat.mod_lt _ (Nat.succ_pos _))
  exact Nat.le_trans (Nat.mul_le_mul_right _ drawn) (spread_le delay)

/-- Room for half of the delay is room for every draw. -/
theorem exists_jitter (room : delay.nanos + delay.nanos / 2 ≤ Duration.limit) (draw : Nat) :
    ∃ d, jitter delay draw = .ok d := by
  have le := draw_le delay draw
  exact ⟨⟨delay.nanos + draw % (spread delay + 1) * nanosPerMilli, by omega⟩, jitter_eq_ok_iff.2 rfl⟩

/-- What jitter adds: whole milliseconds, at most half of the delay, and nothing to less than two
milliseconds. -/
theorem jitter_range (h : jitter delay draw = .ok d) :
    delay.nanos ≤ d.nanos ∧ d.nanos ≤ delay.nanos + delay.nanos / 2 ∧
      nanosPerMilli ∣ d.nanos - delay.nanos ∧ (delay.nanos < 2 * nanosPerMilli → d = delay) := by
  rw [jitter_eq_ok_iff] at h
  have le := draw_le delay draw
  refine ⟨by omega, by omega, ?_, fun short => ?_⟩
  · rw [h, Nat.add_sub_cancel_left]
    exact Nat.dvd_mul_left _ _
  · rw [spread_eq_zero short, Nat.zero_add, Nat.mod_one, Nat.zero_mul] at h
    exact Duration.ext h

theorem next_of_jittered (h : b.jittered = true) (failures draw : Nat) :
    b.next failures draw = jitter (b.pace.wait failures) draw := by
  unfold next
  rw [if_pos h]

end Backoff

/-! ## Publishers -/

namespace Publisher

variable {interval d : Duration} {b : Backoff} {failures draw : Nat}

theorem backoffOf_eq_ok_iff : backoffOf interval = .ok b ↔
    ∃ twice, twice.nanos = interval.nanos * 2 ∧ b = ⟨.doubling interval twice, true⟩ := by
  unfold backoffOf
  simp only [bind_eq_ok_iff, Duration.times_eq_ok_iff]
  constructor
  · rintro ⟨twice, value, same⟩
    exact ⟨twice, value, (Except.ok.inj same).symm⟩
  · rintro ⟨twice, value, rfl⟩
    exact ⟨twice, value, rfl⟩

theorem exists_backoffOf (room : interval.nanos * 2 ≤ Duration.limit) :
    ∃ b, backoffOf interval = .ok b :=
  ⟨_, backoffOf_eq_ok_iff.2 ⟨⟨interval.nanos * 2, room⟩, rfl, rfl⟩⟩

/-- How many campaign intervals a publisher waits for after so many failures before the last one, jitter
aside: one at first, and two from then on. -/
def intervals (failures : Nat) : Nat := Nat.min (Nat.pow 2 failures) 2

theorem intervals_cases (failures : Nat) :
    intervals failures = 1 ∧ Nat.pow 2 failures = 1 ∨
      intervals failures = 2 ∧ 2 ≤ Nat.pow 2 failures := by
  have pos : 0 < Nat.pow 2 failures := Nat.two_pow_pos _
  unfold intervals
  generalize Nat.pow 2 failures = power at pos ⊢
  show min power 2 = 1 ∧ power = 1 ∨ min power 2 = 2 ∧ 2 ≤ power
  omega

theorem nanos_wait_of_backoffOf (h : backoffOf interval = .ok b) (failures : Nat) :
    (b.pace.wait failures).nanos = intervals failures * interval.nanos := by
  obtain ⟨twice, value, rfl⟩ := backoffOf_eq_ok_iff.1 h
  have top : Nat.max twice.nanos interval.nanos = interval.nanos * 2 :=
    value ▸ Nat.max_eq_left (by omega)
  rw [Pace.nanos_wait_doubling, top]
  rcases intervals_cases failures with ⟨one, power⟩ | ⟨two, power⟩
  · rw [one, power, Nat.mul_comm 1]
    exact Nat.min_eq_left (Nat.mul_le_mul_left _ (by decide))
  · rw [two, Nat.mul_comm 2]
    exact Nat.min_eq_right (Nat.mul_le_mul_left _ (Nat.le_min.2 ⟨power, by decide⟩))

theorem next_of_backoffOf (h : backoffOf interval = .ok b) (failures draw : Nat) :
    b.next failures draw = Backoff.jitter (b.pace.wait failures) draw := by
  obtain ⟨twice, -, rfl⟩ := backoffOf_eq_ok_iff.1 h
  exact Backoff.next_of_jittered rfl failures draw

/-- A wait of a publisher's backoff, jitter included. -/
theorem next_range (h : backoffOf interval = .ok b) (hd : b.next failures draw = .ok d) :
    intervals failures * interval.nanos ≤ d.nanos ∧
      2 * d.nanos ≤ 3 * (intervals failures * interval.nanos) ∧
      interval.nanos ≤ d.nanos ∧ d.nanos ≤ 3 * interval.nanos := by
  rw [next_of_backoffOf h] at hd
  obtain ⟨least, most, -⟩ := Backoff.jitter_range hd
  rw [nanos_wait_of_backoffOf h] at least most
  rcases intervals_cases failures with ⟨one, -⟩ | ⟨two, -⟩
  · rw [one] at least most ⊢
    omega
  · rw [two] at least most ⊢
    omega

/-- The backoff of a publisher does not overflow if there is room for three intervals. -/
theorem exists_next (h : backoffOf interval = .ok b) (room : 3 * interval.nanos ≤ Duration.limit)
    (failures draw : Nat) : ∃ d, b.next failures draw = .ok d := by
  rw [next_of_backoffOf h]
  apply Backoff.exists_jitter
  rw [nanos_wait_of_backoffOf h]
  rcases intervals_cases failures with ⟨one, -⟩ | ⟨two, -⟩
  · rw [one]
    omega
  · rw [two]
    omega

theorem room_of_campaignPeriod {s : ElectionSettings} (h : s.campaignPeriod = .ok interval) :
    3 * interval.nanos ≤ Duration.limit := by
  have brief := ElectionSettings.nanos_lt_of_campaignPeriod h
  have room := Duration.four_parseLimit_le
  omega

theorem exists_backoffOf_campaignPeriod {s : ElectionSettings} (h : s.campaignPeriod = .ok interval) :
    ∃ b, backoffOf interval = .ok b := by
  have room := room_of_campaignPeriod h
  exact exists_backoffOf (by omega)

/-- The backoff of a publisher's contender is the one of its campaign interval, unless it is switched
off. -/
theorem backoff?_of_ofConfig {c : Config} {replicator host outbox : String} {bucket? : Option String}
    {relaxations : Election.Relaxations} {nonce : String} {p : Publisher} {y : Election.Candidacy}
    (h : ofConfig c replicator host outbox bucket? relaxations nonce = .ok (p, some y)) :
    c.election.campaignPeriod = .ok y.interval ∧ ∃ b, backoffOf y.interval = .ok b ∧
      y.backoff? = if relaxations.noBackoff then none else some b := by
  obtain ⟨-, o, options, terms⟩ := exists_options h
  obtain ⟨-, -, -, -, switches, -, period⟩ := optionsOf_ok options
  obtain ⟨-, b, backoff, made⟩ := label_of_optionsOf options
  obtain ⟨bucket, -, rfl, -⟩ := Election.Candidacy.eq_of_ofOptions terms
  refine ⟨period, b, made, ?_⟩
  rw [← switches, ← backoff]
  rfl

end Publisher

/-! ## Ranges -/

/-- Jitter over any strategy is no shorter than its delay and at most half longer, by whole milliseconds,
and does not overflow if there is room for that. The waits of a doubling pace lie between its base and its
cap and never go down. So the waits of the backoff that a publisher installs, which never overflow on a
campaign interval that was read from a text, begin at the interval for the first loss of a streak and at
twice the interval after it, are at most half longer than that, and never longer than three intervals. -/
theorem Backoff.waits_in_range :
    (∀ (strategy : Nat → Duration) (failures draw : Nat),
      (strategy failures).nanos + (strategy failures).nanos / 2 ≤ Duration.limit →
      ∃ d, jitter (strategy failures) draw = .ok d ∧
        (strategy failures).nanos ≤ d.nanos ∧
        d.nanos ≤ (strategy failures).nanos + (strategy failures).nanos / 2 ∧
        nanosPerMilli ∣ d.nanos - (strategy failures).nanos ∧
        ((strategy failures).nanos < 2 * nanosPerMilli → d = strategy failures)) ∧
    (∀ (base cap : Duration) (f g : Nat), f ≤ g →
      base.nanos ≤ ((Pace.doubling base cap).wait f).nanos ∧
      ((Pace.doubling base cap).wait f).nanos ≤ ((Pace.doubling base cap).wait g).nanos ∧
      ((Pace.doubling base cap).wait g).nanos ≤ Nat.max cap.nanos base.nanos) ∧
    (∀ (s : ElectionSettings) (interval : Duration), s.campaignPeriod = .ok interval →
      ∃ b, Publisher.backoffOf interval = .ok b ∧ ∀ failures draw, ∃ d, b.next failures draw = .ok d ∧
        Nat.min (Nat.pow 2 failures) 2 * interval.nanos ≤ d.nanos ∧
        2 * d.nanos ≤ 3 * (Nat.min (Nat.pow 2 failures) 2 * interval.nanos) ∧
        interval.nanos ≤ d.nanos ∧ d.nanos ≤ 3 * interval.nanos) ∧
    ∀ (c : Config) (replicator host outbox : String) (bucket? : Option String)
      (relaxations : Election.Relaxations) (nonce : String) (p : Publisher) (y : Election.Candidacy),
      Publisher.ofConfig c replicator host outbox bucket? relaxations nonce = .ok (p, some y) →
      c.election.campaignPeriod = .ok y.interval ∧ ∃ b, Publisher.backoffOf y.interval = .ok b ∧
        y.backoff? = if relaxations.noBackoff then none else some b := by
  refine ⟨fun strategy failures draw room => ?_, fun base cap f g le => ?_,
    fun s interval period => ?_, fun _ _ _ _ _ _ _ _ _ => Publisher.backoff?_of_ofConfig⟩
  · obtain ⟨d, hd⟩ := exists_jitter room draw
    exact ⟨d, hd, jitter_range hd⟩
  · rw [← Duration.nanos_max]
    exact ⟨Pace.le_wait _ f, Pace.wait_mono _ le, Pace.wait_le_cap _ g⟩
  · obtain ⟨b, hb⟩ := Publisher.exists_backoffOf_campaignPeriod period
    refine ⟨b, hb, fun failures draw => ?_⟩
    obtain ⟨d, hd⟩ := Publisher.exists_next hb (Publisher.room_of_campaignPeriod period) failures draw
    exact ⟨d, hd, Publisher.next_range hb hd⟩

theorem Backoff.waits_in_range_solo :
    (∃ delay d : Duration, delay.nanos = 1999999 ∧
      delay.nanos + delay.nanos / 2 ≤ Duration.limit ∧ jitter delay 5 = .ok d ∧ d = delay) ∧
    (∃ base cap : Duration, base.nanos = 7 ∧ cap.nanos = 1000 ∧
      7 ≤ ((Pace.doubling base cap).wait 6).nanos ∧
      ((Pace.doubling base cap).wait 6).nanos ≤ ((Pace.doubling base cap).wait 40).nanos ∧
      ((Pace.doubling base cap).wait 40).nanos ≤ 1000) ∧
    ∃ p y b, Publisher.ofConfig (Config.solo "45s") "r" "h" "o" (some "m") {} "n" = .ok (p, some y) ∧
      y.interval.nanos = 10000000000 ∧ y.backoff? = some b ∧ ∀ failures draw, ∃ d,
        b.next failures draw = .ok d ∧ 10000000000 ≤ d.nanos ∧ d.nanos ≤ 3 * 10000000000 := by
  obtain ⟨law, pace, read, installed⟩ := waits_in_range
  refine ⟨?_, ?_, ?_⟩
  · let delay : Duration := ⟨1999999, by decide⟩
    have room : delay.nanos + delay.nanos / 2 ≤ Duration.limit := by decide
    obtain ⟨d, hd, -, -, -, same⟩ := law (fun _ => delay) 0 5 room
    exact ⟨delay, d, rfl, room, hd, same (by decide)⟩
  · let base : Duration := ⟨7, by decide⟩
    let cap : Duration := ⟨1000, by decide⟩
    exact ⟨base, cap, rfl, rfl, pace base cap 6 40 (by decide)⟩
  · have accepted : (Publisher.ofConfig (Config.solo "45s") "r" "h" "o" (some "m") {} "n").toOption.bind
        (fun x => x.2.map (·.interval.nanos)) = some 10000000000 := by decide +kernel
    cases made : Publisher.ofConfig (Config.solo "45s") "r" "h" "o" (some "m") {} "n" with
    | error e =>
      rw [made] at accepted
      cases accepted
    | ok x =>
      rw [made] at accepted
      obtain ⟨p, y?⟩ := x
      obtain ⟨y, rfl, interval⟩ := Option.map_eq_some_iff.1 accepted
      obtain ⟨period, b, hb, backoff⟩ := installed _ _ _ _ _ _ _ _ _ made
      obtain ⟨b', hb', range⟩ := read _ _ period
      cases hb.symm.trans hb'
      refine ⟨p, y, b, rfl, interval, backoff, fun failures draw => ?_⟩
      obtain ⟨d, hd, -, -, least, most⟩ := range failures draw
      rw [interval] at least most
      exact ⟨d, hd, least, most⟩

end Tenure
