import Tenure.Proofs.Election.Jitter

/-!
# Which configurations make a publisher

- **Elections** (`ElectionSettings.Contestable`, `Publisher.sound_iff`): settings on which a publisher can
  contend. The options that they make do not overflow (`Publisher.not_overflows`).
- **Publishers** (`Config.Acceptable`, `Publisher.ofConfig_cases`): configurations that a publisher can be made
  of.
- **Construction** (`Publisher.ofConfig_decides`): a publisher is made of the acceptable configurations, with
  a schedule for every subject, and all others are refused with a fault of the configuration.
-/

namespace Tenure

open Election

/-! ## Elections -/

/-- The settings make an election that a publisher can contend in: they name an election and a key, there
is a store, both durations can be read, the interval is not zero, and the lease leaves room for its renewal
unless any timing will do. -/
structure ElectionSettings.Contestable (s : ElectionSettings) (bucket? : Option String)
    (relaxations : Relaxations) : Prop where
  /-- The election has a name. -/
  name : s.name ≠ ""
  /-- There is a key to contend for. -/
  key : s.key ≠ ""
  /-- There is a store to contend in. -/
  bucket : bucket? ≠ none
  /-- The lease and the interval can be read and go together. -/
  timing : ∃ ttl interval, s.Timed ttl interval ∧ 0 < interval.nanos ∧
    (relaxations.anyTiming = false → Roomy ttl interval)

namespace Publisher

variable {c : Config} {replicator host outbox nonce : String} {bucket? : Option String}
  {relaxations : Relaxations} {o : Options}

theorem exists_optionsOf {ttl interval : Duration} (h : c.election.Timed ttl interval)
    (replicator : String) (bucket? : Option String) (relaxations : Relaxations) :
    ∃ o, optionsOf c replicator bucket? relaxations = .ok o := by
  obtain ⟨lease, period⟩ := ElectionSettings.timed_iff.1 h
  obtain ⟨b, backoff⟩ := exists_backoffOf_campaignPeriod period
  have lease : refuse c.election.lease = .ok ttl := by rw [lease]; rfl
  have period : refuse c.election.campaignPeriod = .ok interval := by rw [period]; rfl
  have backoff : Overflow.lift (backoffOf interval) = .ok b := by rw [backoff]; rfl
  exact ⟨_, bind_eq_ok_iff.2 ⟨ttl, lease, bind_eq_ok_iff.2 ⟨interval, period,
    bind_eq_ok_iff.2 ⟨b, backoff, rfl⟩⟩⟩⟩

/-- The options of a publisher are sound iff the settings are contestable. -/
theorem sound_iff (h : optionsOf c replicator bucket? relaxations = .ok o) :
    o.Sound ↔ c.election.Contestable bucket? relaxations := by
  obtain ⟨name, key, bucket, -, switches, lease, period⟩ := optionsOf_ok h
  constructor
  · intro sound
    exact ⟨name ▸ sound.name, key ▸ sound.key, bucket ▸ sound.bucket, o.ttl, o.interval,
      ElectionSettings.timed_iff.2 ⟨lease, period⟩, sound.interval, switches ▸ sound.timing⟩
  · rintro ⟨named, keyed, stored, ttl, interval, timed, pos, room⟩
    obtain ⟨lease', period'⟩ := ElectionSettings.timed_iff.1 timed
    cases lease.symm.trans lease'
    cases period.symm.trans period'
    exact ⟨⟨name ▸ named, key ▸ keyed, bucket ▸ stored, pos⟩, switches ▸ room⟩

/-- What is read from texts is far from where the check of the timing overflows. -/
theorem not_overflows (h : optionsOf c replicator bucket? relaxations = .ok o) : ¬ o.Overflows := by
  obtain ⟨-, -, -, -, -, lease, period⟩ := optionsOf_ok h
  have short := Duration.nanos_lt_of_parse (ElectionSettings.read_eq_ok_iff.1 lease)
  have brief := ElectionSettings.nanos_lt_of_campaignPeriod period
  have room := Duration.four_parseLimit_le
  rintro ⟨-, -, -, beyond⟩
  omega

end Publisher

/-! ## Publishers -/

/-- A publisher can be made of the configuration: it has a subject, heartbeats can be published on each of
its subjects, and its election can be contested if publication depends on it. -/
structure Config.Acceptable (c : Config) (bucket? : Option String) (relaxations : Relaxations) :
    Prop where
  /-- There is a subject. -/
  subjects : c.subjects ≠ []
  /-- Heartbeats can be published on each of them. -/
  usable : ∀ s ∈ c.subjects, s.Usable
  /-- The election can be contested, if there is one. -/
  contestable : c.leaderElection = true → c.election.Contestable bucket? relaxations

/-- The schedule of a subject: its name, its interval as written, and its headers over the global ones. -/
structure Schedule.IsFor (schedule : Schedule) (global : Headers) (s : SubjectSettings) : Prop where
  /-- The name is the subject's. -/
  subject : schedule.subject = s.name
  /-- So is the interval. -/
  interval : Duration.parse s.interval = .ok schedule.interval
  /-- The subject's own headers win over the global ones. -/
  headers : schedule.headers = Headers.merge global s.headers

namespace Publisher

variable {c : Config} {replicator host outbox nonce : String} {bucket? : Option String}
  {relaxations : Relaxations} {schedules : List Schedule}

theorem check_of_acceptable (h : c.Acceptable bucket? relaxations) : c.check = .ok () := by
  refine Config.check_eq_ok_iff.2 ⟨h.subjects, h.usable, fun gated => ?_⟩
  obtain ⟨ttl, interval, timed, -⟩ := (h.contestable gated).timing
  exact ⟨ttl, interval, timed⟩

/-- Subjects that pass the check have schedules. -/
theorem exists_schedules (h : ∀ s ∈ c.subjects, s.Usable) :
    ∃ schedules, c.subjects.mapM (scheduleOf c.headers) = .ok schedules := by
  refine exists_mapM_ok fun s hs => ?_
  obtain ⟨d, period⟩ := (h s hs).paced
  exact ⟨⟨s.name, d, Headers.merge c.headers s.headers⟩,
    scheduleOf_eq_ok_iff.2 ⟨rfl, SubjectSettings.period_eq_ok_iff.2 period, rfl⟩⟩

theorem isFor_of_schedules (h : c.subjects.mapM (scheduleOf c.headers) = .ok schedules) :
    List.Forall₂ (fun s (schedule : Schedule) => schedule.IsFor c.headers s) c.subjects schedules := by
  refine (mapM_eq_ok_iff.1 h).imp fun s schedule made => ?_
  obtain ⟨subject, period, headers⟩ := scheduleOf_eq_ok_iff.1 made
  exact ⟨subject, (SubjectSettings.period_eq_ok_iff.1 period).1, headers⟩

/-- What the construction of a publisher can say. -/
theorem ofConfig_cases (c : Config) (replicator host outbox : String) (bucket? : Option String)
    (relaxations : Relaxations) (nonce : String) :
    (∃ p y?, ofConfig c replicator host outbox bucket? relaxations nonce = .ok (p, y?)) ∧
        c.Acceptable bucket? relaxations ∨
      (∃ fault, ofConfig c replicator host outbox bucket? relaxations nonce = .error (.config fault)) ∧
        ¬ c.Acceptable bucket? relaxations := by
  cases checked : c.check with
  | error fault =>
    refine .inr ⟨⟨fault, ?_⟩, fun h => ?_⟩
    · unfold ofConfig
      rw [checked]
      rfl
    · cases checked.symm.trans (check_of_acceptable h)
  | ok u =>
    obtain ⟨subjects, usable, timed⟩ := Config.check_eq_ok_iff.1 checked
    obtain ⟨schedules, made⟩ := exists_schedules usable
    unfold ofConfig
    rw [checked, made]
    cases gated : c.leaderElection with
    | false =>
      refine .inl ⟨⟨_, _, rfl⟩, subjects, usable, fun h => ?_⟩
      cases gated.symm.trans h
    | true =>
      obtain ⟨ttl, interval, timed⟩ := timed gated
      obtain ⟨o, options⟩ := exists_optionsOf timed replicator bucket? relaxations
      rw [options]
      rcases Candidacy.ofOptions_cases o host nonce with ⟨-, beyond⟩ | ⟨⟨bucket, -, verdict⟩, -, sound⟩ |
        ⟨⟨fault, verdict⟩, -, unsound⟩
      · exact absurd beyond (not_overflows options)
      · simp only [refuse, bind, Except.bind, if_true, verdict]
        exact .inl ⟨⟨_, _, rfl⟩, subjects, usable, fun _ => (sound_iff options).1 sound⟩
      · simp only [refuse, bind, Except.bind, if_true, verdict]
        exact .inr ⟨⟨_, rfl⟩, fun h => unsound ((sound_iff options).2 (h.contestable gated))⟩

/-! ## Construction -/

/-- A publisher is made of a configuration iff that is acceptable, and otherwise the configuration is at
fault. It has a schedule for each subject, in order, and begins paused iff publication depends on an
election. If it does not, neither the election nor the store, nor anything else that a contender takes,
matters. -/
theorem ofConfig_decides (c : Config) (replicator host outbox : String) (bucket? : Option String)
    (relaxations : Relaxations) (nonce : String) :
    ((∃ p y?, ofConfig c replicator host outbox bucket? relaxations nonce = .ok (p, y?)) ↔
      c.Acceptable bucket? relaxations) ∧
    ((∃ fault, ofConfig c replicator host outbox bucket? relaxations nonce = .error (.config fault)) ↔
      ¬ c.Acceptable bucket? relaxations) ∧
    (∀ p y?, ofConfig c replicator host outbox bucket? relaxations nonce = .ok (p, y?) →
      List.Forall₂ (fun s (schedule : Schedule) => schedule.IsFor c.headers s) c.subjects p.schedules ∧
      p.paused = c.leaderElection ∧ y?.isSome = c.leaderElection) ∧
    (c.leaderElection = false → ∀ election bucket?' relaxations' nonce',
      ofConfig { c with election := election } replicator host outbox bucket?' relaxations' nonce' =
        ofConfig c replicator host outbox bucket? relaxations nonce) := by
  refine ⟨?_, ?_, fun p y? made => ?_, fun ungated election bucket?' relaxations' nonce' => ?_⟩
  · rcases ofConfig_cases c replicator host outbox bucket? relaxations nonce with
      ⟨made, h⟩ | ⟨⟨_, refused⟩, h⟩
    · exact iff_of_true made h
    · simp [refused, h]
  · rcases ofConfig_cases c replicator host outbox bucket? relaxations nonce with
      ⟨⟨_, _, made⟩, h⟩ | ⟨refused, h⟩
    · simp [made, h]
    · exact iff_of_true refused h
  · obtain ⟨schedules, turned, rfl, without, contends⟩ := ofConfig_ok made
    refine ⟨isFor_of_schedules turned, rfl, ?_⟩
    cases gated : c.leaderElection with
    | false => rw [without gated, Option.isSome_none]
    | true =>
      obtain ⟨_, _, rfl, -⟩ := contends gated
      rfl
  · unfold ofConfig Config.check Config.checkElection
    simp only [ungated]
    rfl

theorem ofConfig_decides_solo :
    (∃ p y?, ofConfig (Config.solo "45s") "r" "h" "o" (some "m") {} "n" = .ok (p, y?) ∧
      (Config.solo "45s").Acceptable (some "m") {} ∧ p.schedules.length = 1 ∧ p.paused = true ∧
      y?.isSome = true) ∧
    (∃ fault, ofConfig (Config.solo "45s") "r" "h" "o" none {} "n" = .error (.config fault)) ∧
    ofConfig { Config.solo "45s" with leaderElection := false, election := { ttl := "soon" } }
        "r" "h" "o" none {} "n" =
      ofConfig { Config.solo "45s" with leaderElection := false } "r" "h" "o" (some "m") {} "n" := by
  obtain ⟨accepts, -, made_as, -⟩ := ofConfig_decides (Config.solo "45s") "r" "h" "o" (some "m") {} "n"
  obtain ⟨-, refuses, -, -⟩ := ofConfig_decides (Config.solo "45s") "r" "h" "o" none {} "n"
  obtain ⟨-, -, -, ungated⟩ :=
    ofConfig_decides { Config.solo "45s" with leaderElection := false } "r" "h" "o" (some "m") {} "n"
  refine ⟨?_, refuses.2 fun h => (h.contestable rfl).bucket rfl, ungated rfl { ttl := "soon" } none {} "n"⟩
  have accepted : (ofConfig (Config.solo "45s") "r" "h" "o" (some "m") {} "n").toBool = true := by
    decide +kernel
  cases made : ofConfig (Config.solo "45s") "r" "h" "o" (some "m") {} "n" with
  | error e =>
    rw [made] at accepted
    cases accepted
  | ok x =>
    obtain ⟨p, y?⟩ := x
    obtain ⟨schedules, paused, contends⟩ := made_as p y? made
    exact ⟨p, y?, rfl, accepts.1 ⟨p, y?, made⟩, schedules.length_eq.symm, paused, contends⟩

end Publisher

end Tenure
