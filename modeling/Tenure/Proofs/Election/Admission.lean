import Tenure.Election.Options

/-!
# Who may contend

- **Timing** (`Roomy`, `checkTiming_cases`): the check of a lease and an interval is exact, except that it
  overflows where four intervals or three leases are no duration.
- **Options** (`Options.Sound`, `Options.Overflows`, `Candidacy.ofOptions_cases`): what the options of a
  contender need, and when the check of their timing overflows.
- **Admission** (`Candidacy.eq_of_ofOptions`, `Candidacy.ofOptions_decides`): sound options are accepted as
  they are and all others refused with a fault of the configuration, but for those that overflow, which
  may be sound (`Candidacy.ofOptions_endless`).
-/

namespace Tenure

/-- A computation that succeeds does so in each of its steps. -/
theorem exists_of_bind_ok {ε α β : Type} {x : Except ε α} {f : α → Except ε β} {b : β}
    (h : (x >>= f) = .ok b) : ∃ a, x = .ok a ∧ f a = .ok b := by
  cases x with
  | error e => exact nomatch h
  | ok a => exact ⟨a, rfl, h⟩

theorem Overflow.eq_ok_of_lift {α : Type} {x : Except Overflow α} {a : α}
    (h : Overflow.lift x = .ok a) : x = .ok a := by
  cases x with
  | error e => exact nomatch h
  | ok a' => exact congrArg _ (Except.ok.inj h)

namespace Election

/-! ## Timing -/

/-- The lease leaves room for its renewal: it has at least thirty seconds, and the interval takes at
most three quarters of it. -/
def Roomy (ttl interval : Duration) : Prop :=
  leastTtl.nanos ≤ ttl.nanos ∧ 4 * interval.nanos ≤ 3 * ttl.nanos

/-- The check gets to the products, and four intervals or three leases are out of range. -/
def Beyond (ttl interval : Duration) : Prop :=
  leastTtl.nanos ≤ ttl.nanos ∧
    (Duration.limit < 4 * interval.nanos ∨ Duration.limit < 3 * ttl.nanos)

/-- What the check of an interval that is not zero can say. -/
theorem checkTiming_cases {ttl interval : Duration} (pos : 0 < interval.nanos) :
    checkTiming ttl interval = .error .multiple ∧ Beyond ttl interval ∨
      checkTiming ttl interval = .ok none ∧ ¬ Beyond ttl interval ∧ Roomy ttl interval ∨
      (∃ fault, checkTiming ttl interval = .ok (some fault)) ∧ ¬ Beyond ttl interval ∧
        ¬ Roomy ttl interval := by
  unfold checkTiming Beyond Roomy
  split
  · exact .inr (.inr ⟨⟨_, rfl⟩, by omega, by omega⟩)
  · rename_i least
    rw [if_neg (by omega)]
    cases four : interval.times 4 with
    | error e =>
      obtain ⟨rfl, beyond⟩ := Duration.times_eq_error_iff.1 four
      exact .inl ⟨rfl, by omega, by omega⟩
    | ok f =>
      rw [Duration.times_eq_ok_iff] at four
      have := f.bounded
      cases three : ttl.times 3 with
      | error e =>
        obtain ⟨rfl, beyond⟩ := Duration.times_eq_error_iff.1 three
        exact .inl ⟨rfl, by omega, by omega⟩
      | ok t =>
        rw [Duration.times_eq_ok_iff] at three
        have := t.bounded
        simp only [bind, Except.bind]
        split
        · exact .inr (.inr ⟨⟨_, rfl⟩, by omega, by omega⟩)
        · exact .inr (.inl ⟨rfl, by omega, by omega, by omega⟩)

/-! ## Options -/

namespace Options

/-- The options name an election, a key and a store, and leave time between campaigns. -/
structure Complete (o : Options) : Prop where
  /-- The election has a name. -/
  name : o.name ≠ ""
  /-- There is a key to contend for. -/
  key : o.key ≠ ""
  /-- There is a store to contend in. -/
  bucket : o.bucket? ≠ none
  /-- Campaigns do not follow each other without a pause. -/
  interval : 0 < o.interval.nanos

/-- The options are complete, and the lease leaves room for its renewal unless any timing will do. -/
structure Sound (o : Options) : Prop extends Complete o where
  /-- The lease has at least thirty seconds, and the interval takes at most three quarters of it. -/
  timing : o.relaxations.anyTiming = false → Roomy o.ttl o.interval

/-- The options get to a check of their timing that is out of range. -/
structure Overflows (o : Options) : Prop extends Complete o where
  /-- The timing is checked. -/
  checked : o.relaxations.anyTiming = false
  /-- A product in the check is out of range. -/
  beyond : Beyond o.ttl o.interval

end Options

/-- The candidacy on options that pass the checks: no backoff if that is switched off. -/
def Options.candidacy (o : Options) (bucket host nonce : String) : Candidacy where
  name := o.name
  key := storageKey o.name o.key
  replicator := o.replicator
  identity := signature o.replicator host nonce
  bucket := bucket
  ttl := o.ttl
  interval := o.interval
  backoff? := if o.relaxations.noBackoff then none else o.backoff?
  audience := o.audience

/-- What the checks of a candidacy can say. -/
theorem Candidacy.ofOptions_cases (o : Options) (host nonce : String) :
    Candidacy.ofOptions o host nonce = .error (.overflow .multiple) ∧ o.Overflows ∨
      (∃ bucket, o.bucket? = some bucket ∧
        Candidacy.ofOptions o host nonce = .ok (o.candidacy bucket host nonce)) ∧
        ¬ o.Overflows ∧ o.Sound ∨
      (∃ fault, Candidacy.ofOptions o host nonce = .error (.config (.election fault))) ∧
        ¬ o.Overflows ∧ ¬ o.Sound := by
  have incomplete (h : ¬ o.Complete) : ¬ o.Overflows ∧ ¬ o.Sound :=
    ⟨fun v => h v.toComplete, fun v => h v.toComplete⟩
  unfold Candidacy.ofOptions
  split
  · rename_i name
    exact .inr (.inr ⟨⟨_, rfl⟩, incomplete fun c => c.name (String.isEmpty_iff.1 name)⟩)
  rename_i name
  split
  · rename_i key
    exact .inr (.inr ⟨⟨_, rfl⟩, incomplete fun c => c.key (String.isEmpty_iff.1 key)⟩)
  rename_i key
  split
  · rename_i bucket
    exact .inr (.inr ⟨⟨_, rfl⟩, incomplete fun c => c.bucket bucket⟩)
  rename_i bucket hbucket
  split
  · rename_i zero
    exact .inr (.inr ⟨⟨_, rfl⟩, incomplete fun c => Nat.ne_of_gt c.interval zero⟩)
  rename_i nonzero
  have pos : 0 < o.interval.nanos := Nat.pos_of_ne_zero nonzero
  have complete : o.Complete :=
    ⟨mt String.isEmpty_iff.2 name, mt String.isEmpty_iff.2 key, by simp [hbucket], pos⟩
  cases checked : o.relaxations.anyTiming with
  | true =>
    refine .inr (.inl ⟨⟨bucket, hbucket, rfl⟩, fun v => ?_, complete, fun h => ?_⟩)
    · cases checked.symm.trans v.checked
    · cases checked.symm.trans h
  | false =>
    rcases checkTiming_cases pos with ⟨verdict, beyond⟩ | ⟨verdict, fits, roomy⟩ | ⟨⟨fault, verdict⟩, fits, tight⟩
    · rw [verdict]
      exact .inl ⟨rfl, complete, checked, beyond⟩
    · rw [verdict]
      exact .inr (.inl ⟨⟨bucket, hbucket, rfl⟩, fun v => fits v.beyond, complete, fun _ => roomy⟩)
    · rw [verdict]
      exact .inr (.inr ⟨⟨_, rfl⟩, fun v => fits v.beyond, fun sound => tight (sound.timing checked)⟩)

/-! ## Admission -/

/-- An accepted contender has the candidacy of its options. -/
theorem Candidacy.eq_of_ofOptions {o : Options} {host nonce : String} {y : Candidacy}
    (h : Candidacy.ofOptions o host nonce = .ok y) :
    ∃ bucket, o.bucket? = some bucket ∧ y = o.candidacy bucket host nonce ∧
      (o.relaxations.anyTiming = false → Roomy o.ttl o.interval) := by
  rcases ofOptions_cases o host nonce with ⟨verdict, -⟩ | ⟨⟨bucket, hb, verdict⟩, -, sound⟩ | ⟨⟨_, verdict⟩, -⟩
  · cases verdict.symm.trans h
  · exact ⟨bucket, hb, (Except.ok.inj (verdict.symm.trans h)).symm, sound.timing⟩
  · cases verdict.symm.trans h

/-- What the options of an accepted contender say. -/
theorem Candidacy.ofOptions_ok {o : Options} {host nonce : String} {y : Candidacy}
    (h : Candidacy.ofOptions o host nonce = .ok y) :
    o.bucket? = some y.bucket ∧ y.key = storageKey o.name o.key ∧ y.ttl = o.ttl ∧
      y.interval = o.interval ∧ y.audience = o.audience ∧
      (o.relaxations.anyTiming = false → Roomy y.ttl y.interval) := by
  obtain ⟨bucket, hbucket, rfl, roomy⟩ := Candidacy.eq_of_ofOptions h
  exact ⟨hbucket, rfl, rfl, rfl, rfl, roomy⟩

theorem Candidacy.exists_ofOptions_iff {o : Options} {host nonce : String} :
    (∃ y, Candidacy.ofOptions o host nonce = .ok y) ↔ o.Sound ∧ ¬ o.Overflows := by
  rcases ofOptions_cases o host nonce with ⟨verdict, h⟩ | ⟨⟨_, -, verdict⟩, fits, sound⟩ |
    ⟨⟨_, verdict⟩, fits, unsound⟩
  · simp [verdict, h]
  · simp [verdict, fits, sound]
  · simp [verdict, unsound]

theorem Candidacy.ofOptions_refused_iff {o : Options} {host nonce : String} :
    (∃ fault, Candidacy.ofOptions o host nonce = .error (.config (.election fault))) ↔
      ¬ o.Sound ∧ ¬ o.Overflows := by
  rcases ofOptions_cases o host nonce with ⟨verdict, h⟩ | ⟨⟨_, -, verdict⟩, fits, sound⟩ |
    ⟨verdict, fits, unsound⟩
  · simp [verdict, h]
  · simp [verdict, sound]
  · simp [verdict, fits, unsound]

theorem Candidacy.ofOptions_overflows_iff {o : Options} {host nonce : String} :
    Candidacy.ofOptions o host nonce = .error (.overflow .multiple) ↔ o.Overflows := by
  rcases ofOptions_cases o host nonce with ⟨verdict, h⟩ | ⟨⟨_, -, verdict⟩, fits, sound⟩ |
    ⟨⟨_, verdict⟩, fits, unsound⟩
  · simp [verdict, h]
  · simp [verdict, fits]
  · simp [verdict, fits]

/-- Options are accepted if they name an election, a key and a store and their interval is not zero and,
where it is checked, their timing leaves room for renewals; they are refused with a fault of the
configuration if not. That is exact but for options with more than a quarter of the range of durations as
their interval or more than a third as their lease: the check of their timing overflows. -/
theorem Candidacy.ofOptions_decides (o : Options) (host nonce : String) :
    ((∃ y, Candidacy.ofOptions o host nonce = .ok y) ↔ o.Sound ∧ ¬ o.Overflows) ∧
    ((∃ fault, Candidacy.ofOptions o host nonce = .error (.config (.election fault))) ↔
      ¬ o.Sound ∧ ¬ o.Overflows) ∧
    (Candidacy.ofOptions o host nonce = .error (.overflow .multiple) ↔ o.Overflows) :=
  ⟨exists_ofOptions_iff, ofOptions_refused_iff, ofOptions_overflows_iff⟩

theorem thirty_seconds_fit : 30 * nanosPerSecond ≤ Duration.limit := by decide

/-- A contender of an election for a key of the store `"m"`. -/
def contenderFor (name key : String) : Options :=
  let lease := Duration.seconds 30 thirty_seconds_fit
  { name := name, key := key, bucket? := some "m", ttl := lease, interval := lease.half }

/-- The longest lease there is leaves all the room for a renewal every fifteen seconds, and its check
overflows. -/
theorem Candidacy.ofOptions_endless :
    ∃ o : Options, o.ttl.nanos = Duration.limit ∧ o.interval.nanos = 15000000000 ∧ o.Sound ∧
      Candidacy.ofOptions o "h" "n" = .error (.overflow .multiple) := by
  let o : Options := { contenderFor "e" "k" with ttl := ⟨Duration.limit, Nat.le_refl _⟩ }
  have complete : o.Complete := ⟨by decide, by decide, by decide, by decide⟩
  have room : Roomy o.ttl o.interval := ⟨by decide, by decide⟩
  exact ⟨o, rfl, by decide, ⟨complete, fun _ => room⟩,
    ofOptions_overflows_iff.2 ⟨complete, rfl, room.1, .inr (by decide)⟩⟩

end Election

end Tenure
