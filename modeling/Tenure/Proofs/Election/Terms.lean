import Tenure.Heartbeat.Publisher
import Tenure.Proofs.Election.Admission

/-!
# The terms of a publisher

- **Options** (`Publisher.optionsOf_ok`, `Publisher.label_of_optionsOf`): the contender of a publisher has the
  terms of the configuration, and the publisher's own gate for a listener.
- **Publishers** (`Publisher.ofConfig_ok`, `Publisher.exists_options`): a publisher has a candidacy iff it is
  gated, and then that of its options.
-/

namespace Tenure

theorem Publisher.eq_ok_of_refuse {α : Type} {x : Except ConfigFault α} {a : α}
    (h : refuse x = .ok a) : x = .ok a := by
  cases x with
  | error e => exact nomatch h
  | ok a' => exact congrArg _ (Except.ok.inj h)

namespace Publisher

open Election

theorem optionsOf_ok {c : Config} {replicator : String} {bucket? : Option String}
    {relaxations : Relaxations} {o : Options}
    (h : optionsOf c replicator bucket? relaxations = .ok o) :
    o.name = c.election.name ∧ o.key = c.election.key ∧ o.bucket? = bucket? ∧
      o.audience = .gate ∧ o.relaxations = relaxations ∧
      c.election.lease = .ok o.ttl ∧ c.election.campaignPeriod = .ok o.interval := by
  obtain ⟨ttl, httl, h⟩ := exists_of_bind_ok h
  obtain ⟨interval, hinterval, h⟩ := exists_of_bind_ok h
  obtain ⟨backoff, -, h⟩ := exists_of_bind_ok h
  obtain rfl := Except.ok.inj h
  exact ⟨rfl, rfl, rfl, rfl, rfl, eq_ok_of_refuse httl, eq_ok_of_refuse hinterval⟩

/-- The label and the backoff of a publisher's contender. -/
theorem label_of_optionsOf {c : Config} {replicator : String} {bucket? : Option String}
    {relaxations : Relaxations} {o : Options}
    (h : optionsOf c replicator bucket? relaxations = .ok o) :
    o.replicator = replicator ∧ ∃ b, o.backoff? = some b ∧ backoffOf o.interval = .ok b := by
  obtain ⟨ttl, -, h⟩ := exists_of_bind_ok h
  obtain ⟨interval, -, h⟩ := exists_of_bind_ok h
  obtain ⟨b, hb, h⟩ := exists_of_bind_ok h
  obtain rfl := Except.ok.inj h
  exact ⟨rfl, b, rfl, Overflow.eq_ok_of_lift hb⟩

/-- An accepted publisher is new, and has a candidacy iff it is gated. -/
theorem ofConfig_ok {c : Config} {replicator host outbox : String} {bucket? : Option String}
    {relaxations : Relaxations} {nonce : String} {p : Publisher} {y? : Option Candidacy}
    (h : ofConfig c replicator host outbox bucket? relaxations nonce = .ok (p, y?)) :
    ∃ schedules, c.subjects.mapM (scheduleOf c.headers) = .ok schedules ∧
      p = {
        replicator := replicator
        host := host
        outbox := outbox
        schedules := schedules
        gated := c.leaderElection
        paused := c.leaderElection } ∧
      (c.leaderElection = false → y? = none) ∧
      (c.leaderElection = true → ∃ o y, y? = some y ∧
        optionsOf c replicator bucket? relaxations = .ok o ∧
        Candidacy.ofOptions o host nonce = .ok y) := by
  obtain ⟨-, -, h⟩ := exists_of_bind_ok h
  obtain ⟨schedules, hschedules, h⟩ := exists_of_bind_ok h
  refine ⟨schedules, eq_ok_of_refuse hschedules, ?_⟩
  dsimp only at h
  split at h
  · rename_i hgated
    obtain ⟨o, ho, h⟩ := exists_of_bind_ok h
    obtain ⟨y, hy, h⟩ := exists_of_bind_ok h
    obtain ⟨rfl, rfl⟩ := Prod.mk.inj (Except.ok.inj h)
    exact ⟨rfl, fun hn => by simp [hgated] at hn, fun _ => ⟨o, y, rfl, ho, hy⟩⟩
  · rename_i hgated
    obtain ⟨rfl, rfl⟩ := Prod.mk.inj (Except.ok.inj h)
    exact ⟨rfl, fun _ => rfl, fun hg => absurd hg hgated⟩

/-- The contender of an accepted publisher has the publisher's options. -/
theorem exists_options {c : Config} {replicator host outbox : String} {bucket? : Option String}
    {relaxations : Relaxations} {nonce : String} {p : Publisher} {y : Candidacy}
    (h : ofConfig c replicator host outbox bucket? relaxations nonce = .ok (p, some y)) :
    p.replicator = replicator ∧ ∃ o, optionsOf c replicator bucket? relaxations = .ok o ∧
      Candidacy.ofOptions o host nonce = .ok y := by
  obtain ⟨schedules, -, rfl, ungated, gated⟩ := ofConfig_ok h
  cases hg : c.leaderElection with
  | false => cases ungated hg
  | true =>
    obtain ⟨o, y', hy, options, terms⟩ := gated hg
    cases hy
    exact ⟨rfl, o, options, terms⟩

end Publisher

/-- A publisher of one subject, with terms that pass the check. -/
def Config.solo (interval : String) : Config where
  leaderElection := true
  subjects := [{ name := "s", interval := interval, headers := .empty }]
  election := { name := "e", key := "k", ttl := "30s", campaignInterval? := some "10s" }

end Tenure
