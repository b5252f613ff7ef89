import Tenure.Proofs.Election.Jitter
import Tenure.Proofs.Election.Waits

/-!
# The terms of a publisher's contender

- **Terms** (`Publisher.ofConfig_some`): the contender of a publisher goes by the publisher's label, and
  waits for three campaign intervals at most.
- **Courses** (`commissioned_follow`): these are the terms of the contender of every gated publisher at
  all times.
-/

namespace Tenure

open Election

namespace Publisher

/-- The contender of a publisher goes by its label, and waits for three campaign intervals at most. -/
theorem ofConfig_some {c : Config} {replicator host outbox : String} {bucket? : Option String}
    {relaxations : Relaxations} {nonce : String} {p : Publisher} {y : Candidacy}
    (h : ofConfig c replicator host outbox bucket? relaxations nonce = .ok (p, some y)) :
    y.replicator = p.replicator ∧ y.WaitsWithin (3 * y.interval.nanos) := by
  obtain ⟨label, o, options, terms⟩ := exists_options h
  obtain ⟨label', -⟩ := label_of_optionsOf options
  obtain ⟨-, b, made, backoff⟩ := backoff?_of_ofConfig h
  obtain ⟨bucket, -, rfl, -⟩ := Candidacy.eq_of_ofOptions terms
  refine ⟨label'.trans label.symm, by omega, fun b' hb' failures draw d hd => ?_⟩
  rw [backoff] at hb'
  split at hb'
  · cases hb'
  · cases hb'
    exact (next_range made hd).2.2.2

end Publisher

namespace World

/-- The contender of a gated publisher goes by the publisher's label, and waits for three campaign
intervals at most. -/
def Commissioned (w : World) : Prop :=
  ∀ {id p c}, w.publishers.get? id = some p → p.gated = true → w.contenders.get? id = some c →
    c.candidacy.replicator = p.replicator ∧
      c.candidacy.WaitsWithin (3 * c.candidacy.interval.nanos)

theorem commissioned_move {w : World} (h : w.Commissioned) (m : Move) :
    (w.move m).Commissioned := by
  intro id p' c' hp' hgated hc'
  -- a publisher that was there before had its contender then
  have kept {p : Publisher} (hp : w.publishers.get? id = some p)
      (same : p'.replicator = p.replicator) (gated : p.gated = true) :
      c'.candidacy.replicator = p'.replicator ∧
        c'.candidacy.WaitsWithin (3 * c'.candidacy.interval.nanos) := by
    cases became hc' with
    | opened _ free _ _ => cases hp.symm.trans (eq_none_of_free free).2
    | aside was aside _ =>
      rw [aside.candidacy, same]
      exact h hp gated was
    | turn _ was turn _ after =>
      rw [after, turn.candidacy, same]
      exact h hp gated was
  cases publisherBecame hp' with
  | opened opens free =>
    cases became hc' with
    | aside was | turn _ was => cases was.symm.trans (eq_none_of_free free).1
    | opened enrols _ new _ =>
      subst new
      cases opens with
      | mk accepted =>
        cases enrols with
        | publisher accepted' =>
          obtain ⟨rfl, rfl⟩ := Prod.mk.inj (Except.ok.inj (accepted.symm.trans accepted'))
          exact Publisher.ofConfig_some accepted
  | aside was aside => exact kept was aside.replicator (aside.gated ▸ hgated)
  | beat _ was beat _ after =>
    obtain ⟨loops, heq⟩ := beat.exists_loops
    rw [heq] at after
    subst after
    exact kept was rfl hgated

theorem commissioned_follow (host : String) (wall : Int) (now : Nat) (course : List Move) :
    ((fresh host wall now).follow course).Commissioned :=
  follow_induct course (I := Commissioned) (fun h => by simp at h) fun _ m h =>
    commissioned_move h m

end World

end Tenure
