import Tenure.Proofs.Election.Fencing
import Tenure.Proofs.Election.Punctuality
import Tenure.Proofs.Heartbeat.Gate

/-!
# Stale leaders

A leader learns only from its next renewal that its lease has ended, and its publisher publishes
until then.

- **Ends** (`LeaseEnded`): the instants at which the lease of a last write has ended. The write came
  before them (`LeaseEnded.written_le`).
- **Bound** (`publishes_until_renewal`): if waits end on time and nobody else calls `run`, a publisher
  publishes for at most one campaign interval after the end, unless a renewal made by then waits for
  its answer.
- **No bound** (`outlasts_interval`): while a renewal waits (`hang`) nothing bounds how long the publisher
  goes on, and neither does anything after a call of somebody else was cancelled (`interlude`).
-/

namespace Tenure.World

open Election

/-- The lease of the last write of a contender has ended by the end of a course: it ran out at this
instant, or at a point on the way the entry was found to be gone. -/
inductive LeaseEnded (start : World) (course : List Move) (id : String) : Nat → Prop
  | lapsed {c : Contender} {t revision : Nat}
      (contender : (start.follow course).contenders.get? id = some c)
      (last : (start.follow course).lastWrite? id = some (t, revision))
      (past : t + c.candidacy.ttl.nanos ≤ (start.follow course).now) :
      LeaseEnded start course id (t + c.candidacy.ttl.nanos)
  | gone {before between : List Move} (split : course = before ++ between)
      (isOver : (start.follow before).LeaseOver id)
      (last : (start.follow course).lastWrite? id = (start.follow before).lastWrite? id) :
      LeaseEnded start course id (start.follow before).now

theorem LeaseEnded.written_le {host : String} {wall : Int} {now e : Nat} {course : List Move}
    {id : String} (h : (fresh host wall now).LeaseEnded course id e) {t revision : Nat}
    (last : ((fresh host wall now).follow course).lastWrite? id = some (t, revision)) :
    t ≤ e := by
  cases h with
  | lapsed _ last' _ =>
    obtain ⟨rfl, -⟩ := Prod.mk.inj (Option.some.inj (last.symm.trans last'))
    exact Nat.le_add_right ..
  | @gone before _ _ isOver same =>
    obtain ⟨c, _, _, hc, -, -⟩ := isOver
    exact written_le_now host wall now before hc (same.symm.trans last)

/-- On a course on which the waits of its contender end on time and nobody else calls `run` of it, a
gated publisher begins a heartbeat at most one campaign interval and a millisecond after the lease has
ended, unless a renewal that was made by then waits for its answer. -/
theorem publishes_until_renewal (host : String) (wall : Int) (now : Nat) {course : List Move}
    {id : String} (ontime : (fresh host wall now).Along (OnTime id) course) {p : Publisher}
    {c : Contender} {m : Move} {j e : Nat}
    (hp : ((fresh host wall now).follow course).publishers.get? id = some p)
    (hgated : p.gated = true)
    (alone : ((fresh host wall now).follow course).RunByPublisher id)
    (hc : ((fresh host wall now).follow course).contenders.get? id = some c)
    (ended : (fresh host wall now).LeaseEnded course id e)
    (hsends : ((fresh host wall now).follow course).Sends m id j) :
    ((fresh host wall now).follow course).now ≤ e + c.candidacy.interval.nanos + nanosPerMilli ∨
    ∃ r ∈ c.runs, r.phase.isOutstanding = true ∧ ∃ asked,
      ((fresh host wall now).follow course).unanswered? id = some asked ∧
      asked ≤ e + c.candidacy.interval.nanos + nanosPerMilli := by
  obtain ⟨-, leads⟩ := (guarded_follow host wall now course).leader_of_sends hp hgated hsends
  obtain ⟨c', hc', hlead⟩ := leads alone
  obtain rfl := Option.some.inj (hc.symm.trans hc')
  obtain ⟨i, r, t, revision, work, holds, last, hprompt⟩ :=
    punctual_along host wall now ontime hc hlead
  have hwritten := ended.written_le last
  have renewing (hout : r.phase.isOutstanding = true) (hcall : ∃ asked,
      ((fresh host wall now).follow course).unanswered? id = some asked ∧
      asked ≤ t + c.candidacy.interval.nanos + nanosPerMilli) :
      ∃ r ∈ c.runs, r.phase.isOutstanding = true ∧ ∃ asked,
        ((fresh host wall now).follow course).unanswered? id = some asked ∧
        asked ≤ e + c.candidacy.interval.nanos + nanosPerMilli := by
    obtain ⟨asked, hasked, hle⟩ := hcall
    refine ⟨r, List.mem_of_getElem? work.run, hout, asked, hasked, ?_⟩
    omega
  cases phase : r.phase with
  | waiting due =>
    left
    rw [phase] at hprompt
    have hdue : due ≤ t + c.candidacy.interval.nanos := hprompt
    have hnow := ontime.last.le hc work phase
    omega
  | calling q asked due =>
    rw [phase] at hprompt
    exact .inr (renewing (by rw [phase]; rfl) hprompt)
  | broken =>
    rw [phase] at hprompt
    exact .inr (renewing (by rw [phase]; rfl) hprompt)
  | _ => exact absurd holds (by simp [phase, Phase.holdsLoop])

/-- A publisher wins its election, and its lease is ended from outside. -/
def coup : List Move :=
  [.openPublisher "p" (.solo "9s") "r" "o" (some "b") {}, .startPublisher "p" false,
    .poll (.run "p" 0) 0, .poll (.loop "p" 0) 0, .advance 5000000000, .expire "b" "e.k"]

/-- The publisher goes on until its first heartbeat is due. -/
def afterCoup : List Move := coup ++ [.advance 4000000000]

theorem publishes_until_renewal_coup :
    ∃ p c, ((fresh "h" 0 0).follow afterCoup).publishers.get? "p" = some p ∧ p.gated = true ∧
      ((fresh "h" 0 0).follow afterCoup).RunByPublisher "p" ∧
      ((fresh "h" 0 0).follow afterCoup).contenders.get? "p" = some c ∧
      (fresh "h" 0 0).LeaseEnded afterCoup "p" 5000000000 ∧
      (((fresh "h" 0 0).follow afterCoup).now ≤
          5000000000 + c.candidacy.interval.nanos + nanosPerMilli ∨
        ∃ r ∈ c.runs, r.phase.isOutstanding = true ∧ ∃ asked,
          ((fresh "h" 0 0).follow afterCoup).unanswered? "p" = some asked ∧
          asked ≤ 5000000000 + c.candidacy.interval.nanos + nanosPerMilli) := by
  have hopened : (((fresh "h" 0 0).follow afterCoup).publishers.get? "p").map (·.gated) =
      some true := by decide +kernel
  have hcontender : (((fresh "h" 0 0).follow afterCoup).contenders.get? "p").isSome = true := by
    decide +kernel
  have hgone : (((fresh "h" 0 0).follow coup).contenders.get? "p").map
      (fun c => ((fresh "h" 0 0).follow coup).liveRow? c.candidacy) = some none := by
    decide +kernel
  have ontime : (fresh "h" 0 0).Along (OnTime "p") afterCoup := by decide +kernel
  have alone : ((fresh "h" 0 0).follow afterCoup).RunByPublisher "p" := by decide +kernel
  have hsends : ((fresh "h" 0 0).follow afterCoup).Sends (.poll (.loop "p" 0) 0) "p" 0 := by
    decide +kernel
  obtain ⟨p, hp, hgated⟩ := Option.map_eq_some_iff.1 hopened
  obtain ⟨c, hc⟩ := Option.isSome_iff_exists.1 hcontender
  obtain ⟨c₀, hc₀, hlive⟩ := Option.map_eq_some_iff.1 hgone
  have isOver : ((fresh "h" 0 0).follow coup).LeaseOver "p" :=
    ⟨c₀, 0, 1, hc₀, by decide +kernel, fun _ h => nomatch hlive.symm.trans h⟩
  have ended : (fresh "h" 0 0).LeaseEnded afterCoup "p" ((fresh "h" 0 0).follow coup).now :=
    .gone rfl isOver (by decide +kernel)
  rw [show ((fresh "h" 0 0).follow coup).now = 5000000000 by decide +kernel] at ended
  exact ⟨p, c, hp, hgated, alone, hc, ended,
    publishes_until_renewal "h" 0 0 ontime hp hgated alone hc ended hsends⟩

/-- A publisher wins its election. Then the calls on the store begin to take long, and its renewal
has no answer when a heartbeat is due. -/
def hang : List Move :=
  [.openPublisher "p" (.solo "45s") "r" "o" (some "b") {}, .startPublisher "p" false,
    .poll (.run "p" 0) 0, .poll (.loop "p" 0) 0, .setStoreDelay "b" 100000000000,
    .advance 10000000000, .poll (.run "p" 0) 0, .advance 20000000000, .advance 15000000000]

/-- Somebody else calls `run` of the contender of a publisher, wins, and cancels the call. The publisher
is started meanwhile, and a heartbeat is due when the lease has run out. -/
def interlude : List Move :=
  [.openPublisher "p" (.solo "45s") "r" "o" (some "b") {}, .callRun "p" false, .poll (.run "p" 0) 0,
    .startPublisher "p" false, .poll (.run "p" 1) 0, .poll (.loop "p" 0) 0, .cancelRun "p" 0,
    .poll (.run "p" 0) 0, .advance 45000000000]

/-- A gated publisher begins a heartbeat later than an interval and a millisecond after the lease has
ended at the instant, though all waits end on time. -/
def Outlasts (start : World) (course : List Move) (id : String) (e : Nat) : Prop :=
  ∃ p c, (start.follow course).publishers.get? id = some p ∧ p.gated = true ∧
    (start.follow course).contenders.get? id = some c ∧ start.Along (OnTime id) course ∧
    start.LeaseEnded course id e ∧ (∃ j, (start.follow course).Sends (.poll (.loop id j) 0) id j) ∧
    ¬ (start.follow course).now ≤ e + c.candidacy.interval.nanos + nanosPerMilli

theorem outlasts_of_lapsed (start : World) (course : List Move) (id : String)
    (t revision ttl interval j : Nat)
    (gated : ((start.follow course).publishers.get? id).map (·.gated) = some true)
    (terms : ((start.follow course).contenders.get? id).map
      (fun c => (c.candidacy.ttl.nanos, c.candidacy.interval.nanos)) = some (ttl, interval))
    (ontime : start.Along (OnTime id) course)
    (last : (start.follow course).lastWrite? id = some (t, revision))
    (sends : (start.follow course).Sends (.poll (.loop id j) 0) id j)
    (late : t + ttl + interval + nanosPerMilli < (start.follow course).now) :
    start.Outlasts course id (t + ttl) := by
  obtain ⟨p, hp, hgated⟩ := Option.map_eq_some_iff.1 gated
  obtain ⟨c, hc, hterms⟩ := Option.map_eq_some_iff.1 terms
  obtain ⟨rfl, rfl⟩ := Prod.mk.inj hterms
  exact ⟨p, c, hp, hgated, hc, ontime, .lapsed hc last (by omega), ⟨j, sends⟩, by omega⟩

/-- A publisher goes on for longer than an interval after its lease ran out while its renewal hangs, and
also after a call of somebody else was cancelled, with no renewal at all. -/
theorem outlasts_interval :
    (fresh "h" 0 0).Outlasts hang "p" 30000000000 ∧
      (fresh "h" 0 0).Outlasts interlude "p" 30000000000 ∧
      ∀ c, ((fresh "h" 0 0).follow interlude).contenders.get? "p" = some c →
        ∀ r ∈ c.runs, r.phase.isOutstanding = false := by
  refine ⟨?_, ?_, fun c hc => ?_⟩
  · exact outlasts_of_lapsed (fresh "h" 0 0) hang "p" 0 1 30000000000 10000000000 0
      (by decide +kernel) (by decide +kernel) (by decide +kernel) (by decide +kernel)
      (by decide +kernel) (by decide +kernel)
  · exact outlasts_of_lapsed (fresh "h" 0 0) interlude "p" 0 1 30000000000 10000000000 0
      (by decide +kernel) (by decide +kernel) (by decide +kernel) (by decide +kernel)
      (by decide +kernel) (by decide +kernel)
  · have rests : (((fresh "h" 0 0).follow interlude).contenders.get? "p").all
        (·.runs.all (!·.phase.isOutstanding)) = true := by decide +kernel
    rw [hc] at rests
    simpa using rests

end Tenure.World
