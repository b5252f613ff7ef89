import Tenure.Proofs.Heartbeat.Gauges

/-!
# Only the leader publishes

- **Silence** (`Silent`, `silent_along`): while its contender is kept out of the lead, a gated publisher is
  suspended, whoever calls `run`: the gate hears of no win (`Silent.suspended_move`). Its loops then do
  nothing but let ticks pass.
- **Publication** (`only_leader_publishes`): a loop begins a heartbeat only while the contender is leader,
  if nobody but the publisher has called `run`, and only before the publisher is cancelled.
- **Calls of others** (`publishes_as_candidate`): a call of somebody else that wins and is cancelled leaves
  the gate open behind a candidate.
-/

namespace Tenure

open Election

namespace Publisher

variable {now : Nat} {wall : Int} {p : Publisher} {box : Outbox} {j : Nat} {o : Outcome}

/-- No heartbeat is under way. -/
def Idle (p : Publisher) : Prop :=
  ∀ (k : Nat) (l : Loop) (t : Ticker) (m : Message) (due : Nat), p.loops[k]? = some l →
    l.phase ≠ .sending t m due

theorem Idle.setPhase (h : p.Idle) {phase : Phase} (hp : ∀ t m due, phase ≠ .sending t m due) :
    (p.setPhase j phase).Idle := by
  intro k l t m due hl
  rw [getElem?_setPhase] at hl
  split at hl
  · obtain ⟨l₀, -, rfl⟩ := Option.map_eq_some_iff.1 hl
    exact hp t m due
  · exact h k l t m due hl

/-- A loop without a heartbeat under way sends nothing while publication is suspended. -/
theorem Beat.quiet (b : p.Beat now wall box j o) (idle : p.Idle)
    (suspended : (p.gated && p.paused) = true) :
    o.outbox = box ∧ (∀ x ∈ o.happenings, x = .passed) ∧ o.publisher.Idle := by
  cases b with
  | still => exact ⟨rfl, nofun, idle⟩
  | ends => exact ⟨rfl, nofun, idle.setPhase nofun⟩
  | begins => exact ⟨rfl, nofun, idle.setPhase nofun⟩
  | passes => exact ⟨rfl, fun x hx => List.mem_singleton.1 hx, idle.setPhase nofun⟩
  | launches _ _ _ _ allowed _ | sends _ _ _ _ allowed _ =>
    exact nomatch suspended.symm.trans allowed
  | completes loop _ phase _ => exact absurd phase (idle _ _ _ _ _ loop)

end Publisher

namespace World

/-! ## Silence -/

/-- The loops of a gated publisher are suspended and have let ticks pass and done nothing else. -/
structure Silent (w : World) (id : String) : Prop where
  passed : ∀ e ∈ w.history, ∀ j, e.source = .loop id j → e.what = .passed
  idle : ∀ p, w.publishers.get? id = some p → p.Idle
  suspended : ∀ p, w.publishers.get? id = some p → (p.gated && p.paused) = true

/-- The contender of the name is no leader, and its publisher is gated. -/
def KeptOut (id : String) (w : World) : Prop :=
  (∀ c, w.contenders.get? id = some c → c.standing = .candidate) ∧
    ∀ p, w.publishers.get? id = some p → p.gated = true

section

variable {w : World} {id : String}

/-- The gate hears of no win while the contender is kept out. -/
theorem paused_turn {p : Publisher} {c : Contender} {o : Election.Outcome} {i : Nat}
    (hears : p.Hears c i o) (out : o.contender.standing = .candidate) (paused : p.paused = true) :
    (p.hearAll o.notes).paused = true := by
  cases hears with
  | deaf _ heard | left _ _ _ heard => rw [heard, paused]
  | told heard =>
    rw [heard, out]
    rfl

namespace Silent

/-- A turn of a loop sends nothing. -/
theorem quiet (h : w.Silent id) {p : Publisher} {j : Nat} {o : Publisher.Outcome}
    (was : w.publishers.get? id = some p)
    (beat : p.Beat w.now w.wall (w.outbox p.outbox) j o) :
    o.outbox = w.outbox p.outbox ∧ (∀ x ∈ o.happenings, x = .passed) ∧ o.publisher.Idle :=
  beat.quiet (h.idle p was) (h.suspended p was)

/-- The loops let ticks pass in a move. -/
theorem passed_move (h : w.Silent id) (m : Move) {e : Event} (he : e ∈ (w.move m).history) {j : Nat}
    (hsource : e.source = .loop id j) : e.what = .passed := by
  cases w.played m with
  | turn _ _ _ effect =>
    rw [effect.history, List.mem_append, List.mem_reverse, List.mem_map] at he
    rcases he with ⟨n, -, rfl⟩ | he
    · cases hsource
    · exact h.passed e he j hsource
  | beat _ was beat effect =>
    rw [effect.history, List.mem_append, List.mem_reverse, List.mem_map] at he
    rcases he with ⟨x, hx, rfl⟩ | he
    · cases hsource
      exact (h.quiet was beat).2.1 x hx
    · exact h.passed e he j hsource
  | call called => exact h.passed e (called.recast.history ▸ he) j hsource
  | stage staged => exact h.passed e (staged.history ▸ he) j hsource

/-- No heartbeat is under way after a move. -/
theorem idle_move (h : w.Silent id) (m : Move) {p' : Publisher}
    (hp' : (w.move m).publishers.get? id = some p') : p'.Idle := by
  cases publisherBecame hp' with
  | opened opens _ =>
    cases opens with
    | mk accepted =>
      obtain ⟨schedules, -, rfl, -⟩ := Publisher.ofConfig_ok accepted
      intro k l t msg due hl
      cases hl
  | aside was aside =>
    intro k l t msg due hl
    rcases aside.loops with hloops | hloops
    · exact h.idle _ was k l t msg due (hloops ▸ hl)
    · rw [hloops, List.getElem?_map] at hl
      obtain ⟨s, -, rfl⟩ := Option.map_eq_some_iff.1 hl
      exact nofun
  | beat _ was beat _ after => exact after ▸ (h.quiet was beat).2.2

/-- A gated publisher stays suspended in a move after which its contender is kept out. -/
theorem suspended_move (h : w.Silent id) (scheduled : w.Scheduled) (m : Move)
    (out : (w.move m).KeptOut id) {p' : Publisher} (hp' : (w.move m).publishers.get? id = some p') :
    (p'.gated && p'.paused) = true := by
  have gated := out.2 p' hp'
  rw [gated, Bool.true_and]
  cases hp : w.publishers.get? id with
  | none =>
    cases publisherBecame hp' with
    | opened opens _ =>
      cases opens with
      | mk accepted =>
        obtain ⟨schedules, -, rfl, -⟩ := Publisher.ofConfig_ok accepted
        exact gated
    | aside was | beat _ was => cases hp.symm.trans was
  | some p =>
    obtain ⟨p₁, hp₁, fares⟩ := hasFate hp scheduled m
    obtain rfl := Option.some.inj (hp'.symm.trans hp₁)
    have paused : p.paused = true := (Bool.and_eq_true_iff.1 (h.suspended p hp)).2
    cases fares with
    | turn _ turn contender =>
      split
      · exact paused_turn (turn.hears p) (out.1 _ contender) paused
      · exact paused
    | beat _ beat =>
      obtain ⟨loops, after⟩ := beat.exists_loops
      rw [after]
      exact paused
    | closes => rfl
    | starts | aside => exact paused

/-- The loops of a gated publisher stay silent in a move after which its contender is kept out. -/
theorem move (h : w.Silent id) (scheduled : w.Scheduled) (m : Move) (out : (w.move m).KeptOut id) :
    (w.move m).Silent id where
  passed _ he _ hsource := h.passed_move m he hsource
  idle _ hp' := h.idle_move m hp'
  suspended _ hp' := h.suspended_move scheduled m out hp'

/-- The turns of the loops leave the outboxes as they are. -/
theorem outbox_poll (h : w.Silent id) (j draw : Nat) (name : String) :
    (w.move (.poll (.loop id j) draw)).outbox name = w.outbox name := by
  show (w.pollLoop id j).outbox name = _
  cases hp : w.publishers.get? id with
  | none => simp only [pollLoop, hp]
  | some p =>
    obtain ⟨o, beat, effect⟩ := pollLoop_effect hp j
    rw [effect.outbox, (h.quiet hp beat).1]
    split
    · rename_i hname
      rw [hname]
    · rfl

end Silent

end

/-- A gated publisher is silent for as long as its contender is kept out. -/
theorem silent_along (host : String) (wall : Int) (now : Nat) {course : List Move} {id : String}
    (out : (fresh host wall now).Along (KeptOut id) course) :
    ((fresh host wall now).follow course).Silent id := by
  induction course using List.reverseRecOn with
  | nil => exact ⟨nofun, fun _ h => by simp at h, fun _ h => by simp at h⟩
  | append_singleton course m ih =>
    rw [follow_concat]
    have before : (fresh host wall now).Along (KeptOut id) course := (along_append.1 out).1
    have after : (((fresh host wall now).follow course).move m).KeptOut id := by
      rw [← follow_concat]
      exact out.last
    exact (ih before).move (kempt_follow host wall now course).scheduled m after

/-! ## Publication -/

/-- Only the leader publishes: a loop of a gated publisher begins a heartbeat only while the publisher is
not cancelled, and only while its contender is leader if nobody but the publisher has called `run`. If
the contender is never leader on the way, the loops let ticks pass, do nothing else, and leave the
outboxes as they are, whoever calls `run`. -/
theorem only_leader_publishes (host : String) (wall : Int) (now : Nat) (course : List Move)
    {id : String} {p : Publisher}
    (hp : ((fresh host wall now).follow course).publishers.get? id = some p)
    (hgated : p.gated = true) :
    (∀ m j, ((fresh host wall now).follow course).Sends m id j →
      p.cancelled = false ∧ (((fresh host wall now).follow course).RunByPublisher id →
        ∃ c, ((fresh host wall now).follow course).contenders.get? id = some c ∧
          c.standing = .leader)) ∧
    ((fresh host wall now).Along
        (fun w => ∀ c, w.contenders.get? id = some c → c.standing = .candidate) course →
      (∀ e ∈ ((fresh host wall now).follow course).history, ∀ j, e.source = .loop id j →
        e.what = .passed) ∧
      ∀ before j draw after, course = before ++ .poll (.loop id j) draw :: after → ∀ name,
        ((fresh host wall now).follow (before ++ [.poll (.loop id j) draw])).outbox name =
          ((fresh host wall now).follow before).outbox name) := by
  have hguarded := guarded_follow host wall now course
  refine ⟨fun m j => hguarded.leader_of_sends hp hgated, fun hcand => ?_⟩
  have out : (fresh host wall now).Along (KeptOut id) course := by
    have := gated_along course hp
    rw [hgated] at this
    exact hcand.and this
  refine ⟨(silent_along host wall now out).passed, fun before j draw after hcourse name => ?_⟩
  subst hcourse
  rw [follow_concat]
  exact (silent_along host wall now (along_append.1 out).1).outbox_poll j draw name

/-- A publisher wins its election and has a heartbeat due. -/
def debut : List Move :=
  [.openPublisher "p" (.solo "5s") "r" "o" (some "b") {}, .startPublisher "p" false,
    .poll (.run "p" 0) 0, .poll (.loop "p" 0) 0, .advance 5000000000]

theorem only_leader_publishes_debut :
    ∃ p, ((fresh "h" 0 0).follow debut).publishers.get? "p" = some p ∧ p.gated = true ∧
      ((fresh "h" 0 0).follow debut).RunByPublisher "p" ∧
      ((fresh "h" 0 0).follow debut).Sends (.poll (.loop "p" 0) 0) "p" 0 ∧
      p.cancelled = false ∧ ∃ c,
        ((fresh "h" 0 0).follow debut).contenders.get? "p" = some c ∧ c.standing = .leader := by
  have hopened : (((fresh "h" 0 0).follow debut).publishers.get? "p").map (·.gated) = some true := by
    decide +kernel
  have alone : ((fresh "h" 0 0).follow debut).RunByPublisher "p" := by decide +kernel
  have hsends : ((fresh "h" 0 0).follow debut).Sends (.poll (.loop "p" 0) 0) "p" 0 := by
    decide +kernel
  obtain ⟨p, hp, hgated⟩ := Option.map_eq_some_iff.1 hopened
  obtain ⟨running, leader⟩ :=
    (only_leader_publishes "h" 0 0 debut hp hgated).1 (.poll (.loop "p" 0) 0) 0 hsends
  exact ⟨p, hp, hgated, alone, hsends, running, leader alone⟩

/-- Somebody else calls `run` of the contender of a publisher, wins, and cancels the call. The publisher
is started meanwhile, and its own call is refused. -/
def bystander : List Move :=
  [.openPublisher "p" (.solo "5s") "r" "o" (some "b") {}, .callRun "p" false, .poll (.run "p" 0) 0,
    .startPublisher "p" false, .poll (.run "p" 1) 0, .poll (.loop "p" 0) 0, .cancelRun "p" 0,
    .poll (.run "p" 0) 0, .advance 5000000000]

theorem publishes_as_candidate :
    ∃ p c, ((fresh "h" 0 0).follow bystander).publishers.get? "p" = some p ∧ p.gated = true ∧
      ((fresh "h" 0 0).follow bystander).contenders.get? "p" = some c ∧ c.standing = .candidate ∧
      ((fresh "h" 0 0).follow bystander).Sends (.poll (.loop "p" 0) 0) "p" 0 := by
  have hopened : (((fresh "h" 0 0).follow bystander).publishers.get? "p").map (·.gated) =
      some true := by decide +kernel
  have hcand : (((fresh "h" 0 0).follow bystander).contenders.get? "p").map (·.standing) =
      some .candidate := by decide +kernel
  have hsends : ((fresh "h" 0 0).follow bystander).Sends (.poll (.loop "p" 0) 0) "p" 0 := by
    decide +kernel
  obtain ⟨p, hp, hgated⟩ := Option.map_eq_some_iff.1 hopened
  obtain ⟨c, hc, candidate⟩ := Option.map_eq_some_iff.1 hcand
  exact ⟨p, c, hp, hgated, hc, candidate, hsends⟩

end World

end Tenure
