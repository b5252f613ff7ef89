import Tenure.Proofs.Heartbeat.Acceptance
import Tenure.Proofs.Heartbeat.Receipts
import Tenure.Proofs.World.Alike

/-!
# The headers of heartbeats

A heartbeat carries the headers of its own subject, and nothing that is configured takes the place of the two
reserved ones.

- **Look-up** (`SubjectSettings.header?`, `Schedule.IsFor.get?_headers`): the headers that heartbeats on a
  subject carry, as one rule of precedence.
- **Loops** (`Schedule.Stamps`, `Publisher.Beat.stamps`): a turn of a loop begins and sends only heartbeats
  that are stamped for its schedule.
- **Courses** (`Addressed`, `headers_on_wire`): the loop of each entry of a configuration keeps to that
  entry, also where entries have a subject in common.
-/

namespace Tenure

/-! ## Look-up -/

/-- A header of the heartbeats on a subject: the host and the subject under the reserved names, else the
subject's own, else the global one. -/
def SubjectSettings.header? (s : SubjectSettings) (host : String) (global : Headers) (name : String) :
    Option String :=
  if name = Headers.originator then some host
  else if name = Headers.subject then some s.name
  else match s.headers.get? name with
    | some value => some value
    | none => global.get? name

/-- The message is a heartbeat that `host` publishes on the schedule. -/
def Schedule.Stamps (s : Schedule) (host : String) (m : Message) : Prop :=
  ∃ time, m = .stamp s.subject host s.headers time

/-- Heartbeats on the schedule of an entry go to its subject and carry its headers. -/
theorem Schedule.IsFor.headers_of_stamps {schedule : Schedule} {global : Headers} {s : SubjectSettings}
    {host : String} {m : Message} (h : schedule.IsFor global s) (stamps : schedule.Stamps host m) :
    m.subject = s.name ∧ ∀ name, m.headers.get? name = s.header? host global name := by
  obtain ⟨time, rfl⟩ := stamps
  refine ⟨h.subject, fun name => ?_⟩
  rw [Message.get?_headers_stamp, h.subject, h.headers, Headers.get?_merge, SubjectSettings.header?]
  cases s.headers.get? name <;> rfl

/-! ## Loops -/

namespace Publisher

variable {now : Nat} {wall : Int} {p : Publisher} {box : Outbox} {j : Nat} {o : Outcome} {l : Loop}
  {s : Schedule}

/-- A heartbeat that is on its way is stamped for the schedule. -/
def Phase.Carries (s : Schedule) (host : String) : Phase → Prop
  | .sending _ m _ => s.Stamps host m
  | .fresh | .idle _ | .over => True

theorem heartbeat_stamps (p : Publisher) (l : Loop) (wall : Int) :
    l.schedule.Stamps p.host (p.heartbeat l wall) := ⟨wall, rfl⟩

/-- A turn records and sends heartbeats that are stamped for the schedule, and nothing else. -/
structure Outcome.Stamped (o : Outcome) (s : Schedule) (host : String) (box : Outbox) : Prop where
  begun : ∀ m, .sending m ∈ o.happenings → s.Stamps host m
  sent : ∃ sent, o.outbox.latest = sent ++ box.latest ∧
    ∀ d ∈ sent, ∃ m, s.Stamps host m ∧ d = m.deliver

theorem exists_latest_send {host : String} {m : Message} (stamps : s.Stamps host m) (box : Outbox) :
    ∃ sent, (box.send m.deliver).1.latest = sent ++ box.latest ∧
      ∀ d ∈ sent, ∃ m, s.Stamps host m ∧ d = m.deliver := by
  unfold Outbox.send
  split
  · exact ⟨[], rfl, List.forall_mem_nil _⟩
  · exact ⟨[m.deliver], rfl, List.forall_mem_singleton.2 ⟨m, stamps, rfl⟩⟩

/-- In a turn a loop begins, holds back and sends heartbeats for its own schedule only. -/
theorem Beat.stamps (b : p.Beat now wall box j o) (loop : p.loops[j]? = some l)
    (carries : l.phase.Carries l.schedule p.host) :
    o.Stamped l.schedule p.host box ∧
    ∃ phase, o.publisher.loops[j]? = some { l with phase := phase } ∧ phase.Carries l.schedule p.host := by
  have moves (phase : Phase) : (p.setPhase j phase).loops[j]? = some { l with phase := phase } := by
    rw [getElem?_setPhase, if_pos rfl, loop, Option.map_some]
  -- a turn in which no heartbeat begins and none is sent
  have quiet {o : Outcome} (none : ∀ m, .sending m ∉ o.happenings) (same : o.outbox = box) :
      o.Stamped l.schedule p.host box :=
    ⟨fun m mem => absurd mem (none m), [], congrArg _ same, List.forall_mem_nil _⟩
  cases b with
  | still => exact ⟨quiet (by simp) rfl, l.phase, loop, carries⟩
  | ends => exact ⟨quiet (by simp) rfl, _, moves .over, trivial⟩
  | begins => exact ⟨quiet (by simp) rfl, _, moves (.idle _), trivial⟩
  | passes => exact ⟨quiet (by simp) rfl, _, moves (.idle _), trivial⟩
  | @launches l' t loop' =>
    cases loop.symm.trans loop'
    have stamps := p.heartbeat_stamps l wall
    refine ⟨⟨fun m mem => ?_, [], rfl, List.forall_mem_nil _⟩, _, moves (.sending _ _ _), stamps⟩
    cases List.mem_singleton.1 mem
    exact stamps
  | @sends l' t loop' =>
    cases loop.symm.trans loop'
    have stamps := p.heartbeat_stamps l wall
    refine ⟨⟨fun m mem => ?_, exists_latest_send stamps box⟩, _, moves (.idle _), trivial⟩
    rcases List.mem_cons.1 mem with same | mem
    · cases same
      exact stamps
    · cases List.mem_singleton.1 mem
  | @completes l' t m due loop' _ sending =>
    cases loop.symm.trans loop'
    rw [sending] at carries
    refine ⟨⟨fun m mem => ?_, exists_latest_send carries box⟩, _, moves (.idle _), trivial⟩
    cases List.mem_singleton.1 mem

end Publisher

/-! ## Courses -/

namespace World

variable {w : World} {m : Move} {id host outbox : String} {j : Nat} {s : Schedule} {p : Publisher}

theorem host_of_recast {v : World} (h : Recast w v) : v.host = w.host := by
  obtain ⟨_, _, _, _, rfl⟩ := h
  rfl

/-- The host stays the same. -/
theorem host_move (w : World) (m : Move) : (w.move m).host = w.host := by
  cases m with
  | openContender id options => exact host_of_recast (called_openContender w id options).recast
  | openPublisher id config replicator outbox bucket? relaxations =>
    exact host_of_recast (called_openPublisher w id config replicator outbox bucket? relaxations).recast
  | startPublisher id cancelled => exact host_of_recast (Beside.startPublisher w id cancelled).recast
  | poll task draw =>
    cases task with
    | run id i => exact congrArg Prod.fst (register_pollRun w id i draw)
    | loop id j => exact congrArg Prod.fst (register_pollLoop w id j)
    | closing id => exact host_of_recast (Beside.pollClosing w id).recast
    | stopping id => exact host_of_recast (Beside.pollStopping w id).recast
  | _ => rfl

theorem host_follow (w : World) (course : List Move) : (w.follow course).host = w.host :=
  follow_induct course (I := fun v => v.host = w.host) rfl fun v m same => (host_move v m).trans same

/-- The loop of the `j`-th subject of a publisher has the schedule, and all the heartbeats that it has begun
are stamped for that. -/
structure Addressed (w : World) (id : String) (j : Nat) (s : Schedule) (host outbox : String) : Prop where
  publisher : ∃ p, w.publishers.get? id = some p ∧ p.host = host ∧ p.outbox = outbox ∧ p.schedules[j]? = some s
  carries : ∀ l, w.loop? id j = some l → l.phase.Carries s host
  begun : ∀ time m, (time, .sending m) ∈ w.diary id j → s.Stamps host m

/-- A loop keeps to the schedule at its place. -/
theorem schedule_of_loop (kempt : w.Kempt) (hp : w.publishers.get? id = some p) {l : Publisher.Loop}
    (loop : w.loop? id j = some l) : p.schedules[j]? = some l.schedule := by
  rw [loop?_of_publisher hp] at loop
  have fits := kempt.fits hp
  cases started : p.started with
  | false =>
    rw [(fits.new started).1] at loop
    cases loop
  | true => rw [← (fits.begun started).2, List.getElem?_map, loop, Option.map_some]

/-- What a publisher is made of stays the same. -/
theorem exists_publisher_of_move (hp : w.publishers.get? id = some p) (m : Move) :
    ∃ q, (w.move m).publishers.get? id = some q ∧ q.host = p.host ∧ q.outbox = p.outbox ∧
      q.schedules = p.schedules := by
  obtain ⟨q, hq, -⟩ := exists_publisher_move hp m
  refine ⟨q, hq, ?_⟩
  cases publisherBecame hq with
  | opened _ free => cases hp.symm.trans (eq_none_of_free free).2
  | aside was aside =>
    cases hp.symm.trans was
    exact ⟨aside.host, aside.outbox, aside.schedules⟩
  | beat _ was beat _ after =>
    cases hp.symm.trans was
    obtain ⟨loops, same⟩ := beat.exists_loops
    rw [after, same]
    exact ⟨rfl, rfl, rfl⟩

namespace Addressed

theorem move (h : w.Addressed id j s host outbox) (kempt : w.Kempt) (m : Move) :
    (w.move m).Addressed id j s host outbox := by
  obtain ⟨⟨p, hp, rfl, rfl, subject⟩, carries, begun⟩ := h
  obtain ⟨q, hq, host, outbox, schedules⟩ := exists_publisher_of_move hp m
  have publisher : ∃ q, (w.move m).publishers.get? id = some q ∧ q.host = p.host ∧ q.outbox = p.outbox ∧
      q.schedules[j]? = some s := ⟨q, hq, host, outbox, schedules ▸ subject⟩
  have still (quiet : w.beats id j m = []) : (w.move m).diary id j = w.diary id j := by
    rw [diary_move, quiet, List.map_nil, List.append_nil]
  cases loop_move kempt m id j with
  | rests quiet same =>
    exact ⟨publisher, fun l loop => carries l (same.symm.trans loop), still quiet ▸ begun⟩
  | made quiet _ new =>
    refine ⟨publisher, fun l loop => ?_, still quiet ▸ begun⟩
    cases new.symm.trans loop
    exact trivial
  | @beat p' l draw o _ was loop beat effect =>
    cases hp.symm.trans was
    have here := (loop?_of_publisher hp).trans loop
    cases (schedule_of_loop kempt hp here).symm.trans subject
    obtain ⟨stamped, phase, loop', carries'⟩ := beat.stamps loop (carries l here)
    have after : (w.move m).loop? id j = some { l with phase := phase } :=
      (loop?_of_publisher ((effect.publishers id).trans (if_pos rfl))).trans loop'
    refine ⟨publisher, fun l' hl' => ?_, fun time m' mem => ?_⟩
    · cases after.symm.trans hl'
      exact carries'
    · rw [diary_move, effect.beats, if_pos ⟨rfl, rfl⟩] at mem
      rcases List.mem_append.1 mem with mem | mem
      · exact begun time m' mem
      · obtain ⟨x, mem, same⟩ := List.mem_map.1 mem
        cases same
        exact stamped.begun m' mem

/-- A turn of the loop sends nothing but heartbeats stamped for its schedule. -/
theorem sent (h : w.Addressed id j s host outbox) (kempt : w.Kempt) (draw : Nat) :
    ∃ sent, ((w.move (.poll (.loop id j) draw)).outbox outbox).latest = sent ++ (w.outbox outbox).latest ∧
      ∀ d ∈ sent, ∃ m, s.Stamps host m ∧ d = m.deliver := by
  obtain ⟨⟨p, hp, rfl, rfl, subject⟩, carries, -⟩ := h
  obtain ⟨o, beat, effect⟩ := pollLoop_effect hp j
  have box : (w.move (.poll (.loop id j) draw)).outbox p.outbox = o.outbox :=
    (effect.outbox p.outbox).trans (if_pos rfl)
  rw [box]
  cases loop : p.loops[j]? with
  | none =>
    rw [beat.eq_of_absent loop]
    exact ⟨[], rfl, List.forall_mem_nil _⟩
  | some l =>
    have here := (loop?_of_publisher hp).trans loop
    cases (schedule_of_loop kempt hp here).symm.trans subject
    exact (beat.stamps loop (carries l here)).1.sent

end Addressed

section Opened

variable {c : Config} {replicator : String} {bucket? : Option String} {relaxations : Election.Relaxations}
  {y? : Option Election.Candidacy}

theorem get?_publishers_opened (free : w.isTaken id = false)
    (accepted : Publisher.ofConfig c replicator w.host outbox bucket? relaxations w.nonce = .ok (p, y?)) :
    (w.move (.openPublisher id c replicator outbox bucket? relaxations)).publishers.get? id = some p := by
  have opened : w.move (.openPublisher id c replicator outbox bucket? relaxations) =
      match y? with
      | some y => ({ w with publishers := w.publishers.insert id p } : World).enrol id y
      | none => { w with publishers := w.publishers.insert id p } := by
    simp only [move, free, openPublisher, accepted]
    cases y? <;> rfl
  rw [opened]
  cases y? <;> exact Table.get?_insert_self ..

/-- A publisher that is opened has a schedule for each entry, and no loop yet. -/
theorem addressed_opened {before : List Move} {wall : Int} {now : Nat}
    (free : ((fresh host wall now).follow before).isTaken id = false)
    (accepted : Publisher.ofConfig c replicator host outbox bucket? relaxations
      ((fresh host wall now).follow before).nonce = .ok (p, y?))
    {e : SubjectSettings} (entry : c.subjects[j]? = some e) :
    ∃ s : Schedule, s.IsFor c.headers e ∧
      (((fresh host wall now).follow before).move
        (.openPublisher id c replicator outbox bucket? relaxations)).Addressed id j s host outbox := by
  have same : ((fresh host wall now).follow before).host = host := host_follow _ before
  have hp := get?_publishers_opened free (by rw [same]; exact accepted)
  obtain ⟨schedules, made, rfl, -⟩ := Publisher.ofConfig_ok accepted
  have pairs := Publisher.isFor_of_schedules made
  obtain ⟨inside, entry⟩ := List.getElem?_eq_some_iff.1 entry
  have place : j < schedules.length := pairs.length_eq ▸ inside
  have isFor : schedules[j].IsFor c.headers e := by
    rw [← entry]
    exact (List.forall₂_iff_get.1 pairs).2 j inside place
  -- nothing is recorded for a loop that is not there
  have absent : (((fresh host wall now).follow before).move
      (.openPublisher id c replicator outbox bucket? relaxations)).loop? id j = none := by
    rw [loop?_of_publisher hp]
    rfl
  have recorded := recorded_follow host wall now
    (before ++ [.openPublisher id c replicator outbox bucket? relaxations]) id j
  rw [follow_append, follow_cons, follow_nil] at recorded
  refine ⟨schedules[j], isFor, ⟨_, hp, rfl, rfl, List.getElem?_eq_getElem place⟩, fun l loop => ?_,
    fun time m mem => ?_⟩
  · cases absent.symm.trans loop
  · rw [recorded.absent absent] at mem
    cases mem

/-- Headers on the wire. Whatever happens to the publisher of an accepted configuration and around it, the
heartbeats that the loop of an entry begins, and those that it sends, go to the entry's subject and carry
exactly the entry's headers: the host and the subject under the reserved names, else the entry's own header,
else the global one, else none. -/
theorem headers_on_wire (host : String) (wall : Int) (now : Nat) (before after : List Move)
    (free : ((fresh host wall now).follow before).isTaken id = false)
    (accepted : Publisher.ofConfig c replicator host outbox bucket? relaxations
      ((fresh host wall now).follow before).nonce = .ok (p, y?))
    {i : Nat} {e : SubjectSettings} (entry : c.subjects[i]? = some e) :
    let w := (fresh host wall now).follow
      (before ++ .openPublisher id c replicator outbox bucket? relaxations :: after)
    (∀ time m, (time, .sending m) ∈ w.diary id i →
      m.subject = e.name ∧ ∀ name, m.headers.get? name = e.header? host c.headers name) ∧
    ∀ draw, ∃ sent, ((w.move (.poll (.loop id i) draw)).outbox outbox).latest =
        sent ++ (w.outbox outbox).latest ∧
      ∀ d ∈ sent, d.subject = e.name ∧ ∀ name, d.headers.get? name = e.header? host c.headers name := by
  intro w
  obtain ⟨s, isFor, opened⟩ := addressed_opened free accepted entry
  have both : w.Kempt ∧ w.Addressed id i s host outbox := by
    refine ⟨kempt_follow host wall now _, ?_⟩
    have kempt := (kempt_follow host wall now before).move
      (.openPublisher id c replicator outbox bucket? relaxations)
    have stays := follow_induct after (I := fun v => v.Kempt ∧ v.Addressed id i s host outbox)
      ⟨kempt, opened⟩ fun v m h => ⟨h.1.move m, h.2.move h.1 m⟩
    rw [show w = _ from follow_append _ before _]
    exact stays.2
  obtain ⟨kempt, addressed⟩ := both
  refine ⟨fun time m mem => isFor.headers_of_stamps (addressed.begun time m mem), fun draw => ?_⟩
  obtain ⟨sent, latest, stamped⟩ := addressed.sent kempt draw
  refine ⟨sent, latest, fun d hd => ?_⟩
  obtain ⟨m, stamps, rfl⟩ := stamped d hd
  exact isFor.headers_of_stamps stamps

end Opened

/-- Two entries on one subject. The global headers and those of the second entry claim reserved names. -/
def twins : Config where
  headers := .ofList [("Originator", "nobody"), ("region", "eu"), ("env", "prod")]
  subjects := [
    { name := "s", interval := "5s", headers := .ofList [("env", "staging")] },
    { name := "s", interval := "5s", headers := .ofList [("Subject", "t")] }]

/-- Their loops tick once. The heartbeat of the first one is sent, and that of the second one held back. -/
def duplex : List Move :=
  [.startPublisher "p" false, .poll (.loop "p" 0) 0, .poll (.loop "p" 1) 0, .advance 5000000000,
    .poll (.loop "p" 0) 0, .setOutboxDelay "o" 1000000000, .poll (.loop "p" 1) 0, .advance 1000000000]

theorem headers_on_wire_duplex :
    (fresh "h" 0 0).isTaken "p" = false ∧
    (Publisher.ofConfig twins "r" "h" "o" none {} (fresh "h" 0 0).nonce).toBool = true ∧
    (∃ time m, (time, .sending m) ∈ ((fresh "h" 0 0).follow
        (.openPublisher "p" twins "r" "o" none {} :: duplex)).diary "p" 0 ∧
      m.headers.get? "Originator" = some "h" ∧ m.headers.get? "env" = some "staging") ∧
    (∃ time m, (time, .sending m) ∈ ((fresh "h" 0 0).follow
        (.openPublisher "p" twins "r" "o" none {} :: duplex)).diary "p" 1 ∧
      m.headers.get? "Subject" = some "s" ∧ m.headers.get? "env" = some "prod") ∧
    ∃ sent, ((((fresh "h" 0 0).follow (.openPublisher "p" twins "r" "o" none {} :: duplex)).move
        (.poll (.loop "p" 1) 0)).outbox "o").latest = sent ++ (((fresh "h" 0 0).follow
          (.openPublisher "p" twins "r" "o" none {} :: duplex)).outbox "o").latest ∧
      ∀ d ∈ sent, d.headers.get? "region" = some "eu" := by
  have free : (fresh "h" 0 0).isTaken "p" = false := by decide
  have accepted : (Publisher.ofConfig twins "r" "h" "o" none {} (fresh "h" 0 0).nonce).toBool = true := by
    decide +kernel
  have calls (i : Nat) (hi : i = 0 ∨ i = 1) : ((((fresh "h" 0 0).follow
      (.openPublisher "p" twins "r" "o" none {} :: duplex)).diary "p" i).any
        fun x => (x.2.call? "s").isSome) = true := by
    rcases hi with rfl | rfl <;> decide +kernel
  have begun {i : Nat} (hi : i = 0 ∨ i = 1) : ∃ time m, (time, .sending m) ∈ ((fresh "h" 0 0).follow
      (.openPublisher "p" twins "r" "o" none {} :: duplex)).diary "p" i := by
    obtain ⟨⟨time, what⟩, mem, call⟩ := List.any_eq_true.1 (calls i hi)
    cases what with
    | sending m => exact ⟨time, m, mem⟩
    | noted | passed | sent => cases call
  cases made : Publisher.ofConfig twins "r" "h" "o" none {} (fresh "h" 0 0).nonce with
  | error e =>
    rw [made] at accepted
    cases accepted
  | ok x =>
    obtain ⟨p, y?⟩ := x
    obtain ⟨first, -⟩ := headers_on_wire "h" 0 0 [] duplex free made (i := 0) rfl
    obtain ⟨second, sends⟩ := headers_on_wire "h" 0 0 [] duplex free made (i := 1) rfl
    obtain ⟨time, m, mem⟩ := begun (.inl rfl)
    obtain ⟨time', m', mem'⟩ := begun (.inr rfl)
    obtain ⟨sent, latest, carry⟩ := sends 0
    refine ⟨free, rfl, ⟨time, m, mem, (first time m mem).2 _, (first time m mem).2 _⟩,
      ⟨time', m', mem', (second time' m' mem').2 _, (second time' m' mem').2 _⟩, sent, latest,
      fun d hd => (carry d hd).2 _⟩

end World

end Tenure
