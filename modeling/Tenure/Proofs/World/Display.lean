import Tenure.Proofs.Election.Terms
import Tenure.Proofs.World.Moves

/-!
# What moves show

- **Gauges** (`gauges`, `Apart`): the gauges of a publisher and its contender, and when no others share a
  slot with them.
- **Loops** (`Scheduled`): the loops of a publisher are those of its subjects.
- **Values** (`value_display`, `value_announce`, `value_pollLoop`): what turns show.
- **Frame** (`value_move`): a gauge changes only in moves of a publisher or contender that has one in its
  slot.
-/

namespace Tenure

open Election

namespace Metrics

/-- The number that a flag is shown as. -/
def flag (on : Bool) : Nat := if on then 1 else 0

namespace Registry

theorem value_setFlag_self (r : Registry) (s : Series) (on : Bool) :
    (r.setFlag s on).value s = flag on := by
  rw [value_setFlag, if_pos rfl, flag]

theorem value_setFlag_of_ne (r : Registry) {s t : Series} (on : Bool) (h : s.slot ≠ t.slot) :
    (r.setFlag s on).value t = r.value t := by
  rw [value_setFlag, if_neg h]

/-- Counters leave gauges alone. -/
theorem value_increment_of_gauge (r : Registry) {s t : Series} (hs : s.family.isCounter = true)
    (ht : t.family.isCounter = false) : (r.increment s).value t = r.value t := by
  have hne : s.slot ≠ t.slot := by
    refine Series.slot_ne_of_family_ne fun h => ?_
    rw [h, ht] at hs
    cases hs
  rw [value_increment, if_neg hne, Nat.add_zero]

/-- Flags of several subjects are set together. -/
theorem value_setFlags (r : Registry) (replicator : String) (subjects : List String) (on : Bool)
    (t : Series) :
    (subjects.foldl (fun m s => m.setFlag (.subjectActive replicator s) on) r).value t =
      if ∃ s ∈ subjects, (Series.subjectActive replicator s).slot = t.slot then flag on
      else r.value t := by
  induction subjects generalizing r with
  | nil => simp
  | cons s subjects ih =>
    rw [List.foldl_cons, ih, value_setFlag]
    by_cases hs : (Series.subjectActive replicator s).slot = t.slot
    · simp [hs, flag]
    · simp [hs]

end Registry

end Metrics

open Metrics

/-! ## Gauges -/

/-- The gauges of a publisher: whether it is suspended, and its subjects. -/
def Publisher.gauges (p : Publisher) : List Series :=
  .paused p.replicator :: p.subjects.map (.subjectActive p.replicator)

/-- The gauge of a contender. -/
def Election.Candidacy.gauge (y : Candidacy) : Series := .leader y.replicator y.name

theorem Publisher.paused_mem_gauges (p : Publisher) : .paused p.replicator ∈ p.gauges :=
  List.mem_cons_self ..

theorem Publisher.subjectActive_mem_gauges {p : Publisher} {s : String} (h : s ∈ p.subjects) :
    .subjectActive p.replicator s ∈ p.gauges :=
  List.mem_cons_of_mem _ (List.mem_map_of_mem h)

/-- Suspension and subjects are shown in different slots. -/
theorem Metrics.Series.paused_slot_ne_subjectActive (replicator replicator' subject : String) :
    (Series.paused replicator).slot ≠ (Series.subjectActive replicator' subject).slot :=
  slot_ne_of_family_ne fun h => by cases h

/-- Contenders and publishers are shown in different slots. -/
theorem Election.Candidacy.gauge_slot_ne (y : Candidacy) {p : Publisher} {s : Series}
    (h : s ∈ p.gauges) : y.gauge.slot ≠ s.slot := by
  refine Series.slot_ne_of_family_ne fun hf => ?_
  rcases List.mem_cons.1 h with rfl | h
  · cases hf
  · obtain ⟨_, -, rfl⟩ := List.mem_map.1 h
    cases hf

namespace World

/-- The gauges of the publisher and of the contender of a name. -/
def gauges (w : World) (id : String) : List Series :=
  (w.publishers.get? id).elim [] (·.gauges) ++
    (w.contenders.get? id).elim [] fun c => [c.candidacy.gauge]

section

variable {w : World} {m : Move} {id : String}

theorem mem_gauges_of_publisher {p : Publisher} (hp : w.publishers.get? id = some p) {s : Series}
    (h : s ∈ p.gauges) : s ∈ w.gauges id := by
  rw [gauges, hp]
  exact List.mem_append_left _ h

theorem mem_gauges_of_contender {c : Contender} (hc : w.contenders.get? id = some c) :
    c.candidacy.gauge ∈ w.gauges id := by
  rw [gauges, hc]
  exact List.mem_append_right _ (List.mem_singleton.2 rfl)

theorem mem_gauges_iff {s : Series} : s ∈ w.gauges id ↔
    (∃ p, w.publishers.get? id = some p ∧ s ∈ p.gauges) ∨
    ∃ c, w.contenders.get? id = some c ∧ s = c.candidacy.gauge := by
  rw [gauges, List.mem_append]
  cases w.publishers.get? id <;> cases w.contenders.get? id <;> simp

/-- No other publisher or contender has a gauge in a slot with one of this name. -/
def Apart (id : String) (w : World) : Prop :=
  ∀ id', id' ≠ id → ∀ s ∈ w.gauges id, ∀ t ∈ w.gauges id', s.slot ≠ t.slot

theorem apart_iff : w.Apart id ↔ ∀ id' ∈ w.publishers.keys ++ w.contenders.keys, id' ≠ id →
    ∀ s ∈ w.gauges id, ∀ t ∈ w.gauges id', s.slot ≠ t.slot := by
  refine ⟨fun h id' _ => h id', fun h id' hne s hs t ht => h id' ?_ hne s hs t ht⟩
  have known {α : Type} {rows : Table String α} {a : α} (ha : rows.get? id' = some a) :
      id' ∈ rows.keys :=
    List.mem_map_of_mem (f := Prod.fst) ((rows.mem_toList_iff id' a).2 ha)
  rcases mem_gauges_iff.1 ht with ⟨p, hp, -⟩ | ⟨c, hc, -⟩
  · exact List.mem_append_left _ (known hp)
  · exact List.mem_append_right _ (known hc)

instance (id : String) : DecidablePred (Apart id) := fun _ => decidable_of_iff _ apart_iff.symm

/-- Gauges do not disappear. -/
theorem mem_gauges_move {s : Series} (h : s ∈ w.gauges id) (m : Move) : s ∈ (w.move m).gauges id := by
  rcases mem_gauges_iff.1 h with ⟨p, hp, hs⟩ | ⟨c, hc, rfl⟩
  · obtain ⟨p', hp', -⟩ := exists_publisher_move hp m
    refine mem_gauges_of_publisher hp' ?_
    have same : p'.gauges = p.gauges := by
      cases publisherBecame hp' with
      | opened _ free => cases hp.symm.trans (eq_none_of_free free).2
      | aside was aside =>
        obtain rfl := Option.some.inj (hp.symm.trans was)
        rw [Publisher.gauges, Publisher.subjects, aside.replicator, aside.schedules]
        rfl
      | beat _ was beat _ after =>
        obtain rfl := Option.some.inj (hp.symm.trans was)
        obtain ⟨loops, heq⟩ := beat.exists_loops
        rw [after, heq]
        rfl
    rwa [same]
  · obtain ⟨c', hc'⟩ := exists_contender_move hc m
    rw [← candidacy_move hc hc']
    exact mem_gauges_of_contender hc'

theorem Apart.of_move (h : (w.move m).Apart id) : w.Apart id :=
  fun id' hne _ hs _ ht => h id' hne _ (mem_gauges_move hs m) _ (mem_gauges_move ht m)

end

end World

/-! ## Loops -/

namespace Publisher

theorem schedules_setPhase (p : Publisher) (j : Nat) (phase : Phase) :
    (p.setPhase j phase).loops.map (·.schedule) = p.loops.map (·.schedule) := by
  apply List.ext_getElem?
  intro k
  simp only [setPhase, List.getElem?_map, List.getElem?_modify]
  cases p.loops[k]? with
  | none => rfl
  | some l =>
    simp only [Option.map_eq_map, Option.map_some]
    split <;> rfl

/-- The loops of a publisher keep to their schedules. -/
theorem Beat.schedules {now : Nat} {wall : Int} {p : Publisher} {box : Outbox} {j : Nat}
    {o : Outcome} (h : p.Beat now wall box j o) :
    o.publisher.loops.map (·.schedule) = p.loops.map (·.schedule) := by
  cases h with
  | still => rfl
  | ends | begins | passes | launches | sends | completes => exact schedules_setPhase ..

end Publisher

namespace World

/-- The loops of publishers are those of their subjects. -/
def Scheduled (w : World) : Prop :=
  ∀ {id p}, w.publishers.get? id = some p → p.loops.map (·.schedule) ⊆ p.schedules

theorem scheduled_move {w : World} (h : w.Scheduled) (m : Move) : (w.move m).Scheduled := by
  intro id p' hp'
  cases publisherBecame hp' with
  | opened opens _ =>
    cases opens with
    | mk accepted =>
      obtain ⟨schedules, -, rfl, -⟩ := Publisher.ofConfig_ok accepted
      exact List.nil_subset _
  | aside was aside =>
    rw [aside.schedules]
    rcases aside.loops with hloops | hloops
    · rw [hloops]
      exact h was
    · rw [hloops, List.map_map]
      exact fun s hs => by simpa [Function.comp_def] using hs
  | beat _ was beat _ after =>
    obtain ⟨loops, heq⟩ := beat.exists_loops
    rw [after, beat.schedules, heq]
    exact h was

end World

/-! ## Values -/

/-- What the gate of a publisher shows of a campaign, gauge by gauge. -/
theorem Publisher.value_display (p : Publisher) (before after : Standing) (r : Registry)
    (t : Series) :
    (p.display before after r).value t =
      if ∃ s ∈ p.subjects, (Series.subjectActive p.replicator s).slot = t.slot then
        flag after.isLeader
      else if before ≠ after ∧ (Series.paused p.replicator).slot = t.slot then flag !after.isLeader
      else r.value t := by
  rw [display, Registry.value_setFlags]
  split
  · rfl
  · by_cases hb : before = after
    · simp [hb]
    · rw [if_neg hb, Registry.value_setFlag]
      simp [hb, flag]

/-- A campaign shows the standing after it. -/
theorem Election.Candidacy.value_display_gauge (y : Candidacy) (gate? : Option Publisher)
    (before after : Standing) (r : Registry) :
    (y.display gate? before after r).value y.gauge = flag after.isLeader :=
  Registry.value_setFlag_self ..

/-- What a campaign shows at the gate. -/
theorem Election.Candidacy.value_display_gate (y : Candidacy) (gate? : Option Publisher)
    (before after : Standing) (r : Registry) {t : Series} (gauge : t.family.isCounter = false)
    (ht : y.gauge.slot ≠ t.slot) :
    (y.display gate? before after r).value t =
      (gate?.elim r (·.display before after r)).value t := by
  have hne : (Series.leader y.replicator y.name).slot ≠ t.slot := ht
  rw [Candidacy.display, Registry.value_setFlag_of_ne _ _ hne,
    Registry.value_increment_of_gauge _ rfl gauge]

/-- A campaign shows whether the gate is closed if the standing changed. -/
theorem Election.Candidacy.value_display_paused (y : Candidacy) (p : Publisher)
    (before after : Standing) (r : Registry) :
    (y.display (some p) before after r).value (.paused p.replicator) =
      if before = after then r.value (.paused p.replicator) else flag !after.isLeader := by
  rw [y.value_display_gate (some p) before after r rfl (y.gauge_slot_ne p.paused_mem_gauges),
    Option.elim_some, Publisher.value_display, if_neg]
  · by_cases h : before = after <;> simp [h]
  · rintro ⟨s, -, hslot⟩
    exact Series.paused_slot_ne_subjectActive _ _ _ hslot.symm

/-- A campaign shows the standing after it at each subject of the gate. -/
theorem Election.Candidacy.value_display_subject (y : Candidacy) {p : Publisher}
    (before after : Standing) (r : Registry) {s : String} (h : s ∈ p.subjects) :
    (y.display (some p) before after r).value (.subjectActive p.replicator s) =
      flag after.isLeader := by
  rw [y.value_display_gate (some p) before after r rfl
    (y.gauge_slot_ne (Publisher.subjectActive_mem_gauges h)), Option.elim_some,
    Publisher.value_display, if_pos ⟨s, h, rfl⟩]

/-- A campaign leaves gauges in other slots alone. -/
theorem Election.Candidacy.value_display_of_ne (y : Candidacy) (gate? : Option Publisher)
    (before after : Standing) (r : Registry) {t : Series} (gauge : t.family.isCounter = false)
    (ht : y.gauge.slot ≠ t.slot) (hgate : ∀ p ∈ gate?, ∀ s ∈ p.gauges, s.slot ≠ t.slot) :
    (y.display gate? before after r).value t = r.value t := by
  rw [y.value_display_gate gate? before after r gauge ht]
  cases gate? with
  | none => rfl
  | some p =>
    have hgate := hgate p rfl
    rw [Option.elim_some, Publisher.value_display, if_neg, if_neg]
    · exact fun h => hgate _ p.paused_mem_gauges h.2
    · rintro ⟨s, hs, hslot⟩
      exact hgate _ (Publisher.subjectActive_mem_gauges hs) hslot

/-- What a turn of a loop shows: without a gate the subject counts as active from the first turn on, and
once the publisher is cancelled it does not any more. -/
def Publisher.light (p : Publisher) (l : Publisher.Loop) (r : Registry) : Registry :=
  let s : Series := .subjectActive p.replicator l.schedule.subject
  match l.phase with
  | .fresh =>
    let r := if p.gated then r else r.setFlag s true
    if p.cancelled then r.setFlag s false else r
  | .idle _ | .sending _ _ _ => if p.cancelled then r.setFlag s false else r
  | .over => r

theorem Publisher.value_light_of_ne (p : Publisher) (l : Publisher.Loop) (r : Registry) {t : Series}
    (h : (Series.subjectActive p.replicator l.schedule.subject).slot ≠ t.slot) :
    (p.light l r).value t = r.value t := by
  unfold light
  cases l.phase with
  | fresh =>
    dsimp only
    cases p.gated <;> cases p.cancelled <;> simp [Registry.value_setFlag_of_ne _ _ h]
  | idle | sending =>
    dsimp only
    split
    · rw [Registry.value_setFlag_of_ne _ _ h]
    · rfl
  | _ => rfl

/-- A loop of a cancelled publisher shows nothing or that its subject is inactive. -/
theorem Publisher.value_light_of_cancelled {p : Publisher} (cancelled : p.cancelled = true) (l : Publisher.Loop)
    (r : Registry) (t : Series) : (p.light l r).value t = r.value t ∨ (p.light l r).value t = 0 := by
  by_cases hslot : (Series.subjectActive p.replicator l.schedule.subject).slot = t.slot
  · unfold light
    cases l.phase with
    | fresh | idle | sending =>
      refine .inr ?_
      simp only [cancelled, if_true]
      rw [Registry.value_setFlag, if_pos hslot]
      rfl
    | _ => exact .inl rfl
  · exact .inl (value_light_of_ne p l r hslot)

/-- A loop of a cancelled publisher that ends shows that its subject is inactive. -/
theorem Publisher.value_light_of_ends {p : Publisher} (cancelled : p.cancelled = true) {l : Publisher.Loop}
    (running : l.phase ≠ .over) (r : Registry) :
    (p.light l r).value (.subjectActive p.replicator l.schedule.subject) = 0 := by
  unfold light
  cases hph : l.phase with
  | fresh | idle | sending =>
    simp only [cancelled, if_true]
    exact Registry.value_setFlag_self ..
  | _ => exact absurd hph running

namespace World

variable {w : World} {m : Move} {id : String}

/-- What a turn of a loop shows. -/
theorem value_pollLoop {p : Publisher} {j : Nat} {l : Publisher.Loop}
    (hp : w.publishers.get? id = some p) (hl : p.loops[j]? = some l) {t : Series}
    (gauge : t.family.isCounter = false) :
    (w.pollLoop id j).metrics.value t = (p.light l w.metrics).value t := by
  have sent (v : World) (ticker : Ticker) (msg : Message) :
      (v.sendBeat id j p ticker msg).metrics.value t = v.metrics.value t := by
    simp only [sendBeat]
    cases ((v.outbox p.outbox).send msg.deliver).2 with
    | ok => exact Registry.value_increment_of_gauge _ rfl gauge
    | error => exact Registry.value_increment_of_gauge _ rfl gauge
  simp only [pollLoop, hp, hl, Publisher.light]
  cases hph : l.phase with
  | fresh =>
    dsimp only
    cases p.gated <;> cases p.cancelled <;> rfl
  | idle ticker =>
    dsimp only
    split
    · rfl
    · split
      · rfl
      · split
        · rfl
        · simp only [beat]
          split
          · exact sent _ _ _
          · rfl
  | sending ticker msg due =>
    dsimp only
    split
    · rfl
    · split
      · exact sent w ticker msg
      · rfl
  | _ => rfl

/-- What the start of a publisher shows. -/
theorem value_announce (p : Publisher) (r : Registry) (t : Series) :
    (announce p r).value t =
      if p.gated = true ∧ ∃ s ∈ p.subjects, (Series.subjectActive p.replicator s).slot = t.slot then 0
      else if (Series.paused p.replicator).slot = t.slot then flag p.gated else r.value t := by
  unfold announce
  dsimp only
  split
  · rename_i hg
    rw [Registry.value_setFlags, Registry.value_setFlag]
    simp [hg, flag]
  · rename_i hg
    rw [Registry.value_setFlag, if_neg (fun h : p.gated = true ∧ _ => hg h.1)]
    rfl

theorem value_announce_paused (p : Publisher) (r : Registry) :
    (announce p r).value (.paused p.replicator) = flag p.gated := by
  rw [value_announce, if_neg, if_pos rfl]
  rintro ⟨-, s, -, hslot⟩
  exact Series.paused_slot_ne_subjectActive _ _ _ hslot.symm

theorem value_announce_of_ne (p : Publisher) (r : Registry) {t : Series}
    (h : ∀ s ∈ p.gauges, s.slot ≠ t.slot) : (announce p r).value t = r.value t := by
  rw [value_announce, if_neg, if_neg]
  · exact h _ p.paused_mem_gauges
  · rintro ⟨-, s, hs, hslot⟩
    exact h _ (Publisher.subjectActive_mem_gauges hs) hslot

/-! ## Frame -/

end World

/-- The publisher or contender whose gauges a move can change. -/
def Move.mover? : Move → Option String
  | .poll (.run id _) _ | .poll (.loop id _) _ | .poll (.closing id) _ | .startPublisher id _ => some id
  | _ => none

namespace World

variable {w : World} {m : Move} {id : String}

/-- A move leaves a gauge alone unless the mover has one in its slot. -/
theorem value_move (hw : w.Scheduled) {t : Series} (gauge : t.family.isCounter = false)
    (h : ∀ id, m.mover? = some id → ∀ s ∈ w.gauges id, s.slot ≠ t.slot) :
    (w.move m).metrics.value t = w.metrics.value t := by
  cases m with
  | openContender id options =>
    simp only [move]
    split
    · rfl
    · cases hv : w.openContender id options with
      | error e => rfl
      | ok v =>
        simp only [openContender] at hv
        cases hy : Candidacy.ofOptions options w.host w.nonce with
        | error e => rw [hy] at hv; cases hv
        | ok y => rw [hy] at hv; cases hv; rfl
  | openPublisher id config replicator outbox bucket? relaxations =>
    simp only [move]
    split
    · rfl
    · simp only [openPublisher]
      cases Publisher.ofConfig config replicator w.host outbox bucket? relaxations w.nonce with
      | error e => rfl
      | ok opened =>
        obtain ⟨p, y?⟩ := opened
        cases y? <;> rfl
  | startPublisher id cancelled =>
    have h := h id rfl
    have runs (v : World) (hv : v.metrics = w.metrics)
        (hp : ∀ p, v.publishers.get? id = some p → ∃ q, w.publishers.get? id = some q ∧
          p.gauges = q.gauges) :
        (v.runPublisher id).1.metrics.value t = w.metrics.value t := by
      simp only [runPublisher]
      split
      · rw [hv]
      · rename_i p hget
        split
        · rw [hv]
        · obtain ⟨q, hq, hsame⟩ := hp p hget
          have hne : ∀ s ∈ p.gauges, s.slot ≠ t.slot := fun s hs =>
            h s (mem_gauges_of_publisher hq (hsame ▸ hs))
          have := value_announce_of_ne p w.metrics hne
          rw [← hv] at this ⊢
          split <;> exact this
    simp only [move, startPublisher]
    split
    · refine runs _ rfl fun p hp => ?_
      have hp : (w.modifyPublisher id fun p => { p with cancelled := true }).publishers.get? id =
        some p := hp
      rw [get?_publishers_modify, if_pos rfl] at hp
      obtain ⟨q, hq, rfl⟩ := Option.map_eq_some_iff.1 hp
      exact ⟨q, hq, rfl⟩
    · exact runs w rfl fun p hp => ⟨p, hp, rfl⟩
  | poll task draw =>
    cases task with
    | run id i =>
      have h := h id rfl
      cases hc : w.contenders.get? id with
      | none => simp only [move, poll, pollRun, hc]
      | some c =>
        have hgauge : c.candidacy.gauge.slot ≠ t.slot := h _ (mem_gauges_of_contender hc)
        obtain ⟨o, -, -, shown⟩ := pollRun_shown hc i draw
        show (w.pollRun id i draw).metrics.value t = _
        generalize (w.pollRun id i draw).metrics = r at shown
        cases shown with
        | still => rfl
        | left => exact Registry.value_setFlag_of_ne _ _ hgauge
        | concluded =>
          refine Candidacy.value_display_of_ne _ _ _ _ _ gauge hgauge fun p hp s hs => ?_
          rw [gate?] at hp
          split at hp
          · exact h s (mem_gauges_of_publisher hp hs)
          · cases hp
    | loop id j =>
      have h := h id rfl
      show (w.pollLoop id j).metrics.value t = _
      cases hp : w.publishers.get? id with
      | none => simp only [pollLoop, hp]
      | some p =>
        cases hl : p.loops[j]? with
        | none => simp only [pollLoop, hp, hl]
        | some l =>
          have hmem : l.schedule ∈ p.schedules := hw hp (List.mem_map_of_mem (List.mem_of_getElem? hl))
          rw [value_pollLoop hp hl gauge, Publisher.value_light_of_ne]
          exact h _ (mem_gauges_of_publisher hp
            (Publisher.subjectActive_mem_gauges (List.mem_map_of_mem hmem)))
    | closing id =>
      have h := h id rfl
      simp only [move, poll, pollClosing]
      cases hp : w.publishers.get? id with
      | none => rfl
      | some p =>
        dsimp only
        split
        · exact Registry.value_setFlag_of_ne _ _
            (h _ (mem_gauges_of_publisher hp p.paused_mem_gauges))
        · rfl
    | stopping id =>
      simp only [move, poll, pollStopping]
      split <;> rfl
  | readMetric s => exact Registry.value_touch ..
  | _ => rfl

end World

end Tenure
