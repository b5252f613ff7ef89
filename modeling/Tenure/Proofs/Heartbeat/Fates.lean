import Tenure.Proofs.Election.Reign
import Tenure.Proofs.Heartbeat.Gate
import Tenure.Proofs.World.Display

/-!
# What becomes of a publisher in a move

A publisher, the contender of its name and their gauges change together: in turns of its tasks, at its
start and when it is cancelled. In all other moves they stay as they are, if no other publisher or
contender has a gauge in one of the slots.

- **Fates** (`Fares`): what a move makes of a publisher, of the contender of its name, and of their
  gauges.
- **Moves** (`hasFate`): every publisher has one of these fates in every move. One that was started stays
  so (`Started.move`).
- **Stages** (`Fits`, `fits_move`): the parts of a publisher fit together. Before its start nothing of it
  has begun, from then on its loops are those of its subjects, and nothing ends before it is cancelled.
  The flag that says whether publication is suspended fits in if nobody else has called `run`.
-/

namespace Tenure

open Election Metrics

/-! ## Fates -/

/-- What may happen to a contender aside from turns and from the start of its publisher: it gets no
further call of `run` that is tied. -/
structure Election.Spared (c c' : Contender) : Prop where
  aside : Aside c c'
  tied : ∀ {j : Nat} {r : Run}, c'.runs[j]? = some r → r.tied = true →
    ∃ b, c.runs[j]? = some { r with cancelled := b }

namespace Election.Spared

theorem of_marks {c c' : Contender} (aside : Aside c c') (marks : Marks c.runs c'.runs) :
    Spared c c' :=
  ⟨aside, fun hr _ => marks.run hr⟩

theorem refl (c : Contender) : Spared c c := ⟨.refl, fun hr _ => ⟨_, hr⟩⟩

theorem look (c : Contender) : Spared c c.look := ⟨.look .refl, fun hr _ => ⟨_, hr⟩⟩

theorem cancel (c : Contender) (tied : Bool) : Spared c (c.cancel tied) :=
  .of_marks (.cancel .refl tied) (c.marks_cancel tied)

theorem cancelRun (c : Contender) (i : Nat) : Spared c (c.cancelRun i) :=
  .of_marks (.cancelRun .refl i) (c.marks_cancelRun i)

theorem call (c : Contender) (cancelled : Bool) : Spared c (c.start cancelled false) :=
  ⟨.start .refl cancelled false, fun hr tied => ⟨_, Contender.run_of_start hr tied⟩⟩

/-- If no call of `run` was tied, none is. -/
theorem untied {c c' : Contender} (h : Spared c c') (none : ∀ r ∈ c.runs, r.tied = false) :
    ∀ r ∈ c'.runs, r.tied = false := by
  intro r hr
  obtain ⟨j, hj⟩ := List.getElem?_of_mem hr
  refine Bool.eq_false_iff.2 fun tied => ?_
  obtain ⟨b, hb⟩ := h.tied hj tied
  have untied := none _ (List.mem_of_getElem? hb)
  cases tied.symm.trans untied

end Election.Spared

namespace World

variable {w : World} {m : Move} {id : String}

/-- What a move makes of a publisher, of the contender of its name, and of their gauges. -/
inductive Fares (w : World) (m : Move) (id : String) (p : Publisher) : Publisher → Prop
  /-- A call of `run` has a turn. -/
  | turn {c : Contender} {i draw : Nat} {o : Election.Outcome} (was : w.contenders.get? id = some c)
      (turn : Turn w.now (w.bucket c.candidacy.bucket).delay draw c
        (w.bucket c.candidacy.bucket).store i o)
      (contender : (w.move m).contenders.get? id = some o.contender)
      (shown : Shown (w.gate? id c.candidacy) c i o w.metrics (w.move m).metrics) :
      Fares w m id p (if c.candidacy.audience = .gate then p.hearAll o.notes else p)
  /-- A loop has a turn. -/
  | beat {j : Nat} {l : Publisher.Loop} {o : Publisher.Outcome} (loop : p.loops[j]? = some l)
      (beat : p.Beat w.now w.wall (w.outbox p.outbox) j o)
      (contender : (w.move m).contenders.get? id = w.contenders.get? id)
      (shown : ∀ t, t.family.isCounter = false →
        (w.move m).metrics.value t = (p.light l w.metrics).value t) :
      Fares w m id p o.publisher
  /-- The end of the publisher has a turn. -/
  | closes (armed : p.closing = .armed) (cancelled : p.cancelled = true)
      (contender : (w.move m).contenders.get? id = w.contenders.get? id)
      (shown : (w.move m).metrics = w.metrics.setFlag (.paused p.replicator) true) :
      Fares w m id p { p with paused := true, closing := .done }
  /-- The publisher is started. -/
  | starts (cancelled : Bool) (new : p.started = false)
      (contender : Option.Rel Aside (w.contenders.get? id) ((w.move m).contenders.get? id))
      (shown : (w.move m).metrics = announce p w.metrics) :
      Fares w m id p { p with
        cancelled := cancelled
        started := true
        loops := p.schedules.map fun s => { schedule := s }
        closing := .armed }
  /-- Nothing happens to it but that it may be cancelled or get a timer. -/
  | aside (cancelled : Bool) (stopAt? : Option Nat)
      (cancels : p.cancelled = true → cancelled = true)
      (contender : Option.Rel Spared (w.contenders.get? id) ((w.move m).contenders.get? id))
      (shown : w.Apart id → ∀ t ∈ w.gauges id, (w.move m).metrics.value t = w.metrics.value t) :
      Fares w m id p { p with cancelled := cancelled, stopAt? := stopAt? }

theorem isCounter_of_mem_gauges {t : Series} (h : t ∈ w.gauges id) : t.family.isCounter = false := by
  rcases mem_gauges_iff.1 h with ⟨p, -, ht⟩ | ⟨c, -, rfl⟩
  · rcases List.mem_cons.1 ht with rfl | ht
    · rfl
    · obtain ⟨s, -, rfl⟩ := List.mem_map.1 ht
      rfl
  · rfl

/-- Moves of others leave gauges alone that share no slots with theirs. -/
theorem Apart.value_move (apart : w.Apart id) (hw : w.Scheduled) (others : m.mover? ≠ some id)
    {t : Series} (ht : t ∈ w.gauges id) : (w.move m).metrics.value t = w.metrics.value t := by
  refine World.value_move hw (isCounter_of_mem_gauges ht) fun id' hid' s hs => ?_
  have hne : id' ≠ id := by
    rintro rfl
    exact others hid'
  exact (apart id' hne t ht s hs).symm

/-! ## Moves -/

section

variable {p : Publisher} {v : World}

/-- The publisher has a fate in the move. -/
def HasFate (w : World) (m : Move) (id : String) (p : Publisher) : Prop :=
  ∃ p', (w.move m).publishers.get? id = some p' ∧ w.Fares m id p p'

/-- Nothing happens to the publisher. -/
theorem hasFate_of_same (publisher : (w.move m).publishers.get? id = some p)
    (contender : (w.move m).contenders.get? id = w.contenders.get? id)
    (shown : w.Apart id → ∀ t ∈ w.gauges id, (w.move m).metrics.value t = w.metrics.value t) :
    w.HasFate m id p :=
  ⟨p, publisher, .aside p.cancelled p.stopAt? (fun h => h)
    (contender ▸ rel_refl .refl _) shown⟩

/-- The contender of some name is spared, and nothing else happens. -/
theorem hasFate_of_spared (hp : w.publishers.get? id = some p) {id' : String}
    {f : Contender → Contender} (hm : w.move m = w.modifyContender id' f)
    (spared : ∀ c, Spared c (f c)) : w.HasFate m id p := by
  refine ⟨p, hm ▸ hp, .aside p.cancelled p.stopAt? (fun h => h) ?_ fun _ t _ => by rw [hm]; rfl⟩
  rw [hm, get?_contenders_modify]
  exact rel_modify .refl spared _ _

theorem get?_publishers_cancelPublisher (w : World) (id id' : String) :
    (w.cancelPublisher id).publishers.get? id' =
      if id = id' then (w.publishers.get? id').map fun p => { p with cancelled := true }
      else w.publishers.get? id' :=
  get?_publishers_modify w id id' fun p => { p with cancelled := true }

theorem get?_contenders_cancelPublisher (w : World) (id id' : String) :
    (w.cancelPublisher id).contenders.get? id' =
      if id = id' then (w.contenders.get? id').map (·.cancel true) else w.contenders.get? id' :=
  get?_contenders_modify w id id' _

/-- A publisher is cancelled, perhaps another one. -/
theorem hasFate_of_cancels (hp : w.publishers.get? id = some p) {id' : String}
    (hm : w.move m = w.cancelPublisher id') : w.HasFate m id p := by
  have shown (t : Series) : (w.move m).metrics.value t = w.metrics.value t := by
    rw [hm]
    rfl
  by_cases hid : id' = id
  · refine ⟨{ p with cancelled := true }, ?_, .aside true p.stopAt? (fun _ => rfl) ?_
      fun _ t _ => shown t⟩
    · rw [hm, get?_publishers_cancelPublisher, if_pos hid, hp]
      rfl
    · rw [hm, get?_contenders_cancelPublisher, if_pos hid]
      cases w.contenders.get? id with
      | none => exact .none
      | some c => exact .some (.cancel c true)
  · refine hasFate_of_same ?_ ?_ fun _ t _ => shown t
    · rw [hm, get?_publishers_cancelPublisher, if_neg hid, hp]
    · rw [hm, get?_contenders_cancelPublisher, if_neg hid]

/-- What the start of a publisher makes of it, of the others, and of the metrics. -/
theorem runPublisher_of_new {q : Publisher} (hq : v.publishers.get? id = some q)
    (new : q.started = false) :
    (v.runPublisher id).1.publishers.get? id = some { q with
      started := true
      loops := q.schedules.map fun s => { schedule := s }
      closing := .armed } ∧ (v.runPublisher id).1.metrics = announce q v.metrics := by
  simp only [runPublisher, hq, new, Bool.false_eq_true, if_false]
  refine ⟨?_, ?_⟩
  · rw [get?_publishers_modify, if_pos rfl]
    split <;> exact (congrArg (Option.map _) hq).trans rfl
  · cases q.gated <;> rfl

theorem get?_runPublisher_of_ne {id' : String} (h : id' ≠ id) :
    (v.runPublisher id').1.publishers.get? id = v.publishers.get? id ∧
      (v.runPublisher id').1.contenders.get? id = v.contenders.get? id := by
  simp only [runPublisher]
  split
  · exact ⟨rfl, rfl⟩
  · split
    · exact ⟨rfl, rfl⟩
    · rw [get?_publishers_modify, if_neg h]
      split
      · exact ⟨rfl, (get?_contenders_modify ..).trans (if_neg h)⟩
      · exact ⟨rfl, rfl⟩

theorem hasFate_startPublisher (hp : w.publishers.get? id = some p) (cancelled : Bool) :
    w.HasFate (.startPublisher id cancelled) id p := by
  -- the publisher when it is started: it may have been cancelled just before
  obtain ⟨q, hq, b, rfl⟩ : ∃ q,
      (if cancelled then w.cancelPublisher id else w).publishers.get? id = some q ∧
        ∃ b, q = { p with cancelled := b } := by
    cases cancelled with
    | false => exact ⟨p, hp, p.cancelled, rfl⟩
    | true => exact ⟨_, by simp [get?_publishers_cancelPublisher, hp], true, rfl⟩
  by_cases hs : p.started = true
  · have hm : w.move (.startPublisher id cancelled) =
        if cancelled then w.cancelPublisher id else w := by
      simp only [move, startPublisher, runPublisher, hq, hs, if_true]
    cases cancelled with
    | false => exact hasFate_of_same (hm ▸ hp) (hm ▸ rfl) fun _ t _ => by rw [hm]; rfl
    | true => exact hasFate_of_cancels hp hm
  · obtain ⟨publisher, metrics⟩ := runPublisher_of_new hq (Bool.eq_false_iff.2 hs)
    refine ⟨_, publisher, .starts _ (Bool.eq_false_iff.2 hs)
      ((Beside.startPublisher w id cancelled).contenders id) ?_⟩
    show ((if cancelled then w.cancelPublisher id else w).runPublisher id).1.metrics = _
    rw [metrics]
    cases cancelled <;> rfl

theorem hasFate_turn (hp : w.publishers.get? id = some p) {c : Contender}
    (hc : w.contenders.get? id = some c) (i draw : Nat) : w.HasFate (.poll (.run id i) draw) id p := by
  obtain ⟨o, turn, effect, shown⟩ := pollRun_shown hc i draw
  refine ⟨_, ?_, .turn hc turn ((effect.contenders id).trans (if_pos rfl)) shown⟩
  refine (effect.publishers id).trans ?_
  rw [hp]
  by_cases hg : c.candidacy.audience = .gate <;> simp [hg]

theorem hasFate_beat (hp : w.publishers.get? id = some p) {j : Nat} {l : Publisher.Loop}
    (hl : p.loops[j]? = some l) (draw : Nat) : w.HasFate (.poll (.loop id j) draw) id p := by
  obtain ⟨o, beat, effect⟩ := pollLoop_effect hp j
  exact ⟨_, (effect.publishers id).trans (if_pos rfl), .beat hl beat
    (congrArg (·.get? id) effect.contenders) fun t gauge => value_pollLoop hp hl gauge⟩

theorem hasFate_closing (hp : w.publishers.get? id = some p) (draw : Nat) :
    w.HasFate (.poll (.closing id) draw) id p := by
  by_cases h : p.closing = .armed ∧ p.cancelled = true
  · have hm : w.move (.poll (.closing id) draw) =
        (w.modifyPublisher id fun p => { p with paused := true, closing := .done }).modifyMetrics
          (·.setFlag (.paused p.replicator) true) := by
      simp only [move, poll, pollClosing, hp, if_pos h]
    refine ⟨_, ?_, .closes h.1 h.2 (by rw [hm]; rfl) (by rw [hm]; rfl)⟩
    rw [hm]
    exact (get?_publishers_modify ..).trans (by rw [if_pos rfl, hp]; rfl)
  · have hm : w.move (.poll (.closing id) draw) = w := by
      simp only [move, poll, pollClosing, hp, if_neg h]
    exact hasFate_of_same (hm.symm ▸ hp) (hm.symm ▸ rfl) fun _ t _ => by rw [hm]

/-- Whatever is opened, the name is not in use. -/
theorem get?_openContender_of_taken (taken : w.isTaken id = true) (id' : String) (options : Options) :
    (w.move (.openContender id' options)).publishers.get? id = w.publishers.get? id ∧
      (w.move (.openContender id' options)).contenders.get? id = w.contenders.get? id := by
  simp only [move]
  split
  · exact ⟨rfl, rfl⟩
  · rename_i free
    have hne : id' ≠ id := by
      rintro rfl
      exact free taken
    cases hv : w.openContender id' options with
    | error e => exact ⟨rfl, rfl⟩
    | ok v =>
      obtain ⟨y, -, hv⟩ := exists_of_bind_ok hv
      obtain rfl := Except.ok.inj hv
      exact ⟨rfl, (get?_contenders_enrol ..).trans (if_neg hne)⟩

theorem get?_openPublisher_of_taken (taken : w.isTaken id = true) (id' : String) (config : Config)
    (replicator outbox : String) (bucket? : Option String) (relaxations : Relaxations) :
    (w.move (.openPublisher id' config replicator outbox bucket? relaxations)).publishers.get? id =
        w.publishers.get? id ∧
      (w.move (.openPublisher id' config replicator outbox bucket? relaxations)).contenders.get? id =
        w.contenders.get? id := by
  simp only [move]
  split
  · exact ⟨rfl, rfl⟩
  · rename_i free
    have hne : id' ≠ id := by
      rintro rfl
      exact free taken
    cases hv : w.openPublisher id' config replicator outbox bucket? relaxations with
    | error e => exact ⟨rfl, rfl⟩
    | ok v =>
      obtain ⟨⟨p, y?⟩, -, hv⟩ := exists_of_bind_ok hv
      obtain rfl := Except.ok.inj hv
      have hpub : (w.publishers.insert id' p).get? id = w.publishers.get? id :=
        (Table.get?_insert ..).trans (if_neg hne)
      cases y? with
      | none => exact ⟨hpub, rfl⟩
      | some y => exact ⟨hpub, (get?_contenders_enrol ..).trans (if_neg hne)⟩

/-- Every publisher has a fate in every move. -/
theorem hasFate (hp : w.publishers.get? id = some p) (hw : w.Scheduled) (m : Move) :
    w.HasFate m id p := by
  have others {m : Move} (h : m.mover? ≠ some id)
      (publisher : (w.move m).publishers.get? id = w.publishers.get? id)
      (contender : (w.move m).contenders.get? id = w.contenders.get? id) : w.HasFate m id p :=
    hasFate_of_same (publisher.trans hp) contender fun apart t ht => apart.value_move hw h ht
  -- a move after which the gauges are as before, whoever it is
  have quiet {m : Move} (h : m.mover? = none)
      (publisher : (w.move m).publishers.get? id = w.publishers.get? id)
      (contender : (w.move m).contenders.get? id = w.contenders.get? id) : w.HasFate m id p :=
    others (by simp [h]) publisher contender
  -- a move that changes nothing at all
  have still {m : Move} (hm : w.move m = w) : w.HasFate m id p :=
    hasFate_of_same (hm.symm ▸ hp) (hm.symm ▸ rfl) fun _ t _ => by rw [hm]
  have taken : w.isTaken id = true := by simp [isTaken, Table.contains, hp]
  cases m with
  | openContender id' options =>
    obtain ⟨publisher, contender⟩ := get?_openContender_of_taken taken id' options
    exact quiet rfl publisher contender
  | openPublisher id' config replicator outbox bucket? relaxations =>
    obtain ⟨publisher, contender⟩ :=
      get?_openPublisher_of_taken taken id' config replicator outbox bucket? relaxations
    exact quiet rfl publisher contender
  | callRun id' cancelled => exact hasFate_of_spared hp rfl (.call · cancelled)
  | cancelRun id' i => exact hasFate_of_spared hp rfl (.cancelRun · i)
  | cancelContender id' => exact hasFate_of_spared hp rfl (.cancel · false)
  | startPublisher id' cancelled =>
    by_cases hid : id' = id
    · exact hid ▸ hasFate_startPublisher (hid ▸ hp) cancelled
    · have hne := get?_runPublisher_of_ne (v := if cancelled then w.cancelPublisher id' else w) hid
      refine others (by simpa [Move.mover?] using hid) (hne.1.trans ?_) (hne.2.trans ?_)
      · cases cancelled <;> simp [get?_publishers_cancelPublisher, hid]
      · cases cancelled <;> simp [get?_contenders_cancelPublisher, hid]
  | cancelPublisher id' => exact hasFate_of_cancels hp rfl
  | stopPublisherAt id' due =>
    by_cases hid : id' = id
    · refine ⟨_, (get?_publishers_modify ..).trans ?_, .aside p.cancelled (p.stopAt due).stopAt?
        (fun h => h) (rel_refl .refl _) fun _ _ _ => rfl⟩
      rw [if_pos hid, hp]
      rfl
    · exact quiet rfl ((get?_publishers_modify ..).trans (if_neg hid)) rfl
  | look id' => exact hasFate_of_spared hp rfl .look
  | poll task draw =>
    cases task with
    | run id' i =>
      by_cases hid : id' = id
      · subst id'
        cases hc : w.contenders.get? id with
        | none => exact still (by simp only [move, poll, pollRun, hc])
        | some c => exact hasFate_turn hp hc i draw
      · have hm : (Move.poll (.run id' i) draw).mover? ≠ some id := by simpa [Move.mover?] using hid
        cases hc : w.contenders.get? id' with
        | none => exact still (by simp only [move, poll, pollRun, hc])
        | some c =>
          obtain ⟨o, -, effect⟩ := pollRun_effect hc i draw
          exact others hm ((effect.publishers id).trans (if_neg fun h => hid h.1))
            ((effect.contenders id).trans (if_neg hid))
    | loop id' j =>
      cases hp' : w.publishers.get? id' with
      | none => exact still (by simp only [move, poll, pollLoop, hp'])
      | some p' =>
        by_cases hid : id' = id
        · subst id'
          cases hl : p.loops[j]? with
          | none => exact still (by simp only [move, poll, pollLoop, hp, hl])
          | some l => exact hasFate_beat hp hl draw
        · obtain ⟨o, -, effect⟩ := pollLoop_effect hp' j
          exact others (by simpa [Move.mover?] using hid)
            ((effect.publishers id).trans (if_neg hid)) (congrArg (·.get? id) effect.contenders)
    | closing id' =>
      by_cases hid : id' = id
      · exact hid ▸ hasFate_closing (hid ▸ hp) draw
      · refine others (by simpa [Move.mover?] using hid) ?_ ?_ <;>
          simp only [move, poll, pollClosing] <;> split
        · rfl
        · split
          · exact (get?_publishers_modify ..).trans (if_neg hid)
          · rfl
        · rfl
        · split <;> rfl
    | stopping id' =>
      by_cases hs : ((w.publishers.get? id').map (·.mustStop w.now)).getD false = true
      · exact hasFate_of_cancels hp (if_pos hs)
      · exact still (if_neg hs)
  | _ => exact quiet rfl rfl rfl

/-- The publisher of the replicator was started. -/
def Started (w : World) (id replicator : String) : Prop :=
  ∃ p, w.publishers.get? id = some p ∧ p.started = true ∧ p.replicator = replicator

theorem started_runPublisher (hp : v.publishers.get? id = some p) :
    (v.runPublisher id).1.Started id p.replicator := by
  by_cases started : p.started = true
  · have still : (v.runPublisher id).1 = v := by
      simp only [runPublisher, hp, started, if_true]
    rw [still]
    exact ⟨p, hp, started, rfl⟩
  · exact ⟨_, (runPublisher_of_new hp (Bool.eq_false_iff.2 started)).1, rfl, rfl⟩

theorem started_startPublisher (hp : w.publishers.get? id = some p) (cancelled : Bool) :
    (w.move (.startPublisher id cancelled)).Started id p.replicator := by
  cases cancelled with
  | false => exact started_runPublisher hp
  | true =>
    have hp' : (w.cancelPublisher id).publishers.get? id = some { p with cancelled := true } := by
      rw [get?_publishers_cancelPublisher, if_pos rfl, hp, Option.map_some]
    have starts := started_runPublisher hp'
    exact starts

/-- A publisher that was started stays so. -/
theorem Started.move {replicator : String} (h : w.Started id replicator) (scheduled : w.Scheduled)
    (m : Move) : (w.move m).Started id replicator := by
  obtain ⟨p, hp, started, rfl⟩ := h
  obtain ⟨p', hp', fares⟩ := hasFate hp scheduled m
  cases fares with
  | @turn c i draw o was turn contender shown =>
    split at hp'
    · obtain ⟨paused, heard⟩ := p.hearAll_eq o.notes
      rw [heard] at hp'
      exact ⟨_, hp', started, rfl⟩
    · exact ⟨p, hp', started, rfl⟩
  | beat loop beat contender shown =>
    obtain ⟨loops, after⟩ := beat.exists_loops
    rw [after] at hp'
    exact ⟨_, hp', started, rfl⟩
  | closes | aside => exact ⟨_, hp', started, rfl⟩
  | starts => exact ⟨_, hp', rfl, rfl⟩

end

end World

/-! ## Stages -/

/-- A contender without a call of `run` makes no notes. -/
theorem Election.Turn.rests {now delay draw : Nat} {c : Contender} {s : Lease.Store} {i : Nat}
    {o : Outcome} (t : Turn now delay draw c s i o) (none : c.runs = []) : o.notes = [] :=
  (t.quiet_of_cancelled fun hr => by simp [none] at hr).2

/-- If no call of `run` is tied, none is after a turn. -/
theorem Election.Turn.untied {now delay draw : Nat} {c : Contender} {s : Lease.Store} {i : Nat}
    {o : Outcome} (t : Turn now delay draw c s i o) (none : ∀ r ∈ c.runs, r.tied = false) :
    ∀ r ∈ o.contender.runs, r.tied = false := by
  intro r hr
  obtain ⟨j, hj⟩ := List.getElem?_of_mem hr
  obtain ⟨r₀, hr₀, -, same⟩ := t.exists_run hj
  exact same.symm.trans (none r₀ (List.mem_of_getElem? hr₀))

/-- A contender all of whose calls of `run` are tied and none is has none. -/
theorem Election.Contender.AllTied.eq_nil {c : Contender} (h : c.AllTied)
    (none : ∀ r ∈ c.runs, r.tied = false) : c.runs = [] := by
  refine List.eq_nil_iff_forall_not_mem.2 fun r hr => ?_
  cases (h r hr).symm.trans (none r hr)

namespace Publisher

theorem getElem?_setPhase (p : Publisher) (j k : Nat) (phase : Phase) :
    (p.setPhase j phase).loops[k]? =
      if j = k then p.loops[k]?.map fun l => { l with phase := phase } else p.loops[k]? := by
  simp only [setPhase, List.getElem?_modify]
  split <;> simp

variable {now : Nat} {wall : Int} {p : Publisher} {box : Outbox} {j k : Nat} {o : Outcome} {l : Loop}

/-- A loop ends only if the publisher is cancelled. -/
theorem Beat.over_of_running (b : p.Beat now wall box j o) (running : p.cancelled = false)
    (loop : o.publisher.loops[k]? = some l) (ended : l.phase = .over) :
    p.loops[k]? = some l := by
  have kept {phase : Phase} (h : (p.setPhase j phase).loops[k]? = some l)
      (hne : phase ≠ .over) : p.loops[k]? = some l := by
    rw [getElem?_setPhase] at h
    split at h
    · obtain ⟨l₀, -, rfl⟩ := Option.map_eq_some_iff.1 h
      exact absurd ended hne
    · exact h
  cases b with
  | still => exact loop
  | ends _ cancelled => cases running.symm.trans cancelled
  | begins | passes | launches | sends | completes => exact kept loop nofun

/-- A cancelled publisher does nothing but end its loops. -/
theorem Beat.of_cancelled (b : p.Beat now wall box j o) (cancelled : p.cancelled = true) :
    (o.publisher = p ∨ o.publisher = p.setPhase j .over) ∧ o.happenings = [] := by
  cases b with
  | still => exact ⟨.inl rfl, rfl⟩
  | ends => exact ⟨.inr rfl, rfl⟩
  | begins _ running | passes _ running | launches _ running | sends _ running
  | completes _ running => cases cancelled.symm.trans running

end Publisher

namespace World

variable {w : World} {m : Move} {id : String} {p : Publisher}

/-- The parts of a publisher fit together. -/
structure Fits (w : World) (id : String) (p : Publisher) : Prop where
  alone : p.gated = false → w.contenders.get? id = none
  new : p.started = false → p.loops = [] ∧ p.closing = .absent ∧
    ∀ c, w.contenders.get? id = some c → ∀ r ∈ c.runs, r.tied = false
  begun : p.started = true → p.closing ≠ .absent ∧ p.loops.map (·.schedule) = p.schedules
  closed : p.closing = .done → p.cancelled = true
  ended : ∀ {j : Nat} {l : Publisher.Loop}, p.loops[j]? = some l → l.phase = .over →
    p.cancelled = true
  suspended : w.RunByPublisher id →
    (p.started = false → p.paused = p.gated) ∧ (p.closing = .done → p.paused = true)

namespace Fits

/-- Only a gated publisher has a contender. -/
theorem gated (h : w.Fits id p) {c : Contender} (hc : w.contenders.get? id = some c) :
    p.gated = true := by
  cases hg : p.gated with
  | true => rfl
  | false => cases (h.alone hg).symm.trans hc

/-- The contender guards the publisher. -/
theorem guards (h : w.Fits id p) (hp : w.publishers.get? id = some p) (guarded : w.Guarded)
    {c : Contender} (hc : w.contenders.get? id = some c) : Guards c p := by
  obtain ⟨c₀, hc₀, guards⟩ := guarded id p hp (h.gated hc)
  obtain rfl := Option.some.inj (hc.symm.trans hc₀)
  exact guards

theorem turn (h : w.Fits id p) (hp : w.publishers.get? id = some p) (guarded : w.Guarded)
    {c : Contender} (hc : w.contenders.get? id = some c) {now delay draw i : Nat} {s : Lease.Store}
    {o : Election.Outcome} (t : Turn now delay draw c s i o)
    (contender : (w.move m).contenders.get? id = some o.contender) :
    (w.move m).Fits id (p.hearAll o.notes) := by
  have guards := h.guards hp guarded hc
  -- the gate hears nothing of a contender that has not started or was cancelled
  have deaf (hnotes : o.notes = []) : p.hearAll o.notes = p := by rw [hnotes, Publisher.hearAll_nil]
  obtain ⟨paused, heard⟩ := p.hearAll_eq o.notes
  constructor
  case alone =>
    intro hg
    rw [heard] at hg
    cases (h.gated hc).symm.trans hg
  case new =>
    intro hnew
    rw [heard] at hnew ⊢
    obtain ⟨hloops, hclosing, huntied⟩ := h.new hnew
    refine ⟨hloops, hclosing, fun c' hc' => ?_⟩
    obtain rfl := Option.some.inj (contender.symm.trans hc')
    exact t.untied (huntied c hc)
  case begun =>
    rw [heard]
    exact h.begun
  case closed =>
    rw [heard]
    exact h.closed
  case ended =>
    rw [heard]
    exact h.ended
  case suspended =>
    intro hby
    have tied := hby.of_move c hc
    obtain ⟨hnew, hdone⟩ := h.suspended hby.of_move
    refine ⟨fun hstarted => ?_, fun hclosing => ?_⟩
    · replace hstarted : p.started = false := by rwa [heard] at hstarted
      rw [deaf (t.rests (tied.eq_nil ((h.new hstarted).2.2 c hc)))]
      exact hnew hstarted
    · replace hclosing : p.closing = .done := by rwa [heard] at hclosing
      have cancelled {j : Nat} {r : Run} (hr : c.runs[j]? = some r) : r.cancelled = true :=
        (guards.cancelled_of_allTied tied hr).trans (h.closed hclosing)
      rw [deaf (t.quiet_of_cancelled cancelled).2]
      exact hdone hclosing

theorem beat (h : w.Fits id p) {j : Nat} {l : Publisher.Loop} (loop : p.loops[j]? = some l)
    {now : Nat} {wall : Int} {box : Outbox} {o : Publisher.Outcome} (b : p.Beat now wall box j o)
    (contender : (w.move m).contenders.get? id = w.contenders.get? id) :
    (w.move m).Fits id o.publisher := by
  have schedules := b.schedules
  have over_of_running {k : Nat} {l' : Publisher.Loop} := b.over_of_running (k := k) (l := l')
  obtain ⟨loops, after⟩ := b.exists_loops
  rw [after] at schedules over_of_running ⊢
  constructor
  case alone =>
    rw [contender]
    exact h.alone
  case new =>
    intro hnew
    rw [(h.new hnew).1] at loop
    cases loop
  case begun => exact fun hstarted => ⟨(h.begun hstarted).1, schedules.trans (h.begun hstarted).2⟩
  case closed => exact h.closed
  case ended =>
    intro k l' hl' hover
    show p.cancelled = true
    cases hcan : p.cancelled with
    | true => rfl
    | false => exact hcan.symm.trans (h.ended (over_of_running hcan hl' hover) hover)
  case suspended => exact fun hby => h.suspended hby.of_move

theorem closes (h : w.Fits id p) (armed : p.closing = .armed) (cancelled : p.cancelled = true)
    (contender : (w.move m).contenders.get? id = w.contenders.get? id) :
    (w.move m).Fits id { p with paused := true, closing := .done } := by
  constructor
  case alone =>
    rw [contender]
    exact h.alone
  case new =>
    intro hnew
    cases armed.symm.trans (h.new hnew).2.1
  case begun => exact fun hstarted => ⟨nofun, (h.begun hstarted).2⟩
  case closed => exact fun _ => cancelled
  case ended => exact h.ended
  case suspended =>
    refine fun _ => ⟨fun hnew => ?_, fun _ => rfl⟩
    cases armed.symm.trans (h.new hnew).2.1

theorem starts (h : w.Fits id p) (cancelled : Bool)
    (contender : Option.Rel Aside (w.contenders.get? id) ((w.move m).contenders.get? id)) :
    (w.move m).Fits id { p with
      cancelled := cancelled
      started := true
      loops := p.schedules.map fun s => { schedule := s }
      closing := .armed } := by
  constructor
  case alone =>
    intro hg
    rw [h.alone hg] at contender
    exact eq_none_of_rel contender
  case new => nofun
  case begun => exact fun _ => ⟨nofun, by simp [Function.comp_def]⟩
  case closed => nofun
  case ended =>
    intro j l hl hover
    rw [List.getElem?_map] at hl
    obtain ⟨s, -, rfl⟩ := Option.map_eq_some_iff.1 hl
    cases hover
  case suspended => exact fun _ => ⟨nofun, nofun⟩

theorem aside (h : w.Fits id p) {cancelled : Bool} {stopAt? : Option Nat}
    (cancels : p.cancelled = true → cancelled = true)
    (contender : Option.Rel Spared (w.contenders.get? id) ((w.move m).contenders.get? id)) :
    (w.move m).Fits id { p with cancelled := cancelled, stopAt? := stopAt? } := by
  constructor
  case alone =>
    intro hg
    rw [h.alone hg] at contender
    exact eq_none_of_rel contender
  case new =>
    intro hnew
    obtain ⟨hloops, hclosing, huntied⟩ := h.new hnew
    refine ⟨hloops, hclosing, fun c' hc' => ?_⟩
    rw [hc'] at contender
    obtain ⟨c, hc, spared⟩ := exists_of_rel contender
    exact spared.untied (huntied c hc)
  case begun => exact h.begun
  case closed => exact fun hdone => cancels (h.closed hdone)
  case ended => exact fun hl hover => cancels (h.ended hl hover)
  case suspended => exact fun hby => h.suspended hby.of_move

end Fits

/-- A publisher that has just been opened has not begun, and neither has its contender. -/
theorem fits_of_opened (opens : Opens w m id p) (free : w.isTaken id = false) :
    (w.move m).Fits id p ∧ p.started = false ∧
      ∀ c, (w.move m).contenders.get? id = some c → ∃ y, Enrols w m id y ∧ c = { candidacy := y } := by
  have enrolled (c : Contender) (hc : (w.move m).contenders.get? id = some c) :
      ∃ y, Enrols w m id y ∧ c = { candidacy := y } := by
    cases became hc with
    | opened enrols _ new _ => exact ⟨_, enrols, new⟩
    | aside was | turn _ was => cases was.symm.trans (eq_none_of_free free).1
  cases opens with
  | mk accepted =>
    obtain ⟨schedules, -, rfl, hungated, -⟩ := Publisher.ofConfig_ok accepted
    refine ⟨⟨fun hg => ?_, fun _ => ⟨rfl, rfl, fun c hc => ?_⟩, nofun, nofun, nofun,
      fun _ => ⟨fun _ => rfl, nofun⟩⟩, rfl, enrolled⟩
    · cases hc : (w.move _).contenders.get? id with
      | none => rfl
      | some c =>
        obtain ⟨y, enrols, -⟩ := enrolled c hc
        cases enrols with
        | publisher accepted' =>
          cases accepted.symm.trans accepted'
          cases hungated hg
    · obtain ⟨y, -, rfl⟩ := enrolled c hc
      exact nofun

theorem fits_move (hw : w.Scheduled) (guarded : w.Guarded)
    (h : ∀ {id p}, w.publishers.get? id = some p → w.Fits id p) {p' : Publisher}
    (hp' : (w.move m).publishers.get? id = some p') : (w.move m).Fits id p' := by
  cases hp : w.publishers.get? id with
  | none =>
    cases publisherBecame hp' with
    | opened opens free => exact (fits_of_opened opens free).1
    | aside was | beat _ was => cases hp.symm.trans was
  | some p =>
    obtain ⟨p₁, hp₁, fares⟩ := hasFate hp hw m
    obtain rfl := Option.some.inj (hp'.symm.trans hp₁)
    have h := h hp
    cases fares with
    | turn was turn contender _ =>
      rw [if_pos (h.guards hp guarded was).audience]
      exact h.turn hp guarded was turn contender
    | beat loop beat contender _ => exact h.beat loop beat contender
    | closes armed cancelled contender _ => exact h.closes armed cancelled contender
    | starts cancelled _ contender _ => exact h.starts cancelled contender
    | aside cancelled stopAt? cancels contender _ => exact h.aside cancels contender

end World

end Tenure
