import Tenure.Proofs.Heartbeat.Commission
import Tenure.Proofs.Heartbeat.Fates

/-!
# Flags and gauges

The flag and the gauges of a publisher and its contender are written by different hands: the gate, the
end of a campaign, the start and the end of the publisher, its loops. Yet they agree, as long as nobody
else calls `run` of the contender and no other publisher or contender has a gauge in one of the slots.

- **Leaders** (`Blank`, `Shown.value_gauge`): the gauge of a contender shows its standing, and before its
  first campaign nothing.
- **Publishers** (`Faithful`): from its start on the gauge of a publisher shows whether it is suspended.
  Until it is cancelled, the subjects of a gated one are shown as active iff its contender is leader.
  Every fate of the publisher keeps this (`Faithful.turn` and so on), and so does every move
  (`faithful_follow`).
- **Agreement** (`flags_agree`): all of these say the same of a gated publisher. Where slots are shared
  they need not (`flags_disagree`).
-/

namespace Tenure

open Election Metrics

/-! ## Leaders -/

namespace Election

/-- A contender without a call of `run` is a candidate. -/
theorem Orderly.candidate_of_none {c : Contender} (h : Orderly c) (none : c.runs = []) :
    c.standing = .candidate := by
  cases h with
  | resting _ standing _ => exact standing
  | working work _ _ =>
    have := work.run
    simp [none] at this

namespace Shown

variable {gate? : Option Publisher} {c : Contender} {i : Nat} {o : Outcome} {r r' : Registry}

/-- The gauge of a contender follows its standing through a turn. -/
theorem value_gauge (h : Shown gate? c i o r r')
    (hr : r.value c.candidacy.gauge = flag c.standing.isLeader) :
    r'.value c.candidacy.gauge = flag o.contender.standing.isLeader := by
  cases h with
  | still standing => rw [standing, hr]
  | left _ _ standing => rw [standing]; exact Registry.value_setFlag_self ..
  | concluded => exact c.candidacy.value_display_gauge ..

/-- A turn of a cancelled call of `run` shows nothing in other slots than that of the contender. -/
theorem value_of_cancelled (h : Shown gate? c i o r r')
    (cancelled : ∀ {j : Nat} {r : Run}, c.runs[j]? = some r → r.cancelled = true) {t : Series}
    (ht : c.candidacy.gauge.slot ≠ t.slot) : r'.value t = r.value t := by
  cases h with
  | still => rfl
  | left => exact Registry.value_setFlag_of_ne _ _ ht
  | concluded run running => cases (cancelled run).symm.trans running

/-- A turn shows a finished campaign or nothing, unless a call of `run` was cancelled. -/
theorem of_running (h : Shown gate? c i o r r')
    (running : ∀ {j : Nat} {r : Run}, c.runs[j]? = some r → r.cancelled = false) :
    (o.contender.standing = c.standing ∧ r' = r) ∨
      r' = c.candidacy.display gate? c.standing o.contender.standing r := by
  cases h with
  | still standing => exact .inl ⟨standing, rfl⟩
  | left run cancelled => cases (running run).symm.trans cancelled
  | concluded => exact .inr rfl

end Shown

end Election

namespace World

variable {w : World} {m : Move} {id : String} {p : Publisher}

/-- Slots in which no contender has its gauge show no leader. -/
def Blank (w : World) : Prop :=
  ∀ t : Series, t.family = .leader →
    (∀ id c, w.contenders.get? id = some c → c.candidacy.gauge.slot ≠ t.slot) →
    w.metrics.value t = 0

theorem blank_move (h : w.Blank) (hw : w.Scheduled) (m : Move) : (w.move m).Blank := by
  intro t ht none
  have none (id : String) (c : Contender) (hc : w.contenders.get? id = some c) :
      c.candidacy.gauge.slot ≠ t.slot := by
    obtain ⟨c', hc'⟩ := exists_contender_move hc m
    rw [← candidacy_move hc hc']
    exact none id c' hc'
  rw [value_move hw (by rw [ht]; rfl) fun id _ s hs => ?_, h t ht none]
  rcases mem_gauges_iff.1 hs with ⟨p, -, hs⟩ | ⟨c, hc, rfl⟩
  · refine Series.slot_ne_of_family_ne fun hf => ?_
    rw [ht] at hf
    rcases List.mem_cons.1 hs with rfl | hs
    · cases hf
    · obtain ⟨_, -, rfl⟩ := List.mem_map.1 hs
      cases hf
  · exact none id c hc

/-- The gauge of a contender shows nothing when it is opened. -/
theorem Blank.value_of_opened (h : w.Blank) (hw : w.Scheduled) (apart : (w.move m).Apart id)
    {y : Candidacy} (enrols : Enrols w m id y) (free : w.isTaken id = false) {c : Contender}
    (hc : (w.move m).contenders.get? id = some c) :
    (w.move m).metrics.value c.candidacy.gauge = 0 := by
  have quiet : m.mover? = none := by cases enrols <;> rfl
  rw [value_move hw rfl fun id hid => by cases quiet.symm.trans hid]
  refine h _ rfl fun id' c' hc' => ?_
  have hne : id' ≠ id := by
    rintro rfl
    cases hc'.symm.trans (eq_none_of_free free).1
  obtain ⟨c₁, hc₁⟩ := exists_contender_move hc' m
  rw [← candidacy_move hc' hc₁]
  exact (apart id' hne _ (mem_gauges_of_contender hc) _ (mem_gauges_of_contender hc₁)).symm

/-! ## Publishers -/

/-- What is shown of a publisher and its contender is what they are. -/
structure Faithful (w : World) (id : String) (p : Publisher) : Prop where
  leader : ∀ c, w.contenders.get? id = some c →
    w.metrics.value c.candidacy.gauge = flag c.standing.isLeader
  paused : p.started = true → w.metrics.value (.paused p.replicator) = flag p.paused
  subjects : p.started = true → p.cancelled = false → ∀ c, w.contenders.get? id = some c →
    ∀ s ∈ p.subjects,
      w.metrics.value (.subjectActive p.replicator s) = flag c.standing.isLeader

namespace Faithful

theorem turn (h : w.Faithful id p) (hp : w.publishers.get? id = some p) {c : Contender}
    (hc : w.contenders.get? id = some c) (guards : Guards c p)
    (alone : (w.move m).RunByPublisher id) {now delay draw i : Nat}
    {s : Lease.Store} {o : Election.Outcome} (t : Turn now delay draw c s i o)
    (contender : (w.move m).contenders.get? id = some o.contender)
    (shown : Shown (w.gate? id c.candidacy) c i o w.metrics (w.move m).metrics) :
    (w.move m).Faithful id (p.hearAll o.notes) := by
  have tied : c.AllTied := alone.of_move c hc
  have hgate : w.gate? id c.candidacy = some p := (if_pos guards.audience).trans hp
  obtain ⟨paused, heard⟩ := p.hearAll_eq o.notes
  -- what the gate has heard, and what is shown of it
  have flags (hstarted : p.started = true) :
      (w.move m).metrics.value (.paused p.replicator) = flag (p.hearAll o.notes).paused ∧
      (p.cancelled = false → ∀ s ∈ p.subjects, (w.move m).metrics.value
        (.subjectActive p.replicator s) = flag o.contender.standing.isLeader) := by
    have hpaused := h.paused hstarted
    cases hcan : p.cancelled with
    | true =>
      have cancelled {j : Nat} {r : Run} (hr : c.runs[j]? = some r) : r.cancelled = true :=
        (guards.cancelled_of_allTied tied hr).trans hcan
      refine ⟨?_, nofun⟩
      rw [(t.quiet_of_cancelled cancelled).2, Publisher.hearAll_nil,
        shown.value_of_cancelled cancelled (c.candidacy.gauge_slot_ne p.paused_mem_gauges), hpaused]
    | false =>
      have running {j : Nat} {r : Run} (hr : c.runs[j]? = some r) : r.cancelled = false :=
        (guards.cancelled_of_allTied tied hr).trans hcan
      have hafter := (guards.turn t).paused (alone _ contender) (by rw [heard]; exact hcan)
      rw [hafter]
      rcases shown.of_running running with ⟨same, hm⟩ | hm
      · rw [hm, same, ← guards.paused tied hcan]
        exact ⟨hpaused, fun _ => h.subjects hstarted hcan c hc⟩
      · rw [hm, hgate, Candidacy.value_display_paused]
        refine ⟨?_, fun _ s hs => Candidacy.value_display_subject _ _ _ _ hs⟩
        split
        · rename_i same
          rw [hpaused, guards.paused tied hcan, same]
        · rfl
  constructor
  case leader =>
    intro c' hc'
    obtain rfl := Option.some.inj (contender.symm.trans hc')
    rw [t.candidacy]
    exact shown.value_gauge (h.leader c hc)
  case paused =>
    intro hstarted
    rw [heard] at hstarted
    have hflag := (flags hstarted).1
    rw [heard] at hflag ⊢
    exact hflag
  case subjects =>
    intro hstarted hcan c' hc'
    obtain rfl := Option.some.inj (contender.symm.trans hc')
    rw [heard] at hstarted hcan ⊢
    exact (flags hstarted).2 hcan

theorem beat (h : w.Faithful id p) (fits : w.Fits id p) {l : Publisher.Loop}
    {now : Nat} {wall : Int} {box : Outbox} {j : Nat} {o : Publisher.Outcome}
    (b : p.Beat now wall box j o)
    (contender : (w.move m).contenders.get? id = w.contenders.get? id)
    (shown : ∀ t, t.family.isCounter = false →
      (w.move m).metrics.value t = (p.light l w.metrics).value t) :
    (w.move m).Faithful id o.publisher := by
  obtain ⟨loops, after⟩ := b.exists_loops
  rw [after]
  have hother (s : Series) (gauge : s.family.isCounter = false)
      (hs : (Series.subjectActive p.replicator l.schedule.subject).slot ≠ s.slot) :
      (w.move m).metrics.value s = w.metrics.value s := by
    rw [shown s gauge, Publisher.value_light_of_ne _ _ _ hs]
  constructor
  case leader =>
    intro c hc
    rw [contender] at hc
    rw [hother _ rfl (Series.slot_ne_of_family_ne fun hf => by cases hf)]
    exact h.leader c hc
  case paused =>
    intro hstarted
    rw [hother _ rfl (Series.paused_slot_ne_subjectActive _ _ _).symm]
    exact h.paused hstarted
  case subjects =>
    -- a gated publisher that is not cancelled leaves its subjects to the gate
    intro hstarted hcan c hc s hs
    rw [contender] at hc
    have dark : p.light l w.metrics = w.metrics := by
      have hcan : p.cancelled = false := hcan
      unfold Publisher.light
      cases l.phase <;> simp [fits.gated hc, hcan]
    rw [shown _ rfl, dark]
    exact h.subjects hstarted hcan c hc s hs

theorem closes (h : w.Faithful id p) (cancelled : p.cancelled = true)
    (contender : (w.move m).contenders.get? id = w.contenders.get? id)
    (shown : (w.move m).metrics = w.metrics.setFlag (.paused p.replicator) true) :
    (w.move m).Faithful id { p with paused := true, closing := .done } := by
  constructor
  case leader =>
    intro c hc
    rw [contender] at hc
    have hne := (c.candidacy.gauge_slot_ne p.paused_mem_gauges).symm
    rw [shown, Registry.value_setFlag_of_ne _ _ hne]
    exact h.leader c hc
  case paused =>
    intro _
    rw [shown]
    exact Registry.value_setFlag_self ..
  case subjects =>
    intro _ hcan
    cases cancelled.symm.trans hcan

theorem starts (h : w.Faithful id p) (fits : w.Fits id p) (ordered : w.Ordered)
    (alone : (w.move m).RunByPublisher id) (cancelled : Bool) (new : p.started = false)
    (contender : Option.Rel Aside (w.contenders.get? id) ((w.move m).contenders.get? id))
    (shown : (w.move m).metrics = announce p w.metrics) :
    (w.move m).Faithful id { p with
      cancelled := cancelled
      started := true
      loops := p.schedules.map fun s => { schedule := s }
      closing := .armed } := by
  have hpaused := (fits.suspended alone.of_move).1 new
  -- the contender has not contended
  have before {c' : Contender} (hc' : (w.move m).contenders.get? id = some c') :
      p.gated = true ∧ c'.standing = .candidate ∧ ∃ c, w.contenders.get? id = some c ∧
        c'.candidacy = c.candidacy ∧ c.standing = .candidate := by
    rw [hc'] at contender
    obtain ⟨c, hc, aside⟩ := exists_of_rel contender
    have none := (alone.of_move c hc).eq_nil ((fits.new new).2.2 c hc)
    have hcand := (ordered hc).candidate_of_none none
    exact ⟨fits.gated hc, aside.standing.trans hcand, c, hc, aside.candidacy, hcand⟩
  constructor
  case leader =>
    intro c' hc'
    obtain ⟨-, hcand', c, hc, hsame, hcand⟩ := before hc'
    have hne : ∀ s ∈ p.gauges, s.slot ≠ c.candidacy.gauge.slot :=
      fun s hs => (c.candidacy.gauge_slot_ne hs).symm
    rw [shown, hsame, value_announce_of_ne p w.metrics hne, h.leader c hc, hcand', hcand]
  case paused =>
    intro _
    rw [shown, value_announce_paused, ← hpaused]
  case subjects =>
    intro _ _ c' hc' s hs
    obtain ⟨hg, hcand', -⟩ := before hc'
    rw [shown, value_announce, if_pos ⟨hg, s, hs, rfl⟩, hcand']
    rfl

theorem aside (h : w.Faithful id p) (hp : w.publishers.get? id = some p) {cancelled : Bool}
    {stopAt? : Option Nat} (cancels : p.cancelled = true → cancelled = true)
    (contender : Option.Rel Spared (w.contenders.get? id) ((w.move m).contenders.get? id))
    (shown : ∀ t ∈ w.gauges id, (w.move m).metrics.value t = w.metrics.value t) :
    (w.move m).Faithful id { p with cancelled := cancelled, stopAt? := stopAt? } := by
  constructor
  case leader =>
    intro c' hc'
    rw [hc'] at contender
    obtain ⟨c, hc, aside, -⟩ := exists_of_rel contender
    rw [aside.candidacy, aside.standing, shown _ (mem_gauges_of_contender hc)]
    exact h.leader c hc
  case paused =>
    intro hstarted
    rw [shown _ (mem_gauges_of_publisher hp p.paused_mem_gauges)]
    exact h.paused hstarted
  case subjects =>
    intro hstarted hcan c' hc' s hs
    rw [hc'] at contender
    obtain ⟨c, hc, aside, -⟩ := exists_of_rel contender
    have running : p.cancelled = false := by
      cases hb : p.cancelled with
      | false => rfl
      | true => cases (cancels hb).symm.trans hcan
    rw [shown _ (mem_gauges_of_publisher hp (Publisher.subjectActive_mem_gauges hs)), aside.standing]
    exact h.subjects hstarted running c hc s hs

end Faithful

/-- What holds in every world, whether slots are shared or not. -/
structure Kempt (w : World) : Prop where
  guarded : w.Guarded
  ordered : w.Ordered
  scheduled : w.Scheduled
  blank : w.Blank
  fits : ∀ {id p}, w.publishers.get? id = some p → w.Fits id p

theorem kempt_fresh (host : String) (wall : Int) (now : Nat) : (fresh host wall now).Kempt :=
  ⟨fun _ _ h => by simp at h, fun h => by simp at h, fun h => by simp at h, fun _ _ _ => rfl,
    fun h => by simp at h⟩

theorem Kempt.move (h : w.Kempt) (m : Move) : (w.move m).Kempt :=
  ⟨guarded_move h.guarded m, ordered_move h.ordered m, scheduled_move h.scheduled m,
    blank_move h.blank h.scheduled m, fits_move h.scheduled h.guarded h.fits⟩

theorem kempt_follow (host : String) (wall : Int) (now : Nat) (course : List Move) :
    ((fresh host wall now).follow course).Kempt :=
  follow_induct course (kempt_fresh host wall now) fun _ m h => h.move m

theorem faithful_move (kempt : w.Kempt)
    (h : ∀ p, w.publishers.get? id = some p → w.Faithful id p) (apart : (w.move m).Apart id)
    (alone : (w.move m).RunByPublisher id) {p' : Publisher} (hp' : (w.move m).publishers.get? id = some p') :
    (w.move m).Faithful id p' := by
  cases hp : w.publishers.get? id with
  | none =>
    cases publisherBecame hp' with
    | opened opens free =>
      obtain ⟨-, new, enrolled⟩ := fits_of_opened opens free
      refine ⟨fun c hc => ?_, fun hstarted => ?_, fun hstarted => ?_⟩
      · obtain ⟨y, enrols, rfl⟩ := enrolled c hc
        exact kempt.blank.value_of_opened kempt.scheduled apart enrols free hc
      · cases new.symm.trans hstarted
      · cases new.symm.trans hstarted
    | aside was | beat _ was => cases hp.symm.trans was
  | some p =>
    obtain ⟨p₁, hp₁, fares⟩ := hasFate hp kempt.scheduled m
    obtain rfl := Option.some.inj (hp'.symm.trans hp₁)
    have h := h p hp
    have fits := kempt.fits hp
    cases fares with
    | turn was turn contender shown =>
      have guards := fits.guards hp kempt.guarded was
      rw [if_pos guards.audience]
      exact h.turn hp was guards alone turn contender shown
    | beat _ beat contender shown => exact h.beat fits beat contender shown
    | closes _ cancelled contender shown => exact h.closes cancelled contender shown
    | starts cancelled new contender shown =>
      exact h.starts fits kempt.ordered alone cancelled new contender shown
    | aside cancelled stopAt? cancels contender shown =>
      exact h.aside hp cancels contender (shown apart.of_move)

/-- If no slots are shared in the end and nobody else has called `run` by then, this has been so all along:
what every move keeps as long as it is so holds at the end. -/
theorem apart_induct {I : World → Prop} {host : String} {wall : Int} {now : Nat}
    {course : List Move} (apart : ((fresh host wall now).follow course).Apart id)
    (alone : ((fresh host wall now).follow course).RunByPublisher id)
    (base : I (fresh host wall now))
    (step : ∀ v m, v.Kempt → (v.move m).Apart id → (v.move m).RunByPublisher id → I v →
      I (v.move m)) :
    I ((fresh host wall now).follow course) := by
  have h := follow_induct course
    (I := fun v => v.Kempt ∧ (v.Apart id → v.RunByPublisher id → I v))
    ⟨kempt_fresh host wall now, fun _ _ => base⟩
    fun v m h => ⟨h.1.move m, fun apart alone =>
      step v m h.1 apart alone (h.2 apart.of_move alone.of_move)⟩
  exact h.2 apart alone

/-- Every publisher that shares no slots is faithful if nobody else has called `run`. -/
theorem faithful_follow {host : String} {wall : Int} {now : Nat} {course : List Move}
    (apart : ((fresh host wall now).follow course).Apart id)
    (alone : ((fresh host wall now).follow course).RunByPublisher id)
    (hp : ((fresh host wall now).follow course).publishers.get? id = some p) :
    ((fresh host wall now).follow course).Faithful id p := by
  have h := apart_induct apart alone
    (I := fun w => ∀ p, w.publishers.get? id = some p → w.Faithful id p)
    (fun _ h => by simp at h)
    fun v m kempt apart alone h _ hp => faithful_move kempt h apart alone hp
  exact h p hp

/-! ## Agreement -/

/-- The flags of a publisher and its contender agree, and the gauges show them. -/
structure Agree (w : World) (p : Publisher) (c : Contender) : Prop where
  flags : p.paused = !c.standing.isLeader
  paused : w.metrics.value (.paused p.replicator) = flag p.paused
  subjects : ∀ s ∈ p.subjects,
    w.metrics.value (.subjectActive p.replicator s) = flag c.standing.isLeader
  leader : w.metrics.value (.leader p.replicator c.candidacy.name) = flag c.standing.isLeader

/-- Flags and gauges agree if slots are not shared and nobody else has called `run`: a gated publisher
that was started and is not cancelled has a contender, it is suspended iff the contender is no leader, its
gauge shows whether it is suspended, and each of its subjects and the gauge of the contender show whether
the contender is leader. -/
theorem flags_agree (host : String) (wall : Int) (now : Nat) (course : List Move)
    (hp : ((fresh host wall now).follow course).publishers.get? id = some p)
    (gated : p.gated = true) (started : p.started = true) (running : p.cancelled = false)
    (alone : ((fresh host wall now).follow course).RunByPublisher id)
    (apart : ((fresh host wall now).follow course).Apart id) :
    ∃ c, ((fresh host wall now).follow course).contenders.get? id = some c ∧
      ((fresh host wall now).follow course).Agree p c := by
  have faithful := faithful_follow apart alone hp
  obtain ⟨c, hc, guards⟩ := guarded_follow host wall now course id p hp gated
  obtain ⟨label, -⟩ := commissioned_follow host wall now course hp gated hc
  exact ⟨c, hc, guards.paused (alone c hc) running, faithful.paused started,
    faithful.subjects started running c hc, label ▸ faithful.leader c hc⟩

/-- A publisher of one subject is opened under a label. -/
def subscribe (id replicator subject : String) (gated : Bool) : Move :=
  .openPublisher id { Config.solo "5s" with
    leaderElection := gated
    subjects := [{ name := subject, interval := "5s", headers := .empty }] } replicator "o" (some "b") {}

/-- Two publishers contend for a key, and the first one wins. -/
def contest (replicator subject replicator' subject' : String) : List Move :=
  [subscribe "p" replicator subject true, subscribe "q" replicator' subject' true,
    .startPublisher "p" false, .startPublisher "q" false, .poll (.run "p" 0) 0, .poll (.run "q" 0) 0]

theorem flags_agree_contest :
    ∃ p, ((fresh "h" 0 0).follow (contest "r" "s" "r2" "s")).publishers.get? "p" = some p ∧
      p.gated = true ∧ p.started = true ∧ p.cancelled = false ∧
      ((fresh "h" 0 0).follow (contest "r" "s" "r2" "s")).RunByPublisher "p" ∧
      ((fresh "h" 0 0).follow (contest "r" "s" "r2" "s")).Apart "p" ∧
      ∃ c, ((fresh "h" 0 0).follow (contest "r" "s" "r2" "s")).contenders.get? "p" = some c ∧
        ((fresh "h" 0 0).follow (contest "r" "s" "r2" "s")).Agree p c := by
  have hopened : (((fresh "h" 0 0).follow (contest "r" "s" "r2" "s")).publishers.get? "p").map
      (fun p => (p.gated, p.started, p.cancelled)) = some (true, true, false) := by decide +kernel
  have alone : ((fresh "h" 0 0).follow (contest "r" "s" "r2" "s")).RunByPublisher "p" := by
    decide +kernel
  have apart : ((fresh "h" 0 0).follow (contest "r" "s" "r2" "s")).Apart "p" := by decide +kernel
  obtain ⟨p, hp, hflags⟩ := Option.map_eq_some_iff.1 hopened
  obtain ⟨gated, started, running⟩ : p.gated = true ∧ p.started = true ∧ p.cancelled = false := by
    simpa using hflags
  exact ⟨p, hp, gated, started, running, alone, apart,
    flags_agree "h" 0 0 (contest "r" "s" "r2" "s") hp gated started running alone apart⟩

/-- Different labels are not enough: the subject `bc` of the label `a` and the subject `c` of the label
`ab` are shown in one slot, so the leader's subject is shown as inactive after the other publisher has
lost. -/
theorem flags_disagree :
    (((fresh "h" 0 0).follow (contest "a" "bc" "ab" "c")).publishers.toList.map
      fun row => (row.1, row.2.replicator)) = [("p", "a"), ("q", "ab")] ∧
    (((fresh "h" 0 0).follow (contest "a" "bc" "ab" "c")).contenders.toList.map
      fun row => (row.1, row.2.candidacy.replicator)) = [("p", "a"), ("q", "ab")] ∧
    (((fresh "h" 0 0).follow (contest "a" "bc" "ab" "c")).publishers.get? "p").map
      (fun p => (p.gated, p.started, p.cancelled, p.paused, p.subjects)) =
        some (true, true, false, false, ["bc"]) ∧
    (((fresh "h" 0 0).follow (contest "a" "bc" "ab" "c")).contenders.get? "p").map (·.standing) =
      some .leader ∧
    ((fresh "h" 0 0).follow (contest "a" "bc" "ab" "c")).metrics.value (.subjectActive "a" "bc") = 0 := by
  decide +kernel

end World

end Tenure
