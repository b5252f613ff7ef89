import Tenure.Proofs.Election.Withdrawal
import Tenure.Proofs.Heartbeat.Gauges

/-!
# Shutdown

The calls of `run`, the loops and the end of a cancelled publisher end one by one, in any order, and
each of them leaves something behind: the calls a candidate, the loops inactive subjects, and the end a
suspended publisher. All this is so if nobody else calls `run`.

- **Exits** (`Exited`, `exited_of_turn`): a task of a cancelled publisher ends with its next turn, and it
  does not begin again (`Exited.move`). So all of them end when each has had a turn (`ended_of_turns`).
- **Darkness** (`Dark`): the subject of a loop that has ended is shown as inactive.
- **Retirement** (`Retired`, `shutdown`): a publisher all of whose tasks have ended is suspended, its
  contender is a candidate, its gauges show this, and none of its tasks ever does anything again. Where
  slots are shared its gauges may come on again (`shutdown_relit`).
-/

namespace Tenure

open Election Metrics

/-! ## Exits -/

namespace Election

variable {now delay draw : Nat} {c d : Contender} {s : Lease.Store} {i j : Nat} {o : Outcome}
  {r r' : Run}

/-- A call of `run` that takes the loop stays where it is. -/
theorem Engages.phase (e : Engages c i d r) (h : d.runs[j]? = some r') :
    ∃ r, c.runs[j]? = some r ∧ r.phase = r'.phase := by
  cases e with
  | begins =>
    rw [show (c.enter i).runs = (c.modifyRun i _).runs from rfl,
      Contender.getElem?_modifyRun] at h
    split at h
    · obtain ⟨r₀, hr₀, rfl⟩ := Option.map_eq_some_iff.1 h
      exact ⟨r₀, hr₀, rfl⟩
    · exact ⟨r', h, rfl⟩
  | goesOn => exact ⟨r', h, rfl⟩

/-- A call of `run` is moved to its end, or stays where it is. -/
theorem Contender.phase_of_setPhase_over (h : (c.setPhase i .over).runs[j]? = some r') :
    ∃ r, c.runs[j]? = some r ∧ (r'.phase = r.phase ∨ r'.phase = .over) := by
  rw [getElem?_setPhase] at h
  split at h
  · obtain ⟨r₀, hr₀, rfl⟩ := Option.map_eq_some_iff.1 h
    exact ⟨r₀, hr₀, .inr rfl⟩
  · exact ⟨r', h, .inl rfl⟩

/-- The calls of `run` of a cancelled contender can only end. -/
theorem Turn.phase_of_cancelled (t : Turn now delay draw c s i o)
    (cancelled : ∀ {j : Nat} {r : Run}, c.runs[j]? = some r → r.cancelled = true)
    (h : o.contender.runs[j]? = some r') :
    ∃ r, c.runs[j]? = some r ∧ (r'.phase = r.phase ∨ r'.phase = .over) := by
  cases t with
  | still => exact ⟨r', h, .inl rfl⟩
  | refused => exact Contender.phase_of_setPhase_over h
  | left e _ =>
    obtain ⟨r₁, hr₁, hphase⟩ := Contender.phase_of_setPhase_over h
    obtain ⟨r₀, hr₀, hsame⟩ := e.phase hr₁
    exact ⟨r₀, hr₀, hphase.imp (·.trans hsame.symm) id⟩
  | asks e running | acts e running | breaks e running | idles e running =>
    cases running.symm.trans (e.cancelled_of_all cancelled)

end Election

/-- The publisher or contender whose task it is. -/
def Task.owner : Task → String
  | .run id _ | .loop id _ | .closing id | .stopping id => id

namespace World

variable {w : World} {m : Move} {id : String} {p : Publisher} {t : Task}

/-- The task has come to its end. A call of `run` that broke off has not, and timers do not count. -/
def Exited (w : World) : Task → Prop
  | .run id i => ∀ c r, w.contenders.get? id = some c → c.runs[i]? = some r → r.phase = .over
  | .loop id j => ∀ p l, w.publishers.get? id = some p → p.loops[j]? = some l → l.phase = .over
  | .closing id => ∀ p, w.publishers.get? id = some p → p.closing = .done
  | .stopping _ => True

/-- The publisher was started and cancelled. -/
structure Stopped (w : World) (id : String) (p : Publisher) : Prop where
  publisher : w.publishers.get? id = some p
  started : p.started = true
  cancelled : p.cancelled = true

/-- No call of `run` has broken off. -/
def Unbroken (w : World) (id : String) : Prop :=
  ∀ c r, w.contenders.get? id = some c → r ∈ c.runs → r.phase ≠ .broken

namespace Stopped

/-- The calls of `run` are cancelled with the publisher. -/
theorem cancelled_of_run (h : w.Stopped id p) (kempt : w.Kempt) (alone : w.RunByPublisher id)
    {c : Contender} (hc : w.contenders.get? id = some c) {i : Nat} {r : Run}
    (hr : c.runs[i]? = some r) : r.cancelled = true :=
  have guards := (kempt.fits h.publisher).guards h.publisher kempt.guarded hc
  (guards.cancelled_of_allTied (alone c hc) hr).trans h.cancelled

/-- The calls of `run` can only end. -/
theorem phase_of_run (h : w.Stopped id p) (kempt : w.Kempt)
    (alone : (w.move m).RunByPublisher id) {c' : Contender}
    (hc' : (w.move m).contenders.get? id = some c') {i : Nat} {r' : Run}
    (hr' : c'.runs[i]? = some r') :
    ∃ c r, w.contenders.get? id = some c ∧ c.runs[i]? = some r ∧
      (r'.phase = r.phase ∨ r'.phase = .over) := by
  obtain ⟨p', -, fares⟩ := hasFate h.publisher kempt.scheduled m
  cases fares with
  | turn was turn contender _ =>
    obtain rfl := Option.some.inj (hc'.symm.trans contender)
    obtain ⟨r, hr, hphase⟩ :=
      turn.phase_of_cancelled (h.cancelled_of_run kempt alone.of_move was) hr'
    exact ⟨_, r, was, hr, hphase⟩
  | beat _ _ contender _ | closes _ _ contender _ =>
    exact ⟨c', r', contender.symm.trans hc', hr', .inl rfl⟩
  | starts _ new _ _ => cases new.symm.trans h.started
  | aside _ _ _ contender _ =>
    rw [hc'] at contender
    obtain ⟨c, hc, spared⟩ := exists_of_rel contender
    obtain ⟨b, hr⟩ := spared.tied hr' (alone c' hc' r' (List.mem_of_getElem? hr'))
    exact ⟨c, _, hc, hr, .inl rfl⟩

/-- A move leaves the publisher stopped, its end where it is or done, and its loops where they are or
at their ends. -/
theorem move (h : w.Stopped id p) (kempt : w.Kempt) (m : Move) :
    ∃ p', (w.move m).Stopped id p' ∧ (p.closing = .done → p'.closing = .done) ∧
      ∀ {j : Nat} {l' : Publisher.Loop}, p'.loops[j]? = some l' →
        ∃ l, p.loops[j]? = some l ∧ (l'.phase = l.phase ∨ l'.phase = .over) := by
  obtain ⟨p', hp', fares⟩ := hasFate h.publisher kempt.scheduled m
  cases fares with
  | @turn c i draw o was turn _ _ =>
    have guards := (kempt.fits h.publisher).guards h.publisher kempt.guarded was
    obtain ⟨paused, heard⟩ := p.hearAll_eq o.notes
    rw [if_pos guards.audience, heard] at hp'
    exact ⟨_, ⟨hp', h.started, h.cancelled⟩, fun hdone => hdone, fun hl' => ⟨_, hl', .inl rfl⟩⟩
  | @beat j l o loop beat _ _ =>
    rcases (beat.of_cancelled h.cancelled).1 with after | after <;> rw [after] at hp'
    · exact ⟨p, ⟨hp', h.started, h.cancelled⟩, fun hdone => hdone, fun hl' => ⟨_, hl', .inl rfl⟩⟩
    · refine ⟨_, ⟨hp', h.started, h.cancelled⟩, fun hdone => hdone, fun {k l'} hl' => ?_⟩
      rw [Publisher.getElem?_setPhase] at hl'
      split at hl'
      · obtain ⟨l₀, hl₀, rfl⟩ := Option.map_eq_some_iff.1 hl'
        exact ⟨l₀, hl₀, .inr rfl⟩
      · exact ⟨l', hl', .inl rfl⟩
  | closes =>
    exact ⟨_, ⟨hp', h.started, h.cancelled⟩, fun _ => rfl, fun hl' => ⟨_, hl', .inl rfl⟩⟩
  | starts _ new _ _ => cases new.symm.trans h.started
  | aside cancelled _ cancels _ _ =>
    exact ⟨_, ⟨hp', h.started, cancels h.cancelled⟩, fun hdone => hdone, fun hl' => ⟨_, hl', .inl rfl⟩⟩

/-- A task that has ended does not begin again. -/
theorem exited_move (h : w.Stopped id p) (kempt : w.Kempt) (alone : (w.move m).RunByPublisher id)
    (ht : t.owner = id) (exited : w.Exited t) : (w.move m).Exited t := by
  obtain ⟨p', h', closing, loops⟩ := h.move kempt m
  cases t with
  | run id' i =>
    obtain rfl : id' = id := ht
    intro c' r' hc' hr'
    obtain ⟨c, r, hc, hr, hphase⟩ := h.phase_of_run kempt alone hc' hr'
    exact hphase.elim (·.trans (exited c r hc hr)) fun hover => hover
  | loop id' j =>
    obtain rfl : id' = id := ht
    intro p₁ l' hp₁ hl'
    obtain rfl := Option.some.inj (h'.publisher.symm.trans hp₁)
    obtain ⟨l, hl, hphase⟩ := loops hl'
    exact hphase.elim (·.trans (exited p l h.publisher hl)) fun hover => hover
  | closing id' =>
    obtain rfl : id' = id := ht
    intro p₁ hp₁
    obtain rfl := Option.some.inj (h'.publisher.symm.trans hp₁)
    exact closing (exited p h.publisher)
  | stopping => trivial

theorem unbroken_move (h : w.Stopped id p) (kempt : w.Kempt) (alone : (w.move m).RunByPublisher id)
    (unbroken : w.Unbroken id) : (w.move m).Unbroken id := by
  intro c' r' hc' hr' hbroken
  obtain ⟨i, hi⟩ := List.getElem?_of_mem hr'
  obtain ⟨c, r, hc, hr, hphase | hphase⟩ := h.phase_of_run kempt alone hc' hi
  · exact unbroken c r hc (List.mem_of_getElem? hr) (hphase.symm.trans hbroken)
  · cases hphase.symm.trans hbroken

/-- A call of `run` that has not broken off ends with its next turn. -/
theorem exited_run (h : w.Stopped id p) (kempt : w.Kempt) (unbroken : w.Unbroken id)
    {i draw : Nat} (alone : (w.move (.poll (.run id i) draw)).RunByPublisher id) :
    (w.move (.poll (.run id i) draw)).Exited (.run id i) := by
  intro c' r' hc' hr'
  obtain ⟨c, r, hc, hr, -⟩ := h.phase_of_run kempt alone hc' hr'
  have cancelled := h.cancelled_of_run kempt alone.of_move hc hr
  cases active : r.phase.isOver with
  | false =>
    obtain ⟨c₁, r₁, hc₁, hr₁, returned, -⟩ := (withdraws hc hr cancelled draw).ends c r hc hr active
    obtain rfl := Option.some.inj (hc'.symm.trans hc₁)
    obtain rfl := Option.some.inj (hr'.symm.trans hr₁)
    exact returned
  | true =>
    -- a call that has returned stays so
    have still : w.move (.poll (.run id i) draw) = w := pollRun_of_over hc hr active draw
    rw [still] at hc'
    obtain rfl := Option.some.inj (hc.symm.trans hc')
    obtain rfl := Option.some.inj (hr.symm.trans hr')
    have hbroken := unbroken c r hc (List.mem_of_getElem? hr)
    grind [Phase.isOver]

/-- A loop ends with its next turn. -/
theorem exited_loop (h : w.Stopped id p) (j draw : Nat) :
    (w.move (.poll (.loop id j) draw)).Exited (.loop id j) := by
  intro p' l' hp' hl'
  have hp' : (w.pollLoop id j).publishers.get? id = some p' := hp'
  have ended {v : World} {l : Publisher.Loop} (hv : v.publishers = w.publishers)
      (hp' : (v.endLoop id j p l.schedule).publishers.get? id = some p') : l'.phase = .over := by
    have hended : (v.endLoop id j p l.schedule).publishers.get? id = some (p.setPhase j .over) :=
      (get?_publishers_modify ..).trans (by rw [if_pos rfl, hv, h.publisher]; rfl)
    obtain rfl := Option.some.inj (hp'.symm.trans hended)
    rw [Publisher.getElem?_setPhase, if_pos rfl] at hl'
    obtain ⟨_, -, rfl⟩ := Option.map_eq_some_iff.1 hl'
    rfl
  cases hl : p.loops[j]? with
  | none =>
    simp only [pollLoop, h.publisher, hl] at hp'
    obtain rfl := Option.some.inj hp'
    cases hl.symm.trans hl'
  | some l =>
    cases hph : l.phase with
    | fresh =>
      simp only [pollLoop, h.publisher, hl, hph, h.cancelled, if_true] at hp'
      exact ended (by split <;> rfl) hp'
    | idle ticker =>
      simp only [pollLoop, h.publisher, hl, hph, h.cancelled, if_true] at hp'
      exact ended rfl hp'
    | sending ticker msg due =>
      simp only [pollLoop, h.publisher, hl, hph, h.cancelled, if_true] at hp'
      exact ended rfl hp'
    | _ =>
      simp only [pollLoop, h.publisher, hl, hph] at hp'
      obtain rfl := Option.some.inj hp'
      obtain rfl := Option.some.inj (hl.symm.trans hl')
      exact hph

/-- The end of the publisher is done with its next turn. -/
theorem exited_closing (h : w.Stopped id p) (kempt : w.Kempt) (draw : Nat) :
    (w.move (.poll (.closing id) draw)).Exited (.closing id) := by
  intro p' hp'
  have hp' : (w.pollClosing id).publishers.get? id = some p' := hp'
  have begun := ((kempt.fits h.publisher).begun h.started).1
  simp only [pollClosing, h.publisher, h.cancelled, and_true] at hp'
  split at hp'
  · have hp' : (w.modifyPublisher id fun p => { p with paused := true, closing := .done
      }).publishers.get? id = some p' := hp'
    rw [get?_publishers_modify, if_pos rfl, h.publisher] at hp'
    obtain rfl := Option.some.inj hp'
    rfl
  · rename_i unarmed
    obtain rfl := Option.some.inj (h.publisher.symm.trans hp')
    cases hclosing : p.closing with
    | absent => exact absurd hclosing begun
    | armed => exact absurd hclosing unarmed
    | done => rfl

theorem follow (h : w.Stopped id p) (kempt : w.Kempt) (rest : List Move) :
    ∃ p', (w.follow rest).Stopped id p' := by
  induction rest generalizing w p with
  | nil => exact ⟨p, h⟩
  | cons m rest ih =>
    obtain ⟨p', h', -⟩ := h.move kempt m
    exact ih h' (kempt.move m)

theorem exited_follow (h : w.Stopped id p) (kempt : w.Kempt) (ht : t.owner = id)
    (exited : w.Exited t) {rest : List Move} (alone : (w.follow rest).RunByPublisher id) :
    (w.follow rest).Exited t := by
  induction rest generalizing w p with
  | nil => exact exited
  | cons m rest ih =>
    obtain ⟨p', h', -⟩ := h.move kempt m
    have before : (w.move m).RunByPublisher id := .of_follow alone
    exact ih h' (kempt.move m) (h.exited_move kempt before ht exited) alone

/-- A task of a stopped publisher ends with its next turn, unless it is a call of `run` that has broken
off. -/
theorem exited_turn (h : w.Stopped id p) (kempt : w.Kempt) (unbroken : w.Unbroken id)
    (ht : t.owner = id) {draw : Nat} (alone : (w.move (.poll t draw)).RunByPublisher id) :
    (w.move (.poll t draw)).Exited t := by
  subst ht
  cases t with
  | run id i => exact h.exited_run kempt unbroken alone
  | loop id j => exact h.exited_loop j draw
  | closing id => exact h.exited_closing kempt draw
  | stopping => trivial

/-- All tasks of a stopped publisher have ended when each of them has had a turn, in whatever order. -/
theorem exited_of_turns {rest : List Move} (h : w.Stopped id p) (kempt : w.Kempt)
    (unbroken : w.Unbroken id) (alone : (w.follow rest).RunByPublisher id) (ht : t.owner = id)
    (turn : w.Exited t ∨ ∃ draw, .poll t draw ∈ rest) : (w.follow rest).Exited t := by
  induction rest generalizing w p with
  | nil =>
    rcases turn with exited | ⟨_, hmem⟩
    · exact exited
    · cases hmem
  | cons m rest ih =>
    obtain ⟨p', h', -⟩ := h.move kempt m
    have before : (w.move m).RunByPublisher id := .of_follow alone
    refine ih h' (kempt.move m) (h.unbroken_move kempt before unbroken) alone ?_
    rcases turn with exited | ⟨draw, hmem⟩
    · exact .inl (h.exited_move kempt before ht exited)
    · rcases List.mem_cons.1 hmem with rfl | hmem
      · exact .inl (h.exited_turn kempt unbroken ht before)
      · exact .inr ⟨draw, hmem⟩

end Stopped

/-! ## Darkness -/

/-- The subjects of the loops that have ended are shown as inactive. -/
def Dark (w : World) (p : Publisher) : Prop :=
  ∀ (j : Nat) (l : Publisher.Loop), p.loops[j]? = some l → l.phase = .over →
    w.metrics.value (.subjectActive p.replicator l.schedule.subject) = 0

theorem dark_move (kempt : w.Kempt) (h : ∀ p, w.publishers.get? id = some p → w.Dark p)
    (apart : (w.move m).Apart id) (alone : (w.move m).RunByPublisher id) {p' : Publisher}
    (hp' : (w.move m).publishers.get? id = some p') : (w.move m).Dark p' := by
  cases hp : w.publishers.get? id with
  | none =>
    cases publisherBecame hp' with
    | opened opens free =>
      obtain ⟨fits, new, -⟩ := fits_of_opened opens free
      intro _ l hl
      rw [(fits.new new).1] at hl
      cases hl
    | aside was | beat _ was => cases hp.symm.trans was
  | some p =>
    obtain ⟨p₁, hp₁, fares⟩ := hasFate hp kempt.scheduled m
    obtain rfl := Option.some.inj (hp'.symm.trans hp₁)
    have dark := h p hp
    have fits := kempt.fits hp
    have listed {j : Nat} {l : Publisher.Loop} (hl : p.loops[j]? = some l) :
        .subjectActive p.replicator l.schedule.subject ∈ p.gauges :=
      Publisher.subjectActive_mem_gauges (List.mem_map_of_mem
        (kempt.scheduled hp (List.mem_map_of_mem (List.mem_of_getElem? hl))))
    cases fares with
    | @turn c i draw o was turn contender shown =>
      have guards := fits.guards hp kempt.guarded was
      obtain ⟨paused, heard⟩ := p.hearAll_eq o.notes
      rw [if_pos guards.audience, heard]
      intro _ l hl hover
      have cancelled {j : Nat} {r : Run} (hr : c.runs[j]? = some r) : r.cancelled = true :=
        (guards.cancelled_of_allTied (alone.of_move c was) hr).trans (fits.ended hl hover)
      rw [shown.value_of_cancelled cancelled (c.candidacy.gauge_slot_ne (listed hl))]
      exact dark _ _ hl hover
    | @beat j l o loop beat contender shown =>
      intro k l' hl' hover
      cases hcan : p.cancelled with
      | false =>
        -- no loop has ended before or ends now
        cases hcan.symm.trans (fits.ended (beat.over_of_running hcan hl' hover) hover)
      | true =>
        have kept {k : Nat} {l' : Publisher.Loop} (hl' : p.loops[k]? = some l')
            (hover : l'.phase = .over) :
            (p.light l w.metrics).value (.subjectActive p.replicator l'.schedule.subject) = 0 :=
          (Publisher.value_light_of_cancelled hcan l _ _).elim (·.trans (dark _ _ hl' hover)) fun h => h
        rw [shown _ rfl]
        rcases (beat.of_cancelled hcan).1 with after | after <;> rw [after] at hl' ⊢
        · exact kept hl' hover
        · rw [Publisher.getElem?_setPhase] at hl'
          split at hl'
          · rename_i hjk
            rw [← hjk, loop] at hl'
            obtain rfl := Option.some.inj hl'
            by_cases hphase : l.phase = .over
            · exact @kept j l loop hphase
            · exact Publisher.value_light_of_ends hcan hphase _
          · exact kept hl' hover
    | closes armed cancelled contender shown =>
      intro _ l hl hover
      rw [shown, Registry.value_setFlag_of_ne _ _ (Series.paused_slot_ne_subjectActive _ _ _)]
      exact dark _ _ hl hover
    | starts cancelled new contender shown =>
      intro _ l hl hover
      rw [List.getElem?_map] at hl
      obtain ⟨s, -, rfl⟩ := Option.map_eq_some_iff.1 hl
      cases hover
    | aside cancelled stopAt? cancels contender shown =>
      intro _ l hl hover
      rw [shown apart.of_move _ (mem_gauges_of_publisher hp (listed hl))]
      exact dark _ _ hl hover

theorem dark_follow {host : String} {wall : Int} {now : Nat} {course : List Move}
    (apart : ((fresh host wall now).follow course).Apart id)
    (alone : ((fresh host wall now).follow course).RunByPublisher id)
    (hp : ((fresh host wall now).follow course).publishers.get? id = some p) :
    ((fresh host wall now).follow course).Dark p := by
  have h := apart_induct apart alone
    (I := fun w => ∀ p, w.publishers.get? id = some p → w.Dark p) (fun _ h => by simp at h)
    fun v m kempt apart alone h _ hp => dark_move kempt h apart alone hp
  exact h p hp

/-! ## Retirement -/

/-- All tasks of the publisher have come to their ends. -/
def Ended (w : World) (id : String) : Prop := ∀ t : Task, t.owner = id → w.Exited t

instance : (phase : Publisher.Phase) → Decidable (phase = .over)
  | .over => .isTrue rfl
  | .fresh | .idle _ | .sending _ _ _ => .isFalse nofun

theorem ended_iff : w.Ended id ↔
    (w.publishers.get? id).all (fun p => p.closing = .done ∧ ∀ l ∈ p.loops, l.phase = .over) = true ∧
    (w.contenders.get? id).all (fun c => ∀ r ∈ c.runs, r.phase = .over) = true := by
  simp only [Option.all_eq_true, decide_eq_true_eq]
  constructor
  · intro h
    refine ⟨fun p hp => ⟨h (.closing id) rfl p hp, fun l hl => ?_⟩, fun c hc r hr => ?_⟩
    · obtain ⟨j, hj⟩ := List.getElem?_of_mem hl
      exact h (.loop id j) rfl p l hp hj
    · obtain ⟨i, hi⟩ := List.getElem?_of_mem hr
      exact h (.run id i) rfl c r hc hi
  · rintro ⟨publisher, contender⟩ t rfl
    cases t with
    | run id i => exact fun c r hc hr => contender c hc r (List.mem_of_getElem? hr)
    | loop id j => exact fun p l hp hl => (publisher p hp).2 l (List.mem_of_getElem? hl)
    | closing id => exact fun p hp => (publisher p hp).1
    | stopping id => trivial

instance (w : World) (id : String) : Decidable (w.Ended id) := decidable_of_iff _ ended_iff.symm

/-- A publisher whose end is done was started and cancelled. -/
theorem Ended.stopped (h : w.Ended id) (kempt : w.Kempt) (hp : w.publishers.get? id = some p) :
    w.Stopped id p := by
  have done : p.closing = .done := h (.closing id) rfl p hp
  have fits := kempt.fits hp
  refine ⟨hp, ?_, fits.closed done⟩
  cases hs : p.started with
  | true => rfl
  | false => cases (fits.new hs).2.1.symm.trans done

theorem Ended.follow (h : w.Ended id) (kempt : w.Kempt) (hp : w.publishers.get? id = some p)
    {later : List Move} (alone : (w.follow later).RunByPublisher id) : (w.follow later).Ended id :=
  fun t ht => (h.stopped kempt hp).exited_follow kempt ht (h t ht) alone

/-- A publisher is suspended for good, its contender is a candidate, its gauges show this, and none of
its tasks does anything. -/
structure Retired (w : World) (id : String) (p : Publisher) : Prop where
  paused : p.paused = true
  suspended : w.metrics.value (.paused p.replicator) = 1
  subjects : ∀ s ∈ p.subjects, w.metrics.value (.subjectActive p.replicator s) = 0
  contender : ∀ c, w.contenders.get? id = some c → c.standing = .candidate ∧
    w.metrics.value (.leader p.replicator c.candidacy.name) = 0
  silent : ∀ m, (∀ j what, ¬ w.Records m (.loop id j) what) ∧
    ∀ n, ¬ w.Records m (.contender id) (.noted n)

theorem Ended.retired (h : w.Ended id) (kempt : w.Kempt) (hp : w.publishers.get? id = some p)
    (alone : w.RunByPublisher id) (faithful : w.Faithful id p) (dark : w.Dark p)
    (label : ∀ c, w.contenders.get? id = some c → c.candidacy.replicator = p.replicator) :
    w.Retired id p := by
  have fits := kempt.fits hp
  have stopped := h.stopped kempt hp
  have hpaused : p.paused = true := (fits.suspended alone).2 (h (.closing id) rfl p hp)
  constructor
  case paused => exact hpaused
  case suspended => rw [faithful.paused stopped.started, hpaused]; rfl
  case subjects =>
    intro s hs
    obtain ⟨schedule, hschedule, rfl⟩ := List.mem_map.1 hs
    rw [← (fits.begun stopped.started).2] at hschedule
    obtain ⟨l, hl, rfl⟩ := List.mem_map.1 hschedule
    obtain ⟨j, hj⟩ := List.getElem?_of_mem hl
    exact dark _ _ hj (h (.loop id j) rfl p l hp hj)
  case contender =>
    intro c hc
    have hcand : c.standing = .candidate := by
      cases kempt.ordered hc with
      | resting _ standing _ => exact standing
      | @working i r work holds _ =>
        rw [h (.run id i) rfl c r hc work.run] at holds
        cases holds
    refine ⟨hcand, ?_⟩
    rw [← label c hc]
    exact (faithful.leader c hc).trans (by rw [hcand]; rfl)
  case silent =>
    intro m
    refine ⟨fun j what hrec => ?_, fun n hrec => ?_⟩
    · obtain ⟨p₀, _, o, -, hp₀, beat, -, hmem⟩ := hrec.beat
      obtain rfl := Option.some.inj (hp.symm.trans hp₀)
      rw [(beat.of_cancelled stopped.cancelled).2] at hmem
      cases hmem
    · obtain ⟨c, i, _, o, -, hc, turn, -, hmem⟩ := hrec.turn
      rw [(turn.quiet_of_cancelled (stopped.cancelled_of_run kempt alone hc)).2] at hmem
      cases hmem

/-- Shutdown is complete and final if nobody else calls `run`. When each task of a cancelled publisher has
had a turn, in whatever order, all of them have ended. When all have ended, the publisher is retired, and
stays so whatever happens. -/
theorem shutdown (host : String) (wall : Int) (now : Nat) (course rest later : List Move)
    (hp : ((fresh host wall now).follow course).publishers.get? id = some p)
    (started : p.started = true) (cancelled : p.cancelled = true)
    (alone : ((fresh host wall now).follow (course ++ rest ++ later)).RunByPublisher id) :
    (((fresh host wall now).follow course).Unbroken id →
      (∀ t, t.owner = id → ¬ ((fresh host wall now).follow course).Exited t →
        ∃ draw, .poll t draw ∈ rest) →
      ((fresh host wall now).follow (course ++ rest)).Ended id) ∧
    (((fresh host wall now).follow (course ++ rest)).Ended id →
      ((fresh host wall now).follow (course ++ rest ++ later)).Apart id →
      ∃ p', ((fresh host wall now).follow (course ++ rest ++ later)).publishers.get? id = some p' ∧
        ((fresh host wall now).follow (course ++ rest ++ later)).Retired id p') := by
  have stopped : ((fresh host wall now).follow course).Stopped id p := ⟨hp, started, cancelled⟩
  have kempt := kempt_follow host wall now
  have before : ((fresh host wall now).follow (course ++ rest)).RunByPublisher id := by
    rw [follow_append] at alone
    exact alone.of_follow
  refine ⟨fun unbroken turns t ht => ?_, fun ended apart => ?_⟩
  · rw [follow_append] at before ⊢
    exact stopped.exited_of_turns (kempt course) unbroken before ht
      ((Classical.em _).imp_right fun h => turns t ht h)
  · obtain ⟨p₁, stopped₁⟩ := stopped.follow (kempt course) rest
    rw [← follow_append] at stopped₁
    obtain ⟨p', stopped'⟩ := stopped₁.follow (kempt (course ++ rest)) later
    have after : (((fresh host wall now).follow (course ++ rest)).follow later).RunByPublisher id := by
      rwa [← follow_append]
    have ended' := ended.follow (kempt (course ++ rest)) stopped₁.publisher after
    rw [← follow_append] at stopped' ended'
    have hp' := stopped'.publisher
    refine ⟨p', hp', ended'.retired (kempt _) hp' alone (faithful_follow apart alone hp')
      (dark_follow apart alone hp') fun c hc => ?_⟩
    have gated := ((kempt _).fits hp').gated hc
    exact (commissioned_follow host wall now (course ++ rest ++ later) hp' gated hc).1

/-- A leader publishes and is cancelled while a heartbeat is on its way. -/
def farewell : List Move :=
  [subscribe "p" "r" "s" true, .startPublisher "p" false, .poll (.run "p" 0) 0,
    .poll (.loop "p" 0) 0, .setOutboxDelay "o" 1000000000, .advance 5000000000,
    .poll (.loop "p" 0) 0, .cancelPublisher "p"]

/-- Each of its tasks has a turn. -/
def curtain : List Move := [.poll (.closing "p") 0, .poll (.loop "p" 0) 0, .poll (.run "p" 0) 0]

/-- Time passes, and the tasks have more turns. -/
def encore : List Move := [.advance 5000000000, .poll (.run "p" 0) 0, .poll (.loop "p" 0) 0]

theorem shutdown_farewell :
    ∃ p, ((fresh "h" 0 0).follow farewell).publishers.get? "p" = some p ∧ p.started = true ∧
      p.cancelled = true ∧
      ((fresh "h" 0 0).follow (farewell ++ curtain ++ encore)).RunByPublisher "p" ∧
      ((fresh "h" 0 0).follow farewell).Unbroken "p" ∧
      (∀ t, t.owner = "p" → ¬ ((fresh "h" 0 0).follow farewell).Exited t →
        ∃ draw, .poll t draw ∈ curtain) ∧
      ((fresh "h" 0 0).follow (farewell ++ curtain)).Ended "p" ∧
      ((fresh "h" 0 0).follow (farewell ++ curtain ++ encore)).Apart "p" ∧
      ∃ p', ((fresh "h" 0 0).follow (farewell ++ curtain ++ encore)).publishers.get? "p" = some p' ∧
        ((fresh "h" 0 0).follow (farewell ++ curtain ++ encore)).Retired "p" p' := by
  have hopened : (((fresh "h" 0 0).follow farewell).publishers.get? "p").map
      (fun p => (p.started, p.cancelled, p.loops.length)) = some (true, true, 1) := by decide +kernel
  have hruns : (((fresh "h" 0 0).follow farewell).contenders.get? "p").map
      (fun c => c.runs.map (·.phase)) = some [.waiting 10000000000] := by decide +kernel
  have alone : ((fresh "h" 0 0).follow (farewell ++ curtain ++ encore)).RunByPublisher "p" := by
    decide +kernel
  have apart : ((fresh "h" 0 0).follow (farewell ++ curtain ++ encore)).Apart "p" := by
    decide +kernel
  obtain ⟨p, hp, hflags⟩ := Option.map_eq_some_iff.1 hopened
  obtain ⟨started, cancelled, hloops⟩ : p.started = true ∧ p.cancelled = true ∧
    p.loops.length = 1 := by simpa using hflags
  obtain ⟨c, hc, hphases⟩ := Option.map_eq_some_iff.1 hruns
  have unbroken : ((fresh "h" 0 0).follow farewell).Unbroken "p" := by
    intro c' r hc' hr hbroken
    obtain rfl := Option.some.inj (hc.symm.trans hc')
    have hmem := List.mem_map_of_mem (f := Run.phase) hr
    rw [hphases, hbroken] at hmem
    cases List.mem_singleton.1 hmem
  have turns (t : Task) (ht : t.owner = "p")
      (running : ¬ ((fresh "h" 0 0).follow farewell).Exited t) : ∃ draw, .poll t draw ∈ curtain := by
    cases t with
    | closing id =>
      obtain rfl : id = "p" := ht
      exact ⟨0, List.mem_cons_self ..⟩
    | stopping id => exact absurd trivial running
    | loop id j =>
      obtain rfl : id = "p" := ht
      obtain rfl : j = 0 := by
        refine Decidable.byContradiction fun hj => running fun p' l hp' hl => ?_
        obtain rfl := Option.some.inj (hp.symm.trans hp')
        obtain ⟨hlt, -⟩ := List.getElem?_eq_some_iff.1 hl
        omega
      exact ⟨0, List.mem_cons_of_mem _ (List.mem_cons_self ..)⟩
    | run id i =>
      obtain rfl : id = "p" := ht
      obtain rfl : i = 0 := by
        refine Decidable.byContradiction fun hi => running fun c' r hc' hr => ?_
        obtain rfl := Option.some.inj (hc.symm.trans hc')
        obtain ⟨hlt, -⟩ := List.getElem?_eq_some_iff.1 hr
        have hlength := congrArg List.length hphases
        rw [List.length_map, List.length_singleton] at hlength
        omega
      exact ⟨0, List.mem_cons_of_mem _ (List.mem_cons_of_mem _ (List.mem_cons_self ..))⟩
  obtain ⟨ends, retires⟩ := shutdown "h" 0 0 farewell curtain encore hp started cancelled alone
  have ended := ends unbroken turns
  exact ⟨p, hp, started, cancelled, alone, unbroken, turns, ended, apart, retires ended apart⟩

/-- A publisher without a gate is started, cancelled, and ends. -/
def extinction : List Move :=
  [subscribe "p" "a" "bc" false, .startPublisher "p" false, .poll (.loop "p" 0) 0,
    .cancelPublisher "p", .poll (.loop "p" 0) 0, .poll (.closing "p") 0]

/-- Another one is started under another label. -/
def rekindling : List Move :=
  [subscribe "q" "ab" "c" false, .startPublisher "q" false, .poll (.loop "q" 0) 0]

/-- Different labels are not enough: a publisher that has ended is shown as active again when another
one begins whose subject is shown in the same slot. -/
theorem shutdown_relit :
    (((fresh "h" 0 0).follow (extinction ++ rekindling)).publishers.toList.map
      fun row => (row.1, row.2.replicator, row.2.subjects)) = [("p", "a", ["bc"]), ("q", "ab", ["c"])] ∧
    ((fresh "h" 0 0).follow extinction).Ended "p" ∧
    ((fresh "h" 0 0).follow extinction).metrics.value (.subjectActive "a" "bc") = 0 ∧
    ((fresh "h" 0 0).follow (extinction ++ rekindling)).metrics.value (.subjectActive "a" "bc") = 1 := by
  decide +kernel

end World

end Tenure
