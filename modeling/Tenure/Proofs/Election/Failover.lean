import Tenure.Proofs.Election.Reign
import Tenure.Proofs.Heartbeat.Commission

/-!
# Failover

A leader that is cancelled leaves its lease behind. The others wait until it has run out, and then for
their next campaign.

- **Premises** (`AtOnce`, `Dismissed`, `Spares`, `Undisturbed`): calls are answered at once and waits end
  on time; the leader is cancelled and not called again, the store answers, and nobody else is
  cancelled.
- **The lease left behind** (`Orphaned`, `orphaned_move`): until the lease has ended nobody else leads,
  and the first answer after that is a grant.
- **The successor** (`Succeeded`, `succeeded_move`): whoever is granted the key goes on to reign.
- **The survivor** (`Survives`, `survives_move`): a contender whose wait is under way when the lease ends
  is a candidate for it.
- **Failover** (`failover`): when nobody leads, and from when on exactly one does.
-/

namespace Tenure

open Election Lease

/-- A waiting call of `run` that is not cancelled goes on to wait, or has an answer, if no call is left
without one. -/
theorem Election.Turn.waits_or_answered {now delay draw : Nat} {c : Contender} {s : Store} {i j : Nat}
    {o : Outcome} {r : Run} {due : Nat} (t : Turn now delay draw c s i o) (hc : Orderly c)
    (work : AtWork c j r) (phase : r.phase = .waiting due) (acting : r.cancelled = false)
    (prompt : ∀ r' ∈ o.contender.runs, r'.phase.isOutstanding = false) :
    AtWork o.contender j r ∨ ∃ q a, .answered q a ∈ o.notes := by
  have lost {d : Contender} {r₁ : Run} {p : Phase} (e : Engages c i d r₁)
      (ho : o.contender = d.setPhase i p) (hp : p.isOutstanding = true) : False := by
    have hmem : { r₁ with phase := p } ∈ o.contender.runs := by
      refine List.mem_of_getElem? (i := i) ?_
      rw [ho, Contender.getElem?_setPhase, if_pos rfl, e.run]
      rfl
    cases hp.symm.trans (prompt _ hmem)
  cases t with
  | still => exact .inl work
  | refused run fresh _ => exact .inl (work.refuse (by rw [phase]; rfl) run fresh)
  | left e cancelled =>
    obtain ⟨-, -, rfl, -⟩ := e.eq_of_atWork work
    cases acting.symm.trans cancelled
  | asks e => exact (lost e rfl rfl).elim
  | acts => exact .inr ⟨_, _, List.mem_append_right _ (List.mem_cons_self ..)⟩
  | breaks e => exact (lost e rfl rfl).elim
  | idles e _ _ _ request => exact absurd request (Turn.request?_ne_none e hc)

namespace World

variable {bucket key l : String} {w : World} {m : Move} {expiry : Nat}

/-! ## Premises -/

/-- The waits of the contenders for a key end on time, and none of their calls on the store is without
an answer. -/
def AtOnce (bucket key : String) (w : World) : Prop :=
  ∀ e ∈ w.contenders.toList, e.2.candidacy.Contends bucket key →
    w.OnTime e.1 ∧ ∀ r ∈ e.2.runs, r.phase.isOutstanding = false

instance (bucket key : String) : DecidablePred (AtOnce bucket key) := fun w => by
  unfold AtOnce
  infer_instance

theorem AtOnce.of_contends (h : w.AtOnce bucket key) {id : String} {c : Contender}
    (hc : w.contenders.get? id = some c) (hkey : c.candidacy.Contends bucket key) :
    w.OnTime id ∧ ∀ r ∈ c.runs, r.phase.isOutstanding = false :=
  h (id, c) ((w.contenders.mem_toList_iff id c).2 hc) hkey

theorem AtOnce.timely (h : w.AtOnce bucket key) : w.Timely bucket key := by
  intro e he hkey
  obtain ⟨ontime, prompt⟩ := h e he hkey
  refine ⟨ontime, fun c hc r hr hout => ?_⟩
  obtain rfl := Option.some.inj (((w.contenders.mem_toList_iff e.1 e.2).1 he).symm.trans hc)
  cases hout.symm.trans (prompt r hr)

/-- Every call of `run` of the contender is cancelled. -/
def Dismissed (l : String) (w : World) : Prop :=
  ∀ c ∈ w.contenders.get? l, ∀ r ∈ c.runs, r.cancelled = true

instance (l : String) : DecidablePred (Dismissed l) := fun w => by
  unfold Dismissed
  infer_instance

/-- The move cancels no call of `run` of any other contender for the key. -/
def Spares (bucket key l : String) (w : World) (m : Move) : Prop :=
  ∀ e ∈ w.contenders.toList, e.1 ≠ l → e.2.candidacy.Contends bucket key →
    ∀ c' ∈ (w.move m).contenders.get? e.1, ∀ x ∈ e.2.runs.zip c'.runs,
      x.1.cancelled = false → x.2.cancelled = false

instance (bucket key l : String) (w : World) (m : Move) : Decidable (w.Spares bucket key l m) := by
  unfold Spares
  infer_instance

/-- The contender is cancelled and not called again, the store answers, and the move cancels nobody
else. -/
def Undisturbed (bucket key l : String) (w : World) (m : Move) : Prop :=
  w.Dismissed l ∧ (w.bucket bucket).store.available = true ∧ w.Spares bucket key l m

instance (bucket key l : String) (w : World) (m : Move) :
    Decidable (w.Undisturbed bucket key l m) :=
  inferInstanceAs (Decidable (_ ∧ _ ∧ _))

theorem Spares.acting (h : w.Spares bucket key l m) {id : String} {c c' : Contender} {i : Nat}
    {r r' : Run} (hne : id ≠ l) (hc : w.contenders.get? id = some c)
    (hkey : c.candidacy.Contends bucket key) (hc' : (w.move m).contenders.get? id = some c')
    (hr : c.runs[i]? = some r) (hr' : c'.runs[i]? = some r') (acting : r.cancelled = false) :
    r'.cancelled = false := by
  have hzip : (r, r') ∈ c.runs.zip c'.runs := by
    refine List.mem_of_getElem? (i := i) ?_
    rw [List.getElem?_zip_eq_some]
    exact ⟨hr, hr'⟩
  exact h (id, c) ((w.contenders.mem_toList_iff id c).2 hc) hne hkey c' hc' (r, r') hzip acting

/-- What a move on the way has to meet. -/
structure Calm (bucket key l : String) (w : World) (m : Move) : Prop where
  respects : m.Respects bucket key
  atOnce : w.AtOnce bucket key
  atOnce' : (w.move m).AtOnce bucket key
  dismissed : w.Dismissed l
  available : (w.bucket bucket).store.available = true
  spares : w.Spares bucket key l m

/-! ## The lease left behind -/

/-- Nobody but the contender is leader, and the entry of the key has this deadline. -/
structure Orphaned (bucket key l : String) (expiry : Nat) (w : World) : Prop where
  row : ∃ row, (w.bucket bucket).store.rows.get? key = some row ∧ row.deadline = expiry
  alone : ∀ {id c}, w.contenders.get? id = some c → c.candidacy.Contends bucket key →
    c.standing = .leader → id = l

/-- Another contender reigns, and its call of `run` is not cancelled. -/
def Succeeded (bucket key l : String) (w : World) : Prop :=
  ∃ id c i r, id ≠ l ∧ Reigns w id c i r ∧ c.candidacy.Contends bucket key ∧ r.cancelled = false

theorem Orphaned.candidate (h : Orphaned bucket key l expiry w) {id : String} {c : Contender}
    (hne : id ≠ l) (hc : w.contenders.get? id = some c)
    (hkey : c.candidacy.Contends bucket key) : c.standing = .candidate := by
  cases hs : c.standing with
  | candidate => rfl
  | leader => exact absurd (h.alone hc hkey hs) hne

/-- The entry is live exactly until its deadline. -/
theorem Orphaned.liveRow?_eq_none_iff (h : Orphaned bucket key l expiry w) {y : Candidacy}
    (hkey : y.Contends bucket key) : w.liveRow? y = none ↔ expiry ≤ w.now := by
  obtain ⟨row, hrow, rfl⟩ := h.row
  rw [liveRow?, hkey.1, hkey.2, Store.live?, hrow]
  simp [Option.filter, Row.isLive]

/-- The first contender with an answer after the end of the lease succeeds. -/
theorem succeeded_of_answered (h : Orphaned bucket key l expiry w) (hw : w.Ordered)
    (available : (w.bucket bucket).store.available = true) (hend : expiry ≤ w.now) {id : String}
    {c : Contender} (hne : id ≠ l) (hc : w.contenders.get? id = some c)
    (hkey : c.candidacy.Contends bucket key) {q : Request} {a : Answer}
    (hrec : w.Records m (.contender id) (.noted (.answered q a))) :
    Succeeded bucket key l (w.move m) := by
  rw [← hkey.1] at available
  obtain ⟨c', i, r, reigns, acting, -⟩ := reigns_of_answered hw hc (h.candidate hne hc hkey)
    ((h.liveRow?_eq_none_iff hkey).2 hend) available hrec
  exact ⟨id, c', i, r, hne, reigns, candidacy_move hc reigns.contender ▸ hkey, acting⟩

/-- The entry of a dismissed leader stays in place until somebody succeeds it after the end of the
lease. -/
theorem orphaned_move (h : Orphaned bucket key l expiry w) (hw : w.Ordered)
    (calm : Calm bucket key l w m) :
    Orphaned bucket key l expiry (w.move m) ∨ expiry ≤ w.now ∧ Succeeded bucket key l (w.move m) := by
  by_cases hanswer : expiry ≤ w.now ∧ ∃ id c q a, id ≠ l ∧ w.contenders.get? id = some c ∧
      c.candidacy.Contends bucket key ∧ w.Records m (.contender id) (.noted (.answered q a))
  · obtain ⟨hend, id, c, q, a, hne, hc, hkey, hrec⟩ := hanswer
    exact .inr ⟨hend, succeeded_of_answered h hw calm.available hend hne hc hkey hrec⟩
  · left
    constructor
    · -- the row stays: the leader is dismissed, and a rival is refused or has no answer
      rcases get?_rows_move w m bucket key with
        hsame | htouch | ⟨id, c, i, draw, poll, hc, hb, hk⟩
      · rw [hsame]
        exact h.row
      · have hm := calm.respects
        cases m <;> first | exact absurd htouch hm | exact htouch.elim
      · obtain ⟨o, turn, effect⟩ := pollRun_effect hc i draw
        have effect : Effect w id c.candidacy o (w.move m) := poll ▸ effect
        have hrows : o.store.rows = (w.bucket c.candidacy.bucket).store.rows := by
          by_cases hid : id = l
          · subst hid
            rw [(turn.quiet_of_cancelled fun hr =>
              calm.dismissed c hc _ (List.mem_of_getElem? hr)).1]
          · have cand := h.candidate hid hc ⟨hb, hk⟩
            cases hlive : w.liveRow? c.candidacy with
            | some row => rw [turn.store_eq_of_candidate (hw hc) cand hlive]
            | none =>
              have hend := (h.liveRow?_eq_none_iff ⟨hb, hk⟩).1 hlive
              refine turn.rows_eq_of_candidate (hw hc) cand fun q a hn => ?_
              exact hanswer ⟨hend, id, c, q, a, hid, hc, ⟨hb, hk⟩, effect.records hn⟩
        rw [effect.bucket, if_pos hb, hrows, hb]
        exact h.row
    · intro id c' hc' hkey' led'
      rcases (leads hw hc' led').led_or_wrote with ⟨c, was, led, -⟩ | ⟨q, revision, hrec, -⟩
      · exact h.alone was (candidacy_move was hc' ▸ hkey') led
      · -- a grant to another contender would be an answer after the end of the lease
        refine Decidable.byContradiction fun hne => ?_
        obtain ⟨c, i, draw, -, was, grants, -⟩ := hrec.taken
        have hkey := candidacy_move was hc' ▸ hkey'
        have free : w.liveRow? c.candidacy = none := by
          cases q with
          | acquire => exact grants
          | renew renewed =>
            obtain ⟨c₁, was₁, led⟩ := hrec.standing_of_renew hw
            obtain rfl := Option.some.inj (was.symm.trans was₁)
            exact absurd (h.alone was hkey led) hne
        exact hanswer ⟨(h.liveRow?_eq_none_iff hkey).1 free, id, c, q, _, hne, was, hkey, hrec⟩

/-! ## The successor -/

/-- The successor goes on to reign. -/
theorem succeeded_move (h : Succeeded bucket key l w) (exclusive : Exclusive bucket key w)
    (calm : Calm bucket key l w m) : Succeeded bucket key l (w.move m) := by
  obtain ⟨id, c, i, r, hne, reigns, hkey, acting⟩ := h
  obtain ⟨⟨c', r', reigns'⟩, -⟩ := reigns.move exclusive calm.atOnce.timely calm.respects hkey acting
    calm.available
  refine ⟨id, c', i, r', hne, reigns', candidacy_move reigns.contender reigns'.contender ▸ hkey, ?_⟩
  exact calm.spares.acting hne reigns.contender hkey reigns'.contender reigns.work.run
    reigns'.work.run acting

/-! ## The survivor -/

/-- The contender waits for its next campaign until this instant at the latest, and its call of `run` is
not cancelled. -/
def Survives (bucket key id : String) (limit : Nat) (w : World) : Prop :=
  ∃ c i r due, w.contenders.get? id = some c ∧ c.candidacy.Contends bucket key ∧ AtWork c i r ∧
    r.phase = .waiting due ∧ r.cancelled = false ∧ due ≤ limit

/-- After the end of the lease a survivor goes on to wait, or it succeeds. -/
theorem survives_move {id : String} {limit : Nat} (h : Survives bucket key id limit w)
    (orphaned : Orphaned bucket key l expiry w) (hw : w.Ordered) (calm : Calm bucket key l w m)
    (hne : id ≠ l) (hend : expiry ≤ w.now) :
    Survives bucket key id limit (w.move m) ∨ Succeeded bucket key l (w.move m) := by
  obtain ⟨c, i, r, due, hc, hkey, work, phase, acting, hdue⟩ := h
  obtain ⟨c', hc'⟩ := exists_contender_move hc m
  have hkey' : c'.candidacy.Contends bucket key := candidacy_move hc hc' ▸ hkey
  cases became hc' with
  | opened _ free _ _ => cases hc.symm.trans (eq_none_of_free free).1
  | aside was aside _ =>
    obtain rfl := Option.some.inj (hc.symm.trans was)
    obtain ⟨b, work'⟩ := aside.atWork work
    exact .inl ⟨c', i, _, due, hc', hkey', work', phase,
      calm.spares.acting hne hc hkey hc' work.run work'.run acting, hdue⟩
  | turn _ was turn effect after =>
    obtain rfl := Option.some.inj (hc.symm.trans was)
    subst after
    rcases turn.waits_or_answered (hw hc) work phase acting
      (calm.atOnce'.of_contends hc' hkey').2 with work' | ⟨q, a, hn⟩
    · exact .inl ⟨_, i, r, due, hc', hkey', work', phase, acting, hdue⟩
    · exact .inr (succeeded_of_answered orphaned hw calm.available hend hne hc hkey
        (effect.records hn))

/-- A call of `run` of the contender is in the loop and not cancelled, and its waits are no longer than
the limit. -/
def Competes (bucket key id : String) (limit : Nat) (w : World) : Prop :=
  ∃ c, w.contenders.get? id = some c ∧ c.candidacy.Contends bucket key ∧
    c.candidacy.WaitsWithin limit ∧ ∃ r ∈ c.runs, r.phase.inLoop = true ∧ r.cancelled = false

/-- A contender that competes waits, and its wait ends within the limit from now on. -/
theorem Competes.survives {id : String} {limit : Nat} (h : Competes bucket key id limit w)
    (hw : w.Ordered) (waits : w.Waits) (atOnce : w.AtOnce bucket key) :
    Survives bucket key id (w.now + limit) w := by
  obtain ⟨c, hc, hkey, hlimit, r, hmem, inLoop, acting⟩ := h
  obtain ⟨i, hr⟩ := List.getElem?_of_mem hmem
  have hprompt := (atOnce.of_contends hc hkey).2 r hmem
  obtain ⟨due, phase⟩ := r.phase.exists_waiting inLoop fun q asked t hcalling => by
    rw [hcalling] at hprompt
    cases hprompt
  exact ⟨c, i, r, due, hc, hkey, ((Engages.goesOn hr inLoop).atWork (hw hc)).1, phase, acting,
    waits hc hr phase hlimit⟩

/-- While the clock moves, contenders do nothing. -/
theorem contenders_of_now_lt (h : w.now < (w.move m).now) :
    (w.move m).contenders = w.contenders := by
  cases w.played m with
  | turn _ _ _ effect =>
    rw [effect.now] at h
    omega
  | beat _ _ _ effect => exact effect.contenders
  | call called =>
    rw [called.recast.now] at h
    omega
  | stage staged => exact staged.contenders

/-! ## Failover -/

/-- After the end of the lease either a survivor waits for its next campaign, or somebody has
succeeded. -/
def Pending (bucket key l id : String) (expiry limit : Nat) (w : World) : Prop :=
  Orphaned bucket key l expiry w ∧ Survives bucket key id limit w ∨ Succeeded bucket key l w

theorem pending_move {id : String} {limit : Nat} (h : Pending bucket key l id expiry limit w)
    (exclusive : Exclusive bucket key w) (calm : Calm bucket key l w m) (hne : id ≠ l)
    (hend : expiry ≤ w.now) : Pending bucket key l id expiry limit (w.move m) := by
  rcases h with ⟨orphaned, survives⟩ | succeeded
  · rcases orphaned_move orphaned exclusive.ordered calm with orphaned' | ⟨-, succeeded⟩
    · rcases survives_move survives orphaned exclusive.ordered calm hne hend with
        survives' | succeeded
      · exact .inl ⟨orphaned', survives'⟩
      · exact .inr succeeded
    · exact .inr succeeded
  · exact .inr (succeeded_move succeeded exclusive calm)

/-- A move in which the lease ends leaves the survivor waiting, unless somebody has succeeded. -/
theorem pending_of_expiry {id : String} {limit : Nat}
    (h : Orphaned bucket key l expiry w ∨ expiry ≤ w.now ∧ Succeeded bucket key l w)
    (survives : Survives bucket key id limit w) (exclusive : Exclusive bucket key w)
    (calm : Calm bucket key l w m) (hne : id ≠ l) (hafter : expiry ≤ (w.move m).now) :
    Pending bucket key l id expiry limit (w.move m) := by
  rcases Nat.lt_or_ge w.now expiry with hlt | hend
  · have orphaned : Orphaned bucket key l expiry w := by
      rcases h with orphaned | ⟨hend, -⟩
      · exact orphaned
      · omega
    rcases orphaned_move orphaned exclusive.ordered calm with orphaned' | ⟨hend, -⟩
    · refine .inl ⟨orphaned', ?_⟩
      rw [Survives, contenders_of_now_lt (by omega)]
      exact survives
    · omega
  · refine pending_move ?_ exclusive calm hne hend
    rcases h with orphaned | ⟨-, succeeded⟩
    · exact .inl ⟨orphaned, survives⟩
    · exact .inr succeeded

/-- A survivor has succeeded, or somebody else has, a millisecond after the end of its wait: past that
instant, or at it once the survivor has had its turn. -/
theorem Pending.succeeded {id : String} {limit : Nat}
    (h : Pending bucket key l id expiry limit w) (atOnce : w.AtOnce bucket key)
    (late : limit + nanosPerMilli < w.now ∨
      limit + nanosPerMilli ≤ w.now ∧ ∀ i, w.isReady (.run id i) = false) :
    Succeeded bucket key l w := by
  rcases h with ⟨-, c, i, r, due, hc, hkey, work, phase, acting, hdue⟩ | succeeded
  · have hnow := (atOnce.of_contends hc hkey).1.le hc work phase
    rcases late with hlate | ⟨hlate, rest⟩
    · omega
    · have hready : w.isReady (.run id i) = true := by
        have hfired : Clock.hasFired w.now due = true := Clock.hasFired_of_le (by omega)
        simp [isReady, hc, work.run, Run.isReady, phase, hfired]
      cases hready.symm.trans (rest i)
  · exact succeeded

/-- What follows when a leader is cancelled whose lease ends at `expiry`. -/
structure Failover (bucket key l : String) (expiry : Nat) (w : World) (after : List Move) : Prop where
  /-- Until the lease has ended nobody else leads, and the leader only until its call of `run` has left
  the loop. -/
  vacant : ∀ part, part <+: after → (w.follow part).now < expiry → ∀ id c,
    (w.follow part).contenders.get? id = some c → c.candidacy.Contends bucket key →
    c.standing = .leader → id = l ∧ ∃ r ∈ c.runs, r.phase.holdsLoop = true
  /-- If a contender competes at the instant at which the lease ends, exactly one of the others leads from
  a wait of this contender and a millisecond later on. -/
  succession : ∀ first m rest id limit, after = first ++ m :: rest → id ≠ l →
    Competes bucket key id limit (w.follow first) → (w.follow first).now ≤ expiry →
    expiry ≤ ((w.follow first).move m).now → ∀ part, part <+: rest →
    (expiry + limit + nanosPerMilli < (w.follow (first ++ m :: part)).now ∨
      expiry + limit + nanosPerMilli ≤ (w.follow (first ++ m :: part)).now ∧
        ∀ i, (w.follow (first ++ m :: part)).isReady (.run id i) = false) →
    ∃ x, x ≠ l ∧ SoleLeader bucket key x (w.follow (first ++ m :: part))
  /-- The contender of a publisher waits for three campaign intervals at most. -/
  patience : ∀ part, part <+: after → ∀ id p c, (w.follow part).publishers.get? id = some p →
    p.gated = true → (w.follow part).contenders.get? id = some c →
    c.candidacy.WaitsWithin (3 * c.candidacy.interval.nanos)

/-- What is known on the way after a leader is cancelled. -/
structure Underway (bucket key l : String) (expiry : Nat) (w : World) : Prop where
  exclusive : Exclusive bucket key w
  waits : w.Waits
  state : Orphaned bucket key l expiry w ∨ expiry ≤ w.now ∧ Succeeded bucket key l w

theorem underway_move (h : Underway bucket key l expiry w) (calm : Calm bucket key l w m) :
    Underway bucket key l expiry (w.move m) where
  exclusive := exclusive_move h.exclusive calm.atOnce.timely calm.respects
  waits := waits_move h.waits m
  state := by
    have hnow := now_le_move w m
    rcases h.state with orphaned | ⟨hend, succeeded⟩
    · rcases orphaned_move orphaned h.exclusive.ordered calm with orphaned' | ⟨hend, succeeded⟩
      · exact .inl orphaned'
      · exact .inr ⟨by omega, succeeded⟩
    · exact .inr ⟨by omega, succeeded_move succeeded h.exclusive calm⟩

theorem succession_of_underway {first rest part : List Move} {id : String} {limit : Nat}
    (h : Underway bucket key l expiry w)
    (calm : w.Through (Calm bucket key l) (first ++ m :: rest))
    (atOnce : w.Along (AtOnce bucket key) (first ++ m :: rest)) (hne : id ≠ l)
    (competes : Competes bucket key id limit (w.follow first))
    (hbefore : (w.follow first).now ≤ expiry) (hafter : expiry ≤ ((w.follow first).move m).now)
    (hpart : part <+: rest)
    (late : expiry + limit + nanosPerMilli < (w.follow (first ++ m :: part)).now ∨
      expiry + limit + nanosPerMilli ≤ (w.follow (first ++ m :: part)).now ∧
        ∀ i, (w.follow (first ++ m :: part)).isReady (.run id i) = false) :
    ∃ x, x ≠ l ∧ SoleLeader bucket key x (w.follow (first ++ m :: part)) := by
  obtain ⟨rest, rfl⟩ := hpart
  obtain ⟨calm₁, calm₂⟩ := through_append.1 calm
  have atOnce₂ := (along_append.1 atOnce).2
  have underway := through_induct calm₁ (I := Underway bucket key l expiry) h
    fun _ _ calm h => underway_move h calm
  rw [follow_append] at late ⊢
  generalize w.follow first = u at *
  have survives := competes.survives underway.exclusive.ordered underway.waits atOnce₂.head
  have pending := through_induct (through_append.1 calm₂.2).1
    (I := fun v => Exclusive bucket key v ∧ expiry ≤ v.now ∧
      Pending bucket key l id expiry (u.now + limit) v)
    ⟨exclusive_move underway.exclusive calm₂.1.atOnce.timely calm₂.1.respects, hafter,
      pending_of_expiry underway.state survives underway.exclusive calm₂.1 hne hafter⟩
    fun v m' calm ⟨exclusive, hend, pending⟩ =>
      ⟨exclusive_move exclusive calm.atOnce.timely calm.respects,
        Nat.le_trans hend (now_le_move v m'), pending_move pending exclusive calm hne hend⟩
  obtain ⟨exclusive, -, pending⟩ := pending
  have atOnce := (along_append.1 atOnce₂.2).1.last
  rw [follow_cons] at late ⊢
  generalize (u.move m).follow part = v at *
  obtain ⟨x, c, i, r, hx, reigns, hkey, -⟩ := pending.succeeded atOnce <| by
    rcases late with hlate | ⟨hlate, rest⟩
    · exact .inl (by omega)
    · exact .inr ⟨by omega, rest⟩
  exact ⟨x, hx, reigns.sole exclusive hkey⟩

/-- A leader is cancelled and not called again, calls are answered at once and waits end on time, and
otherwise nothing is cancelled or fails. Its lease ends after now and within its length. Until then
nobody else leads, and from the end of the wait of any contender that competes at that instant on
exactly one of the others does. -/
theorem failover (host : String) (wall : Int) (now : Nat) (bucket key : String)
    {before after : List Move} {w : World} {l : String} {c : Contender} {t revision : Nat}
    (hw : (fresh host wall now).follow before = w)
    (respects : ∀ m ∈ before ++ after, m.Respects bucket key)
    (atOnce : (fresh host wall now).Along (AtOnce bucket key) (before ++ after))
    (undisturbed : w.Through (Undisturbed bucket key l) after)
    (hc : w.contenders.get? l = some c) (hkey : c.candidacy.Contends bucket key)
    (led : c.standing = .leader) (last : w.lastWrite? l = some (t, revision)) :
    w.now < t + c.candidacy.ttl.nanos ∧
      t + c.candidacy.ttl.nanos ≤ w.now + c.candidacy.ttl.nanos ∧
      Failover bucket key l (t + c.candidacy.ttl.nanos) w after := by
  obtain ⟨atOnce₁, atOnce₂⟩ := along_append.1 atOnce
  have exclusive := along_induct atOnce₁ (I := Exclusive bucket key)
    (exclusive_fresh host wall now) fun v m hmem hv h =>
      exclusive_move h hv.timely (respects m (List.mem_append_left _ hmem))
  have waits : ((fresh host wall now).follow before).Waits := waits_follow host wall now before
  have written := written_le_now host wall now before (hw.symm ▸ hc) (hw.symm ▸ last)
  rw [hw] at exclusive waits written atOnce₂
  -- the entry of the leader is live, and ends with the lease of its last write
  obtain ⟨t', revision', row, last', hrow, hdeadline⟩ := exclusive.held hc hkey led
  obtain ⟨rfl, rfl⟩ := Prod.mk.inj (Option.some.inj (last.symm.trans last'))
  obtain ⟨row', hlive⟩ := exclusive.exists_liveRow? atOnce₂.head.timely hc hkey led
  obtain ⟨hrow', hnow⟩ := liveRow?_eq_some_iff.1 hlive
  obtain rfl := Option.some.inj (hrow.symm.trans hrow')
  have underway : Underway bucket key l (t + c.candidacy.ttl.nanos) w := by
    refine ⟨exclusive, waits, .inl ⟨⟨row, ?_, hdeadline⟩, fun hc' hkey' led' =>
      exclusive.unique _ _ _ _ hc' hc hkey' hkey led' led⟩⟩
    rw [← hkey.1, ← hkey.2]
    exact hrow
  have calm : w.Through (Calm bucket key l) after := by
    have all := ((through_of_forall fun m hmem => respects m (List.mem_append_right _ hmem)).and
      atOnce₂.through).and undisturbed
    exact all.imp fun v m ⟨⟨hm, hv, hv'⟩, dismissed, available, spares⟩ =>
      ⟨hm, hv, hv', dismissed, available, spares⟩
  refine ⟨hdeadline ▸ hnow, Nat.add_le_add_right written _,
    fun part hpart hbefore id c' hc' hkey' led' => ?_,
    fun first m rest id limit hafter => ?_, fun part hpart id p c' hp hgated hc' => ?_⟩
  · obtain ⟨rest, rfl⟩ := hpart
    have h := through_induct (through_append.1 calm).1
      (I := Underway bucket key l (t + c.candidacy.ttl.nanos)) underway
      fun _ _ calm h => underway_move h calm
    rcases h.state with orphaned | ⟨hend, -⟩
    · obtain ⟨i, r, work, holds⟩ := (h.exclusive.ordered hc').atWork_of_leader led'
      exact ⟨orphaned.alone hc' hkey' led', r, List.mem_of_getElem? work.run, holds⟩
    · omega
  · subst hafter
    intro hne competes hbefore hend part hpart late
    exact succession_of_underway underway calm atOnce₂ hne competes hbefore hend hpart late
  · subst hw
    rw [← follow_append] at hp hc'
    exact (commissioned_follow host wall now (before ++ part) hp hgated hc').2

/-- One contender wins the key, another one loses, and the first one is cancelled. -/
def resignation : List Move :=
  [.openPublisher "x" (.solo "45s") "r" "o" (some "b") {}, .startPublisher "x" false,
    .openPublisher "y" (.solo "45s") "r" "o" (some "b") {}, .startPublisher "y" false,
    .poll (.run "x" 0) 0, .poll (.run "y" 0) 0, .cancelPublisher "x"]

/-- The other contender loses once more, and then wins the key and renews it. -/
def handover : List Move :=
  [.poll (.run "x" 0) 0, .advance 10000000000, .poll (.run "y" 0) 0, .advance 20000000000,
    .poll (.run "y" 0) 0, .advance 10000000000, .poll (.run "y" 0) 0, .advance 10000000000,
    .poll (.run "y" 0) 0, .advance 10000000000, .poll (.run "y" 0) 0, .advance 2000000]

theorem failover_handover :
    Failover "b" "e.k" "x" 30000000000 ((fresh "h" 0 0).follow resignation) handover ∧
    ∃ id, id ≠ "x" ∧ SoleLeader "b" "e.k" id
      (((fresh "h" 0 0).follow resignation).follow handover) := by
  have hterms : (((fresh "h" 0 0).follow resignation).contenders.get? "x").map
      (fun c => (c.candidacy.bucket, c.candidacy.key, c.candidacy.ttl.nanos, c.standing)) =
        some ("b", "e.k", 30000000000, .leader) := by decide +kernel
  obtain ⟨c, hc, hterms⟩ := Option.map_eq_some_iff.1 hterms
  simp only [Prod.mk.injEq] at hterms
  obtain ⟨hbucket, hkey, httl, led⟩ := hterms
  obtain ⟨-, -, h⟩ := @failover "h" 0 0 "b" "e.k" resignation handover _ "x" c 0 1 rfl
    (by decide +kernel) (by decide +kernel) (by decide +kernel) hc ⟨hbucket, hkey⟩ led
    (by decide +kernel)
  rw [httl, Nat.zero_add] at h
  -- the other contender waits for its next campaign when the clock moves on to the end of the lease
  have hgated : ((((fresh "h" 0 0).follow resignation).follow (handover.take 3)).publishers.get?
      "y").map (·.gated) = some true := by decide +kernel
  have hrival : ((((fresh "h" 0 0).follow resignation).follow (handover.take 3)).contenders.get?
      "y").map (fun c => (c.candidacy.bucket, c.candidacy.key, c.candidacy.interval.nanos,
        c.runs.any fun r => r.phase.inLoop && !r.cancelled)) =
      some ("b", "e.k", 10000000000, true) := by decide +kernel
  obtain ⟨p, hp, hgated⟩ := Option.map_eq_some_iff.1 hgated
  obtain ⟨y, hy, hrival⟩ := Option.map_eq_some_iff.1 hrival
  simp only [Prod.mk.injEq, List.any_eq_true, Bool.and_eq_true, Bool.not_eq_true'] at hrival
  obtain ⟨hbucket', hkey', hinterval, r, hmem, inLoop, acting⟩ := hrival
  have patience := h.patience (handover.take 3) (List.take_prefix ..) "y" p y hp hgated hy
  rw [hinterval] at patience
  refine ⟨h, ?_⟩
  exact h.succession (handover.take 3) (.advance 20000000000) (handover.drop 4) "y"
    (3 * 10000000000) rfl (by decide) ⟨y, hy, ⟨hbucket', hkey'⟩, patience, r, hmem, inLoop, acting⟩
    (by decide +kernel) (by decide +kernel) (handover.drop 4) (List.prefix_refl _)
    (.inl (by decide +kernel))

end World

end Tenure
