import Tenure.Proofs.Election.Fencing
import Tenure.Proofs.Election.Punctuality
import Tenure.Proofs.Election.Terms

/-!
# Mutual exclusion

If timers and calls are on time, contenders with room for their renewals never lead together.

- **Premises** (`Move.Respects`, `Timely`): the terms of the contenders for a key are checked, nobody
  else touches the key, waits end on time, and calls act in less than a quarter of the lease.
- **Leases** (`exists_liveRow?`): the entry of a leader is live then, since the time of its last
  granted write bounds where it can stand.
- **Turns** (`Turn.keeps_live_entry`): a live entry keeps its deadline in a turn, unless a renewal
  replaces it.
- **Exclusion** (`Exclusive`, `leader_unique`): at most one contender for the key is leader.
-/

namespace Tenure

open Election Lease

namespace Election

/-- The key of a store is the one that is contended for. -/
def Candidacy.Contends (y : Candidacy) (bucket key : String) : Prop :=
  y.bucket = bucket ∧ y.key = key

instance (y : Candidacy) (bucket key : String) : Decidable (y.Contends bucket key) :=
  inferInstanceAs (Decidable (_ ∧ _))

/-- A live entry keeps its deadline in a turn, unless a renewal replaces it. -/
theorem Turn.keeps_live_entry {now delay draw : Nat} {c : Contender} {s : Store} {i : Nat}
    {o : Outcome} (t : Turn now delay draw c s i o) {row : Row}
    (hlive : s.live? now c.candidacy.key = some row) :
    (∃ revision revision', .answered (.renew revision) (.ok revision') ∈ o.notes) ∨
    ∃ row', o.store.rows.get? c.candidacy.key = some row' ∧ row'.deadline = row.deadline := by
  have kept : ∃ row', s.rows.get? c.candidacy.key = some row' ∧ row'.deadline = row.deadline :=
    ⟨row, (Store.live?_eq_some_iff.1 hlive).1, rfl⟩
  cases t with
  | still | refused | left | asks | idles => exact .inr kept
  | @acts d r q u a e _ _ _ performs ends =>
    rw [e.candidacy] at performs
    cases a with
    | error err =>
      have hu : u = s := perform_refused performs fun h => ends (by rw [h])
      subst hu
      exact .inr kept
    | ok revision' =>
      obtain ⟨grants, -, -⟩ := perform_ok performs
      cases q with
      | acquire => cases hlive.symm.trans grants
      | renew revision =>
        exact .inl ⟨revision, _, List.mem_append_right _ (List.mem_cons_self ..)⟩
  | @breaks d r q u e _ _ _ performs =>
    rw [e.candidacy] at performs
    obtain ⟨grants, rfl⟩ := perform_broken performs
    cases q with
    | acquire => cases hlive.symm.trans grants
    | renew revision =>
      refine .inr ⟨{ rowOf s now c.candidacy with deadline := row.deadline }, ?_, rfl⟩
      simp only [spoilt, hlive, Store.get?_rows_put, if_pos]

end Election

/-- The move leaves a key to contenders whose terms are checked. -/
def Move.Respects (bucket key : String) : Move → Prop
  | .openContender _ o =>
    o.bucket? = some bucket → storageKey o.name o.key = key → o.relaxations.anyTiming = false
  | .openPublisher _ c _ _ bucket? relaxations =>
    bucket? = some bucket → storageKey c.election.name c.election.key = key →
      relaxations.anyTiming = false
  | m => ¬ m.Touches bucket key

instance (bucket key : String) : (m : Move) → Decidable (m.Respects bucket key)
  | .openContender .. | .openPublisher .. => inferInstanceAs (Decidable (_ → _ → _))
  | .callRun .. | .cancelRun .. | .cancelContender .. | .startPublisher .. | .cancelPublisher ..
  | .stopPublisherAt .. | .look .. | .poll .. | .advance .. | .setWall .. | .create .. | .update ..
  | .expire .. | .setAvailable .. | .setStoreDelay .. | .publish .. | .setFailing ..
  | .setOutboxDelay .. | .readMetric .. => inferInstanceAs (Decidable (¬ _))

namespace World

/-- A call on the store that has not been answered was made by the contender less than a quarter of
its lease, less two milliseconds, ago. -/
def InTime (id : String) (w : World) : Prop :=
  ∀ c ∈ w.contenders.get? id, ∀ r ∈ c.runs, r.phase.isOutstanding = true →
    ∀ asked ∈ w.unanswered? id,
      4 * w.now + 8 * nanosPerMilli < 4 * asked + c.candidacy.ttl.nanos

instance (id : String) : DecidablePred (InTime id) := fun w => by
  unfold InTime
  infer_instance

/-- Waits and calls of the contenders for a key are on time. -/
def Timely (bucket key : String) (w : World) : Prop :=
  ∀ e ∈ w.contenders.toList, e.2.candidacy.Contends bucket key → w.OnTime e.1 ∧ w.InTime e.1

instance (bucket key : String) : DecidablePred (Timely bucket key) := fun w => by
  unfold Timely
  infer_instance

section

variable {bucket key : String} {w : World} {m : Move}

theorem Timely.of_contends (h : w.Timely bucket key) {id : String} {c : Contender}
    (hc : w.contenders.get? id = some c) (hkey : c.candidacy.Contends bucket key) :
    w.OnTime id ∧ w.InTime id :=
  h (id, c) ((w.contenders.mem_toList_iff id c).2 hc) hkey

/-- A contender whose terms were checked has room for its renewal. -/
theorem Enrols.roomy {id : String} {y : Candidacy} (h : Enrols w m id y)
    (hm : m.Respects bucket key) (hkey : y.Contends bucket key) : Roomy y.ttl y.interval := by
  obtain ⟨hb, hk⟩ := hkey
  cases h with
  | contender accepted =>
    obtain ⟨hbucket, hstorage, -, -, -, hroom⟩ := Candidacy.ofOptions_ok accepted
    exact hroom (hm (hb ▸ hbucket) (hstorage.symm.trans hk))
  | publisher accepted =>
    obtain ⟨-, o, ho, hy⟩ := Publisher.exists_options accepted
    obtain ⟨hname, hkey, hob, -, hrel, -⟩ := Publisher.optionsOf_ok ho
    obtain ⟨hbucket, hstorage, -, -, -, hroom⟩ := Candidacy.ofOptions_ok hy
    rw [hob, hb] at hbucket
    rw [hname, hkey, hk] at hstorage
    exact hroom (hrel ▸ hm hbucket hstorage.symm)

/-- At most one contender for the key is leader. -/
def AtMostOneLeader (bucket key : String) (w : World) : Prop :=
  ∀ id id' c c', w.contenders.get? id = some c → w.contenders.get? id' = some c' →
    c.candidacy.Contends bucket key → c'.candidacy.Contends bucket key →
    c.standing = .leader → c'.standing = .leader → id = id'

/-- What holds of the contenders for a key as long as everybody is on time. -/
structure Exclusive (bucket key : String) (w : World) : Prop where
  ordered : w.Ordered
  roomy : ∀ {id c}, w.contenders.get? id = some c → c.candidacy.Contends bucket key →
    Roomy c.candidacy.ttl c.candidacy.interval
  punctual : ∀ {id c}, w.contenders.get? id = some c → c.candidacy.Contends bucket key →
    w.Punctual id c
  held : ∀ {id c}, w.contenders.get? id = some c → c.candidacy.Contends bucket key →
    c.standing = .leader → ∃ t revision row, w.lastWrite? id = some (t, revision) ∧
      w.row? c.candidacy = some row ∧ row.deadline = t + c.candidacy.ttl.nanos
  unique : w.AtMostOneLeader bucket key

/-- The entry of a leader is live as long as everybody is on time. -/
theorem Exclusive.exists_liveRow? (h : Exclusive bucket key w) (timely : w.Timely bucket key)
    {id : String} {c : Contender} (hc : w.contenders.get? id = some c)
    (hkey : c.candidacy.Contends bucket key) (hlead : c.standing = .leader) :
    ∃ row, w.liveRow? c.candidacy = some row := by
  obtain ⟨t, revision, row, last, hrow, hdeadline⟩ := h.held hc hkey hlead
  refine ⟨row, liveRow?_eq_some_iff.2 ⟨hrow, ?_⟩⟩
  obtain ⟨i, r, t', revision', work, holds, last', hprompt⟩ := h.punctual hc hkey hlead
  obtain ⟨rfl, rfl⟩ := Prod.mk.inj (Option.some.inj (last.symm.trans last'))
  obtain ⟨hleast, hroom⟩ := h.roomy hc hkey
  obtain ⟨ontime, intime⟩ := timely.of_contends hc hkey
  have hmilli : 30000 * nanosPerMilli ≤ c.candidacy.ttl.nanos := hleast
  simp only [nanosPerMilli] at hmilli
  -- a renewal that has not been answered was made a millisecond after the interval at most
  have answerable (hout : r.phase.isOutstanding = true) (hp : ∃ asked,
      w.unanswered? id = some asked ∧ asked ≤ t + c.candidacy.interval.nanos + nanosPerMilli) :
      w.now < row.deadline := by
    obtain ⟨asked, hasked, hle⟩ := hp
    have := intime c hc r (List.mem_of_getElem? work.run) hout asked hasked
    simp only [nanosPerMilli] at this hle
    omega
  cases phase : r.phase with
  | waiting due =>
    rw [phase] at hprompt
    have hdue : due ≤ t + c.candidacy.interval.nanos := hprompt
    have := ontime.le hc work phase
    simp only [nanosPerMilli] at this
    omega
  | calling q asked due =>
    rw [phase] at hprompt
    exact answerable (by rw [phase]; rfl) hprompt
  | broken =>
    rw [phase] at hprompt
    exact answerable (by rw [phase]; rfl) hprompt
  | _ => exact absurd holds (by simp [phase, Phase.holdsLoop])

theorem roomy_move (h : Exclusive bucket key w) (hm : m.Respects bucket key) {id : String}
    {c' : Contender} (hc' : (w.move m).contenders.get? id = some c')
    (hkey : c'.candidacy.Contends bucket key) :
    Roomy c'.candidacy.ttl c'.candidacy.interval := by
  cases became hc' with
  | opened enrols _ new _ =>
    subst new
    exact enrols.roomy hm hkey
  | aside was aside _ =>
    rw [aside.candidacy] at hkey ⊢
    exact h.roomy was hkey
  | turn _ was turn _ after =>
    rw [after, turn.candidacy] at hkey ⊢
    exact h.roomy was hkey

/-- A renewal is the call of a leader. -/
theorem Records.standing_of_renew (hw : w.Ordered) {id : String} {revision : Nat} {a : Answer}
    (h : w.Records m (.contender id) (.noted (.answered (.renew revision) a))) :
    ∃ c, w.contenders.get? id = some c ∧ c.standing = .leader := by
  obtain ⟨c, i, draw, o, poll, was, turn, effect, hn⟩ := h.turn
  obtain ⟨d, r, e, call, -, -⟩ := turn.acted hn
  refine ⟨c, was, ?_⟩
  rw [Run.call?_eq (e.atWork (hw was)).2, e.standing] at call
  cases hs : c.standing with
  | leader => rfl
  | candidate =>
    rw [hs] at call
    exact nomatch call

/-- Nobody is granted a write while another contender leads on time. -/
theorem Exclusive.eq_of_granted (h : Exclusive bucket key w) (timely : w.Timely bucket key)
    {id id' : String} {c c' : Contender} (hc : w.contenders.get? id = some c)
    (hkey : c.candidacy.Contends bucket key) (hlead : c.standing = .leader)
    (hc' : w.contenders.get? id' = some c') (hkey' : c'.candidacy.Contends bucket key)
    {q : Request} {revision : Nat}
    (hrec : w.Records m (.contender id') (.noted (.answered q (.ok revision)))) : id' = id := by
  cases q with
  | acquire =>
    obtain ⟨row, hlive⟩ := h.exists_liveRow? timely hc hkey hlead
    obtain ⟨c₀, i, draw, -, hc₀, grants, -⟩ := hrec.taken
    obtain rfl := Option.some.inj (hc'.symm.trans hc₀)
    rw [liveRow?, hkey.1, hkey.2] at hlive
    simp only [Grants, hkey'.1, hkey'.2] at grants
    exact nomatch hlive.symm.trans grants
  | renew renewed =>
    obtain ⟨c₀, hc₀, hlead'⟩ := hrec.standing_of_renew h.ordered
    obtain rfl := Option.some.inj (hc'.symm.trans hc₀)
    exact h.unique _ _ _ _ hc' hc hkey' hkey hlead' hlead

/-- A leader after a move was leader before it, or was granted a write in it. -/
theorem Leads.led_or_wrote {id : String} {c' : Contender} (h : Leads w m id c') :
    (∃ c, w.contenders.get? id = some c ∧ c.standing = .leader ∧
      (w.move m).answers id = w.answers id) ∨
    ∃ q revision, w.Records m (.contender id) (.noted (.answered q (.ok revision))) ∧
      (w.move m).answers id = (w.now, q, .ok revision) :: w.answers id := by
  cases h with
  | keeps was led _ _ _ answers _ => exact .inl ⟨_, was, led, answers⟩
  | wrote _ _ _ _ records answers => exact .inr ⟨_, _, records, answers⟩
  | asks was led _ _ _ answers _ => exact .inl ⟨_, was, led, answers⟩
  | breaks was led _ _ _ answers _ => exact .inl ⟨_, was, led, answers⟩

theorem atMostOneLeader_move (h : Exclusive bucket key w) (timely : w.Timely bucket key) :
    (w.move m).AtMostOneLeader bucket key := by
  intro id id' c c' hc hc' hkey hkey' hlead hlead'
  rcases (leads h.ordered hc hlead).led_or_wrote with ⟨b, was, led, -⟩ | ⟨q, revision, hrec, -⟩ <;>
    rcases (leads h.ordered hc' hlead').led_or_wrote with
      ⟨b', was', led', -⟩ | ⟨q', revision', hrec', -⟩
  · rw [candidacy_move was hc] at hkey
    rw [candidacy_move was' hc'] at hkey'
    exact h.unique _ _ _ _ was was' hkey hkey' led led'
  · obtain ⟨b', _, _, -, was', -⟩ := hrec'.taken
    rw [candidacy_move was hc] at hkey
    rw [candidacy_move was' hc'] at hkey'
    exact (h.eq_of_granted timely was hkey led was' hkey' hrec').symm
  · obtain ⟨b, _, _, -, was, -⟩ := hrec.taken
    rw [candidacy_move was hc] at hkey
    rw [candidacy_move was' hc'] at hkey'
    exact h.eq_of_granted timely was' hkey' led' was hkey hrec
  · obtain ⟨_, _, _, hm, -⟩ := hrec.taken
    obtain ⟨_, _, _, hm', -⟩ := hrec'.taken
    cases hm.symm.trans hm'
    rfl

/-- The entry of a leader keeps its deadline in a move in which nobody is granted a write. -/
theorem row?_move (h : Exclusive bucket key w) (timely : w.Timely bucket key)
    (hm : m.Respects bucket key) {id : String} {c : Contender}
    (hc : w.contenders.get? id = some c) (hkey : c.candidacy.Contends bucket key)
    (hlead : c.standing = .leader) {row : Row} (hrow : w.row? c.candidacy = some row)
    (answers : (w.move m).answers id = w.answers id) :
    ∃ row', (w.move m).row? c.candidacy = some row' ∧ row'.deadline = row.deadline := by
  obtain ⟨hb, hk⟩ := hkey
  rcases get?_rows_move w m c.candidacy.bucket c.candidacy.key with
    hsame | htouch | ⟨id₁, c₁, i, draw, poll, hc₁, hb₁, hk₁⟩
  · exact ⟨row, hsame.trans hrow, rfl⟩
  · rw [hb, hk] at htouch
    cases m <;> first | exact absurd htouch hm | exact htouch.elim
  · obtain ⟨row', hlive⟩ := h.exists_liveRow? timely hc ⟨hb, hk⟩ hlead
    obtain rfl : row' = row :=
      Option.some.inj ((liveRow?_eq_some_iff.1 hlive).1.symm.trans hrow)
    obtain ⟨o, turn, effect⟩ := pollRun_effect hc₁ i draw
    have effect : Effect w id₁ c₁.candidacy o (w.move m) := poll ▸ effect
    have hlive₁ : (w.bucket c₁.candidacy.bucket).store.live? w.now c₁.candidacy.key = some row' := by
      rw [hb₁, hk₁]
      exact hlive
    rcases turn.keeps_live_entry hlive₁ with ⟨revision, revision', hn⟩ | ⟨row₁, hrow₁, hdeadline⟩
    · -- a renewal would be the leader's own, and the record would tell of it
      obtain rfl := h.eq_of_granted timely hc ⟨hb, hk⟩ hlead hc₁ ⟨hb₁.trans hb, hk₁.trans hk⟩
        (effect.records hn)
      rcases effect.answers_cases turn with ⟨mute, -⟩ | ⟨q, a, -, hcons⟩
      · exact nomatch mute _ hn
      · exact absurd (hcons.symm.trans answers) (List.cons_ne_self _ _)
    · refine ⟨row₁, ?_, hdeadline⟩
      rw [row?, effect.bucket, if_pos hb₁, ← hk₁]
      exact hrow₁

theorem held_move (h : Exclusive bucket key w) (timely : w.Timely bucket key)
    (hm : m.Respects bucket key) {id : String} {c' : Contender}
    (hc' : (w.move m).contenders.get? id = some c') (hkey : c'.candidacy.Contends bucket key)
    (hlead : c'.standing = .leader) :
    ∃ t revision row, (w.move m).lastWrite? id = some (t, revision) ∧
      (w.move m).row? c'.candidacy = some row ∧ row.deadline = t + c'.candidacy.ttl.nanos := by
  rcases (leads h.ordered hc' hlead).led_or_wrote with
    ⟨c, was, led, answers⟩ | ⟨q, revision, hrec, answers⟩
  · rw [candidacy_move was hc'] at hkey ⊢
    obtain ⟨t, revision, row, last, hrow, hdeadline⟩ := h.held was hkey led
    obtain ⟨row', hrow', hsame⟩ := row?_move h timely hm was hkey led hrow answers
    exact ⟨t, revision, row', (lastWrite?_congr answers).trans last, hrow', hsame.trans hdeadline⟩
  · obtain ⟨c, i, draw, -, was, -, hrev, hstore⟩ := hrec.taken
    rw [candidacy_move was hc']
    refine ⟨w.now, revision, rowOf (w.bucket c.candidacy.bucket).store w.now c.candidacy,
      lastWrite?_of_ok answers, ?_, rfl⟩
    rw [row?, hstore, Store.get?_rows_put, if_pos rfl]

theorem exclusive_move (h : Exclusive bucket key w) (timely : w.Timely bucket key)
    (hm : m.Respects bucket key) : Exclusive bucket key (w.move m) where
  ordered := ordered_move h.ordered m
  roomy := roomy_move h hm
  punctual {id c'} hc' hkey hlead := by
    rcases (leads h.ordered hc' hlead).led_or_wrote with ⟨c, was, -⟩ | ⟨q, revision, hrec, -⟩
    · have hkey₀ := candidacy_move was hc' ▸ hkey
      exact punctual_move h.ordered (timely.of_contends was hkey₀).1
        (fun hc => by cases was.symm.trans hc; exact h.punctual was hkey₀) hc' hlead
    · obtain ⟨c, _, _, -, was, -⟩ := hrec.taken
      have hkey₀ := candidacy_move was hc' ▸ hkey
      exact punctual_move h.ordered (timely.of_contends was hkey₀).1
        (fun hc => by cases was.symm.trans hc; exact h.punctual was hkey₀) hc' hlead
  held := held_move h timely hm
  unique := atMostOneLeader_move h timely

end

/-- On a course on which everybody is on time and nobody else touches the key, at most one contender
for it is leader at any time. -/
theorem leader_unique (host : String) (wall : Int) (now : Nat) (bucket key : String)
    (course : List Move) (respects : ∀ m ∈ course, m.Respects bucket key)
    (timely : (fresh host wall now).Along (Timely bucket key) course) :
    AtMostOneLeader bucket key ((fresh host wall now).follow course) := by
  have h := along_induct timely (I := Exclusive bucket key)
    ⟨fun h => by simp at h, fun h => by simp at h, fun h => by simp at h, fun h => by simp at h,
      fun _ _ _ _ h => by simp at h⟩
    fun v m hmem hv h => exclusive_move h hv (respects m hmem)
  exact h.unique

/-- One contender wins the key, another one loses, and the first one renews with a delay. -/
def relay : List Move :=
  [.openPublisher "x" (.solo "45s") "r" "o" (some "b") {}, .startPublisher "x" false,
    .openPublisher "y" (.solo "45s") "r" "o" (some "b") {}, .startPublisher "y" false,
    .poll (.run "x" 0) 0, .poll (.run "y" 0) 0, .setStoreDelay "b" 2000000000,
    .advance 10000000000, .poll (.run "y" 0) 0, .poll (.run "x" 0) 0, .advance 2000000000,
    .poll (.run "y" 0) 0, .poll (.run "x" 0) 0]

theorem leader_unique_relay :
    (((fresh "h" 0 0).follow relay).contenders.get? "x").map (·.standing) = some .leader ∧
    ((fresh "h" 0 0).follow relay).now = 12000000000 ∧
    AtMostOneLeader "b" "e.k" ((fresh "h" 0 0).follow relay) :=
  ⟨by decide +kernel, by decide +kernel,
    leader_unique "h" 0 0 "b" "e.k" relay (by decide +kernel) (by decide +kernel)⟩

end World

end Tenure
