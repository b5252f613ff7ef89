import Tenure.Proofs.Election.Order
import Tenure.World.Course

/-!
# What a turn of `run` does to a world

- **Effects** (`Effect`): a part of the world's behaviour that concerns one contender, its store,
  its notes, and the gate that hears of them. Everything else stays as it is. The lemmas after it
  extend an effect by one more step.
- **Gauges** (`Candidacy.display`, `Shown`): what becomes of the metrics. A finished campaign shows the
  standing after it, and a cancelled call of `run` that leaves the loop shows that of a candidate.
- **Turns** (`pollRun_shown`, `pollRun_effect`): what a turn of a call of `run` does is the effect of a
  `Turn`, and the metrics show it.
-/

namespace Tenure

open Election Lease

/-- What the gate of a publisher makes of a note: a win opens it and a loss closes it. -/
def Publisher.hear (p : Publisher) : Note → Publisher
  | .won _ => { p with paused := false }
  | .lost _ => { p with paused := true }
  | _ => p

/-- What the gate makes of several notes. -/
def Publisher.hearAll (p : Publisher) (notes : List Note) : Publisher := notes.foldl .hear p

@[simp] theorem Publisher.hearAll_nil (p : Publisher) : p.hearAll [] = p := rfl

@[simp] theorem Publisher.hearAll_cons (p : Publisher) (n : Note) (notes : List Note) :
    p.hearAll (n :: notes) = (p.hear n).hearAll notes := rfl

theorem Publisher.hearAll_append (p : Publisher) (notes notes' : List Note) :
    p.hearAll (notes ++ notes') = (p.hearAll notes).hearAll notes' := List.foldl_append

theorem Publisher.hear_eq (p : Publisher) (n : Note) :
    ∃ paused, p.hear n = { p with paused := paused } := by
  cases n <;> exact ⟨_, rfl⟩

theorem Publisher.hearAll_eq (p : Publisher) (notes : List Note) :
    ∃ paused, p.hearAll notes = { p with paused := paused } := by
  induction notes generalizing p with
  | nil => exact ⟨p.paused, rfl⟩
  | cons n notes ih =>
    obtain ⟨paused, h⟩ := p.hear_eq n
    obtain ⟨paused', h'⟩ := ih (p.hear n)
    exact ⟨paused', by rw [Publisher.hearAll_cons, h', h]⟩

namespace World

@[simp] theorem get?_contenders_modify (w : World) (id id' : String) (f : Contender → Contender) :
    (w.modifyContender id f).contenders.get? id' =
      if id = id' then (w.contenders.get? id').map f else w.contenders.get? id' :=
  Table.get?_modify ..

@[simp] theorem get?_publishers_modify (w : World) (id id' : String) (f : Publisher → Publisher) :
    (w.modifyPublisher id f).publishers.get? id' =
      if id = id' then (w.publishers.get? id').map f else w.publishers.get? id' :=
  Table.get?_modify ..

theorem bucket_setStore (w : World) (name b : String) (s : Store) :
    (w.setStore name s).bucket b =
      if name = b then { w.bucket b with store := s } else w.bucket b := by
  simp only [bucket, setStore, Table.getD, Table.get?_insert]
  split
  · subst b; rfl
  · rfl

theorem bucket_congr {v w : World} (h : v.buckets = w.buckets) : v.bucket = w.bucket := by
  funext b
  rw [bucket, bucket, h]

/-- Hearing of a note changes the publisher of the contender, if it is gated, and metrics. -/
theorem hear_eq (w : World) (y : Candidacy) (id : String) (n : Note) :
    ∃ publishers metrics,
      hear y id w n = { w.note id n with publishers := publishers, metrics := metrics } ∧
      ∀ id', publishers.get? id' = if id = id' ∧ y.audience = .gate
        then (w.publishers.get? id').map (·.hear n) else w.publishers.get? id' := by
  by_cases hg : y.audience = .gate
  · simp only [hear, hg, and_true, hearAtGate]
    cases hp : (w.note id n).publishers.get? id with
    | none =>
      refine ⟨_, _, rfl, fun id' => ?_⟩
      split
      · rename_i h
        have hp : w.publishers.get? id = none := hp
        rw [← h, hp, Option.map_none]
      · rfl
    | some p =>
      have still : ∀ id', w.publishers.get? id' = if id = id'
          then (w.publishers.get? id').map (fun p => p) else w.publishers.get? id' := by simp
      cases n with
      | won => exact ⟨_, _, rfl, fun id' => get?_publishers_modify ..⟩
      | lost => exact ⟨_, _, rfl, fun id' => get?_publishers_modify ..⟩
      | _ => exact ⟨_, _, rfl, still⟩
  · simp only [hear, hg, and_false, if_false]
    exact ⟨_, _, rfl, fun _ => rfl⟩

/-! ## Effects -/

/-- A contender `id` with the terms `y` has come to `o`, and the world to `v`. -/
structure Effect (w : World) (id : String) (y : Candidacy) (o : Outcome) (v : World) : Prop where
  now : v.now = w.now
  outboxes : v.outboxes = w.outboxes
  contenders : ∀ id', v.contenders.get? id' =
    if id = id' then some o.contender else w.contenders.get? id'
  bucket : ∀ b, v.bucket b =
    if y.bucket = b then { w.bucket b with store := o.store } else w.bucket b
  publishers : ∀ id', v.publishers.get? id' =
    if id = id' ∧ y.audience = .gate then (w.publishers.get? id').map (·.hearAll o.notes)
    else w.publishers.get? id'
  history : v.history =
    (o.notes.map fun n => ⟨w.now, .contender id, .noted n⟩).reverse ++ w.history

namespace Effect

variable {w v : World} {id : String} {y : Candidacy} {o : Outcome}

theorem refl {c : Contender} (hc : w.contenders.get? id = some c) :
    Effect w id y ⟨c, (w.bucket y.bucket).store, []⟩ w where
  now := rfl
  outboxes := rfl
  contenders id' := by
    split
    · rename_i h
      rw [← h, hc]
    · rfl
  bucket b := by
    split
    · rename_i h
      rw [← h]
    · rfl
  publishers id' := by simp
  history := rfl

/-- The metrics do not matter. -/
theorem modifyMetrics (h : Effect w id y o v) (f : Metrics.Registry → Metrics.Registry) :
    Effect w id y o (v.modifyMetrics f) :=
  ⟨h.now, h.outboxes, h.contenders, h.bucket, h.publishers, h.history⟩

theorem modifyContender (h : Effect w id y o v) (f : Contender → Contender) :
    Effect w id y { o with contender := f o.contender } (v.modifyContender id f) where
  now := h.now
  outboxes := h.outboxes
  contenders id' := by
    rw [get?_contenders_modify, h.contenders]
    by_cases hid : id = id' <;> simp [hid]
  bucket := h.bucket
  publishers := h.publishers
  history := h.history

theorem setStore (h : Effect w id y o v) (s : Store) :
    Effect w id y { o with store := s } (v.setStore y.bucket s) where
  now := h.now
  outboxes := h.outboxes
  contenders := h.contenders
  bucket b := by
    rw [bucket_setStore, h.bucket]
    split <;> rfl
  publishers := h.publishers
  history := h.history

theorem hear (h : Effect w id y o v) (n : Note) :
    Effect w id y { o with notes := o.notes ++ [n] } (World.hear y id v n) := by
  obtain ⟨publishers, metrics, heq, hget⟩ := hear_eq v y id n
  rw [heq]
  refine ⟨h.now, h.outboxes, h.contenders, h.bucket, fun id' => ?_, ?_⟩
  · show publishers.get? id' = _
    rw [hget, h.publishers]
    split
    · rw [Option.map_map]
      congr 1
      funext p
      simp [Publisher.hearAll_append]
    · rfl
  · simp [World.note, record, h.history, h.now]

theorem hearAll (h : Effect w id y o v) (notes : List Note) :
    Effect w id y { o with notes := o.notes ++ notes } (notes.foldl (World.hear y id) v) := by
  induction notes generalizing o v with
  | nil => simpa using h
  | cons n notes ih => simpa using ih (h.hear n)

/-- A note of which the gate makes nothing need not be heard. -/
theorem note (h : Effect w id y o v) {n : Note} (hn : ∀ p : Publisher, p.hear n = p) :
    Effect w id y { o with notes := o.notes ++ [n] } (v.note id n) where
  now := h.now
  outboxes := h.outboxes
  contenders := h.contenders
  bucket := h.bucket
  publishers id' := by
    rw [show (v.note id n).publishers = v.publishers from rfl, h.publishers id']
    simp [Publisher.hearAll_append, hn]
  history := by
    simp [World.note, record, h.history, h.now]

theorem beginWait (h : Effect w id y o v) (i : Nat) (interval : Duration) (wait : Wait)
    (draw : Nat) :
    Effect w id y { o with
        contender := o.contender.setPhase i (wait.phase w.now interval draw)
        notes := o.notes ++ wait.notes draw } (v.beginWait id i interval wait draw) := by
  cases wait with
  | plain =>
    have := h.modifyContender (·.setPhase i (.waiting (Clock.wake v.now interval.nanos)))
    rw [h.now] at this
    simpa [World.beginWait, Wait.phase, Wait.notes, h.now] using this
  | backoff strategy failures =>
    simp only [World.beginWait, Wait.phase, Wait.notes]
    cases strategy.next failures draw with
    | ok d =>
      have := (h.note fun p => rfl : Effect w id y _ (v.note id (.backedOff failures d)))
      have := this.modifyContender (·.setPhase i (.waiting (Clock.wake v.now d.nanos)))
      rw [h.now] at this
      simpa [h.now] using this
    | error e =>
      simpa using h.modifyContender (·.setPhase i .broken)

theorem concludeRun {c : Contender} {r : Run} (h : Effect w id y o v) (i : Nat)
    (answer? : Option Answer) (draw : Nat) (hy : o.contender.candidacy = y)
    (hc : c.candidacy = y) (hs : c.standing = o.contender.standing) :
    Effect w id y ⟨o.contender.concluded i (o.contender.conclusion r answer?) w.now draw, o.store,
      o.notes ++ ((o.contender.conclusion r answer?).notes ++
        (o.contender.conclusion r answer?).wait.notes draw)⟩
      (v.concludeRun id i c r answer? draw) := by
  have he : conclude c.candidacy.backoff? c.standing r.ledger answer? =
      o.contender.conclusion r answer? := by rw [Contender.conclusion, hc, hs, hy]
  simp only [World.concludeRun, he]
  generalize o.contender.conclusion r answer? = e
  have := ((h.modifyContender (·.settle i e)).hearAll e.notes).modifyMetrics fun m =>
    (m.increment (.campaigns y.replicator y.name e.standing)).setFlag (.leader y.replicator y.name)
      e.standing.isLeader
  have := this.beginWait i y.interval e.wait draw
  rw [hc]
  simpa [Contender.concluded, hy, countCampaign] using this

end Effect

/-! ## Gauges -/

end World

/-- What the gate of a publisher shows of a campaign: a change of the standing, and the subjects. -/
def Publisher.display (p : Publisher) (before after : Standing) (m : Metrics.Registry) :
    Metrics.Registry :=
  p.subjects.foldl (fun m s => m.setFlag (.subjectActive p.replicator s) after.isLeader)
    (if before = after then m else m.setFlag (.paused p.replicator) !after.isLeader)

/-- What a campaign shows, also at the gate that hears of it if there is one. -/
def Election.Candidacy.display (y : Candidacy) (gate? : Option Publisher) (before after : Standing)
    (m : Metrics.Registry) : Metrics.Registry :=
  ((gate?.elim m (·.display before after m)).increment
    (.campaigns y.replicator y.name after)).setFlag (.leader y.replicator y.name) after.isLeader

/-- What the metrics show after a turn of the `i`-th call of `run`. -/
inductive Election.Shown (gate? : Option Publisher) (c : Contender) (i : Nat) (o : Outcome)
    (m : Metrics.Registry) : Metrics.Registry → Prop
  /-- The standing is as it was. -/
  | still (standing : o.contender.standing = c.standing) : Shown gate? c i o m m
  /-- The call was cancelled. -/
  | left {r : Run} (run : c.runs[i]? = some r) (cancelled : r.cancelled = true)
      (standing : o.contender.standing = .candidate) :
      Shown gate? c i o m (m.setFlag (.leader c.candidacy.replicator c.candidacy.name) false)
  /-- A campaign has ended. -/
  | concluded {r : Run} (run : c.runs[i]? = some r) (cancelled : r.cancelled = false) :
      Shown gate? c i o m (c.candidacy.display gate? c.standing o.contender.standing m)

namespace World

/-- The publisher whose gate hears of the campaigns of a contender. -/
def gate? (w : World) (id : String) (y : Candidacy) : Option Publisher :=
  if y.audience = .gate then w.publishers.get? id else none

@[simp] theorem metrics_modifyPublisher (w : World) (id : String) (f : Publisher → Publisher) :
    (w.modifyPublisher id f).metrics = w.metrics := rfl

theorem metrics_beginWait (w : World) (id : String) (i : Nat) (interval : Duration) (wait : Wait)
    (draw : Nat) : (w.beginWait id i interval wait draw).metrics = w.metrics := by
  cases wait with
  | plain => rfl
  | backoff strategy failures =>
    simp only [beginWait]
    cases strategy.next failures draw <;> rfl

/-- What a contender hears at the end of a campaign shows at its gate. -/
theorem metrics_hearAll (w : World) (id : String) (y : Candidacy) (hasBackoff : Bool) (tick : Nat)
    (before after : Standing) :
    ((notesOf hasBackoff tick before after).foldl (hear y id) w).metrics =
      (w.gate? id y).elim w.metrics (·.display before after w.metrics) := by
  by_cases hg : y.audience = .gate
  · rw [gate?, if_pos hg]
    cases hp : w.publishers.get? id with
    | none =>
      cases hasBackoff <;> cases before <;> cases after <;>
        simp [notesOf, hear, hg, hearAtGate, note, record, hp]
    | some p =>
      cases hasBackoff <;> cases before <;> cases after <;>
        simp [notesOf, hear, hg, hearAtGate, note, record, hp, modifyMetrics, Publisher.display,
          Publisher.subjects, Standing.isLeader]
  · rw [gate?, if_neg hg]
    cases hasBackoff <;> cases before <;> cases after <;>
      simp [notesOf, hear, hg, note, record]

theorem metrics_concludeRun (w : World) (id : String) (i : Nat) (c : Contender) (r : Run)
    (answer? : Option Answer) (draw : Nat) :
    (w.concludeRun id i c r answer? draw).metrics =
      c.candidacy.display (w.gate? id c.candidacy) c.standing (standingAfter answer?) w.metrics := by
  simp only [World.concludeRun, metrics_beginWait, countCampaign, World.modifyMetrics, conclude,
    metrics_hearAll]
  rfl

/-! ## Turns -/

section Turns

variable {w u : World} {id : String} {c d : Contender} {i : Nat} {r : Run}

theorem leaveRun_shown (engages : Engages c i d r) (cancelled : r.cancelled = true) (draw : Nat)
    (h : Effect w id c.candidacy ⟨d, (w.bucket c.candidacy.bucket).store, []⟩ u)
    (metrics : u.metrics = w.metrics) :
    ∃ o, Turn w.now (w.bucket c.candidacy.bucket).delay draw c
        (w.bucket c.candidacy.bucket).store i o ∧
      Effect w id c.candidacy o (u.leaveRun id i c.candidacy) ∧
      Shown (w.gate? id c.candidacy) c i o w.metrics (u.leaveRun id i c.candidacy).metrics := by
  obtain ⟨r₀, hr₀, hsame, -⟩ := engages.exists_run engages.run
  refine ⟨_, .left engages cancelled, (h.modifyContender (·.leave i)).modifyMetrics _, ?_⟩
  rw [← metrics]
  exact .left hr₀ (hsame.trans cancelled) rfl

theorem concludeRun_shown (engages : Engages c i d r) (cancelled : r.cancelled = false)
    (answer? : Option Answer) (draw : Nat) (metrics : u.metrics = w.metrics)
    (gate : u.gate? id c.candidacy = w.gate? id c.candidacy) {o : Outcome}
    (standing : o.contender.standing = standingAfter answer?) :
    Shown (w.gate? id c.candidacy) c i o w.metrics
      (u.concludeRun id i c r answer? draw).metrics := by
  obtain ⟨r₀, hr₀, hsame, -⟩ := engages.exists_run engages.run
  rw [metrics_concludeRun, metrics, gate, ← standing]
  exact .concluded hr₀ (hsame.trans cancelled)

theorem actOnStore_shown (engages : Engages c i d r) (cancelled : r.cancelled = false)
    (due : ∀ t, r.phase.deadline? = some t → Clock.hasFired w.now t = true) {q : Request}
    (call : r.call? d.standing = some q) (draw : Nat)
    (h : Effect w id c.candidacy ⟨d, (w.bucket c.candidacy.bucket).store, r.opening q⟩ u)
    (metrics : u.metrics = w.metrics) (gate : u.gate? id c.candidacy = w.gate? id c.candidacy) :
    ∃ o, Turn w.now (w.bucket c.candidacy.bucket).delay draw c
        (w.bucket c.candidacy.bucket).store i o ∧
      Effect w id c.candidacy o (u.actOnStore id i c r q draw) ∧
      Shown (w.gate? id c.candidacy) c i o w.metrics (u.actOnStore id i c r q draw).metrics := by
  have hstore : (u.bucket c.candidacy.bucket).store = (w.bucket c.candidacy.bucket).store := by
    rw [h.bucket, if_pos rfl]
  rcases hp : perform (w.bucket c.candidacy.bucket).store w.now c.candidacy q with ⟨s', a⟩
  have hact := h.setStore s'
  simp only [actOnStore, hstore, h.now, hp]
  by_cases ha : a = .error .beyondClock
  · subst ha
    rw [if_pos rfl]
    refine ⟨_, .breaks engages cancelled due call (u := s') ?_,
      hact.modifyContender fun x => x.setPhase i .broken, ?_⟩
    · rwa [engages.candidacy]
    · rw [← metrics]
      exact .still engages.standing
  · rw [if_neg ha]
    refine ⟨_, .acts engages cancelled due call (u := s') ?_ ha, ?_, ?_⟩
    · rwa [engages.candidacy]
    · have hnote := hact.note (n := .answered q a) fun p => rfl
      simpa using hnote.concludeRun i (some a) draw engages.candidacy rfl engages.standing.symm
    · refine concludeRun_shown (u := (u.setStore c.candidacy.bucket s').note id (.answered q a))
        engages cancelled (some a) draw metrics gate ?_
      rw [Contender.standing_concluded]
      rfl

theorem campaign_shown (engages : Engages c i d r) (cancelled : r.cancelled = false)
    (due : ∀ t, r.phase.deadline? = some t → Clock.hasFired w.now t = true)
    (anew : ∀ q asked t, r.phase ≠ .calling q asked t) (draw : Nat)
    (h : Effect w id c.candidacy ⟨d, (w.bucket c.candidacy.bucket).store, []⟩ u)
    (metrics : u.metrics = w.metrics) (gate : u.gate? id c.candidacy = w.gate? id c.candidacy) :
    ∃ o, Turn w.now (w.bucket c.candidacy.bucket).delay draw c
        (w.bucket c.candidacy.bucket).store i o ∧
      Effect w id c.candidacy o (u.campaign id i c r draw) ∧
      Shown (w.gate? id c.candidacy) c i o w.metrics (u.campaign id i c r draw).metrics := by
  have hdelay : (u.bucket c.candidacy.bucket).delay = (w.bucket c.candidacy.bucket).delay := by
    rw [h.bucket, if_pos rfl]
  have hnew : ∀ q, r.opening q = [.asked q] := fun q => by
    unfold Run.opening
    split
    · rename_i h; exact absurd h (anew _ _ _)
    · rfl
  have hcall : r.call? d.standing = request? d.standing r.ledger := by
    unfold Run.call?
    split
    · rename_i h; exact absurd h (anew _ _ _)
    · rfl
  simp only [campaign]
  cases hq : request? c.standing r.ledger with
  | none =>
    refine ⟨_, .idles engages cancelled due anew (engages.standing ▸ hq), ?_, ?_⟩
    · simpa using h.concludeRun i none draw engages.candidacy rfl engages.standing.symm
    · refine concludeRun_shown engages cancelled none draw metrics gate ?_
      rw [Contender.standing_concluded]
      rfl
  | some q =>
    have hnote := h.note (n := .asked q) fun p => rfl
    simp only [List.nil_append] at hnote
    have hq' : request? d.standing r.ledger = some q := engages.standing ▸ hq
    dsimp only
    split
    · refine actOnStore_shown engages cancelled due (hcall.trans hq') draw ?_ metrics gate
      rwa [hnew]
    · rename_i hheld
      have hheld : (w.bucket c.candidacy.bucket).delay ≠ 0 := hdelay ▸ hheld
      refine ⟨_, .asks engages cancelled due anew hq' hheld, ?_, ?_⟩
      · rw [show ((u.note id (.asked q)).bucket c.candidacy.bucket).delay = _ from hdelay,
          show (u.note id (.asked q)).now = _ from h.now]
        exact hnote.modifyContender fun x => x.setPhase i (.calling q w.now (Clock.wake w.now _))
      · rw [← metrics]
        exact .still engages.standing

/-- A turn of a call of `run` has the effect of a `Turn` on its contender, and the metrics show it. -/
theorem pollRun_shown (hc : w.contenders.get? id = some c) (i draw : Nat) :
    ∃ o, Turn w.now (w.bucket c.candidacy.bucket).delay draw c
        (w.bucket c.candidacy.bucket).store i o ∧
      Effect w id c.candidacy o (w.pollRun id i draw) ∧
      Shown (w.gate? id c.candidacy) c i o w.metrics (w.pollRun id i draw).metrics := by
  have still := Effect.refl (y := c.candidacy) hc
  simp only [pollRun, hc]
  cases hr : c.runs[i]? with
  | none => exact ⟨_, .still, still, .still rfl⟩
  | some r =>
    dsimp only
    cases hph : r.phase with
    | fresh =>
      dsimp only
      split
      · exact ⟨_, .refused hr hph ‹_›, still.modifyContender fun x => x.setPhase i .over, .still rfl⟩
      · rename_i hfree
        have engages := Engages.begins hr hph (Bool.eq_false_iff.2 hfree)
        have enters := still.modifyContender (·.enter i)
        split
        · exact leaveRun_shown engages ‹_› draw enters rfl
        · refine campaign_shown engages (Bool.eq_false_iff.2 ‹_›) ?_ ?_ draw enters rfl rfl
          · simp [hph, Phase.deadline?]
          · simp [hph]
    | calling q asked due =>
      have engages : Engages c i c r := .goesOn hr (by rw [hph]; rfl)
      dsimp only
      split
      · exact leaveRun_shown engages ‹_› draw still rfl
      · split
        · rename_i hcan hfired
          refine actOnStore_shown engages (Bool.eq_false_iff.2 hcan) ?_ ?_ draw ?_ rfl rfl
          · simpa [hph, Phase.deadline?] using hfired
          · simp [Run.call?, hph]
          · simpa [Run.opening, hph] using still
        · exact ⟨_, .still, still, .still rfl⟩
    | waiting due =>
      have engages : Engages c i c r := .goesOn hr (by rw [hph]; rfl)
      dsimp only
      split
      · exact leaveRun_shown engages ‹_› draw still rfl
      · split
        · rename_i hcan hfired
          refine campaign_shown engages (Bool.eq_false_iff.2 hcan) ?_ ?_ draw still rfl rfl
          · simpa [hph, Phase.deadline?] using hfired
          · simp [hph]
        · exact ⟨_, .still, still, .still rfl⟩
    | _ => exact ⟨_, .still, still, .still rfl⟩

/-- A turn of a call of `run` has the effect of a `Turn` on its contender. -/
theorem pollRun_effect (hc : w.contenders.get? id = some c) (i draw : Nat) :
    ∃ o, Turn w.now (w.bucket c.candidacy.bucket).delay draw c
        (w.bucket c.candidacy.bucket).store i o ∧
      Effect w id c.candidacy o (w.pollRun id i draw) := by
  obtain ⟨o, turn, effect, -⟩ := pollRun_shown hc i draw
  exact ⟨o, turn, effect⟩

end Turns

end World

end Tenure
