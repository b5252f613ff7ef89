import Tenure.Proofs.World.Along
import Tenure.Proofs.World.Beats
import Tenure.Proofs.World.Outside

/-!
# What a move does

- **Moves** (`Played`, `played`): a move is a turn of a call of `run`, a turn of a loop, or comes
  from outside. A move from outside records nothing and opens contenders or leaves them to what
  can happen to them aside from their turns.
- **Contenders** (`Became`, `became`): the same for a single contender, with what becomes of its
  notes. Every contender is in order at all times (`ordered_follow`).
- **The history** (`added`, `records_iff`): what a move records is what it adds to the history.
- **Publishers** (`PublisherBecame`, `publisherBecame`): the same for a publisher.
- **Stores** (`later_move`, `get?_rows_move`): every move leads to later stores, and a row changes
  only through outsiders that name its key and contenders that contend for it.
-/

namespace Tenure

open Election

/-- The move writes the key or ends its lease. -/
def Move.Touches (bucket key : String) : Move → Prop
  | .create b k _ _ | .update b k _ _ _ | .expire b k => b = bucket ∧ k = key
  | _ => False

instance (bucket key : String) (m : Move) : Decidable (m.Touches bucket key) := by
  cases m <;> dsimp only [Move.Touches] <;> infer_instance

/-- The note of a contender that an event is, with its time. -/
def Event.note? (id : String) (e : Event) : Option (Nat × Note) :=
  match e.source, e.what with
  | .contender id', .noted n => if id' = id then some (e.time, n) else none
  | _, _ => none

namespace World

/-- The notes of a contender with their times, latest first. -/
def notes (w : World) (id : String) : List (Nat × Note) := w.history.filterMap (·.note? id)

theorem notes_congr {v w : World} (h : v.history = w.history) (id : String) :
    v.notes id = w.notes id := by
  rw [notes, notes, h]

theorem Effect.notes {w v : World} {id : String} {y : Candidacy} {o : Election.Outcome}
    (h : Effect w id y o v) (id' : String) :
    v.notes id' = (if id = id' then (o.notes.map (w.now, ·)).reverse else []) ++ w.notes id' := by
  rw [World.notes, h.history, List.filterMap_append, ← List.map_reverse, List.filterMap_map]
  congr 1
  by_cases hid : id = id' <;> simp [Function.comp_def, Event.note?, hid]

theorem BeatEffect.notes {w v : World} {id : String} {j : Nat} {p : Publisher}
    {o : Publisher.Outcome} (h : BeatEffect w id j p o v) (id' : String) :
    v.notes id' = w.notes id' := by
  rw [World.notes, h.history, List.filterMap_append, ← List.map_reverse, List.filterMap_map]
  simp [Function.comp_def, Event.note?, World.notes]

/-! ## Moves -/

/-- The move opens the contender on these terms. -/
inductive Enrols (w : World) : Move → String → Candidacy → Prop
  | contender {id : String} {options : Options} {y : Candidacy}
      (accepted : Candidacy.ofOptions options w.host w.nonce = .ok y) :
      Enrols w (.openContender id options) id y
  | publisher {id : String} {config : Config} {replicator outbox : String}
      {bucket? : Option String} {relaxations : Relaxations} {p : Publisher} {y : Candidacy}
      (accepted : Publisher.ofConfig config replicator w.host outbox bucket? relaxations w.nonce =
        .ok (p, some y)) :
      Enrols w (.openPublisher id config replicator outbox bucket? relaxations) id y

/-- The move opens the publisher. -/
inductive Opens (w : World) : Move → String → Publisher → Prop
  | mk {id : String} {config : Config} {replicator outbox : String} {bucket? : Option String}
      {relaxations : Relaxations} {p : Publisher} {y? : Option Candidacy}
      (accepted : Publisher.ofConfig config replicator w.host outbox bucket? relaxations w.nonce =
        .ok (p, y?)) :
      Opens w (.openPublisher id config replicator outbox bucket? relaxations) id p

/-- Contenders and publishers are called from outside: some are opened, and the others only meet with
what can happen aside from turns. -/
structure Called (w : World) (m : Move) : Prop where
  recast : Recast w (w.move m)
  contenders : ∀ id, (∃ y, Enrols w m id y ∧ w.isTaken id = false ∧
      (w.move m).contenders.get? id = some { candidacy := y }) ∨
    Option.Rel Aside (w.contenders.get? id) ((w.move m).contenders.get? id)
  publishers : ∀ id, (∃ p, Opens w m id p ∧ w.isTaken id = false ∧
      (w.move m).publishers.get? id = some p) ∨
    Option.Rel Publisher.Aside (w.publishers.get? id) ((w.move m).publishers.get? id)

/-- The clock, stores, outboxes or metrics are used, and nothing becomes of contenders and
publishers. -/
structure Staged (w : World) (m : Move) : Prop where
  history : (w.move m).history = w.history
  contenders : (w.move m).contenders = w.contenders
  publishers : (w.move m).publishers = w.publishers
  now_le : w.now ≤ (w.move m).now
  later : ∀ b, (w.bucket b).store.Later ((w.move m).bucket b).store
  rows : ∀ b key, ¬ m.Touches b key →
    ((w.move m).bucket b).store.rows.get? key = (w.bucket b).store.rows.get? key

/-- What a move can be: a turn of a call of `run` or of a loop, a call on contenders and publishers,
or a use of what they share. -/
inductive Played (w : World) (m : Move) : Prop
  | turn {id : String} {c : Contender} {i draw : Nat} {o : Election.Outcome}
      (poll : m = .poll (.run id i) draw) (was : w.contenders.get? id = some c)
      (turn : Turn w.now (w.bucket c.candidacy.bucket).delay draw c
        (w.bucket c.candidacy.bucket).store i o)
      (effect : Effect w id c.candidacy o (w.move m))
  | beat {id : String} {p : Publisher} {j draw : Nat} {o : Publisher.Outcome}
      (poll : m = .poll (.loop id j) draw) (was : w.publishers.get? id = some p)
      (beat : p.Beat w.now w.wall (w.outbox p.outbox) j o)
      (effect : BeatEffect w id j p o (w.move m))
  | call (called : Called w m)
  | stage (staged : Staged w m)

theorem store_setStoreDelay (w : World) (b b' : String) (delay : Nat) :
    ((w.setStoreDelay b delay).bucket b').store = (w.bucket b').store := by
  simp only [setStoreDelay, bucket, Table.getD, Table.get?_insert]
  split
  · subst b'; rfl
  · rfl

theorem staged_of_buckets {w : World} {m : Move} (history : (w.move m).history = w.history)
    (contenders : (w.move m).contenders = w.contenders)
    (publishers : (w.move m).publishers = w.publishers) (now_le : w.now ≤ (w.move m).now)
    (buckets : (w.move m).buckets = w.buckets) : Staged w m := by
  refine ⟨history, contenders, publishers, now_le, fun b => ?_, fun b key _ => ?_⟩
  · rw [bucket_congr buckets]
    exact .refl _
  · rw [bucket_congr buckets]

/-- A store is put in the place of another one. -/
theorem staged_of_setStore {w : World} {m : Move} {name : String} {s : Lease.Store}
    (hm : w.move m = w.setStore name s) (later : (w.bucket name).store.Later s)
    (rows : ∀ key, ¬ m.Touches name key → s.rows.get? key = (w.bucket name).store.rows.get? key) :
    Staged w m := by
  refine ⟨by rw [hm]; rfl, by rw [hm]; rfl, by rw [hm]; rfl, by rw [hm]; exact Nat.le_refl _,
    fun b => ?_, fun b key hne => ?_⟩ <;> rw [hm, bucket_setStore] <;> split
  · subst b; exact later
  · exact .refl _
  · subst b; exact rows key hne
  · rfl

theorem Called.of_beside {w : World} {m : Move} (h : Beside w (w.move m)) : Called w m :=
  ⟨h.recast, fun id => .inr (h.contenders id), fun id => .inr (h.publishers id)⟩

/-- A move that changes nothing. -/
theorem Called.of_eq {w : World} {m : Move} (hm : w.move m = w) : Called w m :=
  .of_beside (hm.symm ▸ .refl w)

theorem called_openContender (w : World) (id : String) (options : Options) :
    Called w (.openContender id options) := by
  by_cases ht : w.isTaken id = true
  · exact .of_eq (by simp only [move, if_pos ht])
  · have ht := Bool.eq_false_iff.2 ht
    cases hy : Candidacy.ofOptions options w.host w.nonce with
    | error e =>
      refine .of_eq ?_
      simp only [move, ht, openContender, hy]
      rfl
    | ok y =>
      have hm : w.move (.openContender id options) = w.enrol id y := by
        simp only [move, ht, openContender, hy]
        rfl
      refine ⟨by rw [hm]; exact ⟨_, _, _, _, rfl⟩, fun id' => ?_,
        fun id' => .inr (by rw [hm]; exact rel_refl .refl _)⟩
      rw [hm, get?_contenders_enrol]
      by_cases hid : id = id'
      · subst id'
        exact .inl ⟨y, .contender hy, ht, if_pos rfl⟩
      · rw [if_neg hid]
        exact .inr (rel_refl (fun _ => .refl) _)

theorem called_openPublisher (w : World) (id : String) (config : Config)
    (replicator outbox : String) (bucket? : Option String) (relaxations : Relaxations) :
    Called w (.openPublisher id config replicator outbox bucket? relaxations) := by
  by_cases ht : w.isTaken id = true
  · exact .of_eq (by simp only [move, if_pos ht])
  · have ht := Bool.eq_false_iff.2 ht
    cases hp : Publisher.ofConfig config replicator w.host outbox bucket? relaxations w.nonce with
    | error e =>
      refine .of_eq ?_
      simp only [move, ht, openPublisher, hp]
      rfl
    | ok opened =>
      obtain ⟨p, y?⟩ := opened
      -- the publisher comes in beside the others, and its contender too if it has one
      have hm : w.move (.openPublisher id config replicator outbox bucket? relaxations) =
          match y? with
          | some y => ({ w with publishers := w.publishers.insert id p } : World).enrol id y
          | none => { w with publishers := w.publishers.insert id p } := by
        simp only [move, ht, openPublisher, hp]
        cases y? <;> rfl
      have hpub (id' : String) : (w.move (.openPublisher id config replicator outbox bucket?
          relaxations)).publishers.get? id' =
            if id = id' then some p else w.publishers.get? id' := by
        rw [hm]
        cases y? <;> exact Table.get?_insert ..
      refine ⟨?_, fun id' => ?_, fun id' => ?_⟩
      · rw [hm]
        cases y? <;> exact ⟨_, _, _, _, rfl⟩
      · rw [hm]
        cases y? with
        | none => exact .inr (rel_refl (fun _ => .refl) _)
        | some y =>
          dsimp only
          rw [get?_contenders_enrol]
          by_cases hid : id = id'
          · subst id'
            exact .inl ⟨y, .publisher hp, ht, if_pos rfl⟩
          · rw [if_neg hid]
            exact .inr (rel_refl (fun _ => .refl) _)
      · rw [hpub]
        by_cases hid : id = id'
        · subst id'
          exact .inl ⟨p, ⟨hp⟩, ht, if_pos rfl⟩
        · rw [if_neg hid]
          exact .inr (rel_refl .refl _)

/-- What every move is. -/
theorem played (w : World) (m : Move) : Played w m := by
  have beside (h : Beside w (w.move m)) : Played w m := .call (.of_beside h)
  cases m with
  | openContender id options => exact .call (called_openContender w id options)
  | openPublisher id config replicator outbox bucket? relaxations =>
    exact .call (called_openPublisher w id config replicator outbox bucket? relaxations)
  | callRun id cancelled => exact beside (.callRun w id cancelled)
  | cancelRun id i => exact beside (.cancelRun w id i)
  | cancelContender id => exact beside (.cancelContender w id)
  | startPublisher id cancelled => exact beside (.startPublisher w id cancelled)
  | cancelPublisher id => exact beside (.cancelPublisher w id)
  | stopPublisherAt id due =>
    exact beside (.modifyPublisher w id fun _ =>
      ⟨rfl, rfl, rfl, rfl, rfl, fun h => h, .inl rfl⟩)
  | look id => exact beside (.modifyContender w id fun _ => .look .refl)
  | poll task draw =>
    cases task with
    | run id i =>
      cases hc : w.contenders.get? id with
      | none => exact .call (.of_eq (by simp only [move, poll, pollRun, hc]))
      | some c =>
        obtain ⟨o, turn, effect⟩ := pollRun_effect hc i draw
        exact .turn rfl hc turn effect
    | loop id j =>
      cases hp : w.publishers.get? id with
      | none => exact .call (.of_eq (by simp only [move, poll, pollLoop, hp]))
      | some p =>
        obtain ⟨o, beat, effect⟩ := pollLoop_effect hp j
        exact .beat rfl hp beat effect
    | closing id => exact beside (.pollClosing w id)
    | stopping id => exact beside (.pollStopping w id)
  | create b key value ttl =>
    exact .stage (staged_of_setStore rfl (.create ..) fun key' hne =>
      Lease.Store.get?_rows_create_of_ne _ _ _ _ fun h => hne ⟨rfl, h⟩)
  | update b key value revision ttl =>
    exact .stage (staged_of_setStore rfl (.update ..) fun key' hne =>
      Lease.Store.get?_rows_update_of_ne _ _ _ _ _ fun h => hne ⟨rfl, h⟩)
  | expire b key =>
    refine .stage (staged_of_setStore rfl (.expire ..) fun key' hne => ?_)
    rw [Lease.Store.get?_rows_expire, if_neg fun h => hne ⟨rfl, h⟩]
  | setAvailable b available =>
    exact .stage (staged_of_setStore rfl (.setAvailable ..) fun _ _ => rfl)
  | setStoreDelay b delay =>
    have hstore (b' : String) : ((w.setStoreDelay b delay).bucket b').store =
        (w.bucket b').store := store_setStoreDelay w b b' delay
    refine .stage ⟨rfl, rfl, rfl, Nat.le_refl _, fun b' => ?_, fun b' key _ => ?_⟩
    · exact (hstore b').symm ▸ .refl _
    · exact congrArg (·.rows.get? key) (hstore b')
  | advance nanos => exact .stage (staged_of_buckets rfl rfl rfl (Nat.le_add_right ..) rfl)
  | _ => exact .stage (staged_of_buckets rfl rfl rfl (Nat.le_refl _) rfl)

/-! ## Contenders -/

/-- What a contender has come from in a move, and what it has noted in it. -/
inductive Became (w : World) (m : Move) (id : String) (c' : Contender) : Prop
  | opened {y : Candidacy} (enrols : Enrols w m id y) (free : w.isTaken id = false)
      (new : c' = { candidacy := y }) (quiet : (w.move m).notes id = w.notes id)
  | aside {c : Contender} (was : w.contenders.get? id = some c) (aside : Aside c c')
      (quiet : (w.move m).notes id = w.notes id)
  | turn {c : Contender} {i draw : Nat} {o : Election.Outcome}
      (poll : m = .poll (.run id i) draw) (was : w.contenders.get? id = some c)
      (turn : Turn w.now (w.bucket c.candidacy.bucket).delay draw c
        (w.bucket c.candidacy.bucket).store i o)
      (effect : Effect w id c.candidacy o (w.move m)) (after : c' = o.contender)

theorem became {w : World} {m : Move} {id : String} {c' : Contender}
    (h : (w.move m).contenders.get? id = some c') : Became w m id c' := by
  cases w.played m with
  | @turn id' c i draw o poll was turn effect =>
    rw [effect.contenders] at h
    by_cases hid : id' = id
    · subst id'
      rw [if_pos rfl] at h
      exact .turn poll was turn effect (Option.some.inj h).symm
    · rw [if_neg hid] at h
      exact .aside h .refl (by rw [effect.notes, if_neg hid, List.nil_append])
  | beat _ _ _ effect =>
    rw [effect.contenders] at h
    exact .aside h .refl (effect.notes id)
  | call called =>
    have quiet := notes_congr called.recast.history id
    rcases called.contenders id with ⟨y, enrols, free, after⟩ | rel
    · exact .opened enrols free (Option.some.inj (h.symm.trans after)) quiet
    · rw [h] at rel
      obtain ⟨c, was, aside⟩ := exists_of_rel rel
      exact .aside was aside quiet
  | stage staged =>
    rw [staged.contenders] at h
    exact .aside h .refl (notes_congr staged.history id)

/-- No contender disappears. -/
theorem exists_contender_move {w : World} {id : String} {c : Contender}
    (h : w.contenders.get? id = some c) (m : Move) :
    ∃ c', (w.move m).contenders.get? id = some c' := by
  cases w.played m with
  | turn _ _ _ effect =>
    rw [effect.contenders]
    split
    · exact ⟨_, rfl⟩
    · exact ⟨c, h⟩
  | beat _ _ _ effect => exact ⟨c, by rw [effect.contenders, h]⟩
  | call called =>
    rcases called.contenders id with ⟨y, -, -, after⟩ | rel
    · exact ⟨_, after⟩
    · rw [h] at rel
      obtain ⟨c', hc', -⟩ := exists_of_rel' rel
      exact ⟨c', hc'⟩
  | stage staged => exact ⟨c, by rw [staged.contenders, h]⟩

/-- No call of `run` disappears in a move, and it stays tied or not. -/
theorem exists_run_move {w : World} {id : String} {c : Contender} {i : Nat} {r : Run}
    (hc : w.contenders.get? id = some c) (run : c.runs[i]? = some r) (m : Move) :
    ∃ c' r', (w.move m).contenders.get? id = some c' ∧ c'.runs[i]? = some r' ∧ r'.tied = r.tied := by
  obtain ⟨c', hc'⟩ := exists_contender_move hc m
  cases became hc' with
  | opened _ free _ _ => cases hc.symm.trans (eq_none_of_free free).1
  | aside was aside _ =>
    obtain rfl := Option.some.inj (hc.symm.trans was)
    obtain ⟨b, hb⟩ := aside.run' run
    exact ⟨c', _, hc', hb, rfl⟩
  | turn _ was turn _ after =>
    obtain rfl := Option.some.inj (hc.symm.trans was)
    obtain ⟨r', hr', -, same⟩ := turn.exists_run' run
    exact ⟨c', r', hc', after ▸ hr', same⟩

/-- The terms of a contender never change. -/
theorem candidacy_move {w : World} {m : Move} {id : String} {c c' : Contender}
    (hc : w.contenders.get? id = some c) (hc' : (w.move m).contenders.get? id = some c') :
    c'.candidacy = c.candidacy := by
  cases became hc' with
  | opened _ free _ _ => exact absurd (hc.symm.trans (eq_none_of_free free).1) (by simp)
  | aside was aside _ =>
    obtain rfl := Option.some.inj (hc.symm.trans was)
    exact aside.candidacy
  | turn _ was turn _ after =>
    obtain rfl := Option.some.inj (hc.symm.trans was)
    rw [after, turn.candidacy]

theorem candidacy_follow {w : World} (course : List Move) {id : String} {c c' : Contender}
    (hc : w.contenders.get? id = some c) (hc' : (w.follow course).contenders.get? id = some c') :
    c'.candidacy = c.candidacy := by
  induction course generalizing w c with
  | nil =>
    obtain rfl := Option.some.inj (hc.symm.trans hc')
    rfl
  | cons m course ih =>
    obtain ⟨c₁, hc₁⟩ := exists_contender_move hc m
    exact (ih hc₁ hc').trans (candidacy_move hc hc₁)

/-- Nobody makes notes who is not there. -/
theorem notes_eq_nil_move {w : World} {id : String}
    (h : w.contenders.get? id = none → w.notes id = []) {m : Move}
    (hm : (w.move m).contenders.get? id = none) : (w.move m).notes id = [] := by
  have hnone : w.contenders.get? id = none := by
    cases hc : w.contenders.get? id with
    | none => rfl
    | some c =>
      obtain ⟨c', hc'⟩ := exists_contender_move hc m
      cases hm.symm.trans hc'
  cases w.played m with
  | @turn id' c i draw o poll was turn effect =>
    rw [effect.contenders] at hm
    split at hm
    · cases hm
    · rename_i hid
      rw [effect.notes, if_neg hid, List.nil_append, h hnone]
  | beat _ _ _ effect => rw [effect.notes, h hnone]
  | call called => rw [notes_congr called.recast.history, h hnone]
  | stage staged => rw [notes_congr staged.history, h hnone]

/-- Every contender is in order. -/
def Ordered (w : World) : Prop := ∀ {id c}, w.contenders.get? id = some c → Orderly c

theorem ordered_move {w : World} (h : w.Ordered) (m : Move) : (w.move m).Ordered := by
  intro id c' hc'
  cases became hc' with
  | opened _ _ new _ => exact new ▸ orderly_of_new _
  | aside was aside _ => exact aside.orderly (h was)
  | turn _ was turn _ after => exact after ▸ turn.orderly (h was)

theorem ordered_follow (host : String) (wall : Int) (now : Nat) (course : List Move) :
    ((fresh host wall now).follow course).Ordered :=
  follow_induct course (I := Ordered) (fun h => by simp at h) fun _ m h => ordered_move h m

/-- The history only grows. -/
theorem history_move (w : World) (m : Move) :
    ∃ events, (w.move m).history = events ++ w.history := by
  cases w.played m with
  | turn _ _ _ effect => exact ⟨_, effect.history⟩
  | beat _ _ _ effect => exact ⟨_, effect.history⟩
  | call called => exact ⟨[], called.recast.history⟩
  | stage staged => exact ⟨[], staged.history⟩

/-- What the move adds to the history. -/
def added (w : World) (m : Move) : List Event :=
  (w.move m).history.take ((w.move m).history.length - w.history.length)

theorem added_eq {w : World} {m : Move} {events : List Event}
    (h : (w.move m).history = events ++ w.history) : w.added m = events := by
  rw [added, h, List.length_append, Nat.add_sub_cancel, List.take_left']
  rfl

theorem records_iff {w : World} {m : Move} {source : Source} {what : Happening} :
    w.Records m source what ↔ ⟨w.now, source, what⟩ ∈ w.added m := by
  obtain ⟨events, h⟩ := w.history_move m
  rw [mem_events_iff h, added_eq h]

theorem records_noted_iff {w : World} {m : Move} {id : String} {n : Note} :
    w.Records m (.contender id) (.noted n) ↔ ∃ e ∈ w.added m, e.note? id = some (w.now, n) := by
  rw [records_iff]
  refine ⟨fun h => ⟨_, h, by simp [Event.note?]⟩, fun ⟨e, he, hn⟩ => ?_⟩
  obtain ⟨time, source, what⟩ := e
  simp only [Event.note?] at hn
  split at hn
  · split at hn
    · rename_i hid
      obtain ⟨rfl, rfl⟩ := Prod.mk.inj (Option.some.inj hn)
      subst hid
      exact he
    · exact nomatch hn
  · exact nomatch hn

instance (w : World) (m : Move) (id : String) (n : Note) :
    Decidable (w.Records m (.contender id) (.noted n)) :=
  decidable_of_iff _ records_noted_iff.symm

theorem Effect.records {w : World} {m : Move} {id : String} {y : Candidacy}
    {o : Election.Outcome} (h : Effect w id y o (w.move m)) {n : Note} (hn : n ∈ o.notes) :
    w.Records m (.contender id) (.noted n) := by
  rw [mem_events_iff h.history, List.mem_reverse]
  exact List.mem_map_of_mem hn

theorem Effect.mem_of_records {w : World} {m : Move} {id : String} {y : Candidacy}
    {o : Election.Outcome} (h : Effect w id y o (w.move m)) {n : Note}
    (hrec : w.Records m (.contender id) (.noted n)) : n ∈ o.notes := by
  rw [mem_events_iff h.history, List.mem_reverse, List.mem_map] at hrec
  obtain ⟨n', hn', heq⟩ := hrec
  cases heq
  exact hn'

/-- A note is recorded in a turn of the contender that makes it. -/
theorem Records.turn {w : World} {m : Move} {id : String} {n : Note}
    (h : w.Records m (.contender id) (.noted n)) :
    ∃ c i draw o, m = .poll (.run id i) draw ∧ w.contenders.get? id = some c ∧
      Turn w.now (w.bucket c.candidacy.bucket).delay draw c
        (w.bucket c.candidacy.bucket).store i o ∧
      Effect w id c.candidacy o (w.move m) ∧ n ∈ o.notes := by
  cases w.played m with
  | @turn id' c i draw o poll was turn effect =>
    rw [mem_events_iff effect.history] at h
    simp only [List.mem_reverse, List.mem_map, Event.mk.injEq, Source.contender.injEq,
      Happening.noted.injEq] at h
    obtain ⟨n', hn', -, rfl, rfl⟩ := h
    exact ⟨c, i, draw, o, poll, was, turn, effect, hn'⟩
  | beat _ _ _ effect =>
    rw [mem_events_iff effect.history] at h
    simp at h
  | call called =>
    exact absurd h (not_records called.recast.history)
  | stage staged =>
    exact absurd h (not_records staged.history)

/-! ## Publishers -/

/-- What a publisher has come from in a move. -/
inductive PublisherBecame (w : World) (m : Move) (id : String) (p' : Publisher) : Prop
  | opened (opens : Opens w m id p') (free : w.isTaken id = false)
  | aside {p : Publisher} (was : w.publishers.get? id = some p) (aside : p.Aside p')
  | beat {p : Publisher} {j draw : Nat} {o : Publisher.Outcome}
      (poll : m = .poll (.loop id j) draw) (was : w.publishers.get? id = some p)
      (beat : p.Beat w.now w.wall (w.outbox p.outbox) j o)
      (effect : BeatEffect w id j p o (w.move m)) (after : p' = o.publisher)

theorem publisherBecame {w : World} {m : Move} {id : String} {p' : Publisher}
    (h : (w.move m).publishers.get? id = some p') : PublisherBecame w m id p' := by
  cases w.played m with
  | turn _ _ _ effect =>
    rw [effect.publishers] at h
    split at h
    · obtain ⟨p, hp, rfl⟩ := Option.map_eq_some_iff.1 h
      exact .aside hp (p.aside_hearAll _)
    · exact .aside h (.refl p')
  | @beat id' p j draw o poll was beat effect =>
    rw [effect.publishers] at h
    split at h
    · rename_i hid
      subst id'
      exact .beat poll was beat effect (Option.some.inj h).symm
    · exact .aside h (.refl p')
  | call called =>
    rcases called.publishers id with ⟨p, opens, free, after⟩ | rel
    · obtain rfl := Option.some.inj (h.symm.trans after)
      exact .opened opens free
    · rw [h] at rel
      obtain ⟨p, was, aside⟩ := exists_of_rel rel
      exact .aside was aside
  | stage staged =>
    rw [staged.publishers] at h
    exact .aside h (.refl p')

/-- No publisher disappears, and it stays gated or not. -/
theorem exists_publisher_move {w : World} {id : String} {p : Publisher}
    (h : w.publishers.get? id = some p) (m : Move) :
    ∃ p', (w.move m).publishers.get? id = some p' ∧ p'.gated = p.gated := by
  cases w.played m with
  | turn _ _ _ effect =>
    rw [effect.publishers, h]
    split
    · exact ⟨_, rfl, (p.aside_hearAll _).gated⟩
    · exact ⟨p, rfl, rfl⟩
  | @beat id' p₀ j draw o _ was beat effect =>
    rw [effect.publishers]
    split
    · rename_i hid
      subst id'
      obtain rfl := Option.some.inj (was.symm.trans h)
      obtain ⟨loops, heq⟩ := beat.exists_loops
      exact ⟨_, rfl, by rw [heq]⟩
    · exact ⟨p, h, rfl⟩
  | call called =>
    rcases called.publishers id with ⟨p', -, free, -⟩ | rel
    · exact absurd (h.symm.trans (eq_none_of_free free).2) (by simp)
    · rw [h] at rel
      obtain ⟨p', hp', aside⟩ := exists_of_rel' rel
      exact ⟨p', hp', aside.gated⟩
  | stage staged => exact ⟨p, by rw [staged.publishers, h], rfl⟩

/-- A publisher was gated all along if it is in the end, or never. -/
theorem gated_along {w : World} (course : List Move) {id : String} {p : Publisher}
    (hp : (w.follow course).publishers.get? id = some p) :
    w.Along (fun v => ∀ q, v.publishers.get? id = some q → q.gated = p.gated) course := by
  induction course generalizing w with
  | nil =>
    intro q hq
    rw [Option.some.inj (hp.symm.trans hq)]
  | cons m course ih =>
    refine ⟨fun q hq => ?_, ih hp⟩
    obtain ⟨q', hq', same⟩ := exists_publisher_move hq m
    exact same.symm.trans ((ih hp).head q' hq')

/-- What a loop does is recorded in a turn of that loop. -/
theorem Records.beat {w : World} {m : Move} {id : String} {j : Nat} {what : Happening}
    (h : w.Records m (.loop id j) what) :
    ∃ p draw o, m = .poll (.loop id j) draw ∧ w.publishers.get? id = some p ∧
      p.Beat w.now w.wall (w.outbox p.outbox) j o ∧ BeatEffect w id j p o (w.move m) ∧
      what ∈ o.happenings := by
  cases w.played m with
  | turn _ _ _ effect =>
    rw [mem_events_iff effect.history] at h
    simp at h
  | @beat id' p j' draw o poll was beat effect =>
    rw [mem_events_iff effect.history] at h
    simp only [List.mem_reverse, List.mem_map, Event.mk.injEq, Source.loop.injEq] at h
    obtain ⟨what', hmem, -, ⟨rfl, rfl⟩, rfl⟩ := h
    exact ⟨p, draw, o, poll, was, beat, effect, hmem⟩
  | call called =>
    exact absurd h (not_records called.recast.history)
  | stage staged =>
    exact absurd h (not_records staged.history)

/-! ## Clock and stores -/

/-- The clock does not go back. -/
theorem now_le_move (w : World) (m : Move) : w.now ≤ (w.move m).now := by
  cases w.played m with
  | turn _ _ _ effect => exact Nat.le_of_eq effect.now.symm
  | beat _ _ _ effect => exact Nat.le_of_eq effect.now.symm
  | call called => exact Nat.le_of_eq called.recast.now.symm
  | stage staged => exact staged.now_le

theorem later_move (w : World) (m : Move) (b : String) :
    (w.bucket b).store.Later ((w.move m).bucket b).store := by
  cases w.played m with
  | @turn id c i draw o _ _ turn effect =>
    rw [effect.bucket]
    split
    · subst b; exact turn.later
    · exact .refl _
  | beat _ _ _ effect =>
    rw [bucket_congr effect.buckets]
    exact .refl _
  | call called =>
    rw [bucket_congr called.recast.buckets]
    exact .refl _
  | stage staged => exact staged.later b

theorem now_le_follow (w : World) (course : List Move) : w.now ≤ (w.follow course).now := by
  induction course generalizing w with
  | nil => exact Nat.le_refl _
  | cons m course ih => exact Nat.le_trans (now_le_move w m) (ih _)

theorem later_follow (w : World) (course : List Move) (b : String) :
    (w.bucket b).store.Later ((w.follow course).bucket b).store := by
  induction course generalizing w with
  | nil => exact .refl _
  | cons m course ih => exact (later_move w m b).trans (ih _)

/-- A row changes only through outsiders that name its key and turns of contenders that contend
for it. -/
theorem get?_rows_move (w : World) (m : Move) (b key : String) :
    ((w.move m).bucket b).store.rows.get? key = (w.bucket b).store.rows.get? key ∨
    m.Touches b key ∨
    ∃ id c i draw, m = .poll (.run id i) draw ∧ w.contenders.get? id = some c ∧
      c.candidacy.bucket = b ∧ c.candidacy.key = key := by
  cases w.played m with
  | @turn id c i draw o poll was turn effect =>
    rw [effect.bucket]
    split
    · rename_i hb
      by_cases hkey : c.candidacy.key = key
      · exact .inr (.inr ⟨id, c, i, draw, poll, was, hb, hkey⟩)
      · subst b
        exact .inl (turn.get?_rows_of_ne hkey)
    · exact .inl rfl
  | beat _ _ _ effect =>
    rw [bucket_congr effect.buckets]
    exact .inl rfl
  | call called =>
    rw [bucket_congr called.recast.buckets]
    exact .inl rfl
  | stage staged =>
    by_cases ht : m.Touches b key
    · exact .inr (.inl ht)
    · exact .inl (staged.rows b key ht)

end World

end Tenure
