import Tenure.Proofs.Heartbeat.Receipts

/-!
# Accounts

- **Counters** (`counters`, `Sole`): the counters of a publisher or a contender, and those in whose slot
  nobody else counts. Such a counter shows how often its owner meant it (`value_of_sole`).
- **Campaigns** (`standings_eq`): a contender's campaigns end as the answers of the store say.
- **Accounts** (`accounted`): the counters of a publisher show the answers to its calls, its outbox holds what
  was sent, and calls that were dropped are in neither. The counters of a contender show how its campaigns
  ended. Where slots are shared they need not (`accounts_mixed`).
-/

namespace Tenure

open Election Metrics

/-! ## Counters -/

/-- The counters of a publisher: heartbeats sent and refused on its subjects. -/
def Publisher.counters (p : Publisher) : List Series :=
  p.subjects.map (.published p.replicator) ++ p.subjects.map (.publishErrors p.replicator)

/-- The counters of a contender: campaigns by the standing they end in. -/
def Election.Candidacy.counters (y : Candidacy) : List Series :=
  [.campaigns y.replicator y.name .candidate, .campaigns y.replicator y.name .leader]

/-- The name of the contender or publisher that an event comes from. -/
def Source.owner : Source → String
  | .contender id | .loop id _ => id

/-- A loop on a subject of the publisher counts on the publisher's counters. -/
theorem Happening.heartbeat?_mem_counters {p : Publisher} {x : Happening} {u : Series}
    (means : x.heartbeat? p.replicator = some u)
    (own : ∀ s answer, x = .sent s answer → s ∈ p.subjects) : u ∈ p.counters := by
  cases x with
  | noted | passed | sending => cases means
  | sent s answer =>
    have mem := own s answer rfl
    cases answer with
    | ok =>
      cases means
      exact List.mem_append_left _ (List.mem_map_of_mem mem)
    | error =>
      cases means
      exact List.mem_append_right _ (List.mem_map_of_mem mem)

/-- A contender counts on its own counters. -/
theorem Happening.campaign?_mem_counters {y : Candidacy} {x : Happening} {u : Series}
    (means : x.campaign? y = some u) : u ∈ y.counters := by
  cases x with
  | passed | sending | sent => cases means
  | noted n =>
    cases n with
    | campaigned tick standing changed =>
      cases means
      cases standing <;> simp [Candidacy.counters]
    | _ => cases means

namespace World

variable {w : World} {m : Move} {id : String} {p : Publisher} {c : Contender} {t u : Series}

/-- The counters of the publisher and of the contender of a name. -/
def counters (w : World) (id : String) : List Series :=
  (w.publishers.get? id).elim [] (·.counters) ++
    (w.contenders.get? id).elim [] (·.candidacy.counters)

theorem mem_counters_of_publisher (hp : w.publishers.get? id = some p) (h : t ∈ p.counters) :
    t ∈ w.counters id := by
  rw [counters, hp]
  exact List.mem_append_left _ h

theorem mem_counters_of_contender (hc : w.contenders.get? id = some c)
    (h : t ∈ c.candidacy.counters) : t ∈ w.counters id := by
  rw [counters, hc]
  exact List.mem_append_right _ h

/-- In the slot of the series only the publisher or contender of the name counts, and only that
series. -/
def Sole (id : String) (t : Series) (w : World) : Prop :=
  ∀ id', ∀ u ∈ w.counters id', u.slot = t.slot → id' = id ∧ u = t

theorem sole_iff : w.Sole id t ↔ ∀ id' ∈ w.publishers.keys ++ w.contenders.keys,
    ∀ u ∈ w.counters id', u.slot = t.slot → id' = id ∧ u = t := by
  refine ⟨fun h id' _ => h id', fun h id' u hu => h id' ?_ u hu⟩
  have known {α : Type} {rows : Table String α} {a : α} (ha : rows.get? id' = some a) :
      id' ∈ rows.keys :=
    List.mem_map_of_mem (f := Prod.fst) ((rows.mem_toList_iff id' a).2 ha)
  rcases List.mem_append.1 hu with hu | hu
  · cases hp : w.publishers.get? id' with
    | none =>
      rw [hp] at hu
      cases hu
    | some p => exact List.mem_append_left _ (known hp)
  · cases hc : w.contenders.get? id' with
    | none =>
      rw [hc] at hu
      cases hu
    | some c => exact List.mem_append_right _ (known hc)

instance (id : String) (t : Series) : DecidablePred (Sole id t) :=
  fun _ => decidable_of_iff _ sole_iff.symm

/-- Whoever counts, counts on a counter of its own. -/
theorem series?_mem_counters (kempt : w.Kempt) (recorded : ∀ id j, w.Recorded id j) {e : Event}
    (he : e ∈ w.history) (means : w.series? e = some u) : u ∈ w.counters e.source.owner := by
  obtain ⟨time, source, what⟩ := e
  cases source with
  | contender id =>
    obtain ⟨c, hc, means⟩ := Option.bind_eq_some_iff.1 means
    exact mem_counters_of_contender hc (Happening.campaign?_mem_counters means)
  | loop id j =>
    obtain ⟨p, hp, means⟩ := Option.bind_eq_some_iff.1 means
    refine mem_counters_of_publisher hp (Happening.heartbeat?_mem_counters means ?_)
    rintro s answer rfl
    have mem := mem_diary_iff.2 he
    obtain ⟨l, loop⟩ := (recorded id j).exists_loop mem
    obtain ⟨pending?, serial⟩ := ((recorded id j).writes l loop).serial
    rw [loop?_of_publisher hp] at loop
    rw [serial.subject_of_mem mem]
    exact List.mem_map_of_mem (kempt.scheduled hp (List.mem_map_of_mem (List.mem_of_getElem? loop)))

/-- A counter that nobody shares shows how often its owner meant it. -/
theorem value_of_sole {host : String} {wall : Int} {now : Nat} {course : List Move}
    (counter : t.family.isCounter = true) (sole : ((fresh host wall now).follow course).Sole id t) :
    ((fresh host wall now).follow course).metrics.value t =
      ((fresh host wall now).follow course).history.countP fun e =>
        e.source.owner = id ∧ ((fresh host wall now).follow course).series? e = some t := by
  have kempt := kempt_follow host wall now course
  have recorded := recorded_follow host wall now course
  rw [tallied host wall now course counter, tally]
  refine List.countP_congr fun e he => ?_
  rw [countsFor, Option.any_eq_true, decide_eq_true_iff]
  constructor
  · rintro ⟨u, means, slot⟩
    obtain ⟨own, rfl⟩ := sole _ u (series?_mem_counters kempt recorded he means)
      (of_decide_eq_true slot)
    exact ⟨own, means⟩
  · rintro ⟨-, means⟩
    exact ⟨t, means, decide_eq_true rfl⟩

/-- A counter of a publisher that nobody shares shows the answers that mean it. -/
theorem value_of_publisher {host : String} {wall : Int} {now : Nat} {course : List Move} {s : String}
    {f : Except PublishError Unit → Bool}
    (hp : ((fresh host wall now).follow course).publishers.get? id = some p)
    (counter : u.family.isCounter = true) (campaigns : u.family ≠ .campaigns)
    (sole : ((fresh host wall now).follow course).Sole id u)
    (means : ∀ x : Happening, x.heartbeat? p.replicator = some u ↔
      ∃ answer, x = .sent s answer ∧ f answer = true) :
    ((fresh host wall now).follow course).metrics.value u =
      (((fresh host wall now).follow course).receipts id s).countP f := by
  rw [value_of_sole counter sole, countP_receipts]
  refine List.countP_congr fun e _ => ?_
  obtain ⟨time, source, what⟩ := e
  rw [decide_eq_true_iff]
  cases source with
  | contender id' =>
    refine ⟨fun counts => ?_, fun none => by cases none⟩
    obtain ⟨c, hc, counts⟩ := Option.bind_eq_some_iff.1 counts.2
    simp only [Happening.campaign?] at counts
    split at counts
    · cases counts
      exact absurd rfl campaigns
    · cases counts
  | loop id' j =>
    by_cases own : id' = id
    · subst id'
      rw [series?_of_publisher hp, means, ← Happening.any_answer?_iff]
      simp [Source.owner, Event.pulse?]
    · simp [Source.owner, Event.pulse?, own]

theorem value_published {host : String} {wall : Int} {now : Nat} {course : List Move} {s : String}
    (hp : ((fresh host wall now).follow course).publishers.get? id = some p)
    (sole : ((fresh host wall now).follow course).Sole id (.published p.replicator s)) :
    ((fresh host wall now).follow course).metrics.value (.published p.replicator s) =
      (((fresh host wall now).follow course).receipts id s).countP (·.isOk) := by
  refine value_of_publisher hp rfl (fun family => by cases family) sole fun x => ?_
  cases x with
  | noted | passed | sending => simp [Happening.heartbeat?]
  | sent s' answer => cases answer <;> simp [Happening.heartbeat?, Except.isOk, Except.toBool]

theorem value_publishErrors {host : String} {wall : Int} {now : Nat} {course : List Move} {s : String}
    (hp : ((fresh host wall now).follow course).publishers.get? id = some p)
    (sole : ((fresh host wall now).follow course).Sole id (.publishErrors p.replicator s)) :
    ((fresh host wall now).follow course).metrics.value (.publishErrors p.replicator s) =
      (((fresh host wall now).follow course).receipts id s).countP (!·.isOk) := by
  refine value_of_publisher hp rfl (fun family => by cases family) sole fun x => ?_
  cases x with
  | noted | passed | sending => simp [Happening.heartbeat?]
  | sent s' answer => cases answer <;> simp [Happening.heartbeat?, Except.isOk, Except.toBool]

end World

/-! ## Campaigns -/

namespace Election

/-- The standing in which a campaign has ended that the listener hears of. -/
def Note.concluded? : Note → Option Standing
  | .campaigned _ standing _ => some standing
  | _ => none

theorem concluded?_opening (r : Run) (q : Request) : (r.opening q).filterMap Note.concluded? = [] := by
  unfold Run.opening
  split <;> rfl

theorem concluded?_conclusion (c : Contender) (r : Run) (a? : Option Answer) (draw : Nat) :
    ((c.conclusion r a?).notes ++ (c.conclusion r a?).wait.notes draw).filterMap Note.concluded? =
      [standingAfter a?] := by
  have waits (wait : Wait) : (wait.notes draw).filterMap Note.concluded? = [] := by
    cases wait with
    | plain => rfl
    | backoff strategy failures =>
      simp only [Wait.notes]
      split <;> rfl
  have ends (hasBackoff : Bool) (tick : Nat) (before after : Standing) :
      (notesOf hasBackoff tick before after).filterMap Note.concluded? = [after] := by
    cases hasBackoff <;> cases before <;> cases after <;> rfl
  rw [List.filterMap_append, waits, List.append_nil]
  exact ends ..

/-- In a turn a campaign ends as its answer says. -/
theorem Turn.concluded {now delay draw : Nat} {c : Contender} {s : Lease.Store} {i : Nat} {o : Outcome}
    (t : Turn now delay draw c s i o) (orderly : Orderly c) :
    o.notes.filterMap Note.concluded? =
      (o.notes.filterMap Note.reply?).map fun x => standingAfter (some x.2) := by
  have unasked (r : Run) (q : Request) : (r.opening q).filterMap Note.reply? = [] :=
    List.filterMap_eq_nil_iff.2 fun _ => reply?_opening
  cases t with
  | still | refused | left | asks => rfl
  | @breaks _ r q => rw [concluded?_opening, unasked, List.map_nil]
  | @acts d r q u a =>
    have silent : ((d.conclusion r (some a)).notes ++
        (d.conclusion r (some a)).wait.notes draw).filterMap Note.reply? = [] :=
      List.filterMap_eq_nil_iff.2 fun _ told => Note.reply?_eq_none (isCall_conclusion told)
    rw [List.filterMap_append, List.filterMap_append, concluded?_opening, unasked,
      List.filterMap_cons_none rfl, concluded?_conclusion,
      List.filterMap_cons_some (show Note.reply? (.answered q a) = some (q, a) from rfl), silent]
    rfl
  | idles engages _ _ _ request => exact absurd request (Turn.request?_ne_none engages orderly)

end Election

namespace World

variable {w : World} {m : Move} {id : String} {p : Publisher} {c : Contender}

/-- The standings in which the campaigns of a contender have ended, latest first. -/
def standings (w : World) (id : String) : List Standing := (w.notes id).filterMap (·.2.concluded?)

theorem standings_move (ordered : w.Ordered) (m : Move)
    (before : w.standings id = (w.answers id).map fun x => standingAfter (some x.2.2)) :
    (w.move m).standings id = ((w.move m).answers id).map fun x => standingAfter (some x.2.2) := by
  have still (quiet : (w.move m).notes id = w.notes id) : (w.move m).standings id =
      ((w.move m).answers id).map fun x => standingAfter (some x.2.2) := by
    rw [standings, answers, quiet]
    exact before
  cases w.played m with
  | @turn id' c i draw o poll was turn effect =>
    by_cases own : id' = id
    · subst id'
      have told : (o.notes.map (w.now, ·)).reverse.filterMap (·.2.concluded?) =
          (o.notes.filterMap Note.concluded?).reverse := by
        rw [List.filterMap_reverse, List.filterMap_map]
        rfl
      have replied : ((o.notes.map (w.now, ·)).reverse.filterMap Note.timedReply?).map
          (fun x => standingAfter (some x.2.2)) =
            ((o.notes.filterMap Note.reply?).map fun x => standingAfter (some x.2)).reverse := by
        rw [List.filterMap_reverse, List.filterMap_map, List.map_reverse, List.map_filterMap,
          List.map_filterMap]
        simp [Function.comp_def, Note.timedReply?]
      rw [standings, answers, effect.notes, if_pos rfl, List.filterMap_append, List.filterMap_append,
        List.map_append, told, replied, turn.concluded (ordered was)]
      exact congrArg (_ ++ ·) before
    · exact still (by rw [effect.notes, if_neg own, List.nil_append])
  | beat _ _ _ effect => exact still (effect.notes id)
  | call called => exact still (notes_congr called.recast.history id)
  | stage staged => exact still (notes_congr staged.history id)

/-- Campaigns end as the answers of the store say, one by one. -/
theorem standings_eq (host : String) (wall : Int) (now : Nat) (course : List Move) (id : String) :
    ((fresh host wall now).follow course).standings id =
      (((fresh host wall now).follow course).answers id).map fun x => standingAfter (some x.2.2) := by
  have both := follow_induct (w := fresh host wall now) course
    (I := fun w => w.Ordered ∧ w.standings id = (w.answers id).map fun x => standingAfter (some x.2.2))
    ⟨fun h => by simp at h, rfl⟩ fun v m h => ⟨ordered_move h.1 m, standings_move h.1 m h.2⟩
  exact both.2

theorem value_campaigns {host : String} {wall : Int} {now : Nat} {course : List Move} {x : Standing}
    (hc : ((fresh host wall now).follow course).contenders.get? id = some c)
    (sole : ((fresh host wall now).follow course).Sole id
      (.campaigns c.candidacy.replicator c.candidacy.name x)) :
    ((fresh host wall now).follow course).metrics.value
      (.campaigns c.candidacy.replicator c.candidacy.name x) =
        (((fresh host wall now).follow course).standings id).count x := by
  rw [value_of_sole rfl sole, standings, notes, List.filterMap_filterMap, List.count, List.countP_filterMap]
  refine List.countP_congr fun e _ => ?_
  obtain ⟨time, source, what⟩ := e
  rw [decide_eq_true_iff]
  cases source with
  | contender id' =>
    by_cases own : id' = id
    · subst id'
      rw [series?_of_contender hc]
      cases what with
      | passed | sending | sent => simp [Source.owner, Event.note?, Happening.campaign?]
      | noted n => cases n <;> simp [Source.owner, Event.note?, Happening.campaign?, Note.concluded?]
    · cases what <;> simp [Source.owner, Event.note?, own]
  | loop id' j =>
    refine ⟨fun counts => ?_, fun none => by simp [Event.note?] at none⟩
    obtain ⟨p, hp, counts⟩ := Option.bind_eq_some_iff.1 counts.2
    cases what with
    | noted | passed | sending => cases counts
    | sent s answer => cases answer <;> cases counts

/-! ## Accounts -/

/-- Every call of a publisher's loops on a subject is accounted for: each one is answered, still in flight,
or was dropped when its loop ended, and then it is never answered. The counters show the answers. -/
structure Accounts (w : World) (id : String) (p : Publisher) (s : String) : Prop where
  published : w.Sole id (.published p.replicator s) →
    w.metrics.value (.published p.replicator s) = (w.receipts id s).countP (·.isOk)
  refused : w.Sole id (.publishErrors p.replicator s) →
    w.metrics.value (.publishErrors p.replicator s) = (w.receipts id s).countP (!·.isOk)
  calls : (w.calls id s).length = (w.receipts id s).length + (w.outstanding id s).card
  outstanding : ∀ j ∈ w.outstanding id s, ∃ l, p.loops[j]? = some l ∧ l.schedule.subject = s ∧
    ((∃ t m due, l.phase = .sending t m due) ∨ l.phase = .over ∧ p.cancelled = true)
  dropped : ∀ j l, p.loops[j]? = some l → l.phase = .over →
    ∀ rest, (w.follow rest).diary id j = w.diary id j

theorem accounts_follow {host : String} {wall : Int} {now : Nat} {course : List Move}
    (hp : ((fresh host wall now).follow course).publishers.get? id = some p) (s : String) :
    ((fresh host wall now).follow course).Accounts id p s := by
  have kempt := kempt_follow host wall now course
  have recorded := recorded_follow host wall now course id
  constructor
  case published => exact value_published hp
  case refused => exact value_publishErrors hp
  case calls => exact calls_eq hp recorded s
  case outstanding =>
    intro j left
    obtain ⟨l, loop, subject, stands⟩ := loop_of_outstanding hp (recorded j) left
    exact ⟨l, loop, subject, stands.imp_right fun ended => ⟨ended, (kempt.fits hp).ended loop ended⟩⟩
  case dropped =>
    exact fun j l loop ended rest => diary_of_over kempt ((loop?_of_publisher hp).trans loop) ended rest

/-- Counters account for every call exactly once. A publisher's counters show how many of its calls were
taken and refused, unless somebody else counts in the slot. An outbox that only it uses holds the ones that
were taken. Calls that are not answered are in flight or were dropped, and neither counted nor kept. A
contender's counters show how its campaigns have ended, which is as the store has answered them. -/
theorem accounted (host : String) (wall : Int) (now : Nat) (course : List Move) :
    (∀ {id p} s, ((fresh host wall now).follow course).publishers.get? id = some p →
      ((fresh host wall now).follow course).Accounts id p s ∧
      (((fresh host wall now).follow course).Owns id p.outbox →
        (∀ m ∈ course, m.posts? ≠ some p.outbox) →
        (((fresh host wall now).follow course).outbox p.outbox).count s =
          (((fresh host wall now).follow course).receipts id s).countP (·.isOk))) ∧
    ∀ {id c}, ((fresh host wall now).follow course).contenders.get? id = some c →
      ((fresh host wall now).follow course).standings id =
        (((fresh host wall now).follow course).answers id).map (fun x => standingAfter (some x.2.2)) ∧
      ∀ x, ((fresh host wall now).follow course).Sole id
          (.campaigns c.candidacy.replicator c.candidacy.name x) →
        ((fresh host wall now).follow course).metrics.value
          (.campaigns c.candidacy.replicator c.candidacy.name x) =
            (((fresh host wall now).follow course).standings id).count x := by
  constructor
  · exact fun s hp => ⟨accounts_follow hp s, fun own quiet => own.count_outbox hp quiet s⟩
  · exact fun hc => ⟨standings_eq host wall now course _, fun x => value_campaigns hc⟩

/-- A publisher is suspended at its first tick. Then it leads, and of three heartbeats the first one is
refused, the second one sent, and the third one dropped when it is cancelled. -/
def closeout : List Move :=
  premiere ++ .startPublisher "p" false :: (season ++ [.setFailing "o" false, .advance 5000000000,
    .poll (.loop "p" 0) 0, .setOutboxDelay "o" 1000000000, .advance 5000000000, .poll (.loop "p" 0) 0,
    .cancelPublisher "p", .poll (.loop "p" 0) 0])

theorem accounted_closeout :
    ((fresh "h" 0 0).follow closeout).Sole "p" (.published "r" "s") ∧
    ((fresh "h" 0 0).follow closeout).metrics.value (.published "r" "s") = 1 ∧
    ((fresh "h" 0 0).follow closeout).Sole "p" (.publishErrors "r" "s") ∧
    ((fresh "h" 0 0).follow closeout).metrics.value (.publishErrors "r" "s") = 1 ∧
    ((fresh "h" 0 0).follow closeout).Owns "p" "o" ∧ (∀ m ∈ closeout, m.posts? ≠ some "o") ∧
    (((fresh "h" 0 0).follow closeout).outbox "o").count "s" = 1 ∧
    (((fresh "h" 0 0).follow closeout).calls "p" "s").length = 2 + 1 ∧
    (∀ rest, (((fresh "h" 0 0).follow closeout).follow rest).diary "p" 0 =
      ((fresh "h" 0 0).follow closeout).diary "p" 0) ∧
    ((fresh "h" 0 0).follow closeout).Sole "p" (.campaigns "r" "e" .leader) ∧
    ((fresh "h" 0 0).follow closeout).metrics.value (.campaigns "r" "e" .leader) = 1 := by
  have opened : (((fresh "h" 0 0).follow closeout).publishers.get? "p").map
      (fun p => (p.replicator, p.outbox, p.loops.map (·.phase.deadline?))) =
        some ("r", "o", [none]) := by decide +kernel
  have enrolled : (((fresh "h" 0 0).follow closeout).contenders.get? "p").map
      (fun c => (c.candidacy.replicator, c.candidacy.name)) = some ("r", "e") := by decide +kernel
  have alone : ((fresh "h" 0 0).follow closeout).Sole "p" (.published "r" "s") ∧
      ((fresh "h" 0 0).follow closeout).Sole "p" (.publishErrors "r" "s") ∧
      ((fresh "h" 0 0).follow closeout).Sole "p" (.campaigns "r" "e" .leader) := by decide +kernel
  have own : ((fresh "h" 0 0).follow closeout).Owns "p" "o" ∧ ∀ m ∈ closeout, m.posts? ≠ some "o" := by
    decide +kernel
  have answered : (((fresh "h" 0 0).follow closeout).receipts "p" "s").countP (·.isOk) = 1 ∧
      (((fresh "h" 0 0).follow closeout).receipts "p" "s").countP (!·.isOk) = 1 ∧
      (((fresh "h" 0 0).follow closeout).receipts "p" "s").length = 2 ∧
      ((fresh "h" 0 0).follow closeout).outstanding "p" "s" = {0} := by decide +kernel
  have won : (((fresh "h" 0 0).follow closeout).answers "p").map (fun x => standingAfter (some x.2.2)) =
      [.leader] := by decide +kernel
  obtain ⟨p, hp, terms⟩ := Option.map_eq_some_iff.1 opened
  obtain ⟨c, hc, label⟩ := Option.map_eq_some_iff.1 enrolled
  simp only [Prod.mk.injEq] at terms label
  obtain ⟨replicator, outbox, phases⟩ := terms
  obtain ⟨taken, declined, length, left⟩ := answered
  obtain ⟨publishers, contenders⟩ := accounted "h" 0 0 closeout
  obtain ⟨accounts, kept⟩ := publishers "s" hp
  obtain ⟨ends, campaigns⟩ := contenders hc
  have published := replicator ▸ accounts.published
  have refused := replicator ▸ accounts.refused
  have campaigns := campaigns .leader
  rw [outbox] at kept
  rw [label.1, label.2] at campaigns
  refine ⟨alone.1, (published alone.1).trans taken, alone.2.1, (refused alone.2.1).trans declined, own.1,
    own.2, (kept own.1 own.2).trans taken, ?_, ?_, alone.2.2, ?_⟩
  · rw [accounts.calls, length, left]
    rfl
  · obtain ⟨l, loop, -, stands⟩ := accounts.outstanding 0 (left ▸ Finset.mem_singleton_self 0)
    refine accounts.dropped 0 l loop ?_
    rcases stands with ⟨t, m, due, sending⟩ | ⟨ended, -⟩
    · -- the loop waits for no timer
      have none := congrArg (·[0]?) phases
      rw [List.getElem?_map, loop, Option.map_some, sending] at none
      cases none
    · exact ended
  · rw [campaigns alone.2.2, ends, won]
    rfl

/-- Two publishers of other labels send a heartbeat each. -/
def unison : List Move :=
  [subscribe "p" "a" "bc" false, subscribe "q" "ab" "c" false, .startPublisher "p" false,
    .startPublisher "q" false, .poll (.loop "p" 0) 0, .poll (.loop "q" 0) 0, .advance 5000000000,
    .poll (.loop "p" 0) 0, .poll (.loop "q" 0) 0]

/-- Different labels are not enough: the counters of the subject `bc` of the label `a` and of the subject
`c` of the label `ab` share a slot, and each of them shows the heartbeats of both. -/
theorem accounts_mixed :
    (((fresh "h" 0 0).follow unison).publishers.toList.map fun row => (row.1, row.2.replicator)) =
      [("p", "a"), ("q", "ab")] ∧
    ((fresh "h" 0 0).follow unison).contenders.toList.length = 0 ∧
    (((fresh "h" 0 0).follow unison).receipts "p" "bc").countP (·.isOk) = 1 ∧
    ((fresh "h" 0 0).follow unison).metrics.value (.published "a" "bc") = 2 := by
  decide +kernel

end World

end Tenure
