import Mathlib.Algebra.BigOperators.Group.Finset.Piecewise
import Tenure.Proofs.Heartbeat.Diary
import Tenure.Proofs.World.Tally

/-!
# Calls and their answers

- **Calls** (`Serial.calls_eq`): a loop's calls are answered, but for one that is under way or was dropped.
- **Publishers** (`pulses`, `calls_eq`): so are those of all the loops of a publisher, whose turns come in any
  order. What is left unanswered is in flight or was dropped when the publisher was cancelled
  (`loop_of_outstanding`), and what was dropped is never answered (`diary_of_over`).
- **Outboxes** (`count_outbox_follow`): an outbox that only publishers use keeps the heartbeats that were sent.
-/

namespace Tenure

/-! ## Calls -/

namespace Happening

/-- The message of a call on the subject that begins. -/
def call? (subject : String) : Happening → Option Message
  | .sending m => if m.subject = subject then some m else none
  | .noted _ | .passed | .sent _ _ => none

/-- The answer to a call on the subject. -/
def answer? (subject : String) : Happening → Option (Except PublishError Unit)
  | .sent s answer => if s = subject then some answer else none
  | .noted _ | .passed | .sending _ => none

theorem any_answer?_iff {subject : String} {x : Happening} {f : Except PublishError Unit → Bool} :
    (x.answer? subject).any f = true ↔ ∃ answer, x = .sent subject answer ∧ f answer = true := by
  cases x with
  | noted | passed | sending => simp [answer?]
  | sent s answer => by_cases same : s = subject <;> simp [answer?, same]

/-- Whether a heartbeat is sent on the subject. -/
def delivers (subject : String) (x : Happening) : Bool := (x.answer? subject).any (·.isOk)

end Happening

/-- The call on a subject that was begun last, if nothing has been done since. -/
def underway? (subject : String) (d : List (Nat × Happening)) : Option Message :=
  d.getLast?.bind (·.2.call? subject)

namespace Serial

variable {subject : String} {d : List (Nat × Happening)} {pending? : Option Message}

theorem underway?_eq (h : Serial subject d pending?) (s : String) :
    underway? s d = pending?.bind fun m => if m.subject = s then some m else none := by
  cases h with
  | empty => rfl
  | passes | begins | ends =>
    rw [underway?, List.getLast?_concat]
    rfl

theorem subject_of_pending (h : Serial subject d pending?) {m : Message} (pending : pending? = some m) :
    m.subject = subject := by
  cases h with
  | empty | passes | ends => cases pending
  | begins _ _ topic =>
    cases pending
    exact topic

/-- The answers are those to calls on the loop's own subject. -/
theorem subject_of_mem (h : Serial subject d pending?) {time : Nat} {s : String}
    {answer : Except PublishError Unit} (mem : (time, .sent s answer) ∈ d) : s = subject := by
  induction h with
  | empty => cases mem
  | passes _ _ ih | begins _ _ _ ih =>
    rcases List.mem_append.1 mem with mem | last
    · exact ih mem
    · cases List.mem_singleton.1 last
  | ends before _ ih =>
    rcases List.mem_append.1 mem with mem | last
    · exact ih mem
    · cases List.mem_singleton.1 last
      exact before.subject_of_pending rfl

/-- Every call that was begun is answered, but for one that is left. -/
theorem calls_eq (h : Serial subject d pending?) (s : String) :
    (d.countP fun x => (x.2.call? s).isSome) =
      (d.countP fun x => (x.2.answer? s).isSome) + if (underway? s d).isSome then 1 else 0 := by
  rw [h.underway?_eq s]
  induction h with
  | empty => rfl
  | passes _ _ ih =>
    rw [List.countP_append, List.countP_append, ih]
    rfl
  | begins _ _ _ ih =>
    rw [List.countP_append, List.countP_append, ih, List.countP_singleton, List.countP_singleton]
    rfl
  | @ends d _ m _ _ _ ih =>
    rw [List.countP_append, List.countP_append, ih, List.countP_singleton, List.countP_singleton]
    simp only [Option.bind_some, Option.bind_none, Happening.call?, Happening.answer?]
    split <;> rfl

/-- A call that is under way is one on the loop's own subject. -/
theorem subject_eq_of_underway (h : Serial subject d pending?) {s : String}
    (underway : (underway? s d).isSome = true) : subject = s := by
  rw [h.underway?_eq s] at underway
  cases pending? with
  | none => cases underway
  | some m =>
    by_contra other
    rw [← h.subject_of_pending rfl] at other
    simp [other] at underway

end Serial

/-- A call that has not been answered is in flight, or its loop has ended. -/
theorem Publisher.Phase.Writes.of_underway {subject s : String} {d : List (Nat × Happening)}
    {phase : Publisher.Phase} (h : phase.Writes subject d) (underway : (underway? s d).isSome = true) :
    (∃ t m due, phase = .sending t m due) ∨ phase = .over := by
  cases phase with
  | fresh =>
    rw [show d = [] from h] at underway
    cases underway
  | idle t =>
    rw [Serial.underway?_eq h s] at underway
    cases underway
  | sending t m due => exact .inl ⟨t, m, due, rfl⟩
  | _ => exact .inr rfl

/-! ## Publishers -/

/-- What a loop of the publisher does, if the event is one of that. -/
def Event.pulse? (id : String) (e : Event) : Option Happening :=
  match e.source with
  | .loop id' _ => if id' = id then some e.what else none
  | .contender _ => none

/-- What the loops of a publisher do is the sum of what each of them does. -/
theorem countP_pulses {id : String} {events : List Event} {n : Nat} (f : Happening → Bool)
    (bound : ∀ e ∈ events, ∀ j, e.source = .loop id j → j < n) :
    (events.filterMap (·.pulse? id)).countP f =
      ∑ j ∈ Finset.range n, (events.filterMap (·.deed? id j)).countP fun x => f x.2 := by
  induction events with
  | nil => simp
  | cons e events ih =>
    rw [List.forall_mem_cons] at bound
    have rest := ih bound.2
    obtain ⟨time, source, what⟩ := e
    -- the event is in the diary of its own loop and in no other
    have deeds (j : Nat) : ((⟨time, source, what⟩ :: events).filterMap (Event.deed? id j)).countP
        (fun x => f x.2) = (events.filterMap (Event.deed? id j)).countP (fun x => f x.2) +
          if source = .loop id j ∧ f what then 1 else 0 := by
      by_cases own : source = .loop id j
      · rw [List.filterMap_cons_some (b := (time, what)) (by simp [Event.deed?, Event.beat?, own]),
          List.countP_cons]
        simp [own]
      · rw [List.filterMap_cons_none (by simp [Event.deed?, Event.beat?, own])]
        simp [own]
    simp only [deeds, Finset.sum_add_distrib, ← rest]
    cases source with
    | contender id' => simp [Event.pulse?]
    | loop id' j' =>
      by_cases own : id' = id
      · subst id'
        have here : j' ∈ Finset.range n := Finset.mem_range.2 (bound.1 j' rfl)
        rw [List.filterMap_cons_some (b := what) (by simp [Event.pulse?]), List.countP_cons]
        by_cases counts : f what <;> simp [counts, here]
      · rw [List.filterMap_cons_none (by simp [Event.pulse?, own])]
        simp [own]

namespace Publisher

variable {now : Nat} {wall : Int} {p : Publisher} {box : Outbox} {j : Nat} {o : Outcome} {l : Loop}

/-- A loop that has ended does nothing more. -/
theorem Beat.of_over (b : p.Beat now wall box j o) (loop : p.loops[j]? = some l)
    (ended : l.phase = .over) :
    o.happenings = [] ∧ ∃ l', o.publisher.loops[j]? = some l' ∧ l'.phase = .over := by
  cases b with
  | still => exact ⟨rfl, l, loop, ended⟩
  | ends =>
    refine ⟨rfl, { l with phase := .over }, ?_, rfl⟩
    rw [getElem?_setPhase, if_pos rfl, loop, Option.map_some]
  | begins loop' _ phase | passes loop' _ phase | launches loop' _ phase | sends loop' _ phase
  | completes loop' _ phase =>
    cases loop.symm.trans loop'
    cases ended.symm.trans phase

end Publisher

namespace World

variable {w : World} {m : Move} {id : String} {p : Publisher} {j : Nat} {l : Publisher.Loop}

/-- What the loops of a publisher have done, latest first. -/
def pulses (w : World) (id : String) : List Happening := w.history.filterMap (·.pulse? id)

/-- The calls on a subject that the loops of a publisher have begun, latest first. -/
def calls (w : World) (id subject : String) : List Message := (w.pulses id).filterMap (·.call? subject)

/-- The answers to the calls on a subject that the loops of a publisher have got, latest first. -/
def receipts (w : World) (id subject : String) : List (Except PublishError Unit) :=
  (w.pulses id).filterMap (·.answer? subject)

/-- The loops of a publisher that have begun a call on the subject and done nothing since. -/
def outstanding (w : World) (id subject : String) : Finset Nat :=
  (Finset.range ((w.publishers.get? id).elim 0 (·.loops.length))).filter fun j =>
    (underway? subject (w.diary id j)).isSome

theorem mem_diary_iff {time : Nat} {what : Happening} :
    (time, what) ∈ w.diary id j ↔ ⟨time, .loop id j, what⟩ ∈ w.history := by
  rw [diary, List.mem_reverse, List.mem_filterMap]
  constructor
  · rintro ⟨⟨time', source, what'⟩, mem, deed⟩
    simp only [Event.deed?, Event.beat?, Option.map_eq_some_iff, Option.ite_none_right_eq_some] at deed
    obtain ⟨_, ⟨rfl, same⟩, same'⟩ := deed
    cases same
    cases same'
    exact mem
  · exact fun mem => ⟨_, mem, by simp [Event.deed?, Event.beat?]⟩

/-- What a loop has done, a loop has done that is there. -/
theorem Recorded.exists_loop (h : w.Recorded id j) {x : Nat × Happening} (mem : x ∈ w.diary id j) :
    ∃ l, w.loop? id j = some l := by
  cases loop : w.loop? id j with
  | some l => exact ⟨l, rfl⟩
  | none =>
    rw [h.absent loop] at mem
    cases mem

/-- All calls of a loop on a subject are answered, but for one that is left. -/
theorem Recorded.calls_eq (h : w.Recorded id j) (subject : String) :
    ((w.diary id j).countP fun x => (x.2.call? subject).isSome) =
      ((w.diary id j).countP fun x => (x.2.answer? subject).isSome) +
        if (underway? subject (w.diary id j)).isSome then 1 else 0 := by
  cases loop : w.loop? id j with
  | none =>
    rw [h.absent loop]
    rfl
  | some l =>
    obtain ⟨pending?, serial⟩ := (h.writes l loop).serial
    exact serial.calls_eq subject

/-- All calls of a publisher's loops on a subject are answered, but for those that are left. -/
theorem calls_eq (hp : w.publishers.get? id = some p) (recorded : ∀ j, w.Recorded id j)
    (subject : String) :
    (w.calls id subject).length = (w.receipts id subject).length + (w.outstanding id subject).card := by
  have bound : ∀ e ∈ w.history, ∀ j, e.source = .loop id j → j < p.loops.length := by
    rintro ⟨time, source, what⟩ he j rfl
    obtain ⟨l, loop⟩ := (recorded j).exists_loop (mem_diary_iff.2 he)
    rw [loop?_of_publisher hp] at loop
    exact (List.getElem?_eq_some_iff.1 loop).1
  have total (f : Happening → Bool) : (w.pulses id).countP f =
      ∑ j ∈ Finset.range p.loops.length, (w.diary id j).countP fun x => f x.2 := by
    simp only [pulses, diary, List.countP_reverse]
    exact countP_pulses f bound
  rw [calls, receipts, outstanding, hp, List.length_filterMap_eq_countP, List.length_filterMap_eq_countP,
    total, total, Option.elim_some, Finset.card_filter, ← Finset.sum_add_distrib]
  exact Finset.sum_congr rfl fun j _ => (recorded j).calls_eq subject

/-- A call that has not been answered is in flight, or its loop has ended. -/
theorem loop_of_outstanding (hp : w.publishers.get? id = some p) (recorded : w.Recorded id j)
    {subject : String} (h : j ∈ w.outstanding id subject) :
    ∃ l, p.loops[j]? = some l ∧ l.schedule.subject = subject ∧
      ((∃ t m due, l.phase = .sending t m due) ∨ l.phase = .over) := by
  rw [outstanding, hp, Finset.mem_filter, Finset.mem_range, Option.elim_some] at h
  obtain ⟨place, underway⟩ := h
  have loop : p.loops[j]? = some p.loops[j] := List.getElem?_eq_getElem place
  have writes := recorded.writes _ ((loop?_of_publisher hp).trans loop)
  obtain ⟨pending?, serial⟩ := writes.serial
  exact ⟨p.loops[j], loop, serial.subject_eq_of_underway underway, writes.of_underway underway⟩

/-- A loop that has ended does nothing more. -/
theorem diary_of_over (kempt : w.Kempt) (loop : w.loop? id j = some l) (ended : l.phase = .over)
    (rest : List Move) : (w.follow rest).diary id j = w.diary id j := by
  -- the loop stays ended, so its turns add nothing
  have both := follow_induct (w := w) rest (I := fun v => v.Kempt ∧
    (∃ l, v.loop? id j = some l ∧ l.phase = .over) ∧ v.diary id j = w.diary id j)
    ⟨kempt, ⟨l, loop, ended⟩, rfl⟩ fun v m before => by
      obtain ⟨kempt, ⟨l, loop, ended⟩, same⟩ := before
      refine ⟨kempt.move m, ?_⟩
      rw [diary_move]
      cases loop_move kempt m id j with
      | rests quiet stays => exact ⟨⟨l, stays.trans loop, ended⟩, by rw [quiet, same]; simp⟩
      | made _ absent => cases absent.symm.trans loop
      | @beat p l₀ draw o _ was loop₀ beat effect =>
        cases (loop?_of_publisher was).symm.trans loop |>.symm.trans loop₀
        obtain ⟨nothing, l', loop', ended'⟩ := beat.of_over loop₀ ended
        refine ⟨⟨l', ?_, ended'⟩, ?_⟩
        · rw [loop?_of_publisher ((effect.publishers id).trans (if_pos rfl)), loop']
        · rw [effect.beats, if_pos ⟨rfl, rfl⟩, nothing, same]
          simp
  exact both.2.2

end World

/-! ## Outboxes -/

theorem Outbox.count_congr {box box' : Outbox} (h : box'.latest = box.latest) (subject : String) :
    box'.count subject = box.count subject := by
  rw [count, count, h]

/-- A message is kept iff it is sent. -/
theorem Outbox.count_send (box : Outbox) (m : Message) (subject : String) :
    (box.send m.deliver).1.count subject = box.count subject +
      if (Happening.sent m.subject (box.send m.deliver).2).delivers subject then 1 else 0 := by
  unfold send Happening.delivers Happening.answer?
  by_cases failing : box.failing <;> by_cases same : m.subject = subject <;>
    simp [failing, same, count, Message.deliver, Except.isOk, Except.toBool]

/-- A turn of a loop leaves the heartbeats in the outbox that it has sent. -/
theorem Publisher.Beat.count {now : Nat} {wall : Int} {p : Publisher} {box : Outbox} {j : Nat}
    {o : Publisher.Outcome} (b : p.Beat now wall box j o) (subject : String) :
    o.outbox.count subject = box.count subject + o.happenings.countP (·.delivers subject) := by
  cases b with
  | still | ends | begins | passes | launches => rfl
  | completes => rw [Outbox.count_send, List.countP_singleton]
  | sends =>
    rw [Outbox.count_send, List.countP_cons, List.countP_singleton]
    rfl

/-- The outbox that a message from outside goes to. -/
def Move.posts? : Move → Option String
  | .publish outbox _ => some outbox
  | _ => none

namespace World

variable {w v : World} {m : Move} {id name : String} {p : Publisher}

theorem outbox_recast (h : Recast w v) (name : String) : v.outbox name = w.outbox name := by
  obtain ⟨_, _, _, _, rfl⟩ := h
  rfl

theorem outbox_setOutbox (w : World) (name name' : String) (box : Outbox) :
    (w.setOutbox name box).outbox name' = if name = name' then box else w.outbox name' := by
  simp only [setOutbox, outbox, Table.getD, Table.get?_insert]
  split <;> rfl

/-- Only turns of loops and messages from outside leave something in an outbox. -/
theorem latest_of_idle (idle : m.isTurn = false) (quiet : m.posts? ≠ some name) :
    ((w.move m).outbox name).latest = (w.outbox name).latest := by
  have beside (h : Beside w (w.move m)) : ((w.move m).outbox name).latest = (w.outbox name).latest :=
    congrArg Outbox.latest (outbox_recast h.recast name)
  cases m with
  | openContender id options =>
    exact congrArg Outbox.latest (outbox_recast (called_openContender w id options).recast name)
  | openPublisher id config replicator outbox bucket? relaxations =>
    exact congrArg Outbox.latest (outbox_recast
      (called_openPublisher w id config replicator outbox bucket? relaxations).recast name)
  | startPublisher id cancelled => exact beside (.startPublisher w id cancelled)
  | cancelPublisher id => exact beside (.cancelPublisher w id)
  | poll task draw =>
    cases task with
    | run | loop => cases idle
    | closing id => exact beside (.pollClosing w id)
    | stopping id => exact beside (.pollStopping w id)
  | publish outbox delivery =>
    have other : outbox ≠ name := fun same => quiet (congrArg some same)
    show ((w.setOutbox outbox _).outbox name).latest = _
    rw [outbox_setOutbox, if_neg other]
  | setFailing outbox failing | setOutboxDelay outbox delay =>
    show ((w.setOutbox outbox _).outbox name).latest = _
    rw [outbox_setOutbox]
    split
    · subst outbox
      rfl
    · rfl
  | _ => rfl

/-- Whether the event is that a heartbeat is sent on the subject through the outbox. -/
def posted (w : World) (name subject : String) (e : Event) : Bool :=
  match e.source with
  | .loop id _ => (w.publishers.get? id).any (·.outbox = name) && e.what.delivers subject
  | .contender _ => false

theorem posted_move {e : Event} (known : w.Knows e.source) (m : Move) (name subject : String) :
    (w.move m).posted name subject e = w.posted name subject e := by
  obtain ⟨time, source, what⟩ := e
  cases source with
  | contender id => rfl
  | loop id j =>
    obtain ⟨p, hp⟩ := known
    obtain ⟨p', hp', -, same, -⟩ := publisher_move hp m
    simp only [posted, hp, hp', Option.any_some, same]

/-- What a move leaves in an outbox is what loops send in it, unless it is a message from outside. -/
theorem count_outbox_move (quiet : m.posts? ≠ some name) (subject : String) :
    ((w.move m).outbox name).count subject =
      (w.outbox name).count subject + (w.added m).countP ((w.move m).posted name subject) := by
  have still (history : (w.move m).history = w.history)
      (latest : ((w.move m).outbox name).latest = (w.outbox name).latest) :
      ((w.move m).outbox name).count subject =
        (w.outbox name).count subject + (w.added m).countP ((w.move m).posted name subject) := by
    rw [@added_eq _ _ [] history, Outbox.count_congr latest]
    rfl
  cases w.acted m with
  | idle idle => exact still (history_of_idle idle) (latest_of_idle idle quiet)
  | nobody same => exact still (congrArg history same) (by rw [same])
  | run _ _ _ effect =>
    have box : (w.move m).outbox name = w.outbox name := congrArg (·.getD name {}) effect.outboxes
    have none : (w.added m).countP ((w.move m).posted name subject) = 0 := by
      rw [added_eq effect.history, List.countP_eq_zero]
      intro e he
      obtain ⟨n, -, rfl⟩ := List.mem_map.1 (List.mem_reverse.1 he)
      exact Bool.false_ne_true
    rw [box, none, Nat.add_zero]
  | @loop id p j draw o _ _ beat effect =>
    have after := (effect.publishers id).trans (if_pos rfl)
    have own : o.publisher.outbox = p.outbox := by
      obtain ⟨loops, same⟩ := beat.exists_loops
      rw [same]
    have sent : (w.added m).countP ((w.move m).posted name subject) =
        if p.outbox = name then o.happenings.countP (·.delivers subject) else 0 := by
      rw [added_eq effect.history, List.countP_reverse, List.countP_map]
      by_cases mine : p.outbox = name <;> simp [Function.comp_def, posted, after, own, mine]
    rw [sent, effect.outbox name]
    split
    · rename_i mine
      subst mine
      exact beat.count subject
    · rfl

/-- The outbox holds the heartbeats that were sent through it, if no message comes from outside. -/
theorem count_outbox_follow (host : String) (wall : Int) (now : Nat) {course : List Move}
    (quiet : ∀ m ∈ course, m.posts? ≠ some name) (subject : String) :
    (((fresh host wall now).follow course).outbox name).count subject =
      ((fresh host wall now).follow course).history.countP
        (((fresh host wall now).follow course).posted name subject) := by
  have both : ((fresh host wall now).follow course).Sourced ∧
      (((fresh host wall now).follow course).outbox name).count subject =
        ((fresh host wall now).follow course).history.countP
          (((fresh host wall now).follow course).posted name subject) := by
    refine through_induct (through_of_forall quiet) (I := fun w => w.Sourced ∧
      (w.outbox name).count subject = w.history.countP (w.posted name subject))
      ⟨List.forall_mem_nil _, rfl⟩ fun v m quiet before => ?_
    obtain ⟨sourced, kept⟩ := before
    refine ⟨sourced.move m, ?_⟩
    obtain ⟨events, history⟩ := v.history_move m
    have old : v.history.countP ((v.move m).posted name subject) =
        v.history.countP (v.posted name subject) :=
      List.countP_congr fun e he => by rw [posted_move (sourced e he)]
    rw [count_outbox_move quiet, kept, history, added_eq history, List.countP_append, old, Nat.add_comm]
  exact both.2

/-- Only this publisher, if any, sends through the outbox. -/
def Owns (id name : String) (w : World) : Prop :=
  ∀ id' p, w.publishers.get? id' = some p → p.outbox = name → id' = id

theorem owns_iff : w.Owns id name ↔ ∀ row ∈ w.publishers.toList, row.2.outbox = name → row.1 = id := by
  constructor
  · exact fun h row mem => h row.1 row.2 ((w.publishers.mem_toList_iff row.1 row.2).1 mem)
  · exact fun h id' p hp => h (id', p) ((w.publishers.mem_toList_iff id' p).2 hp)

instance (id name : String) : DecidablePred (Owns id name) := fun _ => decidable_of_iff _ owns_iff.symm

theorem countP_receipts (w : World) (id subject : String) (f : Except PublishError Unit → Bool) :
    (w.receipts id subject).countP f =
      w.history.countP fun e => (e.pulse? id).any fun x => (x.answer? subject).any f := by
  rw [receipts, pulses, List.filterMap_filterMap, List.countP_filterMap]
  refine List.countP_congr fun e _ => ?_
  cases e.pulse? id with
  | none => rfl
  | some x => cases hx : x.answer? subject <;> simp [hx]

/-- In an outbox of its own a publisher finds the heartbeats that it has sent. -/
theorem Owns.count_outbox {host : String} {wall : Int} {now : Nat} {course : List Move}
    (own : ((fresh host wall now).follow course).Owns id p.outbox)
    (hp : ((fresh host wall now).follow course).publishers.get? id = some p)
    (quiet : ∀ m ∈ course, m.posts? ≠ some p.outbox) (subject : String) :
    (((fresh host wall now).follow course).outbox p.outbox).count subject =
      (((fresh host wall now).follow course).receipts id subject).countP (·.isOk) := by
  rw [count_outbox_follow host wall now quiet, countP_receipts]
  refine List.countP_congr fun e _ => ?_
  obtain ⟨time, source, what⟩ := e
  cases source with
  | contender id' => rfl
  | loop id' j =>
    by_cases mine : id' = id
    · subst id'
      simp [posted, Event.pulse?, Happening.delivers, hp]
    · cases hp' : ((fresh host wall now).follow course).publishers.get? id' with
      | none => simp [posted, Event.pulse?, hp', mine]
      | some p' =>
        have other : p'.outbox ≠ p.outbox := fun same => mine (own id' p' hp' same)
        simp [posted, Event.pulse?, hp', mine, other]

end World

end Tenure
