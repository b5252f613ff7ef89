import Mathlib.Data.List.InsertIdx
import Tenure.Proofs.Election.Transcript
import Tenure.Proofs.World.Moves

/-!
# One more call of `run`

A world in which a contender has one more call of `run` (`World.joined`). As long as that call has no
turns, everything does in it what it does without the call, which at most is cancelled.

- **Places** (`seat`, `unseat`): later calls of that contender are one place further.
- **The contender** (`Contender.withRun`): what is done to it with and without the call.
- **The world** (`joined`, `HasSeat`): turns of other calls go by their places (`pollRun_joined`).
  Cancelling calls of the contender may cancel the additional one too (`cancel_joined`).
-/

namespace Tenure

open Election

/-- The place of a call of `run` if there is one more call at place `n`. -/
def seat (n j : Nat) : Nat := if j < n then j else j + 1

/-- The place of a call of `run` without the call at place `n`. -/
def unseat (n j : Nat) : Nat := if j < n then j else j - 1

section

variable {n j k : Nat}

theorem seat_unseat (h : j ≠ n) : seat n (unseat n j) = j := by
  grind [seat, unseat]

theorem seat_ne (n j : Nat) : seat n j ≠ n := by
  grind [seat]

theorem seat_eq_iff_of_lt (h : k < n) : seat n j = k ↔ j = k := by
  grind [seat]

theorem seat_eq_iff_of_gt (h : n < k) : seat n j = k ↔ j = k - 1 := by
  grind [seat]

end

/-! ## One more call -/

namespace Election.Contender

/-- The contender with one more call of `run`, at place `n`. -/
def withRun (n : Nat) (x : Run) (c : Contender) : Contender :=
  { c with runs := c.runs.insertIdx n x }

variable {c : Contender} {n : Nat} {x : Run}

theorem getElem?_withRun_seat (j : Nat) :
    (c.withRun n x).runs[seat n j]? = c.runs[j]? := by
  unfold withRun seat
  rw [List.getElem?_insertIdx]
  by_cases h : j < n
  · rw [if_pos h, if_pos h]
  · rw [if_neg h, if_neg (by omega), if_neg (by omega), Nat.add_sub_cancel]

theorem getElem?_withRun_self (fits : n ≤ c.runs.length) : (c.withRun n x).runs[n]? = some x := by
  unfold withRun
  rw [List.getElem?_insertIdx, if_neg (Nat.lt_irrefl n), if_pos rfl, if_pos fits]

theorem modifyRun_withRun (c : Contender) (j : Nat) (f : Run → Run) :
    (c.withRun n x).modifyRun (seat n j) f = (c.modifyRun j f).withRun n x := by
  unfold withRun modifyRun
  congr 1
  apply List.ext_getElem?
  intro k
  simp only [List.getElem?_modify, List.getElem?_insertIdx, List.length_modify]
  rcases Nat.lt_trichotomy k n with h | rfl | h
  · simp only [if_pos h, seat_eq_iff_of_lt h]
  · simp only [Nat.lt_irrefl, if_true, if_false, seat_ne, id_map']
  · simp only [if_neg (Nat.lt_asymm h), if_neg (Nat.ne_of_gt h), seat_eq_iff_of_gt h]

/-- What is done to the additional call. -/
theorem modifyRun_withRun_self (c : Contender) (f : Run → Run) :
    (c.withRun n x).modifyRun n f = c.withRun n (f x) := by
  unfold withRun modifyRun
  congr 1
  apply List.ext_getElem?
  intro k
  simp only [List.getElem?_modify, List.getElem?_insertIdx]
  rcases Nat.lt_trichotomy k n with h | rfl | h
  · simp [h, (Nat.ne_of_lt h).symm]
  · by_cases hk : k ≤ c.runs.length <;> simp [hk]
  · simp [Nat.lt_asymm h, Nat.ne_of_gt h, Nat.ne_of_lt h]

theorem setPhase_withRun (c : Contender) (j : Nat) (p : Phase) :
    (c.withRun n x).setPhase (seat n j) p = (c.setPhase j p).withRun n x :=
  c.modifyRun_withRun j _

theorem leave_withRun (c : Contender) (j : Nat) :
    (c.withRun n x).leave (seat n j) = (c.leave j).withRun n x := by
  unfold leave
  have left := (c.setStanding .candidate).setPhase_withRun (n := n) (x := x) j .over
  exact congrArg (fun d : Contender => { d with looping := false }) left

theorem enter_withRun (c : Contender) (j : Nat) :
    (c.withRun n x).enter (seat n j) = (c.enter j).withRun n x := by
  unfold enter
  have entered := c.modifyRun_withRun (n := n) (x := x) j fun r => { r with ledger := {} }
  exact congrArg (fun d : Contender => { d with looping := true }) entered

theorem settle_withRun (c : Contender) (j : Nat) (e : Conclusion) :
    (c.withRun n x).settle (seat n j) e = (c.settle j e).withRun n x := by
  have standing : (c.withRun n x).standing = c.standing := rfl
  unfold settle
  by_cases h : c.standing = e.standing
  · simp only [standing, if_pos h]
    exact c.modifyRun_withRun j _
  · simp only [standing, if_neg h]
    exact (c.setStanding e.standing).modifyRun_withRun j _

theorem cancel_withRun (c : Contender) (tied : Bool) :
    (c.withRun n x).cancel tied =
      (c.cancel tied).withRun n (if x.tied = tied then { x with cancelled := true } else x) := by
  unfold withRun cancel
  congr 1
  exact List.map_insertIdx ..

theorem cancelRun_withRun (c : Contender) (j : Nat) :
    (c.withRun n x).cancelRun (seat n j) = (c.cancelRun j).withRun n x :=
  c.modifyRun_withRun j _

/-- A call that is made later comes after the additional one. -/
theorem start_withRun (fits : n ≤ c.runs.length) (cancelled tied : Bool) :
    (c.withRun n x).start cancelled tied = (c.start cancelled tied).withRun n x := by
  unfold withRun start
  congr 1
  apply List.ext_getElem?
  intro k
  simp only [List.getElem?_append, List.getElem?_insertIdx, List.length_append, List.length_insertIdx,
    List.length_singleton]
  grind

end Election.Contender

namespace World

variable {w v : World} {id id' : String} {n j : Nat} {x : Run} {c c' : Contender} {r : Run}

/-- The world in which the contender has one more call of `run`, at place `n`. -/
def joined (w : World) (id : String) (n : Nat) (x : Run) : World :=
  w.modifyContender id (·.withRun n x)

/-- The place of a call of `run` of some contender if the contender `id` has one more call at place
`n`. -/
def seatOf (id : String) (n : Nat) (id' : String) (j : Nat) : Nat :=
  if id' = id then seat n j else j

@[simp] theorem now_joined (w : World) (id : String) (n : Nat) (x : Run) :
    (w.joined id n x).now = w.now := rfl

@[simp] theorem host_joined (w : World) (id : String) (n : Nat) (x : Run) :
    (w.joined id n x).host = w.host := rfl

@[simp] theorem nonce_joined (w : World) (id : String) (n : Nat) (x : Run) :
    (w.joined id n x).nonce = w.nonce := rfl

@[simp] theorem publishers_joined (w : World) (id : String) (n : Nat) (x : Run) :
    (w.joined id n x).publishers = w.publishers := rfl

@[simp] theorem bucket_joined (w : World) (id : String) (n : Nat) (x : Run) (name : String) :
    (w.joined id n x).bucket name = w.bucket name := rfl

@[simp] theorem outbox_joined (w : World) (id : String) (n : Nat) (x : Run) (name : String) :
    (w.joined id n x).outbox name = w.outbox name := rfl

/-- Editing commutes with one more call if it does for the contender in question. -/
theorem modifyContender_joined {f g : Contender → Contender} {x' : Run}
    (same : id' = id → ∀ c, w.contenders.get? id = some c →
      f (c.withRun n x) = (g c).withRun n x')
    (other : id' ≠ id → f = g ∧ x = x') :
    (w.joined id n x).modifyContender id' f = (w.modifyContender id' g).joined id n x' := by
  have rows : (w.contenders.modify id (·.withRun n x)).modify id' f =
      (w.contenders.modify id' g).modify id (·.withRun n x') := by
    apply Table.ext
    show List.map _ (List.map _ _) = List.map _ (List.map _ _)
    rw [List.map_map, List.map_map]
    apply List.map_congr_left
    rintro ⟨k, c⟩ row
    have hc := (Table.mem_toList_iff ..).1 row
    by_cases hid : id' = id
    · subst id'
      by_cases hk : k = id
      · subst k
        simp [same rfl c hc]
      · simp [hk]
    · obtain ⟨rfl, rfl⟩ := other hid
      by_cases hk : k = id
      · subst k
        simp [Ne.symm hid]
      · by_cases hk' : k = id' <;> simp [hk, hk', hid]
  exact congrArg (fun t => { w with contenders := t }) rows

/-- Editing a call of `run` commutes with one more call. -/
theorem edit_joined (w : World) (id id' : String) {f : Nat → Contender → Contender}
    (h : ∀ c, f (seat n j) (c.withRun n x) = (f j c).withRun n x) :
    (w.joined id n x).modifyContender id' (f (seatOf id n id' j)) =
      (w.modifyContender id' (f j)).joined id n x := by
  apply modifyContender_joined
  · rintro rfl c -
    unfold seatOf
    rw [if_pos rfl, h]
  · intro hid
    unfold seatOf
    rw [if_neg hid]
    exact ⟨rfl, rfl⟩

theorem setPhase_joined (w : World) (id id' : String) (p : Phase) :
    (w.joined id n x).modifyContender id' (·.setPhase (seatOf id n id' j) p) =
      (w.modifyContender id' (·.setPhase j p)).joined id n x :=
  w.edit_joined id id' (f := fun j c => c.setPhase j p) fun c => c.setPhase_withRun j p

theorem hear_joined (w : World) (id id' : String) (y : Candidacy) (k : Note) :
    hear y id' (w.joined id n x) k = (hear y id' w k).joined id n x := by
  unfold hear hearAtGate
  by_cases hg : y.audience = .gate
  · simp only [if_pos hg]
    rw [show ((w.joined id n x).note id' k).publishers = (w.note id' k).publishers from rfl]
    cases (w.note id' k).publishers.get? id' with
    | none => rfl
    | some p => cases k <;> rfl
  · simp only [if_neg hg]
    rfl

theorem hearAll_joined (w : World) (id id' : String) (y : Candidacy) (notes : List Note) :
    notes.foldl (hear y id') (w.joined id n x) = (notes.foldl (hear y id') w).joined id n x := by
  induction notes generalizing w with
  | nil => rfl
  | cons k notes ih => rw [List.foldl_cons, List.foldl_cons, hear_joined, ih]

theorem beginWait_joined (w : World) (id id' : String) (interval : Duration) (wait : Wait)
    (draw : Nat) : (w.joined id n x).beginWait id' (seatOf id n id' j) interval wait draw =
      (w.beginWait id' j interval wait draw).joined id n x := by
  unfold beginWait
  cases wait with
  | plain => exact setPhase_joined ..
  | backoff strategy failures =>
    dsimp only
    cases strategy.next failures draw with
    | ok d => exact (w.note id' (.backedOff failures d)).setPhase_joined ..
    | error e => exact setPhase_joined ..

theorem leaveRun_joined (w : World) (id id' : String) (y : Candidacy) :
    (w.joined id n x).leaveRun id' (seatOf id n id' j) y =
      (w.leaveRun id' j y).joined id n x := by
  unfold leaveRun
  rw [w.edit_joined id id' (f := fun j c => c.leave j) fun c => c.leave_withRun j]
  rfl

theorem enterRun_joined (w : World) (id id' : String) :
    (w.joined id n x).enterRun id' (seatOf id n id' j) = (w.enterRun id' j).joined id n x :=
  w.edit_joined id id' (f := fun j c => c.enter j) fun c => c.enter_withRun j

section

variable (candidacy : c'.candidacy = c.candidacy) (standing : c'.standing = c.standing)
include candidacy standing

theorem concludeRun_joined (w : World) (id id' : String) (r : Run) (answer? : Option Answer)
    (draw : Nat) : (w.joined id n x).concludeRun id' (seatOf id n id' j) c' r answer? draw =
      (w.concludeRun id' j c r answer? draw).joined id n x := by
  unfold concludeRun
  simp only [candidacy, standing]
  rw [w.edit_joined id id' (f := fun j c => c.settle j _) fun c => c.settle_withRun j _,
    hearAll_joined]
  generalize List.foldl _ _ _ = u
  exact (u.countCampaign c.candidacy _).beginWait_joined ..

theorem actOnStore_joined (w : World) (id id' : String) (r : Run) (q : Request) (draw : Nat) :
    (w.joined id n x).actOnStore id' (seatOf id n id' j) c' r q draw =
      (w.actOnStore id' j c r q draw).joined id n x := by
  unfold actOnStore
  rw [candidacy, bucket_joined, now_joined]
  rcases perform (w.bucket c.candidacy.bucket).store w.now c.candidacy q with ⟨store, answer⟩
  dsimp only
  by_cases broken : answer = .error .beyondClock
  · rw [if_pos broken, if_pos broken]
    exact (w.setStore c.candidacy.bucket store).setPhase_joined ..
  · rw [if_neg broken, if_neg broken]
    exact concludeRun_joined candidacy standing
      ((w.setStore c.candidacy.bucket store).note id' (.answered q answer)) ..

theorem campaign_joined (w : World) (id id' : String) (r : Run) (draw : Nat) :
    (w.joined id n x).campaign id' (seatOf id n id' j) c' r draw =
      (w.campaign id' j c r draw).joined id n x := by
  unfold campaign
  rw [standing]
  cases request? c.standing r.ledger with
  | none => exact concludeRun_joined candidacy standing ..
  | some q =>
    dsimp only
    rw [candidacy]
    show (if (w.bucket c.candidacy.bucket).delay = 0 then _ else _) =
      World.joined (if (w.bucket c.candidacy.bucket).delay = 0 then _ else _) id n x
    by_cases held : (w.bucket c.candidacy.bucket).delay = 0
    · rw [if_pos held, if_pos held]
      exact actOnStore_joined candidacy standing (w.note id' (.asked q)) ..
    · rw [if_neg held, if_neg held]
      exact (w.note id' (.asked q)).setPhase_joined ..

end

/-- What a contender is with one more call of `run`, or without it if it is another one. -/
theorem get?_contenders_joined (hc : w.contenders.get? id' = some c) (id : String) (n : Nat) (x : Run) :
    ∃ c', (w.joined id n x).contenders.get? id' = some c' ∧ c'.candidacy = c.candidacy ∧
      c'.standing = c.standing ∧ c'.looping = c.looping ∧
      ∀ j, c'.runs[seatOf id n id' j]? = c.runs[j]? := by
  unfold joined seatOf
  rw [get?_contenders_modify, hc]
  by_cases hid : id' = id
  · subst id'
    simp only [if_true]
    exact ⟨c.withRun n x, rfl, rfl, rfl, rfl, fun j => Contender.getElem?_withRun_seat j⟩
  · simp only [if_neg hid, if_neg (Ne.symm hid)]
    exact ⟨c, rfl, rfl, rfl, rfl, fun _ => rfl⟩

/-- A turn of another call of `run` does what it would do without the additional one. -/
theorem pollRun_joined (w : World) (id id' : String) (n j draw : Nat) (x : Run) :
    (w.joined id n x).pollRun id' (seatOf id n id' j) draw =
      (w.pollRun id' j draw).joined id n x := by
  unfold pollRun
  rw [now_joined]
  cases hc : w.contenders.get? id' with
  | none =>
    have none : (w.joined id n x).contenders.get? id' = none := by
      unfold joined
      rw [get?_contenders_modify, hc]
      split <;> rfl
    rw [none]
  | some c =>
    obtain ⟨c', hc', candidacy, standing, looping, runs⟩ :=
      get?_contenders_joined hc id n x
    rw [hc']
    dsimp only
    rw [runs]
    cases c.runs[j]? with
    | none => rfl
    | some r =>
      dsimp only
      cases r.phase with
      | fresh =>
        dsimp only
        rw [looping, enterRun_joined, candidacy]
        split
        · exact setPhase_joined ..
        · split
          · exact leaveRun_joined ..
          · exact campaign_joined candidacy standing ..
      | calling q asked due =>
        dsimp only
        rw [candidacy]
        split
        · exact leaveRun_joined ..
        · split
          · exact actOnStore_joined candidacy standing ..
          · rfl
      | waiting due =>
        dsimp only
        rw [candidacy]
        split
        · exact leaveRun_joined ..
        · split
          · exact campaign_joined candidacy standing ..
          · rfl
      | _ => rfl

/-! ## Other moves -/

/-- The contender has a place `n` for a call of `run`. -/
def HasSeat (w : World) (id : String) (n : Nat) : Prop :=
  ∃ c, w.contenders.get? id = some c ∧ n ≤ c.runs.length

theorem HasSeat.move (h : w.HasSeat id n) (m : Move) : (w.move m).HasSeat id n := by
  obtain ⟨c, hc, fits⟩ := h
  cases n with
  | zero =>
    obtain ⟨c', hc'⟩ := exists_contender_move hc m
    exact ⟨c', hc', Nat.zero_le _⟩
  | succ k =>
    obtain ⟨c', r', hc', run', -⟩ := exists_run_move hc (List.getElem?_eq_getElem fits) m
    exact ⟨c', hc', (List.getElem?_eq_some_iff.1 run').1⟩

theorem HasSeat.follow (h : w.HasSeat id n) (course : List Move) : (w.follow course).HasSeat id n := by
  induction course generalizing w with
  | nil => exact h
  | cons m course ih => exact ih (h.move m)

theorem HasSeat.cancel (h : w.HasSeat id n) (id' : String) (tied : Bool) :
    (w.modifyContender id' (·.cancel tied)).HasSeat id n := by
  obtain ⟨c, hc, fits⟩ := h
  unfold HasSeat
  rw [get?_contenders_modify, hc]
  by_cases hid : id' = id
  · refine ⟨c.cancel tied, by rw [if_pos hid]; rfl, ?_⟩
    unfold Contender.cancel
    rwa [List.length_map]
  · exact ⟨c, if_neg hid, fits⟩

theorem isTaken_joined (w : World) (id id' : String) :
    (w.joined id n x).isTaken id' = w.isTaken id' :=
  congrArg (· || w.publishers.contains id') (Table.contains_modify ..)

theorem enrol_joined (w : World) (h : id' ≠ id) (y : Candidacy) :
    (w.joined id n x).enrol id' y = (w.enrol id' y).joined id n x :=
  congrArg (fun t => { w with contenders := t, born := w.born + 1 }) (Table.insert_modify _ _ _ h)

/-- Calls of a contender are cancelled, and the additional call with them if it is one of them. -/
theorem cancel_joined (w : World) (id id' : String) (n : Nat) (x : Run) (tied : Bool) :
    ∃ b, (w.joined id n x).modifyContender id' (·.cancel tied) =
      (w.modifyContender id' (·.cancel tied)).joined id n { x with cancelled := b } := by
  by_cases hid : id' = id
  · refine ⟨x.cancelled || decide (x.tied = tied),
      modifyContender_joined (fun _ c _ => ?_) fun h => absurd hid h⟩
    rw [c.cancel_withRun]
    congr 1
    split <;> simp [*]
  · exact ⟨x.cancelled, modifyContender_joined (fun h => absurd h hid) fun _ => ⟨rfl, rfl⟩⟩

/-- Another call is cancelled by its place. -/
theorem cancelRun_joined (w : World) (id id' : String) (j : Nat) :
    (w.joined id n x).cancelRun id' (seatOf id n id' j) = (w.cancelRun id' j).joined id n x :=
  w.edit_joined id id' (f := fun j c => c.cancelRun j) fun c => c.cancelRun_withRun j

/-- The additional call is cancelled. -/
theorem cancelRun_joined_self (w : World) (id : String) (n : Nat) (x : Run) :
    ∃ b, (w.joined id n x).cancelRun id n = w.joined id n { x with cancelled := b } := by
  refine ⟨x.cancelled || !x.tied, ?_⟩
  unfold cancelRun joined modifyContender
  simp only [Table.modify_modify, Contender.cancelRun, Contender.modifyRun_withRun_self]
  cases x with
  | mk phase ledger cancelled tied => cases tied <;> simp

theorem cancelPublisher_joined (w : World) (id id' : String) (n : Nat) (x : Run) :
    ∃ b, (w.joined id n x).cancelPublisher id' =
      (w.cancelPublisher id').joined id n { x with cancelled := b } :=
  cancel_joined (w.modifyPublisher id' fun p => { p with cancelled := true }) id id' n x true

theorem start_joined (h : w.HasSeat id n) (id' : String) (cancelled tied : Bool) :
    (w.joined id n x).modifyContender id' (·.start cancelled tied) =
      (w.modifyContender id' (·.start cancelled tied)).joined id n x := by
  obtain ⟨c, hc, fits⟩ := h
  refine modifyContender_joined (fun _ c' hc' => ?_) fun _ => ⟨rfl, rfl⟩
  obtain rfl := Option.some.inj (hc.symm.trans hc')
  exact c.start_withRun fits cancelled tied

theorem runPublisher_joined (h : w.HasSeat id n) (id' : String) :
    ((w.joined id n x).runPublisher id').1 = (w.runPublisher id').1.joined id n x := by
  unfold runPublisher
  rw [publishers_joined]
  cases w.publishers.get? id' with
  | none => rfl
  | some p =>
    dsimp only
    by_cases started : p.started = true
    · simp only [if_pos started]
    · simp only [if_neg started]
      cases p.gated with
      | false => rfl
      | true =>
        simp only [if_true]
        have seat : (w.modifyMetrics (announce p)).HasSeat id n := h
        exact congrArg (modifyPublisher · id' _) (start_joined seat id' p.cancelled true)

theorem startPublisher_joined (h : w.HasSeat id n) (id' : String) (cancelled : Bool) :
    ∃ b, ((w.joined id n x).startPublisher id' cancelled).1 =
      (w.startPublisher id' cancelled).1.joined id n { x with cancelled := b } := by
  unfold startPublisher
  cases cancelled with
  | false => exact ⟨x.cancelled, runPublisher_joined h id'⟩
  | true =>
    obtain ⟨b, cancels⟩ := w.cancelPublisher_joined id id' n x
    simp only [if_true, cancels]
    have seat : (w.modifyPublisher id' fun p => { p with cancelled := true }).HasSeat id n := h
    exact ⟨b, runPublisher_joined (seat.cancel id' true) id'⟩

theorem sendBeat_joined (w : World) (id id' : String) (p : Publisher) (t : Ticker) (m : Message) :
    (w.joined id n x).sendBeat id' j p t m = (w.sendBeat id' j p t m).joined id n x := by
  unfold sendBeat countSent
  rw [outbox_joined]
  rcases (w.outbox p.outbox).send m.deliver with ⟨outbox, answer⟩
  cases answer <;> rfl

theorem beat_joined (w : World) (id id' : String) (p : Publisher) (s : Schedule) (t : Ticker) :
    (w.joined id n x).beat id' j p s t = (w.beat id' j p s t).joined id n x := by
  unfold beat
  show (if (w.outbox p.outbox).delay = 0 then _ else _) =
    World.joined (if (w.outbox p.outbox).delay = 0 then _ else _) id n x
  split
  · exact World.sendBeat_joined (w.record (.loop id' j) _) ..
  · rfl

theorem pollLoop_joined (w : World) (id id' : String) (j : Nat) :
    (w.joined id n x).pollLoop id' j = (w.pollLoop id' j).joined id n x := by
  unfold pollLoop
  rw [publishers_joined, now_joined]
  cases w.publishers.get? id' with
  | none => rfl
  | some p =>
    dsimp only
    cases p.loops[j]? with
    | none => rfl
    | some l =>
      dsimp only
      cases l.phase with
      | fresh => cases p.gated <;> cases p.cancelled <;> rfl
      | idle t =>
        dsimp only
        split
        · rfl
        · split
          · rfl
          · split
            · rfl
            · exact beat_joined ..
      | sending t m due =>
        dsimp only
        split
        · rfl
        · split
          · exact sendBeat_joined ..
          · rfl
      | _ => rfl

theorem pollClosing_joined (w : World) (id id' : String) :
    (w.joined id n x).pollClosing id' = (w.pollClosing id').joined id n x := by
  unfold pollClosing
  rw [publishers_joined]
  cases w.publishers.get? id' with
  | none => rfl
  | some p =>
    dsimp only
    split <;> rfl

theorem pollStopping_joined (w : World) (id id' : String) (n : Nat) (x : Run) :
    ∃ b, (w.joined id n x).pollStopping id' =
      (w.pollStopping id').joined id n { x with cancelled := b } := by
  unfold pollStopping
  rw [publishers_joined, now_joined]
  split
  · exact w.cancelPublisher_joined id id' n x
  · exact ⟨x.cancelled, rfl⟩

end World

end Tenure
