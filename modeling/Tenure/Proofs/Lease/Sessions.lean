import Tenure.Proofs.Lease.Writes

/-!
# Sessions with a store

A session is a store in use: the clock, the store, and a record of the calls on it.

- **Calls** (`Operation`, `Session.make`, `Session.run`): any sequence of calls and movements of the
  clock. What a call does is one of a few things (`Session.Made`, `Session.made`).
- **The record** (`granted`, `standing?`): the revisions that were given out, and the row that the
  record alone finds under a key, the last granted write unless its lease was ended since.
- **The store by its record** (`Session.Kept`, `kept_run`): as long as no call breaks off, every key
  has the row that the record finds, and the revisions given out are `1, 2, 3, …`.
-/

namespace Tenure.Lease

/-- A call on a store, or a movement of the clock. -/
inductive Operation where
  /-- A key is written. -/
  | create (key : String) (value : Bytes) (ttl : Duration)
  /-- The row of a key is replaced. -/
  | update (key : String) (value : Bytes) (expected : Nat) (ttl : Duration)
  /-- A key is read. -/
  | get (key : String)
  /-- The lease of a key ends. -/
  | expire (key : String)
  /-- The store is switched on or off. -/
  | setAvailable (available : Bool)
  /-- The clock moves on. -/
  | advance (nanos : Nat)

/-- What a call returns. -/
inductive Reply where
  /-- The revision of a write. -/
  | granted (revision : Nat)
  /-- A refusal. -/
  | refused (e : StoreError)
  /-- What is under a key. -/
  | shown (found? : Option (Bytes × Nat))
  /-- Nothing. -/
  | done
deriving DecidableEq

/-- The reply to a write. -/
def Reply.ofAnswer : Except StoreError Nat → Reply
  | .ok revision => .granted revision
  | .error e => .refused e

namespace Operation

/-- How far the clock moves. -/
def wait : Operation → Nat
  | .advance nanos => nanos
  | _ => 0

/-- The key that the call is about. -/
def key? : Operation → Option String
  | .create key _ _ | .update key _ _ _ | .get key | .expire key => some key
  | .setAvailable _ | .advance _ => none

/-- Whether the call is a write. -/
def isWrite : Operation → Bool
  | .create _ _ _ | .update _ _ _ _ => true
  | _ => false

/-- The lease of a write would end within the range of the clock. -/
def Fits (now : Nat) : Operation → Prop
  | .create _ _ ttl | .update _ _ _ ttl => now + ttl.nanos < Clock.limit
  | _ => True

instance (now : Nat) (op : Operation) : Decidable (op.Fits now) := by
  cases op <;> unfold Fits <;> infer_instance

end Operation

/-- The leases of all writes would end within the range of the clock. -/
def Fit (now : Nat) : List Operation → Prop
  | [] => True
  | op :: ops => op.Fits now ∧ Fit (now + op.wait) ops

instance decidableFit : (now : Nat) → (ops : List Operation) → Decidable (Fit now ops)
  | _, [] => inferInstanceAs (Decidable True)
  | now, op :: ops =>
    have := decidableFit (now + op.wait) ops
    inferInstanceAs (Decidable (_ ∧ _))

/-- A call on a store with its time and what it returned. -/
structure Call where
  /-- The clock. -/
  time : Nat
  /-- The call. -/
  operation : Operation
  /-- What it returned. -/
  reply : Reply

/-- The revision that the call was given. -/
def Call.granted? (c : Call) : Option Nat :=
  match c.reply with
  | .granted revision => some revision
  | _ => none

/-- The row that a record of calls, latest first, finds under a key: that of the last granted write,
unless the lease of the key was ended since. -/
def standing? (key : String) : List Call → Option Row
  | [] => none
  | c :: earlier =>
    match c.operation, c.reply with
    | .create k value ttl, .granted revision | .update k value _ ttl, .granted revision =>
      if k = key then some ⟨value, revision, c.time + ttl.nanos⟩ else standing? key earlier
    | .expire k, _ => if k = key then none else standing? key earlier
    | _, _ => standing? key earlier

/-- A store in use. -/
structure Session where
  /-- The clock. -/
  now : Nat
  /-- The store. -/
  store : Store := {}
  /-- The calls, latest first. -/
  calls : List Call := []

namespace Session

/-- What a call does to the store and what it returns. -/
def answer (s : Session) : Operation → Store × Reply
  | .create key value ttl =>
    let (store, answer) := s.store.create s.now key value ttl
    (store, .ofAnswer answer)
  | .update key value expected ttl =>
    let (store, answer) := s.store.update s.now key value expected ttl
    (store, .ofAnswer answer)
  | .get key => (s.store, .shown (s.store.get? s.now key))
  | .expire key => (s.store.expire key, .done)
  | .setAvailable available => (s.store.setAvailable available, .done)
  | .advance _ => (s.store, .done)

/-- What a call returns. -/
def reply (s : Session) (op : Operation) : Reply := (s.answer op).2

/-- Makes a call and records it. -/
def make (s : Session) (op : Operation) : Session where
  now := s.now + op.wait
  store := (s.answer op).1
  calls := ⟨s.now, op, s.reply op⟩ :: s.calls

/-- Makes calls one after another. -/
def run (s : Session) (ops : List Operation) : Session := ops.foldl make s

@[simp] theorem run_nil (s : Session) : s.run [] = s := rfl

@[simp] theorem run_cons (s : Session) (op : Operation) (ops : List Operation) :
    s.run (op :: ops) = (s.make op).run ops := rfl

theorem run_append (s : Session) (first second : List Operation) :
    s.run (first ++ second) = (s.run first).run second := List.foldl_append

/-- The revisions that were given out, in order. -/
def granted (s : Session) : List Nat := (s.calls.filterMap Call.granted?).reverse

/-- No call broke off. -/
def Whole (s : Session) : Prop := ∀ c ∈ s.calls, c.reply ≠ .refused .beyondClock

instance (s : Session) : Decidable s.Whole := inferInstanceAs (Decidable (∀ c ∈ s.calls, _))

/-! ## What a call does -/

/-- The row that a write would put under its key. -/
def next (s : Session) (value : Bytes) (ttl : Duration) : Row :=
  ⟨value, s.store.issued + 1, s.now + ttl.nanos⟩

/-- What a call does that does not break off. -/
inductive Made (s : Session) : Operation → Store × Reply → Prop
  /-- The store is switched off. -/
  | offline {op : Operation} (write : op.isWrite = true) (unavailable : s.store.available = false) :
      Made s op (s.store, .refused Store.offline)
  /-- A key is to be written that has a live row. -/
  | taken {key : String} {value : Bytes} {ttl : Duration} {row : Row}
      (available : s.store.available = true) (live : s.store.live? s.now key = some row) :
      Made s (.create key value ttl) (s.store, .refused (.conflict key))
  /-- A key without a live row is written. -/
  | created {key : String} {value : Bytes} {ttl : Duration}
      (available : s.store.available = true) (vacant : s.store.live? s.now key = none) :
      Made s (.create key value ttl)
        (s.store.advance.put key (s.next value ttl), .granted (s.store.issued + 1))
  /-- A row is to be replaced that is not there. -/
  | missing {key : String} {value : Bytes} {expected : Nat} {ttl : Duration}
      (available : s.store.available = true) (missing : s.store.rows.get? key = none) :
      Made s (.update key value expected ttl) (s.store, .refused (.conflict key))
  /-- A row is to be replaced whose lease ran out. -/
  | lapsed {key : String} {value : Bytes} {expected : Nat} {ttl : Duration} {row : Row}
      (available : s.store.available = true) (present : s.store.rows.get? key = some row)
      (lapsed : row.deadline ≤ s.now) :
      Made s (.update key value expected ttl) (s.store, .refused (.expired key))
  /-- A live row is to be replaced that has another revision. -/
  | superseded {key : String} {value : Bytes} {expected : Nat} {ttl : Duration} {row : Row}
      (available : s.store.available = true) (live : s.store.live? s.now key = some row)
      (revision : row.revision ≠ expected) :
      Made s (.update key value expected ttl) (s.store, .refused (.conflict key))
  /-- A live row is replaced. -/
  | updated {key : String} {value : Bytes} {expected : Nat} {ttl : Duration} {row : Row}
      (available : s.store.available = true) (live : s.store.live? s.now key = some row)
      (revision : row.revision = expected) :
      Made s (.update key value expected ttl)
        (s.store.advance.put key (s.next value ttl), .granted (s.store.issued + 1))
  | read {key : String} : Made s (.get key) (s.store, .shown (s.store.get? s.now key))
  | ended {key : String} : Made s (.expire key) (s.store.expire key, .done)
  | switched {available : Bool} :
      Made s (.setAvailable available) (s.store.setAvailable available, .done)
  | waited {nanos : Nat} : Made s (.advance nanos) (s.store, .done)

theorem made_create {s : Session} {key : String} {value : Bytes} {ttl : Duration}
    (whole : s.reply (.create key value ttl) ≠ .refused .beyondClock) :
    s.Made (.create key value ttl) (s.answer (.create key value ttl)) := by
  simp only [reply, answer, Store.create] at whole ⊢
  cases hav : s.store.available with
  | false => exact .offline rfl hav
  | true =>
    cases hlive : s.store.live? s.now key with
    | some row => exact .taken hav hlive
    | none =>
      cases hclock : Clock.after s.now ttl with
      | ok deadline =>
        obtain rfl := Clock.eq_of_after hclock
        exact .created hav hlive
      | error o =>
        simp only [hav, hlive, hclock] at whole
        exact absurd rfl whole

theorem made_update {s : Session} {key : String} {value : Bytes} {expected : Nat} {ttl : Duration}
    (whole : s.reply (.update key value expected ttl) ≠ .refused .beyondClock) :
    s.Made (.update key value expected ttl) (s.answer (.update key value expected ttl)) := by
  simp only [reply, answer, Store.update] at whole ⊢
  cases hav : s.store.available with
  | false => exact .offline rfl hav
  | true =>
    cases hrow : s.store.rows.get? key with
    | none => exact .missing hav hrow
    | some row =>
      cases hlive : row.isLive s.now with
      | false =>
        simp only [hlive]
        exact .lapsed hav hrow (by simpa [Row.isLive] using hlive)
      | true =>
        have live : s.store.live? s.now key = some row :=
          Store.live?_eq_some_iff.2 ⟨hrow, by simpa [Row.isLive] using hlive⟩
        by_cases hrev : row.revision = expected
        · cases hclock : Clock.after s.now ttl with
          | ok deadline =>
            obtain rfl := Clock.eq_of_after hclock
            simp only [hlive, Bool.not_true, Bool.false_eq_true, if_false, hrev, ne_eq,
              not_true_eq_false]
            exact .updated hav live hrev
          | error o => simp [hav, hrow, hlive, hrev, hclock, Reply.ofAnswer] at whole
        · simp only [hlive, Bool.not_true, Bool.false_eq_true, if_false, ne_eq, hrev,
            not_false_eq_true, if_true]
          exact .superseded hav live hrev

theorem made {s : Session} {op : Operation} (whole : s.reply op ≠ .refused .beyondClock) :
    s.Made op (s.answer op) := by
  cases op with
  | create => exact made_create whole
  | update => exact made_update whole
  | get => exact .read
  | expire => exact .ended
  | setAvailable => exact .switched
  | advance => exact .waited

/-- A write whose lease would end within the range of the clock does not break off. -/
theorem reply_ne_beyondClock {s : Session} {op : Operation} (fits : op.Fits s.now) :
    s.reply op ≠ .refused .beyondClock := by
  cases op with
  | create key value ttl =>
    have fits : Clock.after s.now ttl = .ok (s.now + ttl.nanos) := if_pos fits
    simp only [reply, answer, Store.create, fits]
    split
    · simp [Reply.ofAnswer, Store.offline]
    · split <;> simp [Reply.ofAnswer]
  | update key value expected ttl =>
    have fits : Clock.after s.now ttl = .ok (s.now + ttl.nanos) := if_pos fits
    simp only [reply, answer, Store.update, fits]
    split
    · simp [Reply.ofAnswer, Store.offline]
    · split
      · simp [Reply.ofAnswer]
      · split
        · simp [Reply.ofAnswer]
        · split <;> simp [Reply.ofAnswer]
  | _ => simp [reply, answer]

theorem whole_of_fit {s : Session} {ops : List Operation} (fit : Fit s.now ops)
    (whole : s.Whole) : (s.run ops).Whole := by
  induction ops generalizing s with
  | nil => exact whole
  | cons op ops ih =>
    refine ih fit.2 fun c hc => ?_
    rcases List.mem_cons.1 hc with rfl | hc
    · exact reply_ne_beyondClock fit.1
    · exact whole c hc

/-- A session goes on from a later store. -/
theorem later_make (s : Session) (op : Operation) : s.store.Later (s.make op).store := by
  cases op with
  | create key value ttl => exact .create ..
  | update key value expected ttl => exact .update ..
  | get key => exact .refl _
  | expire key => exact .expire ..
  | setAvailable available => exact .setAvailable ..
  | advance nanos => exact .refl _

theorem later_run (s : Session) (ops : List Operation) : s.store.Later (s.run ops).store := by
  induction ops generalizing s with
  | nil => exact .refl _
  | cons op ops ih => exact (s.later_make op).trans (ih _)

theorem now_le_run (s : Session) (ops : List Operation) : s.now ≤ (s.run ops).now := by
  induction ops generalizing s with
  | nil => exact Nat.le_refl _
  | cons op ops ih => exact Nat.le_trans (Nat.le_add_right ..) (ih (s.make op))

/-! ## The store by its record -/

/-- Every key has the row that the record finds, and the revisions given out are consecutive. -/
structure Kept (s : Session) : Prop where
  rows : ∀ key, s.store.rows.get? key = standing? key s.calls
  granted : s.granted = List.range' 1 s.store.issued

theorem granted_make_of_granted {s : Session} {op : Operation} {revision : Nat}
    (h : s.reply op = .granted revision) : (s.make op).granted = s.granted ++ [revision] := by
  simp [granted, make, Call.granted?, h]

theorem granted_make_of_ne {s : Session} {op : Operation}
    (h : ∀ revision, s.reply op ≠ .granted revision) : (s.make op).granted = s.granted := by
  have hnone : Call.granted? ⟨s.now, op, s.reply op⟩ = none := by
    unfold Call.granted?
    split
    · exact absurd ‹_› (h _)
    · rfl
  simp [granted, make, hnone]

theorem Kept.make {s : Session} (h : s.Kept) {op : Operation}
    (whole : s.reply op ≠ .refused .beyondClock) : (s.make op).Kept := by
  -- a granted write puts its row under its key and takes the next revision
  have writes {op : Operation} {key : String} {value : Bytes} {ttl : Duration}
      (ha : s.answer op =
        (s.store.advance.put key (s.next value ttl), .granted (s.store.issued + 1)))
      (stands : ∀ k, standing? k (s.make op).calls =
        if key = k then some (s.next value ttl) else standing? k s.calls) : (s.make op).Kept := by
    refine ⟨fun k => ?_, ?_⟩
    · rw [stands, ← h.rows]
      simp only [Session.make, ha, Store.get?_rows_put, Store.rows_advance]
    · rw [granted_make_of_granted (congrArg Prod.snd ha), h.granted]
      simp only [Session.make, ha, Store.issued_put, Store.issued_advance]
      rw [List.range'_concat, Nat.one_mul, Nat.add_comm 1]
  have hmade := made whole
  generalize ha : s.answer op = a at hmade
  have hr : s.reply op = a.2 := congrArg Prod.snd ha
  cases hmade with
  | offline write _ =>
    refine ⟨fun k => ?_, ?_⟩
    · cases op with
      | create | update => simp only [Session.make, ha, hr, standing?, h.rows]
      | _ => cases write
    · rw [granted_make_of_ne (by simp [hr]), h.granted]
      simp only [Session.make, ha]
  | taken | missing | lapsed | superseded =>
    refine ⟨fun k => ?_, ?_⟩
    · simp only [Session.make, ha, hr, standing?, h.rows]
    · rw [granted_make_of_ne (by simp [hr]), h.granted]
      simp only [Session.make, ha]
  | created | updated =>
    exact writes ha fun k => by simp only [Session.make, hr, standing?, next]
  | ended =>
    refine ⟨fun k => ?_, ?_⟩
    · simp only [Session.make, ha, Store.get?_rows_expire, standing?, h.rows]
    · rw [granted_make_of_ne (by simp [hr]), h.granted]
      rfl
  | read | switched | waited =>
    refine ⟨fun k => h.rows k, ?_⟩
    rw [granted_make_of_ne (by simp [hr]), h.granted]
    rfl

theorem calls_subset_run (s : Session) (ops : List Operation) : s.calls ⊆ (s.run ops).calls := by
  induction ops generalizing s with
  | nil => exact List.Subset.refl _
  | cons op ops ih => exact List.Subset.trans (List.subset_cons_self ..) (ih (s.make op))

/-- What every call keeps that does not break off holds at the end of a session. -/
theorem run_induct {P : Session → Prop} {s : Session} {ops : List Operation}
    (whole : (s.run ops).Whole) (base : P s)
    (step : ∀ {s : Session} {op : Operation}, s.reply op ≠ .refused .beyondClock → P s →
      P (s.make op)) : P (s.run ops) := by
  induction ops generalizing s with
  | nil => exact base
  | cons op ops ih =>
    have first := whole _ (calls_subset_run (s.make op) ops (List.mem_cons_self ..))
    exact ih whole (step first base)

theorem kept_run (now : Nat) {ops : List Operation} (whole : (run ⟨now, {}, []⟩ ops).Whole) :
    (run ⟨now, {}, []⟩ ops).Kept :=
  run_induct whole ⟨fun _ => rfl, rfl⟩ fun first kept => kept.make first

/-! ## When writes are granted -/

/-- A key is written iff it has no live row. -/
theorem granted_create_iff {s : Session} {key : String} {value : Bytes} {ttl : Duration}
    (whole : s.reply (.create key value ttl) ≠ .refused .beyondClock) :
    (∃ revision, s.reply (.create key value ttl) = .granted revision) ↔
      s.store.available = true ∧ s.store.live? s.now key = none := by
  have hmade := made whole
  generalize ha : s.answer (.create key value ttl) = a at hmade
  rw [reply, ha]
  cases hmade with
  | offline _ unavailable => simp [unavailable]
  | taken available live => simp [live]
  | created available vacant => simp [available, vacant]

/-- A row is replaced iff it is live and has the expected revision. -/
theorem granted_update_iff {s : Session} {key : String} {value : Bytes} {expected : Nat}
    {ttl : Duration} (whole : s.reply (.update key value expected ttl) ≠ .refused .beyondClock) :
    (∃ revision, s.reply (.update key value expected ttl) = .granted revision) ↔
      s.store.available = true ∧
        ∃ row, s.store.live? s.now key = some row ∧ row.revision = expected := by
  have hmade := made whole
  generalize ha : s.answer (.update key value expected ttl) = a at hmade
  rw [reply, ha]
  cases hmade with
  | offline _ unavailable => simp [unavailable]
  | missing available missing => simp [Store.live?, missing]
  | lapsed available present lapsed =>
    simp [Store.live?_eq_some_iff, present, Nat.not_lt.2 lapsed]
  | superseded available live revision => simp [live, revision]
  | updated available live revision => simp [available, live, revision]

end Session

end Tenure.Lease
