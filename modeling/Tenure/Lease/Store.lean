import Tenure.Duration.Clock
import Tenure.Heartbeat.Message

/-!
# A store of leased keys

A store holds a value under a key for the length of a lease. Every write takes the next revision of
the whole store. A lease that has run out leaves its row behind: a row counts only before its
deadline.

* `create` needs a key without a live row, `update` a live row with the given revision.
* A refused call changes nothing.
-/

namespace Tenure

/-- Why a store refuses a write. -/
inductive StoreError where
  /-- The key has a live row, or its revision is another one. -/
  | conflict (key : String)
  /-- The lease of the key ran out. -/
  | expired (key : String)
  /-- The store cannot be reached. -/
  | unavailable (reason : String)
  /-- The lease would end beyond the range of the clock. -/
  | beyondClock
deriving DecidableEq

namespace StoreError

/-- The refusal in words. -/
def message : StoreError → String
  | .conflict key => "revision conflict on key " ++ key
  | .expired key => "key " ++ key ++ " expired"
  | .unavailable reason => "store unavailable: " ++ reason
  | .beyondClock => Overflow.deadline.message

/-- Whether another contender is behind the refusal. -/
def isContention : StoreError → Bool
  | .conflict _ | .expired _ => true
  | .unavailable _ | .beyondClock => false

end StoreError

namespace Lease

/-- A written value. -/
structure Row where
  /-- The value. -/
  value : Bytes
  /-- The revision of the write. -/
  revision : Nat
  /-- The instant from which the row no longer counts. -/
  deadline : Nat
deriving DecidableEq

/-- Whether the row counts. -/
def Row.isLive (r : Row) (now : Nat) : Bool := now < r.deadline

/-- A store of leased keys. -/
structure Store where
  /-- The row written last under each key. -/
  rows : Table String Row := .empty
  /-- The last revision that was given out. The count has no end here; one of 64 bits is the same for fewer
  than 2⁶⁴ writes. -/
  issued : Nat := 0
  /-- Whether writes are answered. -/
  available : Bool := true

namespace Store

/-- The refusal of a store that is switched off. -/
def offline : StoreError := .unavailable "bucket offline"

/-- The live row of a key. -/
def live? (s : Store) (now : Nat) (key : String) : Option Row :=
  (s.rows.get? key).filter (·.isLive now)

/-- The value and revision of a key. Reading needs no connection. -/
def get? (s : Store) (now : Nat) (key : String) : Option (Bytes × Nat) :=
  (s.live? now key).map fun r => (r.value, r.revision)

/-- Ends the lease of a key at once. -/
def expire (s : Store) (key : String) : Store := { s with rows := s.rows.erase key }

/-- Switches the answers to writes on or off. -/
def setAvailable (s : Store) (available : Bool) : Store := { s with available := available }

/-- Takes the next revision and leaves the rows as they are. -/
def advance (s : Store) : Store := { s with issued := s.issued + 1 }

/-- Writes a row. -/
def put (s : Store) (key : String) (row : Row) : Store :=
  { s with rows := s.rows.insert key row }

/-- Writes a key that has no live row. A lease that would end beyond the clock's range uses a
revision up and writes nothing. -/
def create (s : Store) (now : Nat) (key : String) (value : Bytes) (ttl : Duration) :
    Store × Except StoreError Nat :=
  if !s.available then (s, .error offline)
  else match s.live? now key with
    | some _ => (s, .error (.conflict key))
    | none =>
      let revision := s.issued + 1
      match Clock.after now ttl with
      | .ok deadline => (s.advance.put key ⟨value, revision, deadline⟩, .ok revision)
      | .error _ => (s.advance, .error .beyondClock)

/-- Replaces the live row of a key that has the expected revision. A lease that would end beyond
the clock's range leaves the deadline as it was. -/
def update (s : Store) (now : Nat) (key : String) (value : Bytes) (expected : Nat)
    (ttl : Duration) : Store × Except StoreError Nat :=
  if !s.available then (s, .error offline)
  else match s.rows.get? key with
    | none => (s, .error (.conflict key))
    | some row =>
      if !row.isLive now then (s, .error (.expired key))
      else if row.revision ≠ expected then (s, .error (.conflict key))
      else
        let revision := s.issued + 1
        match Clock.after now ttl with
        | .ok deadline => (s.advance.put key ⟨value, revision, deadline⟩, .ok revision)
        | .error _ => (s.advance.put key ⟨value, revision, row.deadline⟩, .error .beyondClock)

end Store

end Lease

end Tenure
