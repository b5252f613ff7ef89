import Tenure.Table

/-!
# Headers

Headers are texts under names. The headers of one subject are laid over the global ones and win
where both give a name.

* `get?_merge`: look-up in merged headers.
-/

namespace Tenure

/-- Texts under names. -/
abbrev Headers := Table String String

namespace Headers

/-- The header with the host that publishes. -/
def originator : String := "Originator"

/-- The header with the subject that is published to. -/
def subject : String := "Subject"

/-- Lays the headers of a subject over the global ones. -/
def merge (global own : Headers) : Headers := global.insertMany own.toList

/-- A merged header is the subject's own if it has one, else the global one. -/
theorem get?_merge (global own : Headers) (name : String) :
    (merge global own).get? name = (own.get? name).or (global.get? name) := by
  rw [merge, Table.get?_insertMany]
  congr 1
  have hn : (own.toList.reverse.map Prod.fst).Nodup := by
    rw [List.map_reverse]; exact List.pairwise_reverse.2 (own.nodup.imp Ne.symm)
  cases h : own.get? name with
  | some v =>
    rw [← Table.mem_toList_iff] at h
    exact Table.find?_of_mem hn (List.mem_reverse.2 h)
  | none =>
    rw [Table.get?, Table.find?_eq_none] at h
    rw [Table.find?_eq_none, List.map_reverse, List.mem_reverse]
    exact h

end Headers

end Tenure
