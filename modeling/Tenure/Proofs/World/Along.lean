import Tenure.World.Course

/-!
# What holds all along a course

- **A course with conditions** (`Along`): a property holds of the world a course begins in and of
  every world it makes of it. `along_induct` is the induction over a course from its end, with
  the property at hand in the world before each move.
- **Conditions on moves** (`Through`): a property holds of every move on the way. `through_induct` is
  the induction over such a course.
- **What a move records** (`Records`): an event in the part of the history that the move adds.
-/

namespace Tenure

namespace World

/-- A world in which nothing has happened. -/
def fresh (host : String) (wall : Int) (now : Nat) : World :=
  { host := host, wall := wall, now := now }

@[simp] theorem get?_contenders_fresh (host : String) (wall : Int) (now : Nat) (id : String) :
    (fresh host wall now).contenders.get? id = none := rfl

@[simp] theorem get?_publishers_fresh (host : String) (wall : Int) (now : Nat) (id : String) :
    (fresh host wall now).publishers.get? id = none := rfl

/-- The property holds in every world on the way, the first and the last one included. -/
def Along (P : World → Prop) (w : World) : List Move → Prop
  | [] => P w
  | m :: course => P w ∧ Along P (w.move m) course

instance decidableAlong (P : World → Prop) [DecidablePred P] :
    (w : World) → (course : List Move) → Decidable (w.Along P course)
  | w, [] => inferInstanceAs (Decidable (P w))
  | w, m :: course =>
    have := decidableAlong P (w.move m) course
    inferInstanceAs (Decidable (_ ∧ _))

variable {P Q : World → Prop}

theorem along_append {w : World} {first second : List Move} :
    w.Along P (first ++ second) ↔ w.Along P first ∧ (w.follow first).Along P second := by
  induction first generalizing w with
  | nil =>
    cases second with
    | nil => exact ⟨fun h => ⟨h, h⟩, And.left⟩
    | cons m course => exact ⟨fun h => ⟨h.1, h⟩, And.right⟩
  | cons m first ih => simp only [List.cons_append, Along, ih, follow_cons, and_assoc]

theorem Along.last {w : World} {course : List Move} (h : w.Along P course) :
    P (w.follow course) := by
  induction course generalizing w with
  | nil => exact h
  | cons m course ih => exact ih h.2

theorem Along.head {w : World} {course : List Move} (h : w.Along P course) : P w := by
  cases course with
  | nil => exact h
  | cons m course => exact h.1

theorem Along.and {w : World} {course : List Move} (hP : w.Along P course)
    (hQ : w.Along Q course) : w.Along (fun v => P v ∧ Q v) course := by
  induction course generalizing w with
  | nil => exact ⟨hP, hQ⟩
  | cons m course ih => exact ⟨⟨hP.1, hQ.1⟩, ih hP.2 hQ.2⟩

theorem follow_concat (w : World) (course : List Move) (m : Move) :
    w.follow (course ++ [m]) = (w.follow course).move m := follow_append w course [m]

/-- Induction over a course from its end: what holds at first and is kept by each move, out of a
world with the property, holds at the end. -/
theorem along_induct {I : World → Prop} {w : World} {course : List Move}
    (h : w.Along P course) (base : I w)
    (step : ∀ v m, m ∈ course → P v → I v → I (v.move m)) : I (w.follow course) := by
  induction course generalizing w with
  | nil => exact base
  | cons m course ih =>
    exact ih h.2 (step w m (List.mem_cons_self ..) h.1 base) fun v m' hm =>
      step v m' (List.mem_cons_of_mem _ hm)

/-- What every move keeps holds at the end of a course. -/
theorem follow_induct {I : World → Prop} {w : World} (course : List Move) (base : I w)
    (step : ∀ v m, I v → I (v.move m)) : I (w.follow course) :=
  Reaches.induct step ⟨course, rfl⟩ base

/-! ## Conditions on moves -/

/-- The property holds of every move on the way and the world it is made in. -/
def Through (R : World → Move → Prop) (w : World) : List Move → Prop
  | [] => True
  | m :: course => R w m ∧ Through R (w.move m) course

instance decidableThrough (R : World → Move → Prop) [∀ w m, Decidable (R w m)] :
    (w : World) → (course : List Move) → Decidable (w.Through R course)
  | _, [] => inferInstanceAs (Decidable True)
  | w, m :: course =>
    have := decidableThrough R (w.move m) course
    inferInstanceAs (Decidable (_ ∧ _))

section

variable {R S : World → Move → Prop} {w : World}

theorem through_append {first second : List Move} :
    w.Through R (first ++ second) ↔
      w.Through R first ∧ (w.follow first).Through R second := by
  induction first generalizing w with
  | nil => simp only [List.nil_append, Through, follow_nil, true_and]
  | cons m first ih => simp only [List.cons_append, Through, ih, follow_cons, and_assoc]

theorem Through.and {course : List Move} (hR : w.Through R course) (hS : w.Through S course) :
    w.Through (fun v m => R v m ∧ S v m) course := by
  induction course generalizing w with
  | nil => trivial
  | cons m course ih => exact ⟨⟨hR.1, hS.1⟩, ih hR.2 hS.2⟩

theorem Through.imp {course : List Move} (h : w.Through R course)
    (hRS : ∀ v m, R v m → S v m) : w.Through S course := by
  induction course generalizing w with
  | nil => trivial
  | cons m course ih => exact ⟨hRS w m h.1, ih h.2⟩

theorem through_of_forall {Q : Move → Prop} {course : List Move} (h : ∀ m ∈ course, Q m) :
    w.Through (fun _ m => Q m) course := by
  induction course generalizing w with
  | nil => trivial
  | cons m course ih =>
    exact ⟨h m (List.mem_cons_self ..), ih fun m' hm => h m' (List.mem_cons_of_mem _ hm)⟩

/-- What holds in every world holds before and after each move. -/
theorem Along.through {course : List Move} (h : w.Along P course) :
    w.Through (fun v m => P v ∧ P (v.move m)) course := by
  induction course generalizing w with
  | nil => trivial
  | cons m course ih => exact ⟨⟨h.1, h.2.head⟩, ih h.2⟩

/-- What holds at first and is kept by each move that meets the condition holds at the end. -/
theorem through_induct {I : World → Prop} {course : List Move} (h : w.Through R course)
    (base : I w) (step : ∀ v m, R v m → I v → I (v.move m)) : I (w.follow course) := by
  induction course generalizing w with
  | nil => exact base
  | cons m course ih => exact ih h.2 (step w m h.1 base)

end

/-! ## What a move records -/

/-- In the course of the move something is recorded. -/
def Records (w : World) (m : Move) (source : Source) (what : Happening) : Prop :=
  ∃ events, (w.move m).history = events ++ w.history ∧ ⟨w.now, source, what⟩ ∈ events

theorem mem_events_iff {w : World} {m : Move} {events : List Event}
    (h : (w.move m).history = events ++ w.history) {source : Source} {what : Happening} :
    w.Records m source what ↔ ⟨w.now, source, what⟩ ∈ events := by
  refine ⟨fun ⟨events', h', hmem⟩ => ?_, fun hmem => ⟨events, h, hmem⟩⟩
  rwa [List.append_cancel_right (h.symm.trans h')]

theorem not_records {w : World} {m : Move} (h : (w.move m).history = w.history) {source : Source}
    {what : Happening} : ¬ w.Records m source what := by
  rw [mem_events_iff (show _ = [] ++ w.history from h)]
  exact List.not_mem_nil

end World

end Tenure
