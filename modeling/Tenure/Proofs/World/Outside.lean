import Tenure.Proofs.Election.Order
import Tenure.Proofs.Relation
import Tenure.Proofs.World.Turns

/-!
# What calls from outside do

- **Publishers aside** (`Publisher.Aside`): what may happen to a publisher other than turns of its
  loops, as `Election.Aside` says it of contenders.
- **Worlds beside** (`Beside`): contenders and publishers meet with such things only, and nothing
  else changes but metrics. Calls that cancel, start and look at them do no more.
-/

namespace Tenure

open Election

/-- What may happen to a publisher other than turns of its loops: the loops stay as they are, or all
of them are new. -/
structure Publisher.Aside (p p' : Publisher) : Prop where
  replicator : p'.replicator = p.replicator
  host : p'.host = p.host
  outbox : p'.outbox = p.outbox
  schedules : p'.schedules = p.schedules
  gated : p'.gated = p.gated
  cancelled : p.cancelled = true → p'.cancelled = true
  loops : p'.loops = p.loops ∨ p'.loops = p.schedules.map fun s => { schedule := s }

theorem Publisher.Aside.refl (p : Publisher) : p.Aside p :=
  ⟨rfl, rfl, rfl, rfl, rfl, id, .inl rfl⟩

theorem Publisher.Aside.trans {p q r : Publisher} (h : p.Aside q) (h' : q.Aside r) :
    p.Aside r where
  replicator := h'.replicator.trans h.replicator
  host := h'.host.trans h.host
  outbox := h'.outbox.trans h.outbox
  schedules := h'.schedules.trans h.schedules
  gated := h'.gated.trans h.gated
  cancelled := h'.cancelled ∘ h.cancelled
  loops := by
    rcases h'.loops with hl | hl
    · exact h.loops.imp hl.trans hl.trans
    · exact .inr (h.schedules ▸ hl)

theorem Publisher.aside_hearAll (p : Publisher) (notes : List Note) :
    p.Aside (p.hearAll notes) := by
  obtain ⟨paused, h⟩ := p.hearAll_eq notes
  rw [h]
  exact ⟨rfl, rfl, rfl, rfl, rfl, id, .inl rfl⟩

namespace World

section

variable {w u v : World} {id : String}

/-- At most contenders, publishers and metrics differ. -/
def Recast (w v : World) : Prop :=
  ∃ contenders publishers born metrics, v = { w with
    contenders := contenders
    publishers := publishers
    born := born
    metrics := metrics }

namespace Recast

theorem trans (h : Recast w u) (h' : Recast u v) : Recast w v := by
  obtain ⟨_, _, _, _, rfl⟩ := h
  obtain ⟨_, _, _, _, rfl⟩ := h'
  exact ⟨_, _, _, _, rfl⟩

theorem now (h : Recast w v) : v.now = w.now := by
  obtain ⟨_, _, _, _, rfl⟩ := h
  rfl

theorem buckets (h : Recast w v) : v.buckets = w.buckets := by
  obtain ⟨_, _, _, _, rfl⟩ := h
  rfl

theorem history (h : Recast w v) : v.history = w.history := by
  obtain ⟨_, _, _, _, rfl⟩ := h
  rfl

end Recast

/-- Contenders and publishers only meet with what can happen aside from turns, and nothing else
changes but metrics. -/
structure Beside (w v : World) : Prop where
  recast : Recast w v
  contenders : ∀ id, Option.Rel Election.Aside (w.contenders.get? id) (v.contenders.get? id)
  publishers : ∀ id, Option.Rel Publisher.Aside (w.publishers.get? id) (v.publishers.get? id)

namespace Beside

theorem modifyMetrics (w : World) (f : Metrics.Registry → Metrics.Registry) :
    Beside w (w.modifyMetrics f) :=
  ⟨⟨_, _, _, _, rfl⟩, fun _ => rel_refl (fun _ => .refl) _, fun _ => rel_refl .refl _⟩

theorem refl (w : World) : Beside w w := modifyMetrics w id

theorem trans (h : Beside w u) (h' : Beside u v) : Beside w v where
  recast := h.recast.trans h'.recast
  contenders id := rel_trans .trans (h.contenders id) (h'.contenders id)
  publishers id := rel_trans .trans (h.publishers id) (h'.publishers id)

theorem modifyContender (w : World) (id : String) {f : Contender → Contender}
    (hf : ∀ c, Election.Aside c (f c)) : Beside w (w.modifyContender id f) where
  recast := ⟨_, _, _, _, rfl⟩
  contenders id' := by
    rw [get?_contenders_modify]
    exact rel_modify (fun _ => .refl) hf _ _
  publishers _ := rel_refl .refl _

theorem modifyPublisher (w : World) (id : String) {f : Publisher → Publisher}
    (hf : ∀ p : Publisher, p.Aside (f p)) : Beside w (w.modifyPublisher id f) where
  recast := ⟨_, _, _, _, rfl⟩
  contenders _ := rel_refl (fun _ => .refl) _
  publishers id' := by
    rw [get?_publishers_modify]
    exact rel_modify .refl hf _ _

theorem cancelContender (w : World) (id : String) : Beside w (w.cancelContender id) :=
  modifyContender w id fun _ => .cancel .refl _

theorem cancelRun (w : World) (id : String) (i : Nat) : Beside w (w.cancelRun id i) :=
  modifyContender w id fun _ => .cancelRun .refl _

theorem callRun (w : World) (id : String) (cancelled : Bool) : Beside w (w.callRun id cancelled) :=
  modifyContender w id fun _ => .start .refl _ _

theorem cancelPublisher (w : World) (id : String) : Beside w (w.cancelPublisher id) := by
  have cancels : Beside w (w.modifyPublisher id fun p => { p with cancelled := true }) :=
    modifyPublisher w id fun _ => ⟨rfl, rfl, rfl, rfl, rfl, fun _ => rfl, .inl rfl⟩
  exact cancels.trans (modifyContender _ id fun _ => .cancel .refl _)

theorem runPublisher (w : World) (id : String) : Beside w (w.runPublisher id).1 := by
  simp only [World.runPublisher]
  split
  · exact .refl w
  · split
    · exact .refl w
    · rename_i p _ _
      have starts : Beside w (if p.gated
          then (w.modifyMetrics (announce p)).modifyContender id (·.start p.cancelled true)
          else w.modifyMetrics (announce p)) := by
        split
        · exact (modifyMetrics ..).trans (modifyContender _ id fun _ => .start .refl _ _)
        · exact modifyMetrics ..
      exact starts.trans
        (modifyPublisher _ id fun _ => ⟨rfl, rfl, rfl, rfl, rfl, fun h => h, .inr rfl⟩)

theorem startPublisher (w : World) (id : String) (cancelled : Bool) :
    Beside w (w.startPublisher id cancelled).1 := by
  simp only [World.startPublisher]
  split
  · exact (cancelPublisher w id).trans (runPublisher _ id)
  · exact runPublisher w id

theorem pollClosing (w : World) (id : String) : Beside w (w.pollClosing id) := by
  simp only [World.pollClosing]
  split
  · exact .refl w
  · split
    · have closes : Beside w
          (w.modifyPublisher id fun p => { p with paused := true, closing := .done }) :=
        modifyPublisher w id fun _ => ⟨rfl, rfl, rfl, rfl, rfl, fun h => h, .inl rfl⟩
      exact closes.trans (modifyMetrics ..)
    · exact .refl w

theorem pollStopping (w : World) (id : String) : Beside w (w.pollStopping id) := by
  simp only [World.pollStopping]
  split
  · exact cancelPublisher w id
  · exact .refl w

end Beside

/-- A new contender comes in beside the others. -/
theorem get?_contenders_enrol (w : World) (id id' : String) (y : Candidacy) :
    (w.enrol id y).contenders.get? id' =
      if id = id' then some { candidacy := y } else w.contenders.get? id' :=
  Table.get?_insert ..

theorem eq_none_of_free (h : w.isTaken id = false) :
    w.contenders.get? id = none ∧ w.publishers.get? id = none := by
  simpa only [isTaken, Bool.or_eq_false_iff, Table.contains, Option.isSome_eq_false_iff,
    Option.isNone_iff_eq_none] using h

end

end World

end Tenure
