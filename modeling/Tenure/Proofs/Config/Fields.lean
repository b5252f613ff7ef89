import Mathlib.Data.List.Basic
import Tenure.Config.Basic
import Tenure.Proofs.Relation

/-!
# The texts in a configuration

Most of the settings are texts. Each is in a field of its own, which can be read and written without regard to
the others.

- **Fields** (`Fielded`): what writing a field does to the fields.
- **Difference** (`Refilled`): two records that differ in the text of one field. Among records any two of which
  differ so, and each in the text that it was made for, it is always the same field (`Fielded.same_field`).
- **Settings** (`Config.Field`, `Config.get?`, `Config.set`, `Config.fielded`): the fields of headers, of a subject
  and a list of subjects, of the election and of a whole configuration.
-/

namespace Tenure

/-! ## Fields -/

/-- Two records that differ in the text of one field. -/
def Refilled {σ φ : Type} (get? : σ → φ → Option String) (set : σ → String → φ → σ) (a b : String)
    (s t : σ) : Prop :=
  ∃ field, get? s field = some a ∧ t = set s b field

/-- Texts in fields that do not interfere. Only a field that has a text is written. -/
structure Fielded {σ φ : Type} (get? : σ → φ → Option String) (set : σ → String → φ → σ) : Prop where
  get?_set {s : σ} {a b : String} {f : φ} : get? s f = some a → get? (set s b f) f = some b
  get?_set_of_ne {s : σ} {a b : String} {f g : φ} :
    get? s f = some a → f ≠ g → get? (set s b f) g = get? s g
  set_of_get? {s : σ} {a : String} {f : φ} : get? s f = some a → set s a f = s
  set_set {s : σ} {a b c : String} {f : φ} : get? s f = some a → set (set s b f) c f = set s c f

namespace Fielded

variable {σ φ : Type} {get? : σ → φ → Option String} {set : σ → String → φ → σ} {a b : String} {s t : σ}

theorem refilled_symm (h : Fielded get? set) (differ : Refilled get? set a b s t) :
    Refilled get? set b a t s := by
  obtain ⟨field, found, rfl⟩ := differ
  exact ⟨field, h.get?_set found, ((h.set_set found).trans (h.set_of_get? found)).symm⟩

/-- Where two records differ, each has its own text. -/
theorem eq_set_of_ne (h : Fielded get? set) (within : Within (Refilled get? set a b) s t) {field : φ}
    (differ : get? s field ≠ get? t field) :
    get? s field = some a ∧ get? t field = some b ∧ t = set s b field := by
  rcases within with rfl | ⟨field', found, rfl⟩
  · exact absurd rfl differ
  · by_cases same : field' = field
    · subst same
      exact ⟨found, h.get?_set found, rfl⟩
    · exact absurd (h.get?_set_of_ne found same).symm differ

variable {P : String → Prop} {c : String → σ}

/-- Each text makes a record, and any two of the records differ in their texts at most. Then all of them have
their texts in the same field, if the texts are in a field at all. -/
theorem same_field (h : Fielded get? set)
    (within : ∀ {a b}, P a → P b → a ≠ "" → Within (Refilled get? set a b) (c a) (c b)) (hs : P a) (ht : P b)
    {field : φ} (differ : get? (c a) field ≠ get? (c b) field) {v w : String} (hv : P v) (hw : P w) :
    get? (c v) field = some v ∧ c w = set (c v) w field := by
  have within {a b : String} (hs : P a) (ht : P b) : Within (Refilled get? set a b) (c a) (c b) := by
    by_cases some' : a = ""
    · by_cases some'' : b = ""
      · exact .inl (by rw [some', some''])
      · exact (within ht hs some'').imp Eq.symm h.refilled_symm
    · exact within hs ht some'
  have texts {v : String} (hv : P v) : get? (c v) field = some v := by
    obtain ⟨first, second, -⟩ := h.eq_set_of_ne (within hs ht) differ
    by_cases same : get? (c v) field = get? (c a) field
    · exact (h.eq_set_of_ne (within hv ht) (same ▸ differ)).1
    · exact (h.eq_set_of_ne (within hv hs) same).1
  refine ⟨texts hv, ?_⟩
  by_cases same : v = w
  · subst same
    exact (h.set_of_get? (texts hv)).symm
  · refine (h.eq_set_of_ne (within hv hw) ?_).2.2
    rw [texts hv, texts hw]
    exact fun h => same (Option.some.inj h)

end Fielded

/-! ## Headers -/

/-- Every header is a field. -/
theorem Headers.fielded : Fielded (σ := Headers) Table.get? fun h v key => h.insert key v where
  get?_set _ := Table.get?_insert_self ..
  get?_set_of_ne _ other := Table.get?_insert_of_ne _ _ other
  set_of_get? := Table.insert_of_get? _
  set_set _ := Table.insert_insert ..

/-! ## Subjects and the election -/

/-- The texts among the settings of a subject. -/
inductive SubjectSettings.Field where
  /-- The subject. -/
  | name
  /-- The interval. -/
  | interval
  /-- A header. -/
  | header (key : String)

/-- The texts among the settings of the election. -/
inductive ElectionSettings.Field where
  /-- The election's name. -/
  | name
  /-- The key. -/
  | key
  /-- The lease. -/
  | ttl
  /-- The time between campaigns. -/
  | campaignInterval

namespace SubjectSettings

/-- The text in a field. -/
def get? (s : SubjectSettings) : Field → Option String
  | .name => some s.name
  | .interval => some s.interval
  | .header key => s.headers.get? key

/-- The settings with another text in a field. -/
def set (s : SubjectSettings) (v : String) : Field → SubjectSettings
  | .name => { s with name := v }
  | .interval => { s with interval := v }
  | .header key => { s with headers := s.headers.insert key v }

theorem fielded : Fielded get? set where
  get?_set {s a b f} found := by
    cases f with
    | name => rfl
    | interval => rfl
    | header key => exact Headers.fielded.get?_set found
  get?_set_of_ne {s a b f g} found other := by
    cases f <;> cases g <;> first | rfl | exact absurd rfl other | skip
    exact Headers.fielded.get?_set_of_ne found fun same => other (congrArg _ same)
  set_of_get? {s a f} found := by
    cases f with
    | name => cases found; rfl
    | interval => cases found; rfl
    | header key => exact congrArg (fun h => { s with headers := h }) (Headers.fielded.set_of_get? found)
  set_set {s a b c f} found := by
    cases f with
    | name => rfl
    | interval => rfl
    | header key => exact congrArg (fun h => { s with headers := h }) (Headers.fielded.set_set found)

end SubjectSettings

namespace ElectionSettings

/-- The text in a field. -/
def get? (s : ElectionSettings) : Field → Option String
  | .name => some s.name
  | .key => some s.key
  | .ttl => some s.ttl
  | .campaignInterval => s.campaignInterval?

/-- The settings with another text in a field. -/
def set (s : ElectionSettings) (v : String) : Field → ElectionSettings
  | .name => { s with name := v }
  | .key => { s with key := v }
  | .ttl => { s with ttl := v }
  | .campaignInterval => { s with campaignInterval? := some v }

theorem fielded : Fielded get? set where
  get?_set {s a b f} _ := by cases f <;> rfl
  get?_set_of_ne {s a b f g} _ other := by
    cases f <;> cases g <;> first | rfl | exact absurd rfl other
  set_of_get? {s a f} found := by
    obtain ⟨name, key, ttl, interval⟩ := s
    cases f <;> cases found <;> rfl
  set_set {s a b c f} _ := by cases f <;> rfl

end ElectionSettings

/-! ## Configurations -/

/-- The texts in a configuration. -/
inductive Config.Field where
  /-- The address of the transport. -/
  | url
  /-- A header of every heartbeat. -/
  | header (key : String)
  /-- A text of the subject in some place. -/
  | subject (i : Nat) (field : SubjectSettings.Field)
  /-- A text of the election. -/
  | election (field : ElectionSettings.Field)

namespace Config

/-- The text in a field. -/
def get? (c : Config) : Field → Option String
  | .url => some c.url
  | .header key => c.headers.get? key
  | .subject i field => c.subjects[i]?.bind (·.get? field)
  | .election field => c.election.get? field

/-- The configuration with another text in a field. -/
def set (c : Config) (v : String) : Field → Config
  | .url => { c with url := v }
  | .header key => { c with headers := c.headers.insert key v }
  | .subject i field => { c with subjects := c.subjects.modify i (·.set v field) }
  | .election field => { c with election := c.election.set v field }

/-- The texts of a list of subjects. -/
theorem subjects_fielded : Fielded (σ := List SubjectSettings) (φ := Nat × SubjectSettings.Field)
    (fun ss f => ss[f.1]?.bind (·.get? f.2)) fun ss v f => ss.modify f.1 (·.set v f.2) where
  get?_set {ss a b f} found := by
    obtain ⟨s, mem, found⟩ := Option.bind_eq_some_iff.1 found
    refine Option.bind_eq_some_iff.2 ⟨s.set b f.2, ?_, SubjectSettings.fielded.get?_set found⟩
    simp [mem]
  get?_set_of_ne {ss a b f g} found other := by
    obtain ⟨i, field⟩ := f
    obtain ⟨j, field'⟩ := g
    obtain ⟨s, mem, found⟩ := Option.bind_eq_some_iff.1 found
    by_cases same : i = j
    · subst same
      have apart := SubjectSettings.fielded.get?_set_of_ne (b := b) found fun same => other (congrArg _ same)
      simpa [mem] using apart
    · simp [same]
  set_of_get? {ss a f} found := by
    obtain ⟨s, mem, found⟩ := Option.bind_eq_some_iff.1 found
    refine List.ext_getElem? fun j => ?_
    by_cases same : f.1 = j
    · subst same
      simp [mem, SubjectSettings.fielded.set_of_get? found]
    · simp [same]
  set_set {ss a b c f} found := by
    obtain ⟨s, mem, found⟩ := Option.bind_eq_some_iff.1 found
    refine List.ext_getElem? fun j => ?_
    by_cases same : f.1 = j
    · subst same
      simp [mem, SubjectSettings.fielded.set_set found]
    · simp [same]

theorem fielded : Fielded get? set where
  get?_set {c a b f} found := by
    cases f with
    | url => rfl
    | header key => exact Headers.fielded.get?_set found
    | subject i field => exact subjects_fielded.get?_set (f := (i, field)) found
    | election field => exact ElectionSettings.fielded.get?_set found
  get?_set_of_ne {c a b f g} found other := by
    cases f <;> cases g <;> first | rfl | exact absurd rfl other | skip
    case header.header key key' =>
      exact Headers.fielded.get?_set_of_ne found fun same => other (congrArg _ same)
    case subject.subject i field j field' =>
      refine subjects_fielded.get?_set_of_ne (f := (i, field)) (g := (j, field')) found fun same => other ?_
      cases same
      rfl
    case election.election field field' =>
      exact ElectionSettings.fielded.get?_set_of_ne found fun same => other (congrArg _ same)
  set_of_get? {c a f} found := by
    cases f with
    | url => cases found; rfl
    | header key => exact congrArg (fun h => { c with headers := h }) (Headers.fielded.set_of_get? found)
    | subject i field =>
      exact congrArg (fun ss => { c with subjects := ss }) (subjects_fielded.set_of_get? (f := (i, field)) found)
    | election field =>
      exact congrArg (fun e => { c with election := e }) (ElectionSettings.fielded.set_of_get? found)
  set_set {c a b d f} found := by
    cases f with
    | url => rfl
    | header key => exact congrArg (fun h => { c with headers := h }) (Headers.fielded.set_set found)
    | subject i field =>
      exact congrArg (fun ss => { c with subjects := ss }) (subjects_fielded.set_set (f := (i, field)) found)
    | election field =>
      exact congrArg (fun e => { c with election := e }) (ElectionSettings.fielded.set_set found)

end Config

end Tenure
