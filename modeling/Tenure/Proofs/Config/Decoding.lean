import Tenure.Config.Decode
import Tenure.Proofs.Config.Fields
import Tenure.Proofs.Toml.Exchange

/-!
# Decoding documents that differ in one text

Each text of a document is decoded on its own: into one field, or into none. So documents that differ in one
text are both refused, or their configurations differ in one field at most (`Config.ofRows_swap`). For the
settings of a subject, of the election and for the whole configuration this is said of one row at a time: of a
row that differs (`read_row`, `readRow_row`), and of one that is read after it (`read_swap`, `readRow_swap`).
Every row writes a single part: what it reads there is passed on (`together_nested`), and a text that differed
before is in that part, or stays where it is (`together_written`).
-/

namespace Tenure

open Toml (Value Swap Rows RowsSwap)

variable {a b : String} {v w : Value}

/-! ## Rows -/

section Rows

variable {σ φ τ ψ ε : Type} {get? : σ → φ → Option String} {set : σ → String → φ → σ}
  {get?' : τ → ψ → Option String} {set' : τ → String → ψ → τ} {s s' : σ} {x y : Except ε τ}

/-- A row writes the same part of two records that differ in one text: the text is in that part and is
replaced, or it stays where it is. -/
theorem together_written (differ : Refilled get? set a b s s') (write : τ → σ → σ)
    (writes : ∀ t s field, write t (set s b field) = write t s ∨
      get? (write t s) field = get? s field ∧ write t (set s b field) = set (write t s) b field) :
    Together (Within (Refilled get? set a b)) (do return write (← x) s) (do return write (← x) s') := by
  obtain ⟨field, found, rfl⟩ := differ
  refine together_after _ fun t => .ok ?_
  rcases writes t s field with same | ⟨kept, same⟩
  · exact .inl same.symm
  · exact .inr ⟨field, kept.trans found, same⟩

/-- A row writes a part of a record. If it has two readings that differ in one text, so do the records. -/
theorem together_nested (differ : Together (Within (Refilled get?' set' a b)) x y) (field : ψ → φ)
    {write : τ → σ} (reads : ∀ t f, get? (write t) (field f) = get?' t f)
    (writes : ∀ t f, write (set' t b f) = set (write t) b (field f)) :
    Together (Within (Refilled get? set a b)) (do return write (← x)) (do return write (← y)) := by
  refine together_bind differ fun h => .ok (.inr ?_)
  obtain ⟨f, found, rfl⟩ := h
  exact ⟨field f, (reads _ f).trans found, writes _ f⟩

end Rows

/-! ## Texts and headers -/

/-- Two sets of headers that differ in one text. -/
abbrev Headers.Swap : String → String → Headers → Headers → Prop :=
  Refilled Table.get? fun h v key => h.insert key v

theorem Headers.Swap.insert {h h' : Headers} (differ : Headers.Swap a b h h') (key s : String) :
    Within (Headers.Swap a b) (h.insert key s) (h'.insert key s) := by
  obtain ⟨key', found, rfl⟩ := differ
  by_cases same : key' = key
  · subst same
    exact .inl (h.insert_insert key' b s).symm
  · exact .inr ⟨key', (h.get?_insert_of_ne s (Ne.symm same)).trans found, (h.insert_comm b s same found)⟩

theorem toText_swap (h : Swap a b v w) : Together (Within fun s t => s = a ∧ t = b) v.toText w.toText := by
  cases h with
  | text => exact .ok (.inr ⟨rfl, rfl⟩)
  | array => exact .error _ _
  | tables => exact .error _ _
  | table => exact .error _ _

/-- The text goes into a field. -/
theorem toText_refilled {σ φ : Type} {get? : σ → φ → Option String} {set : σ → String → φ → σ} (h : Swap a b v w)
    {f : String → σ} (field : φ) (found : get? (f a) field = some a) (again : f b = set (f a) b field) :
    Together (Within (Refilled get? set a b)) (do return f (← v.toText)) (do return f (← w.toText)) := by
  refine together_bind (toText_swap h) fun texts => .ok (.inr ?_)
  obtain ⟨rfl, rfl⟩ := texts
  exact ⟨field, found, again⟩

theorem toHeaders_swap (h : Swap a b v w) : Together (Within (Headers.Swap a b)) v.toHeaders w.toHeaders := by
  cases h with
  | text => exact .error _ _
  | array => exact .error _ _
  | tables => exact .error _ _
  | table kind h =>
    refine h.foldlM (fun row differ => ?_) (fun h _ _ differ => ?_) Table.empty
    · exact together_after _ fun s => .ok (differ.insert row.1 s)
    · obtain ⟨key, differ⟩ := differ
      exact toText_refilled differ key (h.get?_insert_self key _) (h.insert_insert key _ _).symm

/-! ## Subjects -/

/-- Two subjects that differ in one text. -/
abbrev SubjectSettings.Swap : String → String → SubjectSettings → SubjectSettings → Prop :=
  Refilled get? set

namespace SubjectDraft

/-- The text in a field, as far as it was read. -/
def get? (d : SubjectDraft) : SubjectSettings.Field → Option String
  | .name => d.name?
  | .interval => d.interval?
  | .header key => d.headers?.bind (·.get? key)

/-- The draft with another text in a field. -/
def set (d : SubjectDraft) (v : String) : SubjectSettings.Field → SubjectDraft
  | .name => { d with name? := some v }
  | .interval => { d with interval? := some v }
  | .header key => { d with headers? := d.headers?.map (·.insert key v) }

/-- Two drafts that differ in one text. -/
abbrev Swap : String → String → SubjectDraft → SubjectDraft → Prop := Refilled get? set

variable {d d' : SubjectDraft}

theorem read_swap (differ : Swap a b d d') (row : String × Value) :
    Together (Within (Swap a b)) (d.read row) (d'.read row) := by
  unfold read
  split
  · exact together_written differ (fun t d => { d with name? := some t })
      fun _ _ field => by cases field <;> simp [get?, set]
  · exact together_written differ (fun t d => { d with interval? := some t })
      fun _ _ field => by cases field <;> simp [get?, set]
  · exact together_written differ (fun h d => { d with headers? := some h })
      fun _ _ field => by cases field <;> simp [get?, set]
  · exact .ok (.inr differ)

theorem read_row (d : SubjectDraft) {row row' : String × Value} (h : InRow (Toml.Swap a b) row row') :
    Together (Within (Swap a b)) (d.read row) (d.read row') := by
  obtain ⟨key, differ⟩ := h
  unfold read
  dsimp only
  split
  · exact toText_refilled differ SubjectSettings.Field.name rfl rfl
  · exact toText_refilled differ SubjectSettings.Field.interval rfl rfl
  · exact together_nested (toHeaders_swap differ) .header (fun _ _ => rfl) fun _ _ => rfl
  · exact .ok (.inl rfl)

theorem finish_swap (differ : Swap a b d d') :
    Together (Within (SubjectSettings.Swap a b)) d.finish d'.finish := by
  obtain ⟨field, found, rfl⟩ := differ
  obtain ⟨name?, interval?, headers?⟩ := d
  cases field with
  | name =>
    cases found
    cases interval? with
    | none => exact .error _ _
    | some interval => exact .ok (.inr ⟨.name, rfl, rfl⟩)
  | interval =>
    cases found
    cases name? with
    | none => exact .error _ _
    | some name => exact .ok (.inr ⟨.interval, rfl, rfl⟩)
  | header key =>
    cases headers? with
    | none => cases found
    | some h =>
      cases name? with
      | none => exact .error _ _
      | some name =>
        cases interval? with
        | none => exact .error _ _
        | some interval => exact .ok (.inr ⟨.header key, found, rfl⟩)

end SubjectDraft

/-- The settings of a subject as an array. -/
theorem SubjectSettings.ofValue_elements {vs ws : List Value} (h : Once (Toml.Swap a b) vs ws) :
    Together (Within (Swap a b)) (ofValue (.array vs)) (ofValue (.array ws)) := by
  cases h with
  | here rest h =>
    refine together_bind (toText_swap h) fun texts => ?_
    obtain ⟨rfl, rfl⟩ := texts
    cases rest with
    | nil => exact .error _ _
    | cons interval rest =>
      refine together_after _ fun interval => ?_
      cases rest with
      | nil => exact .ok (.inr ⟨.name, rfl, rfl⟩)
      | cons headers _ => exact together_after _ fun headers => .ok (.inr ⟨.name, rfl, rfl⟩)
  | there name h =>
    refine together_after _ fun name => ?_
    cases h with
    | here rest h =>
      refine together_bind (toText_swap h) fun texts => ?_
      obtain ⟨rfl, rfl⟩ := texts
      cases rest with
      | nil => exact .ok (.inr ⟨.interval, rfl, rfl⟩)
      | cons headers _ => exact together_after _ fun headers => .ok (.inr ⟨.interval, rfl, rfl⟩)
    | there interval h =>
      refine together_after _ fun interval => ?_
      cases h with
      | here rest h =>
        refine together_bind (toHeaders_swap h) fun differ => ?_
        obtain ⟨key, found, rfl⟩ := differ
        exact .ok (.inr ⟨.header key, found, rfl⟩)
      | there headers h => exact together_refl _

theorem SubjectSettings.ofValue_swap (h : Toml.Swap a b v w) :
    Together (Within (SubjectSettings.Swap a b)) (ofValue v) (ofValue w) := by
  cases h with
  | text => exact .error _ _
  | table kind h =>
    exact together_bind (h.foldlM (fun row differ => SubjectDraft.read_swap differ row)
      (fun d _ _ differ => d.read_row differ) {}) SubjectDraft.finish_swap
  | array h => exact ofValue_elements h
  | tables h => exact ofValue_elements h

/-- Two lists of subjects that differ in one text differ in the text of one subject. -/
theorem exists_subject {ss ss' : List SubjectSettings} (h : Once (SubjectSettings.Swap a b) ss ss') :
    ∃ i field, (ss[i]?.bind (·.get? field)) = some a ∧ ss' = ss.modify i (·.set b field) := by
  induction h with
  | here ss h =>
    obtain ⟨field, found, rfl⟩ := h
    exact ⟨0, field, found, rfl⟩
  | there s _ ih =>
    obtain ⟨i, field, found, rfl⟩ := ih
    exact ⟨i + 1, field, found, rfl⟩

/-! ## The election -/

namespace ElectionSettings

/-- Two elections that differ in one text. -/
abbrev Swap : String → String → ElectionSettings → ElectionSettings → Prop := Refilled get? set

variable {s s' : ElectionSettings}

theorem readRow_swap (differ : Swap a b s s') (row : String × Value) :
    Together (Within (Swap a b)) (s.readRow row) (s'.readRow row) := by
  unfold readRow
  split
  · exact together_written differ (fun t s => { s with name := t })
      fun _ _ field => by cases field <;> simp [get?, set]
  · exact together_written differ (fun t s => { s with key := t })
      fun _ _ field => by cases field <;> simp [get?, set]
  · exact together_written differ (fun t s => { s with ttl := t })
      fun _ _ field => by cases field <;> simp [get?, set]
  · exact together_written differ (fun t s => { s with campaignInterval? := some t })
      fun _ _ field => by cases field <;> simp [get?, set]
  · exact .ok (.inr differ)

theorem readRow_row (s : ElectionSettings) {row row' : String × Value} (h : InRow (Toml.Swap a b) row row') :
    Together (Within (Swap a b)) (s.readRow row) (s.readRow row') := by
  obtain ⟨key, differ⟩ := h
  unfold readRow
  dsimp only
  split
  · exact toText_refilled differ Field.name rfl rfl
  · exact toText_refilled differ Field.key rfl rfl
  · exact toText_refilled differ Field.ttl rfl rfl
  · exact toText_refilled differ Field.campaignInterval rfl rfl
  · exact .ok (.inl rfl)

/-- The settings of the election in rows. -/
theorem readRow_once {rows rows' : Rows} (h : RowsSwap a b rows rows') :
    Together (Within (Swap a b)) (rows.foldlM readRow {}) (rows'.foldlM readRow {}) :=
  h.foldlM (fun row differ => readRow_swap differ row) (fun s _ _ differ => s.readRow_row differ) {}

theorem ofValue_swap (h : Toml.Swap a b v w) : Together (Within (Swap a b)) (ofValue v) (ofValue w) := by
  have elements {vs ws : List Value} (h : Once (Toml.Swap a b) vs ws) :
      Together (Within (Swap a b)) (ofValue (.array vs)) (ofValue (.array ws)) := by
    rcases h.zip ["name", "key", "ttl", "campaign_interval"] with same | differ
    · rw [ofValue, ofValue]
      simp only [Value.rows?, Value.elements?, same]
      exact together_refl _
    · exact readRow_once differ
  cases h with
  | text => exact .error _ _
  | table kind h => exact readRow_once h
  | array h => exact elements h
  | tables h => exact elements h

end ElectionSettings

/-! ## Configurations -/

namespace Config

/-- Two configurations that differ in one text. -/
abbrev Swap : String → String → Config → Config → Prop := Refilled get? set

variable {c c' : Config}

theorem readRow_swap (differ : Swap a b c c') (row : String × Value) :
    Together (Within (Swap a b)) (c.readRow row) (c'.readRow row) := by
  unfold readRow
  split
  · exact together_written differ (fun t c => { c with leaderElection := t })
      fun _ _ field => by cases field <;> simp [get?, set]
  · exact together_written differ (fun t c => { c with url := t })
      fun _ _ field => by cases field <;> simp [get?, set]
  · exact together_written differ (fun h c => { c with headers := h })
      fun _ _ field => by cases field <;> simp [get?, set]
  · cases row.2.elements? with
    | none => exact .error _ _
    | some elements =>
      exact together_written differ (fun ss c => { c with subjects := ss })
        fun _ _ field => by cases field <;> simp [get?, set]
  · exact together_written differ (fun e c => { c with election := e })
      fun _ _ field => by cases field <;> simp [get?, set]
  · exact .ok (.inr differ)

theorem readRow_row (c : Config) {row row' : String × Value} (h : InRow (Toml.Swap a b) row row') :
    Together (Within (Swap a b)) (c.readRow row) (c.readRow row') := by
  obtain ⟨key, differ⟩ := h
  unfold readRow
  dsimp only
  split
  · cases differ <;> exact .error _ _
  · exact toText_refilled differ Field.url rfl rfl
  · exact together_nested (toHeaders_swap differ) .header (fun _ _ => rfl) fun _ _ => rfl
  · have elements {vs ws : List Value} (h : Once (Toml.Swap a b) vs ws) :
        Together (Within (Swap a b)) (do return { c with subjects := ← vs.mapM SubjectSettings.ofValue })
          (do return { c with subjects := ← ws.mapM SubjectSettings.ofValue }) := by
      refine together_bind (h.mapM fun h => SubjectSettings.ofValue_swap h) fun differ => .ok (.inr ?_)
      obtain ⟨i, field, found, rfl⟩ := exists_subject differ
      exact ⟨.subject i field, found, rfl⟩
    cases differ with
    | text => exact .error _ _
    | table => exact .error _ _
    | array h => exact elements h
    | tables h => exact elements h
  · exact together_nested (ElectionSettings.ofValue_swap differ) .election (fun _ _ => rfl) fun _ _ => rfl
  · exact .ok (.inl rfl)

theorem ofRows_swap {rows rows' : Rows} (h : RowsSwap a b rows rows') :
    Together (Within (Swap a b)) (ofRows rows) (ofRows rows') :=
  h.foldlM (fun row differ => readRow_swap differ row) (fun c _ _ differ => c.readRow_row differ) {}

end Config

end Tenure
