import Tenure.Proofs.Relation
import Tenure.Toml.Tree

/-!
# Documents that differ in one text

What the builder of a document does with a value does not depend on the texts in it, and it keeps each value
in one place. So when one text is exchanged for another among the values that are put in, the tables that come
out differ in one text at most, and the same lines are refused.

- **Values** (`Swap`, `RowsSwap`): two values that differ in one text.
- **Tables** (`descend_edit`, `descend_rows`, `addValue_value`, `addValue_rows`): the difference comes in with an
  edit, or is there before it.
- **Drafts** (`Draft.Swap`): each step of the builder keeps it.
-/

namespace Tenure.Toml

/-! ## Values -/

/-- Two values that differ in one text. -/
inductive Swap (a b : String) : Value → Value → Prop where
  | text : Swap a b (.string a) (.string b)
  | array {vs ws : List Value} : Once (Swap a b) vs ws → Swap a b (.array vs) (.array ws)
  | tables {vs ws : List Value} : Once (Swap a b) vs ws → Swap a b (.tables vs) (.tables ws)
  | table {rows rows' : Rows} (kind : TableKind) :
      Once (InRow (Swap a b)) rows rows' → Swap a b (.table kind rows) (.table kind rows')

/-- Two tables that differ in one text. -/
abbrev RowsSwap (a b : String) : Rows → Rows → Prop := Once (InRow (Swap a b))

section Descend

variable {β : Type} {a b : String} {S : β → β → Prop} {v w : Value} {rows rows' : Rows} {kind : TableKind}
  {edit edit' : TableKind → Rows → Option (Rows × β)} {dotted : Bool} {path : List String}

/-- A table is edited and put back. -/
theorem rel_put {x y : Option (Rows × β)} (wrap : Rows → Value) (key : String)
    (wraps : ∀ {sub sub'}, RowsSwap a b sub sub' → Swap a b (wrap sub) (wrap sub'))
    (h : Option.Rel (Within (Half (RowsSwap a b) S)) x y) (rows : Rows) :
    Option.Rel (Within (Half (RowsSwap a b) S)) (x.bind fun r => some (Table.put key (wrap r.1) rows, r.2))
      (y.bind fun r => some (Table.put key (wrap r.1) rows, r.2)) := by
  refine rel_bind h fun h => .some (.inr ?_)
  cases h with
  | fst z h => exact .fst _ (once_put (wraps h) key rows)
  | snd x h => exact .snd _ h

theorem descend_edit
    (h : ∀ kind rows, Option.Rel (Within (Half (RowsSwap a b) S)) (edit kind rows) (edit' kind rows)) :
    Option.Rel (Within (Half (RowsSwap a b) S)) (descend dotted edit path kind rows)
      (descend dotted edit' path kind rows) := by
  induction path generalizing kind rows with
  | nil => exact h kind rows
  | cons key path ih =>
    rw [descend, descend]
    split
    · exact rel_put _ key (.table _) ih rows
    · split
      · exact .none
      · exact rel_put _ key (.table _) ih rows
    · split
      · exact rel_put _ key (fun h => .tables (.append_left _ (.here [] (.table _ h)))) ih rows
      · exact .none
    · exact .none

theorem descend_rows (h : ∀ kind {rows rows'}, RowsSwap a b rows rows' →
      Option.Rel (Within (Half (RowsSwap a b) S)) (edit kind rows) (edit kind rows'))
    (differ : RowsSwap a b rows rows') :
    Option.Rel (Within (Half (RowsSwap a b) S)) (descend dotted edit path kind rows)
      (descend dotted edit path kind rows') := by
  induction path generalizing kind rows rows' with
  | nil => exact h kind differ
  | cons key path ih =>
    -- the same edit goes on below, and the tables differ elsewhere
    have elsewhere {x : Option (Rows × β)} (wrap wrap' : Rows → Value)
        (differ : ∀ sub, RowsSwap a b (Table.put key (wrap sub) rows) (Table.put key (wrap' sub) rows')) :
        Option.Rel (Within (Half (RowsSwap a b) S)) (x.bind fun r => some (Table.put key (wrap r.1) rows, r.2))
          (x.bind fun r => some (Table.put key (wrap' r.1) rows', r.2)) := by
      cases x with
      | none => exact .none
      | some r => exact .some (.inr (.fst _ (differ r.1)))
    rw [descend, descend]
    rcases differ.find?_put key with ⟨found, put⟩ | ⟨v, w, found, found', differ, put⟩
    · rw [← found]
      split
      · exact elsewhere _ _ fun _ => put _
      · split
        · exact .none
        · exact elsewhere _ _ fun _ => put _
      · split
        · rename_i elements _ _ kind sub _
          exact elsewhere (fun sub => .tables (elements.dropLast ++ [.table kind sub])) _ fun _ => put _
        · exact .none
      · exact .none
    · rw [found, found']
      cases differ with
      | text => exact .none
      | array => exact .none
      | table kind differ =>
        dsimp only
        split
        · exact .none
        · simp only [← put]
          exact rel_put _ key (.table kind) (ih differ) rows
      | @tables vs ws differ =>
        rcases differ.getLast? with ⟨last, front⟩ | ⟨v, w, last, last', differ, front⟩
        · dsimp only
          rw [← last]
          split
          · rename_i kind sub _
            refine elsewhere (fun sub => .tables (vs.dropLast ++ [.table kind sub]))
              (fun sub => .tables (ws.dropLast ++ [.table kind sub])) fun sub => ?_
            rw [← put]
            exact once_put (.tables (front.append_right _)) key rows
          · exact .none
        · dsimp only
          rw [last, last']
          cases differ with
          | text => exact .none
          | array => exact .none
          | tables => exact .none
          | table kind differ =>
            simp only [← put, ← front]
            exact rel_put _ key (fun h => .tables (.append_left _ (.here [] (.table _ h)))) (ih differ) rows

end Descend

section Drafts

variable {a b : String} {v w : Value} {rows rows' : Rows} {kind : TableKind} {path : List String} {key : String}

/-- Only rows come back from an edit. -/
theorem rel_rows {x y : Option (Rows × Unit)} (h : Option.Rel (Within (Half (RowsSwap a b) fun _ _ => False)) x y) :
    Option.Rel (Within (RowsSwap a b)) (x.map Prod.fst) (y.map Prod.fst) := by
  rw [Option.map_eq_bind, Option.map_eq_bind]
  refine rel_bind h fun h => .some (.inr ?_)
  cases h with
  | fst _ h => exact h
  | snd _ h => cases h

theorem addValue_value (h : Swap a b v w) :
    Option.Rel (Within (RowsSwap a b)) (addValue path key v kind rows) (addValue path key w kind rows) := by
  refine rel_rows (descend_edit fun kind rows => ?_)
  split
  · exact .none
  · split
    · exact .none
    · exact .some (.inr (.fst _ (once_put h key rows)))

theorem addValue_rows (h : RowsSwap a b rows rows') :
    Option.Rel (Within (RowsSwap a b)) (addValue path key v kind rows) (addValue path key v kind rows') := by
  refine rel_rows (descend_rows (fun kind rows rows' h => ?_) h)
  split
  · exact .none
  · rcases h.find?_put key with ⟨found, put⟩ | ⟨v, w, found, found', -⟩
    · rw [← found]
      split
      · exact .none
      · exact .some (.inr (.fst _ (put v)))
    · rw [found, found']
      exact .none

/-- Two drafts that differ in one text. -/
inductive Draft.Swap (a b : String) : Draft → Draft → Prop where
  | root {d : Draft} {rows : Rows} : RowsSwap a b d.root rows → Draft.Swap a b d { d with root := rows }
  | current {d : Draft} {rows : Rows} : RowsSwap a b d.current rows → Draft.Swap a b d { d with current := rows }

namespace Draft

variable {d d' : Draft}

/-- Only the tables of the document come back from an edit. -/
theorem rel_root {x y : Option (Rows × Unit)} (h : Option.Rel (Within (Half (RowsSwap a b) fun _ _ => False)) x y)
    (d : Draft) : Option.Rel (Within (Swap a b)) (x.bind fun r => some { d with root := r.1 })
      (y.bind fun r => some { d with root := r.1 }) := by
  refine rel_bind h fun h => .some (.inr ?_)
  cases h with
  | fst _ h => exact .root (d := { d with root := _ }) h
  | snd _ h => cases h

theorem close_swap (h : d.Swap a b d') : Option.Rel (Within (Swap a b)) d.close d'.close := by
  cases h with
  | @root rows h =>
    unfold close
    dsimp only
    cases d.path.getLast? with
    | none => exact .some (.inl rfl)
    | some key =>
      refine rel_root (descend_rows (fun kind rows rows' h => ?_) h) {}
      rcases h.find?_put key with ⟨found, put⟩ | ⟨v, w, found, found', differ, put⟩
      · rw [← found]
        split
        · split
          · exact .some (.inr (.fst _ (put _)))
          · exact .none
        · exact .some (.inr (.fst _ (put _)))
        · exact .none
      · rw [found, found']
        cases differ with
        | text => exact .none
        | array => exact .none
        | table => exact .none
        | tables differ =>
          dsimp only
          split
          · rw [put]
            exact .some (.inr (.fst _ (once_put (.tables (differ.append_right _)) key _)))
          · exact .none
  | @current rows h =>
    unfold close
    dsimp only
    cases d.path.getLast? with
    | none => exact .some (.inr (.root (d := { root := d.current }) h))
    | some key =>
      refine rel_root (descend_edit fun kind rows => ?_) {}
      have table : Toml.Swap a b (.table .header d.current) (.table .header _) := .table .header h
      split
      · split
        · exact .some (.inr (.fst _ (once_put (.tables (.append_left _ (.here [] table))) key _)))
        · exact .none
      · split
        · exact .some (.inr (.fst _ (once_put (.tables (.here [] table)) key _)))
        · exact .some (.inr (.fst _ (once_put table key _)))
      · exact .none

theorem openTable_swap (h : d.Swap a b d') :
    Option.Rel (Within (Swap a b)) (d.openTable path) (d'.openTable path) := by
  refine rel_bind (close_swap h) fun h => ?_
  cases path.getLast? with
  | none => exact .none
  | some key =>
    simp only [Option.bind_eq_bind, Option.bind_some]
    cases h with
    | current => exact rel_refl (fun _ => .inl rfl) _
    | root h =>
      refine rel_bind (descend_rows (S := RowsSwap a b) (fun kind rows rows' h => ?_) h) fun h => .some (.inr ?_)
      · rcases h.find?_put key with ⟨found, -⟩ | ⟨v, w, found, found', differ, put⟩
        · rw [← found]
          split
          · exact .some (.inr (.fst _ h))
          · rcases h.filter (fun r => r.1 ≠ key) fun h => by cases h; rfl with same | h
            · exact .some (.inl (congrArg (·, _) same))
            · exact .some (.inr (.fst _ h))
          · exact .none
        · rw [found, found']
          cases differ with
          | text => exact .none
          | array => exact .none
          | tables => exact .none
          | table kind differ =>
            cases kind with
            | implied =>
              have others : rows.filter (fun r => r.1 ≠ key) = rows'.filter fun r => r.1 ≠ key := by
                rw [← filter_put key (.boolean true) rows, put, filter_put]
              dsimp only
              rw [others]
              exact .some (.inr (.snd _ differ))
            | _ => exact .none
      · cases h with
        | fst current h => exact .root (d := ⟨_, current, path, false⟩) h
        | snd root h => exact .current (d := ⟨root, _, path, false⟩) h

theorem openElement_swap (h : d.Swap a b d') :
    Option.Rel (Within (Swap a b)) (d.openElement path) (d'.openElement path) := by
  refine rel_bind (close_swap h) fun h => ?_
  cases path.getLast? with
  | none => exact .none
  | some key =>
    simp only [Option.bind_eq_bind, Option.bind_some]
    cases h with
    | current => exact rel_refl (fun _ => .inl rfl) _
    | root h =>
      refine rel_root (descend_rows (fun kind rows rows' h => ?_) h) ⟨[], [], path, true⟩
      rcases h.find?_put key with ⟨found, put⟩ | ⟨v, w, found, found', differ, -⟩
      · rw [← found]
        split
        · exact .some (.inr (.fst _ (put _)))
        · exact .some (.inr (.fst _ h))
        · exact .none
      · rw [found, found']
        cases differ with
        | text => exact .none
        | array => exact .none
        | table => exact .none
        | tables differ => exact .some (.inr (.fst _ h))

theorem add_value (d : Draft) (h : Toml.Swap a b v w) :
    Option.Rel (Within (Swap a b)) (d.add path key v) (d.add path key w) :=
  rel_bind (addValue_value h) fun h => .some (.inr (.current (d := { d with current := _ }) h))

theorem add_swap (h : d.Swap a b d') : Option.Rel (Within (Swap a b)) (d.add path key v) (d'.add path key v) := by
  cases h with
  | current h => exact rel_bind (addValue_rows h) fun h => .some (.inr (.current (d := { d with current := _ }) h))
  | root h =>
    unfold add
    cases addValue path key v .header d.current with
    | none => exact .none
    | some current => exact .some (.inr (.root (d := { d with current := current }) h))

end Draft

end Drafts

end Tenure.Toml
