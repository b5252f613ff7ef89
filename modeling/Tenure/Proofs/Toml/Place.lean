import Tenure.Proofs.Toml.Exchange
import Tenure.Proofs.Toml.Parts

/-!
# A text between quotation marks in a document

Where a document holds a text between quotation marks as a value, any other text that needs no escapes can
stand in its place: the document is read all the same, and its tables differ in that text at most.

- **Texts** (`Plain`, `quote`): what can stand between quotation marks as it is, and is read so (`value_quote`).
- **Places** (`Reads`): how a document is read from its front up to a value.
- **Rest** (`moreFields_swap`, `line_swap`, `lines_swap`): what was read before has no say in how the rest is.
- **Exchange** (`Exchanges`, `Reads.exchanges`, `parse_exchange`): one step of a place at a time.
-/

namespace Tenure.Toml

/-! ## Texts between quotation marks -/

/-- A text that a document can hold between quotation marks as it is. -/
def Plain (cs : List Char) : Prop := ∀ c ∈ cs, isInline c = true ∧ c ≠ '"' ∧ c ≠ '\\'

/-- A text between quotation marks, and what follows it. -/
def quote (w after : List Char) : List Char := '"' :: (w ++ '"' :: after)

variable {u w p after cs x y : List Char}

theorem alike_quote (u w after : List Char) : Alike (quote u after) (quote w after) := .quote _ _

theorem basicRest_plain (plain : Plain w) {fuel : Nat} (enough : w.length < fuel) (acc after : List Char) :
    basicRest fuel acc (w ++ '"' :: after) = some (String.ofList (acc.reverse ++ w), after) := by
  induction w generalizing fuel acc with
  | nil =>
    obtain ⟨fuel, rfl⟩ := Nat.exists_eq_add_of_le' enough
    rw [List.append_nil]
    rfl
  | cons c w ih =>
    obtain ⟨⟨inl, quote, escape⟩, plain⟩ := List.forall_mem_cons.1 plain
    cases fuel with
    | zero => cases enough
    | succ fuel =>
      rw [List.cons_append, basicRest, if_pos inl, ih plain (Nat.lt_of_succ_lt_succ enough)]
      · simp
      · exact quote
      · exact escape

/-- A plain text is read as it is, unless a third quotation mark follows an empty one. -/
theorem quoted?_quote (plain : Plain w) (apart : w = [] → after.head? ≠ some '"') :
    quoted? (quote w after) = some (String.ofList w, after) := by
  rw [quote, quoted?]
  · exact basicRest_plain plain (by rw [List.length_append]; omega) [] after
  · intro cs same
    cases w with
    | nil =>
      obtain ⟨-, -, rfl⟩ := same
      exact apart rfl rfl
    | cons c w =>
      injection (List.cons.inj same).2 with front
      exact (plain c (List.mem_cons_self ..)).2.1 front
  · intro cs same
    cases same

theorem value_quote (plain : Plain w) (apart : w = [] → after.head? ≠ some '"') (fuel depth : Nat) :
    value (fuel + 1) depth (quote w after) = some (.string (String.ofList w), after) := by
  have read := quoted?_quote plain apart
  exact (value_of_delimiter (.inl rfl) _).trans (congrArg (Option.map _) read)

/-! ## Places -/

/-- What is being read. -/
inductive Task where
  /-- A value. -/
  | value (depth : Nat)
  /-- The elements of an array. -/
  | elements (depth : Nat)
  /-- The rows of a table between braces. -/
  | fields (depth : Nat)
  /-- The lines of a document. -/
  | lines (d : Draft)

/-- While a task is done from the front of a text on, a value is read from the front of `t`. -/
inductive Reads (t : List Char) : Task → List Char → Prop where
  | here {depth : Nat} : Reads t (.value depth) t
  | array {depth : Nat} {cs : List Char} : Reads t (.elements (depth + 1)) cs → Reads t (.value depth) ('[' :: cs)
  | table {depth : Nat} {cs : List Char} :
      Reads t (.fields (depth + 1)) (skipSpace cs) → Reads t (.value depth) ('\x7b' :: cs)
  | element {depth : Nat} {cs front : List Char} :
      skipGap? false cs = some front → Reads t (.value depth) front → Reads t (.elements depth) cs
  | nextElement {depth fuel : Nat} {cs front back more : List Char} {v : Value} :
      skipGap? false cs = some front → Toml.value fuel depth front = some (v, back) →
        skipGap? false back = some (',' :: more) → Reads t (.elements depth) more → Reads t (.elements depth) cs
  | field {depth : Nat} {cs key rest : List Char} {parts : List String} :
      key? cs = some (parts, key) → expect? '=' key = some rest → Reads t (.value depth) (skipSpace rest) →
        Reads t (.fields depth) cs
  | nextField {depth fuel : Nat} {cs key rest back more : List Char} {parts : List String} {v : Value} :
      key? cs = some (parts, key) → expect? '=' key = some rest →
        Toml.value fuel depth (skipSpace rest) = some (v, back) → skipSpace back = ',' :: more →
          Reads t (.fields depth) more → Reads t (.fields depth) cs
  | row {d : Draft} {cs key rest : List Char} {parts : List String} :
      key? (skipSpace cs) = some (parts, key) → expect? '=' key = some rest →
        Reads t (.value 0) (skipSpace rest) → Reads t (.lines d) cs
  | nextLine {d d' : Draft} {cs more : List Char} :
      line d cs = some (d', more) → Reads t (.lines d') more → Reads t (.lines d) cs

/-! ## The rest of a document -/

section Rest

variable {a b : String} {rows rows' rows₂ : Rows} {d d' d₂ : Draft} {r : List Char}

theorem addValue_within {path : List String} {key : String} {v w : Value} {kind : TableKind}
    (h : Within (Swap a b) v w) (added : addValue path key v kind rows = some rows') :
    ∃ rows₂, addValue path key w kind rows = some rows₂ ∧ Within (RowsSwap a b) rows' rows₂ :=
  exists_of_within (f := (addValue path key · kind rows)) h addValue_value added

/-- The rows so far have no say in how the next ones are read. -/
theorem moreFields_swap {fuel depth : Nat} (h : Within (RowsSwap a b) rows rows')
    (read : moreFields fuel depth rows cs = some (rows₂, r)) :
    ∃ rows₂', moreFields fuel depth rows' cs = some (rows₂', r) ∧ Within (RowsSwap a b) rows₂ rows₂' := by
  induction fuel generalizing rows rows' cs with
  | zero =>
    rw [moreFields] at read
    cases read
  | succ fuel ih =>
    rcases h with rfl | differ
    · exact ⟨_, read, .inl rfl⟩
    obtain ⟨parts, key, rest, name, v, back, added, k, last, equals, val, add, finish⟩ :=
      moreFields_eq_some_iff.1 read
    obtain ⟨added', add', within⟩ := exists_of_rel' (add ▸ addValue_rows differ)
    rcases finish with ⟨close, rfl⟩ | ⟨t, comma, more⟩
    · exact ⟨added', moreFields_eq_some_iff.2 ⟨parts, key, rest, name, v, back, added', k, last, equals, val, add',
        .inl ⟨close, rfl⟩⟩, within⟩
    · obtain ⟨rows₂', more', within⟩ := ih within more
      exact ⟨rows₂', moreFields_eq_some_iff.2 ⟨parts, key, rest, name, v, back, added', k, last, equals, val, add',
        .inr ⟨t, comma, more'⟩⟩, within⟩

theorem line_swap (h : d.Swap a b d') (read : line d cs = some (d₂, r)) :
    ∃ d₂', line d' cs = some (d₂', r) ∧ Within (Draft.Swap a b) d₂ d₂' := by
  generalize blank : skipSpace cs = front
  rw [line_eq_some_iff blank] at read
  rcases read with ⟨t, parts, x, y, z, hf, k, close, close', last, opened⟩ |
    ⟨t, parts, x, y, hf, single, k, close, last, opened⟩ | ⟨plain, last, rfl⟩ |
    ⟨parts, x, y, name, v, z, k, last, equals, val, finish, added⟩
  · obtain ⟨d₂', opened', within⟩ := exists_of_rel' (opened ▸ Draft.openElement_swap h)
    exact ⟨d₂', (line_eq_some_iff blank).2 (.inl ⟨t, parts, x, y, z, hf, k, close, close', last, opened'⟩), within⟩
  · obtain ⟨d₂', opened', within⟩ := exists_of_rel' (opened ▸ Draft.openTable_swap h)
    exact ⟨d₂', (line_eq_some_iff blank).2
      (.inr (.inl ⟨t, parts, x, y, hf, single, k, close, last, opened'⟩)), within⟩
  · exact ⟨d', (line_eq_some_iff blank).2 (.inr (.inr (.inl ⟨plain, last, rfl⟩))), .inr h⟩
  · obtain ⟨d₂', added', within⟩ := exists_of_rel' (added ▸ Draft.add_swap h)
    exact ⟨d₂', (line_eq_some_iff blank).2
      (.inr (.inr (.inr ⟨parts, x, y, name, v, z, k, last, equals, val, finish, added'⟩))), within⟩

theorem lines_eq_some_iff {fuel : Nat} (some' : cs ≠ []) :
    lines (fuel + 1) d cs = some d₂ ↔ ∃ d' r, line d cs = some (d', r) ∧ lines fuel d' r = some d₂ := by
  rw [lines.eq_3 _ _ _ some', Option.bind_eq_bind, Option.bind_eq_some_iff]
  exact Prod.exists

theorem lines_swap {fuel : Nat} (h : Within (Draft.Swap a b) d d') (read : lines fuel d cs = some d₂) :
    ∃ d₂', lines fuel d' cs = some d₂' ∧ Within (Draft.Swap a b) d₂ d₂' := by
  induction fuel generalizing d d' cs with
  | zero => cases read
  | succ fuel ih =>
    cases cs with
    | nil =>
      cases read
      exact ⟨d', rfl, h⟩
    | cons c cs =>
      rcases h with rfl | differ
      · exact ⟨_, read, .inl rfl⟩
      obtain ⟨d₁, rest, first, read⟩ := (lines_eq_some_iff (by simp)).1 read
      obtain ⟨d₁', first', within⟩ := line_swap differ first
      obtain ⟨d₂', read', within⟩ := ih within read
      exact ⟨d₂', (lines_eq_some_iff (by simp)).2 ⟨d₁', rest, first', read'⟩, within⟩

/-- There are never more lines than characters. -/
theorem lines_of_length {fuel fuel' : Nat} (read : lines fuel d cs = some d₂) (enough : cs.length < fuel') :
    lines fuel' d cs = some d₂ := by
  induction fuel generalizing d cs fuel' with
  | zero => cases read
  | succ fuel ih =>
    obtain ⟨fuel', rfl⟩ := Nat.exists_eq_add_of_le' (Nat.one_le_of_lt enough)
    cases cs with
    | nil => exact read
    | cons c cs =>
      obtain ⟨d₁, rest, first, read⟩ := (lines_eq_some_iff (by simp)).1 read
      obtain ⟨x, same, some', -⟩ := line_takes first
      have shorter : rest.length < (c :: cs).length := by
        have := List.length_pos_iff.2 (some' (by simp))
        rw [same, List.length_append]
        omega
      exact (lines_eq_some_iff (by simp)).2 ⟨d₁, rest, first, ih read (by omega)⟩

end Rest

/-! ## Exchange -/

/-- Another text in the place of the first one makes no difference but its own. -/
def Exchanges (u w after x : List Char) : Task → Prop
  | .value depth => ∀ {fuel v r},
      value fuel depth (x ++ quote u after) = some (v, r) → r.head? ≠ some '"' →
        ∀ fuel', 2 * (x ++ quote w after).length + 1 ≤ fuel' →
          ∃ v', value fuel' depth (x ++ quote w after) = some (v', r) ∧
            Within (Swap (String.ofList u) (String.ofList w)) v v'
  | .elements depth => ∀ {fuel vs r},
      elements fuel depth (x ++ quote u after) = some (vs, r) →
        ∀ fuel', 2 * (x ++ quote w after).length + 2 ≤ fuel' →
          ∃ vs', elements fuel' depth (x ++ quote w after) = some (vs', r) ∧
            Within (Once (Swap (String.ofList u) (String.ofList w))) vs vs'
  | .fields depth => ∀ {fuel rows rows' r},
      moreFields fuel depth rows (x ++ quote u after) = some (rows', r) →
        ∀ fuel', 2 * (x ++ quote w after).length ≤ fuel' →
          ∃ rows'', moreFields fuel' depth rows (x ++ quote w after) = some (rows'', r) ∧
            Within (RowsSwap (String.ofList u) (String.ofList w)) rows' rows''
  | .lines d => ∀ {fuel d'},
      lines fuel d (x ++ quote u after) = some d' →
        ∀ fuel', (x ++ quote w after).length < fuel' →
          ∃ d'', lines fuel' d (x ++ quote w after) = some d'' ∧
            Within (Draft.Swap (String.ofList u) (String.ofList w)) d' d''

/-- Fuel has no say in what is read. -/
theorem Local.unique {α : Type} {R : Nat → Reader α} {extra fuel fuel' : Nat} {z z' : α × List Char}
    (h : Local R extra fuel) (h' : Local R extra fuel') (read : R fuel cs = some z)
    (read' : R fuel' cs = some z') : z = z' := by
  obtain ⟨x, same, takes⟩ := h read
  obtain ⟨x', same', takes'⟩ := h' read'
  have more := takes (2 * x.length + extra + (2 * x'.length + extra)) (by omega) _ (.same _)
  have more' := takes' (2 * x.length + extra + (2 * x'.length + extra)) (by omega) _ (.same _)
  rw [← same] at more
  rw [← same', more] at more'
  exact Option.some.inj more'

section Steps

variable {depth : Nat} {b g g' z k e : List Char} {v : Value}

theorem exchanges_here (hu : Plain u) (some' : u ≠ []) (hw : Plain w) : Exchanges u w after [] (.value depth) := by
  intro fuel v r read apart fuel' enough
  rw [List.nil_append] at *
  cases fuel with
  | zero =>
    rw [value] at read
    cases read
  | succ fuel =>
    rw [value_quote hu (fun h => absurd h some')] at read
    cases read
    obtain ⟨fuel', rfl⟩ := Nat.exists_eq_add_of_le' (Nat.le_trans (Nat.le_add_left 1 _) enough)
    exact ⟨_, value_quote hw (fun _ => apart) _ _, .inr .text⟩

theorem exchanges_array (ih : Exchanges u w after x (.elements (depth + 1))) :
    Exchanges u w after ('[' :: x) (.value depth) := by
  intro fuel v r read apart fuel' enough
  cases fuel with
  | zero =>
    rw [value] at read
    cases read
  | succ fuel =>
    obtain ⟨shallow, vs, inner, rfl⟩ := value_bracket_iff.1 read
    cases fuel' with
    | zero => cases enough
    | succ fuel' =>
      obtain ⟨vs', inner', within⟩ := ih inner fuel' (by simp at enough ⊢; omega)
      exact ⟨.array vs', value_bracket_iff.2 ⟨shallow, vs', inner', rfl⟩, within.map _ .array⟩

theorem exchanges_table (skips : ∀ r', Alike (x ++ quote p after) r' → skipSpace (b ++ r') = r')
    (noEnd : (x ++ quote p after).head? ≠ some '\x7d') (ih : Exchanges u w after x (.fields (depth + 1))) :
    Exchanges u w after ('\x7b' :: (b ++ x)) (.value depth) := by
  intro fuel v r read apart fuel' enough
  have alike (w : List Char) := (alike_quote p w after).append x
  rw [List.cons_append, List.append_assoc] at *
  cases fuel with
  | zero =>
    rw [value] at read
    cases read
  | succ fuel =>
    obtain ⟨shallow, rows, inner, rfl⟩ := value_brace_iff.1 read
    rw [skips _ (alike u)] at inner
    cases fuel with
    | zero =>
      rw [fields] at inner
      cases inner
    | succ fuel =>
      rcases fields_eq_some_iff.1 inner with ⟨close, -⟩ | ⟨-, inner⟩
      · exact absurd (congrArg List.head? close) ((alike u).head?_ne noEnd)
      · obtain ⟨fuel', rfl⟩ : ∃ k, fuel' = k + 2 := ⟨fuel' - 2, by simp at enough; omega⟩
        obtain ⟨rows', inner', within⟩ := ih inner fuel' (by simp at enough ⊢; omega)
        refine ⟨.table .inline rows', value_brace_iff.2 ⟨shallow, rows', ?_, rfl⟩, within.map _ (.table .inline)⟩
        rw [skips _ (alike w)]
        exact fields_eq_some_iff.2 (.inr ⟨(alike w).head?_ne noEnd, inner'⟩)

/-- A quotation mark ends a gap. -/
theorem apart_of_skipGap? {front : List Char} (gap : skipGap? false cs = some front)
    (apart : front.head? ≠ some '"') : cs.head? ≠ some '"' := by
  intro front
  obtain ⟨t, rfl⟩ := List.head?_eq_some_iff.1 front
  cases gap
  exact apart rfl

theorem exchanges_element (skips : Passes (skipGap? false) g (x ++ quote p after))
    (noEnd : (x ++ quote p after).head? ≠ some ']') (ih : Exchanges u w after x (.value depth)) :
    Exchanges u w after (g ++ x) (.elements depth) := by
  intro fuel vs r read fuel' enough
  have alike (w : List Char) := (alike_quote p w after).append x
  rw [List.append_assoc] at *
  cases fuel with
  | zero =>
    rw [elements] at read
    cases read
  | succ fuel =>
    obtain ⟨front, gap, rest⟩ := elements_eq_some_iff.1 read
    cases (skips _ (alike u)).symm.trans gap
    rcases rest with ⟨close, -⟩ | ⟨-, v, back, next, val, gap', finish⟩
    · exact absurd (congrArg List.head? close) ((alike u).head?_ne noEnd)
    · have apart : back.head? ≠ some '"' := by
        refine apart_of_skipGap? gap' ?_
        rcases finish with ⟨rfl, -⟩ | ⟨t, vs', rfl, -⟩ <;> simp
      cases fuel' with
      | zero => cases enough
      | succ fuel' =>
        obtain ⟨v', val', within⟩ := ih val apart fuel' (by simp at enough ⊢; omega)
        have begun := (skips _ (alike w))
        have noEnd' := (alike w).head?_ne noEnd
        obtain ⟨x', same, -⟩ := (nested_local _).1 _ val'
        rcases finish with ⟨rfl, rfl⟩ | ⟨t, vs', rfl, others, rfl⟩
        · exact ⟨[v'], elements_eq_some_iff.2 ⟨_, begun, .inr ⟨noEnd', v', _, _, val', gap', .inl ⟨rfl, rfl⟩⟩⟩,
            within.map (· :: []) (.here [])⟩
        · obtain ⟨g', rfl, -⟩ := skipGap?_takes gap'
          obtain ⟨y, rfl, takes⟩ := (nested_local _).2.1 _ others
          have others' := takes fuel' (by
            have := congrArg List.length same
            simp at enough this
            omega) r (.same r)
          exact ⟨v' :: vs', elements_eq_some_iff.2 ⟨_, begun, .inr ⟨noEnd', v', _, _, val', gap',
            .inr ⟨_, vs', rfl, others', rfl⟩⟩⟩, within.map (· :: vs') (.here vs')⟩

theorem exchanges_nextElement
    (skips : Passes (skipGap? false) g (z ++ (g' ++ ',' :: (x ++ quote p after))))
    (noEnd : (z ++ (g' ++ ',' :: (x ++ quote p after))).head? ≠ some ']')
    (takes : ∀ fuel', 2 * z.length + 1 ≤ fuel' → Takes (value fuel' depth) v z (g' ++ ',' :: (x ++ quote p after)))
    (skips' : Passes (skipGap? false) g' (',' :: (x ++ quote p after)))
    (ih : Exchanges u w after x (.elements depth)) :
    Exchanges u w after (g ++ (z ++ (g' ++ ',' :: x))) (.elements depth) := by
  intro fuel vs r read fuel' enough
  have alike (w : List Char) := (alike_quote p w after).append x
  have comma (w : List Char) := Alike.cons ',' (alike w)
  have behind (w : List Char) := (comma w).append g'
  simp only [List.append_assoc, List.cons_append] at *
  cases fuel with
  | zero =>
    rw [elements] at read
    cases read
  | succ fuel =>
    obtain ⟨front, gap, rest⟩ := elements_eq_some_iff.1 read
    cases (skips _ ((behind u).append z)).symm.trans gap
    rcases rest with ⟨close, -⟩ | ⟨-, v', back, next, val, gap', finish⟩
    · exact absurd (congrArg List.head? close) (((behind u).append z).head?_ne noEnd)
    · cases ((nested_local _).1 _).unique ((nested_local _).1 _) (takes _ (Nat.le_refl _) _ (behind u)) val
      cases (skips' _ (comma u)).symm.trans gap'
      rcases finish with ⟨close, -⟩ | ⟨t, vs', same, others, rfl⟩
      · cases close
      · cases same
        cases fuel' with
        | zero => cases enough
        | succ fuel' =>
          obtain ⟨vs'', others', within⟩ := ih others fuel' (by simp at enough ⊢; omega)
          exact ⟨v :: vs'', elements_eq_some_iff.2 ⟨_, skips _ ((behind w).append z), .inr
            ⟨((behind w).append z).head?_ne noEnd, v, _, _, takes _ (by simp at enough; omega) _ (behind w),
              skips' _ (comma w), .inr ⟨_, vs'', rfl, others', rfl⟩⟩⟩, within.map _ (.there v)⟩

theorem apart_of_skipSpace {front : List Char} (blank : skipSpace cs = front) (apart : front.head? ≠ some '"') :
    cs.head? ≠ some '"' := by
  intro front
  obtain ⟨t, rfl⟩ := List.head?_eq_some_iff.1 front
  cases blank
  exact apart rfl

theorem exchanges_field {parts : List String}
    (keys : Takes key? parts k (e ++ (b ++ (x ++ quote p after))))
    (equal : Passes (expect? '=') e (b ++ (x ++ quote p after)))
    (skips : ∀ r', Alike (x ++ quote p after) r' → skipSpace (b ++ r') = r')
    (some' : k ≠ []) (ih : Exchanges u w after x (.value depth)) :
    Exchanges u w after (k ++ (e ++ (b ++ x))) (.fields depth) := by
  intro fuel rows rows' r read fuel' enough
  have alike (w : List Char) := (alike_quote p w after).append x
  simp only [List.append_assoc] at *
  cases fuel with
  | zero =>
    rw [moreFields] at read
    cases read
  | succ fuel =>
    obtain ⟨parts', key, rest, name, v, back, added, key', last, equals, val, add, finish⟩ :=
      moreFields_eq_some_iff.1 read
    cases (keys _ (((alike u).append b).append e)).symm.trans key'
    cases (equal _ ((alike u).append b)).symm.trans equals
    rw [skips _ (alike u)] at val
    have apart : back.head? ≠ some '"' := by
      rcases finish with ⟨close, -⟩ | ⟨t, comma, -⟩
      · exact apart_of_skipSpace close (by simp)
      · exact apart_of_skipSpace comma (by simp)
    have long := List.length_pos_iff.2 some'
    cases fuel' with
    | zero =>
      rw [List.length_append] at enough
      omega
    | succ fuel' =>
      obtain ⟨v', val', within⟩ := ih val apart fuel' (by simp at enough ⊢; omega)
      obtain ⟨added', add', within⟩ := addValue_within within add
      have begun := keys _ (((alike w).append b).append e)
      have equals' := equal _ ((alike w).append b)
      obtain ⟨x', same, -⟩ := (nested_local _).1 _ val'
      rw [← skips _ (alike w)] at val'
      rcases finish with ⟨close, rfl⟩ | ⟨t, comma, more⟩
      · exact ⟨added', moreFields_eq_some_iff.2 ⟨parts, _, _, name, v', back, added', begun, last, equals', val',
          add', .inl ⟨close, rfl⟩⟩, within⟩
      · obtain ⟨b', rfl, -⟩ := skipSpace_takes comma
        obtain ⟨y, rfl, takes⟩ := (nested_local _).2.2.2 _ _ more
        have more := takes fuel' (by
          have := congrArg List.length same
          simp at enough this
          omega) r (.same r)
        obtain ⟨rows'', more', within⟩ := moreFields_swap within more
        exact ⟨rows'', moreFields_eq_some_iff.2 ⟨parts, _, _, name, v', _, added', begun, last, equals', val', add',
          .inr ⟨_, comma, more'⟩⟩, within⟩

theorem exchanges_nextField {parts : List String}
    (keys : Takes key? parts k (e ++ (b ++ (z ++ (g ++ ',' :: (x ++ quote p after))))))
    (equal : Passes (expect? '=') e (b ++ (z ++ (g ++ ',' :: (x ++ quote p after)))))
    (skips : ∀ r', Alike (z ++ (g ++ ',' :: (x ++ quote p after))) r' → skipSpace (b ++ r') = r')
    (takes : ∀ fuel', 2 * z.length + 1 ≤ fuel' → Takes (value fuel' depth) v z (g ++ ',' :: (x ++ quote p after)))
    (skips' : ∀ r', Alike (',' :: (x ++ quote p after)) r' → skipSpace (g ++ r') = r')
    (ih : Exchanges u w after x (.fields depth)) :
    Exchanges u w after (k ++ (e ++ (b ++ (z ++ (g ++ ',' :: x))))) (.fields depth) := by
  intro fuel rows rows' r read fuel' enough
  have comma (w : List Char) := Alike.cons ',' ((alike_quote p w after).append x)
  have behind (w : List Char) := (comma w).append g
  simp only [List.append_assoc, List.cons_append] at *
  cases fuel with
  | zero =>
    rw [moreFields] at read
    cases read
  | succ fuel =>
    obtain ⟨parts', key, rest, name, v', back, added, key', last, equals, val, add, finish⟩ :=
      moreFields_eq_some_iff.1 read
    cases (keys _ ((((behind u).append z).append b).append e)).symm.trans key'
    cases (equal _ (((behind u).append z).append b)).symm.trans equals
    rw [skips _ ((behind u).append z)] at val
    cases ((nested_local _).1 _).unique ((nested_local _).1 _) (takes _ (Nat.le_refl _) _ (behind u)) val
    rw [skips' _ (comma u)] at finish
    rcases finish with ⟨close, -⟩ | ⟨t, same, more⟩
    · cases close
    · cases same
      cases fuel' with
      | zero => simp at enough
      | succ fuel' =>
        obtain ⟨rows'', more', within⟩ := ih more fuel' (by simp at enough ⊢; omega)
        refine ⟨rows'', moreFields_eq_some_iff.2 ⟨parts, _, _, name, v, _, added,
          keys _ ((((behind w).append z).append b).append e), last, equal _ (((behind w).append z).append b), ?_,
          add, .inr ⟨_, skips' _ (comma w), more'⟩⟩, within⟩
        rw [skips _ ((behind w).append z)]
        exact takes _ (by simp at enough; omega) _ (behind w)

/-- A line does not end in front of a quotation mark. -/
theorem apart_of_endOfLine? {r : List Char} (h : endOfLine? cs = some r) : cs.head? ≠ some '"' := by
  intro front
  obtain ⟨t, rfl⟩ := List.head?_eq_some_iff.1 front
  cases h

theorem exchanges_row {d : Draft} {parts : List String}
    (blank : ∀ r', Alike (k ++ (e ++ (b ++ (x ++ quote p after)))) r' → skipSpace (g ++ r') = r')
    (keys : Takes key? parts k (e ++ (b ++ (x ++ quote p after))))
    (equal : Passes (expect? '=') e (b ++ (x ++ quote p after)))
    (skips : ∀ r', Alike (x ++ quote p after) r' → skipSpace (b ++ r') = r')
    (some' : k ≠ []) (ih : Exchanges u w after x (.value 0)) :
    Exchanges u w after (g ++ (k ++ (e ++ (b ++ x)))) (.lines d) := by
  intro fuel d₂ read fuel' enough
  have alike (w : List Char) := (alike_quote p w after).append x
  have front (w : List Char) := blank _ ((((alike w).append b).append e).append k)
  have long := List.length_pos_iff.2 some'
  simp only [List.append_assoc] at *
  cases fuel with
  | zero => cases read
  | succ fuel =>
    obtain ⟨d₁, r, first, read⟩ := (lines_eq_some_iff (by simp [some'])).1 read
    have key := keys _ (((alike u).append b).append e)
    obtain ⟨noBlank, noOpen⟩ := not_isBlankLine_of_key? key
    rcases (line_eq_some_iff (front u)).1 first with ⟨_, _, _, _, _, open', -⟩ | ⟨_, _, _, _, open', -⟩ |
      ⟨plain, -⟩ | ⟨parts', key', rest, name, v, c, k', last, equals, val, finish, added⟩
    · exact absurd (congrArg List.head? open') noOpen
    · exact absurd (congrArg List.head? open') noOpen
    · exact absurd plain noBlank
    · cases key.symm.trans k'
      cases (equal _ ((alike u).append b)).symm.trans equals
      rw [skips _ (alike u)] at val
      obtain ⟨v', val', within⟩ := ih val (apart_of_endOfLine? finish) _ (Nat.le_succ _)
      obtain ⟨x', same, -⟩ := (nested_local _).1 _ val'
      obtain ⟨l, rfl, -⟩ := endOfLine?_takes finish
      obtain ⟨d₁', added', within⟩ := exists_of_within (f := (d.add parts.dropLast name ·)) within d.add_value added
      cases fuel' with
      | zero => cases enough
      | succ fuel' =>
        have read : lines fuel' d₁ _ = some d₂ := lines_of_length read (by
          have := congrArg List.length same
          simp at enough this
          omega)
        obtain ⟨d₂', read', within⟩ := lines_swap within read
        refine ⟨d₂', (lines_eq_some_iff (by simp [some'])).2 ⟨d₁', r, (line_eq_some_iff (front w)).2
          (.inr (.inr (.inr ⟨parts, _, _, name, v', _, keys _ (((alike w).append b).append e), last,
            equal _ ((alike w).append b), ?_, finish, added'⟩))), read'⟩, within⟩
        rw [skips _ (alike w)]
        exact val'

theorem exchanges_nextLine {d d' : Draft} (takes : Takes (line d) d' z (x ++ quote p after)) (some' : z ≠ [])
    (ih : Exchanges u w after x (.lines d')) : Exchanges u w after (z ++ x) (.lines d) := by
  intro fuel d₂ read fuel' enough
  have alike (w : List Char) := (alike_quote p w after).append x
  have long := List.length_pos_iff.2 some'
  rw [List.append_assoc] at *
  cases fuel with
  | zero => cases read
  | succ fuel =>
    obtain ⟨d₁, r, first, read⟩ := (lines_eq_some_iff (by simp [some'])).1 read
    cases (takes _ (alike u)).symm.trans first
    cases fuel' with
    | zero => cases enough
    | succ fuel' =>
      obtain ⟨d₂', read', within⟩ := ih read fuel' (by simp at enough ⊢; omega)
      exact ⟨d₂', (lines_eq_some_iff (by simp [some'])).2 ⟨_, _, takes _ (alike w), read'⟩, within⟩

end Steps

/-- A value that is reached begins with a quotation mark or a bracket. -/
theorem Reads.head?_value {depth : Nat} (h : Reads (quote p after) (.value depth) cs) : cs.head? ≠ some ']' := by
  generalize same : Task.value depth = task at h
  cases h with
  | here => simp [quote]
  | array => simp
  | table => simp
  | _ => cases same

theorem key?_head? {z : List String × List Char} (h : key? cs = some z) : cs.head? ≠ some '\x7d' := by
  intro front
  obtain ⟨t, rfl⟩ := List.head?_eq_some_iff.1 front
  cases h

theorem Reads.head?_fields {depth : Nat} (h : Reads (quote p after) (.fields depth) cs) :
    cs.head? ≠ some '\x7d' := by
  generalize same : Task.fields depth = task at h
  cases h with
  | field keys => exact key?_head? keys
  | nextField keys => exact key?_head? keys
  | _ => cases same

theorem value_close (fuel depth : Nat) (t : List Char) : value fuel depth (']' :: t) = none := by
  cases fuel with
  | zero => rw [value]
  | succ fuel =>
    rw [value_of_word (by simp)]
    rfl

/-- Up to the text and behind it a document is read in the same way, whichever text stands there. -/
theorem Reads.exchanges {task : Task} (h : Reads (quote p after) task cs) :
    ∃ x, cs = x ++ quote p after ∧ ∀ u w, Plain u → u ≠ [] → Plain w → Exchanges u w after x task := by
  induction h with
  | here => exact ⟨[], rfl, fun u w hu some' hw => exchanges_here hu some' hw⟩
  | array _ ih =>
    obtain ⟨x, rfl, ih⟩ := ih
    exact ⟨'[' :: x, rfl, fun u w hu some' hw => exchanges_array (ih u w hu some' hw)⟩
  | @table depth cs h ih =>
    have noEnd := h.head?_fields
    obtain ⟨x, same, ih⟩ := ih
    rw [same] at noEnd
    obtain ⟨b, rfl, skips⟩ := skipSpace_takes same
    exact ⟨'\x7b' :: (b ++ x), by simp, fun u w hu some' hw =>
      exchanges_table skips noEnd (ih u w hu some' hw)⟩
  | element gap h ih =>
    have noEnd := h.head?_value
    obtain ⟨x, rfl, ih⟩ := ih
    obtain ⟨g, rfl, skips⟩ := skipGap?_takes gap
    exact ⟨g ++ x, by simp, fun u w hu some' hw => exchanges_element skips noEnd (ih u w hu some' hw)⟩
  | nextElement gap val gap' _ ih =>
    obtain ⟨x, rfl, ih⟩ := ih
    obtain ⟨g', rfl, skips'⟩ := skipGap?_takes gap'
    obtain ⟨z, rfl, takes⟩ := (nested_local _).1 _ val
    obtain ⟨g, rfl, skips⟩ := skipGap?_takes gap
    refine ⟨g ++ (z ++ (g' ++ ',' :: x)), by simp, fun u w hu some' hw =>
      exchanges_nextElement skips ?_ takes skips' (ih u w hu some' hw)⟩
    intro front
    obtain ⟨t, same⟩ := List.head?_eq_some_iff.1 front
    rw [same, value_close] at val
    cases val
  | field keys equals _ ih =>
    obtain ⟨x, same, ih⟩ := ih
    obtain ⟨b, rfl, skips⟩ := skipSpace_takes same
    obtain ⟨e, rfl, -, equal⟩ := expect?_takes equals
    obtain ⟨k, rfl, some', key⟩ := key?_takes keys
    exact ⟨k ++ (e ++ (b ++ x)), by simp, fun u w hu some'' hw =>
      exchanges_field key equal skips some' (ih u w hu some'' hw)⟩
  | nextField keys equals val comma _ ih =>
    obtain ⟨x, rfl, ih⟩ := ih
    obtain ⟨g, rfl, skips'⟩ := skipSpace_takes comma
    generalize blank : skipSpace _ = front at val
    obtain ⟨z, rfl, takes⟩ := (nested_local _).1 _ val
    obtain ⟨b, rfl, skips⟩ := skipSpace_takes blank
    obtain ⟨e, rfl, -, equal⟩ := expect?_takes equals
    obtain ⟨k, rfl, -, key⟩ := key?_takes keys
    exact ⟨k ++ (e ++ (b ++ (z ++ (g ++ ',' :: x)))), by simp, fun u w hu some' hw =>
      exchanges_nextField key equal skips takes skips' (ih u w hu some' hw)⟩
  | row keys equals _ ih =>
    obtain ⟨x, same, ih⟩ := ih
    generalize blank : skipSpace _ = front at keys
    obtain ⟨b, rfl, skips⟩ := skipSpace_takes same
    obtain ⟨e, rfl, -, equal⟩ := expect?_takes equals
    obtain ⟨k, rfl, some', key⟩ := key?_takes keys
    obtain ⟨g, rfl, blanks⟩ := skipSpace_takes blank
    exact ⟨g ++ (k ++ (e ++ (b ++ x))), by simp, fun u w hu some'' hw =>
      exchanges_row blanks key equal skips some' (ih u w hu some'' hw)⟩
  | nextLine first _ ih =>
    obtain ⟨x, rfl, ih⟩ := ih
    obtain ⟨z, rfl, some', takes⟩ := line_takes first
    exact ⟨z ++ x, by simp, fun u w hu some'' hw =>
      exchanges_nextLine takes (some' (by simp [quote])) (ih u w hu some'' hw)⟩

theorem skipMark_quote (before after : List Char) :
    ∃ before', ∀ w, skipMark (before ++ quote w after) = before' ++ quote w after := by
  cases before with
  | nil => exact ⟨[], fun w => rfl⟩
  | cons c before =>
    by_cases mark : c = '\ufeff'
    · subst mark
      exact ⟨before, fun w => rfl⟩
    · refine ⟨c :: before, fun w => ?_⟩
      rw [List.cons_append, skipMark]
      rintro cs same
      exact mark (List.cons.inj same).1

/-- A document with a value between quotation marks is read with any other value in its place, and the tables
that come out differ in that value at most. -/
theorem parse_exchange {before : List Char} {rows : Rows}
    (place : Reads (quote p after) (.lines {}) (skipMark (before ++ quote p after)))
    (hu : Plain u) (some' : u ≠ []) (hw : Plain w) (read : parse (before ++ quote u after) = some rows) :
    ∃ rows', parse (before ++ quote w after) = some rows' ∧
      Within (RowsSwap (String.ofList u) (String.ofList w)) rows rows' := by
  obtain ⟨before', start⟩ := skipMark_quote before after
  obtain ⟨x, same, exchanges⟩ := place.exchanges
  cases List.append_cancel_right ((start p).symm.trans same)
  simp only [parse, start, Option.bind_eq_bind, Option.bind_eq_some_iff] at read ⊢
  obtain ⟨d, read, closed, close, same⟩ := read
  cases same
  obtain ⟨d', read', within⟩ := exchanges u w hu some' hw read _ (Nat.lt_succ_self _)
  obtain ⟨closed', close', within⟩ := exists_of_within within Draft.close_swap close
  refine ⟨closed'.root, ⟨d', read', closed', close', rfl⟩, ?_⟩
  rcases within with rfl | differ
  · exact .inl rfl
  · cases differ with
    | root differ => exact .inr differ
    | current => exact .inl rfl

end Tenure.Toml
