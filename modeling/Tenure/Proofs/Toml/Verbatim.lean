import Tenure.Proofs.Toml.Place

/-!
# Texts that are kept

- **Verbatim** (`plain_of_quoted?`): a text between quotation marks is read as it stands there only if it is
  plain. An escape takes more characters than it gives, and so do tripled quotation marks.
- **For good** (`Keeps`, `parse_keeps`): no later line takes a text away or puts another one in its place.
-/

namespace Tenure.Toml

variable {cs r w after acc : List Char} {s : String} {fuel : Nat}

/-! ## Verbatim -/

/-- A text on one line is no longer than what stands there, and as long only if it stands there as it is. -/
theorem basicRest_verbatim (h : basicRest fuel acc cs = some (s, r)) :
    ∃ t, cs = t ++ '"' :: r ∧ s.toList.length ≤ acc.length + t.length ∧
      (s.toList.length = acc.length + t.length → Plain t ∧ s.toList = acc.reverse ++ t) := by
  fun_induction basicRest fuel acc cs with
  | case1 => cases h
  | case2 fuel acc cs =>
    cases h
    exact ⟨[], rfl, by simp, fun _ => ⟨by simp [Plain], by simp⟩⟩
  | case3 fuel acc cs ih =>
    obtain ⟨⟨c, rest⟩, esc, more⟩ := Option.bind_eq_some_iff.1 h
    obtain ⟨y, rfl, some', -⟩ := escaped?_takes esc
    obtain ⟨t, rfl, short, -⟩ := ih c rest more
    have := List.length_pos_iff.2 some'
    rw [List.length_cons] at short
    refine ⟨'\\' :: (y ++ t), by simp, ?_, fun long => ?_⟩
    · rw [List.length_cons, List.length_append]
      omega
    · rw [List.length_cons, List.length_append] at long
      omega
  | case4 fuel acc c cs noQuote noEscape inl ih =>
    obtain ⟨t, rfl, short, verbatim⟩ := ih h
    rw [List.length_cons] at short verbatim
    refine ⟨c :: t, rfl, ?_, fun long => ?_⟩
    · rw [List.length_cons]
      omega
    · rw [List.length_cons] at long
      obtain ⟨plain, same⟩ := verbatim (by omega)
      refine ⟨List.forall_mem_cons.2 ⟨⟨inl, ?_, ?_⟩, plain⟩, by simp [same]⟩
      · exact fun same => noQuote same
      · exact fun same => noEscape same
  | case5 => cases h
  | case6 => cases h

/-- Two of the quotation marks that close a text of several lines add nothing to it. -/
theorem basicLinesRest_short (h : basicLinesRest fuel acc cs = some (s, r)) :
    ∃ t, cs = t ++ '"' :: r ∧ s.toList.length + 2 ≤ acc.length + t.length := by
  fun_induction basicLinesRest fuel acc cs with
  | case1 => cases h
  | case2 fuel acc cs own rest close =>
    cases h
    obtain ⟨n, rfl, rfl, -⟩ := closing?_eq_some_iff.1 close
    refine ⟨List.replicate (n + 2) '"', ?_, by simp; omega⟩
    rw [List.replicate_succ', List.append_assoc]
    rfl
  | case3 fuel acc cs rest line close ih =>
    obtain ⟨t, rfl, short⟩ := ih h
    obtain ⟨y, rfl, -⟩ := joinedLine?_takes line
    refine ⟨'\\' :: (y ++ t), by simp, ?_⟩
    rw [List.length_cons, List.length_append]
    omega
  | case4 fuel acc cs line close ih =>
    obtain ⟨⟨c, rest⟩, esc, more⟩ := Option.bind_eq_some_iff.1 h
    obtain ⟨t, rfl, short⟩ := ih c rest more
    obtain ⟨y, rfl, -⟩ := escaped?_takes esc
    refine ⟨'\\' :: (y ++ t), by simp, ?_⟩
    rw [List.length_cons] at short
    rw [List.length_cons, List.length_append]
    omega
  | case5 fuel acc cs close ih =>
    obtain ⟨t, rfl, short⟩ := ih h
    refine ⟨'\r' :: '\n' :: t, rfl, ?_⟩
    rw [List.length_cons] at short
    rw [List.length_cons, List.length_cons]
    omega
  | case6 fuel acc c cs _ _ _ _ ih =>
    obtain ⟨t, rfl, short⟩ := ih h
    refine ⟨c :: t, rfl, ?_⟩
    rw [List.length_cons] at short
    rw [List.length_cons]
    omega
  | case7 => cases h
  | case8 => cases h

/-- The last quotation mark of a text is not before any other one. -/
theorem length_le_of_not_mem {c : Char} {xs ys zs ws : List Char} (last : c ∉ ys)
    (same : xs ++ c :: ys = zs ++ c :: ws) : zs.length ≤ xs.length := by
  rcases List.append_eq_append_iff.1 same with ⟨q, rfl, back⟩ | ⟨q, rfl, -⟩
  · cases q with
    | nil => simp
    | cons d q =>
      obtain ⟨-, rfl⟩ := List.cons.inj back
      exact (last (by simp)).elim
  · simp

theorem plain_of_quoted? (last : '"' ∉ after) (read : quoted? (quote w after) = some (String.ofList w, r)) :
    Plain w := by
  rw [quote] at read
  generalize rest : w ++ '"' :: after = cs at read
  unfold quoted? at read
  split at read
  · rename_i inner front
    obtain ⟨-, rfl⟩ := List.cons.inj front
    obtain ⟨t, lines, short⟩ := basicLinesRest_short read
    obtain ⟨z, rfl, -⟩ := skipNewline_takes lines (by rw [List.length_nil, Nat.zero_add] at short; omega)
    have same : w ++ '"' :: after = ('"' :: '"' :: (z ++ t)) ++ '"' :: r := rest.trans (by simp)
    have inside := length_le_of_not_mem last same
    simp at inside short
    omega
  · rename_i front
    cases front
  · unfold quotedLine? at read
    obtain ⟨t, same, short, verbatim⟩ := basicRest_verbatim read
    have inside := length_le_of_not_mem last (rest.trans same)
    simp at short verbatim
    obtain ⟨plain, same⟩ := verbatim (by omega)
    exact same ▸ plain

/-! ## For good -/

/-- The rows hold this value under the key, and no other. -/
structure Keeps (key : String) (v : Value) (rows : Rows) : Prop where
  mem : (key, v) ∈ rows
  only : ∀ x, (key, x) ∈ rows → x = v

section Rows

variable {β : Type} {key other name : String} {v x : Value} {rows rows' : Rows} {kind : TableKind}
  {path : List String} {dotted : Bool}

theorem mem_put_iff {row : String × Value} (ne : other ≠ row.1) :
    row ∈ Table.put other x rows ↔ row ∈ rows := by
  induction rows with
  | nil => simp [Table.put, Prod.ext_iff, Ne.symm ne]
  | cons row' rows ih =>
    by_cases same : row'.1 = other
    · subst same
      have apart : row ≠ row' := fun h => ne (h ▸ rfl)
      have apart' : row ≠ (row'.1, x) := fun h => ne (h ▸ rfl)
      simp [Table.put, apart, apart']
    · simp [Table.put, same, ih]

namespace Keeps

theorem put (h : Keeps key v rows) (ne : other ≠ key) : Keeps key v (Table.put other x rows) where
  mem := (mem_put_iff ne).2 h.mem
  only y mem := h.only y ((mem_put_iff ne).1 mem)

theorem filter (h : Keeps key v rows) (ne : other ≠ key) : Keeps key v (rows.filter fun r => r.1 ≠ other) where
  mem := List.mem_filter.2 ⟨h.mem, by simpa using ne.symm⟩
  only y mem := h.only y ((List.mem_filter.1 mem).1)

theorem find? (h : Keeps key v rows) : Table.find? key rows = some v := by
  cases found : Table.find? key rows with
  | none => exact absurd (List.mem_map_of_mem (f := Prod.fst) h.mem) (Table.find?_eq_none.1 found)
  | some x => rw [h.only x (Table.mem_of_find? found)]

/-- Where there is another value, or none, there is another key. -/
theorem ne (h : Keeps key v rows) (found : Table.find? other rows ≠ some v) : other ≠ key := by
  rintro rfl
  exact found h.find?

end Keeps

variable {s : String} {edit : TableKind → Rows → Option (Rows × β)} {b : β}

/-- No path leads through a text. -/
theorem descend_keeps (h : Keeps key (.string s) rows)
    (edits : ∀ {rows' b}, edit kind rows = some (rows', b) → Keeps key (.string s) rows')
    (walk : descend dotted edit path kind rows = some (rows', b)) : Keeps key (.string s) rows' := by
  cases path with
  | nil => exact edits walk
  | cons k path =>
    rw [descend] at walk
    split at walk
    · rename_i found
      obtain ⟨x, -, same⟩ := Option.bind_eq_some_iff.1 walk
      cases same
      exact h.put (h.ne (by simp [found]))
    · rename_i found
      split at walk
      · cases walk
      · obtain ⟨x, -, same⟩ := Option.bind_eq_some_iff.1 walk
        cases same
        exact h.put (h.ne (by simp [found]))
    · rename_i found
      split at walk
      · obtain ⟨x, -, same⟩ := Option.bind_eq_some_iff.1 walk
        cases same
        exact h.put (h.ne (by simp [found]))
      · cases walk
    · cases walk

theorem addValue_keeps (h : Keeps key (.string s) rows) (added : addValue path name v kind rows = some rows') :
    Keeps key (.string s) rows' := by
  obtain ⟨⟨rows'', b⟩, walk, same⟩ := Option.map_eq_some_iff.1 added
  cases same
  refine descend_keeps h (fun edited => ?_) walk
  split at edited
  · cases edited
  · split at edited
    · cases edited
    · rename_i found
      cases edited
      exact h.put (h.ne (by simp [found]))

end Rows

/-- A text in the outermost table of a draft, be that table open or not. -/
def Draft.Keeps (key s : String) (d : Draft) : Prop :=
  (d.path = [] → Toml.Keeps key (.string s) d.current) ∧ (d.path ≠ [] → Toml.Keeps key (.string s) d.root)

namespace Draft

variable {d d' : Draft} {key s name : String} {path parts : List String} {v : Value}

theorem Keeps.close (h : d.Keeps key s) (closed : d.close = some d') : Toml.Keeps key (.string s) d'.root := by
  unfold Draft.close at closed
  split at closed
  · rename_i none
    cases closed
    exact h.1 (List.getLast?_eq_none_iff.1 none)
  · rename_i last
    have opened : d.path ≠ [] := by
      rintro empty
      rw [empty] at last
      cases last
    obtain ⟨⟨root, b⟩, walk, same⟩ := Option.bind_eq_some_iff.1 closed
    cases same
    refine descend_keeps (h.2 opened) (fun edited => ?_) walk
    split at edited
    · rename_i found
      split at edited
      · cases edited
        exact (h.2 opened).put ((h.2 opened).ne (by simp [found]))
      · cases edited
    · rename_i found
      cases edited
      exact (h.2 opened).put ((h.2 opened).ne (by simp [found]))
    · cases edited

/-- The table that is open is not the outermost one. -/
theorem keeps_of_path (opened : d.path ≠ []) (h : Toml.Keeps key (.string s) d.root) : d.Keeps key s :=
  ⟨fun empty => absurd empty opened, fun _ => h⟩

theorem Keeps.openTable (h : d.Keeps key s) (opened : d.openTable path = some d') : d'.Keeps key s := by
  unfold Draft.openTable at opened
  obtain ⟨closed, close, opened⟩ := Option.bind_eq_some_iff.1 opened
  obtain ⟨k, last, opened⟩ := Option.bind_eq_some_iff.1 opened
  obtain ⟨⟨root, current⟩, walk, same⟩ := Option.bind_eq_some_iff.1 opened
  cases same
  have kept := h.close close
  refine keeps_of_path (by rintro rfl; cases last) (descend_keeps kept (fun edited => ?_) walk)
  split at edited
  · cases edited
    exact kept
  · rename_i found
    cases edited
    exact kept.filter (kept.ne (by simp [found]))
  · cases edited

theorem Keeps.openElement (h : d.Keeps key s) (opened : d.openElement path = some d') : d'.Keeps key s := by
  unfold Draft.openElement at opened
  obtain ⟨closed, close, opened⟩ := Option.bind_eq_some_iff.1 opened
  obtain ⟨k, last, opened⟩ := Option.bind_eq_some_iff.1 opened
  obtain ⟨⟨root, current⟩, walk, same⟩ := Option.bind_eq_some_iff.1 opened
  cases same
  have kept := h.close close
  refine keeps_of_path (by rintro rfl; cases last) (descend_keeps kept (fun edited => ?_) walk)
  split at edited
  · rename_i found
    cases edited
    exact kept.put (kept.ne (by simp [found]))
  · cases edited
    exact kept
  · cases edited

theorem Keeps.add (h : d.Keeps key s) (added : d.add path name v = some d') : d'.Keeps key s := by
  obtain ⟨current, add, same⟩ := Option.bind_eq_some_iff.1 added
  cases same
  exact ⟨fun empty => addValue_keeps (h.1 empty) add, h.2⟩

theorem Keeps.line (h : d.Keeps key s) (read : line d cs = some (d', r)) : d'.Keeps key s := by
  rcases (line_eq_some_iff rfl).1 read with ⟨_, _, _, _, _, -, -, -, -, -, opened⟩ |
    ⟨_, _, _, _, -, -, -, -, -, opened⟩ | ⟨-, -, rfl⟩ | ⟨_, _, _, _, _, _, -, -, -, -, -, added⟩
  · exact h.openElement opened
  · exact h.openTable opened
  · exact h
  · exact h.add added

theorem Keeps.lines (h : d.Keeps key s) (read : lines fuel d cs = some d') : d'.Keeps key s := by
  induction fuel generalizing d cs with
  | zero => cases read
  | succ fuel ih =>
    cases cs with
    | nil =>
      cases read
      exact h
    | cons c cs =>
      obtain ⟨d₁, rest, first, read⟩ := (lines_eq_some_iff (by simp)).1 read
      exact ih (h.line first) read

end Draft

end Tenure.Toml
