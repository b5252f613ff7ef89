import Tenure.Proofs.Toml.Locality

/-!
# Values and lines of TOML, taken apart

What the readers of arrays, of tables between braces and of lines do is said once, as the parts that they
find (`elements_eq_some_iff`, `fields_eq_some_iff`, `moreFields_eq_some_iff`, `line_eq_some_iff`). From that
follows that they, too, look ahead no further than up to a quotation mark (`nested_local`, `line_takes`), and
that fuel for the characters that they take is enough.
-/

namespace Tenure.Toml

variable {α : Type} {c : Char} {cs x r r' : List Char}

/-! ## Arrays and tables -/

theorem elements_eq_some_iff {fuel depth : Nat} {vs : List Value} :
    elements (fuel + 1) depth cs = some (vs, r) ↔
      ∃ front, skipGap? false cs = some front ∧
        (front = ']' :: r ∧ vs = [] ∨ front.head? ≠ some ']' ∧ ∃ v rest back,
          value fuel depth front = some (v, rest) ∧ skipGap? false rest = some back ∧
            (back = ']' :: r ∧ vs = [v] ∨ ∃ t vs', back = ',' :: t ∧ elements fuel depth t = some (vs', r) ∧
              vs = v :: vs')) := by
  rw [elements]
  constructor
  · intro h
    obtain ⟨front, gap, h⟩ := Option.bind_eq_some_iff.1 h
    refine ⟨front, gap, ?_⟩
    dsimp only at h
    split at h
    · cases h
      exact .inl ⟨rfl, rfl⟩
    · rename_i noEnd
      obtain ⟨⟨v, rest⟩, first, h⟩ := Option.bind_eq_some_iff.1 h
      obtain ⟨back, gap', h⟩ := Option.bind_eq_some_iff.1 h
      refine .inr ⟨?_, v, rest, back, first, gap', ?_⟩
      · intro h
        obtain ⟨t, same⟩ := List.head?_eq_some_iff.1 h
        exact noEnd t same
      dsimp only at h
      split at h
      · obtain ⟨⟨vs', rest'⟩, more, h⟩ := Option.bind_eq_some_iff.1 h
        cases h
        exact .inr ⟨_, vs', rfl, more, rfl⟩
      · cases h
        exact .inl ⟨rfl, rfl⟩
      · cases h
  · rintro ⟨front, gap, ⟨rfl, rfl⟩ | ⟨noEnd, v, rest, back, first, gap', last⟩⟩
    · rw [gap]
      rfl
    · rw [gap]
      simp only [Option.bind_eq_bind, Option.bind_some]
      split
      · exact absurd rfl noEnd
      · rw [first, Option.bind_some]
        dsimp only
        rw [gap', Option.bind_some]
        rcases last with ⟨rfl, rfl⟩ | ⟨t, vs', rfl, more, rfl⟩
        · rfl
        · simp [more]

theorem fields_eq_some_iff {fuel depth : Nat} {rows : Rows} :
    fields (fuel + 1) depth cs = some (rows, r) ↔
      cs = '}' :: r ∧ rows = [] ∨ cs.head? ≠ some '}' ∧ moreFields fuel depth [] cs = some (rows, r) := by
  cases cs with
  | nil => simp [fields]
  | cons c t =>
    by_cases close : c = '\x7d'
    · subst close
      simp [fields, eq_comm, and_comm]
    · rw [fields]
      · simp [close]
      · rintro t' same
        exact close (List.cons.inj same).1

theorem moreFields_eq_some_iff {fuel depth : Nat} {rows rows' : Rows} :
    moreFields (fuel + 1) depth rows cs = some (rows', r) ↔
      ∃ parts key rest name v back rows'', key? cs = some (parts, key) ∧ parts.getLast? = some name ∧
        expect? '=' key = some rest ∧ value fuel depth (skipSpace rest) = some (v, back) ∧
        addValue parts.dropLast name v .inline rows = some rows'' ∧
        (skipSpace back = '}' :: r ∧ rows' = rows'' ∨
          ∃ t, skipSpace back = ',' :: t ∧ moreFields fuel depth rows'' t = some (rows', r)) := by
  rw [moreFields]
  constructor
  · intro h
    obtain ⟨⟨parts, key⟩, read, h⟩ := Option.bind_eq_some_iff.1 h
    obtain ⟨name, last, h⟩ := Option.bind_eq_some_iff.1 h
    obtain ⟨rest, equals, h⟩ := Option.bind_eq_some_iff.1 h
    obtain ⟨⟨v, back⟩, val, h⟩ := Option.bind_eq_some_iff.1 h
    obtain ⟨rows'', added, h⟩ := Option.bind_eq_some_iff.1 h
    refine ⟨parts, key, rest, name, v, back, rows'', read, last, equals, val, added, ?_⟩
    split at h
    · rename_i t comma
      exact .inr ⟨t, comma, h⟩
    · rename_i close
      cases h
      exact .inl ⟨close, rfl⟩
    · cases h
  · rintro ⟨parts, key, rest, name, v, back, rows'', read, last, equals, val, added, finish⟩
    simp only [Option.bind_eq_bind, read, last, equals, val, added, Option.bind_some]
    rcases finish with ⟨close, rfl⟩ | ⟨t, comma, more⟩
    · rw [close]
      rfl
    · rw [comma]
      exact more

theorem value_bracket_iff {fuel depth : Nat} {v : Value} :
    value (fuel + 1) depth ('[' :: cs) = some (v, r) ↔
      depth + 1 < depthLimit ∧ ∃ vs, elements fuel (depth + 1) cs = some (vs, r) ∧ v = .array vs := by
  rw [value]
  split
  · rename_i shallow
    simp only [shallow, true_and, Option.bind_eq_bind, Option.bind_eq_some_iff]
    constructor
    · rintro ⟨⟨vs, rest⟩, read, same⟩
      cases same
      exact ⟨vs, read, rfl⟩
    · rintro ⟨vs, read, rfl⟩
      exact ⟨_, read, rfl⟩
  · rename_i deep
    simp [deep]

theorem value_brace_iff {fuel depth : Nat} {v : Value} :
    value (fuel + 1) depth ('\x7b' :: cs) = some (v, r) ↔ depth + 1 < depthLimit ∧
      ∃ rows, fields fuel (depth + 1) (skipSpace cs) = some (rows, r) ∧ v = .table .inline rows := by
  rw [value]
  split
  · rename_i shallow
    simp only [shallow, true_and, Option.bind_eq_bind, Option.bind_eq_some_iff]
    constructor
    · rintro ⟨⟨vs, rest⟩, read, same⟩
      cases same
      exact ⟨vs, read, rfl⟩
    · rintro ⟨vs, read, rfl⟩
      exact ⟨_, read, rfl⟩
  · rename_i deep
    simp [deep]

/-- What a reader takes with some fuel, it takes in front of every text that goes on alike, if it has fuel for
the characters taken. -/
def Local (R : Nat → Reader α) (extra fuel : Nat) : Prop :=
  ∀ ⦃cs a r⦄, R fuel cs = some (a, r) →
    ∃ x, cs = x ++ r ∧ ∀ fuel', 2 * x.length + extra ≤ fuel' → Takes (R fuel') a x r

section Nested

variable {fuel depth : Nat}

theorem elements_local (val : Local (value · depth) 1 fuel) (els : Local (elements · depth) 1 fuel) :
    Local (elements · depth) 1 (fuel + 1) := by
  intro cs vs r h
  obtain ⟨front, gap, ⟨rfl, rfl⟩ | ⟨noEnd, v, rest, back, first, gap', last⟩⟩ := elements_eq_some_iff.1 h
  · obtain ⟨g, rfl, skips⟩ := skipGap?_takes gap
    refine ⟨g ++ [']'], by simp, fun fuel' enough r' alike => ?_⟩
    cases fuel' with
    | zero => cases enough
    | succ fuel' =>
      rw [List.append_assoc]
      exact elements_eq_some_iff.2 ⟨_, skips _ (.cons _ alike), .inl ⟨rfl, rfl⟩⟩
  · obtain ⟨g, rfl, skips⟩ := skipGap?_takes gap
    obtain ⟨x, rfl, takes⟩ := val first
    obtain ⟨g', rfl, skips'⟩ := skipGap?_takes gap'
    rcases last with ⟨rfl, rfl⟩ | ⟨t, vs', rfl, more, rfl⟩
    · refine ⟨g ++ (x ++ (g' ++ [']'])), by simp, fun fuel' enough r' alike => ?_⟩
      cases fuel' with
      | zero => cases enough
      | succ fuel' =>
        have close := Alike.cons ']' alike
        have behind := close.append g'
        have room : 2 * x.length + 1 ≤ fuel' := by simp at enough; omega
        simp only [List.append_assoc, List.singleton_append]
        exact elements_eq_some_iff.2 ⟨_, skips _ (behind.append x), .inr ⟨(behind.append x).head?_ne noEnd,
          v, _, _, takes _ room _ behind, skips' _ close, .inl ⟨rfl, rfl⟩⟩⟩
    · obtain ⟨y, rfl, takes'⟩ := els more
      refine ⟨g ++ (x ++ (g' ++ ',' :: y)), by simp, fun fuel' enough r' alike => ?_⟩
      cases fuel' with
      | zero => cases enough
      | succ fuel' =>
        have comma := Alike.cons ',' (alike.append y)
        have behind := comma.append g'
        have room : 2 * x.length + 1 ≤ fuel' ∧ 2 * y.length + 1 ≤ fuel' := by simp at enough; omega
        simp only [List.append_assoc, List.cons_append]
        exact elements_eq_some_iff.2 ⟨_, skips _ (behind.append x), .inr ⟨(behind.append x).head?_ne noEnd,
          v, _, _, takes _ room.1 _ behind, skips' _ comma, .inr ⟨_, vs', rfl, takes' _ room.2 _ alike, rfl⟩⟩⟩

theorem moreFields_local {rows : Rows} (val : Local (value · depth) 1 fuel)
    (more : ∀ rows, Local (moreFields · depth rows) 0 fuel) : Local (moreFields · depth rows) 0 (fuel + 1) := by
  intro cs rows' r h
  obtain ⟨parts, key, rest, name, v, back, rows'', read, last, equals, first, added, finish⟩ :=
    moreFields_eq_some_iff.1 h
  generalize blank : skipSpace rest = front at first
  generalize blank' : skipSpace back = front' at finish
  obtain ⟨k, rfl, some', keys⟩ := key?_takes read
  obtain ⟨e, rfl, one, equal⟩ := expect?_takes equals
  obtain ⟨b, rfl, skips⟩ := skipSpace_takes blank
  obtain ⟨x, rfl, takes⟩ := val first
  obtain ⟨b', rfl, skips'⟩ := skipSpace_takes blank'
  rcases finish with ⟨rfl, rfl⟩ | ⟨t, rfl, others⟩
  · refine ⟨k ++ (e ++ (b ++ (x ++ (b' ++ ['\x7d'])))), by simp, fun fuel' enough r' alike => ?_⟩
    cases fuel' with
    | zero => simp at enough
    | succ fuel' =>
      have close := Alike.cons '\x7d' alike
      have behind := close.append b'
      have value := takes fuel' (by simp at enough; omega) _ behind
      simp only [List.append_assoc, List.singleton_append]
      refine moreFields_eq_some_iff.2 ⟨parts, _, _, name, v, _, rows',
        keys _ (((behind.append x).append b).append e), last, equal _ ((behind.append x).append b), ?_, added, .inl ⟨skips' _ close, rfl⟩⟩
      rw [skips _ (behind.append x)]
      exact value
  · obtain ⟨y, rfl, takes'⟩ := more rows'' others
    refine ⟨k ++ (e ++ (b ++ (x ++ (b' ++ ',' :: y)))), by simp, fun fuel' enough r' alike => ?_⟩
    cases fuel' with
    | zero => simp at enough
    | succ fuel' =>
      have comma := Alike.cons ',' (alike.append y)
      have behind := comma.append b'
      have value := takes fuel' (by simp at enough; omega) _ behind
      have others := takes' fuel' (by simp at enough; omega) _ alike
      simp only [List.append_assoc, List.cons_append]
      refine moreFields_eq_some_iff.2 ⟨parts, _, _, name, v, _, rows'',
        keys _ (((behind.append x).append b).append e), last, equal _ ((behind.append x).append b), ?_, added, .inr ⟨_, skips' _ comma, others⟩⟩
      rw [skips _ (behind.append x)]
      exact value

theorem fields_local (more : Local (moreFields · depth []) 0 fuel) : Local (fields · depth) 1 (fuel + 1) := by
  intro cs rows r h
  rcases fields_eq_some_iff.1 h with ⟨rfl, rfl⟩ | ⟨noEnd, h⟩
  · refine ⟨['\x7d'], rfl, fun fuel' enough r' alike => ?_⟩
    cases fuel' with
    | zero => cases enough
    | succ fuel' => exact fields_eq_some_iff.2 (.inl ⟨rfl, rfl⟩)
  · obtain ⟨x, rfl, takes⟩ := more h
    refine ⟨x, rfl, fun fuel' enough r' alike => ?_⟩
    cases fuel' with
    | zero => cases enough
    | succ fuel' =>
      exact fields_eq_some_iff.2 (.inr ⟨(alike.append x).head?_ne noEnd, takes fuel' (by omega) r' alike⟩)

theorem value_of_delimiter {q : Char} (delimiter : q = '"' ∨ q = '\'') (t : List Char) :
    value (fuel + 1) depth (q :: t) = (quoted? (q :: t)).map fun x => (.string x.1, x.2) := by
  rcases delimiter with rfl | rfl <;> rw [value]

theorem value_of_word (word : ∀ q ∈ ['"', '\'', '[', '\x7b'], cs.head? ≠ some q) :
    value (fuel + 1) depth cs = scalar? cs := by
  have other {q : Char} (mem : q ∈ ['"', '\'', '[', '\x7b']) (t : List Char) (same : cs = q :: t) : False :=
    word q mem (same ▸ rfl)
  rw [value]
  · exact other (by decide)
  · exact other (by decide)
  · exact other (by decide)
  · exact other (by decide)

theorem value_local (els : Local (elements · (depth + 1)) 1 fuel) (flds : Local (fields · (depth + 1)) 1 fuel) :
    Local (value · depth) 1 (fuel + 1) := by
  intro cs v r h
  dsimp only at h
  by_cases word : ∀ q ∈ ['"', '\'', '[', '\x7b'], cs.head? ≠ some q
  · rw [value_of_word word] at h
    obtain ⟨x, rfl, takes⟩ := scalar?_takes h
    refine ⟨x, rfl, fun fuel' enough r' alike => ?_⟩
    cases fuel' with
    | zero => cases enough
    | succ fuel' =>
      dsimp only
      rw [value_of_word fun q mem => (alike.append x).head?_ne (word q mem)]
      exact takes r' alike
  have delimited : ∃ q t, cs = q :: t ∧ q ∈ ['"', '\'', '[', '\x7b'] := by
    simp only [Classical.not_forall, Classical.not_not, List.head?_eq_some_iff] at word
    obtain ⟨q, mem, t, same⟩ := word
    exact ⟨q, t, same, mem⟩
  obtain ⟨q, t, rfl, mem⟩ := delimited
  simp only [List.mem_cons, List.not_mem_nil, or_false] at mem
  rcases or_assoc.2 mem with delimiter | rfl | rfl
  · rw [value_of_delimiter delimiter] at h
    obtain ⟨⟨s, rest⟩, read, same⟩ := Option.map_eq_some_iff.1 h
    cases same
    obtain ⟨x, same, long, takes⟩ := quoted?_takes read
    cases x with
    | nil => cases long
    | cons c x =>
      obtain ⟨rfl, -⟩ := List.cons.inj same
      refine ⟨q :: x, same, fun fuel' enough r' alike => ?_⟩
      cases fuel' with
      | zero => cases enough
      | succ fuel' =>
        have read := takes r' alike
        rw [List.cons_append] at read
        exact (value_of_delimiter delimiter _).trans (congrArg (Option.map _) read)
  · obtain ⟨shallow, vs, read, rfl⟩ := value_bracket_iff.1 h
    obtain ⟨x, rfl, takes⟩ := els read
    refine ⟨'[' :: x, rfl, fun fuel' enough r' alike => ?_⟩
    cases fuel' with
    | zero => cases enough
    | succ fuel' =>
      exact value_bracket_iff.2 ⟨shallow, vs, takes fuel' (by simp at enough; omega) r' alike, rfl⟩
  · obtain ⟨shallow, rows, read, rfl⟩ := value_brace_iff.1 h
    generalize blank : skipSpace t = front at read
    obtain ⟨b, rfl, skips⟩ := skipSpace_takes blank
    obtain ⟨x, rfl, takes⟩ := flds read
    refine ⟨'\x7b' :: (b ++ x), by simp, fun fuel' enough r' alike => ?_⟩
    cases fuel' with
    | zero => cases enough
    | succ fuel' =>
      have read := takes fuel' (by simp at enough; omega) r' alike
      refine value_brace_iff.2 ⟨shallow, rows, ?_, rfl⟩
      rw [show (b ++ x).append r' = b ++ (x ++ r') from List.append_assoc .., skips _ (alike.append x)]
      exact read

theorem Local.zero {R : Nat → Reader α} {extra : Nat} (none : ∀ cs, R 0 cs = none) : Local R extra 0 := by
  intro cs a r h
  rw [none] at h
  cases h

/-- The readers of values call each other, each with less fuel, so one induction on the fuel is for all. -/
theorem nested_local (fuel : Nat) :
    (∀ depth, Local (value · depth) 1 fuel) ∧ (∀ depth, Local (elements · depth) 1 fuel) ∧
      (∀ depth, Local (fields · depth) 1 fuel) ∧ ∀ depth rows, Local (moreFields · depth rows) 0 fuel := by
  induction fuel with
  | zero =>
    exact ⟨fun _ => .zero fun _ => by rw [value], fun _ => .zero fun _ => by rw [elements],
      fun _ => .zero fun _ => by rw [fields], fun _ _ => .zero fun _ => by rw [moreFields]⟩
  | succ fuel ih =>
    obtain ⟨val, els, flds, more⟩ := ih
    exact ⟨fun depth => value_local (els _) (flds _), fun depth => elements_local (val _) (els _),
      fun depth => fields_local (more _ _), fun depth rows => moreFields_local (val _) (more _)⟩

end Nested

/-! ## Lines -/

/-- A line that adds nothing. -/
def IsBlankLine (cs : List Char) : Prop := cs = [] ∨ cs.head? = some '#' ∨ (newline? cs).isSome

theorem not_isBlankLine_of_key? {x : List String × List Char} (h : key? cs = some x) :
    ¬ IsBlankLine cs ∧ cs.head? ≠ some '[' := by
  cases cs with
  | nil => cases h
  | cons c t =>
    have other {d : Char} (none : ∀ t, key? (d :: t) = none) : c ≠ d := by
      rintro rfl
      rw [none] at h
      cases h
    have open' := other (d := '[') fun _ => rfl
    have comment := other (d := '#') fun _ => rfl
    have feed := other (d := '\n') fun _ => rfl
    have carriage := other (d := '\r') fun _ => rfl
    simp [IsBlankLine, newline?, *]

theorem line_eq_some_iff {d d' : Draft} {front : List Char} (blank : skipSpace cs = front) :
    line d cs = some (d', r) ↔
      (∃ t parts a b c, front = '[' :: '[' :: t ∧ key? t = some (parts, a) ∧ expect? ']' a = some b ∧
        expect? ']' b = some c ∧ endOfLine? c = some r ∧ d.openElement parts = some d') ∨
      (∃ t parts a b, front = '[' :: t ∧ t.head? ≠ some '[' ∧ key? t = some (parts, a) ∧
        expect? ']' a = some b ∧ endOfLine? b = some r ∧ d.openTable parts = some d') ∨
      (IsBlankLine front ∧ endOfLine? front = some r ∧ d' = d) ∨
      ∃ parts a b name v c, key? front = some (parts, a) ∧ parts.getLast? = some name ∧ expect? '=' a = some b ∧
        value (2 * (skipSpace b).length + 2) 0 (skipSpace b) = some (v, c) ∧ endOfLine? c = some r ∧
        d.add parts.dropLast name v = some d' := by
  rw [line, blank]
  constructor
  · intro h
    split at h
    · rename_i t
      simp only [Option.bind_eq_bind, Option.bind_eq_some_iff, Prod.exists] at h
      obtain ⟨parts, a, read, b, close, c, close', rest, last, d'', opened, same⟩ := h
      cases same
      exact .inl ⟨t, parts, a, b, c, rfl, read, close, close', last, opened⟩
    · rename_i t single
      simp only [Option.bind_eq_bind, Option.bind_eq_some_iff, Prod.exists] at h
      obtain ⟨parts, a, read, b, close, rest, last, d'', opened, same⟩ := h
      cases same
      refine .inr (.inl ⟨t, parts, a, b, rfl, ?_, read, close, last, opened⟩)
      intro h
      obtain ⟨t', same⟩ := List.head?_eq_some_iff.1 h
      exact single t' (same ▸ rfl)
    · cases h
      exact .inr (.inr (.inl ⟨.inl rfl, rfl, rfl⟩))
    · split at h
      · rename_i plain
        obtain ⟨rest, last, same⟩ := Option.map_eq_some_iff.1 h
        cases same
        exact .inr (.inr (.inl ⟨.inr plain, last, rfl⟩))
      · simp only [Option.bind_eq_bind, Option.bind_eq_some_iff, Prod.exists] at h
        obtain ⟨parts, a, read, name, last, b, equals, v, c, val, rest, finish, d'', added, same⟩ := h
        cases same
        exact .inr (.inr (.inr ⟨parts, a, b, name, v, c, read, last, equals, val, finish, added⟩))
  · rintro (⟨t, parts, a, b, c, rfl, read, close, close', last, opened⟩ |
      ⟨t, parts, a, b, rfl, single, read, close, last, opened⟩ | ⟨plain, last, rfl⟩ |
      ⟨parts, a, b, name, v, c, read, last, equals, val, finish, added⟩)
    · simp [read, close, close', last, opened]
    · split
      · rename_i same
        cases same
        exact absurd rfl single
      · rename_i same
        cases same
        simp [read, close, last, opened]
      · rename_i same
        cases same
      · rename_i other _
        exact (other _ rfl).elim
    · split
      · simp [IsBlankLine, newline?] at plain
      · simp [IsBlankLine, newline?] at plain
      · cases last
        rfl
      · rename_i some'
        rcases plain with rfl | plain
        · cases some' rfl
        · rw [if_pos plain, last]
          rfl
    · obtain ⟨noBlank, noOpen⟩ := not_isBlankLine_of_key? read
      split
      · exact absurd rfl noOpen
      · exact absurd rfl noOpen
      · exact absurd (.inl rfl) noBlank
      · rw [if_neg fun plain => noBlank (.inr plain)]
        simp [read, last, equals, val, finish, added]

theorem endOfLine?_of_newline? (h : newline? cs = some r) : endOfLine? cs = some r := by
  unfold newline? at h
  split at h
  · cases h
    rfl
  · cases h
    rfl
  · cases h

theorem blankLine_takes (plain : IsBlankLine cs) (last : endOfLine? cs = some r) :
    ∃ x, cs = x ++ r ∧ (cs ≠ [] → x ≠ []) ∧ Passes endOfLine? x r ∧
      ∀ r', Alike r r' → IsBlankLine (x ++ r') := by
  obtain ⟨x, rfl, some', ends⟩ := endOfLine?_takes last
  refine ⟨x, rfl, some', ends, fun r' alike => ?_⟩
  rcases plain with empty | comment | line
  · obtain ⟨rfl, rfl⟩ := List.append_eq_nil_iff.1 empty
    exact .inl alike.eq_nil
  · exact .inr (.inl ((alike.append x).head?.trans comment))
  · obtain ⟨rest, line⟩ := Option.isSome_iff_exists.1 line
    cases last.symm.trans (endOfLine?_of_newline? line)
    obtain ⟨z, same, -, passes⟩ := newline?_takes line
    cases List.append_cancel_right same
    exact .inr (.inr (Option.isSome_iff_exists.2 ⟨_, passes _ alike⟩))

theorem line_takes {d d' : Draft} (h : line d cs = some (d', r)) :
    ∃ x, cs = x ++ r ∧ (cs ≠ [] → x ≠ []) ∧ Takes (line d) d' x r := by
  generalize blank : skipSpace cs = front
  rw [line_eq_some_iff blank] at h
  obtain ⟨p, rfl, skips⟩ := skipSpace_takes blank
  rcases h with ⟨t, parts, a, b, c, rfl, read, close, close', last, opened⟩ |
      ⟨t, parts, a, b, rfl, single, read, close, last, opened⟩ | ⟨plain, last, rfl⟩ |
      ⟨parts, a, b, name, v, c, read, last, equals, val, finish, added⟩
  · obtain ⟨k, rfl, some', keys⟩ := key?_takes read
    obtain ⟨e, rfl, one, closes⟩ := expect?_takes close
    obtain ⟨e', rfl, one', closes'⟩ := expect?_takes close'
    obtain ⟨l, rfl, -, ends⟩ := endOfLine?_takes last
    refine ⟨p ++ '[' :: '[' :: (k ++ (e ++ (e' ++ l))), by simp, by simp, fun r' alike => ?_⟩
    have alike₁ := alike.append l
    have alike₂ := alike₁.append e'
    have alike₃ := alike₂.append e
    have front := skips _ (.cons _ (.cons _ (alike₃.append k)))
    simp only [List.append_assoc, List.cons_append]
    exact (line_eq_some_iff front).2 (.inl ⟨_, parts, _, _, _, rfl, keys _ alike₃, closes _ alike₂,
      closes' _ alike₁, ends _ alike, opened⟩)
  · obtain ⟨k, rfl, some', keys⟩ := key?_takes read
    obtain ⟨e, rfl, one, closes⟩ := expect?_takes close
    obtain ⟨l, rfl, -, ends⟩ := endOfLine?_takes last
    refine ⟨p ++ '[' :: (k ++ (e ++ l)), by simp, by simp, fun r' alike => ?_⟩
    have alike₁ := alike.append l
    have alike₂ := alike₁.append e
    have alike₃ := alike₂.append k
    have front := skips _ (.cons _ alike₃)
    simp only [List.append_assoc, List.cons_append]
    exact (line_eq_some_iff front).2 (.inr (.inl ⟨_, parts, _, _, rfl, alike₃.head?_ne single, keys _ alike₂,
      closes _ alike₁, ends _ alike, opened⟩))
  · obtain ⟨l, rfl, some', ends, blanks⟩ := blankLine_takes plain last
    refine ⟨p ++ l, by simp, ?_, fun r' alike => ?_⟩
    · intro nonempty empty
      obtain ⟨rfl, rfl⟩ := List.append_eq_nil_iff.1 empty
      exact some' nonempty rfl
    · rw [List.append_assoc]
      exact (line_eq_some_iff (skips _ (alike.append l))).2 (.inr (.inr (.inl ⟨blanks _ alike, ends _ alike, rfl⟩)))
  · obtain ⟨k, rfl, some', keys⟩ := key?_takes read
    obtain ⟨e, rfl, one, equal⟩ := expect?_takes equals
    generalize blank' : skipSpace b = front' at val
    obtain ⟨p', rfl, skips'⟩ := skipSpace_takes blank'
    obtain ⟨x, rfl, takes⟩ := (nested_local _).1 0 val
    obtain ⟨l, rfl, -, ends⟩ := endOfLine?_takes finish
    refine ⟨p ++ (k ++ (e ++ (p' ++ (x ++ l)))), by simp, by simp [some'], fun r' alike => ?_⟩
    have alike₁ := alike.append l
    have alike₂ := alike₁.append x
    have alike₃ := alike₂.append p'
    have alike₄ := alike₃.append e
    simp only [List.append_assoc]
    refine (line_eq_some_iff (skips _ (alike₄.append k))).2 (.inr (.inr (.inr ⟨parts, _, _, name, v, _,
      keys _ alike₄, last, equal _ alike₃, ?_, ends _ alike, added⟩)))
    rw [skips' _ alike₂]
    exact takes _ (by simp; omega) _ alike₁

end Tenure.Toml
