import Tenure.Config.Load
import Tenure.Proofs.Config.Check
import Tenure.Proofs.Config.Decoding
import Tenure.Proofs.Text.Expansion
import Tenure.Proofs.Toml.Verbatim

/-!
# How the value of a variable arrives in a configuration

A placeholder can be all that stands between the quotation marks of a value. The value of the variable then
stands there in the text, before the text is read as a document, and nothing is escaped. So it arrives as it is
if it needs no escapes: without quotation marks, backslashes and control characters of ASCII other than tabs
(`load_of_plain`). A value with one of these is read as a part of the document and does not arrive
(`load_addressed_iff`).

- **Loading** (`load_eq_ok_iff`, `load_eq_document_iff`): only reading the document finds it faulty.
- **Spots** (`Spot`): a document with a placeholder in such a place, its expansion (`Spot.expand_eq`), and what
  is read with another text in that place (`Spot.read_swap`).
- **Arrival** (`load_of_plain`).
- **Other values** (`url_of_read`, `load_addressed_iff`): which values arrive in one small document.
-/

namespace Tenure.Config

open Text (Environment IsName placeholder expand expand_surround expand_of_unset valueOf_of_some)
open Toml (Plain quote Reads parse)

/-! ## Loading -/

section Loading

variable {env : Environment} {text : String} {c : Config} {fault : DocumentFault}

theorem load_eq_ok_iff : load env text = .ok c ↔ read (expand env text.toList) = .ok c ∧ c.check = .ok () := by
  unfold load
  cases read (expand env text.toList) with
  | error fault => simp
  | ok d =>
    dsimp only
    rw [bind_eq_ok_iff, Except.ok.injEq]
    constructor
    · rintro ⟨⟨⟩, checked, same⟩
      cases same
      exact ⟨rfl, checked⟩
    · rintro ⟨rfl, checked⟩
      exact ⟨(), checked, rfl⟩

theorem load_eq_document_iff :
    load env text = .error (.document fault) ↔ read (expand env text.toList) = .error fault := by
  unfold load
  cases read (expand env text.toList) with
  | error fault => simp
  | ok d =>
    dsimp only
    rw [bind_eq_error_iff]
    constructor
    · rintro (found | ⟨_, -, found⟩)
      · exact absurd found (check_ne_document d fault)
      · cases found
    · rintro ⟨⟩

end Loading

/-! ## Spots -/

/-- A document in which one placeholder is all that stands between the quotation marks of a value, and which has
no other placeholder. -/
structure Spot (name before after : List Char) : Prop where
  /-- The placeholder has a name. -/
  isName : IsName name
  /-- It is the only one. -/
  alone : ∀ other, IsName other → ¬ placeholder other <:+: before ∧ ¬ placeholder other <:+: after
  /-- With the placeholder the document is well-formed, -/
  valid : ∃ rows, parse (before ++ quote (placeholder name) after) = some rows
  /-- and a value is read where the quotation mark before the placeholder stands. -/
  reads : Reads (quote (placeholder name) after) (.lines {})
    (Toml.skipMark (before ++ quote (placeholder name) after))

/-- The text at the spot fills this field of the configuration: not every text gives it the same content. -/
def Fills (before after : List Char) (field : Field) : Prop :=
  ∃ u w c d, Plain u ∧ Plain w ∧ read (before ++ quote u after) = .ok c ∧
    read (before ++ quote w after) = .ok d ∧ c.get? field ≠ d.get? field

section Spots

variable {env : Environment} {name before after u w : List Char} {v : String}

theorem plain_of_isNameChar {c : Char} (h : Text.isNameChar c = true) :
    Toml.isInline c = true ∧ c ≠ '"' ∧ c ≠ '\\' := by
  refine ⟨?_, ?_, ?_⟩
  · simp only [Text.isNameChar, Text.isNameStart, Bool.or_eq_true, Bool.and_eq_true, decide_eq_true_eq,
      Char.le_def, UInt32.le_iff_toNat_le] at h
    have code : c.val.toNat = c.toNat := rfl
    have bounds : 0x20 ≤ c.toNat ∧ c.toNat ≠ 0x7f := by
      simp only [code] at h
      rcases h with (upper | rfl) | digit
      · simp at upper
        omega
      · decide
      · simp at digit
        omega
    simp [Toml.isInline, bounds]
  · rintro rfl
    exact absurd h (by decide)
  · rintro rfl
    exact absurd h (by decide)

theorem placeholder_ne_nil (name : List Char) : placeholder name ≠ [] := List.cons_ne_nil _ _

theorem plain_placeholder (isName : IsName name) : Plain (placeholder name) := by
  intro c mem
  simp only [placeholder, List.mem_cons, List.mem_append, List.not_mem_nil, or_false] at mem
  rcases mem with rfl | rfl | mem | rfl
  · decide
  · decide
  · exact plain_of_isNameChar (isName.chars c mem)
  · decide

/-- A part of a text that does not hold some character is on one side of it. -/
theorem infix_or_infix {p xs ys : List Char} {c : Char} (h : c ∉ p) (inside : p <:+: xs ++ c :: ys) :
    p <:+: xs ∨ p <:+: ys := by
  obtain ⟨s, t, same⟩ := inside
  rcases List.append_eq_append_iff.1 same with ⟨q, rfl, -⟩ | ⟨q, front, back⟩
  · exact .inl ⟨s, q, rfl⟩
  · cases q with
    | nil => exact .inl ⟨s, [], by simpa using front⟩
    | cons d q =>
      obtain ⟨rfl, rfl⟩ := List.cons.inj back
      rcases List.append_eq_append_iff.1 front with ⟨r, rfl, back⟩ | ⟨r, rfl, back⟩
      · exact (h (by simp [back])).elim
      · cases r with
        | nil =>
          rw [List.nil_append] at back
          exact (h (back ▸ List.mem_cons_self ..)).elim
        | cons e r =>
          obtain ⟨rfl, rfl⟩ := List.cons.inj back
          exact .inr ⟨r, t, by simp⟩

namespace Spot

theorem expand_eq (spot : Spot name before after) (set : env (String.ofList name) = some v) :
    expand env (before ++ quote (placeholder name) after) = before ++ quote v.toList after := by
  have kept (xs ys : List Char)
      (alone : ∀ other, IsName other → ¬ placeholder other <:+: xs ∧ ¬ placeholder other <:+: ys) :
      expand env (xs ++ '"' :: ys) = xs ++ '"' :: ys := by
    refine expand_of_unset fun other isName inside => ?_
    have noQuote : '"' ∉ placeholder other := fun mem => (plain_placeholder isName _ mem).2.1 rfl
    obtain ⟨noFront, noBack⟩ := alone other isName
    rcases infix_or_infix noQuote inside with front | back
    · exact absurd front noFront
    · exact absurd back noBack
  have empty (other : List Char) : ¬ placeholder other <:+: [] := by simp [placeholder]
  have front := kept before [] fun other isName => ⟨(spot.alone other isName).1, empty other⟩
  have back : expand env ('"' :: after) = '"' :: after :=
    kept [] after fun other isName => ⟨empty other, (spot.alone other isName).2⟩
  have surround := expand_surround env spot.isName (before ++ ['"']) ('"' :: after)
  rw [front, back, valueOf_of_some set] at surround
  simpa [quote] using surround

/-- A plain text in the place of another one changes one field at most. -/
theorem read_swap (spot : Spot name before after) (hu : Plain u) (some' : u ≠ []) (hw : Plain w) :
    Together (Within (Swap (String.ofList u) (String.ofList w))) (read (before ++ quote u after))
      (read (before ++ quote w after)) := by
  obtain ⟨rows, valid⟩ := spot.valid
  obtain ⟨rows', parsed, -⟩ :=
    Toml.parse_exchange spot.reads (plain_placeholder spot.isName) (placeholder_ne_nil name) hu valid
  obtain ⟨rows'', parsed', within⟩ := Toml.parse_exchange spot.reads hu some' hw parsed
  unfold read
  rw [parsed, parsed']
  rcases within with rfl | differ
  · exact together_refl _
  · exact ofRows_swap differ

theorem read_error_iff (spot : Spot name before after) (hu : Plain u) (hw : Plain w) :
    (∃ fault, read (before ++ quote u after) = .error fault) ↔
      ∃ fault, read (before ++ quote w after) = .error fault := by
  have first {w : List Char} (hw : Plain w) :=
    (spot.read_swap (plain_placeholder spot.isName) (placeholder_ne_nil name) hw).error_iff
  rw [← first hu, ← first hw]

/-- A field that is filled at the spot holds whatever plain text stands there. -/
theorem read_field (spot : Spot name before after) {field : Field} (fills : Fills before after field)
    (hu : Plain u) {c : Config} (loaded : read (before ++ quote u after) = .ok c) :
    c.get? field = some (String.ofList u) ∧
      ∀ w, Plain w → read (before ++ quote w after) = .ok (c.set (String.ofList w) field) := by
  let record (s : String) : Config := (read (before ++ quote s.toList after)).toOption.getD c
  have reads {w : List Char} (hw : Plain w) :
      read (before ++ quote w after) = .ok (record (String.ofList w)) := by
    cases found : read (before ++ quote w after) with
    | error fault =>
      obtain ⟨_, faulty⟩ := (spot.read_error_iff hw hu).1 ⟨fault, found⟩
      cases loaded.symm.trans faulty
    | ok d => simp [record, found, Except.toOption]
  have within {a b : String} (ha : Plain a.toList) (hb : Plain b.toList) (some' : a ≠ "") :
      Within (Swap a b) (record a) (record b) := by
    have differ := spot.read_swap ha (by simpa using some') hb
    rw [reads ha, reads hb, String.ofList_toList, String.ofList_toList] at differ
    cases differ with
    | ok within => exact within
  have plain {w : List Char} (hw : Plain w) : Plain (String.ofList w).toList := by rwa [String.toList_ofList]
  obtain ⟨s, t, d, e, hs, ht, first, second, differ⟩ := fills
  cases (reads hs).symm.trans first
  cases (reads ht).symm.trans second
  have same {w : List Char} (hw : Plain w) := fielded.same_field (P := fun s => Plain s.toList) within (plain hs)
    (plain ht) differ (plain hu) (plain hw)
  have loaded : record (String.ofList u) = c := Except.ok.inj ((reads hu).symm.trans loaded)
  rw [loaded] at same
  exact ⟨(same hu).1, fun w hw => (reads hw).trans (congrArg Except.ok (same hw).2)⟩

end Spot

end Spots

/-! ## Arrival -/

/-- A variable whose value needs no escapes stands, between the quotation marks of a value, for that value. The
document is read with it just when it is read with any other such text in its place. The field that is filled
there then holds the value, and the other fields are what they are with any other text. -/
theorem load_of_plain {env : Environment} {name before after : List Char} {v : String}
    (spot : Spot name before after) (set : env (String.ofList name) = some v) (plain : Plain v.toList) :
    (∀ w, Plain w →
      ((∃ fault, load env (String.ofList (before ++ quote (placeholder name) after)) = .error (.document fault)) ↔
        ∃ fault, read (before ++ quote w after) = .error fault)) ∧
    ∀ field, Fills before after field → ∀ c,
      load env (String.ofList (before ++ quote (placeholder name) after)) = .ok c →
        c.get? field = some v ∧
          ∀ w, Plain w → read (before ++ quote w after) = .ok (c.set (String.ofList w) field) := by
  simp only [load_eq_document_iff, load_eq_ok_iff, String.toList_ofList, spot.expand_eq set]
  refine ⟨fun w hw => spot.read_error_iff plain hw, fun field fills c loaded => ?_⟩
  have arrives := spot.read_field fills plain loaded.1
  rwa [String.ofList_toList] at arrives

/-- Every variable has this value. -/
def always (v : String) : Environment := fun _ => some v

/-- A line that gives an address, up to the address. -/
def addressLine : List Char := "url = ".toList

/-- The lines after it, for one subject. -/
def subjectLines : List Char := "\n[[subjects]]\nname = 'n'\ninterval = '1s'\n".toList

/-- The document that they make with a placeholder for the address. -/
def addressed : String := String.ofList (addressLine ++ quote (placeholder ['V']) subjectLines)

theorem addressed_spot : Spot ['V'] addressLine subjectLines where
  isName := Text.isName_cons_iff.2 ⟨by decide, by simp⟩
  alone other _ := by
    have begins : '$' ∈ placeholder other := List.mem_cons_self ..
    constructor
    · exact fun inside => absurd (inside.subset begins) (by decide)
    · exact fun inside => absurd (inside.subset begins) (by decide)
  valid := Option.isSome_iff_exists.1 (by decide +kernel)
  reads := .row rfl rfl .here

theorem expand_addressed (v : String) :
    expand (always v) addressed.toList = addressLine ++ quote v.toList subjectLines := by
  have set : always v (String.ofList ['V']) = some v := rfl
  rw [addressed, String.toList_ofList, addressed_spot.expand_eq set]

theorem exists_of_toOption {ε α β : Type} {x : Except ε α} {f : α → β} {b : β}
    (h : x.toOption.map f = some b) : ∃ a, x = .ok a ∧ f a = b := by
  cases x with
  | error e => cases h
  | ok a => exact ⟨a, rfl, Option.some.inj h⟩

theorem addressed_fills : Fills addressLine subjectLines .url := by
  have first : (read (addressLine ++ quote ['a'] subjectLines)).toOption.map url = some "a" := by decide +kernel
  have second : (read (addressLine ++ quote ['b'] subjectLines)).toOption.map url = some "b" := by decide +kernel
  obtain ⟨c, first, address⟩ := exists_of_toOption first
  obtain ⟨d, second, address'⟩ := exists_of_toOption second
  refine ⟨['a'], ['b'], c, d, by simp [Plain]; decide, by simp [Plain]; decide, first, second, ?_⟩
  rw [get?, get?, address, address']
  decide

theorem load_of_plain_addressed :
    ∃ c, load (always "nats") addressed = .ok c ∧ c.get? .url = some "nats" ∧
      ∀ w, Plain w → read (addressLine ++ quote w subjectLines) = .ok (c.set (String.ofList w) .url) := by
  have plain : Plain "nats".toList := by
    simp [Plain]
    decide
  have set : always "nats" (String.ofList ['V']) = some "nats" := rfl
  obtain ⟨-, arrives⟩ := load_of_plain addressed_spot set plain
  have loaded : (load (always "nats") addressed).toOption.map url = some "nats" := by decide +kernel
  obtain ⟨c, loaded, -⟩ := exists_of_toOption loaded
  exact ⟨c, loaded, arrives .url addressed_fills c loaded⟩

/-! ## Other values -/

section Addressed

variable {s : String} {rows : Toml.Rows} {c d : Config}

/-- Only a row of the address changes the address. -/
theorem url_of_readRow {row : String × Toml.Value} (read : c.readRow row = .ok d) :
    (row.1 ≠ "url" → d.url = c.url) ∧ (row = ("url", .string s) → d.url = s) := by
  obtain ⟨key, v⟩ := row
  unfold readRow at read
  dsimp only at read
  split at read
  · obtain ⟨b, -, same⟩ := bind_eq_ok_iff.1 read
    cases same
    exact ⟨fun _ => rfl, fun h => by simp at h⟩
  · refine ⟨fun h => absurd rfl h, fun h => ?_⟩
    cases h
    cases read
    rfl
  · obtain ⟨b, -, same⟩ := bind_eq_ok_iff.1 read
    cases same
    exact ⟨fun _ => rfl, fun h => by simp at h⟩
  · split at read
    · obtain ⟨b, -, same⟩ := bind_eq_ok_iff.1 read
      cases same
      exact ⟨fun _ => rfl, fun h => by simp at h⟩
    · cases read
  · obtain ⟨b, -, same⟩ := bind_eq_ok_iff.1 read
    cases same
    exact ⟨fun _ => rfl, fun h => by simp at h⟩
  · rename_i _ other _ _ _
    cases read
    exact ⟨fun _ => rfl, fun h => (other (congrArg Prod.fst h)).elim⟩

theorem url_of_foldlM (only : ∀ x, ("url", x) ∈ rows → x = .string s) (read : rows.foldlM readRow c = .ok d)
    (here : c.url = s ∨ ("url", .string s) ∈ rows) : d.url = s := by
  induction rows generalizing c with
  | nil =>
    cases read
    rcases here with here | here
    · exact here
    · cases here
  | cons row rows ih =>
    rw [List.foldlM_cons] at read
    obtain ⟨e, first, read⟩ := bind_eq_ok_iff.1 read
    have later : ∀ x, ("url", x) ∈ rows → x = .string s := fun x mem => only x (List.mem_cons_of_mem _ mem)
    obtain ⟨same, set⟩ := url_of_readRow (s := s) first
    refine ih later read ?_
    by_cases address : row.1 = "url"
    · obtain ⟨key, v⟩ := row
      cases address
      cases only v (List.mem_cons_self ..)
      exact .inl (set rfl)
    · rcases here with here | here
      · exact .inl ((same address).trans here)
      · rcases List.mem_cons.1 here with rfl | here
        · exact absurd rfl address
        · exact .inr here

/-- The address is the text that stands for it, whatever follows in the document. -/
theorem url_of_read {w : List Char} (loaded : read (addressLine ++ quote w subjectLines) = .ok c) :
    ∃ r, Toml.quoted? (quote w subjectLines) = some (c.url, r) := by
  have start : Toml.skipMark (addressLine ++ quote w subjectLines) = addressLine ++ quote w subjectLines := rfl
  unfold read at loaded
  split at loaded
  · rename_i rows parsed
    simp only [parse, start, Option.bind_eq_bind, Option.bind_eq_some_iff] at parsed
    obtain ⟨d, lines, closed, close, same⟩ := parsed
    cases same
    obtain ⟨d₁, r, first, rest⟩ := (Toml.lines_eq_some_iff (by simp [addressLine])).1 lines
    have key :
        Toml.key? (addressLine ++ quote w subjectLines) = some (["url"], '=' :: ' ' :: quote w subjectLines) := rfl
    rcases (Toml.line_eq_some_iff rfl).1 first with ⟨_, _, _, _, _, front, -⟩ | ⟨_, _, _, _, front, -⟩ |
      ⟨blank, -⟩ | ⟨parts, a, b, name, v, z, k, last, equals, val, -, added⟩
    · cases front
    · cases front
    · exact absurd blank (Toml.not_isBlankLine_of_key? key).1
    · cases key.symm.trans k
      cases last
      cases equals
      have quoted := (Toml.value_of_delimiter (.inl rfl) _).symm.trans val
      obtain ⟨x, text, same⟩ := Option.map_eq_some_iff.1 quoted
      cases same
      cases added
      have kept : Toml.Keeps "url" (.string x.1) [("url", .string x.1)] := ⟨by simp, by simp⟩
      have keeps : Toml.Draft.Keeps "url" x.1 { current := [("url", .string x.1)] } :=
        ⟨fun _ => kept, fun h => absurd rfl h⟩
      have final := (keeps.lines rest).close close
      have address := url_of_foldlM final.only loaded (.inr final.mem)
      exact ⟨x.2, by rw [address]; exact text⟩
  · cases loaded

/-- The values that arrive in this document are the plain ones. -/
theorem load_addressed_iff {v : String} :
    (∃ c, load (always v) addressed = .ok c ∧ c.get? .url = some v) ↔ Plain v.toList := by
  constructor
  · rintro ⟨c, loaded, address⟩
    rw [load_eq_ok_iff, expand_addressed] at loaded
    obtain ⟨r, text⟩ := url_of_read loaded.1
    cases address
    have last : '"' ∉ subjectLines := by decide
    refine Toml.plain_of_quoted? last (r := r) ?_
    rwa [String.ofList_toList]
  · intro plain
    have other : (load (always "a") addressed).toOption.map url = some "a" := by decide +kernel
    have plain' : Plain "a".toList := by
      simp [Plain]
      decide
    obtain ⟨d, other, -⟩ := exists_of_toOption other
    rw [load_eq_ok_iff, expand_addressed] at other
    obtain ⟨-, others⟩ := addressed_spot.read_field addressed_fills plain' other.1
    have loaded := others _ plain
    -- the checks do not look at the address
    have checked : (d.set (String.ofList v.toList) .url).check = .ok () := other.2
    refine ⟨d.set (String.ofList v.toList) .url, ?_, congrArg some String.ofList_toList⟩
    rw [load_eq_ok_iff, expand_addressed]
    exact ⟨loaded, checked⟩

/-- The values that do not arrive. A quotation mark ends the text, a line break may not stand in it, and a
backslash begins an escape. -/
theorem load_of_quotation :
    Spot ['V'] addressLine subjectLines ∧ Fills addressLine subjectLines .url ∧
      (∃ c, load (always "ab") addressed = .ok c ∧ c.get? .url = some "ab") ∧
      load (always "a\"b") addressed = .error (.document .malformed) ∧
      load (always "a\nb") addressed = .error (.document .malformed) ∧
      (∃ c, load (always "a\\tb") addressed = .ok c ∧ c.get? .url = some "a\tb") ∧
      ∀ v, ¬ Plain v.toList → ¬ ∃ c, load (always v) addressed = .ok c ∧ c.get? .url = some v := by
  have malformed {v : String} (unread : parse (addressLine ++ quote v.toList subjectLines) = none) :
      load (always v) addressed = .error (.document .malformed) := by
    rw [load_eq_document_iff, expand_addressed, read, unread]
  have escaped : (load (always "a\\tb") addressed).toOption.map url = some "a\tb" := by decide +kernel
  obtain ⟨c, loaded, address⟩ := exists_of_toOption escaped
  refine ⟨addressed_spot, addressed_fills, load_addressed_iff.2 ?_, malformed ?_, malformed ?_,
    ⟨c, loaded, congrArg some address⟩, fun v other arrives => other (load_addressed_iff.1 arrives)⟩
  · simp [Plain]
    decide
  · exact Option.isNone_iff_eq_none.1 (by decide +kernel)
  · exact Option.isNone_iff_eq_none.1 (by decide +kernel)

end Addressed

end Tenure.Config
