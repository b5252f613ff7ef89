import Tenure.Heartbeat.Publisher
import Tenure.Proofs.Duration.Grammar
import Tenure.Proofs.Number.Whole

/-!
# Which texts are durations

- **Durations** (`Denotes`, `DenotesSigned`): a bare zero, or some terms with a total that fits, perhaps after
  a plus sign.
- **Reading** (`readBody_eq_ok_iff`, `parse_eq_ok_iff`, `parse_reads`): a text is read iff it denotes a
  duration, the blanks around it left aside. A plus sign alone is read as well, which it should not be
  (`parse_lone_sign`).
-/

namespace Tenure.Duration

/-! ## Durations -/

/-- What a text without a sign denotes: a bare zero, or terms whose total is finite and at most `2⁶⁴`
nanoseconds. The total is rounded, and kept below `2⁶⁴`. -/
inductive Denotes (d : Duration) : List Char → Prop
  | zero (nothing : d = zero) : Denotes d ['0']
  | terms {ts : List Term} {units n : Nat} (nonempty : ts ≠ [])
      (finite : Term.sum ts = .finite units) (fits : units ≤ parseLimit * Magnitude.unitsPerOne)
      (rounded : (Term.sum ts).round? = some n) (value : d.nanos = Nat.min n (parseLimit - 1)) :
      Denotes d (ts.flatMap (·.spelling))

/-- What a text denotes that may have one plus sign in front. -/
def DenotesSigned (d : Duration) (cs : List Char) : Prop :=
  Denotes d cs ∨ ∃ body, cs = '+' :: body ∧ Denotes d body

variable {text : String} {cs body : List Char} {d : Duration}

/-- Whatever denotes a duration keeps below `2⁶⁴` nanoseconds. -/
theorem Denotes.nanos_lt (h : Denotes d cs) : d.nanos < parseLimit := by
  cases h with
  | zero nothing =>
    rw [nothing]
    decide
  | terms nonempty finite fits rounded value =>
    rw [value]
    exact Nat.lt_of_le_of_lt (Nat.min_le_right _ _) (by decide)

/-- Whatever denotes a duration begins with a digit or a point. -/
theorem Denotes.exists_numeral (h : Denotes d cs) :
    ∃ c rest, cs = c :: rest ∧ isNumeral c = true := by
  cases h with
  | zero => exact ⟨'0', [], rfl, by decide⟩
  | @terms ts units n nonempty =>
    cases ts with
    | nil => exact absurd rfl nonempty
    | cons t ts =>
      obtain ⟨c, numeral, hn⟩ := List.exists_cons_of_ne_nil t.numeral.spelling_ne_nil
      refine ⟨c, numeral ++ t.unit.spelling ++ ts.flatMap (·.spelling), ?_, ?_⟩
      · rw [List.flatMap_cons, Term.spelling, hn]
        rfl
      · exact t.numeral.isNumeral_of_mem (hn ▸ List.mem_cons_self ..)

theorem not_denotes_cons {c : Char} (h : isNumeral c = false) : ¬ Denotes d (c :: cs) := by
  intro denotes
  obtain ⟨c', rest, same, numeral⟩ := denotes.exists_numeral
  obtain ⟨rfl, -⟩ := List.cons.inj same
  exact absurd numeral (by simp [h])

theorem denotesSigned_nil : ¬ DenotesSigned d [] := by
  rintro (h | ⟨body, same, -⟩)
  · obtain ⟨c, rest, same, -⟩ := h.exists_numeral
    cases same
  · cases same

theorem denotesSigned_plus : DenotesSigned d ('+' :: body) ↔ Denotes d body := by
  constructor
  · rintro (h | ⟨body', same, h⟩)
    · exact absurd h (not_denotes_cons (by decide))
    · rwa [(List.cons.inj same).2]
  · exact fun h => .inr ⟨body, rfl, h⟩

theorem denotesSigned_cons {c : Char} (h : c ≠ '+') :
    DenotesSigned d (c :: cs) ↔ Denotes d (c :: cs) := by
  constructor
  · rintro (denotes | ⟨body, same, -⟩)
    · exact denotes
    · exact absurd (List.cons.inj same).1 h
  · exact .inl

theorem spelling_ne_zero (ts : List Term) : ts.flatMap (·.spelling) ≠ ['0'] := by
  intro same
  have cut := components_spelling ts
  rw [same] at cut
  cases ts with
  | nil => cases cut
  | cons t ts => exact t.unit.spelling_ne_nil (congrArg Component.unit (List.cons.inj cut).1).symm

theorem denotes_iff : Denotes d cs ↔ (cs = ['0'] ∧ d = zero) ∨
    ∃ ts : List Term, ts ≠ [] ∧ ts.flatMap (·.spelling) = cs ∧ ofTotal? (Term.sum ts) = some d := by
  constructor
  · intro h
    cases h with
    | zero nothing => exact .inl ⟨rfl, nothing⟩
    | @terms ts units n nonempty finite fits rounded value =>
      exact .inr ⟨ts, nonempty, rfl, ofTotal?_eq_some_iff.2 ⟨units, n, finite, fits, rounded, value⟩⟩
  · rintro (⟨rfl, nothing⟩ | ⟨ts, nonempty, rfl, some⟩)
    · exact .zero nothing
    · obtain ⟨units, n, finite, fits, rounded, value⟩ := ofTotal?_eq_some_iff.1 some
      exact .terms nonempty finite fits rounded value

/-- No terms at all add up to nothing. -/
theorem ofTotal?_sum_nil : ofTotal? (Term.sum []) = some zero := by
  have sum : Term.sum [] = .finite (0 * Magnitude.unitsPerOne) := by rw [Nat.zero_mul]; rfl
  have fits : 0 * Magnitude.unitsPerOne ≤ parseLimit * Magnitude.unitsPerOne :=
    Nat.mul_le_mul_right _ (Nat.zero_le _)
  exact ofTotal?_eq_some_iff.2
    ⟨0 * Magnitude.unitsPerOne, 0, sum, fits, sum ▸ Magnitude.round?_whole 0, rfl⟩

/-! ## Reading -/

/-- Reads what follows the sign: a bare zero, or components with a total. -/
def readBody (text : String) (body : List Char) : Except DurationFault Duration :=
  if body = ['0'] then .ok zero
  else (total text (components body)).bind fun sum => (ofTotal? sum).elim (.error (.invalid text)) .ok

/-- Components are read iff they are terms whose total is a duration. -/
theorem readBody_of_ne (h : body ≠ ['0']) : readBody text body = .ok d ↔
    ∃ ts : List Term, ts.flatMap (·.spelling) = body ∧ ofTotal? (Term.sum ts) = some d := by
  unfold readBody
  rw [if_neg h]
  constructor
  · intro ok
    cases sum : total text (components body) with
    | error e =>
      rw [sum] at ok
      cases ok
    | ok m =>
      obtain ⟨ts, spelled, rfl⟩ := total_components_iff.1 sum
      refine ⟨ts, spelled, ?_⟩
      rw [sum, Except.bind] at ok
      cases some : ofTotal? (Term.sum ts) with
      | none =>
        rw [some] at ok
        cases ok
      | some d' =>
        rw [some] at ok
        rw [Except.ok.inj ok]
  · rintro ⟨ts, spelled, some⟩
    rw [total_components_iff.2 ⟨ts, spelled, rfl⟩, Except.bind, some]
    rfl

/-- What follows the sign is read iff it denotes a duration, or is nothing at all. -/
theorem readBody_eq_ok_iff :
    readBody text body = .ok d ↔ Denotes d body ∨ body = [] ∧ d = zero := by
  by_cases bare : body = ['0']
  · subst bare
    rw [readBody, if_pos rfl, Except.ok.injEq, denotes_iff]
    constructor
    · exact fun h => .inl (.inl ⟨rfl, h.symm⟩)
    · rintro ((⟨-, rfl⟩ | ⟨ts, -, same, -⟩) | ⟨same, -⟩)
      · rfl
      · exact absurd same (spelling_ne_zero ts)
      · cases same
  · rw [readBody_of_ne bare, denotes_iff]
    constructor
    · rintro ⟨ts, rfl, some⟩
      cases ts with
      | nil => exact .inr ⟨rfl, Option.some.inj (some.symm.trans ofTotal?_sum_nil)⟩
      | cons t ts => exact .inl (.inr ⟨t :: ts, List.cons_ne_nil _ _, rfl, some⟩)
    · rintro ((⟨same, -⟩ | ⟨ts, -, spelled, some⟩) | ⟨rfl, rfl⟩)
      · exact absurd same bare
      · exact ⟨ts, spelled, some⟩
      · exact ⟨[], rfl, ofTotal?_sum_nil⟩

theorem dropSign_of_ne {c : Char} (h : c ≠ '+') : dropSign (c :: cs) = c :: cs := by
  unfold dropSign
  split
  · rename_i same
    exact absurd (List.cons.inj same).1 h
  · rfl

/-- The reader looks at the text between the blanks: its first character decides. -/
theorem parse_of_trim {c : Char} (h : Text.trim text.toList = c :: cs) (plus : c ≠ '-') :
    parse text = readBody text (dropSign (c :: cs)) := by
  unfold parse readBody
  rw [h]
  simp only [List.isEmpty_cons, Bool.false_eq_true, if_false, List.head?_cons, Option.some.injEq, plus]
  by_cases bare : dropSign (c :: cs) = ['0']
  · rw [if_pos bare, if_pos bare]
  · rw [if_neg bare, if_neg bare]
    cases total text (components (dropSign (c :: cs))) with
    | error e => rfl
    | ok sum => cases some : ofTotal? sum <;> simp [bind, Except.bind, some]

/-- A text is read iff what is left between its blanks denotes a duration, or is a plus sign alone. -/
theorem parse_eq_ok_iff : parse text = .ok d ↔ DenotesSigned d (Text.trim text.toList) ∨
    Text.trim text.toList = ['+'] ∧ d = zero := by
  cases h : Text.trim text.toList with
  | nil =>
    have refused : parse text = .error .empty := by
      unfold parse
      rw [h]
      rfl
    rw [refused]
    refine ⟨(fun ok => by cases ok), ?_⟩
    rintro (denotes | ⟨same, -⟩)
    · exact absurd denotes denotesSigned_nil
    · cases same
  | cons c cs =>
    by_cases minus : c = '-'
    · subst minus
      have refused : parse text = .error (.negative text) := by
        unfold parse
        rw [h]
        rfl
      rw [refused, denotesSigned_cons (by decide)]
      refine ⟨(fun ok => by cases ok), ?_⟩
      rintro (denotes | ⟨same, -⟩)
      · exact absurd denotes (not_denotes_cons (by decide))
      · exact absurd (List.cons.inj same).1 (by decide)
    · rw [parse_of_trim h minus]
      by_cases plus : c = '+'
      · subst plus
        rw [denotesSigned_plus, show dropSign ('+' :: cs) = cs from rfl, readBody_eq_ok_iff]
        simp
      · rw [denotesSigned_cons plus, dropSign_of_ne plus, readBody_eq_ok_iff]
        simp [plus]

/-- The longest duration that is read is far from the range of durations. -/
theorem four_parseLimit_le : 4 * parseLimit ≤ limit := by decide

/-- What is read keeps below `2⁶⁴` nanoseconds. -/
theorem nanos_lt_of_parse (h : parse text = .ok d) : d.nanos < parseLimit := by
  rcases parse_eq_ok_iff.1 h with (denotes | ⟨_, _, denotes⟩) | ⟨_, rfl⟩
  · exact denotes.nanos_lt
  · exact denotes.nanos_lt
  · decide

/-- A text is read as a duration iff its trimmed form is an optional plus sign and then a bare zero or
some terms whose total fits, or a plus sign alone. Every other text is an error of the configuration. -/
theorem parse_reads (text : String) :
    (∀ d, parse text = .ok d ↔ DenotesSigned d (Text.trim text.toList) ∨
      Text.trim text.toList = ['+'] ∧ d = zero) ∧
    ((∃ d, parse text = .ok d) ∨ ∃ fault, parse text = .error fault ∧
      Publisher.refuse (ElectionSettings.read text) = .error (.config (.duration fault))) := by
  refine ⟨fun d => parse_eq_ok_iff, ?_⟩
  cases read : parse text with
  | ok d => exact .inl ⟨d, rfl⟩
  | error fault =>
    refine .inr ⟨fault, rfl, ?_⟩
    unfold ElectionSettings.read
    rw [read]
    rfl

/-- A plus sign alone is read as no time at all, although it denotes nothing. -/
theorem parse_lone_sign :
    parse "+" = .ok zero ∧ Text.trim "+".toList = ['+'] ∧ ∀ d, ¬ DenotesSigned d ['+'] := by
  have trimmed : Text.trim "+".toList = ['+'] := by decide
  refine ⟨parse_eq_ok_iff.2 (.inr ⟨trimmed, rfl⟩), trimmed, fun d denotes => ?_⟩
  obtain ⟨c, rest, same, -⟩ := (denotesSigned_plus.1 denotes).exists_numeral
  cases same

end Tenure.Duration
