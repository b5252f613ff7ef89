import Tenure.Duration.Parse

/-!
# The grammar of durations

What the parts of a written duration look like, said without the readers of these parts.

- **Digits** (`Text.numberOf`, `Text.ofDigits?_eq_some_iff`): the number that digits write.
- **Terms** (`Numeral`, `TimeUnit`, `Term`): a number with at most one point, and a unit. The readers of both
  accept exactly their spellings (`number?_eq_some_iff`, `unitNanos?_eq_some_iff`).
- **Cutting** (`components_spelling`, `flatMap_components`): terms written one after another are cut into
  these terms again, and nothing is lost where a text is cut.
- **Totals** (`total_components_iff`, `ofTotal?_eq_some_iff`): which texts add up, and which totals are
  durations.
-/

namespace Tenure

/-! ## Digits -/

namespace Text

/-- The number that digits write after those of `n`. -/
def numberFrom (n : Nat) (ds : List Char) : Nat :=
  ds.foldl (fun n c => n * 10 + (c.toNat - '0'.toNat)) n

/-- The number that digits write. -/
def numberOf (ds : List Char) : Nat := numberFrom 0 ds

theorem digitValue?_of_isDigit {c : Char} (h : isDigit c = true) :
    digitValue? c = some (c.toNat - '0'.toNat) := by
  unfold isDigit digitValue? at *
  split at h
  · rename_i digit
    rw [if_pos digit]
  · cases h

theorem ofDigitsFrom_eq_some_iff {acc n : Nat} {ds : List Char} :
    ofDigitsFrom acc ds = some n ↔ (∀ c ∈ ds, isDigit c = true) ∧ n = numberFrom acc ds := by
  induction ds generalizing acc with
  | nil =>
    rw [ofDigitsFrom, Option.some.injEq]
    exact ⟨fun h => ⟨fun c hc => absurd hc List.not_mem_nil, h.symm⟩, fun h => h.2.symm⟩
  | cons c ds ih =>
    by_cases digit : isDigit c = true
    · rw [ofDigitsFrom, digitValue?_of_isDigit digit, Option.bind_some, ih, List.forall_mem_cons]
      exact ⟨fun h => ⟨⟨digit, h.1⟩, h.2⟩, fun h => ⟨h.1.2, h.2⟩⟩
    · have none : digitValue? c = none := by simpa [isDigit] using digit
      rw [ofDigitsFrom, none, List.forall_mem_cons]
      exact ⟨(fun h => by cases h), fun h => absurd h.1.1 digit⟩

theorem ofDigits?_eq_some_iff {n : Nat} {ds : List Char} :
    ofDigits? ds = some n ↔ ds ≠ [] ∧ (∀ c ∈ ds, isDigit c = true) ∧ n = numberOf ds := by
  unfold ofDigits? numberOf
  cases ds with
  | nil => simp
  | cons c ds =>
    rw [← ofDigitsFrom_eq_some_iff]
    simp

theorem isDigit_ne_point {c : Char} (h : isDigit c = true) : c ≠ '.' := by
  rintro rfl
  exact absurd h (by decide)

end Text

namespace Duration

open Text

/-! ## Terms -/

/-- Digits with at most one point among them. There is at least one digit. -/
structure Numeral where
  /-- The digits before the point. -/
  whole : List Char
  /-- The digits after the point, if there is one. -/
  fraction? : Option (List Char)
  digits : ∀ c ∈ whole ++ fraction?.getD [], isDigit c = true
  nonempty : whole ++ fraction?.getD [] ≠ []

namespace Numeral

/-- The numeral as it is written. -/
def spelling (n : Numeral) : List Char :=
  n.whole ++ match n.fraction? with
    | some fraction => '.' :: fraction
    | none => []

/-- The binary64 value nearest to the number. -/
def value (n : Numeral) : Magnitude :=
  .ofFraction (numberOf (n.whole ++ n.fraction?.getD [])) (Nat.pow 10 (n.fraction?.getD []).length)

theorem spelling_ne_nil (n : Numeral) : n.spelling ≠ [] := by
  have some := n.nonempty
  unfold spelling
  cases hf : n.fraction? with
  | none => simpa [hf] using some
  | some fraction => simp

theorem isNumeral_of_mem {n : Numeral} {c : Char} (h : c ∈ n.spelling) : isNumeral c = true := by
  have digits := n.digits
  unfold spelling at h
  unfold isNumeral
  rcases List.mem_append.1 h with h | h
  · simp [digits c (List.mem_append_left _ h)]
  · cases hf : n.fraction? with
    | none => simp [hf] at h
    | some fraction =>
      rw [hf] at h digits
      rcases List.mem_cons.1 h with rfl | h
      · decide
      · simp [digits c (List.mem_append_right _ h)]

end Numeral

/-- The reader of numbers accepts the spellings of numerals. -/
theorem number?_eq_some_iff {cs : List Char} {v : Magnitude} :
    number? cs = some v ↔ ∃ n : Numeral, n.spelling = cs ∧ n.value = v := by
  unfold number?
  simp only [Option.map_eq_some_iff, ofDigits?_eq_some_iff]
  constructor
  · rintro ⟨n, ⟨nonempty, digits, rfl⟩, rfl⟩
    -- the text is cut at its first point
    have cut := List.takeWhile_append_dropWhile (p := (· ≠ '.')) (l := cs)
    cases rest : cs.dropWhile (· ≠ '.') with
    | nil =>
      rw [rest] at nonempty digits cut
      exact ⟨⟨cs.takeWhile (· ≠ '.'), none, digits, nonempty⟩, cut, rfl⟩
    | cons c fraction =>
      have point : c = '.' := by
        have first := List.head?_dropWhile_not (· ≠ '.') cs
        rw [rest] at first
        simpa using first
      subst c
      rw [rest] at nonempty digits cut
      refine ⟨⟨cs.takeWhile (· ≠ '.'), some fraction, digits, nonempty⟩, cut, ?_⟩
      rw [List.drop_one, List.tail_cons, Numeral.value, Option.getD_some]
  · rintro ⟨⟨whole, fraction?, digits, nonempty⟩, rfl, rfl⟩
    have before : ∀ c ∈ whole, (decide (c ≠ '.')) = true := fun c hc =>
      decide_eq_true (isDigit_ne_point (digits c (List.mem_append_left _ hc)))
    cases fraction? with
    | none =>
      have taken : whole.takeWhile (· ≠ '.') = whole := by
        simpa using @List.takeWhile_append_of_pos _ _ whole [] before
      have left : whole.dropWhile (· ≠ '.') = [] := by
        simpa using @List.dropWhile_append_of_pos _ _ whole [] before
      simp only [Numeral.spelling, List.append_nil, taken, left]
      exact ⟨_, ⟨nonempty, digits, rfl⟩, rfl⟩
    | some fraction =>
      have taken : (whole ++ '.' :: fraction).takeWhile (· ≠ '.') = whole := by
        simpa using @List.takeWhile_append_of_pos _ _ whole ('.' :: fraction) before
      have left : (whole ++ '.' :: fraction).dropWhile (· ≠ '.') = '.' :: fraction := by
        simpa using @List.dropWhile_append_of_pos _ _ whole ('.' :: fraction) before
      simp only [Numeral.spelling, taken, left]
      exact ⟨_, ⟨nonempty, digits, rfl⟩, rfl⟩

/-- A unit in one of its spellings. -/
inductive TimeUnit where
  /-- Nanoseconds. -/
  | nano
  /-- Microseconds, with the letter u. -/
  | micro
  /-- Microseconds, with the micro sign. -/
  | microSign
  /-- Microseconds, with the letter mu. -/
  | microMu
  /-- Milliseconds. -/
  | milli
  /-- Seconds. -/
  | second
  /-- Minutes. -/
  | minute
  /-- Hours. -/
  | hour
deriving DecidableEq

namespace TimeUnit

/-- The unit as it is written. -/
def spelling : TimeUnit → List Char
  | .nano => ['n', 's']
  | .micro => ['u', 's']
  | .microSign => ['\u00b5', 's']
  | .microMu => ['\u03bc', 's']
  | .milli => ['m', 's']
  | .second => ['s']
  | .minute => ['m']
  | .hour => ['h']

/-- The nanoseconds in the unit. -/
def nanos : TimeUnit → Nat
  | .nano => 1
  | .micro | .microSign | .microMu => 1000
  | .milli => 1000000
  | .second => 1000000000
  | .minute => 60000000000
  | .hour => 3600000000000

theorem spelling_ne_nil (u : TimeUnit) : u.spelling ≠ [] := by
  cases u <;> exact List.cons_ne_nil _ _

theorem not_isNumeral_of_mem {u : TimeUnit} {c : Char} (h : c ∈ u.spelling) :
    isNumeral c = false := by
  have none : ∀ u : TimeUnit, u.spelling.all (! isNumeral ·) = true := by
    intro u
    cases u <;> decide
  simpa using List.all_eq_true.1 (none u) c h

end TimeUnit

/-- The reader of units accepts the spellings of units. -/
theorem unitNanos?_eq_some_iff {cs : List Char} {n : Nat} :
    unitNanos? cs = some n ↔ ∃ u : TimeUnit, u.spelling = cs ∧ u.nanos = n := by
  constructor
  · intro h
    unfold unitNanos? at h
    split at h
    · exact ⟨.nano, rfl, Option.some.inj h⟩
    · exact ⟨.micro, rfl, Option.some.inj h⟩
    · exact ⟨.microSign, rfl, Option.some.inj h⟩
    · exact ⟨.microMu, rfl, Option.some.inj h⟩
    · exact ⟨.milli, rfl, Option.some.inj h⟩
    · exact ⟨.second, rfl, Option.some.inj h⟩
    · exact ⟨.minute, rfl, Option.some.inj h⟩
    · exact ⟨.hour, rfl, Option.some.inj h⟩
    · cases h
  · rintro ⟨u, rfl, rfl⟩
    cases u <;> rfl

/-- A number of some unit. -/
structure Term where
  /-- The number. -/
  numeral : Numeral
  /-- The unit. -/
  unit : TimeUnit

namespace Term

/-- The term as it is written. -/
def spelling (t : Term) : List Char := t.numeral.spelling ++ t.unit.spelling

/-- The term as a component of a text. -/
def component (t : Term) : Component := ⟨t.numeral.spelling, t.unit.spelling⟩

/-- Its nanoseconds, in binary64 arithmetic. -/
def value (t : Term) : Magnitude := t.numeral.value.scale t.unit.nanos

/-- The nanoseconds of terms, added up from the left in binary64 arithmetic. -/
def sum (ts : List Term) : Magnitude := ts.foldl (fun m t => m.add t.value) (.finite 0)

end Term

/-! ## Cutting -/

/-- Numerals in front belong to the first component. -/
theorem components_numerals {ns rest : List Char} (numerals : ∀ c ∈ ns, isNumeral c = true)
    {k : Component} {ks : List Component} (h : components rest = k :: ks) :
    components (ns ++ rest) = ⟨ns ++ k.number, k.unit⟩ :: ks := by
  induction ns with
  | nil => exact h
  | cons c ns ih =>
    rw [List.forall_mem_cons] at numerals
    rw [List.cons_append, components, numerals.1, ih numerals.2]
    rfl

/-- Other characters in front of a numeral, or of nothing, are a component of their own. -/
theorem components_others {us rest : List Char} (others : ∀ c ∈ us, isNumeral c = false)
    (nonempty : us ≠ []) (border : ∀ k ∈ (components rest).head?, k.number ≠ []) :
    components (us ++ rest) = ⟨[], us⟩ :: components rest := by
  induction us with
  | nil => exact absurd rfl nonempty
  | cons c us ih =>
    rw [List.forall_mem_cons] at others
    rw [List.cons_append, components, others.1]
    cases us with
    | nil =>
      rw [List.nil_append]
      cases hks : components rest with
      | nil => rfl
      | cons k ks =>
        obtain ⟨number, unit⟩ := k
        rw [hks] at border
        cases number with
        | nil => exact absurd rfl (border _ rfl)
        | cons => rfl
    | cons c' us =>
      rw [ih others.2 (List.cons_ne_nil _ _)]

/-- Terms written one after another are cut into these terms. -/
theorem components_spelling (ts : List Term) :
    components (ts.flatMap (·.spelling)) = ts.map (·.component) := by
  induction ts with
  | nil => rfl
  | cons t ts ih =>
    have border : ∀ k ∈ (components (ts.flatMap (·.spelling))).head?, k.number ≠ [] := by
      rw [ih, List.head?_map]
      intro k hk
      obtain ⟨t', -, rfl⟩ := Option.map_eq_some_iff.1 hk
      exact t'.numeral.spelling_ne_nil
    have cut := components_others (fun _ => TimeUnit.not_isNumeral_of_mem) t.unit.spelling_ne_nil border
    rw [List.flatMap_cons, Term.spelling, List.append_assoc,
      components_numerals (fun _ => Numeral.isNumeral_of_mem) cut, List.append_nil, ih]
    rfl

/-- Nothing is lost where a text is cut. -/
theorem flatMap_components (cs : List Char) :
    (components cs).flatMap (fun k => k.number ++ k.unit) = cs := by
  induction cs with
  | nil => rfl
  | cons c cs ih =>
    rw [components]
    cases isNumeral c with
    | true =>
      cases hks : components cs with
      | nil =>
        rw [hks] at ih
        simp [← ih]
      | cons k ks =>
        rw [hks] at ih
        simpa using ih
    | false =>
      cases hks : components cs with
      | nil =>
        rw [hks] at ih
        simp [← ih]
      | cons k ks =>
        obtain ⟨number, unit⟩ := k
        rw [hks] at ih
        cases number <;> simpa using ih

/-! ## Totals -/

/-- A component is added iff it is a term. -/
theorem addComponent_eq_ok_iff {text : String} {m m' : Magnitude} {k : Component} :
    addComponent text m k = .ok m' ↔ ∃ t : Term, t.component = k ∧ m.add t.value = m' := by
  unfold addComponent
  constructor
  · intro h
    split at h
    · cases h
    · rename_i v hv
      split at h
      · rename_i n hn
        obtain ⟨numeral, spelled, rfl⟩ := number?_eq_some_iff.1 hv
        obtain ⟨unit, spelled', rfl⟩ := unitNanos?_eq_some_iff.1 hn
        obtain ⟨number, unit'⟩ := k
        subst spelled spelled'
        exact ⟨⟨numeral, unit⟩, rfl, Except.ok.inj h⟩
      · split at h <;> cases h
  · rintro ⟨t, rfl, rfl⟩
    have number : number? t.component.number = some t.numeral.value :=
      number?_eq_some_iff.2 ⟨t.numeral, rfl, rfl⟩
    have unit : unitNanos? t.component.unit = some t.unit.nanos :=
      unitNanos?_eq_some_iff.2 ⟨t.unit, rfl, rfl⟩
    rw [number, unit]
    rfl

theorem foldlM_addComponent_iff {text : String} {ks : List Component} {m m' : Magnitude} :
    ks.foldlM (addComponent text) m = .ok m' ↔
      ∃ ts : List Term, ts.map (·.component) = ks ∧ ts.foldl (fun m t => m.add t.value) m = m' := by
  induction ks generalizing m with
  | nil =>
    constructor
    · intro h
      exact ⟨[], rfl, Except.ok.inj h⟩
    · rintro ⟨ts, none, rfl⟩
      obtain rfl := List.map_eq_nil_iff.1 none
      rfl
  | cons k ks ih =>
    rw [List.foldlM_cons]
    constructor
    · intro h
      cases hadd : addComponent text m k with
      | error e =>
        rw [hadd] at h
        cases h
      | ok m₁ =>
        rw [hadd] at h
        obtain ⟨t, rfl, rfl⟩ := addComponent_eq_ok_iff.1 hadd
        obtain ⟨ts, rfl, rfl⟩ := ih.1 h
        exact ⟨t :: ts, rfl, rfl⟩
    · rintro ⟨ts, split, rfl⟩
      cases ts with
      | nil => cases split
      | cons t ts =>
        obtain ⟨rfl, rfl⟩ := List.cons.inj split
        rw [addComponent_eq_ok_iff.2 ⟨t, rfl, rfl⟩]
        exact ih.2 ⟨ts, rfl, rfl⟩

/-- Components add up iff they are terms. -/
theorem total_eq_ok_iff {text : String} {ks : List Component} {m : Magnitude} :
    total text ks = .ok m ↔ ∃ ts : List Term, ts.map (·.component) = ks ∧ Term.sum ts = m :=
  foldlM_addComponent_iff

/-- A text adds up iff it is made of terms. -/
theorem total_components_iff {text : String} {body : List Char} {m : Magnitude} : total text (components body) = .ok m ↔
    ∃ ts : List Term, ts.flatMap (·.spelling) = body ∧ Term.sum ts = m := by
  rw [total_eq_ok_iff]
  constructor
  · rintro ⟨ts, cut, sum⟩
    refine ⟨ts, ?_, sum⟩
    rw [← flatMap_components body, ← cut, List.flatMap_map]
    rfl
  · rintro ⟨ts, rfl, sum⟩
    exact ⟨ts, (components_spelling ts).symm, sum⟩

/-- A total is a duration iff it is finite and at most `2⁶⁴` nanoseconds. -/
theorem ofTotal?_eq_some_iff {m : Magnitude} {d : Duration} :
    ofTotal? m = some d ↔ ∃ units n, m = .finite units ∧
      units ≤ parseLimit * Magnitude.unitsPerOne ∧ m.round? = some n ∧
      d.nanos = Nat.min n (parseLimit - 1) := by
  unfold ofTotal?
  cases m with
  | infinite => simp
  | finite units =>
    dsimp only
    split
    · rename_i big
      refine ⟨(fun h => by cases h), ?_⟩
      rintro ⟨_, n, same, fits, -⟩
      cases same
      exact absurd big (Nat.not_lt.2 fits)
    · rename_i fits
      rw [Magnitude.round?, Option.bind_some, ofNanos?_eq_some_iff]
      constructor
      · intro h
        exact ⟨units, _, rfl, Nat.not_lt.1 fits, rfl, h⟩
      · rintro ⟨_, n, -, -, round, h⟩
        rw [Option.some.inj round]
        exact h

end Duration

end Tenure
