import Tenure.Heartbeat.Message
import Tenure.Proofs.Duration.Amounts

/-!
# The time in a heartbeat

The body of a heartbeat holds the second in which it was published, and is read back to that second.

- **Bytes** (`utf8_ofList`): a text of ASCII characters has a byte for each of them.
- **Integers** (`Text.IsDecimal`, `Text.isDecimal_decimalInt`): an integer is written with no needless zero
  and no plus sign. Reading takes more spellings than that (`Text.int64?_eq_some_iff`): perhaps a sign, and
  any digits whose number fits in 64 bits.
- **Heartbeats** (`Message.timestamp_round_trip`): what a body holds, which bodies hold a time, and that a
  time written out again is read as itself.
-/

namespace Tenure

/-! ## Bytes -/

theorem toList_loop (bytes : ByteArray) (i : Nat) (acc : List UInt8) :
    ByteArray.toList.loop bytes i acc = acc.reverse ++ bytes.data.toList.drop i := by
  fun_induction ByteArray.toList.loop bytes i acc with
  | case1 i acc inside ih =>
    have place : i < bytes.data.toList.length := by simpa using inside
    rw [ih, List.drop_eq_getElem_cons place, List.reverse_cons, List.append_assoc]
    simp [ByteArray.get!, inside]
  | case2 i acc outside =>
    rw [List.drop_eq_nil_of_le (by simpa using outside), List.append_nil]

/-- The codes of characters, a byte for each. -/
def ascii (cs : List Char) : Bytes := cs.map fun c => c.toNat.toUInt8

/-- In UTF-8 an ASCII character is the byte of its code. -/
theorem utf8_ofList {cs : List Char} (h : ∀ c ∈ cs, c.toNat < 128) :
    utf8 (String.ofList cs) = ascii cs := by
  have bytes : cs.flatMap String.utf8EncodeChar = ascii cs := by
    induction cs with
    | nil => rfl
    | cons c cs ih =>
      rw [List.forall_mem_cons] at h
      have low : c.val.toNat ≤ 127 := Nat.le_of_lt_succ h.1
      rw [List.flatMap_cons, ih h.2, String.utf8EncodeChar, if_pos low]
      rfl
  rw [utf8, String.toUTF8_eq_toByteArray, String.toByteArray_ofList, List.utf8Encode, bytes, ByteArray.toList,
    toList_loop, List.toList_data_toByteArray]
  rfl

namespace Text

/-! ## Integers -/

/-- What may stand before the digits of an integer. -/
inductive Sign where
  /-- Nothing. -/
  | none
  /-- A plus sign. -/
  | plus
  /-- A minus sign. -/
  | minus

namespace Sign

/-- The sign as it is written. -/
def spelling : Sign → List Char
  | none => []
  | plus => ['+']
  | minus => ['-']

/-- The integer with the sign. -/
def apply : Sign → Nat → Int
  | none | plus => Int.ofNat
  | minus => fun n => -(n : Int)

end Sign

/-- The digits of a number, without needless zeros in front. -/
structure IsDecimal (n : Nat) (ds : List Char) : Prop where
  nonempty : ds ≠ []
  digits : ∀ c ∈ ds, isDigit c = true
  noZero : ds.head? = some '0' → ds = ['0']
  value : numberOf ds = n

/-- The digits of an integer, after a minus sign exactly if it is negative. -/
def IsDecimalInt (n : Int) (cs : List Char) : Prop :=
  ∃ ds, IsDecimal n.natAbs ds ∧ cs = if n < 0 then '-' :: ds else ds

theorem eq_zero_of_digit {n : Nat} (h : n < 10) : digit n = '0' → n = 0 := by
  have : ∀ m : Fin 10, digit m = '0' → m.val = 0 := by decide
  exact this ⟨n, h⟩

/-- Only zero begins with a zero. -/
theorem eq_zero_of_head?_digits {n : Nat} (h : (digits n).head? = some '0') : n = 0 := by
  induction n using Nat.strongRecOn with
  | _ n ih =>
    unfold digits at h
    split at h
    · rename_i small
      exact eq_zero_of_digit small (Option.some.inj h)
    · rename_i big
      cases front : digits (n / 10) with
      | nil => exact absurd front (digits_ne_nil _)
      | cons c ds =>
        rw [front] at h
        have := ih (n / 10) (by omega) (front ▸ h)
        omega

theorem isDecimal_digits (n : Nat) : IsDecimal n (digits n) where
  nonempty := digits_ne_nil n
  digits _ := isDigit_of_mem_digits
  noZero h := by
    rw [eq_zero_of_head?_digits h]
    decide +kernel
  value := numberOf_digits n

theorem isDecimalInt_decimalInt (n : Int) : IsDecimalInt n (decimalInt n).toList := by
  cases n with
  | ofNat n => exact ⟨digits n, isDecimal_digits n, String.toList_ofList⟩
  | negSucc n =>
    refine ⟨digits (n + 1), isDecimal_digits (n + 1), ?_⟩
    rw [if_pos (Int.negSucc_lt_zero n)]
    exact String.toList_ofList

theorem IsDecimalInt.ascii {n : Int} {cs : List Char} (h : IsDecimalInt n cs) {c : Char} (hc : c ∈ cs) :
    c.toNat < 128 := by
  obtain ⟨ds, decimal, rfl⟩ := h
  have digits (hc : c ∈ ds) : c.toNat < 128 := by
    have := toNat_of_isDigit (decimal.digits c hc)
    omega
  split at hc
  · rcases List.mem_cons.1 hc with rfl | hc
    · decide
    · exact digits hc
  · exact digits hc

theorem ne_sign_of_isDigit {c : Char} (h : isDigit c = true) : c ≠ '+' ∧ c ≠ '-' := by
  constructor <;> rintro rfl <;> exact absurd h (by decide)

theorem fitsInt64_iff {n : Int} :
    fitsInt64 n = true ↔ -9223372036854775808 ≤ n ∧ n ≤ 9223372036854775807 := by
  rw [fitsInt64, Bool.and_eq_true, decide_eq_true_iff, decide_eq_true_iff]
  rfl

/-- What stands behind a sign is read as digits. -/
theorem int64?_minus (ds : List Char) :
    int64? ('-' :: ds) = ((ofDigits? ds).map Sign.minus.apply).filter fitsInt64 := by
  have negated : int64? ('-' :: ds) =
      (((ofDigits? ds).bind fun n => some (n : Int)).map fun n => -n).filter fitsInt64 := rfl
  rw [negated]
  cases ofDigits? ds <;> rfl

theorem int64?_plus (ds : List Char) :
    int64? ('+' :: ds) = ((ofDigits? ds).map Sign.plus.apply).filter fitsInt64 := rfl

theorem int64?_unsigned {ds : List Char} (plus : ds.head? ≠ some '+') (minus : ds.head? ≠ some '-') :
    int64? ds = ((ofDigits? ds).map Sign.none.apply).filter fitsInt64 := by
  unfold int64?
  dsimp only
  split
  · exact absurd rfl minus
  · exact absurd rfl plus
  · rfl

/-- Every text is a sign, or none, and what is read behind it. -/
theorem exists_spelling (cs : List Char) : ∃ (sign : Sign) (ds : List Char), cs = sign.spelling ++ ds ∧
    int64? cs = ((ofDigits? ds).map sign.apply).filter fitsInt64 := by
  by_cases minus : cs.head? = some '-'
  · obtain ⟨ds, rfl⟩ := List.head?_eq_some_iff.1 minus
    exact ⟨.minus, ds, rfl, int64?_minus ds⟩
  · by_cases plus : cs.head? = some '+'
    · obtain ⟨ds, rfl⟩ := List.head?_eq_some_iff.1 plus
      exact ⟨.plus, ds, rfl, int64?_plus ds⟩
    · exact ⟨.none, cs, rfl, int64?_unsigned plus minus⟩

/-- Digits behind a sign, or behind none, are read as such. -/
theorem int64?_spelling (sign : Sign) {ds : List Char} (nonempty : ds ≠ [])
    (digits : ∀ c ∈ ds, isDigit c = true) :
    int64? (sign.spelling ++ ds) = ((ofDigits? ds).map sign.apply).filter fitsInt64 := by
  cases sign with
  | minus => exact int64?_minus ds
  | plus => exact int64?_plus ds
  | none =>
    obtain ⟨c, rest, rfl⟩ := List.exists_cons_of_ne_nil nonempty
    obtain ⟨plus, minus⟩ := ne_sign_of_isDigit (digits c List.mem_cons_self)
    exact @int64?_unsigned (c :: rest) (by simpa using plus) (by simpa using minus)

/-- The texts that are read are the digits of numbers in range, perhaps after a sign. -/
theorem int64?_eq_some_iff {cs : List Char} {n : Int} : int64? cs = some n ↔
    (-9223372036854775808 ≤ n ∧ n ≤ 9223372036854775807) ∧ ∃ sign ds, cs = Sign.spelling sign ++ ds ∧
      ds ≠ [] ∧ (∀ c ∈ ds, isDigit c = true) ∧ n = sign.apply (numberOf ds) := by
  rw [← fitsInt64_iff]
  constructor
  · intro h
    obtain ⟨sign, ds, rfl, read⟩ := exists_spelling cs
    rw [read, Option.filter_eq_some_iff, Option.map_eq_some_iff] at h
    obtain ⟨⟨m, read, value⟩, fits⟩ := h
    obtain ⟨nonempty, digits, rfl⟩ := ofDigits?_eq_some_iff.1 read
    exact ⟨fits, sign, ds, rfl, nonempty, digits, value.symm⟩
  · rintro ⟨fits, sign, ds, rfl, nonempty, digits, rfl⟩
    rw [int64?_spelling sign nonempty digits, ofDigits?_eq_some_iff.2 ⟨nonempty, digits, rfl⟩,
      Option.map_some, Option.filter_some, if_pos fits]

/-- What is written is read back, if it is in range. -/
theorem int64?_of_isDecimalInt {n : Int} {cs : List Char} (h : IsDecimalInt n cs)
    (range : -9223372036854775808 ≤ n ∧ n ≤ 9223372036854775807) : int64? cs = some n := by
  obtain ⟨ds, decimal, rfl⟩ := h
  rw [int64?_eq_some_iff]
  refine ⟨range, ?_⟩
  split
  · rename_i negative
    refine ⟨.minus, ds, rfl, decimal.nonempty, decimal.digits, ?_⟩
    rw [decimal.value]
    show n = -(n.natAbs : Int)
    omega
  · rename_i positive
    refine ⟨.none, ds, rfl, decimal.nonempty, decimal.digits, ?_⟩
    rw [decimal.value]
    show n = (n.natAbs : Int)
    omega

end Text

namespace Message

open Text

/-! ## Heartbeats -/

/-- The body holds the second that the time falls into. -/
theorem body_stamp (subject host : String) (configured : Headers) {time n : Int}
    (begun : n * nanosPerSecond ≤ time) (going : time < (n + 1) * nanosPerSecond) :
    (stamp subject host configured time).body = decimalInt n := by
  have second : time.fdiv nanosPerSecond = n := by
    rw [Int.fdiv_eq_ediv_of_nonneg _ (by decide)]
    simp only [nanosPerSecond] at begun going ⊢
    omega
  rw [stamp, second]

/-- A heartbeat holds the second in which it was published, in decimal and without needless zeros or a plus
sign, whatever the part of the second and also before 1970. A body holds a time iff it is a number in the
range of 64 bits, perhaps after a sign. A time that was read and is written again is read as itself. -/
theorem timestamp_round_trip :
    (∀ (subject host : String) (configured : Headers) (time n : Int),
      n * nanosPerSecond ≤ time → time < (n + 1) * nanosPerSecond →
      -9223372036854775808 ≤ n → n ≤ 9223372036854775807 →
        (stamp subject host configured time).timestamp? = some n ∧
        ∃ cs, IsDecimalInt n cs ∧ (stamp subject host configured time).body = String.ofList cs ∧
          (stamp subject host configured time).payload = ascii cs) ∧
    (∀ (m : Message) (n : Int), m.timestamp? = some n ↔
      (-9223372036854775808 ≤ n ∧ n ≤ 9223372036854775807) ∧
        ∃ sign ds, m.body.toList = Sign.spelling sign ++ ds ∧ ds ≠ [] ∧ (∀ c ∈ ds, isDigit c = true) ∧
          n = sign.apply (numberOf ds)) ∧
    ∀ (m : Message) (n : Int), m.timestamp? = some n →
      { m with body := decimalInt n : Message }.timestamp? = some n := by
  refine ⟨fun subject host configured time n begun going least greatest => ?_, fun m n => ?_,
    fun m n h => ?_⟩
  · have body := body_stamp subject host configured begun going
    have decimal := isDecimalInt_decimalInt n
    refine ⟨?_, (decimalInt n).toList, decimal, ?_, ?_⟩
    · rw [timestamp?, body]
      exact int64?_of_isDecimalInt decimal ⟨least, greatest⟩
    · rw [body, String.ofList_toList]
    · rw [payload, body, ← utf8_ofList fun _ => decimal.ascii, String.ofList_toList]
  · exact int64?_eq_some_iff
  · exact int64?_of_isDecimalInt (isDecimalInt_decimalInt n) (int64?_eq_some_iff.1 h).1

/-- A body that is read as the least time that fits, and is never written. -/
def verbose : Message := { subject := "s", body := "-009223372036854775808", headers := .empty }

/-- Half a second after the least time that fits has begun. -/
theorem timestamp_round_trip_least :
    ((-9223372036854775808) * nanosPerSecond ≤ (-9223372036854775807500000000 : Int) ∧
      (-9223372036854775807500000000 : Int) < (-9223372036854775808 + 1) * nanosPerSecond) ∧
    (stamp "s" "h" .empty (-9223372036854775807500000000)).timestamp? = some (-9223372036854775808) ∧
    verbose.timestamp? = some (-9223372036854775808) ∧
    { verbose with body := decimalInt (-9223372036854775808) : Message }.timestamp? =
      some (-9223372036854775808) := by
  have second : (-9223372036854775808) * nanosPerSecond ≤ (-9223372036854775807500000000 : Int) ∧
      (-9223372036854775807500000000 : Int) < (-9223372036854775808 + 1) * nanosPerSecond := by decide
  obtain ⟨written, read, again⟩ := timestamp_round_trip
  have long : verbose.timestamp? = some (-9223372036854775808) :=
    (read verbose _).2 ⟨by decide, .minus, "009223372036854775808".toList, rfl, by decide,
      List.all_eq_true.1 rfl, rfl⟩
  exact ⟨second, (written "s" "h" .empty _ _ second.1 second.2 (by decide) (by decide)).1, long,
    again verbose _ long⟩

end Message

end Tenure
