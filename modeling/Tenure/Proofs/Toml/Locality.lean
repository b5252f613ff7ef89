import Tenure.Toml.Document

/-!
# How far a reader of TOML looks ahead

What a reader takes from the front of a text depends on little of what follows: on the next character, and
on the one after that unless the next is a quotation mark. So it takes the same from two texts that go on
alike up to a quotation mark (`Alike`), and what stands between the quotation marks of a later text has no
say in how the document is read up to it.

Each reader has one lemma, named for it. It says that the reader takes some characters `x` off the text and
leaves the rest, and that it would do the same in front of any rest that is alike (`Takes`, `Passes`).
-/

namespace Tenure.Toml

/-- Two texts that are the same up to a quotation mark, and perhaps behind it. -/
inductive Alike : List Char → List Char → Prop where
  | same (cs : List Char) : Alike cs cs
  | quote (r r' : List Char) : Alike ('"' :: r) ('"' :: r')
  | cons (c : Char) {r r' : List Char} : Alike r r' → Alike (c :: r) (c :: r')

variable {α : Type} {c : Char} {cs x r r' : List Char}

namespace Alike

theorem symm (h : Alike r r') : Alike r' r := by
  induction h with
  | same cs => exact .same cs
  | quote r r' => exact .quote r' r
  | cons c _ ih => exact .cons c ih

theorem append (x : List Char) (h : Alike r r') : Alike (x ++ r) (x ++ r') := by
  induction x with
  | nil => exact h
  | cons c x ih => exact .cons c ih

theorem eq_nil (h : Alike [] r') : r' = [] := by
  cases h
  rfl

theorem exists_cons (h : Alike (c :: r) r') : ∃ s, r' = c :: s ∧ (c = '"' ∨ Alike r s) := by
  cases h with
  | same => exact ⟨r, rfl, .inr (.same r)⟩
  | quote => exact ⟨_, rfl, .inl rfl⟩
  | cons _ h => exact ⟨_, rfl, .inr h⟩

theorem head? (h : Alike r r') : r'.head? = r.head? := by
  cases h <;> rfl

theorem head?_ne {q : Char} (h : Alike r r') (ne : r.head? ≠ some q) : r'.head? ≠ some q := by
  rwa [h.head?]

/-- Only a quotation mark hides the character behind it. -/
theorem second {d : Char} (h : Alike (c :: d :: r) r') (visible : c ≠ '"') : ∃ s, r' = c :: d :: s := by
  obtain ⟨s, rfl, quote | h⟩ := h.exists_cons
  · exact absurd quote visible
  · obtain ⟨s, rfl, -⟩ := h.exists_cons
    exact ⟨s, rfl⟩

/-- A character that is no half of a line break is none in front of the other text. -/
theorem no_feed (h : Alike (c :: r) (c :: r')) (single : ∀ s, c = '\r' → r = '\n' :: s → False) :
    ∀ s, c = '\r' → r' = '\n' :: s → False := by
  rintro s rfl rfl
  obtain ⟨s, same⟩ := h.symm.second (by decide)
  cases same
  exact single s rfl rfl

end Alike

/-! ## Readers -/

/-- A reader takes `x` and gives `a`, in front of every text that goes on like `r`. -/
def Takes (R : Reader α) (a : α) (x r : List Char) : Prop := ∀ r', Alike r r' → R (x ++ r') = some (a, r')

/-- A reader that gives nothing drops `x` in front of every text that goes on like `r`. -/
def Passes (f : List Char → Option (List Char)) (x r : List Char) : Prop := ∀ r', Alike r r' → f (x ++ r') = some r'

/-- A run of characters ends at the next character that does not belong to it. -/
theorem split_local (p : Char → Bool) (cs : List Char) : ∃ x, cs = x ++ cs.dropWhile p ∧ cs.takeWhile p = x ∧
    ∀ r', Alike (cs.dropWhile p) r' → (x ++ r').takeWhile p = x ∧ (x ++ r').dropWhile p = r' := by
  refine ⟨_, List.takeWhile_append_dropWhile.symm, rfl, fun r' alike => ?_⟩
  have taken := List.all_eq_true.1 (List.all_takeWhile (p := p) (l := cs))
  have stop : r'.takeWhile p = [] ∧ r'.dropWhile p = r' := by
    cases left : cs.dropWhile p with
    | nil =>
      rw [left] at alike
      rw [alike.eq_nil]
      exact ⟨rfl, rfl⟩
    | cons c r =>
      rw [left] at alike
      obtain ⟨s, rfl, -⟩ := alike.exists_cons
      have stops := List.head?_dropWhile_not p cs
      simp [left] at stops
      simp [stops]
  rw [List.takeWhile_append_of_pos taken, List.dropWhile_append_of_pos taken, stop.1, stop.2]
  simp

/-! ## Blanks and line breaks -/

theorem newline?_takes (h : newline? cs = some r) : ∃ x, cs = x ++ r ∧ x ≠ [] ∧ Passes newline? x r := by
  unfold newline? at h
  split at h
  · cases h
    exact ⟨['\n'], rfl, by simp, fun _ _ => rfl⟩
  · cases h
    exact ⟨['\r', '\n'], rfl, by simp, fun _ _ => rfl⟩
  · cases h

theorem newline?_of_append (long : 2 ≤ x.length) (h : newline? (x ++ r) = none) (r' : List Char) :
    newline? (x ++ r') = none := by
  rcases x with _ | ⟨a, _ | ⟨b, x⟩⟩
  · cases long
  · simp at long
  · unfold newline? at *
    split <;> simp_all

theorem skipSpace_takes (h : skipSpace cs = r) :
    ∃ x, cs = x ++ r ∧ ∀ r', Alike r r' → skipSpace (x ++ r') = r' := by
  subst h
  obtain ⟨x, same, -, takes⟩ := split_local isSpace cs
  exact ⟨x, same, fun r' alike => (takes r' alike).2⟩

theorem skipLines_takes (h : skipLines cs = r) :
    ∃ x, cs = x ++ r ∧ ∀ r', Alike r r' → skipLines (x ++ r') = r' := by
  subst h
  fun_induction skipLines cs with
  | case1 cs ih =>
    obtain ⟨x, same, takes⟩ := ih
    exact ⟨'\r' :: '\n' :: x, by rw [List.cons_append, List.cons_append, ← same], takes⟩
  | case2 c cs other blank ih =>
    obtain ⟨x, same, takes⟩ := ih
    refine ⟨c :: x, by rw [List.cons_append, ← same], fun r' alike => ?_⟩
    rw [List.cons_append, skipLines, if_pos blank, takes r' alike]
    rintro cs' rfl
    cases blank
  | case3 c cs other stop =>
    refine ⟨[], rfl, fun r' alike => ?_⟩
    obtain ⟨s, rfl, -⟩ := alike.exists_cons
    rw [List.nil_append, skipLines, if_neg stop]
    exact alike.no_feed other
  | case4 =>
    refine ⟨[], rfl, fun r' alike => ?_⟩
    rw [alike.eq_nil]
    rfl

theorem skipNewline_takes (h : skipNewline cs = x ++ r) (long : 2 ≤ x.length) :
    ∃ z, cs = z ++ (x ++ r) ∧ ∀ r', Alike r r' → skipNewline (z ++ (x ++ r')) = x ++ r' := by
  unfold skipNewline at h
  cases line : newline? cs with
  | none =>
    rw [line, Option.getD_none] at h
    subst h
    refine ⟨[], rfl, fun r' _ => ?_⟩
    rw [skipNewline, List.nil_append, newline?_of_append long line, Option.getD_none]
  | some rest =>
    rw [line, Option.getD_some] at h
    subst h
    obtain ⟨z, rfl, -, takes⟩ := newline?_takes line
    refine ⟨z, rfl, fun r' alike => ?_⟩
    rw [skipNewline, takes _ (alike.append x)]
    rfl

theorem endOfLine?_takes (h : endOfLine? cs = some r) :
    ∃ x, cs = x ++ r ∧ (cs ≠ [] → x ≠ []) ∧ Passes endOfLine? x r := by
  -- what is read behind the blanks and the comment
  have finish {y rest : List Char} (end' : (if rest.isEmpty then some [] else newline? rest) = some r)
      (comment : cs = y ++ rest)
      (passes : ∀ rest', Alike rest rest' →
        endOfLine? (y ++ rest') = if rest'.isEmpty then some [] else newline? rest') :
      ∃ x, cs = x ++ r ∧ (cs ≠ [] → x ≠ []) ∧ Passes endOfLine? x r := by
    split at end'
    · rename_i empty
      cases end'
      refine ⟨cs, by simp, id, fun r' alike => ?_⟩
      rw [alike.eq_nil, List.append_nil]
      exact h
    · obtain ⟨z, rfl, some', takes⟩ := newline?_takes end'
      refine ⟨y ++ z, by simp [comment], by simp [some'], fun r' alike => ?_⟩
      rw [List.append_assoc, passes _ (alike.append z), takes r' alike, if_neg (by simp [some'])]
  have read := h
  rw [endOfLine?] at read
  generalize blank : skipSpace cs = front at read
  obtain ⟨b, same, skips⟩ := skipSpace_takes blank
  split at read
  · rename_i t
    obtain ⟨i, inl, -, passes⟩ := split_local isInline t
    generalize t.dropWhile isInline = rest at *
    subst inl
    refine finish read (y := b ++ '#' :: i) (by simp [same]) fun rest' alike => ?_
    rw [List.append_assoc, List.cons_append, endOfLine?, skips _ (.cons _ (alike.append i))]
    simp only [(passes rest' alike).2]
  · rename_i noComment
    refine finish read (y := b) same fun rest' alike => ?_
    rw [endOfLine?, skips _ alike]
    split
    · have first := alike.head?
      cases front with
      | nil => cases first
      | cons c t =>
        cases first
        exact (noComment t rfl).elim
    · rfl

theorem skipGap?_takes {inComment : Bool} (h : skipGap? inComment cs = some r) :
    ∃ x, cs = x ++ r ∧ Passes (skipGap? inComment) x r := by
  fun_induction skipGap? inComment cs with
  | case1 => cases h
  | case2 inComment outside =>
    cases h
    refine ⟨[], rfl, fun r' alike => ?_⟩
    rw [alike.eq_nil, List.nil_append, skipGap?, if_neg outside]
  | case3 _ cs ih =>
    obtain ⟨x, rfl, takes⟩ := ih h
    exact ⟨'\n' :: x, rfl, fun r' alike => by rw [List.cons_append, skipGap?, takes r' alike]⟩
  | case4 _ cs ih =>
    obtain ⟨x, rfl, takes⟩ := ih h
    exact ⟨'\r' :: '\n' :: x, rfl, fun r' alike => by
      rw [List.cons_append, List.cons_append, skipGap?, takes r' alike]⟩
  | case5 c cs noBreak noFeed inl ih =>
    obtain ⟨x, rfl, takes⟩ := ih h
    refine ⟨c :: x, rfl, fun r' alike => ?_⟩
    rw [List.cons_append, skipGap?.eq_4 _ _ _ noBreak ((Alike.cons c (alike.append x)).no_feed noFeed), if_pos rfl,
      if_pos inl, takes r' alike]
  | case6 => cases h
  | case7 inComment c cs noBreak noFeed outside blank ih =>
    obtain ⟨x, rfl, takes⟩ := ih h
    refine ⟨c :: x, rfl, fun r' alike => ?_⟩
    rw [List.cons_append, skipGap?.eq_4 _ _ _ noBreak ((Alike.cons c (alike.append x)).no_feed noFeed),
      if_neg outside, if_pos blank, takes r' alike]
  | case8 inComment cs outside noBreak noFeed visible ih =>
    obtain ⟨x, rfl, takes⟩ := ih h
    refine ⟨'#' :: x, rfl, fun r' alike => ?_⟩
    rw [List.cons_append, skipGap?.eq_4 _ _ _ noBreak ((Alike.cons _ (alike.append x)).no_feed noFeed),
      if_neg outside, if_neg visible, if_pos rfl, takes r' alike]
  | case9 inComment c cs noBreak noFeed outside visible noComment =>
    cases h
    refine ⟨[], rfl, fun r' alike => ?_⟩
    obtain ⟨s, rfl, -⟩ := alike.exists_cons
    rw [List.nil_append, skipGap?.eq_4 _ _ _ noBreak (alike.no_feed noFeed), if_neg outside, if_neg visible,
      if_neg noComment]

theorem expect?_takes (h : expect? c cs = some r) : ∃ x, cs = x ++ r ∧ x.length = 1 ∧ Passes (expect? c) x r := by
  unfold expect? at h
  split at h
  · split at h
    · rename_i d cs same
      cases h
      exact ⟨[d], rfl, rfl, fun r' _ => by simp [expect?, same]⟩
    · cases h
  · cases h

/-! ## Texts on one line -/

theorem escaped?_takes {c : Char} (h : escaped? cs = some (c, r)) :
    ∃ x, cs = x ++ r ∧ x ≠ [] ∧ Takes escaped? c x r := by
  unfold escaped? at h
  split at h
  · obtain ⟨d, code, same⟩ := Option.map_eq_some_iff.1 h
    cases same
    exact ⟨['u', _, _, _, _], rfl, by simp, fun r' _ => by simp [escaped?, code]⟩
  · obtain ⟨d, code, same⟩ := Option.map_eq_some_iff.1 h
    cases same
    exact ⟨['U', _, _, _, _, _, _, _, _], rfl, by simp, fun r' _ => by simp [escaped?, code]⟩
  · rename_i c cs short short'
    obtain ⟨d, code, same⟩ := Option.map_eq_some_iff.1 h
    cases same
    refine ⟨[c], rfl, by simp, fun r' _ => ?_⟩
    have unU : c ≠ 'u' ∧ c ≠ 'U' := by
      constructor <;> rintro rfl <;> cases code
    simp [escaped?, unU, code]
  · cases h

theorem basicRest_takes {fuel : Nat} {acc : List Char} {s : String} (h : basicRest fuel acc cs = some (s, r)) :
    ∃ x, cs = x ++ r ∧ x ≠ [] ∧ ∀ fuel', x.length ≤ fuel' → Takes (basicRest fuel' acc) s x r := by
  fun_induction basicRest fuel acc cs with
  | case1 => cases h
  | case2 fuel acc cs =>
    cases h
    refine ⟨['"'], rfl, by simp, fun fuel' enough r' _ => ?_⟩
    cases fuel' with
    | zero => cases enough
    | succ fuel' => rfl
  | case3 fuel acc cs ih =>
    obtain ⟨⟨c, rest⟩, esc, more⟩ := Option.bind_eq_some_iff.1 h
    obtain ⟨y, rfl, some', takes⟩ := escaped?_takes esc
    obtain ⟨x, rfl, nonempty, takes'⟩ := ih c rest more
    refine ⟨'\\' :: (y ++ x), by simp, by simp, fun fuel' enough r' alike => ?_⟩
    cases fuel' with
    | zero => cases enough
    | succ fuel' =>
      rw [List.cons_append, List.append_assoc, basicRest, takes _ (alike.append x)]
      have : 0 < y.length := List.length_pos_iff.2 some'
      exact takes' fuel' (by simp at enough; omega) r' alike
  | case4 fuel acc c cs _ _ inl ih =>
    obtain ⟨x, rfl, nonempty, takes'⟩ := ih h
    refine ⟨c :: x, by simp, by simp, fun fuel' enough r' alike => ?_⟩
    cases fuel' with
    | zero => cases enough
    | succ fuel' =>
      rw [List.cons_append, basicRest, if_pos inl]
      · exact takes' fuel' (by simp at enough; omega) r' alike
      · assumption
      · assumption
  | case5 => cases h
  | case6 => cases h

theorem literalRest_takes {acc : List Char} {s : String} (h : literalRest acc cs = some (s, r)) :
    ∃ x, cs = x ++ r ∧ x ≠ [] ∧ Takes (literalRest acc) s x r := by
  fun_induction literalRest acc cs with
  | case1 acc cs =>
    cases h
    exact ⟨['\''], rfl, by simp, fun r' _ => rfl⟩
  | case2 acc c cs _ inl ih =>
    obtain ⟨x, rfl, -, takes⟩ := ih h
    refine ⟨c :: x, rfl, by simp, fun r' alike => ?_⟩
    rw [List.cons_append, literalRest, if_pos inl]
    · exact takes r' alike
    · assumption
  | case3 => cases h
  | case4 => cases h

theorem quotedLine?_takes {s : String} (h : quotedLine? cs = some (s, r)) :
    ∃ x, cs = x ++ r ∧ 2 ≤ x.length ∧ Takes quotedLine? s x r := by
  unfold quotedLine? at h
  split at h
  · obtain ⟨x, rfl, some', takes⟩ := basicRest_takes h
    refine ⟨'"' :: x, rfl, ?_, fun r' alike => ?_⟩
    · have := List.length_pos_iff.2 some'
      simp
      omega
    · exact takes _ (by simp; omega) r' alike
  · obtain ⟨x, rfl, some', takes⟩ := literalRest_takes h
    refine ⟨'\'' :: x, rfl, ?_, fun r' alike => takes r' alike⟩
    have := List.length_pos_iff.2 some'
    simp
    omega
  · cases h

/-! ## Texts of several lines -/

theorem joinedLine?_takes (h : joinedLine? cs = some r) :
    ∃ x, cs = x ++ r ∧ Passes joinedLine? x r := by
  obtain ⟨rest, line, lines⟩ := Option.map_eq_some_iff.1 h
  generalize blank : skipSpace cs = front at line
  obtain ⟨b, rfl, skips⟩ := skipSpace_takes blank
  obtain ⟨y, rfl, -, takes⟩ := newline?_takes line
  obtain ⟨z, rfl, skips'⟩ := skipLines_takes lines
  refine ⟨b ++ (y ++ z), by simp, fun r' alike => ?_⟩
  rw [List.append_assoc, List.append_assoc, joinedLine?, skips _ ((alike.append z).append y),
    takes _ (alike.append z)]
  exact congrArg some (skips' r' alike)

/-- An escape is no line break. -/
theorem joinedLine?_of_escaped? {x : Char × List Char} (h : escaped? cs = some x) : joinedLine? cs = none := by
  cases cs with
  | nil => rfl
  | cons c cs =>
    have visible : isSpace c = false ∧ c ≠ '\n' ∧ c ≠ '\r' := by
      refine ⟨?_, ?_, ?_⟩
      · rw [← Bool.not_eq_true, isSpace, Bool.or_eq_true, decide_eq_true_iff, decide_eq_true_iff]
        rintro (rfl | rfl) <;> cases h
      · rintro rfl
        cases h
      · rintro rfl
        cases h
    rw [joinedLine?, skipSpace, List.dropWhile_cons, visible.1]
    simp [newline?, visible]

/-- A text of several lines goes on until three delimiters stand in a row. -/
theorem closing?_eq_none_iff {q : Char} : closing? q cs = none ↔ cs.take 3 ≠ List.replicate 3 q := by
  have run : (cs.takeWhile (· = q)).length < 3 ↔ cs.take 3 ≠ List.replicate 3 q := by
    rcases cs with _ | ⟨a, _ | ⟨b, _ | ⟨c, cs⟩⟩⟩
    · simp
    · by_cases ha : a = q <;> simp [ha]
    · by_cases ha : a = q <;> by_cases hb : b = q <;> simp [ha, hb]
    · by_cases ha : a = q <;> by_cases hb : b = q <;> by_cases hc : c = q <;> simp [ha, hb, hc]
  rw [← run, closing?]
  dsimp only
  split <;> simp_all

/-- Up to two delimiters before the closing three belong to the text, as many as there are. -/
theorem closing?_eq_some_iff {q : Char} {own : List Char} : closing? q cs = some (own, r) ↔
    ∃ n, cs = List.replicate (n + 3) q ++ r ∧ own = List.replicate n q ∧
      (n = 2 ∨ n < 2 ∧ r.head? ≠ some q) := by
  constructor
  · intro h
    unfold closing? at h
    dsimp only at h
    split at h
    · cases h
    · rename_i long
      obtain ⟨rfl, rfl⟩ := Prod.mk.inj (Option.some.inj h)
      have run : cs.takeWhile (· = q) = List.replicate (cs.takeWhile (· = q)).length q := by
        rw [List.eq_replicate_iff]
        exact ⟨rfl, fun c hc => by simpa using List.all_eq_true.1 List.all_takeWhile c hc⟩
      have stop := List.head?_dropWhile_not (· = q) cs
      have parts := List.takeWhile_append_dropWhile (p := (· = q)) (l := cs)
      generalize (cs.takeWhile (· = q)).length = k at *
      generalize cs.dropWhile (· = q) = rest at *
      rw [run] at parts
      subst parts
      obtain ⟨k, rfl⟩ := Nat.exists_eq_add_of_le' (Nat.le_of_not_lt long)
      rw [Nat.add_sub_cancel]
      by_cases few : k < 2
      · rw [show Nat.min k 2 = k from Nat.min_eq_left (Nat.le_of_lt few),
          List.drop_left' (List.length_replicate ..)]
        refine ⟨k, rfl, rfl, .inr ⟨few, fun front => ?_⟩⟩
        rw [front] at stop
        simp at stop
      · obtain ⟨m, rfl⟩ := Nat.exists_eq_add_of_le (Nat.le_of_not_lt few)
        rw [show Nat.min (2 + m) 2 = 2 from Nat.min_eq_right (Nat.le_add_right 2 m),
          show 2 + m + 3 = 2 + 3 + m by omega, ← List.replicate_append_replicate, List.append_assoc,
          List.drop_left' (List.length_replicate ..)]
        exact ⟨2, rfl, rfl, .inl rfl⟩
  · rintro ⟨n, rfl, rfl, own⟩
    have length : ((List.replicate (n + 3) q ++ r).takeWhile (· = q)).length =
        n + 3 + (r.takeWhile (· = q)).length := by
      rw [List.takeWhile_append_of_pos (by simp), List.length_append, List.length_replicate]
    have min : Nat.min (n + 3 + (r.takeWhile (· = q)).length - 3) 2 = n := by
      rcases own with rfl | ⟨small, stop⟩
      · exact Nat.min_eq_right (by omega)
      · have none : r.takeWhile (· = q) = [] := by
          cases r with
          | nil => rfl
          | cons c r =>
            rw [List.takeWhile_cons]
            simp at stop
            simp [stop]
        rw [none, List.length_nil, Nat.add_zero, Nat.add_sub_cancel]
        exact Nat.min_eq_left (Nat.le_of_lt small)
    unfold closing?
    dsimp only
    rw [length, if_neg (by omega), min, List.drop_left' (List.length_replicate ..)]

theorem closing?_takes {q : Char} {own : List Char} (h : closing? q cs = some (own, r)) :
    ∃ x, cs = x ++ r ∧ 3 ≤ x.length ∧ Takes (closing? q) own x r := by
  obtain ⟨n, rfl, rfl, stop⟩ := closing?_eq_some_iff.1 h
  refine ⟨_, rfl, by simp, fun r' alike => closing?_eq_some_iff.2 ⟨n, rfl, rfl, ?_⟩⟩
  rwa [alike.head?]

/-- Only the next three characters say that a text goes on. -/
theorem closing?_of_append {q : Char} (long : 3 ≤ x.length) (h : closing? q (x ++ r) = none) (r' : List Char) :
    closing? q (x ++ r') = none := by
  rw [closing?_eq_none_iff, List.take_append_of_le_length long] at *
  exact h

theorem basicLinesRest_of_closing? {fuel : Nat} {acc own : List Char} (h : closing? '"' cs = some (own, r)) :
    basicLinesRest (fuel + 1) acc cs = some (String.ofList (acc.reverse ++ own), r) := by
  unfold basicLinesRest
  rw [h]

theorem basicLinesRest_takes {fuel : Nat} {acc : List Char} {s : String}
    (h : basicLinesRest fuel acc cs = some (s, r)) :
    ∃ x, cs = x ++ r ∧ 3 ≤ x.length ∧
      ∀ fuel', x.length ≤ fuel' → Takes (basicLinesRest fuel' acc) s x r := by
  fun_induction basicLinesRest fuel acc cs with
  | case1 => cases h
  | case2 fuel acc cs own rest close =>
    cases h
    obtain ⟨x, rfl, long, takes⟩ := closing?_takes close
    refine ⟨x, rfl, long, fun fuel' enough r' alike => ?_⟩
    cases fuel' with
    | zero => omega
    | succ fuel' => exact basicLinesRest_of_closing? (takes r' alike)
  | case3 fuel acc cs rest line close ih =>
    obtain ⟨x, rfl, long, takes⟩ := ih h
    obtain ⟨y, rfl, takes'⟩ := joinedLine?_takes line
    have more : 3 ≤ ('\\' :: (y ++ x)).length := by simp; omega
    refine ⟨'\\' :: (y ++ x), by simp, more, fun fuel' enough r' alike => ?_⟩
    cases fuel' with
    | zero => cases enough
    | succ fuel' =>
      rw [← List.append_assoc, ← List.cons_append] at close
      have close' := closing?_of_append more close r'
      rw [List.cons_append, List.append_assoc] at close' ⊢
      rw [basicLinesRest, close']
      dsimp only
      rw [takes' _ (alike.append x)]
      exact takes fuel' (by simp at enough; omega) r' alike
  | case4 fuel acc cs line close ih =>
    obtain ⟨⟨c, rest⟩, esc, rest'⟩ := Option.bind_eq_some_iff.1 h
    obtain ⟨x, rfl, long, takes⟩ := ih c rest rest'
    obtain ⟨y, rfl, -, takes'⟩ := escaped?_takes esc
    have more : 3 ≤ ('\\' :: (y ++ x)).length := by simp; omega
    refine ⟨'\\' :: (y ++ x), by simp, more, fun fuel' enough r' alike => ?_⟩
    cases fuel' with
    | zero => cases enough
    | succ fuel' =>
      have esc' := takes' _ (alike.append x)
      rw [← List.append_assoc, ← List.cons_append] at close
      have close' := closing?_of_append more close r'
      rw [List.cons_append, List.append_assoc] at close' ⊢
      rw [basicLinesRest, close']
      dsimp only
      rw [joinedLine?_of_escaped? esc', esc']
      exact takes fuel' (by simp at enough; omega) r' alike
  | case5 fuel acc cs close ih =>
    obtain ⟨x, rfl, long, takes⟩ := ih h
    have more : 3 ≤ ('\r' :: '\n' :: x).length := by simp; omega
    refine ⟨'\r' :: '\n' :: x, rfl, more, fun fuel' enough r' alike => ?_⟩
    cases fuel' with
    | zero => cases enough
    | succ fuel' =>
      have close' := closing?_of_append more close r'
      rw [List.cons_append, List.cons_append] at close' ⊢
      rw [basicLinesRest, close']
      exact takes fuel' (by simp at enough; omega) r' alike
  | case6 fuel acc c cs noEscape noBreak inl close ih =>
    obtain ⟨x, rfl, long, takes⟩ := ih h
    have more : 3 ≤ (c :: x).length := by simp; omega
    refine ⟨c :: x, rfl, more, fun fuel' enough r' alike => ?_⟩
    cases fuel' with
    | zero => cases enough
    | succ fuel' =>
      have close' := closing?_of_append more close r'
      have noBreak' := (Alike.cons c (alike.append x)).no_feed noBreak
      rw [List.cons_append] at close' ⊢
      rw [basicLinesRest.eq_4 _ _ _ _ noEscape noBreak', close', if_pos inl]
      exact takes fuel' (by simp at enough; omega) r' alike
  | case7 => cases h
  | case8 => cases h

theorem literalLinesRest_of_closing? {fuel : Nat} {acc own : List Char} (h : closing? '\'' cs = some (own, r)) :
    literalLinesRest (fuel + 1) acc cs = some (String.ofList (acc.reverse ++ own), r) := by
  unfold literalLinesRest
  rw [h]

theorem literalLinesRest_takes {fuel : Nat} {acc : List Char} {s : String}
    (h : literalLinesRest fuel acc cs = some (s, r)) :
    ∃ x, cs = x ++ r ∧ 3 ≤ x.length ∧
      ∀ fuel', x.length ≤ fuel' → Takes (literalLinesRest fuel' acc) s x r := by
  fun_induction literalLinesRest fuel acc cs with
  | case1 => cases h
  | case2 fuel acc cs own rest close =>
    cases h
    obtain ⟨x, rfl, long, takes⟩ := closing?_takes close
    refine ⟨x, rfl, long, fun fuel' enough r' alike => ?_⟩
    cases fuel' with
    | zero => omega
    | succ fuel' => exact literalLinesRest_of_closing? (takes r' alike)
  | case3 fuel acc cs close ih =>
    obtain ⟨x, rfl, long, takes⟩ := ih h
    have more : 3 ≤ ('\r' :: '\n' :: x).length := by simp; omega
    refine ⟨'\r' :: '\n' :: x, rfl, more, fun fuel' enough r' alike => ?_⟩
    cases fuel' with
    | zero => cases enough
    | succ fuel' =>
      have close' := closing?_of_append more close r'
      rw [List.cons_append, List.cons_append] at close' ⊢
      rw [literalLinesRest, close']
      exact takes fuel' (by simp at enough; omega) r' alike
  | case4 fuel acc c cs noBreak inl close ih =>
    obtain ⟨x, rfl, long, takes⟩ := ih h
    have more : 3 ≤ (c :: x).length := by simp; omega
    refine ⟨c :: x, rfl, more, fun fuel' enough r' alike => ?_⟩
    cases fuel' with
    | zero => cases enough
    | succ fuel' =>
      have close' := closing?_of_append more close r'
      have noBreak' := (Alike.cons c (alike.append x)).no_feed noBreak
      rw [List.cons_append] at close' ⊢
      rw [literalLinesRest.eq_3 _ _ _ _ noBreak', close', if_pos inl]
      exact takes fuel' (by simp at enough; omega) r' alike
  | case5 => cases h
  | case6 => cases h

theorem quoted?_takes {s : String} (h : quoted? cs = some (s, r)) :
    ∃ x, cs = x ++ r ∧ 2 ≤ x.length ∧ Takes quoted? s x r := by
  unfold quoted? at h
  split at h
  · rename_i cs
    obtain ⟨x, rest, long, takes⟩ := basicLinesRest_takes h
    obtain ⟨z, rfl, skips⟩ := skipNewline_takes rest (by omega)
    refine ⟨'"' :: '"' :: '"' :: (z ++ x), by simp, by simp, fun r' alike => ?_⟩
    simp only [List.cons_append, List.append_assoc]
    rw [quoted?, skips r' alike]
    exact takes _ (by simp; omega) r' alike
  · rename_i cs
    obtain ⟨x, rest, long, takes⟩ := literalLinesRest_takes h
    obtain ⟨z, rfl, skips⟩ := skipNewline_takes rest (by omega)
    refine ⟨'\'' :: '\'' :: '\'' :: (z ++ x), by simp, by simp, fun r' alike => ?_⟩
    simp only [List.cons_append, List.append_assoc]
    rw [quoted?, skips r' alike]
    exact takes _ (by simp; omega) r' alike
  · rename_i noDouble noSingle
    obtain ⟨x, rfl, long, takes⟩ := quotedLine?_takes h
    refine ⟨x, rfl, long, fun r' alike => ?_⟩
    -- what comes third
    have third : ∀ q cs', x ++ r' = q :: q :: q :: cs' → ∃ cs'', x ++ r = q :: q :: q :: cs'' := by
      intro q cs' same
      have front : (x ++ r).take 3 = (x ++ r').take 3 := by
        rcases x with _ | ⟨a, _ | ⟨b, _ | ⟨c, x⟩⟩⟩
        · cases long
        · simp at long
        · have := alike.head?
          cases r <;> cases r' <;> simp_all
        · rfl
      rw [same] at front
      exact ⟨_, (List.take_append_drop 3 _).symm.trans (congrArg (· ++ (x ++ r).drop 3) front)⟩
    rw [quoted?]
    · exact takes r' alike
    · intro cs' same
      obtain ⟨cs'', same⟩ := third '"' cs' same
      exact noDouble _ same
    · intro cs' same
      obtain ⟨cs'', same⟩ := third '\'' cs' same
      exact noSingle _ same

/-! ## Keys -/

theorem keyPart?_takes {s : String} (h : keyPart? cs = some (s, r)) :
    ∃ x, cs = x ++ r ∧ x ≠ [] ∧ Takes keyPart? s x r := by
  -- a part in quotation marks
  have quoted {q : Char} {t : List Char} (front : cs = q :: t) (h : quotedLine? cs = some (s, r))
      (reads : ∀ t, keyPart? (q :: t) = quotedLine? (q :: t)) :
      ∃ x, cs = x ++ r ∧ x ≠ [] ∧ Takes keyPart? s x r := by
    obtain ⟨x, same, long, takes⟩ := quotedLine?_takes h
    cases x with
    | nil => cases long
    | cons c x =>
      rw [front, List.cons_append] at same
      obtain ⟨rfl, -⟩ := List.cons.inj same
      exact ⟨q :: x, front.trans same, by simp, fun r' alike => (reads _).trans (takes r' alike)⟩
  unfold keyPart? at h
  split at h
  · exact quoted rfl h fun _ => rfl
  · exact quoted rfl h fun _ => rfl
  · rename_i noDouble noSingle
    obtain ⟨x, parts, run, takes⟩ := split_local isKeyChar cs
    dsimp only at h
    split at h
    · cases h
    · rename_i some'
      obtain ⟨rfl, rfl⟩ := Prod.mk.inj (Option.some.inj h)
      rw [run] at some' ⊢
      refine ⟨x, parts, by simpa using some', fun r' alike => ?_⟩
      have front {q : Char} (no : ∀ t, cs = q :: t → False) (t : List Char) (same : x ++ r' = q :: t) : False := by
        cases x with
        | nil => exact some' rfl
        | cons c x =>
          obtain ⟨rfl, -⟩ := List.cons.inj same
          exact no _ parts
      rw [keyPart?, (takes r' alike).1, (takes r' alike).2, if_neg some']
      · exact front noDouble
      · exact front noSingle

theorem keyParts_takes {fuel : Nat} {parts : List String} (h : keyParts fuel cs = some (parts, r)) :
    ∃ x, cs = x ++ r ∧ x ≠ [] ∧ ∀ fuel', x.length ≤ fuel' → Takes (keyParts fuel') parts x r := by
  induction fuel generalizing cs parts r with
  | zero => cases h
  | succ fuel ih =>
    rw [keyParts] at h
    obtain ⟨⟨part, rest⟩, first, read⟩ := Option.bind_eq_some_iff.1 h
    dsimp only at read
    generalize blank : skipSpace cs = front at first
    generalize blank' : skipSpace rest = front' at read
    obtain ⟨b, rfl, skips⟩ := skipSpace_takes blank
    obtain ⟨x, rfl, some', takes⟩ := keyPart?_takes first
    obtain ⟨b', rfl, skips'⟩ := skipSpace_takes blank'
    split at read
    · rename_i t
      obtain ⟨⟨parts', rest'⟩, more, read⟩ := Option.bind_eq_some_iff.1 read
      cases read
      obtain ⟨y, rfl, -, takes'⟩ := ih more
      refine ⟨b ++ (x ++ (b' ++ '.' :: y)), by simp, by simp, fun fuel' enough r' alike => ?_⟩
      cases fuel' with
      | zero => simp at enough
      | succ fuel' =>
        have point := Alike.cons '.' (alike.append y)
        have rest := takes' fuel' (by simp at enough; omega) r' alike
        simp only [List.append_assoc, List.cons_append]
        rw [keyParts, skips _ ((point.append b').append x), takes _ (point.append b')]
        simp [skips' _ point, rest]
    · rename_i noPoint
      cases read
      refine ⟨b ++ (x ++ b'), by simp, by simp [some'], fun fuel' enough r' alike => ?_⟩
      cases fuel' with
      | zero => simp [some'] at enough
      | succ fuel' =>
        simp only [List.append_assoc]
        rw [keyParts, skips _ ((alike.append b').append x), takes _ (alike.append b')]
        simp only [Option.bind_eq_bind, Option.bind_some, skips' _ alike]
        split
        · have first := alike.head?
          cases r with
          | nil => cases first
          | cons c t =>
            cases first
            exact (noPoint t rfl).elim
        · rfl

theorem key?_takes {parts : List String} (h : key? cs = some (parts, r)) :
    ∃ x, cs = x ++ r ∧ x ≠ [] ∧ Takes key? parts x r := by
  obtain ⟨⟨parts', rest⟩, read, h⟩ := Option.bind_eq_some_iff.1 h
  dsimp only at h
  split at h
  · rename_i shallow
    cases h
    obtain ⟨x, rfl, some', takes⟩ := keyParts_takes read
    refine ⟨x, rfl, some', fun r' alike => ?_⟩
    rw [key?, takes _ (by simp; omega) r' alike]
    exact if_pos shallow
  · cases h

/-! ## Scalars -/

theorem isWordChar_of_isDigit (h : Text.isDigit c = true) : isWordChar c = true := by
  have range := Text.toNat_of_isDigit h
  have digit : c.isDigit = true := by
    rw [Char.isDigit, Bool.and_eq_true, decide_eq_true_iff, decide_eq_true_iff]
    exact range
  simp [isWordChar, Char.isAlphanum, digit]

theorem scalar?_takes {v : Value} (h : scalar? cs = some (v, r)) :
    ∃ x, cs = x ++ r ∧ Takes scalar? v x r := by
  unfold scalar? at h
  obtain ⟨word, parts, run, takes⟩ := split_local isWordChar cs
  generalize cs.dropWhile isWordChar = rest at *
  subst parts
  rw [run] at h
  dsimp only at h
  split at h
  · rename_i date c more day
    split at h
    · rename_i digit
      obtain ⟨next, parts', run', takes'⟩ := split_local isWordChar (c :: more)
      rw [run'] at h
      generalize (c :: more).dropWhile isWordChar = rest at *
      obtain ⟨d, time, same⟩ := Option.map_eq_some_iff.1 h
      cases same
      have some' : ∃ t, next = c :: t := by
        rw [← run', List.takeWhile_cons, if_pos (isWordChar_of_isDigit digit)]
        exact ⟨_, rfl⟩
      obtain ⟨t, rfl⟩ := some'
      refine ⟨word ++ ' ' :: c :: t, by simp [parts'], fun r' alike => ?_⟩
      have front := takes (' ' :: c :: t ++ r') (by rw [parts']; exact alike.append (' ' :: c :: t))
      have back := takes' r' alike
      rw [List.cons_append] at back
      unfold scalar?
      dsimp only
      rw [List.append_assoc, front.1, front.2, day]
      simp only [List.cons_append, if_pos digit, back.1, back.2, time, Option.map_some]
    · rename_i noDigit
      cases h
      refine ⟨word, rfl, fun r' alike => ?_⟩
      obtain ⟨s, rfl⟩ := alike.second (by decide)
      unfold scalar?
      dsimp only
      rw [(takes _ alike).1, (takes _ alike).2, day]
      simp only [if_neg noDigit]
  · rename_i other
    obtain ⟨w, read, same⟩ := Option.map_eq_some_iff.1 h
    cases same
    refine ⟨word, rfl, fun r' alike => ?_⟩
    unfold scalar?
    dsimp only
    rw [(takes _ alike).1, (takes _ alike).2]
    split
    · rename_i date c more day
      obtain ⟨t, rfl⟩ := alike.symm.second (by decide)
      exact (other _ _ _ day rfl).elim
    · rw [read]
      rfl

end Tenure.Toml
