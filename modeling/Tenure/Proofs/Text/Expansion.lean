import Tenure.Text.Placeholder

/-!
# How placeholders are replaced

Placeholders do not overlap, and what takes the place of one is not searched for others. So a text is
expanded from left to right in a single pass, and each of its placeholders apart from the rest.

- **Placeholders** (`placeholder?_eq_some_iff`): what a placeholder is, said without its reader.
- **Pass** (`Pass`, `pass_iff`): the expansion as a walk over the text.
- **Parts** (`expand_append`, `expand_surround`): a text can be cut wherever that cuts no placeholder in two,
  and so in front of each placeholder and behind it.
-/

namespace Tenure.Text

/-! ## Placeholders -/

/-- A name that a placeholder can hold. -/
structure IsName (name : List Char) : Prop where
  start : ∃ c ∈ name.head?, isNameStart c = true
  chars : ∀ c ∈ name, isNameChar c = true

/-- The placeholder of a name. -/
def placeholder (name : List Char) : List Char := '$' :: '\x7b' :: (name ++ ['\x7d'])

variable {env : Environment} {name before rest cs : List Char} {c : Char}

theorem isNameChar_of_isNameStart (h : isNameStart c = true) : isNameChar c = true := by
  rw [isNameChar, h, Bool.true_or]

/-- Names are delimited by characters that they cannot hold. -/
theorem IsName.not_mem (h : IsName name) : '$' ∉ name ∧ '\x7d' ∉ name := by
  constructor <;> intro mem <;> exact absurd (h.chars _ mem) (by decide)

theorem isName_cons_iff : IsName (c :: cs) ↔ isNameStart c = true ∧ ∀ d ∈ cs, isNameChar d = true := by
  constructor
  · rintro ⟨⟨d, front, start⟩, chars⟩
    cases front
    exact ⟨start, fun d hd => chars d (List.mem_cons_of_mem _ hd)⟩
  · rintro ⟨start, chars⟩
    exact ⟨⟨c, rfl, start⟩, List.forall_mem_cons.2 ⟨isNameChar_of_isNameStart start, chars⟩⟩

/-- The reader finds the placeholders that stand in front of a text, and nothing else. -/
theorem placeholder?_eq_some_iff :
    placeholder? cs = some (name, rest) ↔ IsName name ∧ cs = placeholder name ++ rest := by
  constructor
  · intro h
    unfold placeholder? at h
    split at h
    · rename_i c cs
      split at h
      · rename_i start
        split at h
        · rename_i rest' close
          cases h
          have cut := List.takeWhile_append_dropWhile (p := isNameChar) (l := cs)
          have chars := List.all_eq_true.1 (List.all_takeWhile (p := isNameChar) (l := cs))
          rw [close] at cut
          refine ⟨isName_cons_iff.2 ⟨start, chars⟩, ?_⟩
          rw [placeholder, List.cons_append, List.cons_append, List.append_assoc, List.cons_append,
            List.singleton_append, cut]
        · cases h
      · cases h
    · cases h
  · rintro ⟨isName, rfl⟩
    cases name with
    | nil =>
      obtain ⟨_, front, _⟩ := isName.start
      cases front
    | cons c cs =>
      obtain ⟨start, chars⟩ := isName_cons_iff.1 isName
      have close : isNameChar '\x7d' = false := by decide
      have taken : (cs ++ '\x7d' :: rest).takeWhile isNameChar = cs := by
        rw [List.takeWhile_append_of_pos chars, List.takeWhile_cons, close]
        simp
      have left : (cs ++ '\x7d' :: rest).dropWhile isNameChar = '\x7d' :: rest := by
        rw [List.dropWhile_append_of_pos chars, List.dropWhile_cons, close]
        simp
      simp [placeholder, placeholder?, start, taken, left]

theorem placeholder?_eq_none_iff :
    placeholder? cs = none ↔ ∀ name rest, IsName name → cs ≠ placeholder name ++ rest := by
  rw [Option.eq_none_iff_forall_ne_some]
  constructor
  · exact fun h name rest isName same => h (name, rest) (placeholder?_eq_some_iff.2 ⟨isName, same⟩)
  · rintro h ⟨name, rest⟩ found
    obtain ⟨isName, same⟩ := placeholder?_eq_some_iff.1 found
    exact h name rest isName same

theorem firstPlaceholder?_eq_some (h : firstPlaceholder? cs = some (before, name, rest)) :
    cs = before ++ (placeholder name ++ rest) := by
  induction cs generalizing before with
  | nil => cases h
  | cons c cs ih =>
    unfold firstPlaceholder? at h
    split at h
    · rename_i found
      cases h
      exact (placeholder?_eq_some_iff.1 found).2
    · obtain ⟨⟨before', _⟩, first, same⟩ := Option.map_eq_some_iff.1 h
      cases same
      rw [ih first, List.cons_append]

/-! ## Pass -/

/-- There are never more placeholders than characters. -/
theorem expandFirst_eq_expand {fuel : Nat} (enough : cs.length ≤ fuel) :
    expandFirst env fuel cs = expand env cs := by
  have more {fuel : Nat} {cs : List Char} (enough : cs.length ≤ fuel) :
      expandFirst env (fuel + 1) cs = expandFirst env fuel cs := by
    induction fuel generalizing cs with
    | zero =>
      rw [List.eq_nil_of_length_eq_zero (Nat.le_zero.1 enough)]
      rfl
    | succ fuel ih =>
      rw [expandFirst, expandFirst]
      split
      · rfl
      · rename_i before name rest first
        have shorter := congrArg List.length (firstPlaceholder?_eq_some first)
        rw [ih (by simp [placeholder] at shorter; omega)]
  induction enough with
  | refl => rfl
  | step enough ih => rw [more enough, ih]

theorem expand_nil : expand env [] = [] := rfl

/-- A placeholder in front is replaced, and what follows it is expanded by itself. -/
theorem expand_placeholder (isName : IsName name) :
    expand env (placeholder name ++ rest) = valueOf env name ++ expand env rest := by
  have first : firstPlaceholder? (placeholder name ++ rest) = some ([], name, rest) := by
    have found := placeholder?_eq_some_iff.2 ⟨isName, rfl (a := placeholder name ++ rest)⟩
    rw [placeholder, List.cons_append] at found ⊢
    rw [firstPlaceholder?, found]
  have length : (placeholder name ++ rest).length = (name.length + rest.length + 2) + 1 := by
    simp [placeholder]
    omega
  rw [expand, length, expandFirst, first]
  dsimp only
  rw [List.nil_append, expandFirst_eq_expand (by omega)]

/-- A character that begins no placeholder is kept. -/
theorem expand_cons (plain : placeholder? (c :: cs) = none) : expand env (c :: cs) = c :: expand env cs := by
  rw [expand, List.length_cons, ← expandFirst_eq_expand (Nat.le_succ cs.length), expandFirst, expandFirst,
    firstPlaceholder?, plain]
  cases firstPlaceholder? cs <;> rfl

/-- Every text is empty, or begins with a placeholder, or with a character that begins none. -/
theorem text_induct {P : List Char → Prop} (nil : P [])
    (replaced : ∀ name rest, IsName name → P rest → P (placeholder name ++ rest))
    (kept : ∀ c cs, placeholder? (c :: cs) = none → P cs → P (c :: cs)) (cs : List Char) : P cs := by
  induction h : cs.length using Nat.strongRecOn generalizing cs with
  | _ n ih =>
    cases cs with
    | nil => exact nil
    | cons c cs =>
      subst h
      cases found : placeholder? (c :: cs) with
      | none => exact kept c cs found (ih _ (Nat.lt_succ_self _) cs rfl)
      | some x =>
        obtain ⟨name, rest⟩ := x
        obtain ⟨isName, same⟩ := placeholder?_eq_some_iff.1 found
        rw [same] at ih ⊢
        exact replaced name rest isName (ih _ (by simp [placeholder]; omega) rest rfl)

/-- The walk over a text from left to right. In front of a placeholder it copies the value of the variable,
or the placeholder if the variable is not set, and goes on behind the placeholder. Elsewhere it copies one
character. -/
inductive Pass (env : Environment) : List Char → List Char → Prop where
  | done : Pass env [] []
  | replaced {name rest out : List Char} {value : String} :
      IsName name → env (String.ofList name) = some value → Pass env rest out →
        Pass env (placeholder name ++ rest) (value.toList ++ out)
  | unset {name rest out : List Char} :
      IsName name → env (String.ofList name) = none → Pass env rest out →
        Pass env (placeholder name ++ rest) (placeholder name ++ out)
  | kept {c : Char} {cs out : List Char} :
      (∀ name rest, IsName name → c :: cs ≠ placeholder name ++ rest) → Pass env cs out →
        Pass env (c :: cs) (c :: out)

theorem valueOf_of_some {value : String} (set : env (String.ofList name) = some value) :
    valueOf env name = value.toList := by
  rw [valueOf, set]

theorem valueOf_of_none (unset : env (String.ofList name) = none) : valueOf env name = placeholder name := by
  rw [valueOf, unset]
  rfl

/-- The walk is the expansion. -/
theorem pass_iff {out : List Char} : Pass env cs out ↔ out = expand env cs := by
  constructor
  · intro h
    induction h with
    | done => rfl
    | replaced isName set _ ih => rw [expand_placeholder isName, valueOf_of_some set, ih]
    | unset isName unset _ ih => rw [expand_placeholder isName, valueOf_of_none unset, ih]
    | kept plain _ ih => rw [expand_cons (placeholder?_eq_none_iff.2 plain), ih]
  · rintro rfl
    induction cs using text_induct with
    | nil => exact .done
    | replaced name rest isName ih =>
      rw [expand_placeholder isName]
      cases value : env (String.ofList name) with
      | some v =>
        rw [valueOf_of_some value]
        exact .replaced isName value ih
      | none =>
        rw [valueOf_of_none value]
        exact .unset isName value ih
    | kept c cs plain ih =>
      rw [expand_cons plain]
      exact .kept (placeholder?_eq_none_iff.1 plain) ih

/-! ## Parts -/

/-- A placeholder begins before the cut between two texts and ends behind it. -/
def Straddles (xs ys : List Char) : Prop :=
  ∃ name p q, IsName name ∧ placeholder name = p ++ q ∧ p ≠ [] ∧ q ≠ [] ∧ p <:+ xs ∧ q <+: ys

/-- Texts are expanded apart if no placeholder straddles the cut. -/
theorem expand_append {xs ys : List Char} (cut : ¬ Straddles xs ys) :
    expand env (xs ++ ys) = expand env xs ++ expand env ys := by
  induction xs using text_induct with
  | nil => rfl
  | replaced name rest isName ih =>
    have later : ¬ Straddles rest ys := by
      rintro ⟨name', p, q, isName', eq, hp, hq, before, behind⟩
      exact cut ⟨name', p, q, isName', eq, hp, hq, before.trans (List.suffix_append _ _), behind⟩
    rw [List.append_assoc, expand_placeholder isName, expand_placeholder isName, ih later, List.append_assoc]
  | kept c cs plain ih =>
    have later : ¬ Straddles cs ys := by
      rintro ⟨name', p, q, isName', eq, hp, hq, before, behind⟩
      exact cut ⟨name', p, q, isName', eq, hp, hq, before.trans (List.suffix_cons _ _), behind⟩
    have plain' : placeholder? (c :: (cs ++ ys)) = none := by
      rw [placeholder?_eq_none_iff] at plain ⊢
      intro name rest isName same
      -- a placeholder in front of both texts is in front of the first, or straddles the cut
      rw [← List.cons_append, List.append_eq_append_iff] at same
      rcases same with ⟨q, inside, behind⟩ | ⟨rest', inside, _⟩
      · cases q with
        | nil => exact plain name [] isName (by rw [List.append_nil, inside, List.append_nil])
        | cons d q =>
          exact cut ⟨name, c :: cs, d :: q, isName, inside, by simp, by simp, List.suffix_rfl,
            behind ▸ List.prefix_append _ _⟩
      · exact plain name rest' isName inside
    rw [List.cons_append, expand_cons plain', expand_cons plain, ih later, List.cons_append]

/-- No placeholder straddles the beginning of another one. -/
theorem not_straddles_dollar (xs ys : List Char) : ¬ Straddles xs ('$' :: ys) := by
  rintro ⟨name, p, q, isName, eq, hp, hq, -, behind⟩
  obtain ⟨c, p, rfl⟩ := List.exists_cons_of_ne_nil hp
  obtain ⟨d, q, rfl⟩ := List.exists_cons_of_ne_nil hq
  obtain ⟨rfl, -⟩ := List.cons_prefix_cons.1 behind
  -- only the first character of a placeholder is a dollar sign
  have inside : '$' ∈ '\x7b' :: (name ++ ['\x7d']) := by
    rw [(List.cons.inj eq).2]
    simp
  rcases List.mem_cons.1 inside with brace | inside
  · exact absurd brace (by decide)
  · rcases List.mem_append.1 inside with inside | brace
    · exact isName.not_mem.1 inside
    · exact absurd brace (by decide)

/-- A placeholder is replaced wherever it stands, and the texts around it are expanded by themselves. -/
theorem expand_surround (env : Environment) (isName : IsName name) (before rest : List Char) :
    expand env (before ++ placeholder name ++ rest) =
      expand env before ++ valueOf env name ++ expand env rest := by
  rw [List.append_assoc, List.append_assoc, ← expand_placeholder isName]
  exact expand_append (not_straddles_dollar before _)

/-- A text stays as it is if none of its placeholders is set. -/
theorem expand_of_unset (unset : ∀ name, IsName name → placeholder name <:+: cs →
    env (String.ofList name) = none) : expand env cs = cs := by
  induction cs using text_induct with
  | nil => rfl
  | replaced name rest isName ih =>
    rw [expand_placeholder isName, valueOf_of_none (unset name isName (List.prefix_append _ _).isInfix)]
    rw [ih fun name' isName' inside => unset name' isName' (inside.trans (List.suffix_append _ _).isInfix)]
  | kept c cs plain ih =>
    rw [expand_cons plain]
    rw [ih fun name' isName' inside => unset name' isName' (inside.trans (List.suffix_cons _ _).isInfix)]

/-- Without a closing brace there is no placeholder. -/
theorem expand_of_not_mem (h : '\x7d' ∉ cs) : expand env cs = cs := by
  refine expand_of_unset fun name _ inside => absurd (inside.subset ?_) h
  simp [placeholder]

/-- Expansion is a single pass from left to right. It replaces each placeholder that is set, apart from the
rest of the text, and so a text can be cut wherever that cuts no placeholder in two. Nothing else changes: not
a text none of whose placeholders is set, one that is never closed, or what stands around a placeholder within
another one or behind a second dollar sign. -/
theorem expand_single_pass (env : Environment) :
    (∀ cs out, Pass env cs out ↔ out = expand env cs) ∧
    (∀ before name rest, IsName name → expand env (before ++ placeholder name ++ rest) =
      expand env before ++ valueOf env name ++ expand env rest) ∧
    (∀ cs, (∀ name, IsName name → placeholder name <:+: cs → env (String.ofList name) = none) →
      expand env cs = cs) ∧
    (∀ xs ys, ¬ Straddles xs ys → expand env (xs ++ ys) = expand env xs ++ expand env ys) ∧
    (∀ cs, '\x7d' ∉ cs → expand env cs = cs) ∧
    (∀ name, IsName name → expand env ('$' :: placeholder name) = '$' :: valueOf env name) ∧
    ∀ outer inner, IsName outer → IsName inner →
      expand env ('$' :: '\x7b' :: (outer ++ placeholder inner ++ ['\x7d'])) =
        '$' :: '\x7b' :: (outer ++ valueOf env inner ++ ['\x7d']) := by
  refine ⟨fun _ _ => pass_iff, fun before _ rest isName => expand_surround env isName before rest,
    fun _ => expand_of_unset, fun _ _ => expand_append, fun _ => expand_of_not_mem,
    fun name isName => ?_, fun outer inner isOuter isInner => ?_⟩
  · have behind := expand_surround env isName ['$'] []
    have front : expand env ['$'] = ['$'] := expand_of_not_mem (by decide)
    rw [front, expand_nil, List.append_nil, List.append_nil] at behind
    exact behind
  · have inside := expand_surround env isInner ('$' :: '\x7b' :: outer) ['\x7d']
    have front : expand env ('$' :: '\x7b' :: outer) = '$' :: '\x7b' :: outer :=
      expand_of_not_mem (by simpa using isOuter.not_mem.2)
    rw [front] at inside
    exact inside

/-- Two variables. The value of one looks like a placeholder of the other, which is set to nothing. -/
def pair : Environment := fun name => if name = "A" then some "$\x7bB\x7d" else if name = "B" then some "" else none

theorem expand_single_pass_pair :
    IsName ['A'] ∧ IsName ['B'] ∧
    expand pair ("<".toList ++ placeholder ['B'] ++ ">".toList) =
      expand pair "<".toList ++ [] ++ expand pair ">".toList ∧
    expand pair ('$' :: placeholder ['A']) = '$' :: placeholder ['B'] ∧
    expand pair ('$' :: '\x7b' :: (['B'] ++ placeholder ['A'] ++ ['\x7d'])) =
      '$' :: '\x7b' :: (['B'] ++ placeholder ['B'] ++ ['\x7d']) ∧
    ¬ Straddles ['$'] (placeholder ['A']) ∧
    expand pair (['$'] ++ placeholder ['A']) = expand pair ['$'] ++ expand pair (placeholder ['A']) ∧
    '\x7d' ∉ ['$', '\x7b', 'A'] ∧ expand pair ['$', '\x7b', 'A'] = ['$', '\x7b', 'A'] ∧
    expand (fun _ => none) (placeholder ['A']) = placeholder ['A'] := by
  have a : IsName ['A'] := isName_cons_iff.2 ⟨by decide, by simp⟩
  have b : IsName ['B'] := isName_cons_iff.2 ⟨by decide, by simp⟩
  have valueA : valueOf pair ['A'] = placeholder ['B'] := by decide
  have valueB : valueOf pair ['B'] = [] := by decide
  have unclosed : '\x7d' ∉ ['$', '\x7b', 'A'] := by decide
  obtain ⟨-, surround, -, append, kept, behind, nested⟩ := expand_single_pass pair
  obtain ⟨-, -, unset, -⟩ := expand_single_pass fun _ => none
  refine ⟨a, b, ?_, ?_, ?_, not_straddles_dollar _ _, append _ _ (not_straddles_dollar _ _), unclosed, kept _ unclosed,
    unset _ fun _ _ _ => rfl⟩
  · rw [← valueB]
    exact surround _ _ _ b
  · rw [← valueA]
    exact behind _ a
  · rw [← valueA]
    exact nested _ _ b a

end Tenure.Text
