import Tenure.Election.Backoff

/-!
# Waits that double

- **Factors** (`Pace.factor_eq`, `Pace.pow_le_factorLimit_iff`): the factor of a pace is a power of two,
  cut to the greatest number of 32 bits, which makes a difference from the 32nd failure on.
- **Waits** (`Pace.nanos_wait`, `Pace.wait_mono`): a wait is the base times the factor, cut to the cap. It
  lies between the base and the cap and never goes down.
- **Doubling** (`Pace.doubles`): every failure doubles the wait until the cap is reached if the cap is in
  reach of the greatest factor, and the first 31 do so in any case. A longer cap is never reached
  (`Pace.stalls_below_cap`).
-/

namespace Tenure.Pace

variable {base cap : Duration} {failures : Nat}

/-! ## Factors -/

/-- The greatest factor on the base. -/
def factorLimit : Nat := 4294967295

theorem factor_eq (failures : Nat) : factor failures = Nat.min (Nat.pow 2 failures) factorLimit := by
  unfold factor factorLimit
  split
  · rename_i few
    have : 2 ^ failures ≤ 2 ^ 31 := Nat.pow_le_pow_right (by decide) (by omega)
    exact (Nat.min_eq_left (by simp only [Nat.pow_eq]; omega)).symm
  · rename_i many
    have : 2 ^ 32 ≤ 2 ^ failures := Nat.pow_le_pow_right (by decide) (by omega)
    exact (Nat.min_eq_right (by simp only [Nat.pow_eq]; omega)).symm

theorem pow_le_factorLimit_iff : Nat.pow 2 failures ≤ factorLimit ↔ failures < 32 := by
  unfold factorLimit
  simp only [Nat.pow_eq]
  constructor
  · intro h
    have lt : 2 ^ failures < 2 ^ 32 := by omega
    exact (Nat.pow_lt_pow_iff_right (by decide)).1 lt
  · intro few
    have : 2 ^ failures ≤ 2 ^ 31 := Nat.pow_le_pow_right (by decide) (by omega)
    omega

theorem factor_mono {f g : Nat} (h : f ≤ g) : factor f ≤ factor g := by
  have pow : Nat.pow 2 f ≤ Nat.pow 2 g := Nat.pow_le_pow_right (by decide) h
  rw [factor_eq, factor_eq]
  exact Nat.le_min.2 ⟨Nat.le_trans (Nat.min_le_left _ _) pow, Nat.min_le_right _ _⟩

/-! ## Waits -/

/-- A wait is the base times the factor, cut to the cap: a product out of range counts as the cap. -/
theorem nanos_wait (h : base.nanos ≤ cap.nanos) (failures : Nat) :
    ((exponential base cap h).wait failures).nanos =
      Nat.min (base.nanos * factor failures) cap.nanos := by
  simp only [wait]
  cases product : base.times (factor failures) with
  | ok d =>
    rw [Duration.times_eq_ok_iff] at product
    rw [Duration.nanos_min, product]
  | error e =>
    rw [Duration.times_eq_error_iff] at product
    have beyond : cap.nanos ≤ base.nanos * factor failures :=
      Nat.le_of_lt (Nat.lt_of_le_of_lt cap.bounded product.2)
    exact (Nat.min_eq_right beyond).symm

theorem le_wait (h : base.nanos ≤ cap.nanos) (failures : Nat) :
    base.nanos ≤ ((exponential base cap h).wait failures).nanos := by
  rw [nanos_wait]
  have one : 1 ≤ factor failures := factor_mono (Nat.zero_le failures)
  exact Nat.le_min.2 ⟨Nat.le_mul_of_pos_right _ one, h⟩

theorem wait_le_cap (h : base.nanos ≤ cap.nanos) (failures : Nat) :
    ((exponential base cap h).wait failures).nanos ≤ cap.nanos := by
  rw [nanos_wait]
  exact Nat.min_le_right _ _

theorem wait_mono (h : base.nanos ≤ cap.nanos) {f g : Nat} (le : f ≤ g) :
    ((exponential base cap h).wait f).nanos ≤ ((exponential base cap h).wait g).nanos := by
  rw [nanos_wait, nanos_wait]
  have product := Nat.mul_le_mul_left base.nanos (factor_mono le)
  exact Nat.le_min.2 ⟨Nat.le_trans (Nat.min_le_left _ _) product, Nat.min_le_right _ _⟩

/-! ## Doubling -/

/-- The base doubled so many times, in unbounded arithmetic, up to the cap or the base itself. -/
def doubled (base cap : Duration) (failures : Nat) : Nat :=
  Nat.min (base.nanos * Nat.pow 2 failures) (Nat.max cap.nanos base.nanos)

/-- Doubling gets to the cap before the factor stops growing, or there is nothing to double. -/
def CapInReach (base cap : Duration) : Prop :=
  base.nanos = 0 ∨ Nat.max cap.nanos base.nanos ≤ base.nanos * factorLimit

theorem nanos_wait_doubling (base cap : Duration) (failures : Nat) :
    ((doubling base cap).wait failures).nanos =
      Nat.min (base.nanos * Nat.min (Nat.pow 2 failures) factorLimit)
        (Nat.max cap.nanos base.nanos) := by
  rw [doubling, nanos_wait, factor_eq, Duration.nanos_max]

/-- Two factors, of which one is cut and the other is the same until then and goes on growing: they make
the same wait before the cut, and after it where the cap is in reach. -/
theorem cut_eq_iff {p q : Nat} (before : p ≤ factorLimit → q = p)
    (after : factorLimit < p → factorLimit < q) :
    Nat.min (base.nanos * Nat.min p factorLimit) (Nat.max cap.nanos base.nanos) =
        Nat.min (base.nanos * q) (Nat.max cap.nanos base.nanos) ↔
      p ≤ factorLimit ∨ CapInReach base cap := by
  unfold CapInReach
  generalize Nat.max cap.nanos base.nanos = top
  rcases Nat.lt_or_ge factorLimit p with cut | uncut
  · have grown := after cut
    rw [show Nat.min p factorLimit = factorLimit from Nat.min_eq_right (Nat.le_of_lt cut)]
    rcases Nat.eq_zero_or_pos base.nanos with zero | pos
    · simp [zero]
    · have less : base.nanos * factorLimit < base.nanos * q := Nat.mul_lt_mul_of_pos_left grown pos
      generalize base.nanos * factorLimit = short at less ⊢
      generalize base.nanos * q = long at less ⊢
      show min short top = min long top ↔ _
      omega
  · rw [before uncut, show Nat.min p factorLimit = p from Nat.min_eq_left uncut]
    simp [uncut]

/-- Twice a wait, cut to the cap. -/
theorem twice_wait (base cap : Duration) (failures : Nat) :
    Nat.min (2 * ((doubling base cap).wait failures).nanos) (Nat.max cap.nanos base.nanos) =
      Nat.min (base.nanos * (2 * Nat.min (Nat.pow 2 failures) factorLimit))
        (Nat.max cap.nanos base.nanos) := by
  rw [nanos_wait_doubling, Nat.mul_left_comm]
  generalize base.nanos * Nat.min (Nat.pow 2 failures) factorLimit = product
  generalize Nat.max cap.nanos base.nanos = top
  show min (2 * min product top) top = min (2 * product) top
  omega

/-- The wait after some failures is the base times a power of two that is cut to 32 bits, cut to the cap.
It is the base doubled with every failure, and twice the wait before, for the first 31 failures, and after
them exactly if the cap is in reach. Once the wait has got to the cap it stays there. -/
theorem doubles (base cap : Duration) :
    (∀ f, ((doubling base cap).wait f).nanos =
      Nat.min (base.nanos * Nat.min (Nat.pow 2 f) factorLimit) (Nat.max cap.nanos base.nanos)) ∧
    (∀ f, ((doubling base cap).wait f).nanos = doubled base cap f ↔
      f < 32 ∨ CapInReach base cap) ∧
    (∀ f, ((doubling base cap).wait (f + 1)).nanos =
        Nat.min (2 * ((doubling base cap).wait f).nanos) (Nat.max cap.nanos base.nanos) ↔
      f + 1 < 32 ∨ CapInReach base cap) ∧
    ∀ f g, ((doubling base cap).wait f).nanos = Nat.max cap.nanos base.nanos → f ≤ g →
      ((doubling base cap).wait g).nanos = Nat.max cap.nanos base.nanos := by
  refine ⟨nanos_wait_doubling base cap, fun f => ?_, fun f => ?_, fun f g top le => ?_⟩
  · rw [nanos_wait_doubling, doubled, cut_eq_iff (fun _ => rfl) id, pow_le_factorLimit_iff]
  · have next : Nat.pow 2 (f + 1) = 2 * Nat.pow 2 f := Nat.pow_succ'
    rw [twice_wait, nanos_wait_doubling, cut_eq_iff, pow_le_factorLimit_iff]
    all_goals
      rw [next]
      generalize Nat.pow 2 f = p
      simp only [factorLimit, Nat.min_def]
      split <;> omega
  · have grown : ((doubling base cap).wait f).nanos ≤ ((doubling base cap).wait g).nanos :=
      wait_mono _ le
    rw [top] at grown
    rw [nanos_wait_doubling] at grown ⊢
    exact Nat.le_antisymm (Nat.min_le_right _ _) grown

theorem doubles_to_cap :
    ∃ base cap : Duration, base.nanos = 1000000000 ∧ cap.nanos = 10000000000 ∧
      ((doubling base cap).wait 4).nanos = Nat.max cap.nanos base.nanos ∧
      ((doubling base cap).wait 31).nanos = Nat.max cap.nanos base.nanos := by
  let base : Duration := ⟨1000000000, by decide⟩
  let cap : Duration := ⟨10000000000, by decide⟩
  have top : ((doubling base cap).wait 4).nanos = Nat.max cap.nanos base.nanos := by decide
  exact ⟨base, cap, rfl, rfl, top, (doubles base cap).2.2.2 4 31 top (by decide)⟩

/-- A wait that starts at a microsecond and should double up to two hours stops growing at a bit more than
one hour. -/
theorem stalls_below_cap :
    ∃ base cap : Duration, base.nanos = 1000 ∧ cap.nanos = 7200000000000 ∧
      ((doubling base cap).wait 33).nanos = 4294967295000 ∧ doubled base cap 33 = 7200000000000 :=
  ⟨⟨1000, by decide⟩, ⟨7200000000000, by decide⟩, rfl, rfl, by decide, by decide⟩

end Tenure.Pace
