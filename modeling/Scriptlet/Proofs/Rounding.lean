import Mathlib.Algebra.Order.Field.Power
import Mathlib.Data.Rat.Cast.Order
import Mathlib.Tactic.FieldSimp
import Mathlib.Tactic.Linarith
import Mathlib.Tactic.NormNum
import Mathlib.Tactic.Positivity
import Mathlib.Tactic.Ring
import Scriptlet.Binary32.Nearest

/-!
# Rounding

The number that stands for a quotient is the one that the format prescribes: the nearest, of two the
one with the even significand, and infinity from half a unit above the largest number on
(`Binary32.ofQuotient_roundsTo`). There is no other (`Binary32.RoundsTo.unique`).
-/

namespace Scriptlet

/-! ## Quotients of integers -/

theorem shiftLeft_div_shiftLeft (num den : Nat) (q : Int) :
    ((num <<< (-q).toNat : Nat) : ℚ) / (den <<< q.toNat : Nat) = num / den / 2 ^ q := by
  rw [Nat.shiftLeft_eq, Nat.shiftLeft_eq]
  push_cast
  obtain ⟨n, rfl | rfl⟩ := Int.eq_nat_or_neg q
  · simp [div_div]
  · simp only [neg_neg, Int.toNat_natCast, zpow_neg, zpow_natCast, Int.toNat_neg_natCast, pow_zero,
      mul_one, div_inv_eq_mul]
    ring

section Quotient

variable {num den : Nat}

/-- What a quotient is rounded to is less than a half away from it, or half and even. -/
theorem roundQuotient_cases (num : Nat) (hden : 0 < den) :
    |(roundQuotient num den : ℚ) - num / den| < 1 / 2 ∨
      |(roundQuotient num den : ℚ) - num / den| = 1 / 2 ∧ Even (roundQuotient num den) := by
  have hpos : (0 : ℚ) < den := by exact_mod_cast hden
  have hnum : (num : ℚ) / den = (num / den : Nat) + (num % den : Nat) / den := by
    have h : (num : ℚ) = den * (num / den : Nat) + (num % den : Nat) := by
      exact_mod_cast (Nat.div_add_mod num den).symm
    rw [h]
    field_simp
  have hnonneg : (0 : ℚ) ≤ (num % den : Nat) / den := by positivity
  have hone : ((num % den : Nat) : ℚ) / den < 1 := by
    rw [div_lt_one hpos]
    exact_mod_cast Nat.mod_lt num hden
  rw [roundQuotient, hnum]
  rcases Nat.lt_trichotomy (2 * (num % den)) den with h | h | h
  · have hhalf : ((num % den : Nat) : ℚ) / den < 1 / 2 := by
      have h' : (2 : ℚ) * (num % den : Nat) < den := by exact_mod_cast h
      rw [div_lt_iff₀ hpos]
      linarith
    simp only [h, ↓reduceIte]
    rw [abs_lt]
    exact .inl ⟨by linarith, by linarith⟩
  · have hhalf : ((num % den : Nat) : ℚ) / den = 1 / 2 := by
      have h' : (2 : ℚ) * (num % den : Nat) = den := by exact_mod_cast h
      rw [div_eq_iff hpos.ne']
      linarith
    simp only [h, Nat.lt_irrefl, ↓reduceIte, hhalf]
    refine .inr ⟨?_, Nat.even_iff.mpr (by omega)⟩
    -- Either the quotient is even and stays, or it goes up by one.
    rcases Nat.mod_two_eq_zero_or_one (num / den) with heven | hodd
    · rw [heven, Nat.add_zero, sub_add_cancel_left, abs_neg]
      norm_num
    · rw [hodd, Nat.cast_add, add_sub_add_left_eq_sub]
      norm_num
  · have hhalf : 1 / 2 < ((num % den : Nat) : ℚ) / den := by
      have h' : (den : ℚ) < 2 * (num % den : Nat) := by exact_mod_cast h
      rw [lt_div_iff₀ hpos]
      linarith
    simp only [h, Nat.lt_asymm h, ↓reduceIte]
    rw [Nat.cast_add, add_sub_add_left_eq_sub, abs_lt]
    push_cast
    exact .inl ⟨by linarith, by linarith⟩

theorem two_zpow_le_iff (hden : 0 < den) (e : Int) :
    den <<< e.toNat ≤ num <<< (-e).toNat ↔ (2 : ℚ) ^ e ≤ num / den := by
  have hpos : (0 : ℚ) < (den <<< e.toNat : Nat) := by
    rw [Nat.shiftLeft_eq]
    positivity
  rw [← one_le_div (zpow_pos (by norm_num : (0 : ℚ) < 2) e), ← shiftLeft_div_shiftLeft,
    one_le_div hpos, Nat.cast_le]

/-- The power is that of the leading digit. -/
theorem log2Quotient_spec (hnum : 0 < num) (hden : 0 < den) :
    (2 : ℚ) ^ log2Quotient num den ≤ num / den ∧
      (num : ℚ) / den < 2 ^ (log2Quotient num den + 1) := by
  have hpos : (0 : ℚ) < den := by exact_mod_cast hden
  have hnumle : (2 : ℚ) ^ num.log2 ≤ num := by exact_mod_cast Nat.log2_self_le hnum.ne'
  have hnumlt : (num : ℚ) < 2 ^ (num.log2 + 1) := by exact_mod_cast Nat.lt_log2_self
  have hdenle : (2 : ℚ) ^ den.log2 ≤ den := by exact_mod_cast Nat.log2_self_le hden.ne'
  have hdenlt : (den : ℚ) < 2 ^ (den.log2 + 1) := by exact_mod_cast Nat.lt_log2_self
  have hlow : (2 : ℚ) ^ ((num.log2 : Int) - den.log2 - 1) ≤ num / den := by
    rw [le_div_iff₀ hpos]
    calc (2 : ℚ) ^ ((num.log2 : Int) - den.log2 - 1) * den
        ≤ 2 ^ ((num.log2 : Int) - den.log2 - 1) * 2 ^ ((den.log2 : Int) + 1) := by
          gcongr
          exact_mod_cast hdenlt.le
      _ = 2 ^ num.log2 := by
          rw [← zpow_add₀ two_ne_zero, ← zpow_natCast]
          congr 1
          ring
      _ ≤ num := hnumle
  have hhigh : (num : ℚ) / den < 2 ^ ((num.log2 : Int) - den.log2 + 1) := by
    rw [div_lt_iff₀ hpos]
    calc (num : ℚ) < 2 ^ (num.log2 + 1) := hnumlt
      _ = 2 ^ ((num.log2 : Int) - den.log2 + 1) * 2 ^ den.log2 := by
          rw [← zpow_natCast, ← zpow_natCast, ← zpow_add₀ two_ne_zero]
          congr 1
          push_cast
          ring
      _ ≤ 2 ^ ((num.log2 : Int) - den.log2 + 1) * den := by gcongr
  rw [log2Quotient]
  by_cases h : (2 : ℚ) ^ ((num.log2 : Int) - den.log2) ≤ num / den
  · simp only [(two_zpow_le_iff hden _).mpr h, ↓reduceIte]
    exact ⟨h, hhigh⟩
  · simp only [mt (two_zpow_le_iff hden _).mp h, ↓reduceIte]
    exact ⟨hlow, by simpa using h⟩

end Quotient

/-! ## Numbers of the format -/

namespace Binary32

/-- Whether the encoding stands for a finite number. -/
def IsFinite (x : Binary32) : Prop := x.storedExponent ≠ 255

/-- The value of a finite number. -/
def value (x : Binary32) : ℚ :=
  (if x.isNegative then -1 else 1) * (x.significand * 2 ^ x.power)

/-- Half a unit above the largest finite number. -/
def overflow : ℚ := 2 ^ 128 - 2 ^ 103

/-- The number is what the format prescribes for a quotient that is not negative. -/
structure RoundsTo (r : ℚ) (x : Binary32) : Prop where
  infinite : overflow ≤ r → x = ⟨.ofNat infinityBits⟩
  finite : r < overflow → x.IsFinite ∧ x.isNegative = false
  nearest : r < overflow → ∀ y : Binary32, y.IsFinite → |x.value - r| ≤ |y.value - r|
  even : r < overflow → ∀ y : Binary32, y.IsFinite → |y.value - r| = |x.value - r| →
    y.value ≠ x.value → Even x.significand

theorem significand_lt (x : Binary32) : x.significand < 2 ^ 24 := by
  have hfraction : x.fraction < leadingBit := Nat.mod_lt _ (by decide)
  have hbit : leadingBit = 2 ^ 23 := rfl
  rw [significand]
  split <;> omega

theorem power_cases (x : Binary32) : x.power = -149 ∨ -149 < x.power ∧ 2 ^ 23 ≤ x.significand := by
  have hbit : leadingBit = 2 ^ 23 := rfl
  rw [power, significand]
  by_cases h : x.storedExponent ≤ 1
  · left
    omega
  · right
    rw [if_neg (by omega)]
    omega

/-- What an encoding made of an exponent field and a significand stands for. The significand may
have its leading bit, and may be one too large. -/
structure Encodes (k m : Nat) (x : Binary32) : Prop where
  finite : x.IsFinite
  positive : x.isNegative = false
  value : x.value = m * 2 ^ ((k : Int) - 149)
  even : Even m → Even x.significand

theorem encodes {k m : Nat} (hm : m ≤ 2 ^ 24) (hk : k = 0 ∨ 2 ^ 23 ≤ m)
    (hlt : k * leadingBit + m < infinityBits) :
    Encodes k m ⟨.ofNat (k * leadingBit + m)⟩ := by
  have hbit : leadingBit = 2 ^ 23 := rfl
  have hinfinity : infinityBits = 255 * 2 ^ 23 := rfl
  rw [hbit, hinfinity] at hlt
  have hbits : (UInt32.ofNat (k * leadingBit + m)).toNat = k * 2 ^ 23 + m := by
    rw [hbit]
    exact UInt32.toNat_ofNat_of_lt' (by show _ < 2 ^ 32; omega)
  generalize hx : (⟨.ofNat (k * leadingBit + m)⟩ : Binary32) = x
  have hnat : x.bits.toNat = k * 2 ^ 23 + m := by rw [← hx, hbits]
  have hpositive : x.isNegative = false := by
    rw [isNegative, hnat, decide_eq_false_iff_not]
    omega
  have hvalue : x.value = x.significand * 2 ^ x.power := by
    rw [Binary32.value, hpositive]
    simp
  have hexponent : x.storedExponent = (k * 2 ^ 23 + m) / 2 ^ 23 % 0x100 := by
    rw [storedExponent, hnat, hbit]
  have hfraction : x.fraction = (k * 2 ^ 23 + m) % 2 ^ 23 := by
    rw [fraction, hnat, hbit]
  -- The significand lacks its leading bit, has it, or is one too large.
  rcases Nat.lt_or_ge m (2 ^ 23) with hsmall | hlarge
  · obtain rfl : k = 0 := by omega
    have he : x.storedExponent = 0 := by omega
    have hs : x.significand = m := by
      rw [significand, if_pos he]
      omega
    refine ⟨by rw [IsFinite]; omega, hpositive, ?_, by rw [hs]; exact id⟩
    rw [hvalue, hs, power, he]
    norm_num
  rcases Nat.lt_or_eq_of_le hm with hm | rfl
  · have he : x.storedExponent = k + 1 := by omega
    have hs : x.significand = m := by
      rw [significand, if_neg (by omega), hbit]
      omega
    have hp : x.power = (k : Int) - 149 := by
      rw [power, he]
      omega
    exact ⟨by rw [IsFinite]; omega, hpositive, by rw [hvalue, hs, hp], by rw [hs]; exact id⟩
  · have he : x.storedExponent = k + 2 := by omega
    have hs : x.significand = 2 ^ 23 := by
      rw [significand, if_neg (by omega), hbit]
      omega
    have hp : x.power = 1 + ((k : Int) - 149) := by
      rw [power, he]
      omega
    refine ⟨by rw [IsFinite]; omega, hpositive, ?_, by rw [hs]; decide⟩
    rw [hvalue, hs, hp, zpow_add₀ two_ne_zero]
    push_cast
    ring

theorem exists_eq_mul {x : Binary32} {q : Int} (h : q ≤ x.power) :
    ∃ j : Int, x.value = j * 2 ^ q := by
  obtain ⟨n, hn⟩ := Int.le.dest h
  refine ⟨(if x.isNegative then -1 else 1) * (x.significand * 2 ^ n), ?_⟩
  rw [value, ← hn, zpow_add₀ two_ne_zero, zpow_natCast]
  push_cast
  ring

theorem value_le (x : Binary32) : x.value ≤ x.significand * 2 ^ x.power := by
  have hnonneg : (0 : ℚ) ≤ x.significand * 2 ^ x.power := by positivity
  rw [value]
  split
  · linarith
  · linarith

/-- What has a smaller unit is less than what has all its digits. -/
theorem mul_lt_of_lt {s : Nat} {p q : Int} (hs : s < 2 ^ 24) (hpq : p < q) :
    (s : ℚ) * 2 ^ p < 2 ^ 23 * 2 ^ q := by
  have hs' : (s : ℚ) < 2 ^ 24 := by exact_mod_cast hs
  calc (s : ℚ) * 2 ^ p < 2 ^ 24 * 2 ^ p := by gcongr
    _ = 2 ^ 23 * 2 ^ (p + 1) := by
        rw [zpow_add₀ two_ne_zero]
        ring
    _ ≤ 2 ^ 23 * 2 ^ q := by
        gcongr
        · norm_num
        · omega

/-- The nearest integer, of two equally near ones the even one. -/
def IsNearestInteger (m : Nat) (t : ℚ) : Prop :=
  |(m : ℚ) - t| < 1 / 2 ∨ |(m : ℚ) - t| = 1 / 2 ∧ Even m

theorem IsNearestInteger.abs_le {m : Nat} {t : ℚ} (h : IsNearestInteger m t) :
    |(m : ℚ) - t| ≤ 1 / 2 := by
  rcases h with h | h
  · exact h.le
  · exact h.1.le

theorem one_sub_le_abs {m : Nat} {j : Int} (h : j ≠ m) (t : ℚ) :
    1 - |(m : ℚ) - t| ≤ |(j : ℚ) - t| := by
  have hone : (1 : ℚ) ≤ |(j : ℚ) - m| := by
    have hint : 1 ≤ |j - (m : Int)| := Int.one_le_abs (sub_ne_zero.mpr h)
    exact_mod_cast hint
  have htriangle := abs_sub_le (j : ℚ) t m
  rw [abs_sub_comm t] at htriangle
  linarith

theorem IsNearestInteger.abs_le_abs {m : Nat} {t : ℚ} (h : IsNearestInteger m t) (j : Int) :
    |(m : ℚ) - t| ≤ |(j : ℚ) - t| := by
  by_cases hjm : j = m
  · rw [hjm]
    rfl
  · have hhalf := h.abs_le
    have hfar := one_sub_le_abs hjm t
    linarith

/-- Nothing is nearer to a quotient than its rounding in units of a power that leaves it twenty-four
digits, or of the least power. -/
theorem nearest_of_unit {r : ℚ} {q : Int} {m : Nat} (hq : q = -149 ∨ 2 ^ 23 * 2 ^ q ≤ r)
    (hm : IsNearestInteger m (r / 2 ^ q)) (y : Binary32) :
    |m * 2 ^ q - r| < |y.value - r| ∨ y.value = m * 2 ^ q ∨
      |m * 2 ^ q - r| = |y.value - r| ∧ Even m := by
  have hunit : (0 : ℚ) < 2 ^ q := by positivity
  have hscale (j : ℚ) : |j * 2 ^ q - r| = |j - r / 2 ^ q| * 2 ^ q := by
    rw [← abs_of_pos hunit, ← abs_mul, abs_of_pos hunit, sub_mul, div_mul_cancel₀ r hunit.ne']
  rcases le_or_gt q y.power with hle | hlt
  · obtain ⟨j, hj⟩ := exists_eq_mul hle
    rw [hj]
    by_cases hjm : j = m
    · exact .inr (.inl (by rw [hjm]; norm_cast))
    have hfar := one_sub_le_abs hjm (r / 2 ^ q)
    rw [hscale, hscale, mul_lt_mul_iff_left₀ hunit]
    rcases hm with hm | ⟨hm, heven⟩
    · exact .inl (by linarith)
    · rw [hm] at hfar ⊢
      norm_num at hfar
      rcases hfar.lt_or_eq with hlt | heq
      · exact .inl hlt
      · exact .inr (.inr ⟨congrArg (· * 2 ^ q) heq, heven⟩)
  · have hlow : (2 : ℚ) ^ 23 * 2 ^ q ≤ r := by
      refine hq.resolve_left fun hleast => ?_
      have hpower := y.power_cases
      omega
    left
    calc |m * 2 ^ q - r| = |m - r / 2 ^ q| * 2 ^ q := hscale m
      _ ≤ |((2 ^ 23 : Int) : ℚ) - r / 2 ^ q| * 2 ^ q :=
          mul_le_mul_of_nonneg_right (hm.abs_le_abs _) hunit.le
      _ = |2 ^ 23 * 2 ^ q - r| := by
          rw [← hscale]
          push_cast
          rfl
      _ = r - 2 ^ 23 * 2 ^ q := by
          rw [abs_sub_comm, abs_of_nonneg (sub_nonneg.mpr hlow)]
      _ < r - y.value :=
          sub_lt_sub_left (y.value_le.trans_lt (mul_lt_of_lt y.significand_lt hlt)) r
      _ ≤ |y.value - r| := by
          rw [abs_sub_comm]
          exact le_abs_self _

/-! ## Rounding quotients -/

theorem two_pow_mul (n : Nat) (q : Int) : (2 : ℚ) ^ n * 2 ^ q = 2 ^ (n + q) := by
  rw [zpow_add₀ two_ne_zero, zpow_natCast]

/-- The unit that is chosen leaves a quotient with twenty-four digits, or is the least one. -/
theorem unit_bounds {r : ℚ} {e q : Int} (hlow : 2 ^ e ≤ r) (hhigh : r < 2 ^ (e + 1))
    (hq : q = max (e - 23) (-149)) :
    (q = -149 ∨ 2 ^ 23 * 2 ^ q ≤ r) ∧ r < 2 ^ 24 * 2 ^ q := by
  rw [two_pow_mul, two_pow_mul]
  constructor
  · rcases max_choice (e - 23) (-149) with h | h
    · right
      rwa [hq, h, show ((23 : Nat) : Int) + (e - 23) = e by omega]
    · exact .inl (hq.trans h)
  · refine hhigh.trans_le (zpow_le_zpow_right₀ (by norm_num) ?_)
    omega

/-- The significand that is found has twenty-four digits, or fewer in the least unit, but may be one
too large. -/
theorem significand_bounds {r : ℚ} {q : Int} {m : Nat} (hq : q = -149 ∨ 2 ^ 23 * 2 ^ q ≤ r)
    (hr : r < 2 ^ 24 * 2 ^ q) (hm : IsNearestInteger m (r / 2 ^ q)) :
    m ≤ 2 ^ 24 ∧ (q = -149 ∨ 2 ^ 23 ≤ m) := by
  have hunit : (0 : ℚ) < 2 ^ q := by positivity
  have hhalf := abs_le.mp hm.abs_le
  constructor
  · have ht : r / 2 ^ q < 2 ^ 24 := (div_lt_iff₀ hunit).mpr hr
    have hlt : (m : ℚ) < (2 ^ 24 + 1 : Nat) := by
      push_cast
      linarith
    exact Nat.le_of_lt_succ (by exact_mod_cast hlt)
  · refine hq.imp_right fun hlow => ?_
    have ht : 2 ^ 23 ≤ r / 2 ^ q := (le_div_iff₀ hunit).mpr hlow
    have hlt : ((2 ^ 23 : Nat) : ℚ) < m + 1 := by
      push_cast
      linarith
    exact Nat.le_of_lt_succ (by exact_mod_cast hlt)

/-- The encoding stays below infinity exactly when the quotient is less than half a unit above the
largest number. -/
theorem lt_infinityBits_iff {r : ℚ} {k m : Nat} (hm : m ≤ 2 ^ 24) (hk : k = 0 ∨ 2 ^ 23 ≤ m)
    (hr : k = 0 ∨ 2 ^ 23 * 2 ^ ((k : Int) - 149) ≤ r)
    (hnear : IsNearestInteger m (r / 2 ^ ((k : Int) - 149))) :
    k * leadingBit + m < infinityBits ↔ r < overflow := by
  have hbit : leadingBit = 2 ^ 23 := rfl
  have hinfinity : infinityBits = 255 * 2 ^ 23 := rfl
  have hunit : (0 : ℚ) < 2 ^ ((k : Int) - 149) := by positivity
  have hscale : r / 2 ^ ((k : Int) - 149) * 2 ^ ((k : Int) - 149) = r :=
    div_mul_cancel₀ r hunit.ne'
  have hoverflow : overflow = (2 ^ 24 - 1 / 2) * 2 ^ (104 : Int) := by
    rw [overflow]
    norm_num
  rw [hbit, hinfinity, hoverflow]
  generalize r / 2 ^ ((k : Int) - 149) = t at hnear hscale
  have hhalf := abs_le.mp hnear.abs_le
  rcases Nat.lt_trichotomy k 253 with hk' | rfl | hk'
  -- With a smaller exponent there is no overflow, whatever the significand is.
  · refine iff_of_true (by omega) ?_
    have hpower : (2 : ℚ) ^ ((k : Int) - 149) ≤ 2 ^ (103 : Int) :=
      zpow_le_zpow_right₀ (by norm_num) (by omega)
    have hm' : (m : ℚ) ≤ 2 ^ 24 := by exact_mod_cast hm
    calc r = t * 2 ^ ((k : Int) - 149) := hscale.symm
      _ ≤ (2 ^ 24 + 1 / 2) * 2 ^ ((k : Int) - 149) := by
          gcongr
          linarith
      _ ≤ (2 ^ 24 + 1 / 2) * 2 ^ (103 : Int) := by gcongr
      _ < (2 ^ 24 - 1 / 2) * 2 ^ (104 : Int) := by norm_num
  -- With the greatest one it depends on whether the significand is one too large.
  · rw [← hscale, show ((253 : Nat) : Int) - 149 = 104 by rfl,
      mul_lt_mul_iff_left₀ (by norm_num : (0 : ℚ) < 2 ^ (104 : Int))]
    constructor
    · intro hlt
      rcases hnear with hnear | ⟨-, heven⟩
      · have hm' : (m : ℚ) + 1 ≤ 2 ^ 24 := by exact_mod_cast (by omega : m + 1 ≤ 2 ^ 24)
        have hlt := (abs_lt.mp hnear).1
        linarith
      · have hm' : (m : ℚ) + 2 ≤ 2 ^ 24 := by
          have heven := Nat.even_iff.mp heven
          exact_mod_cast (by omega : m + 2 ≤ 2 ^ 24)
        linarith
    · intro hlt
      have hm' : (m : ℚ) < ((2 ^ 24 : Nat) : ℚ) := by
        push_cast
        linarith
      have hm'' : m < 2 ^ 24 := by exact_mod_cast hm'
      omega
  · refine iff_of_false (by omega) (not_lt.mpr ?_)
    have hpower : (2 : ℚ) ^ (105 : Int) ≤ 2 ^ ((k : Int) - 149) :=
      zpow_le_zpow_right₀ (by norm_num) (by omega)
    calc ((2 : ℚ) ^ 24 - 1 / 2) * 2 ^ (104 : Int) ≤ 2 ^ 23 * 2 ^ (105 : Int) := by norm_num
      _ ≤ 2 ^ 23 * 2 ^ ((k : Int) - 149) := by gcongr
      _ ≤ r := hr.resolve_left (by omega)

theorem zero_roundsTo : zero.RoundsTo 0 := by
  have hvalue : zero.value = 0 := by
    have h : zero.significand = 0 := rfl
    rw [value, h]
    simp
  refine ⟨fun h => absurd h (by norm_num [overflow]), fun _ => ⟨?_, rfl⟩, fun _ y _ => ?_,
    fun _ _ _ _ _ => by decide⟩
  · show zero.storedExponent ≠ 255
    decide
  · rw [hvalue, sub_zero, abs_zero]
    exact abs_nonneg _

theorem infinity_roundsTo {r : ℚ} (h : overflow ≤ r) :
    (⟨.ofNat infinityBits⟩ : Binary32).RoundsTo r :=
  ⟨fun _ => rfl, fun hlt => absurd hlt h.not_gt, fun hlt => absurd hlt h.not_gt,
    fun hlt => absurd hlt h.not_gt⟩

/-- The encoding of the nearest significand in the unit is what a quotient is rounded to. -/
theorem Encodes.roundsTo {k m : Nat} {x : Binary32} (h : Encodes k m x) {r : ℚ}
    (hr : r < overflow) (hunit : (k : Int) - 149 = -149 ∨ 2 ^ 23 * 2 ^ ((k : Int) - 149) ≤ r)
    (hnear : IsNearestInteger m (r / 2 ^ ((k : Int) - 149))) : x.RoundsTo r := by
  refine ⟨fun hle => absurd hr hle.not_gt, fun _ => ⟨h.finite, h.positive⟩, fun _ y _ => ?_,
    fun _ y _ htie hne => ?_⟩
  · rw [h.value]
    rcases nearest_of_unit hunit hnear y with hlt | heq | ⟨heq, -⟩
    · exact hlt.le
    · rw [heq]
    · exact heq.le
  · rw [h.value] at htie hne
    rcases nearest_of_unit hunit hnear y with hlt | heq | ⟨-, hm⟩
    · exact absurd htie.symm hlt.ne
    · exact absurd heq hne
    · exact h.even hm

/-- Every quotient is rounded as the format prescribes. -/
theorem ofQuotient_roundsTo (num : Nat) {den : Nat} (hden : 0 < den) :
    (ofQuotient num den).RoundsTo (num / den) := by
  rcases Nat.eq_zero_or_pos num with rfl | hnum
  · have hzero : ofQuotient 0 den = zero := if_pos rfl
    rw [hzero, Nat.cast_zero, zero_div]
    exact zero_roundsTo
  obtain ⟨hlow, hhigh⟩ := log2Quotient_spec hnum hden
  generalize hq : max (log2Quotient num den - 23) (-149) = q
  obtain ⟨k, rfl⟩ : ∃ k : Nat, q = (k : Int) - 149 := ⟨(q + 149).toNat, by omega⟩
  generalize hm : roundQuotient (num <<< (-((k : Int) - 149)).toNat)
    (den <<< ((k : Int) - 149).toNat) = m
  have hresult : ofQuotient num den = ⟨.ofNat (min (k * leadingBit + m) infinityBits)⟩ := by
    rw [ofQuotient, if_neg hnum.ne']
    simp only [hq, hm]
    rw [Int.sub_add_cancel, Int.toNat_natCast]
  have hnear : IsNearestInteger m (num / den / 2 ^ ((k : Int) - 149)) := by
    rw [← shiftLeft_div_shiftLeft, ← hm]
    refine roundQuotient_cases _ ?_
    rw [Nat.shiftLeft_eq]
    positivity
  obtain ⟨hunit, hr⟩ := unit_bounds hlow hhigh hq.symm
  obtain ⟨hle, hlarge⟩ := significand_bounds hunit hr hnear
  have hk : k = 0 ∨ 2 ^ 23 ≤ m := hlarge.imp_left (by omega)
  have hiff := lt_infinityBits_iff hle hk (hunit.imp_left (by omega)) hnear
  rw [hresult]
  rcases Nat.lt_or_ge (k * leadingBit + m) infinityBits with hlt | hge
  · rw [Nat.min_eq_left hlt.le]
    exact (encodes hle hk hlt).roundsTo (hiff.mp hlt) hunit hnear
  · rw [Nat.min_eq_right hge]
    exact infinity_roundsTo (not_lt.mp fun h => absurd (hiff.mpr h) hge.not_gt)

theorem ofDecimal_roundsTo (digits places : Nat) :
    (ofDecimal digits places).RoundsTo (digits / 10 ^ places) := by
  have hpow : ((10 ^ places : Nat) : ℚ) = 10 ^ places := by norm_cast
  rw [← hpow]
  exact ofQuotient_roundsTo digits (Nat.pow_pos (by decide))

/-! ## Uniqueness -/

/-- The significand and power of a finite number: all digits, or the least power. -/
structure IsCanonical (s : Nat) (p : Int) : Prop where
  lt : s < 2 ^ 24
  least_or_full : p = -149 ∨ -149 < p ∧ 2 ^ 23 ≤ s

theorem isCanonical (x : Binary32) : IsCanonical x.significand x.power :=
  ⟨x.significand_lt, x.power_cases⟩

namespace IsCanonical

variable {s s' : Nat} {p p' : Int}

/-- Between a number and the next one there is none. -/
theorem succ_mul_le (h : IsCanonical s p) (h' : IsCanonical s' p')
    (hlt : (s : ℚ) * 2 ^ p < s' * 2 ^ p') : ((s : ℚ) + 1) * 2 ^ p ≤ s' * 2 ^ p' := by
  have hunit : (0 : ℚ) < 2 ^ p := by positivity
  rcases le_or_gt p p' with hle | hgt
  · obtain ⟨n, rfl⟩ := Int.le.dest hle
    have hscale : (s' : ℚ) * 2 ^ (p + n) = (s' * 2 ^ n : Nat) * 2 ^ p := by
      rw [zpow_add₀ two_ne_zero, zpow_natCast]
      push_cast
      ring
    rw [hscale, mul_lt_mul_iff_left₀ hunit, Nat.cast_lt] at hlt
    rw [hscale, mul_le_mul_iff_left₀ hunit]
    exact_mod_cast hlt
  -- A number with a smaller unit would be less than the first one, which has all its digits.
  · exfalso
    have hfull : (2 : ℚ) ^ 23 ≤ s := by
      have hs : 2 ^ 23 ≤ s := by
        have hleast := h.least_or_full
        have hleast' := h'.least_or_full
        omega
      exact_mod_cast hs
    have hsmall : (s' : ℚ) * 2 ^ p' < s * 2 ^ p :=
      (mul_lt_of_lt h'.lt hgt).trans_le (mul_le_mul_of_nonneg_right hfull hunit.le)
    exact absurd hlt hsmall.not_gt

theorem eq_of_le (h : IsCanonical s p) (h' : IsCanonical s' p') (hle : p ≤ p')
    (heq : (s : ℚ) * 2 ^ p = s' * 2 ^ p') : s = s' ∧ p = p' := by
  have hunit : (2 : ℚ) ^ p ≠ 0 := by positivity
  obtain ⟨n, rfl⟩ := Int.le.dest hle
  have hscale : (s : ℚ) * 2 ^ p = (s' * 2 ^ n : Nat) * 2 ^ p := by
    rw [heq, zpow_add₀ two_ne_zero, zpow_natCast]
    push_cast
    ring
  have hs : s = s' * 2 ^ n := by exact_mod_cast mul_right_cancel₀ hunit hscale
  cases n with
  | zero => exact ⟨by omega, by omega⟩
  | succ n =>
    -- With all its digits a number would have more than fit in a smaller unit.
    exfalso
    have hfull := h'.least_or_full
    have hleast := h.least_or_full
    have hlt := h.lt
    have hmul : 2 ^ 23 * 2 ≤ s' * 2 ^ (n + 1) :=
      Nat.mul_le_mul (by omega) (Nat.le_self_pow (Nat.succ_ne_zero n) 2)
    omega

theorem eq (h : IsCanonical s p) (h' : IsCanonical s' p')
    (heq : (s : ℚ) * 2 ^ p = s' * 2 ^ p') : s = s' ∧ p = p' := by
  rcases le_total p p' with hle | hle
  · exact h.eq_of_le h' hle heq
  · obtain ⟨hs, hp⟩ := h'.eq_of_le h hle heq.symm
    exact ⟨hs.symm, hp.symm⟩

end IsCanonical

variable {x y : Binary32}

theorem value_eq_mul (hx : x.isNegative = false) : x.value = x.significand * 2 ^ x.power := by
  rw [value, hx]
  simp

/-- A number that is not negative is its value. -/
theorem eq_of_value_eq (hx : x.isNegative = false) (hy : y.isNegative = false)
    (h : x.value = y.value) : x = y := by
  rw [value_eq_mul hx, value_eq_mul hy] at h
  obtain ⟨hs, hp⟩ := x.isCanonical.eq y.isCanonical h
  have hbit : leadingBit = 2 ^ 23 := rfl
  rw [isNegative, decide_eq_false_iff_not] at hx hy
  simp only [significand, power, storedExponent, fraction, hbit] at hs hp
  have hbits : x.bits.toNat = y.bits.toNat := by
    split at hs <;> split at hs <;> omega
  show (⟨x.bits⟩ : Binary32) = ⟨y.bits⟩
  rw [UInt32.toNat_inj.mp hbits]

/-- The number next above a finite one that is not the last with its power. -/
theorem exists_succ (hx : x.IsFinite) (h : x.significand + 1 < 2 ^ 24) :
    ∃ y : Binary32, y.IsFinite ∧ y.value = (x.significand + 1) * 2 ^ x.power := by
  have hbit : leadingBit = 2 ^ 23 := rfl
  have hinfinity : infinityBits = 255 * 2 ^ 23 := rfl
  have hexponent : x.storedExponent < 255 := by
    have hlt : x.storedExponent < 0x100 := Nat.mod_lt _ (by decide)
    rw [IsFinite] at hx
    omega
  have hpower : ((x.power + 149).toNat : Int) - 149 = x.power := by
    have hcases := x.power_cases
    omega
  have hy := encodes (k := (x.power + 149).toNat) h.le ?_ ?_
  · refine ⟨_, hy.finite, ?_⟩
    rw [hy.value, hpower, Nat.cast_succ]
  · have hcases := x.power_cases
    omega
  · have hle : x.power = (max x.storedExponent 1 : Nat) - 150 := rfl
    rw [hbit, hinfinity]
    omega

/-- Between two numbers with even significands there is another one. -/
theorem exists_between (hfinite : x.IsFinite) (hx : x.isNegative = false)
    (hy : y.isNegative = false) (hxeven : Even x.significand) (hyeven : Even y.significand)
    (hlt : x.value < y.value) :
    ∃ z : Binary32, z.IsFinite ∧ x.value < z.value ∧ z.value < y.value := by
  have hxmod := Nat.even_iff.mp hxeven
  have hymod := Nat.even_iff.mp hyeven
  have hsucc : x.significand + 1 < 2 ^ 24 := by
    have hlt := x.significand_lt
    omega
  obtain ⟨z, hz, hzvalue⟩ := exists_succ hfinite hsucc
  refine ⟨z, hz, ?_, lt_of_le_of_ne ?_ fun heq => ?_⟩
  · have hunit : (0 : ℚ) < 2 ^ x.power := by positivity
    rw [hzvalue, value_eq_mul hx, add_mul, one_mul]
    linarith
  · rw [value_eq_mul hx, value_eq_mul hy] at hlt
    rw [hzvalue, value_eq_mul hy]
    exact x.isCanonical.succ_mul_le y.isCanonical hlt
  -- The number next above `x` has an odd significand.
  · have hcanonical : IsCanonical (x.significand + 1) x.power := by
      have hcases := x.power_cases
      exact ⟨hsucc, by omega⟩
    rw [hzvalue, value_eq_mul hy] at heq
    have hs := (hcanonical.eq y.isCanonical (by exact_mod_cast heq)).1
    omega

/-- Of two numbers that something is rounded to none is less, as there would be a nearer one between
them. -/
theorem RoundsTo.value_le {r : ℚ} (hr : r < overflow) (h : x.RoundsTo r) (h' : y.RoundsTo r) :
    y.value ≤ x.value := by
  by_contra hlt
  rw [not_le] at hlt
  obtain ⟨hx, hxpos⟩ := h.finite hr
  obtain ⟨hy, hypos⟩ := h'.finite hr
  have heq := le_antisymm (h.nearest hr y hy) (h'.nearest hr x hx)
  obtain ⟨z, hz, hxz, hzy⟩ := exists_between hx hxpos hypos (h.even hr y hy heq.symm hlt.ne')
    (h'.even hr x hx heq hlt.ne) hlt
  have hmid : y.value - r = r - x.value := by
    rcases abs_eq_abs.mp heq with hsame | hopposite <;> linarith
  have hnearer : |z.value - r| < |x.value - r| := by
    rw [abs_sub_comm x.value, abs_of_pos (by linarith : 0 < r - x.value), abs_lt]
    exact ⟨by linarith, by linarith⟩
  exact absurd (h.nearest hr z hz) hnearer.not_ge

/-- There is only one number that something is rounded to. -/
theorem RoundsTo.unique {r : ℚ} (h : x.RoundsTo r) (h' : y.RoundsTo r) : x = y := by
  rcases lt_or_ge r overflow with hr | hr
  · have heq := le_antisymm (h'.value_le hr h) (h.value_le hr h')
    exact eq_of_value_eq (h.finite hr).2 (h'.finite hr).2 heq
  · rw [h.infinite hr, h'.infinite hr]

end Binary32

end Scriptlet
