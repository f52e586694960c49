import PositionCache.Binary64.Text
import PositionCache.Workload.Percent
import PositionCache.Proofs.Stamp

/-!
# How close rounded numbers are

Where the significand fills the precision, a result is off by `2⁻⁵³` of itself at most.
-/

namespace PositionCache

/-! ## Rounded quotients -/

theorem roundDiv_close {den : Nat} (positive : 0 < den) (num : Nat) :
    |(roundDiv num den : ℚ) - num / den| ≤ 1 / 2 := by
  have pos : (0 : ℚ) < den := Nat.cast_pos.2 positive
  have exactly : (num : ℚ) / den = (num / den : Nat) + (num % den : Nat) / den := by
    rw [div_eq_iff pos.ne', add_mul, div_mul_cancel₀ _ pos.ne']
    exact_mod_cast (Nat.div_add_mod' num den).symm
  have below : ((num % den : Nat) : ℚ) < den := Nat.cast_lt.2 (Nat.mod_lt _ positive)
  have least : (0 : ℚ) ≤ (num % den : Nat) := Nat.cast_nonneg _
  have down (h : 2 * (num % den) ≤ den) : |((num / den : Nat) : ℚ) - num / den| ≤ 1 / 2 := by
    have half : 2 * ((num % den : Nat) : ℚ) ≤ den := by exact_mod_cast h
    rw [exactly, sub_add_cancel_left, abs_neg, abs_of_nonneg (by positivity),
      div_le_div_iff₀ pos two_pos]
    linarith
  have up (h : den ≤ 2 * (num % den)) : |((num / den + 1 : Nat) : ℚ) - num / den| ≤ 1 / 2 := by
    have half : (den : ℚ) ≤ 2 * ((num % den : Nat) : ℚ) := by exact_mod_cast h
    have most : ((num % den : Nat) : ℚ) / den ≤ 1 := (div_le_one pos).2 below.le
    have near : (1 : ℚ) / 2 ≤ (num % den : Nat) / den := by
      rw [div_le_div_iff₀ two_pos pos]
      linarith
    rw [exactly, Nat.cast_add, Nat.cast_one, add_sub_add_left_eq_sub, abs_of_nonneg (by linarith)]
    linarith
  simp only [roundDiv]
  split_ifs
  · exact down (by omega)
  · exact up (by omega)
  · exact down (by omega)
  · exact up (by omega)

theorem roundDiv_eq {num den n : Nat} (positive : 0 < den) (h : |(num : ℚ) / den - n| < 1 / 2) :
    roundDiv num den = n := by
  have close := roundDiv_close positive num
  have apart : |(roundDiv num den : ℚ) - n| < 1 := by
    have := abs_sub_le (roundDiv num den : ℚ) (num / den) n
    linarith
  have : |(roundDiv num den : ℤ) - n| < 1 := by exact_mod_cast apart
  have := Int.abs_lt_one_iff.1 this
  omega

namespace Binary64

theorem scaleRatio_value (num den : Nat) (e : Int) :
    ((scaleRatio num den e).1 : ℚ) / (scaleRatio num den e).2 = num / den * 2 ^ e := by
  have parts : (2 : ℚ) ^ e = 2 ^ e.toNat / 2 ^ (-e).toNat := by
    rw [← zpow_natCast, ← zpow_natCast, ← zpow_sub₀ two_ne_zero, Int.toNat_sub_toNat_neg]
  simp only [scaleRatio, Nat.pow_eq]
  push_cast
  rw [parts, mul_div_mul_comm]

theorem scaleRatio_pos {den : Nat} (positive : 0 < den) (num : Nat) (e : Int) :
    0 < (scaleRatio num den e).2 :=
  Nat.mul_pos positive (Nat.pow_pos two_pos)

/-! ## Rounding to the format -/

/-- A finite number without a sign, and what it stands for. -/
inductive IsValue : Binary64 → ℚ → Prop
  | finite (significand : Nat) (exponent : Int) :
    IsValue (.finite false significand exponent) (significand * 2 ^ exponent)

/-- The number is the exact result, rounded. -/
def Rounds (x : Binary64) (q : ℚ) : Prop := ∃ v, x.IsValue v ∧ |v - q| ≤ q / 2 ^ 53

/-- The numbers that are dealt with here: far from overflow and from the least exponent. -/
def Ordinary (q : ℚ) : Prop := 1 ≤ q ∧ q < 2 ^ 200

theorem two_zpow_mul {a b c : Int} (h : a + b = c) : (2 : ℚ) ^ a * 2 ^ b = 2 ^ c := by
  rw [← zpow_add₀ two_ne_zero, h]

theorem unscale (q : ℚ) (e : Int) : q * 2 ^ (-e) * 2 ^ e = q := by
  rw [mul_assoc, two_zpow_mul (neg_add_cancel e), zpow_zero, mul_one]

theorem le_div_of_log2 {num den : Nat} (positive : 0 < den) (nonzero : 0 < num) :
    (2 : ℚ) ^ ((num.log2 : Int) - den.log2 - 1) ≤ num / den := by
  have low : (2 : ℚ) ^ (num.log2 : Int) ≤ num := by exact_mod_cast Nat.log2_self_le nonzero.ne'
  have high : (den : ℚ) < 2 ^ ((den.log2 : Int) + 1) := by exact_mod_cast Nat.lt_log2_self
  rw [le_div_iff₀ (Nat.cast_pos.2 positive)]
  calc (2 : ℚ) ^ ((num.log2 : Int) - den.log2 - 1) * den
      ≤ 2 ^ ((num.log2 : Int) - den.log2 - 1) * 2 ^ ((den.log2 : Int) + 1) := by gcongr
    _ = 2 ^ (num.log2 : Int) := two_zpow_mul (by omega)
    _ ≤ num := low

/-- Under the exponent chosen, the significand fills the precision. -/
theorem exponentOf_spec {num den : Nat} (positive : 0 < den)
    (ordinary : Ordinary ((num : ℚ) / den)) :
    (2 : ℚ) ^ (exponentOf num den + 52) ≤ num / den := by
  have atLeast : den ≤ num := by
    exact_mod_cast (one_le_div (Nat.cast_pos.2 positive)).1 ordinary.1
  have nonzero := positive.trans_le atLeast
  have logs : den.log2 ≤ num.log2 :=
    (Nat.le_log2 nonzero.ne').2 ((Nat.log2_self_le positive.ne').trans atLeast)
  have guessed : max ((num.log2 : Int) - den.log2 - precision) leastExponent =
      (num.log2 : Int) - den.log2 - 53 := by
    simp only [precision, leastExponent]
    omega
  simp only [exponentOf, guessed]
  set guess : Int := (num.log2 : Int) - den.log2 - 53 with guess_def
  split_ifs with fits
  · have same : guess + 52 = (num.log2 : Int) - den.log2 - 1 := by omega
    rw [same]
    exact le_div_of_log2 positive nonzero
  · -- The quotient under the guess is too long for the precision, so one more bit is cut off.
    have scaledPos := scaleRatio_pos positive num (-guess)
    have long : (2 : ℚ) ^ (53 : Int) ≤ num / den * 2 ^ (-guess) := by
      rw [← scaleRatio_value, le_div_iff₀ (Nat.cast_pos.2 scaledPos)]
      exact_mod_cast (Nat.le_div_iff_mul_le scaledPos).1 (not_lt.1 fits)
    calc (2 : ℚ) ^ (guess + 1 + 52) = 2 ^ (53 : Int) * 2 ^ guess := (two_zpow_mul (by omega)).symm
      _ ≤ num / den * 2 ^ (-guess) * 2 ^ guess := by gcongr
      _ = num / den := unscale _ guess

theorem error_le {q : ℚ} {r : Nat} {e : Int} (full : (2 : ℚ) ^ (e + 52) ≤ q)
    (close : |(r : ℚ) - q * 2 ^ (-e)| ≤ 1 / 2) : |(r : ℚ) * 2 ^ e - q| ≤ q / 2 ^ 53 := by
  have ePos : (0 : ℚ) < 2 ^ e := zpow_pos two_pos e
  have last : (2 : ℚ) ^ e * 2 ^ (52 : Int) ≤ q := by rwa [two_zpow_mul rfl]
  -- Half a unit in the last place of a full significand is little beside the number.
  calc |(r : ℚ) * 2 ^ e - q| = |(r : ℚ) - q * 2 ^ (-e)| * 2 ^ e := by
        nth_rewrite 1 [← unscale q e]
        rw [← sub_mul, abs_mul, abs_of_pos ePos]
    _ ≤ 1 / 2 * 2 ^ e := by gcongr
    _ ≤ q / 2 ^ 53 := by
        rw [le_div_iff₀ (by positivity)]
        norm_num at last ⊢
        linarith

theorem nearest_rounds {num den : Nat} (positive : 0 < den)
    (ordinary : Ordinary ((num : ℚ) / den)) : (nearest false num den).Rounds (num / den) := by
  have full := exponentOf_spec positive ordinary
  have close := roundDiv_close (scaleRatio_pos positive num (-exponentOf num den))
    (scaleRatio num den (-exponentOf num den)).1
  rw [scaleRatio_value] at close
  have error := error_le full close
  set e := exponentOf num den with e_def
  set r := roundDiv (scaleRatio num den (-e)).1 (scaleRatio num den (-e)).2 with r_def
  have nonzero : r ≠ 0 := by
    intro zero
    rw [zero, Nat.cast_zero, zero_mul, zero_sub, abs_neg] at error
    have := le_abs_self ((num : ℚ) / den)
    have := ordinary.1
    linarith
  have inRange : e + 52 < 200 := by
    rw [← zpow_lt_zpow_iff_right₀ (one_lt_two (α := ℚ))]
    exact full.trans_lt (by exact_mod_cast ordinary.2)
  have top : e + 1 ≤ greatestExponent := by
    simp only [greatestExponent]
    omega
  simp only [nearest, ← e_def, ← r_def, if_neg nonzero]
  by_cases carries : r = Nat.pow 2 precision
  · have value : ((Nat.pow 2 (precision - 1) : Nat) : ℚ) * 2 ^ (e + 1) = r * 2 ^ e := by
      rw [carries, zpow_add_one₀ two_ne_zero]
      simp only [precision, Nat.pow_eq]
      push_cast
      ring
    simp only [if_pos carries, if_neg (not_lt.2 top)]
    exact ⟨_, .finite _ _, value.symm ▸ error⟩
  · have below : ¬ greatestExponent < e := by omega
    simp only [if_neg carries, if_neg below]
    exact ⟨_, .finite _ _, error⟩

theorem ofNat_rounds {n : Nat} (ordinary : Ordinary (n : ℚ)) : (ofNat n).Rounds n := by
  have whole : (n : ℚ) / (1 : Nat) = n := by rw [Nat.cast_one, div_one]
  have rounds := nearest_rounds one_pos (whole.symm ▸ ordinary)
  rwa [whole] at rounds

theorem IsValue.mul_rounds {x y : Binary64} {u v : ℚ} (hx : x.IsValue u) (hy : y.IsValue v)
    (ordinary : Ordinary (u * v)) : (x * y).Rounds (u * v) := by
  obtain ⟨m, a⟩ := hx
  obtain ⟨n, b⟩ := hy
  have exactly := scaleRatio_value (m * n) 1 (a + b)
  have value : ((m * n : Nat) : ℚ) / (1 : Nat) * 2 ^ (a + b) = m * 2 ^ a * (n * 2 ^ b) := by
    rw [zpow_add₀ two_ne_zero, Nat.cast_mul, Nat.cast_one, div_one, mul_mul_mul_comm]
  rw [value] at exactly
  rw [← exactly] at ordinary ⊢
  exact nearest_rounds (scaleRatio_pos one_pos (m * n) (a + b)) ordinary

theorem IsValue.div_rounds {x y : Binary64} {u v : ℚ} (hx : x.IsValue u) (hy : y.IsValue v)
    (ordinary : Ordinary (u / v)) : (x / y).Rounds (u / v) := by
  obtain ⟨m, a⟩ := hx
  obtain ⟨n, b⟩ := hy
  have nonzero : n ≠ 0 := by
    rintro rfl
    have := ordinary.1
    norm_num at this
  have exactly := scaleRatio_value m n (a - b)
  have value : (m : ℚ) / n * 2 ^ (a - b) = m * 2 ^ a / (n * 2 ^ b) := by
    rw [zpow_sub₀ two_ne_zero, div_mul_div_comm]
  rw [value] at exactly
  rw [← exactly] at ordinary ⊢
  change (Binary64.div _ _).Rounds _
  simp only [div, if_neg nonzero]
  exact nearest_rounds (scaleRatio_pos (Nat.pos_of_ne_zero nonzero) _ _) ordinary

/-! ## Decimal text -/

theorem IsValue.fixed_eq {x : Binary64} {q : ℚ} (h : x.IsValue q) {places n : Nat}
    (near : |q * 10 ^ places - n| < 1 / 2) :
    x.fixed places = .ofList (insertPoint places (padDigits (places + 1) n)) := by
  obtain ⟨m, e⟩ := h
  have exactly := scaleRatio_value m 1 e
  have rounded : roundDiv ((scaleRatio m 1 e).1 * Nat.pow 10 places) (scaleRatio m 1 e).2 = n := by
    apply roundDiv_eq (scaleRatio_pos one_pos m e)
    rw [Nat.cast_mul, mul_div_right_comm, exactly, Nat.pow_eq]
    push_cast
    rwa [div_one]
  simp only [fixed, format, fixedRatio, rounded]
  rfl

theorem percent_self_close {n : Nat} (positive : 0 < n) (word : n < wordLimit) :
    ∃ q, (percent n n).IsValue q ∧ |q - 100| < 1 / 1000 := by
  have atLeast : (1 : ℚ) ≤ n := by exact_mod_cast positive
  have below : (n : ℚ) < 2 ^ 64 := by exact_mod_cast word
  obtain ⟨a, isA, nearA⟩ := ofNat_rounds ⟨atLeast, below.trans (by norm_num)⟩
  obtain ⟨b, isB, nearB⟩ := ofNat_rounds (n := 100) ⟨by norm_num, by norm_num⟩
  rw [Nat.cast_ofNat] at nearB
  rw [abs_le] at nearA nearB
  have aLow : 1 / 2 ≤ a := by linarith
  have aHigh : a ≤ 2 ^ 65 := by linarith
  have bLow : 99 ≤ b := by linarith
  have bHigh : b ≤ 101 := by linarith
  have aPos : 0 < a := by linarith
  have product : Ordinary (a * b) := by
    constructor
    · calc (1 : ℚ) ≤ 1 / 2 * 99 := by norm_num
        _ ≤ a * b := by gcongr
    · calc a * b ≤ 2 ^ 65 * 101 := by gcongr
        _ < 2 ^ 200 := by norm_num
  obtain ⟨p, isP, nearP⟩ := isA.mul_rounds isB product
  -- The rounded count cancels, up to the rounding of the product.
  have cancelled : |p / a - b| ≤ b / 2 ^ 53 := by
    have quotient : p / a - b = (p - a * b) / a := by rw [sub_div, mul_div_cancel_left₀ b aPos.ne']
    rw [quotient, abs_div, abs_of_pos aPos, div_le_iff₀ aPos]
    exact nearP.trans_eq (by ring)
  rw [abs_le] at cancelled
  obtain ⟨q, isQ, nearQ⟩ := isP.div_rounds isA ⟨by linarith, by linarith⟩
  refine ⟨q, ?_, ?_⟩
  · rw [percent, if_neg positive.ne']
    exact isQ
  · rw [abs_le] at nearQ
    rw [abs_lt]
    constructor <;> linarith

theorem fixed_percent_self {n : Nat} (positive : 0 < n) (word : n < wordLimit) :
    (percent n n).fixed 2 = "100.00" := by
  obtain ⟨q, isQ, near⟩ := percent_self_close positive word
  rw [isQ.fixed_eq (n := 10000)]
  · decide
  · rw [abs_lt] at near ⊢
    constructor <;> push_cast <;> linarith

end Binary64

end PositionCache
