import PositionCache.Random.Xoshiro
import PositionCache.Proofs.Stamp

/-! # Scaled draws stay in range -/

namespace PositionCache

theorem scaleDraw_lt {σ : Type} {limit range : Nat} {draw : σ → Nat × σ}
    (bounded : ∀ s, (draw s).1 < limit) (positive : 0 < range) (s : σ) :
    (scaleDraw limit range draw s).1 < range := by
  have first := Nat.mul_lt_mul_of_pos_right (bounded s) positive
  have whole : (draw s).1 * range / limit < range := Nat.div_lt_of_lt_mul first
  simp only [scaleDraw]
  split_ifs with close carries
  · -- The carry comes from less than one more `range`, so the product stays below `limit * range`.
    have second := Nat.mul_lt_mul_of_pos_right (bounded (draw s).2) positive
    have carried : (draw (draw s).2).1 * range / limit < range := Nat.div_lt_of_lt_mul second
    have digits := Nat.div_add_mod ((draw s).1 * range) limit
    have atMost := Nat.mul_le_mul_right range (Nat.le_sub_one_of_lt (bounded s))
    rw [Nat.sub_one_mul] at atMost
    change (draw s).1 * range / limit + 1 < range
    apply lt_of_mul_lt_mul_left (a := limit) _ (Nat.zero_le _)
    rw [mul_add_one]
    omega
  · exact whole
  · exact whole

namespace Xoshiro

theorem draw64_lt (x : Xoshiro) : x.draw64.1 < wordLimit := x.next.1.toNat_lt

theorem draw32_lt (x : Xoshiro) : x.draw32.1 < halfLimit := by
  have word := x.next.1.toNat_lt
  have half : x.draw32.1 = x.next.1.toNat >>> 32 := rfl
  rw [half, Nat.shiftRight_eq_div_pow, halfLimit]
  omega

instance : LawfulRandomSource Xoshiro where
  below_lt bound x positive := by
    have drawn := scaleDraw_lt draw64_lt (UInt64.lt_iff_toNat_lt.1 positive) x
    have word := bound.toNat_lt
    change UInt64.ofNat (scaleDraw wordLimit bound.toNat draw64 x).1 < bound
    rw [UInt64.lt_iff_toNat_lt, UInt64.toNat_ofNat_of_lt' (drawn.trans word)]
    exact drawn
  between_mem least greatest x ordered := by
    have drawn : (scaleDraw halfLimit (greatest - least + 1).toNat draw32 x).1 <
        (greatest - least + 1).toNat := scaleDraw_lt draw32_lt (by omega) x
    change least ≤ least + (scaleDraw halfLimit (greatest - least + 1).toNat draw32 x).1 ∧
      least + (scaleDraw halfLimit (greatest - least + 1).toNat draw32 x).1 ≤ greatest
    omega

end Xoshiro

end PositionCache
