import PositionCache.Workload.Stress
import PositionCache.Proofs.Draws
import PositionCache.Proofs.Spreading

/-!
# Positions and their keys

Spreading a position over a key can be undone: a fold by two more, a product by an inverse factor.
-/

namespace PositionCache

/-! ## Folds and products -/

section Folds

variable {shift : UInt64}

theorem toNat_foldHigh (near : shift.toNat < 32) (x : UInt64) :
    (foldHigh shift x).toNat = x.toNat ^^^ x.toNat >>> shift.toNat := by
  have amount : shift.toNat % 64 = shift.toNat := by omega
  rw [foldHigh, UInt64.toNat_xor, UInt64.toNat_shiftRight, amount]

theorem toNat_unfoldHigh (near : shift.toNat < 32) (x : UInt64) :
    (unfoldHigh shift x).toNat =
      x.toNat ^^^ x.toNat >>> shift.toNat ^^^ x.toNat >>> (shift.toNat + shift.toNat) := by
  have amount : shift.toNat % 64 = shift.toNat := by omega
  have double : (shift + shift).toNat % 64 = shift.toNat + shift.toNat := by
    rw [UInt64.toNat_add]
    omega
  rw [unfoldHigh, UInt64.toNat_xor, UInt64.toNat_xor, UInt64.toNat_shiftRight,
    UInt64.toNat_shiftRight, amount, double]

theorem shiftRight_thrice (far : 22 ≤ shift.toNat) (x : UInt64) :
    x.toNat >>> (shift.toNat + (shift.toNat + shift.toNat)) = 0 := by
  apply Nat.shiftRight_eq_zero
  calc x.toNat < 2 ^ 64 := x.toNat_lt
    _ ≤ 2 ^ (shift.toNat + (shift.toNat + shift.toNat)) :=
      Nat.pow_le_pow_right (by decide) (by omega)

theorem unfoldHigh_foldHigh (far : 22 ≤ shift.toNat) (near : shift.toNat < 32) (x : UInt64) :
    unfoldHigh shift (foldHigh shift x) = x := by
  apply UInt64.toNat_inj.1
  rw [toNat_unfoldHigh near, toNat_foldHigh near]
  simp only [Nat.shiftRight_xor_distrib, ← Nat.shiftRight_add, shiftRight_thrice far]
  simp only [Nat.xor_assoc, Nat.xor_zero, Nat.xor_self]

theorem foldHigh_unfoldHigh (far : 22 ≤ shift.toNat) (near : shift.toNat < 32) (x : UInt64) :
    foldHigh shift (unfoldHigh shift x) = x := by
  apply UInt64.toNat_inj.1
  rw [toNat_foldHigh near, toNat_unfoldHigh near]
  simp only [Nat.shiftRight_xor_distrib, ← Nat.shiftRight_add, Nat.add_assoc,
    shiftRight_thrice far]
  simp only [Nat.xor_assoc, Nat.xor_zero, Nat.xor_self]

end Folds

theorem mul_mul_cancel {a b : UInt64} (inverse : a * b = 1) (x : UInt64) : x * a * b = x := by
  rw [UInt64.mul_assoc, inverse, UInt64.mul_one]

/-! ## Keys -/

theorem unscramble_scramble (position : UInt64) : unscramble (scramble position) = position := by
  unfold unscramble scramble
  simp only
  rw [unfoldHigh_foldHigh (by decide) (by decide), mul_mul_cancel (by decide),
    unfoldHigh_foldHigh (by decide) (by decide), mul_mul_cancel (by decide),
    unfoldHigh_foldHigh (by decide) (by decide), UInt64.add_sub_cancel]

theorem scramble_unscramble (key : UInt64) : scramble (unscramble key) = key := by
  unfold unscramble scramble
  simp only
  rw [UInt64.sub_add_cancel, foldHigh_unfoldHigh (by decide) (by decide),
    mul_mul_cancel (by decide), foldHigh_unfoldHigh (by decide) (by decide),
    mul_mul_cancel (by decide), foldHigh_unfoldHigh (by decide) (by decide)]

theorem scramble_injective : Function.Injective scramble :=
  Function.LeftInverse.injective unscramble_scramble

/-! ## Key spaces -/

def keysBelow (keySpace : UInt64) : Set UInt64 := scramble '' {position | position < keySpace}

theorem toNat_image_below (n : UInt64) :
    UInt64.toNat '' {position | position < n} = Finset.range n.toNat := by
  ext k
  simp only [Set.mem_image, Set.mem_ofPred_eq, Finset.coe_range, Set.mem_Iio]
  constructor
  · rintro ⟨position, less, rfl⟩
    exact UInt64.lt_iff_toNat_lt.1 less
  · intro less
    have same : (UInt64.ofNat k).toNat = k := UInt64.toNat_ofNat_of_lt' (less.trans n.toNat_lt)
    exact ⟨UInt64.ofNat k, UInt64.lt_iff_toNat_lt.2 (by rw [same]; exact less), same⟩

theorem ncard_keysBelow (keySpace : UInt64) : (keysBelow keySpace).ncard = keySpace.toNat := by
  have injective : Function.Injective UInt64.toNat := fun _ _ => UInt64.toNat_inj.1
  rw [keysBelow, Set.ncard_image_of_injective _ scramble_injective,
    ← Set.ncard_image_of_injective _ injective, toNat_image_below, Set.ncard_coe_finset,
    Finset.card_range]

/-! ## Draws of a generator -/

namespace Xoshiro

theorem rotateLeft_back (w : UInt64) : rotateLeft (rotateLeft w 41) 23 = w := by
  apply UInt64.toBitVec_inj.1
  apply BitVec.eq_of_getLsbD_eq
  intro i inside
  have beyond := BitVec.getLsbD_of_ge w.toBitVec (23 + (41 + i)) (by omega)
  by_cases low : i < 23
  · have within : 41 + i < 64 := by omega
    simp [rotateLeft, low, within, beyond, BitVec.getLsbD_eq_getElem inside]
  · have outside : ¬ 41 + i < 64 := by omega
    have shifted : i - 23 < 41 := by omega
    have whole : 23 + (i - 23) = i := by omega
    simp [rotateLeft, inside, low, outside, shifted, whole, beyond]

/-- A state from which the first word is the given one and the second is zero. -/
def before (word : UInt64) : Xoshiro := ⟨0, rotateLeft word 41, 0, rotateLeft word 41⟩

theorem next_before (word : UInt64) : (before word).next.1 = word := by
  have first : (before word).next.1 = rotateLeft (0 + rotateLeft word 41) 23 + 0 := rfl
  rw [first, UInt64.zero_add, UInt64.add_zero, rotateLeft_back]

theorem next_next_before (word : UInt64) : (before word).next.2.next.1 = 0 := by
  simp only [before, next, UInt64.xor_self]
  rfl

theorem scaleDraw_before (word : UInt64) (range : Nat) :
    (scaleDraw wordLimit range draw64 (before word)).1 = word.toNat * range / wordLimit := by
  have first : (draw64 (before word)).1 = word.toNat := congrArg UInt64.toNat (next_before word)
  -- The second draw is zero, so it carries nothing.
  have second : (draw64 (draw64 (before word)).2).1 = 0 :=
    congrArg UInt64.toNat (next_next_before word)
  have rest := Nat.mod_lt (word.toNat * range) (show 0 < wordLimit by decide)
  simp only [scaleDraw, first, second, Nat.zero_mul, Nat.zero_div, Nat.add_zero]
  split_ifs
  · omega
  · rfl
  · rfl

theorem below_eq (bound : UInt64) (x : Xoshiro) : (RandomSource.below bound x).1 =
    UInt64.ofNat (scaleDraw wordLimit bound.toNat draw64 x).1 := rfl

theorem exists_below {keySpace position : UInt64} (less : position < keySpace) :
    ∃ x : Xoshiro, (RandomSource.below keySpace x).1 = position := by
  have inside := UInt64.lt_iff_toNat_lt.1 less
  have nonzero : 0 < keySpace.toNat := by omega
  have fewer : keySpace.toNat ≤ wordLimit := keySpace.toNat_lt.le
  have share := le_firstOfShare_succ nonzero position.toNat
  have positive := Nat.div_pos fewer nonzero
  have last : firstOfShare keySpace.toNat (position.toNat + 1) ≤ wordLimit :=
    firstOfShare_le nonzero inside
  have word : firstOfShare keySpace.toNat position.toNat < wordLimit := by omega
  have drawn : firstOfShare keySpace.toNat position.toNat * keySpace.toNat / wordLimit =
      position.toNat := (share_eq_iff nonzero).2 ⟨le_rfl, by omega⟩
  -- The word on which the share of the position begins draws that position.
  refine ⟨before (UInt64.ofNat (firstOfShare keySpace.toNat position.toNat)), ?_⟩
  rw [below_eq, scaleDraw_before, UInt64.toNat_ofNat_of_lt' word, drawn, UInt64.ofNat_toNat]

end Xoshiro

theorem Stress.drawKey_mem {σ : Type} [RandomSource σ] [LawfulRandomSource σ] {keySpace : UInt64}
    (positive : 0 < keySpace) (s : σ) : (drawKey keySpace s).1 ∈ keysBelow keySpace :=
  ⟨_, LawfulRandomSource.below_lt keySpace s positive, rfl⟩

theorem range_drawKey {keySpace : UInt64} (positive : 0 < keySpace) :
    Set.range (fun x : Xoshiro => (Stress.drawKey keySpace x).1) = keysBelow keySpace := by
  ext key
  constructor
  · rintro ⟨x, rfl⟩
    exact Stress.drawKey_mem positive x
  · rintro ⟨position, less, rfl⟩
    obtain ⟨x, drawn⟩ := Xoshiro.exists_below less
    exact ⟨x, congrArg scramble drawn⟩

/-- Every word is the key of one position, and `unscramble` tells which. So the first positions have
as many keys as there are of them, and those are the keys that the states of a generator draw from a
key space of that size. -/
theorem positions_have_keys_of_their_own :
    (∀ position, unscramble (scramble position) = position) ∧
      (∀ key, scramble (unscramble key) = key) ∧ Function.Bijective scramble ∧
      ∀ keySpace, (keysBelow keySpace).ncard = keySpace.toNat ∧
        (0 < keySpace → Set.range (fun x : Xoshiro => (Stress.drawKey keySpace x).1) =
          keysBelow keySpace) := by
  refine ⟨unscramble_scramble, scramble_unscramble, ?_, ?_⟩
  · exact Function.bijective_iff_has_inverse.2
      ⟨unscramble, unscramble_scramble, scramble_unscramble⟩
  · intro keySpace
    exact ⟨ncard_keysBelow keySpace, range_drawKey⟩

theorem positions_have_keys_of_their_own_greatest :
    (0 : UInt64) < 0xFFFFFFFFFFFFFFFF ∧
      unscramble (scramble 0xFFFFFFFFFFFFFFFF) = 0xFFFFFFFFFFFFFFFF ∧
      (keysBelow 0xFFFFFFFFFFFFFFFF).ncard = 18446744073709551615 ∧
      Set.range (fun x : Xoshiro => (Stress.drawKey 0xFFFFFFFFFFFFFFFF x).1) =
        keysBelow 0xFFFFFFFFFFFFFFFF := by
  obtain ⟨back, -, -, spaces⟩ := positions_have_keys_of_their_own
  have positive : (0 : UInt64) < 0xFFFFFFFFFFFFFFFF := by decide
  exact ⟨positive, back _, (spaces _).1, (spaces _).2 positive⟩

end PositionCache
