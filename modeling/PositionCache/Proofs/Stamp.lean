import Mathlib
import PositionCache.Stamp

/-!
# What can be read back from a stamp

The two marks depend on its three low bits alone, and the generation on the others.
-/

namespace PositionCache.Stamp

/-! ## The low bits and the others -/

theorem and_or_and (a b m : UInt8) : (a ||| b) &&& m = a &&& m ||| b &&& m := by
  apply UInt8.toBitVec_inj.1
  ext i
  simp [Bool.and_or_distrib_right]

/-- The search that a generation or a stamp belongs to, modulo 32. -/
def search (s : UInt8) : Nat := s.toNat / 8

theorem search_lt (s : UInt8) : search s < 32 := by
  have := s.toNat_lt
  simp only [search]
  omega

theorem aligned_iff (g : UInt8) : Aligned g ↔ g.toNat % 8 = 0 := by
  unfold Aligned generationStep
  rw [← UInt8.toNat_inj, UInt8.toNat_and]
  exact Eq.congr_left (Nat.and_two_pow_sub_one_eq_mod _ 3)

theorem aligned_zero : Aligned 0 := by decide

theorem toNat_of_aligned {g : UInt8} (h : Aligned g) : g.toNat = 8 * search g := by
  rw [aligned_iff] at h
  simp only [search]
  omega

theorem high_bits (n : Nat) (h : n < 256) : n &&& 248 = n / 8 * 8 := by
  interval_cases n <;> rfl

theorem toNat_generation (s : Stamp) : (generation s).toNat = 8 * search s := by
  unfold generation generationMask
  rw [UInt8.toNat_and]
  have := high_bits s.toNat s.toNat_lt
  simp only [search]
  simp at this ⊢
  omega

theorem generation_eq_iff {g : UInt8} (h : Aligned g) (s : Stamp) :
    generation s = g ↔ search s = search g := by
  rw [← UInt8.toNat_inj, toNat_generation, toNat_of_aligned h]
  omega

/-! ## Packing and dating anew -/

theorem marks_pack {g : UInt8} (h : Aligned g) (pv : Bool) (b : Bound) :
    pack g pv b &&& 7 = (if pv then 4 else 0) ||| b.toBits := by
  have low : g &&& 7 = 0 := h
  unfold pack
  rw [and_or_and, and_or_and, low]
  cases pv <;> cases b <;> rfl

theorem marks_refresh {g : UInt8} (h : Aligned g) (s : Stamp) : refresh s g &&& 7 = s &&& 7 := by
  have low : g &&& 7 = 0 := h
  have seven : (7 : UInt8) &&& 7 = 7 := rfl
  rw [refresh, and_or_and, low, UInt8.zero_or, UInt8.and_assoc]
  exact congrArg (s &&& ·) seven

theorem refresh_refresh {g : UInt8} (h : Aligned g) (s : Stamp) :
    refresh (refresh s g) g = refresh s g :=
  congrArg (g ||| ·) (marks_refresh h s)

theorem isPv_congr {s t : Stamp} (h : s &&& 7 = t &&& 7) : isPv s = isPv t := by
  have four : (7 : UInt8) &&& 4 = 4 := rfl
  unfold isPv pvBit
  rw [← four, ← UInt8.and_assoc, ← UInt8.and_assoc, h]

theorem bound_congr {s t : Stamp} (h : s &&& 7 = t &&& 7) : bound s = bound t := by
  have three : (7 : UInt8) &&& 3 = 3 := rfl
  unfold bound boundMask
  rw [← three, ← UInt8.and_assoc, ← UInt8.and_assoc, h]

@[simp]
theorem isPv_pack {g : UInt8} (h : Aligned g) (pv : Bool) (b : Bound) : isPv (pack g pv b) = pv := by
  have marks : pack g pv b &&& 7 = pack 0 pv b &&& 7 := by
    rw [marks_pack h, marks_pack (by decide)]
  rw [isPv_congr marks]
  cases pv <;> cases b <;> rfl

@[simp]
theorem bound_pack {g : UInt8} (h : Aligned g) (pv : Bool) (b : Bound) :
    bound (pack g pv b) = b := by
  have marks : pack g pv b &&& 7 = pack 0 pv b &&& 7 := by
    rw [marks_pack h, marks_pack (by decide)]
  rw [bound_congr marks]
  cases pv <;> cases b <;> rfl

@[simp]
theorem isPv_refresh {g : UInt8} (h : Aligned g) (s : Stamp) : isPv (refresh s g) = isPv s :=
  isPv_congr (marks_refresh h s)

@[simp]
theorem bound_refresh {g : UInt8} (h : Aligned g) (s : Stamp) : bound (refresh s g) = bound s :=
  bound_congr (marks_refresh h s)

theorem search_of_high {s g : UInt8} (h : Aligned g) (high : s &&& 248 = g &&& 248) :
    search s = search g := by
  have gen : generation s = generation g := high
  have self : generation g = g := (generation_eq_iff h g).2 rfl
  exact (generation_eq_iff h s).1 (gen.trans self)

@[simp]
theorem search_pack {g : UInt8} (h : Aligned g) (pv : Bool) (b : Bound) :
    search (pack g pv b) = search g := by
  have cleared : ((if pv then pvBit else 0) ||| b.toBits) &&& 248 = 0 := by
    cases pv <;> cases b <;> rfl
  apply search_of_high h
  unfold pack
  rw [UInt8.or_assoc, and_or_and, cleared, UInt8.or_zero]

@[simp]
theorem search_refresh {g : UInt8} (h : Aligned g) (s : Stamp) :
    search (refresh s g) = search g := by
  have cleared : (generationStep - 1) &&& 248 = 0 := rfl
  apply search_of_high h
  rw [refresh, and_or_and, UInt8.and_assoc, cleared, UInt8.and_zero, UInt8.or_zero]

theorem generation_pack {g : UInt8} (h : Aligned g) (pv : Bool) (b : Bound) :
    generation (pack g pv b) = g :=
  (generation_eq_iff h _).2 (search_pack h pv b)

theorem generation_refresh {g : UInt8} (h : Aligned g) (s : Stamp) :
    generation (refresh s g) = g :=
  (generation_eq_iff h _).2 (search_refresh h s)

/-! ## Ages and searches -/

theorem age_eq {g : UInt8} (h : Aligned g) (s : Stamp) :
    age s g = (search g + 32 - search s) % 32 := by
  have hs := s.toNat_lt
  have hg := toNat_of_aligned h
  have := search_lt g
  simp only [age, fullTurn, generationStep, search] at *
  simp
  omega

theorem age_eq_zero_iff {g : UInt8} (h : Aligned g) (s : Stamp) : age s g = 0 ↔ generation s = g := by
  have := search_lt s
  have := search_lt g
  rw [age_eq h, generation_eq_iff h]
  omega

theorem age_le (s : Stamp) (g : UInt8) : age s g ≤ 31 := by
  simp only [age]
  omega

theorem aligned_succ {g : UInt8} (h : Aligned g) : Aligned (g + generationStep) := by
  rw [aligned_iff] at h ⊢
  simp only [generationStep, UInt8.toNat_add]
  simp
  omega

theorem search_succ {g : UInt8} (h : Aligned g) :
    search (g + generationStep) = (search g + 1) % 32 := by
  have := toNat_of_aligned h
  have := search_lt g
  simp only [search, generationStep, UInt8.toNat_add]
  simp
  omega

end PositionCache.Stamp
