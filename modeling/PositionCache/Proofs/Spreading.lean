import PositionCache.Proofs.Upkeep

/-!
# Keys are spread evenly

The key space is cut into an interval for each cluster, in their order.
-/

namespace PositionCache

/-! ## Where a share begins -/

/-- The first number that falls to share `i` of so many shares of all words. -/
def firstOfShare (shares i : Nat) : Nat := (i * wordLimit) ⌈/⌉ shares

section Shares

variable {n : Nat}

theorem ceilDiv_le_succ_div (positive : 0 < n) (m : Nat) : m ⌈/⌉ n ≤ m / n + 1 := by
  rw [ceilDiv_le_iff_le_mul positive]
  exact (Nat.lt_mul_div_succ m positive).le

theorem firstOfShare_le_iff (positive : 0 < n) {i k : Nat} :
    firstOfShare n i ≤ k ↔ i ≤ k * n / wordLimit := by
  rw [firstOfShare, ceilDiv_le_iff_le_mul positive, Nat.le_div_iff_mul_le (by decide), Nat.mul_comm n]

theorem share_eq_iff (positive : 0 < n) {i k : Nat} :
    k * n / wordLimit = i ↔ firstOfShare n i ≤ k ∧ k < firstOfShare n (i + 1) := by
  have next := firstOfShare_le_iff positive (i := i + 1) (k := k)
  rw [firstOfShare_le_iff positive]
  omega

theorem firstOfShare_le (positive : 0 < n) {i : Nat} (le : i ≤ n) : firstOfShare n i ≤ wordLimit := by
  rw [firstOfShare, ceilDiv_le_iff_le_mul positive]
  exact Nat.mul_le_mul_right wordLimit le

theorem firstOfShare_succ_le (positive : 0 < n) (i : Nat) :
    firstOfShare n (i + 1) ≤ firstOfShare n i + wordLimit ⌈/⌉ n := by
  have here : i * wordLimit ≤ n * firstOfShare n i := le_smul_ceilDiv positive
  have share : wordLimit ≤ n * (wordLimit ⌈/⌉ n) := le_smul_ceilDiv positive
  rw [firstOfShare, ceilDiv_le_iff_le_mul positive, Nat.mul_add, Nat.add_one_mul]
  exact Nat.add_le_add here share

theorem le_firstOfShare_succ (positive : 0 < n) (i : Nat) :
    firstOfShare n i + wordLimit / n ≤ firstOfShare n (i + 1) := by
  have next : (i + 1) * wordLimit ≤ n * firstOfShare n (i + 1) := le_smul_ceilDiv positive
  have share := Nat.mul_div_le wordLimit n
  rw [Nat.add_one_mul] at next
  have enough : wordLimit / n ≤ firstOfShare n (i + 1) :=
    Nat.le_of_mul_le_mul_left (by omega) positive
  apply Nat.add_le_of_le_sub enough
  rw [firstOfShare, ceilDiv_le_iff_le_mul positive, Nat.mul_sub]
  omega

theorem length_share (positive : 0 < n) (i : Nat) :
    firstOfShare n (i + 1) - firstOfShare n i = wordLimit / n ∨
      firstOfShare n (i + 1) - firstOfShare n i = wordLimit ⌈/⌉ n := by
  have least := le_firstOfShare_succ positive i
  have greatest := firstOfShare_succ_le positive i
  have close := ceilDiv_le_succ_div positive wordLimit
  omega

end Shares

/-! ## The keys of a cluster -/

namespace Table

variable {t : Table}

def keysOf (t : Table) (i : Nat) : Set UInt64 := {key | t.clusterIndex key = i}

theorem clusterIndex_eq_iff (positive : 0 < t.clusterCount) {key : UInt64} {i : Nat} :
    t.clusterIndex key = i ↔ firstOfShare t.clusterCount i ≤ key.toNat ∧
      key.toNat < firstOfShare t.clusterCount (i + 1) := by
  rw [clusterIndex_eq, share_eq_iff positive]

theorem clusterIndex_mono (t : Table) {key key' : UInt64} (le : key ≤ key') :
    t.clusterIndex key ≤ t.clusterIndex key' := by
  rw [clusterIndex_eq, clusterIndex_eq]
  exact Nat.div_le_div_right (Nat.mul_le_mul_right _ (UInt64.le_iff_toNat_le.1 le))

theorem toNat_image_keysOf (positive : 0 < t.clusterCount) {i : Nat} (below : i < t.clusterCount) :
    UInt64.toNat '' t.keysOf i = Finset.Ico (firstOfShare t.clusterCount i)
      (firstOfShare t.clusterCount (i + 1)) := by
  ext k
  simp only [Set.mem_image, keysOf, Set.mem_ofPred_eq, clusterIndex_eq_iff positive, Finset.coe_Ico,
    Set.mem_Ico]
  constructor
  · rintro ⟨key, here, rfl⟩
    exact here
  · rintro ⟨least, less⟩
    have word : k < wordLimit := less.trans_le (firstOfShare_le positive below)
    have same : (UInt64.ofNat k).toNat = k := UInt64.toNat_ofNat_of_lt' word
    exact ⟨UInt64.ofNat k, by rw [same]; exact ⟨least, less⟩, same⟩

theorem ncard_keysOf (positive : 0 < t.clusterCount) {i : Nat} (below : i < t.clusterCount) :
    (t.keysOf i).ncard =
      firstOfShare t.clusterCount (i + 1) - firstOfShare t.clusterCount i := by
  have injective : Function.Injective UInt64.toNat := fun _ _ => UInt64.toNat_inj.1
  rw [← Set.ncard_image_of_injective _ injective, toNat_image_keysOf positive below,
    Set.ncard_coe_finset, Nat.card_Ico]

theorem ncard_keysOf_eq (positive : 0 < t.clusterCount) {i : Nat} (below : i < t.clusterCount) :
    (t.keysOf i).ncard = wordLimit / t.clusterCount ∨
      (t.keysOf i).ncard = wordLimit ⌈/⌉ t.clusterCount := by
  rw [ncard_keysOf positive below]
  exact length_share positive i

theorem ncard_keysOf_bounds (positive : 0 < t.clusterCount) {i : Nat} (below : i < t.clusterCount) :
    wordLimit / t.clusterCount ≤ (t.keysOf i).ncard ∧
      (t.keysOf i).ncard ≤ wordLimit / t.clusterCount + 1 := by
  have least := le_firstOfShare_succ positive i
  have greatest := firstOfShare_succ_le positive i
  have close := ceilDiv_le_succ_div positive wordLimit
  rw [ncard_keysOf positive below]
  omega

theorem keysOf_nonempty (positive : 0 < t.clusterCount) (fewer : t.clusterCount ≤ wordLimit) {i : Nat}
    (below : i < t.clusterCount) : (t.keysOf i).Nonempty := by
  have least := (ncard_keysOf_bounds positive below).1
  have one := Nat.div_pos fewer positive
  exact Set.nonempty_of_ncard_ne_zero (one.trans_le least).ne'

/-- A size is counted in clusters exactly if it is not 0 and below 2⁴⁴, and no bit of the bytes is
lost then. The cluster of a key is the whole part of the key's fraction of all keys, in clusters. It
never falls as the key grows, and a cluster's keys are an interval from its fraction, rounded up, to
that of the next. These intervals all have the length of an even share, rounded down or up, which is
one key at least. -/
theorem keys_spread_evenly (mb : Nat) :
    ((∃ count, clusterCountFor mb = .ok count) ↔ 1 ≤ mb ∧ mb < 2 ^ 44) ∧
      ∀ t : Table, clusterCountFor mb = .ok t.clusterCount →
        t.clusterCount = 32768 * mb ∧ mb * unitBytes < 2 ^ 64 ∧
        mb * unitBytes = t.clusterCount * clusterBytes ∧
        (∀ key, t.clusterIndex key = key.toNat * t.clusterCount / 2 ^ 64 ∧
          t.clusterIndex key < t.clusterCount) ∧
        (∀ key key', key ≤ key' → t.clusterIndex key ≤ t.clusterIndex key') ∧
        ∀ i < t.clusterCount,
          (∀ key, t.clusterIndex key = i ↔ (i * 2 ^ 64) ⌈/⌉ t.clusterCount ≤ key.toNat ∧
            key.toNat < ((i + 1) * 2 ^ 64) ⌈/⌉ t.clusterCount) ∧
          ((t.keysOf i).ncard = 2 ^ 64 / t.clusterCount ∨
            (t.keysOf i).ncard = 2 ^ 64 ⌈/⌉ t.clusterCount) ∧
          (∃ key, t.clusterIndex key = i) ∧
          ∀ j < t.clusterCount, (t.keysOf i).ncard ≤ (t.keysOf j).ncard + 1 := by
  have words : 2 ^ 64 = wordLimit := by norm_num [wordLimit]
  rw [words]
  constructor
  · simp only [clusterCountFor_eq_ok_iff]
    constructor
    · rintro ⟨count, least, less, -⟩
      exact ⟨least, less⟩
    · rintro ⟨least, less⟩
      exact ⟨_, least, less, rfl⟩
  · intro t counted
    obtain ⟨least, less, count⟩ := clusterCountFor_eq_ok_iff.1 counted
    have positive : 0 < t.clusterCount := by omega
    have fewer : t.clusterCount ≤ wordLimit := by omega
    obtain ⟨bytes, -, word⟩ := bytes_of_counted counted
    refine ⟨count, word, bytes.symm, ?_, fun _ _ => t.clusterIndex_mono, ?_⟩
    · intro key
      exact ⟨t.clusterIndex_eq key, clusterIndex_lt_clusterCount positive key⟩
    · intro i below
      refine ⟨fun key => clusterIndex_eq_iff positive, ncard_keysOf_eq positive below,
        keysOf_nonempty positive fewer below, ?_⟩
      intro j other
      have here := (ncard_keysOf_bounds positive below).2
      have there := (ncard_keysOf_bounds positive other).1
      omega

theorem keys_spread_evenly_three :
    clusterCountFor 3 = .ok 98304 ∧
      let t := anew ⟨3, 1, false⟩ 98304
      (t.clusterIndex 187649984473770 = 0 ∧ t.clusterIndex 187649984473771 = 1) ∧
        (t.clusterIndex 562949953421311 = 2 ∧ t.clusterIndex 562949953421312 = 3) ∧
        ∀ j < 98304, (t.keysOf j).ncard = 187649984473770 ∨
          (t.keysOf j).ncard = 187649984473771 := by
  have counted : clusterCountFor 3 = .ok 98304 := by decide
  obtain ⟨-, -, -, -, -, even⟩ := (keys_spread_evenly 3).2 (anew ⟨3, 1, false⟩ 98304) counted
  have index (i : Nat) (below : i < 98304) := (even i below).1
  simp only [anew, Nat.ceilDiv_eq_add_pred_div] at index even
  refine ⟨counted, ⟨(index 0 (by decide) _).2 ?_, (index 1 (by decide) _).2 ?_⟩,
    ⟨(index 2 (by decide) _).2 ?_, (index 3 (by decide) _).2 ?_⟩, ?_⟩
  · decide
  · decide
  · decide
  · decide
  · intro j below
    exact (even j below).2.1

end Table

end PositionCache
