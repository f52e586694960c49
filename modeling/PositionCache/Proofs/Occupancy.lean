import PositionCache.Table.Occupancy
import PositionCache.Proofs.Table

/-! # The slots that an estimate looks at -/

namespace PositionCache

/-- The slot is in use and of no greater age. -/
def Entry.isYoung (e : Entry) (generation : UInt8) (maxAge : Nat) : Bool :=
  e.isOccupied && e.age generation ≤ maxAge

theorem Entry.isYoung_iff (e : Entry) (g : UInt8) (m : Nat) :
    e.isYoung g m = true ↔ e.isOccupied = true ∧ e.age g ≤ m := by
  rw [isYoung, Bool.and_eq_true, decide_eq_true_iff]

theorem Entry.isCurrent_eq {g : UInt8} (h : Stamp.Aligned g) (e : Entry) :
    e.isCurrent g = e.isYoung g 0 := by
  rw [Bool.eq_iff_iff, isYoung_iff, isCurrent, Bool.and_eq_true, beq_iff_eq, Nat.le_zero, age,
    Stamp.age_eq_zero_iff h]

namespace Table

variable {t : Table}

/-! ## The sample -/

/-- The slots that an estimate looks at in a table of so many clusters. -/
def sampledSlots (clusterCount : Nat) : List Writer :=
  (List.range (min sampleLimit clusterCount)).flatMap fun c =>
    (List.finRange 3).map fun s => ⟨c, s⟩

theorem mem_sampledSlots {count : Nat} {w : Writer} :
    w ∈ sampledSlots count ↔ w.cluster < min sampleLimit count := by
  simp only [sampledSlots, List.mem_flatMap, List.mem_range, List.mem_map, List.mem_finRange,
    true_and]
  constructor
  · rintro ⟨c, below, s, rfl⟩
    exact below
  · intro below
    exact ⟨w.cluster, below, w.slot, rfl⟩

theorem length_sampledSlots (count : Nat) :
    (sampledSlots count).length = min sampleLimit count * 3 := by
  simp [sampledSlots, List.length_flatMap]

theorem sample_eq (sound : t.Sound) : t.sample = (sampledSlots t.clusterCount).map t.look := by
  have enough : min sampleLimit t.clusterCount ≤ t.clusters.size := by
    rw [sound.size]
    exact Nat.min_le_right _ _
  have rows : (t.clusters.extract 0 (min sampleLimit t.clusterCount)).toList =
      (List.range (min sampleLimit t.clusterCount)).map t.row := by
    apply List.ext_getElem
    · simp [enough]
    · intro i below _
      simp at below
      simp [row_eq_getElem (show i < t.clusters.size by omega)]
  unfold sample sampledSlots
  rw [rows, List.flatMap_map, List.map_flatMap]
  rfl

theorem perMille_eq (sound : t.Sound) (accepts : Entry → Bool) :
    t.perMille accepts = .ok ((sampledSlots t.clusterCount).countP (fun w => accepts (t.look w)) *
      1000 / (sampledSlots t.clusterCount).length) := by
  have positive := sound.nonempty
  unfold perMille
  rw [if_neg, sample_eq sound, List.countP_map, length_sampledSlots]
  · rfl
  · simp only [sampleLimit, Cluster.size]
    omega

/-! ## The estimates -/

theorem hashfull_eq (sound : t.Sound) : t.hashfull = t.hashfullWithAge 0 := by
  unfold hashfull
  simp only [Entry.isCurrent_eq sound.aligned]
  rfl

def young (t : Table) (maxAge : Nat) : Nat :=
  (sampledSlots t.clusterCount).countP fun w => (t.look w).isYoung t.generation maxAge

theorem hashfullWithAge_eq (sound : t.Sound) (large : sampleLimit ≤ t.clusterCount) (maxAge : Nat) :
    t.hashfullWithAge maxAge = .ok (t.young maxAge / 3) := by
  unfold hashfullWithAge
  rw [perMille_eq sound, length_sampledSlots, Nat.min_eq_left large, Nat.mul_comm sampleLimit]
  exact congrArg Except.ok (Nat.mul_div_mul_right _ _ (by decide))

theorem young_le (large : sampleLimit ≤ t.clusterCount) (maxAge : Nat) : t.young maxAge ≤ 3000 := by
  have slots := length_sampledSlots t.clusterCount
  rw [Nat.min_eq_left large] at slots
  exact List.countP_le_length.trans slots.le

theorem young_le_young {u : Table} {m n : Nat} (sameCount : u.clusterCount = t.clusterCount)
    (h : ∀ w, (t.look w).isYoung t.generation m = true → (u.look w).isYoung u.generation n = true) :
    t.young m ≤ u.young n := by
  unfold young
  rw [sameCount]
  exact List.countP_mono_left fun w _ => h w

end Table

end PositionCache
