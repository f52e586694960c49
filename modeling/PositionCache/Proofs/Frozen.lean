import PositionCache.Workload.Collision
import PositionCache.Proofs.Draws
import PositionCache.Proofs.Estimates

/-!
# Measuring false hits leaves the table as it was

A table that was only filled is in its first generation, so a probe dates no slot anew.
-/

namespace PositionCache

/-! ## Entries of the present -/

theorem Stamp.refresh_generation (s : Stamp) : refresh s (generation s) = s := by
  have all : generationMask ||| (generationStep - 1) = 255 := rfl
  rw [refresh, generation, UInt8.and_comm s, UInt8.and_comm s, ← and_or_and, all]
  exact UInt8.neg_one_and

theorem Entry.refresh_of_current {e : Entry} {g : UInt8} (h : Stamp.generation e.stamp = g) :
    e.refresh g = e := by
  rw [refresh, ← h, Stamp.refresh_generation]

theorem Cluster.set_get (c : Cluster) (s : Slot) : c.set s (c.get s) = c := by
  match s with
  | 0 | 1 | 2 => rfl

namespace Table

variable {t : Table}

theorem put_look {w : Writer} (inside : w.cluster < t.clusters.size) : t.put w (t.look w) = t := by
  simp [put, look, Cluster.set_get, row_eq_getElem inside, Array.setIfInBounds, inside]

/-- No slot in use was last used in another search. -/
structure Current (t : Table) : Prop where
  sound : t.Sound
  dated : ∀ w, (t.look w).isOccupied = true → Stamp.generation (t.look w).stamp = t.generation

theorem Blank.current (h : t.Blank) : t.Current where
  sound := h.sound
  dated w used := by
    rw [h.look] at used
    exact absurd used Bool.false_ne_true

def HasTag (t : Table) (key : UInt64) : Prop :=
  ∃ s, (t.look ⟨t.clusterIndex key, s⟩).isOccupied = true ∧
    (t.look ⟨t.clusterIndex key, s⟩).tag.toNat = key.toNat % 65536

instance (t : Table) (key : UInt64) : Decidable (t.HasTag key) :=
  inferInstanceAs (Decidable (∃ _, _))

theorem hasTag_iff (t : Table) (key : UInt64) :
    t.HasTag key ↔ ∃ s, (t.look ⟨t.clusterIndex key, s⟩).Holds (tagOf key) := by
  have same (e : Entry) : e.tag = tagOf key ↔ e.tag.toNat = key.toNat % 65536 := by
    rw [← UInt16.toNat_inj, tagOf, UInt64.toNat_toUInt16]
  simp only [HasTag, Entry.Holds, same, and_comm]

theorem Blank.not_hasTag (h : t.Blank) (key : UInt64) : ¬ t.HasTag key := by
  rintro ⟨s, used, -⟩
  rw [h.look] at used
  exact Bool.false_ne_true used

theorem Current.probe (h : t.Current) (key : UInt64) :
    ∃ p, t.probe key = (.ok p, t) ∧ p.writer.cluster < t.clusters.size ∧
      (p.found = true ↔ t.HasTag key) := by
  obtain ⟨p, answered, outcome⟩ := probe_spec h.sound key
  have inside := h.sound.writer_inside outcome
  refine ⟨p, Prod.ext answered ?_, inside, (found_iff outcome).trans (t.hasTag_iff key).symm⟩
  rcases outcome with hit | miss
  · rw [hit.refreshed, Entry.refresh_of_current (h.dated _ hit.holds.2), put_look inside]
  · exact miss.unchanged

theorem Current.write (h : t.Current) {w : Writer} (inside : w.cluster < t.clusters.size)
    (key : UInt64) {r : Record} (storable : Depth.Storable r.depth) :
    ∃ after, t.write w key r t.generation = (.ok (), after) ∧ after.Current ∧
      after.clusterCount = t.clusterCount := by
  have used := Entry.isOccupied_overwrite storable (t.look w) (tagOf key) t.generation
  refine ⟨_, write_of_fits inside ⟨storable, h.sound.aligned⟩ key, ⟨?_, ?_⟩, rfl⟩
  · exact h.sound.put inside (.of_isOccupied used)
  · intro v
    rw [look_put inside]
    split_ifs
    · exact fun _ => Stamp.generation_pack h.sound.aligned _ _
    · exact h.dated v

/-! ## Occupancy -/

theorem Current.age_eq_zero (h : t.Current) {w : Writer} (used : (t.look w).isOccupied = true) :
    (t.look w).age t.generation = 0 :=
  (Stamp.age_eq_zero_iff h.sound.aligned _).2 (h.dated w used)

theorem Current.hashfullWithAge (h : t.Current) (large : 1000 ≤ t.clusterCount) (maxAge : Nat) :
    t.hashfullWithAge maxAge = .ok (((List.range 1000).map fun c => (t.row c).used).sum / 3) := by
  rw [hashfullWithAge_eq h.sound large, young_of_used large]
  intro w used
  rw [h.age_eq_zero used]
  exact Nat.zero_le _

theorem Current.hashfull (h : t.Current) (large : 1000 ≤ t.clusterCount) :
    t.hashfull = .ok (((List.range 1000).map fun c => (t.row c).used).sum / 3) := by
  rw [hashfull_eq h.sound, h.hashfullWithAge large]

end Table

namespace Collision

variable {σ : Type} [RandomSource σ]

def drawnKeys : Nat → σ → List UInt64
  | 0, _ => []
  | count + 1, s => (RandomSource.word s).1 :: drawnKeys count (RandomSource.word s).2

theorem measure_eq {t : Table} (h : t.Current) (count hits : Nat) (s : σ) :
    ∃ rest, measure count hits t s =
      .ok (hits + (drawnKeys count s).countP (t.HasTag ·), t, rest) := by
  induction count generalizing hits s with
  | zero => exact ⟨s, rfl⟩
  | succ count ih =>
    obtain ⟨p, probed, -, found⟩ := h.probe (RandomSource.word s).1
    obtain ⟨rest, measured⟩ := ih (if p.found then hits + 1 else hits) (RandomSource.word s).2
    refine ⟨rest, ?_⟩
    simp only [measure, probed, measured, drawnKeys, List.countP_cons, ← found, decide_eq_true_eq]
    split_ifs
    · rw [Nat.add_right_comm, Nat.add_assoc]
    · rw [Nat.add_zero]

variable [LawfulRandomSource σ]

theorem fill_current {t : Table} (h : t.Current) (count : Nat) (s : σ) :
    ∃ after rest, fill count t s = .ok (after, rest) ∧ after.Current ∧
      after.clusterCount = t.clusterCount := by
  induction count generalizing t s with
  | zero => exact ⟨t, s, rfl, h, rfl⟩
  | succ count ih =>
    obtain ⟨p, probed, inside, -⟩ := h.probe (RandomSource.word s).1
    have drawn := LawfulRandomSource.between_mem 1 20 (RandomSource.word s).2 (by decide)
    have storable : Depth.Storable (RandomSource.between 1 20 (RandomSource.word s).2).1 :=
      Depth.storable_iff.2 ⟨by omega, by omega⟩
    obtain ⟨kept, written, current, count⟩ := h.write inside (RandomSource.word s).1
      (r := filler (RandomSource.between 1 20 (RandomSource.word s).2).1) storable
    obtain ⟨after, rest, filled, last, same⟩ := ih current
      (RandomSource.between 1 20 (RandomSource.word s).2).2
    refine ⟨after, rest, ?_, last, same.trans count⟩
    simp only [fill, probed, written]
    exact filled

end Collision

open Collision

theorem Table.Backed.writes_eq {t : Table} (h : t.Backed) {plan : Plan}
    (word : t.clusterCount * 3 * plan.fillPercent < wordLimit) :
    plan.writes t = .ok (t.clusterCount * 3 * plan.fillPercent / 100) := by
  have bytes := h.clusterCount_eq.2.2
  have slots : t.clusterCount * Cluster.size < wordLimit := by
    rw [Cluster.size]
    omega
  rw [Plan.writes, checkedProduct_eq_ok slots]
  change (checkedProduct (t.clusterCount * 3) plan.fillPercent >>= _) = _
  rw [checkedProduct_eq_ok word]
  rfl

/-- In every table that was made and then filled, all entries belong to the search of now, so both
estimates are the share of slots in use, whatever the age limit. Measuring leaves the table as it was,
and the hits are the keys whose cluster has an entry with their tag, in whatever order they come. -/
theorem measuring_is_frozen {σ : Type} [RandomSource σ] [LawfulRandomSource σ] {m : Machine}
    {s : Settings} {t : Table} (made : Table.make m s = .ok t) {plan : Plan}
    (word : t.clusterCount * 3 * plan.fillPercent < wordLimit) (source : σ) :
    ∃ count filled rest, plan.writes t = .ok count ∧
      count = t.clusterCount * 3 * plan.fillPercent / 100 ∧
      fill count t source = .ok (filled, rest) ∧
      (∀ w, (filled.look w).isOccupied = true →
        Stamp.generation (filled.look w).stamp = filled.generation) ∧
      filled.hashfull = .ok (((List.range 1000).map fun c => (filled.row c).used).sum / 3) ∧
      (∀ maxAge, filled.hashfullWithAge maxAge = filled.hashfull) ∧
      ∀ probes (draws : σ), ∃ hits rest,
        measure probes 0 filled draws = .ok (hits, filled, rest) ∧
        hits = (drawnKeys probes draws).countP (filled.HasTag ·) ∧
        (∀ others : σ, (drawnKeys probes others).Perm (drawnKeys probes draws) →
          ∃ rest, measure probes 0 filled others = .ok (hits, filled, rest)) ∧
        (count = 0 → hits = 0) := by
  have blank := Table.make_blank made
  have backed := (Table.Reachable.made made).backed
  obtain ⟨filled, rest, wrote, current, clusters⟩ :=
    fill_current blank.current (t.clusterCount * 3 * plan.fillPercent / 100) source
  have large : 1000 ≤ filled.clusterCount := by
    have := backed.clusterCount_eq.2.1
    omega
  have share := current.hashfull large
  refine ⟨_, filled, rest, backed.writes_eq word, rfl, wrote, current.dated, share, ?_, ?_⟩
  · intro maxAge
    rw [share, current.hashfullWithAge large]
  · intro probes draws
    obtain ⟨after, measured⟩ := measure_eq current probes 0 draws
    rw [Nat.zero_add] at measured
    refine ⟨_, after, measured, rfl, ?_, ?_⟩
    · intro others same
      obtain ⟨last, again⟩ := measure_eq current probes 0 others
      rw [Nat.zero_add, same.countP_eq] at again
      exact ⟨last, again⟩
    · intro zero
      rw [zero] at wrote
      obtain ⟨rfl, -⟩ := Prod.mk.inj (Except.ok.inj wrote)
      rw [List.countP_eq_zero]
      intro key _
      simp [blank.not_hasTag]

def tenthPlan : Plan where
  fillPercent := 10
  probes := 3
  seed := 1

theorem measuring_is_frozen_least :
    Table.make Table.generous ⟨1, 1, false⟩ = .ok Table.least ∧
      (∃ filled rest, tenthPlan.writes Table.least = .ok 9830 ∧
        fill 9830 Table.least (Xoshiro.ofSeed 1) = .ok (filled, rest) ∧
        filled.hashfullWithAge 7 = filled.hashfull ∧
        ∃ hits last, measure 3 0 filled rest = .ok (hits, filled, last)) ∧
      ∃ last, measure 3 0 Table.least (Xoshiro.ofSeed 1) = .ok (0, Table.least, last) := by
  have tenth : Table.least.clusterCount * 3 * tenthPlan.fillPercent < wordLimit := by decide
  obtain ⟨count, filled, rest, counted, equals, wrote, -, -, ages, frozen⟩ :=
    measuring_is_frozen Table.make_least tenth (Xoshiro.ofSeed 1)
  obtain ⟨hits, last, measured, -⟩ := frozen 3 rest
  have writes : Table.least.clusterCount * 3 * tenthPlan.fillPercent / 100 = 9830 := by decide
  rw [equals, writes] at counted wrote
  refine ⟨Table.make_least, ⟨filled, rest, counted, wrote, ages 7, hits, last, measured⟩, ?_⟩
  have nothing : Table.least.clusterCount * 3 * (⟨0, 3, 1⟩ : Plan).fillPercent < wordLimit := by
    decide
  obtain ⟨occupied, same, source, -, zero, unfilled, -, -, -, unchanged⟩ :=
    measuring_is_frozen Table.make_least nothing (Xoshiro.ofSeed 1)
  obtain ⟨hits, last, measured, -, -, missed⟩ := unchanged 3 (Xoshiro.ofSeed 1)
  obtain rfl : occupied = 0 := zero
  obtain ⟨rfl, -⟩ := Prod.mk.inj (Except.ok.inj unfilled)
  rw [missed rfl] at measured
  exact ⟨last, measured⟩

end PositionCache
