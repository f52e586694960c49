import PositionCache.Proofs.Occupancy
import PositionCache.Proofs.Renewal

/-!
# Where faults come from

Only a write faults, and exactly if its record or its generation does not fit a slot.
-/

namespace PositionCache

/-! ## Findings that should be written -/

theorem Depth.storable_iff {d : Int} : Storable d ↔ -6 ≤ d ∧ d ≤ 248 := Iff.rfl

theorem Depth.not_storable_iff {d : Int} : ¬ Storable d ↔ d < -6 ∨ 248 < d := by
  rw [storable_iff]
  omega

/-- Over a depth that can be stored, all sums stay far below the greatest depth word. -/
theorem Entry.shouldYield_of_storable {d : Int} (h : Depth.Storable d) (e : Entry) (tag : UInt16)
    (isPv : Bool) (bound : Bound) (g : UInt8) :
    e.shouldYield tag isPv bound d g = .ok (decide (bound = .exact ∨ tag ≠ e.tag ∨
      (e.depthByte.toNat : Int) - 4 < d + 7 + (if isPv then 2 else 0) ∨ e.age g ≠ 0)) := by
  rw [Depth.storable_iff] at h
  have distance : (d : Int) - Depth.offset = d + 7 := rfl
  have fits : ¬ depthLimit < d + 7 := by
    change ¬ (2147483647 : Int) < d + 7
    omega
  have bonusFits : ¬ depthLimit < d + 7 + if isPv then 2 else 0 := by
    change ¬ (2147483647 : Int) < d + 7 + if isPv then 2 else 0
    split_ifs <;> omega
  unfold shouldYield
  simp only [distance, if_neg fits]
  by_cases given : bound = .exact ∨ tag ≠ e.tag
  · rw [if_pos given, decide_eq_true (or_assoc.1 (Or.inl given))]
  · rw [if_neg given, if_neg bonusFits]
    simp only [not_or] at given
    simp only [given.1, given.2, false_or]

/-! ## Sums and products -/

theorem Entry.worth_bounds {e : Entry} (h : e.isOccupied = true) (g : UInt8) :
    -247 ≤ e.worth g ∧ e.worth g ≤ 255 := by
  have young : e.age g ≤ 31 := Stamp.age_le e.stamp g
  have positive := (isOccupied_iff e).1 h
  have byte := e.depthByte.toNat_lt
  rw [worth, if_pos h, ageWeight]
  omega

namespace Table

variable {t : Table}

theorem Backed.clusterCount_eq (h : t.Backed) :
    t.clusterCount = 32768 * t.sizeMb ∧ 32768 ≤ t.clusterCount ∧
      t.clusterCount * 32 < wordLimit := by
  obtain ⟨positive, small, count⟩ := clusterCountFor_eq_ok_iff.1 h.counted
  change 1 ≤ t.sizeMb at positive
  change t.sizeMb < 2 ^ 44 at small
  change t.clusterCount = 32768 * t.sizeMb at count
  rw [wordLimit]
  omega

theorem length_sample (sound : t.Sound) : t.sample.length = min sampleLimit t.clusterCount * 3 := by
  rw [sample_eq sound, List.length_map, length_sampledSlots]

/-- Keys are scaled in 128 bits, ages in 16, worths in 32 with a sign, and counts in 64. -/
structure WithinWords (t : Table) : Prop where
  scaled (key : UInt64) : key.toNat * t.clusterCount < wordLimit * wordLimit
  aged (w : Writer) (g : UInt8) : (t.look w).stamp.toNat ≤ Stamp.fullTurn + g.toNat ∧
    Stamp.fullTurn + g.toNat < 0x10000 ∧ (t.look w).age g ≤ 31
  weighed (w : Writer) (g : UInt8) : (t.look w).isOccupied = true →
    -247 ≤ (t.look w).worth g ∧ (t.look w).worth g ≤ 255
  counted (accepts : Entry → Bool) : t.sample.countP accepts * 1000 < wordLimit ∧
    min sampleLimit t.clusterCount * Cluster.size < wordLimit

theorem Reachable.withinWords (reachable : t.Reachable) : t.WithinWords where
  scaled key := by
    have bytes := reachable.backed.clusterCount_eq.2.2
    have count : t.clusterCount < wordLimit := by omega
    exact Nat.mul_lt_mul'' key.toNat_lt count
  aged w g := by
    have stamp := (t.look w).stamp.toNat_lt
    have generation := g.toNat_lt
    refine ⟨?_, ?_, Stamp.age_le _ g⟩
    · rw [Stamp.fullTurn]
      omega
    · rw [Stamp.fullTurn]
      omega
  weighed w g used := Entry.worth_bounds used g
  counted accepts := by
    have counted : t.sample.countP accepts ≤ t.sample.length := List.countP_le_length
    have sampled : min sampleLimit t.clusterCount ≤ 1000 := Nat.min_le_left _ _
    rw [length_sample reachable.sound] at counted
    simp only [Cluster.size, wordLimit]
    omega

/-! ## Calls -/

theorem cluster_ok (sound : t.Sound) (key : UInt64) :
    t.cluster key = .ok (t.row (t.clusterIndex key)) := by
  have inside := sound.clusterIndex_lt key
  simp only [Table.cluster, dif_pos inside, row_eq_getElem inside]

theorem firstEntry_ok (sound : t.Sound) (key : UInt64) :
    t.firstEntry key = .ok (t.look ⟨t.clusterIndex key, 0⟩) := by
  rw [firstEntry, cluster_ok sound]
  rfl

theorem prefetch_ok (sound : t.Sound) (key : UInt64) : t.prefetch key = .ok () := by
  rw [prefetch, cluster_ok sound]
  rfl

theorem perMille_ok (sound : t.Sound) (accepts : Entry → Bool) :
    ∃ share ≤ 1000, t.perMille accepts = .ok share := by
  refine ⟨_, ?_, perMille_eq sound accepts⟩
  exact Nat.div_le_of_le_mul (Nat.mul_le_mul_right _ List.countP_le_length)

theorem hashfull_ok (sound : t.Sound) : ∃ share ≤ 1000, t.hashfull = .ok share := by
  unfold hashfull
  exact perMille_ok sound _

theorem hashfullWithAge_ok (sound : t.Sound) (maxAge : Nat) :
    ∃ share ≤ 1000, t.hashfullWithAge maxAge = .ok share := by
  unfold hashfullWithAge
  exact perMille_ok sound _

theorem shouldOverwrite_of_storable {w : Writer} (inside : w.cluster < t.clusters.size) {d : Int}
    (h : Depth.Storable d) (key : UInt64) (isPv : Bool) (bound : Bound) (g : UInt8) :
    t.shouldOverwrite w key isPv bound d g = .ok (decide (bound = .exact ∨
      tagOf key ≠ (t.look w).tag ∨
      ((t.look w).depthByte.toNat : Int) - 4 < d + 7 + (if isPv then 2 else 0) ∨
      (t.look w).age g ≠ 0)) := by
  rw [shouldOverwrite, entry_eq_look inside]
  exact Entry.shouldYield_of_storable h _ _ _ _ _

theorem write_faults_iff {w : Writer} (inside : w.cluster < t.clusters.size) (key : UInt64)
    (r : Record) (g : UInt8) :
    ((∃ fault, (t.write w key r g).1 = .error fault) ↔ ¬ Entry.Fits r g) ∧
      (¬ Entry.Fits r g → (t.write w key r g).2 = t) := by
  by_cases fits : Entry.Fits r g
  · simp [write_of_fits inside fits, fits]
  · obtain ⟨fault, refused⟩ := write_of_refused (t := t) (w := w) (fun takes => fits takes.2) key
    simp [refused, fits]

end Table

/-! ## Careful searches -/

/-- Writes take depths that can be stored and the generation of the table, and advice is asked for
such depths only. -/
def Rule.careful : Rule := fun _ t call =>
  match call with
  | .write _ _ r g => Depth.Storable r.depth ∧ g = t.generation
  | .shouldOverwrite _ _ _ _ d _ => Depth.Storable d
  | _ => True

theorem Call.perform_ok {t : Table} (sound : t.Sound) {log : Log} {c : Call}
    (handedOut : ∀ w, log.HandedOut w → w.cluster < t.clusters.size) (bound : c.Bound log)
    (careful : Rule.careful log t c) : ∃ a, (c.perform t).1 = .ok a := by
  cases c with
  | probe key =>
    obtain ⟨p, answered, -⟩ := Table.probe_spec sound key
    exact ⟨.probed p, by simp [perform, answered]⟩
  | write w key r g =>
    obtain ⟨storable, rfl⟩ := careful
    have written := Table.write_of_fits (handedOut w bound) ⟨storable, sound.aligned⟩ key
    exact ⟨.done, by simp [perform, written]⟩
  | shouldOverwrite w key isPv b d g =>
    have given := Table.shouldOverwrite_of_storable (handedOut w bound) careful key isPv b g
    exact ⟨.advice _, by rw [perform, given]; rfl⟩
  | newSearch => exact ⟨.done, rfl⟩
  | hashfull =>
    obtain ⟨share, -, counted⟩ := Table.hashfull_ok sound
    exact ⟨.share share, by simp [perform, counted]⟩
  | hashfullWithAge maxAge =>
    obtain ⟨share, -, counted⟩ := Table.hashfullWithAge_ok sound maxAge
    exact ⟨.share share, by simp [perform, counted]⟩
  | prefetch key => exact ⟨.done, by simp [perform, Table.prefetch_ok sound]⟩

theorem Run.answered {start t : Table} {log : Log} (sound : start.Sound)
    (run : Run .careful start log t) : ∀ e ∈ log, ∃ a, e.answer = .ok a := by
  refine (run.invariant (fun log _ => ∀ e ∈ log, ∃ a, e.answer = .ok a) sound
    (List.forall_mem_nil _) ?_).2
  intro log t c earlier now answered bound careful _ e member
  rcases List.mem_cons.1 member with rfl | old
  · apply Call.perform_ok now _ bound careful
    rintro w ⟨key, p, probed, rfl⟩
    rw [earlier.cluster_of_probed sound probed, ← earlier.clusterIndex_eq sound]
    exact now.clusterIndex_lt key
  · exact answered e old

/-- In a table that can come to be, the storage has 32768 clusters for each unit of size and there
is one at least. Every probe, every other lookup and every estimate answers, and so does the advice
on a depth that can be stored. A write faults exactly if its depth cannot be stored or its generation
has a low bit set, and then it changes nothing. Careful searches never fault. -/
theorem faults_only_of_unfit_writes {t : Table} (reachable : t.Reachable) :
    (t.clusters.size = t.clusterCount ∧ t.clusterCount = 32768 * t.sizeMb ∧
        32768 ≤ t.clusterCount ∧ t.generation.toNat % 8 = 0) ∧
      t.WithinWords ∧
      (∀ key, t.clusterIndex key < t.clusters.size ∧
        (∃ p, (t.probe key).1 = .ok p ∧ p.writer.cluster = t.clusterIndex key) ∧
        t.firstEntry key = .ok (t.look ⟨t.clusterIndex key, 0⟩) ∧ t.prefetch key = .ok ()) ∧
      (∃ share ≤ 1000, t.hashfull = .ok share) ∧
      (∀ maxAge, ∃ share ≤ 1000, t.hashfullWithAge maxAge = .ok share) ∧
      (∀ w key, w.cluster < t.clusterCount →
        (∀ isPv bound g (d : Int), -6 ≤ d → d ≤ 248 →
          ∃ advice, t.shouldOverwrite w key isPv bound d g = .ok advice) ∧
        ∀ (r : Record) g, ((∃ fault, (t.write w key r g).1 = .error fault) ↔
            (r.depth : Int) < -6 ∨ 248 < (r.depth : Int) ∨ g.toNat % 8 ≠ 0) ∧
          ((∃ fault, (t.write w key r g).1 = .error fault) → (t.write w key r g).2 = t)) ∧
      ∀ log after, Run .careful t log after → ∀ e ∈ log, ∃ a, e.answer = .ok a := by
  have sound := reachable.sound
  obtain ⟨count, positive, -⟩ := reachable.backed.clusterCount_eq
  refine ⟨⟨sound.size, count, positive, (Stamp.aligned_iff _).1 sound.aligned⟩,
    reachable.withinWords, ?_, Table.hashfull_ok sound, Table.hashfullWithAge_ok sound, ?_,
    fun _ _ => Run.answered sound⟩
  · intro key
    obtain ⟨p, answered, outcome⟩ := Table.probe_spec sound key
    have cluster := outcome.elim Table.Hit.cluster Table.Miss.cluster
    exact ⟨sound.clusterIndex_lt key, ⟨p, answered, cluster⟩, Table.firstEntry_ok sound key,
      Table.prefetch_ok sound key⟩
  · intro w key inside
    rw [← sound.size] at inside
    refine ⟨?_, ?_⟩
    · intro isPv bound g d least greatest
      exact ⟨_, Table.shouldOverwrite_of_storable inside ⟨least, greatest⟩ key isPv bound g⟩
    · intro r g
      obtain ⟨faults, unchanged⟩ := Table.write_faults_iff inside key r g
      have unfit : ¬ Entry.Fits r g ↔
          (r.depth : Int) < -6 ∨ 248 < (r.depth : Int) ∨ g.toNat % 8 ≠ 0 := by
        rw [Entry.Fits, not_and_or, Depth.not_storable_iff, or_assoc, Stamp.aligned_iff]
      exact ⟨faults.trans unfit, fun fault => unchanged (faults.1 fault)⟩

theorem faults_only_of_unfit_writes_too_deep :
    oneFinding.Reachable ∧ 0 < oneFinding.clusterCount ∧
      (∃ fault, (oneFinding.write ⟨0, 0⟩ 9 { shallowFinding with depth := 300 } 0).1 =
        .error fault) ∧
      (oneFinding.write ⟨0, 0⟩ 9 { shallowFinding with depth := 300 } 0).2 = oneFinding ∧
      ∃ log after, Run .careful oneFinding log after ∧ log.map Event.call = [.hashfull, .probe 9] ∧
        ∀ e ∈ log, ∃ a, e.answer = .ok a := by
  obtain ⟨⟨-, -, positive, -⟩, -, -, -, -, writers, careful⟩ :=
    faults_only_of_unfit_writes oneFinding_reachable
  have nonempty : 0 < oneFinding.clusterCount := by omega
  obtain ⟨faults, unchanged⟩ := (writers ⟨0, 0⟩ 9 nonempty).2 { shallowFinding with depth := 300 } 0
  have fault := faults.2 (.inr (.inl (by decide)))
  have run : Run .careful oneFinding _ _ :=
    (Run.start.call (.probe 9) trivial trivial).call .hashfull trivial trivial
  exact ⟨oneFinding_reachable, nonempty, fault, unchanged fault, _, _, run, rfl, careful _ _ run⟩

end PositionCache
