import PositionCache.Proofs.Capacity
import PositionCache.Proofs.Locality
import PositionCache.Proofs.Replacement

/-!
# What the estimates tell

An estimate is a third of the number of slots, of three thousand, that are in use and no older than a
limit. A limit of 31 leaves none out.
-/

namespace PositionCache

namespace Table

variable {t u : Table} {m n : Nat}

/-! ## Counts -/

theorem countP_sampled (large : 1000 ≤ t.clusterCount) (accepts : Entry → Bool) :
    (sampledSlots t.clusterCount).countP (fun w => accepts (t.look w)) =
      ((List.range 1000).map fun c => (t.row c).toList.countP accepts).sum := by
  have limit : min sampleLimit t.clusterCount = 1000 := Nat.min_eq_left large
  rw [sampledSlots, limit, List.countP_flatMap]
  rfl

theorem young_of_used (large : 1000 ≤ t.clusterCount)
    (h : ∀ w, (t.look w).isOccupied = true → (t.look w).age t.generation ≤ m) :
    t.young m = ((List.range 1000).map fun c => (t.row c).used).sum := by
  have all (w : Writer) : (t.look w).isYoung t.generation m = (t.look w).isOccupied := by
    rw [Bool.eq_iff_iff, Entry.isYoung_iff]
    exact and_iff_left_of_imp (h w)
  unfold young
  simp only [all]
  exact countP_sampled large _

theorem FirstOnly.young_eq {c : Cluster} (only : t.FirstOnly c) (large : 1000 ≤ t.clusterCount)
    (m : Nat) : t.young m = c.toList.countP (·.isYoung t.generation m) := by
  have split : List.range 1000 = 0 :: (List.range 999).map Nat.succ := List.range_succ_eq_map
  unfold young
  rw [countP_sampled large (·.isYoung t.generation m), split, List.map_cons, List.sum_cons,
    only.first, List.sum_eq_zero, Nat.add_zero]
  intro counted member
  simp only [List.map_map, List.mem_map] at member
  obtain ⟨i, -, rfl⟩ := member
  rw [Function.comp_apply, only.others i.succ i.succ_ne_zero]
  rfl

theorem young_mono (t : Table) : Monotone t.young := by
  intro m n more
  refine young_le_young rfl fun w => ?_
  simp only [Entry.isYoung_iff]
  exact fun young => ⟨young.1, young.2.trans more⟩

theorem young_eq_iff (large : 1000 ≤ t.clusterCount) :
    t.young m = 3000 ↔ ∀ c < 1000, ∀ s, (t.look ⟨c, s⟩).isYoung t.generation m = true := by
  have limit : min sampleLimit t.clusterCount = 1000 := Nat.min_eq_left large
  have slots : (sampledSlots t.clusterCount).length = 3000 := by rw [length_sampledSlots, limit]
  rw [young, ← slots, List.countP_eq_length]
  simp only [mem_sampledSlots, limit]
  exact ⟨fun all c below s => all ⟨c, s⟩ below, fun all w below => all w.cluster below w.slot⟩

theorem young_congr (h : ∀ c < 1000, t.Agree u c) (m : Nat) : t.young m = u.young m := by
  have first := h 0 (by decide)
  unfold young
  rw [first.clusterCount, first.generation]
  apply List.countP_congr
  intro w sampled
  have below : w.cluster < 1000 :=
    (mem_sampledSlots.1 sampled).trans_le (Nat.min_le_left _ _)
  rw [(h _ below).look_of_cluster rfl]

theorem Reachable.large (reachable : t.Reachable) : 1000 ≤ t.clusterCount := by
  have count := reachable.backed.clusterCount_eq.2.1
  omega

theorem FirstOnly.hashfullWithAge {c : Cluster} (only : t.FirstOnly c) (reachable : t.Reachable)
    (m : Nat) :
    t.hashfullWithAge m = .ok (c.toList.countP (·.isYoung t.generation m) / 3) := by
  rw [hashfullWithAge_eq reachable.sound reachable.large, only.young_eq reachable.large]

/-- In every table that can come to be, the two tests for age 0 agree on every entry, and no estimate
counts an empty slot. The share in use since a number of searches grows with that number, from the
share of the current search to all slots in use, of which no age limit above 30 leaves any out. It is
whole if all slots of the first thousand clusters are that young, and calls about other clusters do
not change it. -/
theorem estimates_agree (reachable : t.Reachable) :
    (∀ e : Entry, (Stamp.generation e.stamp = t.generation ↔ e.age t.generation = 0) ∧
      (e.isOccupied = false → e.isCurrent t.generation = false)) ∧
      t.hashfull = t.hashfullWithAge 0 ∧
      ∃ share : Nat → Nat, (∀ m, t.hashfullWithAge m = .ok (share m)) ∧
        Monotone share ∧ (∀ m, share m ≤ 1000) ∧
        (∀ m, 31 ≤ m → share m = ((List.range 1000).map fun c => (t.row c).used).sum / 3) ∧
        (∀ m, share m = 1000 ↔ ∀ c < 1000, ∀ s, (t.look ⟨c, s⟩).isOccupied = true ∧
          (t.look ⟨c, s⟩).age t.generation ≤ m) ∧
        ∀ (call : Call) c, call.cluster? t = some c → 1000 ≤ c →
          (call.perform t).2.hashfull = t.hashfull ∧
            ∀ m, (call.perform t).2.hashfullWithAge m = t.hashfullWithAge m := by
  have sound := reachable.sound
  have large := reachable.large
  refine ⟨?_, hashfull_eq sound, fun m => t.young m / 3, hashfullWithAge_eq sound large, ?_, ?_, ?_,
    ?_, ?_⟩
  · intro e
    refine ⟨(Stamp.age_eq_zero_iff sound.aligned _).symm, fun unused => ?_⟩
    rw [Entry.isCurrent, unused, Bool.false_and]
  · exact fun m n more => Nat.div_le_div_right (t.young_mono more)
  · exact fun m => Nat.div_le_of_le_mul (young_le large m)
  · intro m great
    have all := young_of_used (m := m) large fun w _ => (Stamp.age_le _ _).trans great
    exact congrArg (· / 3) all
  · intro m
    have most := young_le large m
    have whole := young_eq_iff (m := m) large
    simp only [Entry.isYoung_iff] at whole
    rw [← whole]
    change t.young m / 3 = 1000 ↔ t.young m = 3000
    omega
  · intro call c of other
    have after := sound.perform call
    have same (d : Nat) (below : d < 1000) : t.Agree (call.perform t).2 d :=
      Agree.of_other sound of (by omega)
    have shares (m : Nat) : (call.perform t).2.hashfullWithAge m = t.hashfullWithAge m := by
      rw [hashfullWithAge_eq after (by rw [clusterCount_perform sound]; exact large),
        hashfullWithAge_eq sound large, young_congr same]
    exact ⟨by rw [hashfull_eq after, hashfull_eq sound, shares], shares⟩

theorem estimates_agree_three_findings :
    threeFindings.Reachable ∧ threeFindings.hashfull = .ok 0 ∧
      threeFindings.hashfullWithAge 31 = .ok 1 ∧
      (threeFindings.probe 0x8000000000000000).2.hashfullWithAge 31 = .ok 1 := by
  have reachable := threeFindings_reachable
  obtain ⟨-, agree, -, -, -, -, -, -, others⟩ := estimates_agree reachable
  obtain ⟨_, -, only⟩ := run_threeFindings
  have whole : threeFindings.hashfullWithAge 31 = .ok 1 := by
    rw [only.hashfullWithAge reachable]
    decide
  have index : threeFindings.clusterIndex 0x8000000000000000 = 16384 := by decide
  obtain ⟨-, kept⟩ := others (.probe 0x8000000000000000) 16384 (congrArg some index) (by decide)
  have left (t : Table) (key : UInt64) : (Call.perform t (.probe key)).2 = (t.probe key).2 := rfl
  rw [left] at kept
  refine ⟨reachable, ?_, whole, (kept 31).trans whole⟩
  rw [agree, only.hashfullWithAge reachable]
  decide

end Table

/-! ## During a search -/

/-- The event belongs to the search: it begins no other, and a write passes this generation on. -/
def Event.Within (g : UInt8) (e : Event) : Prop :=
  match e.call with
  | .write _ _ _ g' => g' = g
  | .newSearch => False
  | _ => True

theorem Change.isYoung_apply {t : Table} {e : Event} (sound : t.Sound) (valid : e.change.Valid t)
    (within : e.Within t.generation) {w : Writer} {m : Nat}
    (young : (t.look w).isYoung t.generation m = true) :
    (e.change.apply t).generation = t.generation ∧
      ((e.change.apply t).look w).isYoung t.generation m = true := by
  -- Within a search no slot ages: what is found or written is of age 0 then.
  cases made : e.change with
  | none => exact ⟨rfl, young⟩
  | advanced =>
    rw [Event.Within, Event.of_advanced made] at within
    exact within.elim
  | refreshed v =>
    rw [made] at valid
    refine ⟨rfl, ?_⟩
    rw [look_refreshed valid]
    split_ifs
    · rw [Entry.isYoung_iff] at young ⊢
      exact ⟨young.1, (Entry.age_refresh sound.aligned _).trans_le (Nat.zero_le m)⟩
    · exact young
  | stored v key r g =>
    rw [made] at valid
    rw [Event.Within, Event.call_of_stored made] at within
    refine ⟨rfl, ?_⟩
    rw [look_stored valid]
    split_ifs
    · rw [Entry.isYoung_iff]
      have young : ((t.look w).overwrite (tagOf key) r g).age t.generation = 0 := by
        rw [within, Entry.age_overwrite sound.aligned]
      exact ⟨Entry.isOccupied_overwrite valid.2.1 _ _ _, young.trans_le (Nat.zero_le m)⟩
    · exact young

theorem Run.isYoung_of_earlier {rule : Rule} {start before after : Table} {earlier later : Log}
    (run : Run rule start earlier before) (rest : Run rule start (later ++ earlier) after)
    (h : start.Sound) (within : ∀ e ∈ later, e.Within before.generation) {w : Writer} {m : Nat}
    (young : (before.look w).isYoung before.generation m = true) :
    (after.look w).isYoung after.generation m = true := by
  have kept := run.rest (fun t => t.generation = before.generation ∧
    (t.look w).isYoung before.generation m = true) rest h ⟨rfl, young⟩ ?_
  · rw [kept.1]
    exact kept.2
  · rintro t e member sound valid ⟨same, young⟩
    have now := within e member
    rw [← same] at now young ⊢
    exact Change.isYoung_apply sound valid now young

/-- In a run of a table that can come to be, the estimates whose limit leaves nothing out never go down,
whatever is searched and written. From one point to a later one of the same search, where writes pass
its generation on, no estimate goes down. -/
theorem estimates_grow {start before after : Table} {earlier later : Log}
    (reachable : start.Reachable) (run : Run .any start earlier before)
    (rest : Run .any start (later ++ earlier) after) :
    ∃ share share' : Nat → Nat,
      (before.hashfull = .ok (share 0) ∧ ∀ m, before.hashfullWithAge m = .ok (share m)) ∧
      (after.hashfull = .ok (share' 0) ∧ ∀ m, after.hashfullWithAge m = .ok (share' m)) ∧
      (∀ m, 31 ≤ m → share m ≤ share' m) ∧
      ((∀ e ∈ later, e.Within before.generation) → ∀ m, share m ≤ share' m) := by
  have first := Table.Reachable.used reachable run
  have last := Table.Reachable.used reachable rest
  have shares {t : Table} (reached : t.Reachable) (m : Nat) :=
    Table.hashfullWithAge_eq reached.sound reached.large m
  have sameCount : after.clusterCount = before.clusterCount :=
    (rest.clusterCount_eq reachable.sound).trans (run.clusterCount_eq reachable.sound).symm
  refine ⟨fun m => before.young m / 3, fun m => after.young m / 3,
    ⟨(Table.hashfull_eq first.sound).trans (shares first 0), shares first⟩,
    ⟨(Table.hashfull_eq last.sound).trans (shares last 0), shares last⟩, ?_, ?_⟩
  · -- Such a limit asks only that slots stay in use, and no call empties one.
    intro m great
    refine Nat.div_le_div_right (Table.young_le_young sameCount fun w young => ?_)
    rw [Entry.isYoung_iff] at young ⊢
    exact ⟨run.isOccupied_of_earlier rest reachable.sound young.1, (Stamp.age_le _ _).trans great⟩
  · intro within m
    exact Nat.div_le_div_right (Table.young_le_young sameCount fun w =>
      run.isYoung_of_earlier rest reachable.sound within)

def threeYoungFindings : Table := threeFindings.replaced 8 (shallowFindingAt 1) 16

def threeYoungEntries : Cluster := { threeEntries with first := ⟨8, 8, 18, ⟨7⟩, 10, 30⟩ }

theorem estimates_grow_eviction :
    ∃ log later, Table.least.Reachable ∧ Run .any Table.least log threeFindings ∧
      Run .any Table.least (later ++ log) threeYoungFindings ∧
      later.map Event.call = [.write (threeFindings.victim 8) 8 (shallowFindingAt 1) 16, .probe 8] ∧
      (∀ e ∈ later, e.Within threeFindings.generation) ∧
      threeFindings.hashfull = .ok 0 ∧ threeYoungFindings.hashfull = .ok 1 ∧
      ∀ m, ∃ share share', threeFindings.hashfullWithAge m = .ok share ∧
        threeYoungFindings.hashfullWithAge m = .ok share' ∧ share ≤ share' := by
  obtain ⟨log, run, only⟩ := run_threeFindings
  obtain ⟨rest, left⟩ := run.replace_first rfl only 8 (r := shallowFindingAt 1) (g := 16)
    (d := threeYoungEntries) (by decide) (by decide) (by decide) (by decide)
  set later := Log.store [] (Table.missed (threeFindings.victim 8)) 8 (shallowFindingAt 1) 16
  have rest : Run .any Table.least (later ++ log) threeYoungFindings := rest
  have left : threeYoungFindings.FirstOnly threeYoungEntries := left
  have within : ∀ e ∈ later, e.Within threeFindings.generation :=
    List.forall_mem_cons.2 ⟨rfl, List.forall_mem_singleton.2 trivial⟩
  obtain ⟨share, share', ⟨current, shares⟩, ⟨current', shares'⟩, -, grow⟩ :=
    estimates_grow Table.least_reachable run rest
  refine ⟨log, later, Table.least_reachable, run, rest, rfl, within, ?_, ?_,
    fun m => ⟨share m, share' m, shares m, shares' m, grow within m⟩⟩
  · rw [Table.hashfull_eq threeFindings_reachable.sound,
      only.hashfullWithAge threeFindings_reachable]
    decide
  · have reachable := Table.Reachable.used Table.least_reachable rest
    rw [Table.hashfull_eq reachable.sound, left.hashfullWithAge reachable]
    decide

end PositionCache
