import PositionCache.Proofs.Faults

/-!
# The slot that is given up

A slot in use is worth its depth, less 8 for each search since it was used; an empty one is worth less.
-/

namespace PositionCache

/-! ## What a replacement leaves -/

namespace Cluster

/-- The cluster after a record was written over the slot that is worth least. -/
def replaced (c : Cluster) (now : UInt8) (tag : UInt16) (r : Record) (g : UInt8) : Cluster :=
  c.set (c.leastWorth now) ((c.get (c.leastWorth now)).overwrite tag r g)

theorem leastWorth_le_of_unoccupied {c : Cluster} {s : Slot} (h : (c.get s).isOccupied = false)
    (g : UInt8) : c.leastWorth g ≤ s := by
  by_contra after
  have used := isOccupied_before_leastWorth (not_le.1 after)
  exact absurd (h.symm.trans used) Bool.false_ne_true

end Cluster

namespace Table

variable {t : Table} {key : UInt64}

/-- The slot that a probe of the key gives up if it misses. -/
def victim (t : Table) (key : UInt64) : Writer :=
  ⟨t.clusterIndex key, (t.row (t.clusterIndex key)).leastWorth t.generation⟩

/-- The table after a record was written over that slot. -/
def replaced (t : Table) (key : UInt64) (r : Record) (g : UInt8) : Table :=
  t.put (t.victim key) ((t.look (t.victim key)).overwrite (tagOf key) r g)

theorem Miss.writer_eq {p : Probe} {after : Table} (miss : Miss t key p after) :
    p.writer = t.victim key := by
  rw [victim, ← miss.slot, ← miss.cluster]

theorem row_replaced (sound : t.Sound) (key : UInt64) (r : Record) (g : UInt8) (i : Nat) :
    (t.replaced key r g).row i =
      if t.clusterIndex key = i then (t.row i).replaced t.generation (tagOf key) r g
      else t.row i := by
  unfold replaced
  rw [row_put (sound.clusterIndex_lt key)]
  by_cases here : t.clusterIndex key = i
  · rw [if_pos here, ← here]
    exact if_pos rfl
  · rw [if_neg here]
    exact if_neg here

end Table

theorem Run.replace {rule : Rule} {start t : Table} {log : Log} (run : Run rule start log t)
    (sound : start.Sound) {key : UInt64} {r : Record} {g : UInt8}
    (absent : (t.row (t.clusterIndex key)).find? (tagOf key) = none) (fits : Entry.Fits r g)
    (probing : rule log t (.probe key))
    (writing : rule (⟨.probe key, .ok (.probed (Table.missed (t.victim key)))⟩ :: log) t
      (.write (t.victim key) key r g)) :
    Run rule start (log.store (Table.missed (t.victim key)) key r g) (t.replaced key r g) := by
  have inside := (run.sound sound).clusterIndex_lt key
  exact run.probe_write sound (Table.probe_of_find_none inside absent) fits probing writing

/-! ## The choice -/

/-- In every table that can come to be, a slot in use is worth its depth byte, less 8 for each search
since it was used, modulo 32, and an empty slot is worth less. A probe that misses leaves the table as
it was and hands out the first of the slots of its cluster that are worth least: the first empty one,
if there is one. A write through its writer leaves all other slots as they were. -/
theorem missed_probe_gives_up_least {t : Table} (reachable : t.Reachable) (key : UInt64) :
    (∀ w, (t.look w).isOccupied = true →
      (t.look w).worth t.generation = (t.look w).depthByte.toNat -
          8 * (((Stamp.search t.generation : Int) - (Stamp.search (t.look w).stamp : Int)) % 32) ∧
        -247 ≤ (t.look w).worth t.generation ∧ (t.look w).worth t.generation ≤ 255) ∧
      (∀ v w, (t.look v).isOccupied = false → (t.look w).isOccupied = true →
        (t.look v).worth t.generation < (t.look w).worth t.generation) ∧
      ∃ p after, t.probe key = (.ok p, after) ∧ (p.found = false →
        after = t ∧ p.writer.cluster = t.clusterIndex key ∧
          (∀ s, (t.look p.writer).worth t.generation ≤
            (t.look ⟨t.clusterIndex key, s⟩).worth t.generation) ∧
          (∀ s < p.writer.slot, (t.look p.writer).worth t.generation <
            (t.look ⟨t.clusterIndex key, s⟩).worth t.generation) ∧
          (∀ s, (t.look ⟨t.clusterIndex key, s⟩).isOccupied = false →
            (t.look p.writer).isOccupied = false ∧ p.writer.slot ≤ s) ∧
          ∀ key' r g v, v ≠ p.writer → (after.write p.writer key' r g).2.look v = t.look v) := by
  have sound := reachable.sound
  refine ⟨?_, ?_, ?_⟩
  · intro w used
    exact ⟨Entry.worth_of_occupied used sound.aligned, Entry.worth_bounds used t.generation⟩
  · intro v w unused used
    rw [Entry.worth_of_empty unused]
    exact Entry.worthless_lt_worth used t.generation
  · obtain ⟨p, answered, outcome⟩ := Table.probe_spec sound key
    refine ⟨p, (t.probe key).2, Prod.ext answered rfl, ?_⟩
    intro missed
    have miss := Table.Miss.of_missed outcome missed
    rw [miss.unchanged, miss.writer_eq]
    obtain ⟨least, first⟩ := Cluster.leastWorth_spec (t.row (t.clusterIndex key)) t.generation
    refine ⟨rfl, rfl, least, first, ?_, fun key' r g v other => Table.look_write_of_ne other _ _ _⟩
    intro s unused
    exact ⟨Cluster.leastWorth_of_unoccupied unused t.generation,
      Cluster.leastWorth_le_of_unoccupied unused t.generation⟩

/-! ## An old entry and two young ones -/

def shallowFindingAt (depth : Depth) : Record := { shallowFinding with depth }

/-- A deep finding of the first search, and two of half the depth of the third. -/
def threeFindings : Table :=
  ((Table.least.replaced 5 (shallowFindingAt 10) 0).newSearch.newSearch.replaced 6
    (shallowFindingAt 5) 16).replaced 7 (shallowFindingAt 6) 16

def threeEntries : Cluster where
  first := ⟨5, 17, 2, ⟨7⟩, 10, 30⟩
  second := ⟨6, 12, 18, ⟨7⟩, 10, 30⟩
  third := ⟨7, 13, 18, ⟨7⟩, 10, 30⟩

/-- The entries of a table are all in its first cluster. -/
structure Table.FirstOnly (t : Table) (c : Cluster) : Prop where
  first : t.row 0 = c
  others : ∀ i ≠ 0, t.row i = .empty

theorem Table.least_firstOnly : Table.least.FirstOnly .empty where
  first := congrFun Table.least_fresh.blank.row 0
  others i _ := congrFun Table.least_fresh.blank.row i

theorem Run.replace_first {t : Table} {log : Log} (run : Run .any Table.least log t)
    {now : UInt8} (generation : t.generation = now) {c d : Cluster} (only : t.FirstOnly c)
    (key : UInt64) {r : Record} {g : UInt8} (here : Table.least.clusterIndex key = 0)
    (absent : c.find? (tagOf key) = none) (fits : Entry.Fits r g)
    (left : c.replaced now (tagOf key) r g = d) :
    Run .any Table.least (log.store (Table.missed (t.victim key)) key r g) (t.replaced key r g) ∧
      (t.replaced key r g).FirstOnly d := by
  have sound := Table.least_fresh.sound
  have index : t.clusterIndex key = 0 := (run.clusterIndex_eq sound key).trans here
  have rows := Table.row_replaced (run.sound sound) key r g
  rw [index] at rows
  rw [← only.first, ← index] at absent
  refine ⟨run.replace sound absent fits trivial trivial, ?_, ?_⟩
  · rw [rows, if_pos rfl, only.first, generation, left]
  · intro i other
    rw [rows, if_neg other.symm, only.others i other]

theorem run_threeFindings :
    ∃ log, Run .any Table.least log threeFindings ∧ threeFindings.FirstOnly threeEntries := by
  obtain ⟨first, one⟩ := Run.start.replace_first rfl Table.least_firstOnly 5
    (r := shallowFindingAt 10) (g := 0) (d := { Cluster.empty with first := threeEntries.first })
    (by decide) (by decide) (by decide) (by decide)
  have searched := (first.call .newSearch trivial trivial).call .newSearch trivial trivial
  have same (t : Table) (c : Cluster) (only : t.FirstOnly c) : t.newSearch.newSearch.FirstOnly c :=
    ⟨only.first, only.others⟩
  obtain ⟨second, two⟩ := searched.replace_first rfl (same _ _ one) 6
    (r := shallowFindingAt 5) (g := 16) (d := { threeEntries with third := .empty })
    (by decide) (by decide) (by decide) (by decide)
  exact ⟨_, second.replace_first rfl two 7 (by decide) (by decide) (by decide) (by decide)⟩

theorem threeFindings_reachable : threeFindings.Reachable := by
  obtain ⟨_, run, -⟩ := run_threeFindings
  exact .used Table.least_reachable run

theorem look_threeFindings (s : Slot) : threeFindings.look ⟨0, s⟩ = threeEntries.get s := by
  obtain ⟨_, -, only⟩ := run_threeFindings
  rw [← only.first, Table.get_row]

theorem row_threeFindings : threeFindings.row 0 = threeEntries :=
  Cluster.ext_get look_threeFindings

theorem probe_threeFindings :
    threeFindings.probe 8 = (.ok (Table.missed (threeFindings.victim 8)), threeFindings) := by
  have index : threeFindings.clusterIndex 8 = 0 := by decide
  apply Table.probe_of_find_none (threeFindings_reachable.sound.clusterIndex_lt 8)
  rw [index, row_threeFindings]
  decide

/-- A probe of the fourth key gives up the deep finding, for the age outweighs its depth. A write
there leaves the two young ones. -/
theorem missed_probe_gives_up_least_old :
    threeFindings.Reachable ∧ ∃ p, threeFindings.probe 8 = (.ok p, threeFindings) ∧
      p.found = false ∧ p.writer = ⟨0, 0⟩ ∧
      (threeFindings.look ⟨0, 0⟩).worth 16 = 1 ∧ (threeFindings.look ⟨0, 1⟩).worth 16 = 12 ∧
      ∀ r g, (threeFindings.write p.writer 8 r g).2.look ⟨0, 1⟩ = threeFindings.look ⟨0, 1⟩ := by
  obtain ⟨-, -, p, after, probed, gives⟩ := missed_probe_gives_up_least threeFindings_reachable 8
  have missed : p.found = false := by
    have answer := congrArg Prod.fst (probed.symm.trans probe_threeFindings)
    rw [Except.ok.inj answer]
    rfl
  obtain ⟨rfl, cluster, least, -, -, kept⟩ := gives missed
  have index : threeFindings.clusterIndex 8 = 0 := by decide
  have now : threeFindings.generation = 16 := rfl
  -- No slot but the first is worth as little.
  have oldest : ∀ s, (threeEntries.get s).worth 16 ≤ (threeEntries.get 0).worth 16 → s = 0 := by
    decide
  have here : p.writer = ⟨0, p.writer.slot⟩ := by rw [← index, ← cluster]
  have writer : p.writer = ⟨0, 0⟩ := by
    have first := least 0
    rw [here, index, now, look_threeFindings, look_threeFindings] at first
    rw [here, oldest _ first]
  refine ⟨threeFindings_reachable, p, probed, missed, writer, ?_, ?_, ?_⟩
  · rw [look_threeFindings]
    decide
  · rw [look_threeFindings]
    decide
  · intro r g
    exact kept 8 r g ⟨0, 1⟩ (by rw [writer]; decide)

end PositionCache
