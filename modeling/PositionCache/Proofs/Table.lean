import PositionCache.Table
import PositionCache.Proofs.Cluster

/-!
# What a probe and a write do to a table

Each changes one slot at most: `probe_spec` and `write_of_fits`.
-/

namespace PositionCache.Table

variable {t : Table} {w : Writer} {key : UInt64}

/-! ## Slots -/

/-- The cluster at an index; an empty one where there is none. -/
def row (t : Table) (i : Nat) : Cluster := t.clusters.getD i .empty

def look (t : Table) (w : Writer) : Entry := (t.row w.cluster).get w.slot

theorem get_row (t : Table) (c : Nat) (s : Slot) : (t.row c).get s = t.look ⟨c, s⟩ := rfl

/-- The table with another entry in one slot. -/
def put (t : Table) (w : Writer) (e : Entry) : Table :=
  { t with clusters := t.clusters.setIfInBounds w.cluster ((t.row w.cluster).set w.slot e) }

@[simp]
theorem size_put (t : Table) (w : Writer) (e : Entry) :
    (t.put w e).clusters.size = t.clusters.size := by
  simp [put]

@[simp]
theorem clusterCount_put (t : Table) (w : Writer) (e : Entry) :
    (t.put w e).clusterCount = t.clusterCount := rfl

@[simp]
theorem clusterIndex_put (t : Table) (w : Writer) (e : Entry) (key : UInt64) :
    (t.put w e).clusterIndex key = t.clusterIndex key := rfl

theorem row_put (h : w.cluster < t.clusters.size) (e : Entry) (i : Nat) :
    (t.put w e).row i = if w.cluster = i then (t.row w.cluster).set w.slot e else t.row i := by
  by_cases same : w.cluster = i
  · subst same
    simp [row, put, h]
  · simp [row, put, same]

theorem look_put (h : w.cluster < t.clusters.size) (e : Entry) (v : Writer) :
    (t.put w e).look v = if w = v then e else t.look v := by
  obtain ⟨i, s⟩ := w
  obtain ⟨j, r⟩ := v
  simp only [look, row_put h, Writer.mk.injEq]
  by_cases sameCluster : i = j
  · subst sameCluster
    simp only [if_true, true_and, Cluster.get_set]
  · simp only [sameCluster, if_false, false_and]

@[simp]
theorem look_put_self (h : w.cluster < t.clusters.size) (e : Entry) : (t.put w e).look w = e := by
  rw [look_put h, if_pos rfl]

@[simp]
theorem look_newSearch (t : Table) (w : Writer) : t.newSearch.look w = t.look w := rfl

theorem row_eq_getElem {i : Nat} (h : i < t.clusters.size) : t.row i = t.clusters[i] := by
  simp [row, h]

theorem entry_eq_look (h : w.cluster < t.clusters.size) : t.entry w = .ok (t.look w) := by
  unfold entry
  rw [dif_pos h, look, row_eq_getElem h]

/-! ## Sound tables -/

/-- What every operation keeps: the two counts of clusters agree and are not 0, the generation
leaves a stamp's low bits alone, and a slot that is not in use is all zero. -/
structure Sound (t : Table) : Prop where
  size : t.clusters.size = t.clusterCount
  nonempty : 0 < t.clusterCount
  aligned : Stamp.Aligned t.generation
  slots : ∀ w, (t.look w).Sound

theorem Sound.put (h : t.Sound) (inside : w.cluster < t.clusters.size) {e : Entry}
    (he : e.Sound) : (t.put w e).Sound where
  size := by rw [size_put, h.size, clusterCount_put]
  nonempty := h.nonempty
  aligned := h.aligned
  slots v := by
    rw [look_put inside]
    split_ifs
    · exact he
    · exact h.slots v

theorem Sound.newSearch (h : t.Sound) : t.newSearch.Sound where
  size := h.size
  nonempty := h.nonempty
  aligned := Stamp.aligned_succ h.aligned
  slots := h.slots

theorem clusterIndex_lt_clusterCount (nonempty : 0 < t.clusterCount) (key : UInt64) :
    t.clusterIndex key < t.clusterCount := by
  have word : key.toNat < 2 ^ 64 := key.toNat_lt
  rw [clusterIndex_eq]
  apply Nat.div_lt_of_lt_mul
  exact Nat.mul_lt_mul_of_pos_right word nonempty

theorem Sound.clusterIndex_lt (h : t.Sound) (key : UInt64) :
    t.clusterIndex key < t.clusters.size := by
  rw [h.size]
  exact clusterIndex_lt_clusterCount h.nonempty key

/-! ## Probes -/

/-- A probe that finds its key: the first slot of the key's cluster that holds the tag is read and
dated anew. -/
structure Hit (t : Table) (key : UInt64) (p : Probe) (after : Table) : Prop where
  found : p.found = true
  cluster : p.writer.cluster = t.clusterIndex key
  holds : (t.look p.writer).Holds (tagOf key)
  first : ∀ s < p.writer.slot, ¬ (t.look ⟨t.clusterIndex key, s⟩).Holds (tagOf key)
  record : p.record = (t.look p.writer).read
  refreshed : after = t.put p.writer ((t.look p.writer).refresh t.generation)

/-- A probe that does not: no slot of the cluster holds the tag, and the one worth least is given
up. -/
structure Miss (t : Table) (key : UInt64) (p : Probe) (after : Table) : Prop where
  missed : p.found = false
  cluster : p.writer.cluster = t.clusterIndex key
  absent : ∀ s, ¬ (t.look ⟨t.clusterIndex key, s⟩).Holds (tagOf key)
  slot : p.writer.slot = (t.row (t.clusterIndex key)).leastWorth t.generation
  record : p.record = Record.empty
  unchanged : after = t

theorem Hit.writer_eq {p : Probe} {after : Table} (hit : Hit t key p after) :
    p.writer = ⟨t.clusterIndex key, p.writer.slot⟩ := by
  rw [← hit.cluster]

theorem Hit.holds_slot {p : Probe} {after : Table} (hit : Hit t key p after) :
    (t.look ⟨t.clusterIndex key, p.writer.slot⟩).Holds (tagOf key) := by
  rw [← hit.writer_eq]
  exact hit.holds

theorem probe_of_find {s : Slot} (h : t.clusterIndex key < t.clusters.size)
    (find : (t.row (t.clusterIndex key)).find? (tagOf key) = some s) :
    t.probe key =
      (.ok ⟨true, (t.look ⟨t.clusterIndex key, s⟩).read, ⟨t.clusterIndex key, s⟩⟩,
        t.put ⟨t.clusterIndex key, s⟩
          ((t.look ⟨t.clusterIndex key, s⟩).refresh t.generation)) := by
  rw [row_eq_getElem h] at find
  simp only [probe, dif_pos h, find, put, look, row_eq_getElem h, Array.setIfInBounds]

theorem probe_of_find_none (h : t.clusterIndex key < t.clusters.size)
    (find : (t.row (t.clusterIndex key)).find? (tagOf key) = none) :
    t.probe key =
      (.ok ⟨false, .empty,
        ⟨t.clusterIndex key, (t.row (t.clusterIndex key)).leastWorth t.generation⟩⟩, t) := by
  rw [row_eq_getElem h] at find
  simp only [probe, dif_pos h, find, row_eq_getElem h]

theorem probe_spec (h : t.Sound) (key : UInt64) :
    ∃ p, (t.probe key).1 = .ok p ∧ (Hit t key p (t.probe key).2 ∨ Miss t key p (t.probe key).2) := by
  have inside := h.clusterIndex_lt key
  cases find : (t.row (t.clusterIndex key)).find? (tagOf key) with
  | some s =>
    obtain ⟨holds, first⟩ := Cluster.find?_eq_some find
    rw [probe_of_find inside find]
    exact ⟨_, rfl, .inl ⟨rfl, rfl, holds, first, rfl, rfl⟩⟩
  | none =>
    rw [probe_of_find_none inside find]
    exact ⟨_, rfl, .inr ⟨rfl, rfl, (Cluster.find?_eq_none_iff _ _).1 find, rfl, rfl, rfl⟩⟩

theorem Hit.of_found {p : Probe} {after : Table} (h : Hit t key p after ∨ Miss t key p after)
    (found : p.found = true) : Hit t key p after :=
  h.resolve_right fun miss => absurd (miss.missed.symm.trans found) Bool.false_ne_true

theorem Miss.of_missed {p : Probe} {after : Table} (h : Hit t key p after ∨ Miss t key p after)
    (missed : p.found = false) : Miss t key p after :=
  h.resolve_left fun hit => absurd (missed.symm.trans hit.found) Bool.false_ne_true

/-- No slot before this one in the key's cluster holds the key's tag. -/
structure Leads (t : Table) (key : UInt64) (w : Writer) : Prop where
  here : w.cluster = t.clusterIndex key
  first : ∀ s < w.slot, ¬ (t.look ⟨t.clusterIndex key, s⟩).Holds (tagOf key)

theorem Hit.leads {p : Probe} {after : Table} (hit : Hit t key p after) : t.Leads key p.writer :=
  ⟨hit.cluster, hit.first⟩

theorem Miss.leads {p : Probe} {after : Table} (miss : Miss t key p after) :
    t.Leads key p.writer :=
  ⟨miss.cluster, fun s _ => miss.absent s⟩

theorem Leads.inside (h : t.Sound) (leads : t.Leads key w) : w.cluster < t.clusters.size :=
  leads.here ▸ h.clusterIndex_lt key

theorem Leads.put (h : t.Sound) (leads : t.Leads key w) (e : Entry) : (t.put w e).Leads key w where
  here := leads.here
  first s before := by
    have other : w ≠ ⟨t.clusterIndex key, s⟩ := by
      rintro rfl
      exact absurd before (lt_irrefl s)
    rw [clusterIndex_put, look_put (leads.inside h), if_neg other]
    exact leads.first s before

theorem Leads.probe (h : t.Sound) (leads : t.Leads key w) (holds : (t.look w).Holds (tagOf key)) :
    t.probe key =
      (.ok ⟨true, (t.look w).read, w⟩, t.put w ((t.look w).refresh t.generation)) := by
  obtain ⟨i, s⟩ := w
  obtain rfl : i = t.clusterIndex key := leads.here
  exact probe_of_find (h.clusterIndex_lt key) (Cluster.find?_of_first holds leads.first)

theorem Sound.after_probe (h : t.Sound) {p : Probe} {after : Table}
    (outcome : Hit t key p after ∨ Miss t key p after) : after.Sound ∧ after.Leads key p.writer := by
  rcases outcome with hit | miss
  · obtain rfl := hit.refreshed
    exact ⟨h.put (hit.leads.inside h) (.of_isOccupied hit.holds.2), hit.leads.put h _⟩
  · obtain rfl := miss.unchanged
    exact ⟨h, miss.leads⟩

theorem Sound.writer_inside (h : t.Sound) {p : Probe} {after : Table}
    (outcome : Hit t key p after ∨ Miss t key p after) : p.writer.cluster < t.clusters.size := by
  rw [outcome.elim Hit.cluster Miss.cluster]
  exact h.clusterIndex_lt key

theorem found_iff {p : Probe} {after : Table} (h : Hit t key p after ∨ Miss t key p after) :
    p.found = true ↔ ∃ s, (t.look ⟨t.clusterIndex key, s⟩).Holds (tagOf key) := by
  constructor
  · intro found
    exact ⟨_, (Hit.of_found h found).holds_slot⟩
  · rintro ⟨s, holds⟩
    by_contra missed
    exact (Miss.of_missed h (Bool.eq_false_of_not_eq_true missed)).absent s holds

/-! ## Writes -/

theorem write_eq (inside : w.cluster < t.clusters.size) (key : UInt64) (r : Record) (g : UInt8) :
    t.write w key r g = match (t.look w).save (tagOf key) r g with
      | .ok e => (.ok (), t.put w e)
      | .error fault => (.error fault, t) := by
  cases saved : (t.look w).save (tagOf key) r g
  all_goals
    rw [look, row_eq_getElem inside] at saved
    simp only [write, dif_pos inside, saved, put, row_eq_getElem inside, Array.setIfInBounds]

theorem write_of_fits {r : Record} {g : UInt8} (inside : w.cluster < t.clusters.size)
    (h : Entry.Fits r g) (key : UInt64) :
    t.write w key r g = (.ok (), t.put w ((t.look w).overwrite (tagOf key) r g)) := by
  rw [write_eq inside, Entry.save_of_fits h]

theorem Leads.probe_write (h : t.Sound) (leads : t.Leads key w) {r : Record} {g : UInt8}
    (fits : Entry.Fits r g) :
    t.write w key r g = (.ok (), t.put w ((t.look w).overwrite (tagOf key) r g)) ∧
      ((t.put w ((t.look w).overwrite (tagOf key) r g)).probe key).1 =
        .ok ⟨true, ((t.look w).overwrite (tagOf key) r g).read, w⟩ := by
  have inside := leads.inside h
  have holds : ((t.look w).overwrite (tagOf key) r g).Holds (tagOf key) :=
    (Entry.holds_overwrite fits.1 _ _ _ _).2 rfl
  have written := look_put_self inside ((t.look w).overwrite (tagOf key) r g)
  have probed := (leads.put h _).probe (h.put inside (.of_isOccupied holds.2)) (written.symm ▸ holds)
  refine ⟨write_of_fits inside fits key, ?_⟩
  rw [probed, written]

theorem write_of_refused {r : Record} {g : UInt8}
    (h : ¬ (w.cluster < t.clusters.size ∧ Entry.Fits r g)) (key : UInt64) :
    ∃ fault, t.write w key r g = (.error fault, t) := by
  by_cases inside : w.cluster < t.clusters.size
  · have skewed : ¬ Entry.Fits r g := fun fits => h ⟨inside, fits⟩
    obtain ⟨fault, refused⟩ := Entry.save_of_not_fits skewed (t.look w) (tagOf key)
    rw [write_eq inside, refused]
    exact ⟨fault, rfl⟩
  · rw [write, dif_neg inside]
    exact ⟨_, rfl⟩

theorem look_write_of_ne {v : Writer} (other : v ≠ w) (key : UInt64) (r : Record) (g : UInt8) :
    (t.write w key r g).2.look v = t.look v := by
  by_cases takes : w.cluster < t.clusters.size ∧ Entry.Fits r g
  · rw [write_of_fits takes.1 takes.2, look_put takes.1, if_neg other.symm]
  · obtain ⟨fault, refused⟩ := write_of_refused takes key
    rw [refused]

end PositionCache.Table
