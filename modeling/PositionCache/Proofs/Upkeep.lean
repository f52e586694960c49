import PositionCache.Table.Upkeep
import PositionCache.Proofs.Table
import PositionCache.Proofs.Zeroing

/-!
# Tables after upkeep

All that making, clearing and resizing can do: `make_cases`, `clear_eq` and `resize_cases`.
-/

namespace PositionCache.Table

variable {m : Machine} {t : Table} {mb : Nat}

/-! ## Blank tables -/

/-- Nothing is stored and no search has begun. -/
structure Blank (t : Table) : Prop where
  clusters : t.clusters = Array.replicate t.clusterCount .empty
  nonempty : 0 < t.clusterCount
  generation : t.generation = 0

theorem Blank.row (h : t.Blank) : t.row = fun _ => .empty := by
  funext i
  unfold Table.row
  rw [h.clusters, Array.getD_eq_getD_getElem?, Array.getElem?_replicate]
  split_ifs <;> rfl

theorem Blank.look (h : t.Blank) (w : Writer) : t.look w = .empty := by
  rw [Table.look, h.row, Cluster.get_empty]

theorem Blank.sound (h : t.Blank) : t.Sound where
  size := by rw [h.clusters, Array.size_replicate]
  nonempty := h.nonempty
  aligned := by
    rw [h.generation]
    exact Stamp.aligned_zero
  slots w := by
    rw [h.look]
    exact Entry.empty_sound

/-- The empty table of so many clusters under the settings, in its first generation. -/
def anew (s : Settings) (count : Nat) : Table where
  clusters := Array.replicate count .empty
  clusterCount := count
  generation := 0
  sizeMb := s.hashMb
  initThreads := s.threads
  largePages := s.largePages

def settings (t : Table) : Settings := ⟨t.sizeMb, t.initThreads, t.largePages⟩

theorem anew_blank {count : Nat} (h : 0 < count) (s : Settings) : (anew s count).Blank :=
  ⟨rfl, h, rfl⟩

/-! ## Storage -/

theorem clusterCountFor_eq (mb : Nat) :
    clusterCountFor mb = if mb = 0 then .error .zeroSize
      else if 2 ^ 44 ≤ mb then .error (.sizeOverflow mb)
      else .ok (32768 * mb) := by
  unfold clusterCountFor unitBytes clusterBytes wordLimit
  split_ifs
  · rfl
  · omega
  · have count : mb * 1048576 / 32 = 32768 * mb := by omega
    rw [count]
  · rfl
  · omega

theorem clusterCountFor_eq_ok_iff {count : Nat} :
    clusterCountFor mb = .ok count ↔ 1 ≤ mb ∧ mb < 2 ^ 44 ∧ count = 32768 * mb := by
  rw [clusterCountFor_eq]
  split_ifs with zero large
  · simp [zero]
  · simp only [false_iff]
    omega
  · simp only [Except.ok.injEq]
    omega

theorem bytes_of_counted {count : Nat} (counted : clusterCountFor mb = .ok count) :
    count * clusterBytes = mb * unitBytes ∧ 0 < mb * unitBytes ∧ mb * unitBytes < wordLimit := by
  obtain ⟨least, less, rfl⟩ := clusterCountFor_eq_ok_iff.1 counted
  rw [clusterBytes, unitBytes, wordLimit]
  omega

theorem clusterCountFor_pos {count : Nat} (h : clusterCountFor mb = .ok count) : 0 < count := by
  obtain ⟨positive, -, rfl⟩ := clusterCountFor_eq_ok_iff.1 h
  omega

theorem clusterCountFor_error {refusal : Refusal} (h : clusterCountFor mb = .error refusal) :
    refusal ≠ .noThreads := by
  rw [clusterCountFor_eq] at h
  split_ifs at h
  all_goals
    obtain rfl := Except.error.inj h
    exact nofun

theorem storageFor_error {clusters : Nat} {largePages : Bool} {refusal : Refusal}
    (h : storageFor m clusters largePages = .error refusal) : refusal ≠ .noThreads := by
  unfold storageFor reserve at h
  split_ifs at h
  · split at h
    · obtain rfl := Except.error.inj h
      exact nofun
    · split_ifs at h
      all_goals
        obtain rfl := Except.error.inj h
        exact nofun
  · obtain rfl := Except.error.inj h
    exact nofun

theorem storage_of_refused {clusters : Nat} {largePages : Bool} {refusal : Refusal}
    (refused : storageFor m clusters largePages = .error refusal) (threads : Nat) :
    storage m clusters threads largePages = .error (.refused refusal) := by
  rw [storage, refused]
  rfl

theorem size_received (m : Machine) (layout : Layout) (clusters : Nat) :
    (received m layout clusters).size = clusters := Array.size_ofFn

/-- Storage that the machine serves is empty, whatever stood in the block, if its workers can be
counted. -/
theorem storage_of_served {clusters : Nat} {largePages : Bool} {layout : Layout}
    (served : storageFor m clusters largePages = .ok layout) (threads : Nat) :
    storage m clusters threads largePages =
      if Zeroing.Countable threads then .ok (Array.replicate clusters .empty)
      else .error (.stopped (.overflow .multiply)) := by
  rw [storage, served]
  split_ifs with countable
  · obtain ⟨spans, shared, blanked⟩ :=
      Zeroing.spans_of_countable countable (received m layout clusters)
    rw [size_received] at shared blanked
    simp only [shared, bind, Except.bind, Except.mapError, blanked]
    rfl
  · rw [Zeroing.spans_of_not_countable countable]
    rfl

/-! ## Making -/

theorem make_of_uncounted {s : Settings} {refusal : Refusal} (valid : s.validate = .ok ())
    (uncounted : clusterCountFor s.hashMb = .error refusal) :
    make m s = .error (.refused refusal) := by
  rw [make, valid, uncounted]
  rfl

theorem make_of_unserved {s : Settings} {count : Nat} {refusal : Refusal}
    (valid : s.validate = .ok ()) (counted : clusterCountFor s.hashMb = .ok count)
    (unserved : storageFor m count s.largePages = .error refusal) :
    make m s = .error (.refused refusal) := by
  rw [make, valid, counted]
  simp only [bind, Except.bind, Except.mapError, storage_of_refused unserved]

theorem make_of_served {s : Settings} {count : Nat} {layout : Layout}
    (valid : s.validate = .ok ()) (counted : clusterCountFor s.hashMb = .ok count)
    (served : storageFor m count s.largePages = .ok layout) :
    make m s = if Zeroing.Countable s.threads then .ok (anew s count)
      else .error (.stopped (.overflow .multiply)) := by
  rw [make, valid, counted]
  simp only [bind, Except.bind, Except.mapError, storage_of_served served]
  split_ifs <;> rfl

theorem make_cases (m : Machine) (s : Settings) :
    (∃ refusal, make m s = .error (.refused refusal)) ∨
      ∃ count layout, s.validate = .ok () ∧ clusterCountFor s.hashMb = .ok count ∧
        storageFor m count s.largePages = .ok layout ∧
        make m s = if Zeroing.Countable s.threads then .ok (anew s count)
          else .error (.stopped (.overflow .multiply)) := by
  cases valid : s.validate with
  | error refusal =>
    rw [make, valid]
    exact .inl ⟨refusal, rfl⟩
  | ok =>
    cases counted : clusterCountFor s.hashMb with
    | error refusal => exact .inl ⟨refusal, make_of_uncounted valid counted⟩
    | ok count =>
      cases served : storageFor m count s.largePages with
      | error refusal => exact .inl ⟨refusal, make_of_unserved valid counted served⟩
      | ok layout =>
        exact .inr ⟨count, layout, rfl, rfl, served, make_of_served valid counted served⟩

theorem anew_of_make {s : Settings} (h : make m s = .ok t) :
    ∃ count layout, s.validate = .ok () ∧ clusterCountFor s.hashMb = .ok count ∧
      storageFor m count s.largePages = .ok layout ∧ t = anew s count := by
  rcases make_cases m s with ⟨refusal, refused⟩ | ⟨count, layout, valid, counted, served, made⟩
  · exact absurd (refused.symm.trans h) nofun
  · rw [made] at h
    split_ifs at h
    exact ⟨count, layout, valid, counted, served, (Except.ok.inj h).symm⟩

theorem make_blank {s : Settings} (h : make m s = .ok t) : t.Blank := by
  obtain ⟨count, _, _, counted, _, rfl⟩ := anew_of_make h
  exact anew_blank (clusterCountFor_pos counted) s

/-! ## Clearing -/

/-- A clearing empties the table, or stops when it has begun the first generation anew and has
emptied nothing. -/
theorem clear_eq (h : t.clusters.size = t.clusterCount) :
    t.clear = if Zeroing.Countable t.initThreads then
        ⟨anew t.settings t.clusterCount, [.cleared t.clusterCount t.initThreads], none⟩
      else ⟨{ t with generation := 0 }, [], some (.stopped (.overflow .multiply))⟩ := by
  unfold clear
  split_ifs with countable
  · obtain ⟨spans, shared, blanked⟩ := Zeroing.spans_of_countable countable t.clusters
    rw [h] at blanked
    simp only [shared, blanked]
    rfl
  · simp only [Zeroing.spans_of_not_countable countable]

theorem clear_of_countable (h : t.Sound) (countable : Zeroing.Countable t.initThreads) :
    t.clear.table = anew t.settings t.clusterCount := by
  rw [clear_eq h.size, if_pos countable]

theorem clear_of_not_countable (h : t.Sound) (many : ¬ Zeroing.Countable t.initThreads) :
    t.clear.table = { t with generation := 0 } := by
  rw [clear_eq h.size, if_neg many]

theorem clear_failure (h : t.Sound) :
    t.clear.failure = if Zeroing.Countable t.initThreads then none
      else some (.stopped (.overflow .multiply)) := by
  rw [clear_eq h.size]
  split_ifs <;> rfl

theorem countable_of_clear (h : t.Sound) (done : t.clear.failure = none) :
    Zeroing.Countable t.initThreads := by
  rw [clear_failure h] at done
  split_ifs at done with countable
  exact countable

theorem clear_blank (h : t.Sound) (done : t.clear.failure = none) : t.clear.table.Blank := by
  rw [clear_of_countable h (countable_of_clear h done)]
  exact anew_blank h.nonempty t.settings

theorem clear_row_of_failure (h : t.Sound) (failed : t.clear.failure ≠ none) :
    t.clear.table.row = t.row := by
  rw [clear_failure h] at failed
  split_ifs at failed with countable
  · exact absurd rfl failed
  · rw [clear_of_not_countable h countable]
    rfl

theorem Sound.clear (h : t.Sound) : t.clear.table.Sound := by
  by_cases countable : Zeroing.Countable t.initThreads
  · rw [clear_of_countable h countable]
    exact (anew_blank h.nonempty t.settings).sound
  · rw [clear_of_not_countable h countable]
    exact ⟨h.size, h.nonempty, Stamp.aligned_zero, h.slots⟩

/-! ## Resizing -/

theorem resize_of_uncounted {refusal : Refusal} (uncounted : clusterCountFor mb = .error refusal) :
    t.resize m mb = ⟨t, [], some (.refused refusal)⟩ := by
  rw [resize, uncounted]

theorem resize_of_unserved {count : Nat} {refusal : Refusal}
    (counted : clusterCountFor mb = .ok count) (other : count ≠ t.clusterCount)
    (unserved : storageFor m count t.largePages = .error refusal) :
    t.resize m mb = ⟨t, [], some (.refused refusal)⟩ := by
  rw [resize, counted]
  simp only [if_neg other, storage_of_refused unserved]

theorem resize_of_served {count : Nat} {layout : Layout} (counted : clusterCountFor mb = .ok count)
    (other : count ≠ t.clusterCount) (served : storageFor m count t.largePages = .ok layout) :
    t.resize m mb = if Zeroing.Countable t.initThreads then
        ⟨anew ⟨mb, t.initThreads, t.largePages⟩ count, [.resized mb count t.largePages], none⟩
      else ⟨t, [], some (.stopped (.overflow .multiply))⟩ := by
  rw [resize, counted]
  simp only [if_neg other, storage_of_served served]
  split_ifs <;> rfl

/-- How a resizing ends: refused with nothing changed, as a clearing, or with other storage, told
by the number of workers. -/
theorem resize_cases (m : Machine) (t : Table) (mb : Nat) :
    (∃ refusal, refusal ≠ .noThreads ∧ t.resize m mb = ⟨t, [], some (.refused refusal)⟩) ∨
      (clusterCountFor mb = .ok t.clusterCount ∧
        t.resize m mb = Table.clear { t with sizeMb := mb }) ∨
      ∃ count layout, count ≠ t.clusterCount ∧ clusterCountFor mb = .ok count ∧
        storageFor m count t.largePages = .ok layout ∧
        t.resize m mb = if Zeroing.Countable t.initThreads then
            ⟨anew ⟨mb, t.initThreads, t.largePages⟩ count, [.resized mb count t.largePages], none⟩
          else ⟨t, [], some (.stopped (.overflow .multiply))⟩ := by
  cases counted : clusterCountFor mb with
  | error refusal =>
    exact .inl ⟨refusal, clusterCountFor_error counted, resize_of_uncounted counted⟩
  | ok count =>
    by_cases same : count = t.clusterCount
    · rw [resize, counted]
      exact .inr (.inl ⟨congrArg Except.ok same, if_pos same⟩)
    · cases served : storageFor m count t.largePages with
      | error refusal =>
        exact .inl ⟨refusal, storageFor_error served, resize_of_unserved counted same served⟩
      | ok layout =>
        exact .inr (.inr ⟨count, layout, same, rfl, served, resize_of_served counted same served⟩)

theorem Sound.setSizeMb (h : t.Sound) (mb : Nat) : Sound { t with sizeMb := mb } :=
  ⟨h.size, h.nonempty, h.aligned, h.slots⟩

theorem resize_blank (h : t.Sound) (done : (t.resize m mb).failure = none) :
    (t.resize m mb).table.Blank := by
  rcases resize_cases m t mb with
    ⟨refusal, -, refused⟩ | ⟨-, cleared⟩ | ⟨count, layout, -, counted, -, ended⟩
  · rw [refused] at done
    exact absurd done (Option.some_ne_none _)
  · rw [cleared] at done ⊢
    exact clear_blank (h.setSizeMb mb) done
  · rw [ended] at done ⊢
    split_ifs at done ⊢
    exact anew_blank (clusterCountFor_pos counted) _

theorem resize_row_of_failure (h : t.Sound) (failed : (t.resize m mb).failure ≠ none) :
    (t.resize m mb).table.row = t.row := by
  rcases resize_cases m t mb with
    ⟨refusal, -, refused⟩ | ⟨-, cleared⟩ | ⟨count, layout, -, -, -, ended⟩
  · rw [refused]
  · rw [cleared] at failed ⊢
    exact clear_row_of_failure (h.setSizeMb mb) failed
  · rw [ended] at failed ⊢
    split_ifs at failed ⊢
    · exact absurd rfl failed
    · rfl

theorem Sound.resize (h : t.Sound) : (t.resize m mb).table.Sound := by
  rcases resize_cases m t mb with
    ⟨refusal, -, refused⟩ | ⟨-, cleared⟩ | ⟨count, layout, -, counted, -, ended⟩
  · rw [refused]
    exact h
  · rw [cleared]
    exact (h.setSizeMb mb).clear
  · rw [ended]
    split_ifs
    · exact (anew_blank (clusterCountFor_pos counted) _).sound
    · exact h

@[simp]
theorem look_setInitThreads (t : Table) (threads : Nat) (w : Writer) :
    (t.setInitThreads threads).look w = t.look w := rfl

theorem Sound.setInitThreads (h : t.Sound) (threads : Nat) : (t.setInitThreads threads).Sound :=
  ⟨h.size, h.nonempty, h.aligned, h.slots⟩

end PositionCache.Table
