import PositionCache.Proofs.Renewal

/-!
# Too many workers

Upkeep multiplies the number of workers by the clusters that each should have, and the product must
be a word.
-/

namespace PositionCache.Table

variable {t : Table} {m : Machine}

theorem make_stopped_iff (m : Machine) (s : Settings) (fault : Fault) :
    make m s = .error (.stopped fault) ↔
      fault = .overflow .multiply ∧ ¬ Zeroing.Countable s.threads ∧ s.validate = .ok () ∧
        ∃ count layout, clusterCountFor s.hashMb = .ok count ∧
          storageFor m count s.largePages = .ok layout := by
  constructor
  · intro stopped
    rcases make_cases m s with ⟨refusal, refused⟩ | ⟨count, layout, valid, counted, served, made⟩
    · exact absurd (refused.symm.trans stopped) nofun
    · rw [made] at stopped
      split_ifs at stopped with countable
      obtain rfl := Failure.stopped.inj (Except.error.inj stopped)
      exact ⟨rfl, countable, valid, count, layout, counted, served⟩
  · rintro ⟨rfl, many, valid, count, layout, counted, served⟩
    rw [make_of_served valid counted served, if_neg many]

theorem resize_of_countable (sound : t.Sound) (countable : Zeroing.Countable t.initThreads)
    (mb : Nat) :
    ((t.resize m mb).failure = none ∧ (t.resize m mb).table.Blank) ∨
      ∃ refusal, (t.resize m mb).failure = some (.refused refusal) ∧
        (t.resize m mb).table = t := by
  rcases resize_cases m t mb with
    ⟨refusal, -, refused⟩ | ⟨-, cleared⟩ | ⟨count, layout, -, -, -, ended⟩
  · rw [refused]
    exact .inr ⟨refusal, rfl, rfl⟩
  · have done : (t.resize m mb).failure = none := by
      rw [cleared, clear_failure (sound.setSizeMb mb)]
      exact if_pos countable
    exact .inl ⟨done, resize_blank sound done⟩
  · have done : (t.resize m mb).failure = none := by
      rw [ended, if_pos countable]
    exact .inl ⟨done, resize_blank sound done⟩

theorem clear_stopped (sound : t.Sound) (many : ¬ Zeroing.Countable t.initThreads) :
    t.clear.failure = some (.stopped (.overflow .multiply)) ∧ t.clear.table.generation = 0 ∧
      ∀ w, t.clear.table.look w = t.look w := by
  rw [clear_failure sound, if_neg many, clear_of_not_countable sound many]
  exact ⟨rfl, rfl, fun _ => rfl⟩

theorem resize_other_of_not_countable (many : ¬ Zeroing.Countable t.initThreads) {mb : Nat}
    (other : clusterCountFor mb ≠ .ok t.clusterCount) :
    (t.resize m mb).failure ≠ none ∧ (t.resize m mb).table = t := by
  rcases resize_cases m t mb with
    ⟨refusal, -, refused⟩ | ⟨counted, -⟩ | ⟨count, layout, -, -, -, ended⟩
  · rw [refused]
    exact ⟨Option.some_ne_none _, rfl⟩
  · exact absurd counted other
  · rw [ended, if_neg many]
    exact ⟨Option.some_ne_none _, rfl⟩

theorem Backed.resize_same (backed : t.Backed) (m : Machine) : t.resize m t.sizeMb = t.clear := by
  have counted : clusterCountFor t.sizeMb = .ok t.clusterCount := backed.counted
  rw [Table.resize, counted]
  exact if_pos rfl

/-- A table is not made for want of countable workers exactly if nothing else stands against it.
Countable workers end every clearing with an empty table, and every resizing with an empty table or
with a refusal and the table of before. Workers that cannot be counted stop a clearing, and a
resizing to the same size, with every entry in place and the first generation begun; no other
resizing goes through either, but these leave the table as it was. -/
theorem upkeep_stops_iff_not_countable (reachable : t.Reachable) (m : Machine) :
    (∀ s fault, make m s = .error (.stopped fault) ↔
        fault = .overflow .multiply ∧ ¬ Zeroing.Countable s.threads ∧ s.validate = .ok () ∧
          ∃ count layout, clusterCountFor s.hashMb = .ok count ∧
            storageFor m count s.largePages = .ok layout) ∧
      (Zeroing.Countable t.initThreads →
        t.clear.failure = none ∧ t.clear.table.Blank ∧
        ∀ mb, ((t.resize m mb).failure = none ∧ (t.resize m mb).table.Blank) ∨
          ∃ refusal, (t.resize m mb).failure = some (.refused refusal) ∧
            (t.resize m mb).table = t) ∧
      (¬ Zeroing.Countable t.initThreads →
        t.clear.failure = some (.stopped (.overflow .multiply)) ∧
        t.clear.table = { t with generation := 0 } ∧ t.resize m t.sizeMb = t.clear ∧
        ∀ mb, clusterCountFor mb ≠ .ok t.clusterCount →
          (t.resize m mb).failure ≠ none ∧ (t.resize m mb).table = t) := by
  have sound := reachable.sound
  refine ⟨make_stopped_iff m, ?_, ?_⟩
  · intro countable
    have done : t.clear.failure = none := by
      rw [clear_failure sound, if_pos countable]
    exact ⟨done, clear_blank sound done, resize_of_countable sound countable⟩
  · intro many
    exact ⟨(clear_stopped sound many).1, clear_of_not_countable sound many,
      reachable.backed.resize_same m, fun _ => resize_other_of_not_countable many⟩

theorem upkeep_stops_iff_not_countable_greatest :
    (oneFinding.setInitThreads 18014398509481983).Reachable ∧
      Zeroing.Countable (oneFinding.setInitThreads 18014398509481983).initThreads ∧
      (oneFinding.setInitThreads 18014398509481983).clear.failure = none ∧
      (oneFinding.setInitThreads 18014398509481983).clear.table.Blank ∧
      make generous ⟨1, 18014398509481984, false⟩ = .error (.stopped (.overflow .multiply)) := by
  have reachable := Reachable.rethreaded 18014398509481983 oneFinding_reachable
  have countable : Zeroing.Countable (oneFinding.setInitThreads 18014398509481983).initThreads := by
    decide
  obtain ⟨stops, ends, -⟩ := upkeep_stops_iff_not_countable reachable generous
  obtain ⟨done, blank, -⟩ := ends countable
  refine ⟨reachable, countable, done, blank, (stops _ _).2 ⟨rfl, by decide, rfl, ?_⟩⟩
  exact ⟨32768, ⟨1048576, 4096⟩, by decide, rfl⟩

/-- A table with a finding in it and a search begun, and more workers than can be counted. -/
def crowded : Table := oneFinding.newSearch.setInitThreads 18014398509481984

/-- Its settings are valid, and clearing it begins the first generation anew with what it held. -/
theorem stale_entries_outlive_clearing :
    crowded.Reachable ∧ crowded.settings.validate = .ok () ∧
      crowded.initThreads = 18014398509481984 ∧ crowded.generation = 8 ∧
      (crowded.look ⟨0, 0⟩).isOccupied = true ∧
      crowded.clear.failure = some (.stopped (.overflow .multiply)) ∧
      crowded.clear.table.generation = 0 ∧
      crowded.clear.table.look ⟨0, 0⟩ = crowded.look ⟨0, 0⟩ := by
  have searching : oneFinding.newSearch.Reachable :=
    .used oneFinding_reachable (Run.start.call .newSearch trivial trivial)
  have reachable : crowded.Reachable := .rethreaded 18014398509481984 searching
  have many : ¬ Zeroing.Countable crowded.initThreads := by decide
  have used : (crowded.look ⟨0, 0⟩).isOccupied = true := by
    unfold crowded
    rw [look_setInitThreads, look_newSearch]
    exact isOccupied_oneFinding
  obtain ⟨stopped, first, kept⟩ := clear_stopped reachable.sound many
  exact ⟨reachable, reachable.backed.valid, by decide, rfl, used, stopped, first, kept _⟩

end PositionCache.Table
