import PositionCache.Proofs.History

/-!
# Upkeep makes a table anew or leaves it

A table is backed: its settings are valid and its storage was served once, so it can be made again.
-/

namespace PositionCache

theorem Settings.validate_iff (s : Settings) :
    s.validate = .ok () ↔ s.hashMb ≠ 0 ∧ s.threads ≠ 0 := by
  unfold validate
  split_ifs with noSize noThreads
  · simp [noSize]
  · simp [noThreads]
  · simp [noSize, noThreads]

/-- The machine has the block for so many clusters, if there is such a block at all. -/
def Machine.Serves (m : Machine) (clusters : Nat) (largePages : Bool) : Prop :=
  ∀ layout, Layout.ofSize? (clusters * Table.clusterBytes)
    (max Table.clusterBytes (Table.pageBytes largePages)) = some layout → m.grants layout = true

namespace Table

theorem storageFor_of_serves {m other : Machine} {clusters : Nat} {largePages : Bool}
    {layout : Layout} (served : storageFor m clusters largePages = .ok layout)
    (h : other.Serves clusters largePages) : storageFor other clusters largePages = .ok layout := by
  unfold storageFor reserve at served ⊢
  split_ifs at served ⊢ with word
  cases block : Layout.ofSize? (clusters * clusterBytes)
    (max clusterBytes (pageBytes largePages)) with
  | none =>
    rw [block] at served
    exact absurd served nofun
  | some found =>
    simp only [block] at served ⊢
    split_ifs at served ⊢ with empty granted
    · exact served
    · exact absurd (h found block) granted

/-! ## Backed tables -/

/-- A machine could make the table, as far as its size and its settings go. -/
structure Backed (t : Table) : Prop where
  valid : t.settings.validate = .ok ()
  counted : clusterCountFor t.settings.hashMb = .ok t.clusterCount
  served : ∃ m layout, storageFor m t.clusterCount t.settings.largePages = .ok layout

variable {t : Table}

theorem Backed.valid_at (h : t.Backed) {mb count : Nat} (counted : clusterCountFor mb = .ok count) :
    Settings.validate ⟨mb, t.initThreads, t.largePages⟩ = .ok () := by
  have someThreads := ((Settings.validate_iff _).1 h.valid).2
  refine (Settings.validate_iff _).2 ⟨?_, someThreads⟩
  rintro rfl
  exact absurd counted nofun

theorem settings_clear (t : Table) : t.clear.table.settings = t.settings := by
  simp only [clear]
  split <;> rfl

theorem clusterCount_clear (t : Table) : t.clear.table.clusterCount = t.clusterCount := by
  simp only [clear]
  split <;> rfl

theorem Backed.clear (h : t.Backed) : t.clear.table.Backed := by
  refine ⟨?_, ?_, ?_⟩
  · rw [settings_clear]
    exact h.valid
  · rw [settings_clear, clusterCount_clear]
    exact h.counted
  · rw [settings_clear, clusterCount_clear]
    exact h.served

theorem Backed.setSizeMb (h : t.Backed) {mb : Nat}
    (counted : clusterCountFor mb = .ok t.clusterCount) : Backed { t with sizeMb := mb } :=
  ⟨h.valid_at counted, counted, h.served⟩

theorem Backed.resize (h : t.Backed) (m : Machine) (mb : Nat) : (t.resize m mb).table.Backed := by
  rcases resize_cases m t mb with
    ⟨refusal, -, refused⟩ | ⟨counted, cleared⟩ | ⟨count, layout, -, counted, served, ended⟩
  · rw [refused]
    exact h
  · rw [cleared]
    exact (h.setSizeMb counted).clear
  · rw [ended]
    split_ifs
    · exact ⟨h.valid_at counted, counted, m, layout, served⟩
    · exact h

theorem Backed.setInitThreads (h : t.Backed) (threads : Nat) :
    (t.setInitThreads threads).Backed := by
  have someSize := ((Settings.validate_iff _).1 h.valid).1
  refine ⟨(Settings.validate_iff _).2 ⟨someSize, ?_⟩, h.counted, h.served⟩
  change max threads 1 ≠ 0
  omega

end Table

theorem Change.settings_apply (t : Table) (c : Change) : (c.apply t).settings = t.settings := by
  cases c <;> rfl

theorem Run.settings_eq {rule : Rule} {start t : Table} {log : Log} (run : Run rule start log t)
    (h : start.Sound) : t.settings = start.settings := by
  refine (run.invariant (fun _ t => t.settings = start.settings) h rfl ?_).2
  intro log t c _ _ same _ _ _
  rw [Change.settings_apply, same]

namespace Table

variable {t : Table}

theorem Reachable.backed (h : t.Reachable) : t.Backed := by
  induction h with
  | made made =>
    obtain ⟨count, layout, valid, counted, served, rfl⟩ := anew_of_make made
    exact ⟨valid, counted, _, layout, served⟩
  | used reached run ih =>
    have sameSettings := run.settings_eq reached.sound
    have sameCount := run.clusterCount_eq reached.sound
    exact ⟨sameSettings ▸ ih.valid, sameSettings ▸ sameCount ▸ ih.counted,
      sameSettings ▸ sameCount ▸ ih.served⟩
  | cleared _ ih => exact ih.clear
  | resized m mb _ ih => exact ih.resize m mb
  | rethreaded threads _ ih => exact ih.setInitThreads threads

/-! ## All or nothing -/

theorem Backed.make_clear (backed : t.Backed) (sound : t.Sound) (done : t.clear.failure = none)
    {m : Machine} (serves : m.Serves t.clusterCount t.largePages) :
    make m t.settings = .ok t.clear.table := by
  have countable := countable_of_clear sound done
  -- Another machine served the storage, so there is such a block, and this one grants it.
  obtain ⟨_, layout, served⟩ := backed.served
  rw [make_of_served backed.valid backed.counted (storageFor_of_serves served serves),
    clear_of_countable sound countable]
  exact if_pos countable

theorem Backed.make_resize (backed : t.Backed) (sound : t.Sound) {m : Machine} {mb : Nat}
    (done : (t.resize m mb).failure = none) {other : Machine}
    (serves : other.Serves (t.resize m mb).table.clusterCount t.largePages) :
    make other ⟨mb, t.initThreads, t.largePages⟩ = .ok (t.resize m mb).table := by
  rcases resize_cases m t mb with
    ⟨refusal, -, refused⟩ | ⟨counted, cleared⟩ | ⟨count, layout, -, counted, served, ended⟩
  · rw [refused] at done
    exact absurd done (Option.some_ne_none _)
  · rw [cleared] at done serves ⊢
    rw [clusterCount_clear] at serves
    exact (backed.setSizeMb counted).make_clear (sound.setSizeMb mb) done serves
  · rw [ended] at done serves ⊢
    split_ifs at done serves ⊢ with countable
    rw [make_of_served (backed.valid_at counted) counted (storageFor_of_serves served serves)]
    exact if_pos countable

/-- A resizing that is refused leaves the table as it was. One that goes through, and a clearing
that does, leave the table that every machine with the memory for it makes with the size asked for
and with the number of workers and the page size of now. -/
theorem upkeep_all_or_nothing (reachable : t.Reachable) :
    (∀ m mb refusal, (t.resize m mb).failure = some (.refused refusal) →
        refusal ≠ .noThreads ∧ (t.resize m mb).table = t) ∧
      (∀ m mb, (t.resize m mb).failure = none → ∀ other : Machine,
        other.Serves (t.resize m mb).table.clusterCount t.largePages →
        make other ⟨mb, t.initThreads, t.largePages⟩ = .ok (t.resize m mb).table) ∧
      (t.clear.failure = none → ∀ other : Machine, other.Serves t.clusterCount t.largePages →
        make other ⟨t.sizeMb, t.initThreads, t.largePages⟩ = .ok t.clear.table) := by
  have sound := reachable.sound
  have backed := reachable.backed
  refine ⟨?_, ?_, ?_⟩
  · intro m mb refusal failed
    rcases resize_cases m t mb with
      ⟨given, other, refused⟩ | ⟨-, cleared⟩ | ⟨count, layout, -, -, -, ended⟩
    · rw [refused] at failed ⊢
      obtain rfl := Failure.refused.inj (Option.some.inj failed)
      exact ⟨other, rfl⟩
    · rw [cleared, clear_failure (sound.setSizeMb mb)] at failed
      split_ifs at failed
      exact absurd failed nofun
    · rw [ended] at failed
      split_ifs at failed
      exact absurd failed nofun
  · intro m mb done other serves
    exact backed.make_resize sound done serves
  · intro done other serves
    exact backed.make_clear sound done serves

theorem generous_serves (clusters : Nat) (largePages : Bool) :
    generous.Serves clusters largePages :=
  fun _ _ => rfl

theorem upkeep_all_or_nothing_one_finding :
    oneFinding.Reachable ∧ (oneFinding.resize generous 0).failure = some (.refused .zeroSize) ∧
      (oneFinding.resize generous 0).table = oneFinding ∧
      (oneFinding.resize generous 2).failure = none ∧
      make generous ⟨2, 1, false⟩ = .ok (oneFinding.resize generous 2).table ∧
      oneFinding.clear.failure = none ∧ oneFinding.clear.table = least := by
  obtain ⟨refused, resized, cleared⟩ := upkeep_all_or_nothing oneFinding_reachable
  have one : Zeroing.Countable oneFinding.initThreads := Zeroing.countable_one
  have toNothing : (oneFinding.resize generous 0).failure = some (.refused .zeroSize) := rfl
  have toTwice : (oneFinding.resize generous 2).failure = none := by
    have served : storageFor generous 65536 oneFinding.largePages = .ok ⟨2097152, 4096⟩ := by rfl
    have counted : clusterCountFor 2 = .ok 65536 := by decide
    have other : ¬ 65536 = oneFinding.clusterCount := by decide
    simp only [resize, counted, if_neg other, storage_of_served served, if_pos one]
  have done : oneFinding.clear.failure = none := by
    rw [clear_failure oneFinding_reachable.sound, if_pos one]
  have same := cleared done generous (generous_serves _ _)
  refine ⟨oneFinding_reachable, toNothing, (refused generous 0 _ toNothing).2, toTwice,
    resized generous 2 toTwice generous (generous_serves _ _), done, ?_⟩
  exact (Except.ok.inj (make_least.symm.trans same)).symm

end Table

end PositionCache
