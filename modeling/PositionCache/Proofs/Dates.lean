import PositionCache.Proofs.Dated
import PositionCache.Proofs.History
import PositionCache.Proofs.Occupancy

/-!
# Five bits of date stand for all

While no slot in use is 32 searches old, the table answers as the one with unbounded dates.
-/

namespace PositionCache

/-! ## Numbers of searches -/

def Change.begins : Change → Bool
  | advanced => true
  | _ => false

def Change.uses (w : Writer) : Change → Bool
  | refreshed v | stored v .. => v = w
  | _ => false

namespace Log

def searches (log : Log) : Nat := log.countP fun e => e.change.begins

/-- The number of the search in which a slot was last written or found. -/
def lastUsed (log : Log) (w : Writer) : Nat :=
  match log with
  | [] => 0
  | e :: earlier => if e.change.uses w then searches earlier else lastUsed earlier w

theorem searches_cons (e : Event) (log : Log) :
    searches (e :: log) = log.searches + if e.change.begins then 1 else 0 := by
  rw [searches, List.countP_cons]
  rfl

theorem lastUsed_le (log : Log) (w : Writer) : log.lastUsed w ≤ log.searches := by
  induction log with
  | nil => exact Nat.zero_le _
  | cons e earlier ih =>
    have grows : searches earlier ≤ searches (e :: earlier) := by
      rw [searches_cons]
      omega
    unfold lastUsed
    split_ifs
    · exact grows
    · exact ih.trans grows

/-- No slot in use was last used 32 or more searches ago. -/
def Recent (log : Log) (t : Table) : Prop :=
  ∀ w, (t.look w).isOccupied = true → log.searches - log.lastUsed w < 32

end Log

theorem Log.recent_of_few {log : Log} (h : log.searches < 32) (t : Table) : log.Recent t :=
  fun _ _ => (Nat.sub_le _ _).trans_lt h

/-! ## Rules -/

/-- Writes pass the table's generation at that moment. -/
def Rule.dated : Rule
  | _, t, .write _ _ _ g => g = t.generation
  | _, _, _ => True

/-- So do questions, and no slot in use is 32 searches old. -/
def Rule.recent : Rule
  | log, t, .write _ _ _ g => g = t.generation ∧ log.Recent t
  | log, t, .shouldOverwrite _ _ _ _ _ g => g = t.generation ∧ log.Recent t
  | log, t, _ => log.Recent t

theorem Rule.recent_dated (log : Log) (t : Table) (c : Call) (h : Rule.recent log t c) :
    Rule.dated log t c := by
  cases c with
  | write => exact h.1
  | probe | shouldOverwrite | newSearch | hashfull | hashfullWithAge | prefetch => trivial

theorem Rule.recent_recent {log : Log} {t : Table} {c : Call} (h : Rule.recent log t c) :
    log.Recent t := by
  cases c with
  | write | shouldOverwrite => exact h.2
  | probe | newSearch | hashfull | hashfullWithAge | prefetch => exact h

theorem generation_of_stored {log : Log} {t : Table} {c : Call} {w : Writer} {key : UInt64}
    {r : Record} {g : UInt8} (dated : Rule.dated log t c)
    (stored : (t.event c).change = .stored w key r g) : g = t.generation := by
  have call : c = .write w key r g := Event.call_of_stored stored
  rw [call] at dated
  exact dated

/-! ## Bytes and dates -/

/-- The generation and the stamps of the slots in use are the numbers of searches modulo 32. -/
structure Dates (log : Log) (t : Table) : Prop where
  generation : Stamp.search t.generation = log.searches % 32
  stamps : ∀ w, (t.look w).isOccupied = true →
    Stamp.search (t.look w).stamp = log.lastUsed w % 32

theorem Dates.nothing {t : Table} (blank : t.Blank) : Dates [] t where
  generation := by
    rw [blank.generation]
    rfl
  stamps w used := by
    rw [blank.look] at used
    exact absurd used Bool.false_ne_true

theorem Dates.generation_apply {log : Log} {t : Table} (dates : Dates log t) (sound : t.Sound)
    (e : Event) : Stamp.search (e.change.apply t).generation = Log.searches (e :: log) % 32 := by
  rw [Log.searches_cons]
  cases e.change with
  | none | refreshed | stored => exact dates.generation
  | advanced =>
    have next := Stamp.search_succ sound.aligned
    rw [dates.generation] at next
    exact next.trans (Nat.mod_add_mod _ 32 1)

theorem Dates.stamps_apply {log : Log} {t : Table} (dates : Dates log t) (sound : t.Sound)
    {e : Event} (valid : e.change.Valid t)
    (dated : ∀ {w key r g}, e.change = .stored w key r g → g = t.generation) {w : Writer}
    (used : ((e.change.apply t).look w).isOccupied = true) :
    Stamp.search ((e.change.apply t).look w).stamp = Log.lastUsed (e :: log) w % 32 := by
  unfold Log.lastUsed
  cases change : e.change with
  | none | advanced =>
    rw [change] at used
    exact dates.stamps w used
  | refreshed v =>
    rw [change] at used valid
    rw [Change.look_refreshed valid] at used ⊢
    by_cases same : v = w
    · simp only [same, Change.uses, decide_true, if_true]
      rw [Entry.refresh, Stamp.search_refresh sound.aligned, dates.generation]
    · simp only [same, Change.uses, decide_false, if_false] at used ⊢
      exact dates.stamps w used
  | stored v key r g =>
    obtain rfl := dated change
    rw [change] at used valid
    rw [Change.look_stored valid] at used ⊢
    by_cases same : v = w
    · simp only [same, Change.uses, decide_true, if_true]
      rw [Entry.overwrite, Stamp.search_pack sound.aligned, dates.generation]
    · simp only [same, Change.uses, decide_false, if_false] at used ⊢
      exact dates.stamps w used

theorem Run.dates {start t : Table} {log : Log} (blank : start.Blank)
    (run : Run .dated start log t) : Dates log t := by
  refine (run.invariant Dates blank.sound (Dates.nothing blank) ?_).2
  intro log t c _ sound dates _ dated valid
  constructor
  · exact dates.generation_apply sound _
  · intro w used
    exact dates.stamps_apply sound valid (generation_of_stored dated) used

theorem Dates.age {log : Log} {t : Table} (dates : Dates log t) (sound : t.Sound) {w : Writer}
    (used : (t.look w).isOccupied = true) :
    (t.look w).age t.generation = (log.searches - log.lastUsed w) % 32 := by
  have past := log.lastUsed_le w
  rw [Entry.age, Stamp.age_eq sound.aligned, dates.generation, dates.stamps w used]
  omega

/-! ## Unpacking -/

def DatedEntry.ofEntry (e : Entry) (lastUsed : Nat) : DatedEntry where
  tag := e.tag
  depthByte := e.depthByte
  isPv := Stamp.isPv e.stamp
  bound := Stamp.bound e.stamp
  move := e.move
  value := e.value
  eval := e.eval
  lastUsed := lastUsed

/-- The table with its slots unpacked and dated by the log. -/
def Table.unpack (log : Log) (t : Table) : DatedTable where
  clusterCount := t.clusterCount
  slots w := .ofEntry (t.look w) (log.lastUsed w)
  searches := log.searches

theorem Table.Blank.unpack {t : Table} (blank : t.Blank) :
    t.unpack [] = .blank t.clusterCount := by
  rw [Table.unpack, DatedTable.blank, DatedTable.mk.injEq]
  refine ⟨rfl, ?_, rfl⟩
  funext w
  rw [blank.look]
  rfl

theorem Table.unpack_put {log : Log} {t : Table} {v : Writer} (inside : v.cluster < t.clusters.size)
    (x : Entry) {e : Event} (begins : e.change.begins = false)
    (uses : ∀ w, e.change.uses w = decide (v = w)) :
    (t.put v x).unpack (e :: log) = (t.unpack log).put v (.ofEntry x log.searches) := by
  rw [unpack, DatedTable.put, DatedTable.mk.injEq]
  refine ⟨rfl, ?_, ?_⟩
  · funext w
    rw [look_put inside, Log.lastUsed, uses]
    by_cases same : v = w
    · simp only [same, decide_true, if_true]
    · simp only [same, decide_false, if_false]
      rfl
  · rw [Log.searches_cons, begins]
    rfl

theorem Table.unpack_apply {log : Log} {t : Table} (sound : t.Sound) {e : Event}
    (valid : e.change.Valid t)
    (dated : ∀ {w key r g}, e.change = .stored w key r g → g = t.generation) :
    (e.change.apply t).unpack (e :: log) = (t.unpack log).apply e.change := by
  cases change : e.change with
  | none | advanced =>
    simp only [Change.apply, DatedTable.apply, unpack, Log.searches_cons, Log.lastUsed, change,
      Change.begins, Change.uses]
    rfl
  | refreshed v =>
    rw [change] at valid
    rw [Change.apply, DatedTable.apply, unpack_put valid.1 _ (by rw [change]; rfl)
      (by rw [change]; intro w; rfl)]
    apply congrArg
    simp only [DatedEntry.ofEntry, DatedEntry.use, Entry.refresh, unpack,
      Stamp.isPv_refresh sound.aligned, Stamp.bound_refresh sound.aligned]
  | stored v key r g =>
    obtain rfl := dated change
    rw [change] at valid
    rw [Change.apply, DatedTable.apply, unpack_put valid.1 _ (by rw [change]; rfl)
      (by rw [change]; intro w; rfl)]
    apply congrArg
    simp only [DatedEntry.ofEntry, DatedEntry.overwrite, Entry.overwrite, unpack,
      Stamp.isPv_pack sound.aligned, Stamp.bound_pack sound.aligned]
    rfl

/-! ## The same answers -/

namespace Dates

variable {log : Log} {t : Table}

theorem age_of_recent (dates : Dates log t) (sound : t.Sound) (recent : log.Recent t) {w : Writer}
    (used : (t.look w).isOccupied = true) :
    (t.look w).age t.generation = log.searches - log.lastUsed w := by
  rw [dates.age sound used, Nat.mod_eq_of_lt (recent w used)]

theorem age_of_unused (dates : Dates log t) (sound : t.Sound) {w : Writer}
    (unused : (t.look w).isOccupied = false) :
    (t.look w).age t.generation = log.searches % 32 := by
  have zero : Stamp.search Entry.empty.stamp = 0 := rfl
  rw [sound.slots w unused, Entry.age, Stamp.age_eq sound.aligned, dates.generation, zero]
  omega

theorem worth_eq (dates : Dates log t) (sound : t.Sound) (recent : log.Recent t) (w : Writer) :
    (t.look w).worth t.generation = ((t.unpack log).slots w).worth log.searches := by
  have occupied : ((t.unpack log).slots w).isOccupied = (t.look w).isOccupied := rfl
  unfold Entry.worth DatedEntry.worth
  rw [occupied]
  split_ifs with used
  · rw [dates.age_of_recent sound recent used, Entry.ageWeight, Nat.cast_mul]
    rfl
  · rfl

theorem leastWorth_eq (dates : Dates log t) (sound : t.Sound) (recent : log.Recent t) (i : Nat) :
    (t.row i).leastWorth t.generation = (t.unpack log).leastWorth i := by
  have worth (s : Slot) : ((t.unpack log).slots ⟨i, s⟩).worth (t.unpack log).searches =
      ((t.row i).get s).worth t.generation := (dates.worth_eq sound recent ⟨i, s⟩).symm
  obtain ⟨least, first⟩ := Cluster.leastWorth_spec (t.row i) t.generation
  generalize (t.row i).leastWorth t.generation = best at least first
  have found : ((List.finRange 3).find? fun s : Slot => ∀ r,
      ((t.unpack log).slots ⟨i, s⟩).worth (t.unpack log).searches ≤
        ((t.unpack log).slots ⟨i, r⟩).worth (t.unpack log).searches) = some best := by
    simp only [worth]
    rw [List.find?_eq_some_iff_getElem]
    refine ⟨decide_eq_true least, best, by simp, by simp, fun j below => ?_⟩
    have inside : j < 3 := below.trans best.isLt
    rw [List.getElem_finRange, Bool.not_eq_true', decide_eq_false_iff_not]
    intro least'
    exact absurd (least' best) (not_le.2 (first ⟨j, inside⟩ below))
  exact (congrArg (fun slot : Option Slot => slot.getD (Fin.last 2)) found).symm

theorem find?_unpack (log : Log) (t : Table) (i : Nat) (tag : UInt16) :
    (t.unpack log).find? i tag = (t.row i).find? tag := by
  have holds (s : Slot) : ((t.unpack log).slots ⟨i, s⟩).holds tag =
      decide (((t.row i).get s).Holds tag) := by
    rw [Bool.eq_iff_iff, decide_eq_true_iff, DatedEntry.holds, Bool.and_eq_true, beq_iff_eq]
    rfl
  have slots : List.finRange 3 = [0, 1, 2] := rfl
  simp only [DatedTable.find?, slots, List.find?_cons, List.find?_nil, holds]
  unfold Cluster.find?
  simp only [Cluster.get]
  split_ifs <;> simp [*]

theorem probe_eq (dates : Dates log t) (sound : t.Sound) (recent : log.Recent t) (key : UInt64) :
    (t.probe key).1 = .ok ((t.unpack log).probe key).1 := by
  have inside := sound.clusterIndex_lt key
  have index : (t.unpack log).clusterIndex key = t.clusterIndex key :=
    (Table.clusterIndex_eq t key).symm
  rw [DatedTable.probe, index, find?_unpack]
  cases find : (t.row (t.clusterIndex key)).find? (tagOf key) with
  | some s =>
    rw [Table.probe_of_find inside find]
    rfl
  | none => rw [Table.probe_of_find_none inside find, dates.leastWorth_eq sound recent]

theorem shouldOverwrite_eq (dates : Dates log t) (sound : t.Sound) (recent : log.Recent t)
    (w : Writer) (key : UInt64) (pv : Bool) (b : Bound) (d : Depth) :
    t.shouldOverwrite w key pv b d t.generation = (t.unpack log).shouldOverwrite w key pv b d := by
  have count : (t.unpack log).clusterCount = t.clusters.size := sound.size.symm
  have old : ((t.unpack log).slots w).isOld (t.unpack log).searches ↔
      (t.look w).age t.generation ≠ 0 := by
    have occupied : ((t.unpack log).slots w).isOccupied = (t.look w).isOccupied := rfl
    unfold DatedEntry.isOld
    rw [occupied]
    cases used : (t.look w).isOccupied with
    | true =>
      rw [if_pos rfl, dates.age_of_recent sound recent used]
      rfl
    | false =>
      rw [if_neg Bool.false_ne_true, dates.age_of_unused sound used]
      rfl
  unfold Table.shouldOverwrite DatedTable.shouldOverwrite
  rw [count]
  by_cases inside : w.cluster < t.clusters.size
  · rw [Table.entry_eq_look inside, if_neg (Nat.not_le.2 inside), DatedEntry.shouldYield]
    simp only [old]
    rfl
  · unfold Table.entry
    rw [dif_neg inside, if_pos (Nat.not_lt.1 inside)]
    rfl

theorem hashfullWithAge_eq (dates : Dates log t) (sound : t.Sound) (recent : log.Recent t)
    (maxAge : Nat) : t.hashfullWithAge maxAge = .ok ((t.unpack log).hashfullWithAge maxAge) := by
  have same (w : Writer) : ((t.look w).isOccupied && decide ((t.look w).age t.generation ≤ maxAge)) =
      (((t.unpack log).slots w).isOccupied &&
        decide (((t.unpack log).slots w).age (t.unpack log).searches ≤ maxAge)) := by
    have occupied : ((t.unpack log).slots w).isOccupied = (t.look w).isOccupied := rfl
    rw [occupied]
    cases used : (t.look w).isOccupied with
    | true =>
      rw [dates.age_of_recent sound recent used]
      rfl
    | false => rfl
  have sampled : (t.unpack log).sample =
      (Table.sampledSlots t.clusterCount).map (t.unpack log).slots := by
    rw [Table.sampledSlots, List.map_flatMap]
    simp only [List.map_map]
    rfl
  rw [Table.hashfullWithAge, Table.perMille_eq sound, DatedTable.hashfullWithAge, sampled,
    List.countP_map, Table.length_sampledSlots]
  simp only [same]
  rfl

theorem write_eq (sound : t.Sound) (log : Log) (w : Writer) (key : UInt64) (r : Record) :
    (t.write w key r t.generation).1 = ((t.unpack log).write w key r).1 := by
  have count : (t.unpack log).clusterCount = t.clusters.size := sound.size.symm
  unfold DatedTable.write
  rw [count]
  by_cases inside : w.cluster < t.clusters.size
  · rw [if_neg (Nat.not_le.2 inside)]
    by_cases storable : Depth.Storable r.depth
    · rw [Table.write_of_fits inside ⟨storable, sound.aligned⟩, if_neg (not_not_intro storable)]
    · simp only [Table.write, dif_pos inside, Entry.save, if_pos storable]
  · unfold Table.write
    rw [dif_neg inside, if_pos (Nat.not_lt.1 inside)]

theorem event_eq (dates : Dates log t) (sound : t.Sound) {c : Call} (h : Rule.recent log t c) :
    t.event c = (t.unpack log).event c := by
  have recent := Rule.recent_recent h
  refine (Event.mk.injEq ..).symm ▸ ⟨rfl, ?_⟩
  cases c with
  | probe key =>
    rw [Call.perform, dates.probe_eq sound recent]
    rfl
  | write w key r g =>
    obtain ⟨rfl, -⟩ := h
    rw [Call.perform, write_eq sound log]
    rfl
  | shouldOverwrite w key pv b d g =>
    obtain ⟨rfl, -⟩ := h
    rw [Call.perform, dates.shouldOverwrite_eq sound recent]
    rfl
  | newSearch => rfl
  | hashfull =>
    rw [Call.perform, Table.hashfull_eq sound, dates.hashfullWithAge_eq sound recent]
    rfl
  | hashfullWithAge maxAge =>
    rw [Call.perform, dates.hashfullWithAge_eq sound recent]
    rfl
  | prefetch key =>
    rw [Call.perform, Table.prefetch, Table.cluster, dif_pos (sound.clusterIndex_lt key)]
    rfl

end Dates

/-! ## Runs -/

/-- While no slot in use is 32 searches old, a run is one of the table with unbounded dates, with
the same answers. -/
theorem Run.unpack {start t : Table} {log : Log} (blank : start.Blank)
    (run : Run .recent start log t) :
    DatedTable.Run (.blank start.clusterCount) log (t.unpack log) := by
  induction run with
  | start =>
    rw [blank.unpack]
    exact .start
  | @call log t earlier c bound allowed ih =>
    have sound := earlier.sound blank.sound
    have dates := (earlier.mono Rule.recent_dated).dates blank
    have same := dates.event_eq sound allowed
    obtain ⟨valid, after⟩ := perform_spec sound c
    have dated {w key r g} : (t.event c).change = .stored w key r g → g = t.generation :=
      generation_of_stored (Rule.recent_dated _ _ _ allowed)
    rw [after, Table.unpack_apply sound valid dated]
    have step := ih.call c
    rw [DatedTable.perform_spec, ← same] at step
    exact step

/-- In a run whose writes pass the current generation: the generation is 8 times the number of
searches modulo 32; the age of a slot in use is the number of searches since it was last written or
found, modulo 32, and its marks are those of the last write. While no slot in use is 32 searches
old, every probe, question and estimate is answered as by the unpacked table; and a run that is
never in another state has the log of a run of the table with unbounded dates. -/
theorem packed_dates_refine {start t : Table} {log : Log} (fresh : start.Fresh)
    (run : Run .dated start log t) :
    t.generation.toNat = 8 * (log.searches % 32) ∧
    (∀ w, (t.look w).isOccupied = true →
      log.lastUsed w ≤ log.searches ∧
      (t.look w).age t.generation = (log.searches - log.lastUsed w) % 32 ∧
      ∃ key r rest, log.writesTo w = (key, r) :: rest ∧ Stamp.isPv (t.look w).stamp = r.isPv ∧
        Stamp.bound (t.look w).stamp = r.bound) ∧
    (log.Recent t →
      (∀ key, (t.probe key).1 = .ok ((t.unpack log).probe key).1) ∧
      (∀ w key pv b d, t.shouldOverwrite w key pv b d t.generation =
        (t.unpack log).shouldOverwrite w key pv b d) ∧
      t.hashfull = .ok (t.unpack log).hashfull ∧
      ∀ maxAge, t.hashfullWithAge maxAge = .ok ((t.unpack log).hashfullWithAge maxAge)) ∧
    (Run .recent start log t →
      DatedTable.Run (.blank start.clusterCount) log (t.unpack log)) := by
  have sound := run.sound fresh.sound
  have dates := run.dates fresh.blank
  refine ⟨?_, ?_, ?_, fun recent => recent.unpack fresh.blank⟩
  · rw [Stamp.toNat_of_aligned sound.aligned, dates.generation]
  · intro w used
    have keeps := run.keeps fresh.blank w
    refine ⟨log.lastUsed_le w, dates.age sound used, ?_⟩
    cases writes : log.writesTo w with
    | nil =>
      rw [keeps.unused writes] at used
      exact absurd used Bool.false_ne_true
    | cons write rest =>
      obtain ⟨-, -, -, bound, isPv⟩ := keeps.last writes
      exact ⟨write.1, write.2, rest, rfl, isPv, bound⟩
  · intro recent
    refine ⟨dates.probe_eq sound recent, dates.shouldOverwrite_eq sound recent, ?_,
      dates.hashfullWithAge_eq sound recent⟩
    rw [Table.hashfull_eq sound]
    exact dates.hashfullWithAge_eq sound recent 0

/-- A finding is stored in the first search, and a second one begins. -/
def storedBefore (w : Writer) : Log :=
  ⟨.newSearch, .ok .done⟩ :: Log.store [] (Table.missed w) 5 shallowFinding 0

theorem packed_dates_refine_second_search :
    ∃ t, Table.least.Fresh ∧ Run .dated Table.least (storedBefore ⟨0, 0⟩) t ∧
      Run .recent Table.least (storedBefore ⟨0, 0⟩) t ∧ t.generation.toNat = 8 ∧
      (t.look ⟨0, 0⟩).age t.generation = 1 ∧
      DatedTable.Run (.blank 32768) (storedBefore ⟨0, 0⟩) (t.unpack (storedBefore ⟨0, 0⟩)) := by
  have fresh := Table.least_fresh
  have few (log : Log) (h : log.searches = 0) (t : Table) : log.Recent t :=
    Log.recent_of_few (h.trans_lt (by decide)) t
  have stored : Run .recent Table.least (Log.store [] (Table.missed ⟨0, 0⟩) 5 shallowFinding 0)
      (Table.least.put ⟨0, 0⟩ (Entry.empty.overwrite (tagOf 5) shallowFinding 0)) :=
    fresh.blank.run_store (by decide) (by decide) (few _ rfl _) ⟨rfl, few _ rfl _⟩
  have recent := stored.call .newSearch trivial (few _ rfl _)
  have dated := recent.mono Rule.recent_dated
  obtain ⟨generation, entries, -, unbounded⟩ := packed_dates_refine fresh dated
  have inside := fresh.sound.clusterIndex_lt 0
  obtain ⟨-, age, -⟩ := entries ⟨0, 0⟩ (by
    rw [Call.perform, Table.look_newSearch, Table.look_put_self inside]
    decide)
  exact ⟨_, fresh, dated, recent, generation, age, unbounded recent⟩

end PositionCache
