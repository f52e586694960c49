import PositionCache.Proofs.Locality
import PositionCache.Proofs.Replacement

/-!
# Lookups in any order

A lookup changes no more than the date of the slot that it finds, and no lookup searches by dates.
-/

namespace PositionCache

/-! ## Runs that only read -/

def Rule.reading : Rule := fun _ _ call =>
  match call with
  | .write .. | .newSearch => False
  | _ => True

def Log.Asks (log : Log) (key : UInt64) : Prop := ∃ e ∈ log, e.call = .probe key

def Log.Found (log : Log) (w : Writer) : Prop :=
  ∃ key p, ⟨.probe key, .ok (.probed p)⟩ ∈ log ∧ p.found = true ∧ p.writer = w

theorem Log.found_cons {e : Event} {log : Log} {w : Writer} :
    Log.Found (e :: log) w ↔ e.change = .refreshed w ∨ log.Found w := by
  rw [Event.change_eq_refreshed_iff]
  constructor
  · rintro ⟨key, p, member, found, rfl⟩
    rcases List.mem_cons.1 member with rfl | old
    · exact .inl ⟨key, p, rfl, found, rfl⟩
    · exact .inr ⟨key, p, old, found, rfl⟩
  · rintro (⟨key, p, rfl, found, rfl⟩ | ⟨key, p, old, found, rfl⟩)
    · exact ⟨key, p, List.mem_cons_self, found, rfl⟩
    · exact ⟨key, p, List.mem_cons_of_mem _ old, found, rfl⟩

theorem Run.of_keys (start : Table) (keys : List UInt64) :
    ∃ log t, Run .reading start log t ∧ log.reverse.map Event.call = keys.map .probe := by
  induction keys using List.reverseRecOn with
  | nil => exact ⟨[], start, .start, rfl⟩
  | append_singleton keys key ih =>
    obtain ⟨log, t, run, calls⟩ := ih
    refine ⟨_, _, run.call (.probe key) trivial trivial, ?_⟩
    simp only [List.reverse_cons, List.map_append, calls, List.map_singleton, Table.event]

/-! ## Tables that differ in dates -/

theorem Cluster.find?_congr {c d : Cluster} {tag : UInt16}
    (h : ∀ s, (c.get s).Holds tag ↔ (d.get s).Holds tag) : c.find? tag = d.find? tag := by
  obtain ⟨first, second, third⟩ := forall_slot.1 h
  simp only [get] at first second third
  simp only [find?, first, second, third]

/-- What two probes of one key have in common, if not the slot that was given up. -/
structure Probe.Alike (p q : Probe) : Prop where
  found : p.found = q.found
  record : p.record = q.record
  writer : p.found = true → p.writer = q.writer

/-- Some slots are dated to the search of now, and all else is as it was. -/
structure Table.Redated (start t : Table) (dated : Writer → Prop) : Prop where
  clusterCount : t.clusterCount = start.clusterCount
  generation : t.generation = start.generation
  settings : t.settings = start.settings
  refreshed : ∀ w, dated w → t.look w = (start.look w).refresh start.generation
  others : ∀ w, ¬ dated w → t.look w = start.look w

namespace Table.Redated

variable {start t u : Table} {dated : Writer → Prop}

theorem holds_iff (h : start.Redated t dated) (w : Writer) (tag : UInt16) :
    (t.look w).Holds tag ↔ (start.look w).Holds tag := by
  by_cases here : dated w
  · rw [h.refreshed w here]
    rfl
  · rw [h.others w here]

theorem read_eq (h : start.Redated t dated) (aligned : Stamp.Aligned start.generation)
    (w : Writer) : (t.look w).read = (start.look w).read := by
  by_cases here : dated w
  · rw [h.refreshed w here, Entry.read_refresh aligned]
  · rw [h.others w here]

theorem refresh_look (h : start.Redated t dated) (aligned : Stamp.Aligned start.generation)
    (w : Writer) : (t.look w).refresh t.generation = (start.look w).refresh start.generation := by
  rw [h.generation]
  by_cases here : dated w
  · rw [h.refreshed w here, Entry.refresh_refresh aligned]
  · rw [h.others w here]

theorem probe_alike (h : start.Redated t dated) (sound : start.Sound) (sound' : t.Sound)
    (key : UInt64) :
    ∃ p q, (t.probe key).1 = .ok p ∧ (start.probe key).1 = .ok q ∧ p.Alike q := by
  have index : t.clusterIndex key = start.clusterIndex key := by
    rw [clusterIndex, h.clusterCount, clusterIndex]
  have inside := sound.clusterIndex_lt key
  have inside' := sound'.clusterIndex_lt key
  have same : (t.row (t.clusterIndex key)).find? (tagOf key) =
      (start.row (start.clusterIndex key)).find? (tagOf key) := by
    apply Cluster.find?_congr
    intro s
    rw [index]
    exact h.holds_iff ⟨start.clusterIndex key, s⟩ (tagOf key)
  cases find : (start.row (start.clusterIndex key)).find? (tagOf key) with
  | some s =>
    rw [probe_of_find inside' (same.trans find), probe_of_find inside find, index]
    exact ⟨_, _, rfl, rfl, rfl, h.read_eq sound.aligned _, fun _ => rfl⟩
  | none =>
    rw [probe_of_find_none inside' (same.trans find), probe_of_find_none inside find]
    exact ⟨_, _, rfl, rfl, rfl, rfl, fun found => absurd found Bool.false_ne_true⟩

theorem unique (h : start.Redated t dated) (k : start.Redated u dated) (sound : t.Sound)
    (sound' : u.Sound) : t = u := by
  apply eq_of_agree sound sound' (h.settings.trans k.settings.symm)
  intro c
  refine ⟨h.clusterCount.trans k.clusterCount.symm, h.generation.trans k.generation.symm, ?_⟩
  intro s
  by_cases here : dated ⟨c, s⟩
  · rw [h.refreshed _ here, k.refreshed _ here]
  · rw [h.others _ here, k.others _ here]

end Table.Redated

/-! ## What is left by a run -/

namespace Run

variable {start t : Table} {log : Log}

theorem redated (run : Run .reading start log t) (sound : start.Sound) :
    start.Redated t log.Found := by
  refine (run.invariant (fun log t => start.Redated t log.Found) sound ?_ ?_).2
  · refine ⟨rfl, rfl, rfl, ?_, fun _ _ => rfl⟩
    rintro w ⟨key, p, member, -⟩
    exact absurd member List.not_mem_nil
  · intro log t call _ _ before _ reading valid
    have found (w : Writer) : Log.Found (t.event call :: log) w ↔
        (t.event call).change = .refreshed w ∨ log.Found w := Log.found_cons
    cases made : (t.event call).change with
    | none =>
      have same : Log.Found (t.event call :: log) = log.Found := by
        funext w
        simp [found, made]
      rw [same]
      exact before
    | advanced =>
      obtain rfl : call = .newSearch := Event.of_advanced made
      exact absurd reading id
    | stored w key r g =>
      obtain rfl : call = .write w key r g := Event.call_of_stored made
      exact absurd reading id
    | refreshed v =>
      -- A slot that was dated to the search of now before is left as it is.
      rw [made] at valid
      refine ⟨before.clusterCount, before.generation, before.settings, ?_, ?_⟩
      · intro w dated
        rw [Change.look_refreshed valid]
        split_ifs with here
        · exact before.refresh_look sound.aligned w
        · rw [found, made, Change.refreshed.injEq] at dated
          exact before.refreshed w (dated.resolve_left here)
      · intro w other
        rw [found, made, Change.refreshed.injEq, not_or] at other
        rw [Change.look_refreshed valid, if_neg other.1, before.others w other.2]

theorem alike (run : Run .reading start log t) (sound : start.Sound) {e : Event} (member : e ∈ log)
    {key : UInt64} (probed : e.call = .probe key) :
    ∃ p q, e = ⟨.probe key, .ok (.probed p)⟩ ∧ (start.probe key).1 = .ok q ∧ p.Alike q := by
  obtain ⟨later, earlier, split⟩ := List.append_of_mem member
  obtain ⟨before, ran, happened, -⟩ := run.upTo split
  obtain ⟨p, q, answered, first, alike⟩ :=
    (ran.redated sound).probe_alike sound (ran.sound sound) key
  refine ⟨p, q, ?_, first, alike⟩
  rw [happened, probed, Table.event, Call.perform, answered]
  rfl

theorem found_iff (run : Run .reading start log t) (sound : start.Sound) (w : Writer) :
    log.Found w ↔ ∃ key q, log.Asks key ∧ (start.probe key).1 = .ok q ∧ q.found = true ∧
      q.writer = w := by
  constructor
  · rintro ⟨key, p, member, found, rfl⟩
    obtain ⟨p', q, same, first, alike⟩ := run.alike sound member rfl
    obtain rfl : p = p' := by simpa using same
    exact ⟨key, q, ⟨_, member, rfl⟩, first, alike.found ▸ found, (alike.writer found).symm⟩
  · rintro ⟨key, q, ⟨e, member, probed⟩, first, found, rfl⟩
    obtain ⟨p, q', rfl, first', alike⟩ := run.alike sound member probed
    obtain rfl : q = q' := Except.ok.inj (first.symm.trans first')
    exact ⟨key, p, member, alike.found.trans found, alike.writer (alike.found.trans found)⟩

end Run

/-- While nothing is written and no search begins, all probes of a key answer as the first one would,
but for the slot that they give up if they miss. In the end the slots that were found are dated to the
search of now, with the same two marks, and the table is as before in all else. So it is the same
table after every run in which the same keys were probed. Any keys can be probed, in any order. -/
theorem lookups_in_any_order {start : Table} (reachable : start.Reachable) :
    (∀ keys : List UInt64, ∃ log t, Run .reading start log t ∧
        log.reverse.map Event.call = keys.map .probe) ∧
      ∀ log t, Run .reading start log t →
        (∀ e ∈ log, ∀ key, e.call = .probe key → ∃ p q, e.answer = .ok (.probed p) ∧
          (start.probe key).1 = .ok q ∧ p.found = q.found ∧ p.record = q.record ∧
          (p.found = true → p.writer = q.writer)) ∧
        t = { start with clusters := t.clusters } ∧ t.clusters.size = start.clusters.size ∧
        (∀ w, log.Found w → t.look w = { start.look w with stamp := (t.look w).stamp } ∧
          Stamp.generation (t.look w).stamp = start.generation ∧
          Stamp.isPv (t.look w).stamp = Stamp.isPv (start.look w).stamp ∧
          Stamp.bound (t.look w).stamp = Stamp.bound (start.look w).stamp) ∧
        (∀ w, ¬ log.Found w → t.look w = start.look w) ∧
        ∀ log' t', Run .reading start log' t' → (∀ key, log'.Asks key ↔ log.Asks key) →
          t' = t := by
  have sound := reachable.sound
  refine ⟨Run.of_keys start, ?_⟩
  intro log t run
  have redated := run.redated sound
  have settings := redated.settings
  refine ⟨?_, ?_, ?_, ?_, redated.others, ?_⟩
  · intro e member key probed
    obtain ⟨p, q, rfl, first, alike⟩ := run.alike sound member probed
    exact ⟨p, q, rfl, first, alike.found, alike.record, alike.writer⟩
  · simp only [Table.settings, Settings.mk.injEq] at settings
    obtain ⟨sizeMb, initThreads, largePages⟩ := settings
    rw [← redated.clusterCount, ← redated.generation, ← sizeMb, ← initThreads, ← largePages]
  · rw [(run.sound sound).size, sound.size, redated.clusterCount]
  · intro w found
    rw [redated.refreshed w found]
    exact ⟨rfl, Stamp.generation_refresh sound.aligned _, Stamp.isPv_refresh sound.aligned _,
      Stamp.bound_refresh sound.aligned _⟩
  · intro log' t' run' same
    have found : log'.Found = log.Found := by
      funext w
      rw [run'.found_iff sound, run.found_iff sound]
      simp only [same]
    exact (run'.redated sound).unique (found ▸ redated) (run'.sound sound) (run.sound sound)

/-! ## A slot that is given up or not -/

/-- The table after a probe found the deep finding of the first search. -/
def oldestFound : Table :=
  threeFindings.put (threeFindings.victim 8) (threeEntries.first.refresh threeFindings.generation)

theorem victim_threeFindings : threeFindings.victim 8 = ⟨0, 0⟩ := by
  have index : threeFindings.clusterIndex 8 = 0 := by decide
  rw [Table.victim, index, row_threeFindings]
  decide

theorem probe_oldest :
    threeFindings.probe 5 = (.ok ⟨true, threeEntries.first.read, ⟨0, 0⟩⟩, oldestFound) := by
  have index : threeFindings.clusterIndex 5 = 0 := by decide
  have inside := threeFindings_reachable.sound.clusterIndex_lt 5
  have find : (threeFindings.row (threeFindings.clusterIndex 5)).find? (tagOf 5) = some 0 := by
    rw [index, row_threeFindings]
    decide
  rw [Table.probe_of_find inside find, index, look_threeFindings, oldestFound, victim_threeFindings]
  rfl

theorem probe_oldestFound :
    oldestFound.probe 8 = (.ok (Table.missed ⟨0, 1⟩), oldestFound) := by
  have inside := threeFindings_reachable.sound.clusterIndex_lt 8
  have first : threeFindings.clusterIndex 8 = 0 := by decide
  have index : oldestFound.clusterIndex 8 = 0 := by
    rw [oldestFound, Table.clusterIndex_put, first]
  have row : oldestFound.row 0 =
      { threeEntries with first := threeEntries.first.refresh threeFindings.generation } := by
    have here : (⟨0, 0⟩ : Writer).cluster < threeFindings.clusters.size := first ▸ inside
    rw [oldestFound, victim_threeFindings, Table.row_put here, if_pos rfl, row_threeFindings]
    rfl
  have absent : (oldestFound.row (oldestFound.clusterIndex 8)).find? (tagOf 8) = none := by
    rw [index, row]
    decide
  have inside' : oldestFound.clusterIndex 8 < oldestFound.clusters.size := by
    rw [oldestFound, Table.clusterIndex_put, Table.size_put]
    exact inside
  rw [Table.probe_of_find_none inside' absent, index, row]
  rfl

theorem lookups_in_any_order_other_victim :
    threeFindings.Reachable ∧ ∃ p early late t u,
      Run .reading threeFindings
        [⟨.probe 5, .ok (.probed p)⟩, ⟨.probe 8, .ok (.probed early)⟩] t ∧
      Run .reading threeFindings
        [⟨.probe 8, .ok (.probed late)⟩, ⟨.probe 5, .ok (.probed p)⟩] u ∧
      u = t ∧ Stamp.generation (t.look ⟨0, 0⟩).stamp = 16 ∧ p.found = true ∧
      early.writer = ⟨0, 0⟩ ∧ late.writer = ⟨0, 1⟩ := by
  obtain ⟨-, reading⟩ := lookups_in_any_order threeFindings_reachable
  have missed := probe_threeFindings
  rw [victim_threeFindings] at missed
  have first : Run .reading threeFindings _ _ :=
    (Run.start.probe missed trivial).probe probe_oldest trivial
  have second : Run .reading threeFindings _ _ :=
    (Run.start.probe probe_oldest trivial).probe probe_oldestFound trivial
  obtain ⟨-, -, -, found, -, unique⟩ := reading _ _ first
  have dated := (found ⟨0, 0⟩ ⟨5, _, List.mem_cons_self, rfl, rfl⟩).2.1
  refine ⟨threeFindings_reachable, _, _, _, _, _, first, second, unique _ _ second ?_, dated, rfl,
    rfl, rfl⟩
  intro key
  simp [Log.Asks, or_comm]

end PositionCache
