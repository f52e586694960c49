import PositionCache.Proofs.Faults

/-!
# Clusters do not interfere

A lookup is about the cluster of its key, and the use of a writer about the cluster of the writer.
-/

namespace PositionCache

/-! ## The cluster of a call -/

def Call.cluster? (t : Table) : Call → Option Nat
  | probe key | prefetch key => some (t.clusterIndex key)
  | write w .. | shouldOverwrite w .. => some w.cluster
  | newSearch | hashfull | hashfullWithAge _ => none

/-- A search begins in every cluster at once. -/
def Call.concerns (t : Table) (c : Nat) : Call → Bool
  | newSearch => true
  | call => call.cluster? t == some c

def Log.concerning (log : Log) (t : Table) (c : Nat) : Log :=
  log.filter fun e => e.call.concerns t c

theorem Call.concerns_of_cluster {t : Table} {c : Nat} {call : Call}
    (h : call.cluster? t = some c) (d : Nat) : call.concerns t d = decide (c = d) := by
  cases call with
  | probe | write | shouldOverwrite | prefetch =>
    change (cluster? t _ == some d) = decide (c = d)
    rw [h, Option.some_beq_some, beq_eq_decide]
  | newSearch | hashfull | hashfullWithAge => exact absurd h.symm (Option.some_ne_none c)

theorem Call.cluster?_congr {t u : Table} (h : t.clusterCount = u.clusterCount) (call : Call) :
    call.cluster? t = call.cluster? u := by
  cases call with
  | probe | prefetch => simp only [cluster?, Table.clusterIndex, h]
  | newSearch | write | shouldOverwrite | hashfull | hashfullWithAge => rfl

theorem Call.concerns_congr {t u : Table} (h : t.clusterCount = u.clusterCount) (c : Nat)
    (call : Call) : call.concerns t c = call.concerns u c := by
  cases call with
  | newSearch => rfl
  | probe | write | shouldOverwrite | hashfull | hashfullWithAge | prefetch =>
    exact congrArg (· == some c) (cluster?_congr h _)

theorem Event.change_eq_refreshed_iff {e : Event} {w : Writer} :
    e.change = .refreshed w ↔
      ∃ key p, e = ⟨.probe key, .ok (.probed p)⟩ ∧ p.found = true ∧ p.writer = w := by
  constructor
  · intro h
    unfold change at h
    split at h
    · next key p =>
      split_ifs at h with found
      exact ⟨key, p, rfl, found, Change.refreshed.inj h⟩
    all_goals exact absurd h nofun
  · rintro ⟨key, p, rfl, found, rfl⟩
    exact if_pos found

theorem Event.of_advanced {e : Event} (h : e.change = .advanced) : e.call = .newSearch := by
  unfold change at h
  split at h
  · split_ifs at h
  · exact absurd h nofun
  · rfl
  · exact absurd h nofun

/-! ## Tables that agree in a cluster -/

namespace Table

/-- Nothing that concerns the cluster tells one table from the other. -/
structure Agree (t u : Table) (c : Nat) : Prop where
  clusterCount : t.clusterCount = u.clusterCount
  generation : t.generation = u.generation
  look : ∀ s, t.look ⟨c, s⟩ = u.look ⟨c, s⟩

variable {t u v : Table} {c : Nat}

namespace Agree

theorem refl (t : Table) (c : Nat) : t.Agree t c := ⟨rfl, rfl, fun _ => rfl⟩

theorem symm (h : t.Agree u c) : u.Agree t c :=
  ⟨h.clusterCount.symm, h.generation.symm, fun s => (h.look s).symm⟩

theorem trans (h : t.Agree u c) (k : u.Agree v c) : t.Agree v c :=
  ⟨h.clusterCount.trans k.clusterCount, h.generation.trans k.generation,
    fun s => (h.look s).trans (k.look s)⟩

theorem row (h : t.Agree u c) : t.row c = u.row c := Cluster.ext_get h.look

theorem look_of_cluster (h : t.Agree u c) {w : Writer} (here : w.cluster = c) :
    t.look w = u.look w := by
  subst here
  exact h.look w.slot

theorem apply (h : t.Agree u c) {change : Change} (valid : change.Valid t)
    (valid' : change.Valid u) : (change.apply t).Agree (change.apply u) c := by
  cases change with
  | none => exact h
  | advanced => exact ⟨h.clusterCount, congrArg (· + Stamp.generationStep) h.generation, h.look⟩
  | refreshed w =>
    refine ⟨h.clusterCount, h.generation, fun s => ?_⟩
    rw [Change.look_refreshed valid, Change.look_refreshed valid', h.look, h.generation]
  | stored w key r g =>
    refine ⟨h.clusterCount, h.generation, fun s => ?_⟩
    rw [Change.look_stored valid, Change.look_stored valid', h.look]

theorem skip (sound : t.Sound) {call : Call} (h : call.concerns t c = false) :
    t.Agree (call.perform t).2 c := by
  obtain ⟨valid, after⟩ := perform_spec sound call
  rw [after]
  cases made : (t.event call).change with
  | none => exact refl t c
  | advanced =>
    obtain rfl : call = .newSearch := Event.of_advanced made
    exact absurd h nofun
  | refreshed w =>
    obtain ⟨key, p, probed, -, rfl⟩ := Event.change_eq_refreshed_iff.1 made
    have outcome := sound.outcome_of_event probed
    obtain rfl : call = .probe key := congrArg Event.call probed
    have here := outcome.elim Hit.cluster Miss.cluster
    rw [Call.concerns_of_cluster rfl, ← here] at h
    rw [made] at valid
    refine ⟨rfl, rfl, fun s => ?_⟩
    rw [Change.look_refreshed valid, if_neg]
    rintro same
    exact of_decide_eq_false h (congrArg Writer.cluster same)
  | stored w key r g =>
    obtain rfl : call = .write w key r g := Event.call_of_stored made
    rw [Call.concerns_of_cluster rfl] at h
    rw [made] at valid
    refine ⟨rfl, rfl, fun s => ?_⟩
    rw [Change.look_stored valid, if_neg]
    rintro same
    exact of_decide_eq_false h (congrArg Writer.cluster same)

theorem answer (h : t.Agree u c) (sound : t.Sound) (sound' : u.Sound) {call : Call}
    (concerns : call.concerns t c = true) : (call.perform t).1 = (call.perform u).1 := by
  have size : t.clusters.size = u.clusters.size := by rw [sound.size, sound'.size, h.clusterCount]
  have index (key : UInt64) : u.clusterIndex key = t.clusterIndex key := by
    rw [Table.clusterIndex, ← h.clusterCount, Table.clusterIndex]
  cases call with
  | newSearch => rfl
  | hashfull | hashfullWithAge => exact absurd concerns Bool.false_ne_true
  | probe key =>
    have here : t.clusterIndex key = c := by simpa [Call.concerns, Call.cluster?] using concerns
    have inside := sound.clusterIndex_lt key
    have inside' := sound'.clusterIndex_lt key
    simp only [Call.perform]
    cases find : (t.row (t.clusterIndex key)).find? (tagOf key) with
    | some s =>
      have find' := find
      rw [here, h.row, ← here, ← index] at find'
      rw [probe_of_find inside find, probe_of_find inside' find', index, here, h.look]
    | none =>
      have find' := find
      rw [here, h.row, ← here, ← index] at find'
      rw [probe_of_find_none inside find, probe_of_find_none inside' find', index, here, h.row,
        h.generation]
  | prefetch key =>
    simp only [Call.perform, prefetch_ok sound, prefetch_ok sound']
  | write w key r g =>
    have here : w.cluster = c := by simpa [Call.concerns, Call.cluster?] using concerns
    simp only [Call.perform]
    by_cases inside : w.cluster < t.clusters.size
    · rw [write_eq inside, write_eq (size ▸ inside), h.look_of_cluster here]
      cases (u.look w).save (tagOf key) r g <;> rfl
    · have outside : ¬ w.cluster < u.clusters.size := size ▸ inside
      rw [write, dif_neg inside, write, dif_neg outside, size]
  | shouldOverwrite w key isPv b d g =>
    have here : w.cluster = c := by simpa [Call.concerns, Call.cluster?] using concerns
    simp only [Call.perform, shouldOverwrite]
    by_cases inside : w.cluster < t.clusters.size
    · rw [entry_eq_look inside, entry_eq_look (size ▸ inside), h.look_of_cluster here]
    · have outside : ¬ w.cluster < u.clusters.size := size ▸ inside
      rw [entry, dif_neg inside, entry, dif_neg outside, size]

theorem event (h : t.Agree u c) (sound : t.Sound) (sound' : u.Sound) {call : Call}
    (concerns : call.concerns t c = true) : t.event call = u.event call := by
  rw [Table.event, h.answer sound sound' concerns, Table.event]

theorem perform (h : t.Agree u c) (sound : t.Sound) (sound' : u.Sound) {call : Call}
    (same : t.event call = u.event call) : (call.perform t).2.Agree (call.perform u).2 c := by
  obtain ⟨valid, after⟩ := perform_spec sound call
  obtain ⟨valid', after'⟩ := perform_spec sound' call
  rw [after, after', ← same]
  exact h.apply valid (same ▸ valid')

end Agree

theorem eq_of_agree (sound : t.Sound) (sound' : u.Sound) (settings : t.settings = u.settings)
    (h : ∀ c, t.Agree u c) : t = u := by
  have clusters : t.clusters = u.clusters := by
    apply Array.ext
    · rw [sound.size, sound'.size, (h 0).clusterCount]
    · intro i inside inside'
      rw [← row_eq_getElem inside, ← row_eq_getElem inside', (h i).row]
  have count := (h 0).clusterCount
  have generation := (h 0).generation
  cases t
  cases u
  simp only [Table.settings, Settings.mk.injEq] at settings
  simp only at clusters count generation
  simp only [mk.injEq]
  exact ⟨clusters, count, generation, settings⟩

/-! ## Calls of different clusters -/

theorem Sound.perform (sound : t.Sound) (call : Call) : (call.perform t).2.Sound := by
  obtain ⟨valid, after⟩ := perform_spec sound call
  rw [after]
  exact Change.sound sound valid

theorem clusterCount_perform (sound : t.Sound) (call : Call) :
    (call.perform t).2.clusterCount = t.clusterCount := by
  rw [(perform_spec sound call).2, Change.clusterCount_apply]

theorem settings_perform (sound : t.Sound) (call : Call) :
    (call.perform t).2.settings = t.settings := by
  rw [(perform_spec sound call).2, Change.settings_apply]

theorem Agree.of_other (sound : t.Sound) {call : Call} {d : Nat} (ofD : call.cluster? t = some d)
    (other : d ≠ c) : t.Agree (call.perform t).2 c :=
  .skip sound ((Call.concerns_of_cluster ofD c).trans (decide_eq_false other))

theorem perform_comm (sound : t.Sound) {first second : Call} {c d : Nat}
    (ofC : first.cluster? t = some c) (ofD : second.cluster? t = some d) (other : c ≠ d) :
    (second.perform t).2.event first = t.event first ∧
      (first.perform t).2.event second = t.event second ∧
      (first.perform (second.perform t).2).2 = (second.perform (first.perform t).2).2 := by
  have afterFirst := sound.perform first
  have afterSecond := sound.perform second
  have ofC' : first.cluster? (second.perform t).2 = some c := by
    rw [Call.cluster?_congr (clusterCount_perform sound second), ofC]
  have ofD' : second.cluster? (first.perform t).2 = some d := by
    rw [Call.cluster?_congr (clusterCount_perform sound first), ofD]
  have eventFirst : t.event first = (second.perform t).2.event first :=
    (Agree.of_other sound ofD other.symm).event sound afterSecond
      ((Call.concerns_of_cluster ofC c).trans (decide_eq_true rfl))
  have eventSecond : t.event second = (first.perform t).2.event second :=
    (Agree.of_other sound ofC other).event sound afterFirst
      ((Call.concerns_of_cluster ofD d).trans (decide_eq_true rfl))
  refine ⟨eventFirst.symm, eventSecond.symm, ?_⟩
  apply eq_of_agree (afterSecond.perform first) (afterFirst.perform second)
  · rw [settings_perform afterSecond, settings_perform sound, settings_perform afterFirst,
      settings_perform sound]
  · intro x
    -- A cluster is not that of one of the calls, so that call may be left out on both sides.
    by_cases here : c = x
    · subst here
      have moved := (Agree.of_other sound ofD other.symm).perform sound afterSecond eventFirst
      have rested := Agree.of_other afterFirst ofD' other.symm
      exact moved.symm.trans rested
    · have moved := (Agree.of_other sound ofC here).perform sound afterFirst eventSecond
      have rested := Agree.of_other afterSecond ofC' here
      exact rested.symm.trans moved

end Table

/-! ## A cluster's own run -/

/-- A call needs of the log the probes that handed out its writer, which are of its cluster. -/
theorem Call.Bound.mono {log log' : Log} {t : Table} {call : Call} (bound : call.Bound log)
    (kept : ∀ key p, call.cluster? t = some p.writer.cluster →
      ⟨.probe key, .ok (.probed p)⟩ ∈ log → ⟨.probe key, .ok (.probed p)⟩ ∈ log') :
    call.Bound log' := by
  cases call with
  | write | shouldOverwrite =>
    obtain ⟨key, p, probed, rfl⟩ := bound
    exact ⟨key, p, kept key p rfl probed, rfl⟩
  | probe | newSearch | hashfull | hashfullWithAge | prefetch => trivial

namespace Run

variable {start t : Table} {log : Log}

theorem alone (run : Run .any start log t) (sound : start.Sound) (c : Nat) :
    ∃ own, Run .any start (log.concerning start c) own ∧ t.Agree own c := by
  induction run with
  | start => exact ⟨start, .start, .refl start c⟩
  | @call log t earlier call bound allowed ih =>
    obtain ⟨own, run, agree⟩ := ih
    have now := earlier.sound sound
    have now' := run.sound sound
    have same := Call.concerns_congr (earlier.clusterCount_eq sound).symm c call
    cases concerns : call.concerns t c with
    | true =>
      have event := agree.event now now' concerns
      have kept : Log.concerning (t.event call :: log) start c =
          own.event call :: log.concerning start c := by
        rw [← event]
        exact List.filter_cons_of_pos (same.trans concerns)
      have bound' : call.Bound (log.concerning start c) := by
        apply bound.mono (t := t)
        intro key p here probed
        rw [Call.concerns_of_cluster here, decide_eq_true_iff] at concerns
        have index := earlier.cluster_of_probed sound probed
        have own : Call.cluster? start (.probe key) = some c := by
          rw [Call.cluster?, ← index, concerns]
        exact List.mem_filter.2 ⟨probed, (Call.concerns_of_cluster own c).trans (decide_eq_true rfl)⟩
      rw [kept]
      exact ⟨_, run.call call bound' trivial, agree.perform now now' event⟩
    | false =>
      have dropped : Log.concerning (t.event call :: log) start c = log.concerning start c :=
        List.filter_cons_of_neg (same.trans concerns ▸ Bool.false_ne_true)
      rw [dropped]
      exact ⟨own, run, (Table.Agree.skip now concerns).symm.trans agree⟩

theorem swap {a b : Event} {c d : Nat} (run : Run .any start (a :: b :: log) t)
    (sound : start.Sound) (ofC : a.call.cluster? start = some c)
    (ofD : b.call.cluster? start = some d) (other : c ≠ d) :
    Run .any start (b :: a :: log) t := by
  obtain ⟨_, first, ran, boundFirst, -, rfl, rfl⟩ := run.of_cons
  obtain ⟨before, second, earlier, boundSecond, -, rfl, rfl⟩ := ran.of_cons
  change first.cluster? start = some c at ofC
  change second.cluster? start = some d at ofD
  have count := earlier.clusterCount_eq sound
  obtain ⟨eventFirst, eventSecond, same⟩ := Table.perform_comm (earlier.sound sound)
    ((Call.cluster?_congr count first).trans ofC) ((Call.cluster?_congr count second).trans ofD) other
  have boundFirst' : first.Bound log := by
    apply boundFirst.mono (t := start)
    intro key p here probed
    have index := ran.cluster_of_probed sound probed
    rcases List.mem_cons.1 probed with made | old
    · obtain rfl : .probe key = second := congrArg Event.call made
      rw [Call.cluster?, ← index, ← here] at ofD
      exact absurd (Option.some.inj (ofC.symm.trans ofD)) other
    · exact old
  have boundSecond' : second.Bound (before.event first :: log) :=
    boundSecond.mono (t := start) fun _ _ _ => List.mem_cons_of_mem _
  have swapped := (earlier.call first boundFirst' trivial).call second boundSecond' trivial
  rw [eventFirst, same, ← eventSecond]
  exact swapped

theorem swap_earlier {later earlier : Log} {a b : Event} {c d : Nat}
    (run : Run .any start (later ++ a :: b :: earlier) t) (sound : start.Sound)
    (ofC : a.call.cluster? start = some c) (ofD : b.call.cluster? start = some d) (other : c ≠ d) :
    Run .any start (later ++ b :: a :: earlier) t := by
  induction later generalizing t with
  | nil => exact run.swap sound ofC ofD other
  | cons e later ih =>
    obtain ⟨before, call, ran, bound, -, rfl, rfl⟩ := run.of_cons
    apply (ih ran).call call _ trivial
    apply bound.mono (t := start)
    intro key p _ probed
    simpa [or_left_comm] using probed

end Run

/-- What a cluster holds after a run, and what every call about it answered, is as in the run of just
these calls and the beginnings of searches. And neighbouring calls of different clusters can be
swapped at any point of a run, which leaves the table and every answer as they are. -/
theorem clusters_do_not_interfere {start t : Table} {log : Log} (reachable : start.Reachable)
    (run : Run .any start log t) :
    (∀ c, ∃ own, Run .any start (log.concerning start c) own ∧ own.row c = t.row c ∧
        own.generation = t.generation) ∧
      ∀ later a b earlier c d, log = later ++ a :: b :: earlier →
        a.call.cluster? start = some c → b.call.cluster? start = some d → c ≠ d →
        Run .any start (later ++ b :: a :: earlier) t := by
  have sound := reachable.sound
  constructor
  · intro c
    obtain ⟨own, ownRun, agree⟩ := run.alone sound c
    exact ⟨own, ownRun, agree.row.symm, agree.generation.symm⟩
  · rintro later a b earlier c d rfl ofC ofD other
    exact run.swap_earlier sound ofC ofD other

theorem clusters_do_not_interfere_two_clusters :
    ∃ e t own, e.call = .probe 0x8000000000000000 ∧ Table.least.Reachable ∧
      Run .any Table.least (e :: Log.store [] (Table.missed ⟨0, 0⟩) 5 shallowFinding 0) t ∧
      Run .any Table.least (Log.store [] (Table.missed ⟨0, 0⟩) 5 shallowFinding 0) own ∧
      own.row 0 = t.row 0 ∧
      Run .any Table.least (⟨.write ⟨0, 0⟩ 5 shallowFinding 0, .ok .done⟩ :: e ::
        [⟨.probe 5, .ok (.probed (Table.missed ⟨0, 0⟩))⟩]) t := by
  have run := run_oneFinding.call (.probe 0x8000000000000000) trivial trivial
  obtain ⟨alone, swap⟩ := clusters_do_not_interfere Table.least_reachable run
  obtain ⟨own, ownRun, row, -⟩ := alone 0
  refine ⟨_, _, own, rfl, Table.least_reachable, run, ?_, row, ?_⟩
  · have probed : Call.concerns Table.least 0 (.probe 0x8000000000000000) = false := by decide
    have kept : Log.concerning (Log.store [] (Table.missed ⟨0, 0⟩) 5 shallowFinding 0)
        Table.least 0 = Log.store [] (Table.missed ⟨0, 0⟩) 5 shallowFinding 0 := rfl
    rw [Log.concerning, List.filter_cons_of_neg (by simp [Table.event, probed])] at ownRun
    rwa [← Log.concerning, kept] at ownRun
  · have middle : Call.cluster? Table.least (.probe 0x8000000000000000) = some 16384 := by decide
    exact swap [] _ _ _ 16384 0 rfl middle rfl (by decide)

end PositionCache
