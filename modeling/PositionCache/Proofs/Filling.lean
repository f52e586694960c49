import PositionCache.Proofs.History

/-!
# Slots fill in order

A writer is handed out for a slot in use or for the first empty one, and no slot is emptied.
-/

namespace PositionCache

/-- The slots in use come before the others. -/
def Cluster.Filled (c : Cluster) : Prop :=
  ∀ r s, r < s → (c.get s).isOccupied = true → (c.get r).isOccupied = true

/-- The slots before the writer's are in use. -/
def Table.FilledTo (t : Table) (w : Writer) : Prop :=
  ∀ r < w.slot, (t.look ⟨w.cluster, r⟩).isOccupied = true

theorem Cluster.empty_filled : empty.Filled := by
  intro r s _ used
  rw [get_empty] at used
  exact absurd used Bool.false_ne_true

section Step

variable {t : Table} {c : Change}

theorem Table.FilledTo.kept {w : Writer} (h : t.FilledTo w) (valid : c.Valid t) :
    (c.apply t).FilledTo w :=
  fun r before => Change.isOccupied_apply valid (h r before)

theorem Table.FilledTo.of_probe {key : UInt64} {p : Probe} {after : Table}
    (h : (t.row (t.clusterIndex key)).Filled)
    (outcome : Table.Hit t key p after ∨ Table.Miss t key p after) : t.FilledTo p.writer := by
  intro r before
  rcases outcome with hit | miss
  · rw [hit.cluster]
    exact h r p.writer.slot before hit.holds_slot.2
  · rw [miss.slot] at before
    rw [miss.cluster]
    exact Cluster.isOccupied_before_leastWorth before

/-- A change comes to a slot that is in use or has all slots before it in use. -/
theorem Cluster.Filled.kept {i : Nat} (h : (t.row i).Filled) (valid : c.Valid t)
    (filledTo : ∀ {v key r g}, c = .stored v key r g → t.FilledTo v) :
    ((c.apply t).row i).Filled := by
  intro r s before used
  rw [Table.get_row] at used ⊢
  apply Change.isOccupied_apply valid
  cases c with
  | none | advanced => exact h r s before used
  | refreshed v =>
    rw [Change.look_refreshed valid] at used
    split_ifs at used
    · exact h r s before used
    · exact h r s before used
  | stored v key record g =>
    rw [Change.look_stored valid] at used
    split_ifs at used with here
    · subst here
      exact filledTo rfl r before
    · exact h r s before used

end Step

theorem Run.filled {rule : Rule} {start t : Table} {log : Log} (sound : start.Sound)
    (initial : ∀ i, (start.row i).Filled) (run : Run rule start log t) (i : Nat) :
    (t.row i).Filled := by
  -- A write may come through any writer of the log, so the invariant covers all of them.
  refine (run.invariant (fun log t => (∀ i, (t.row i).Filled) ∧
    ∀ w, log.HandedOut w → t.FilledTo w) sound ?_ ?_).2.1 i
  · refine ⟨initial, ?_⟩
    rintro w ⟨key, p, member, -⟩
    exact absurd member List.not_mem_nil
  · rintro log t call _ sound ⟨filled, filledTo⟩ bound _ valid
    constructor
    · intro i
      apply (filled i).kept valid
      intro v key r g stored
      have written : call = .write v key r g := Event.call_of_stored stored
      rw [written] at bound
      exact filledTo v bound
    · rintro w ⟨key, p, member, rfl⟩
      apply Table.FilledTo.kept _ valid
      rcases List.mem_cons.1 member with probed | earlier
      · exact .of_probe (filled _) (sound.outcome_of_event probed.symm)
      · exact filledTo p.writer ⟨key, p, earlier, rfl⟩

theorem Table.Reachable.filled {t : Table} (reachable : t.Reachable) (i : Nat) :
    (t.row i).Filled :=
  reachable.byAny.storage (P := fun row => ∀ i, (row i).Filled) (fun _ => Cluster.empty_filled)
    (fun sound initial run => run.filled sound initial) i

/-- At every point of a run, whatever came before it, the slots in use of a cluster come first and
the others are all zero. A slot in use stays in use for the rest of the run, and over upkeep that
fails. -/
theorem slots_fill_in_order {start t : Table} {log : Log} (reachable : start.Reachable)
    (run : Run .any start log t) :
    (∀ c r s, r < s → (t.look ⟨c, s⟩).isOccupied = true → (t.look ⟨c, r⟩).isOccupied = true) ∧
      (∀ w, (t.look w).isOccupied = false → t.look w = ⟨0, 0, 0, ⟨0⟩, 0, 0⟩) ∧
      ∀ w, (t.look w).isOccupied = true →
        (∀ later after, Run .any start (later ++ log) after →
          (after.look w).isOccupied = true) ∧
        (t.clear.failure ≠ none → (t.clear.table.look w).isOccupied = true) ∧
        (∀ m mb, (t.resize m mb).failure ≠ none →
          ((t.resize m mb).table.look w).isOccupied = true) ∧
        ∀ threads, ((t.setInitThreads threads).look w).isOccupied = true := by
  have sound := run.sound reachable.sound
  refine ⟨(Table.Reachable.used reachable run).filled, sound.slots, ?_⟩
  intro w used
  refine ⟨?_, ?_, ?_, ?_⟩
  · intro later after rest
    exact run.isOccupied_of_earlier rest reachable.sound used
  · intro failed
    rw [Table.look, Table.clear_row_of_failure sound failed]
    exact used
  · intro m mb failed
    rw [Table.look, Table.resize_row_of_failure sound failed]
    exact used
  · intro threads
    rw [Table.look_setInitThreads]
    exact used

def tooDeepFinding : Record := { deeperFinding with depth := 300 }

/-- The writer of one key is kept, and a finding of another key is written through it that is too
deep. -/
theorem slots_fill_in_order_refused_write :
    ∃ log t after fault, Table.least.Reachable ∧ Run .any Table.least log t ∧
      Run .any Table.least (⟨.write ⟨0, 0⟩ 9 tooDeepFinding 0, .error fault⟩ :: log) after ∧
      (t.look ⟨0, 0⟩).isOccupied = true ∧ (after.look ⟨0, 0⟩).isOccupied = true ∧
      t.look ⟨0, 1⟩ = ⟨0, 0, 0, ⟨0⟩, 0, 0⟩ := by
  obtain ⟨-, unused, kept⟩ := slots_fill_in_order Table.least_reachable run_oneFinding
  have second : oneFinding.look ⟨0, 1⟩ = .empty := by
    rw [oneFinding_eq, Table.look_put least_inside, if_neg (by decide),
      Table.least_fresh.blank.look]
  have rest := run_oneFinding.call (.write ⟨0, 0⟩ 9 tooDeepFinding 0)
    ⟨5, _, List.mem_cons_of_mem _ (List.mem_singleton_self _), rfl⟩ trivial
  obtain ⟨fault, refused⟩ := Table.write_of_refused (t := oneFinding)
    (w := ⟨0, 0⟩) (r := tooDeepFinding) (g := 0) (fun takes => absurd takes.2 (by decide)) 9
  unfold Table.event at rest
  rw [Call.perform, refused] at rest
  refine ⟨_, _, _, fault, Table.least_reachable, run_oneFinding, rest, isOccupied_oneFinding,
    ?_, ?_⟩
  · exact (kept _ isOccupied_oneFinding).1 [_] _ rest
  · exact unused _ (by rw [second]; rfl)

end PositionCache
