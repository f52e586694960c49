import PositionCache.Proofs.History

/-!
# One slot for each tag

Two slots would hold one tag if a writer took a tag that another slot had got since the writer was
handed out.
-/

namespace PositionCache

/-! ## The rule -/

/-- The writer is of a probe of the tag, and nothing was written into another slot of its cluster
since. Its own slot may have been written to. -/
def Log.Undisturbed (log : Log) (w : Writer) (tag : UInt16) : Prop :=
  ∃ since key p before, log = since ++ ⟨.probe key, .ok (.probed p)⟩ :: before ∧ p.writer = w ∧
    tagOf key = tag ∧ ∀ s, s ≠ w.slot → Log.writesTo since ⟨w.cluster, s⟩ = []

/-- Every write is of an undisturbed writer, with a key of the tag that was probed for it; the other
calls are free. -/
def Rule.undisturbed : Rule := fun log _ call =>
  match call with
  | .write w key _ _ => log.Undisturbed w (tagOf key)
  | _ => True

theorem Log.not_undisturbed_nil (w : Writer) (tag : UInt16) : ¬ Log.Undisturbed [] w tag := by
  rintro ⟨since, key, p, before, split, -⟩
  exact absurd split.symm (List.append_ne_nil_of_right_ne_nil _ (List.cons_ne_nil _ _))

theorem Log.undisturbed_cons {e : Event} {log : Log} {w : Writer} {tag : UInt16} :
    Log.Undisturbed (e :: log) w tag ↔
      (∃ key p, e = ⟨.probe key, .ok (.probed p)⟩ ∧ p.writer = w ∧ tagOf key = tag) ∨
        (log.Undisturbed w tag ∧ ∀ s, s ≠ w.slot → e.writeTo? ⟨w.cluster, s⟩ = none) := by
  constructor
  · rintro ⟨since, key, p, before, split, handedOut, sameTag, quiet⟩
    cases since with
    | nil =>
      obtain ⟨rfl, -⟩ := List.cons.inj split
      exact .inl ⟨key, p, rfl, handedOut, sameTag⟩
    | cons newest since =>
      obtain ⟨rfl, earlier⟩ := List.cons.inj split
      simp only [writesTo_cons, List.append_eq_nil_iff, Option.toList_eq_nil_iff] at quiet
      exact .inr ⟨⟨since, key, p, before, earlier, handedOut, sameTag,
        fun s other => (quiet s other).2⟩, fun s other => (quiet s other).1⟩
  · rintro (⟨key, p, rfl, handedOut, sameTag⟩ |
      ⟨⟨since, key, p, before, rfl, handedOut, sameTag, earlier⟩, quiet⟩)
    · exact ⟨[], key, p, log, rfl, handedOut, sameTag, fun _ _ => rfl⟩
    · refine ⟨e :: since, key, p, before, rfl, handedOut, sameTag, ?_⟩
      intro s other
      rw [writesTo_cons, quiet s other, earlier s other]
      rfl

/-! ## What the rule keeps -/

def Cluster.Distinct (c : Cluster) : Prop :=
  ∀ tag r s, (c.get r).Holds tag → (c.get s).Holds tag → r = s

/-- No slot of the writer's cluster holds the tag, but perhaps its own. -/
def Table.Sole (t : Table) (w : Writer) (tag : UInt16) : Prop :=
  ∀ s, (t.look ⟨w.cluster, s⟩).Holds tag → s = w.slot

theorem Cluster.empty_distinct : empty.Distinct := by
  rintro tag r s ⟨-, used⟩
  rw [get_empty] at used
  exact absurd used Bool.false_ne_true

section Step

variable {t : Table} {e : Event} {w : Writer} {tag : UInt16}

theorem Table.Sole.kept (h : t.Sole w tag)
    (quiet : ∀ s, s ≠ w.slot → e.writeTo? ⟨w.cluster, s⟩ = none) (valid : e.change.Valid t) :
    (e.change.apply t).Sole w tag := by
  intro s holds
  by_contra other
  rw [Event.holds_of_writeTo? (quiet s other) valid] at holds
  exact other (h s holds)

theorem Table.Sole.of_probe {key : UInt64} {p : Probe} {after : Table}
    (h : (t.row (t.clusterIndex key)).Distinct)
    (outcome : Table.Hit t key p after ∨ Table.Miss t key p after) :
    t.Sole p.writer (tagOf key) := by
  intro s holds
  rcases outcome with hit | miss
  · rw [hit.cluster] at holds
    exact h _ s p.writer.slot holds hit.holds_slot
  · rw [miss.cluster] at holds
    exact absurd holds (miss.absent s)

theorem Cluster.Distinct.kept {c : Nat} (h : (t.row c).Distinct) (valid : e.change.Valid t)
    (sole : ∀ {v key r g}, e.change = .stored v key r g → t.Sole v (tagOf key)) :
    ((e.change.apply t).row c).Distinct := by
  intro tag r s first second
  rw [Table.get_row] at first second
  cases made : e.change with
  | none | advanced =>
    rw [made] at first second
    exact h tag r s first second
  | refreshed v =>
    rw [made] at valid first second
    rw [Change.holds_refreshed valid] at first second
    exact h tag r s first second
  | stored v key record g =>
    have sole := sole made
    rw [made] at valid first second
    rw [Change.holds_stored valid] at first second
    split_ifs at first second with here there there
    · exact congrArg Writer.slot (here.symm.trans there)
    · subst here first
      exact (sole s second).symm
    · subst there second
      exact sole r first
    · exact h tag r s first second

end Step

theorem Run.distinct {start t : Table} {log : Log} (sound : start.Sound)
    (initial : ∀ c, (start.row c).Distinct) (run : Run .undisturbed start log t) (c : Nat) :
    (t.row c).Distinct := by
  -- A write is safe because the invariant covers every writer that may still be used for a tag.
  refine (run.invariant (fun log t => (∀ c, (t.row c).Distinct) ∧
    ∀ w tag, log.Undisturbed w tag → t.Sole w tag) sound ?_ ?_).2.1 c
  · exact ⟨initial, fun w tag alone => absurd alone (Log.not_undisturbed_nil w tag)⟩
  · rintro log t call _ sound ⟨distinct, sole⟩ _ allowed valid
    constructor
    · intro c
      apply (distinct c).kept valid
      intro v key r g stored
      have written : call = .write v key r g := Event.call_of_stored stored
      rw [written] at allowed
      exact sole v _ allowed
    · intro w tag undisturbed
      rcases Log.undisturbed_cons.1 undisturbed with ⟨key, p, probed, rfl, rfl⟩ | ⟨earlier, quiet⟩
      · apply (Table.Sole.of_probe (distinct _) (sound.outcome_of_event probed)).kept _ valid
        intro s _
        rw [probed, Event.writeTo?_probe]
      · exact (sole w tag earlier).kept quiet valid

theorem Table.ReachableBy.distinct {t : Table} (reached : t.ReachableBy .undisturbed) (c : Nat) :
    (t.row c).Distinct :=
  reached.storage (P := fun row => ∀ c, (row c).Distinct) (fun _ => Cluster.empty_distinct)
    (fun sound initial run => run.distinct sound initial) c

/-! ## The order of the search -/

theorem find?_of_unique {α : Type} {p : α → Bool} {l : List α} {a : α} (member : a ∈ l)
    (holds : p a = true) (unique : ∀ b, p b = true → b = a) : l.find? p = some a := by
  cases found : l.find? p with
  | none => exact absurd holds (List.find?_eq_none.1 found a member)
  | some b => rw [unique b (List.find?_some found)]

/-- The first slot that holds the key's tag, if the slots are searched in this order. -/
def Table.findIn (t : Table) (order : List Slot) (key : UInt64) : Option Slot :=
  order.find? fun s => (t.look ⟨t.clusterIndex key, s⟩).Holds (tagOf key)

/-- No tag stands in two slots of a cluster, and a probe finds the slot that a search of all slots
in any order finds. -/
theorem tags_distinct {t : Table} (reached : t.ReachableBy .undisturbed) :
    (∀ c tag r s, (t.look ⟨c, r⟩).Holds tag → (t.look ⟨c, s⟩).Holds tag → r = s) ∧
      ∀ key, ∃ p, (t.probe key).1 = .ok p ∧ ∀ order : List Slot, (∀ s, s ∈ order) →
        t.findIn order key = if p.found then some p.writer.slot else none := by
  refine ⟨fun c => reached.distinct c, ?_⟩
  intro key
  obtain ⟨p, answered, outcome⟩ := Table.probe_spec reached.reachable.sound key
  refine ⟨p, answered, ?_⟩
  intro order all
  rcases outcome with hit | miss
  · rw [hit.found, if_pos rfl]
    apply find?_of_unique (all p.writer.slot) (decide_eq_true hit.holds_slot)
    intro s holds
    exact reached.distinct _ _ s p.writer.slot (of_decide_eq_true holds) hit.holds_slot
  · rw [miss.missed, if_neg Bool.false_ne_true]
    apply List.find?_eq_none.2
    intro s _ holds
    exact miss.absent s (of_decide_eq_true holds)

theorem run_keptWriter : ∃ log t, Run .undisturbed Table.least log t ∧ (t.look ⟨0, 0⟩).Holds 0 := by
  have first : Run .undisturbed Table.least
      (Log.store [] (Table.missed ⟨0, 0⟩) 65536 shallowFinding 0) _ :=
    Table.least_fresh.blank.run_store (by decide) (by decide) trivial
      (Log.undisturbed_cons.2 (.inl ⟨65536, _, rfl, rfl, rfl⟩))
  have later := (first.call .newSearch trivial trivial).call (.probe 5) trivial trivial
  have undisturbed : ∀ answer, Log.Undisturbed (⟨.probe 5, answer⟩ :: ⟨.newSearch, .ok .done⟩ ::
      Log.store [] (Table.missed ⟨0, 0⟩) 65536 shallowFinding 0) ⟨0, 0⟩ 0 := by
    intro answer
    have probed : Log.Undisturbed [⟨.probe 65536, .ok (.probed (Table.missed ⟨0, 0⟩))⟩] ⟨0, 0⟩ 0 :=
      Log.undisturbed_cons.2 (.inl ⟨65536, _, rfl, rfl, rfl⟩)
    have written := Log.undisturbed_cons (e := ⟨.write ⟨0, 0⟩ 65536 shallowFinding 0, .ok .done⟩).2
      (.inr ⟨probed, fun s other => if_neg fun here => other (congrArg Writer.slot here).symm⟩)
    have searching := Log.undisturbed_cons (e := ⟨.newSearch, .ok .done⟩).2
      (.inr ⟨written, fun _ _ => rfl⟩)
    exact Log.undisturbed_cons.2 (.inr ⟨searching, fun _ _ => Event.writeTo?_probe _ _ _⟩)
  have inside := (later.sound Table.least_fresh.sound).clusterIndex_lt 0
  rw [later.clusterIndex_eq Table.least_fresh.sound] at inside
  have fits : Entry.Fits deeperFinding 8 := by decide
  have again := later.write (w := ⟨0, 0⟩) inside fits 131072
    ⟨65536, Table.missed ⟨0, 0⟩, by simp [Log.store], rfl⟩ (undisturbed _)
  refine ⟨_, _, again, ?_⟩
  rw [Table.look_put_self inside, Entry.holds_overwrite fits.1]
  decide

theorem tags_distinct_kept_writer :
    ∃ t : Table, t.ReachableBy .undisturbed ∧ (t.look ⟨0, 0⟩).Holds 0 ∧
      (∀ s, (t.look ⟨0, s⟩).Holds 0 → s = 0) ∧
      t.findIn [2, 1, 0] 65536 = t.findIn [0, 1, 2] 65536 := by
  obtain ⟨log, t, run, holds⟩ := run_keptWriter
  have reached := Table.ReachableBy.used (.made Table.make_least) run
  obtain ⟨distinct, search⟩ := tags_distinct reached
  obtain ⟨p, -, found⟩ := search 65536
  refine ⟨t, reached, holds, fun s also => distinct 0 0 s 0 also holds, ?_⟩
  rw [found [2, 1, 0] (by decide), found [0, 1, 2] (by decide)]

end PositionCache
