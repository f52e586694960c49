import PositionCache.Proofs.Tags

/-!
# Writes paired with probes

Each goes through the writer of a probe of its own key, and no other write reached the cluster in
between.
-/

namespace PositionCache

/-! ## The writes into a cluster -/

/-- The write that an event made into a cluster, with its key, if it made one. -/
def Event.writeInto? (c : Nat) (e : Event) : Option (UInt64 × Record) :=
  match e.change with
  | .stored v key r _ => if v.cluster = c then some (key, r) else none
  | _ => none

/-- The writes into a cluster, the newest first. -/
def Log.writesInto (log : Log) (c : Nat) : List (UInt64 × Record) :=
  log.filterMap (Event.writeInto? c)

def newest? (writes : List (UInt64 × Record)) (tag : UInt16) : Option (UInt64 × Record) :=
  writes.find? fun write => tagOf write.1 == tag

@[simp]
theorem Log.writesInto_cons (e : Event) (log : Log) (c : Nat) :
    Log.writesInto (e :: log) c = (e.writeInto? c).toList ++ log.writesInto c := by
  unfold Log.writesInto
  rw [List.filterMap_cons]
  cases e.writeInto? c <;> rfl

theorem newest?_cons (key : UInt64) (r : Record) (writes : List (UInt64 × Record)) (tag : UInt16) :
    newest? ((key, r) :: writes) tag =
      if tagOf key = tag then some (key, r) else newest? writes tag := by
  rw [newest?, List.find?_cons]
  by_cases same : tagOf key = tag
  · rw [if_pos same, beq_iff_eq.2 same]
  · rw [if_neg same, beq_eq_false_iff_ne.2 same]
    rfl

namespace Event

variable {e : Event} {c : Nat}

theorem change_of_writeInto {key : UInt64} {r : Record} (h : e.writeInto? c = some (key, r)) :
    ∃ s g, e.change = .stored ⟨c, s⟩ key r g := by
  unfold writeInto? at h
  split at h
  · next v _ _ g change =>
    split_ifs at h with same
    obtain ⟨rfl, rfl⟩ := Prod.mk.injEq .. ▸ Option.some.inj h
    subst same
    exact ⟨v.slot, g, change⟩
  · exact absurd h nofun

theorem writeInto?_probed (c : Nat) (key : UInt64) (p : Probe) :
    writeInto? c ⟨.probe key, .ok (.probed p)⟩ = none := by
  rw [writeInto?, change]
  split_ifs <;> rfl

theorem writeTo?_of_writeInto? (h : e.writeInto? c = none) (s : Slot) :
    e.writeTo? ⟨c, s⟩ = none := by
  unfold writeInto? at h
  unfold writeTo?
  cases change : e.change with
  | none | refreshed | advanced => rfl
  | stored v key r g =>
    rw [change] at h
    have elsewhere : v ≠ ⟨c, s⟩ := by
      rintro rfl
      exact absurd h (by simp)
    exact if_neg elsewhere

theorem same_of_writeInto? {t : Table} (h : e.writeInto? c = none) (valid : e.change.Valid t)
    (s : Slot) :
    ((e.change.apply t).look ⟨c, s⟩).tag = (t.look ⟨c, s⟩).tag ∧
      ((e.change.apply t).look ⟨c, s⟩).isOccupied = (t.look ⟨c, s⟩).isOccupied :=
  same_of_writeTo? (writeTo?_of_writeInto? h s) valid

end Event

/-! ## Paired writes -/

/-- The writer is of a probe of the key, and no write reached its cluster since. -/
def Log.Current (log : Log) (w : Writer) (key : UInt64) : Prop :=
  ∃ since p before, log = since ++ ⟨.probe key, .ok (.probed p)⟩ :: before ∧ p.writer = w ∧
    Log.writesInto since w.cluster = []

/-- Every write goes through the writer of a probe of its key, with no other write into the cluster
in between; the other calls are free. -/
def Rule.paired : Rule := fun log _ call =>
  match call with
  | .write w key _ _ => log.Current w key
  | _ => True

theorem Log.not_current_nil (w : Writer) (key : UInt64) : ¬ Log.Current [] w key := by
  rintro ⟨since, p, before, split, -⟩
  exact absurd split.symm (List.append_ne_nil_of_right_ne_nil _ (List.cons_ne_nil _ _))

theorem Log.Current.of_cons {e : Event} {log : Log} {w : Writer} {key : UInt64}
    (current : Log.Current (e :: log) w key) :
    (∃ p, e = ⟨.probe key, .ok (.probed p)⟩ ∧ p.writer = w) ∨
      (log.Current w key ∧ e.writeInto? w.cluster = none) := by
  obtain ⟨since, p, before, split, handedOut, quiet⟩ := current
  cases since with
  | nil =>
    obtain ⟨rfl, -⟩ := List.cons.inj split
    exact .inl ⟨p, rfl, handedOut⟩
  | cons newest since =>
    obtain ⟨rfl, earlier⟩ := List.cons.inj split
    rw [writesInto_cons, List.append_eq_nil_iff, Option.toList_eq_nil_iff] at quiet
    exact .inr ⟨⟨since, p, before, earlier, handedOut, quiet.2⟩, quiet.1⟩

/-- A write of the key to the slot loses nothing that it need not lose: no other slot holds the
tag, and the slot is not taken from another tag while there is an empty one. -/
structure Ready (t : Table) (w : Writer) (key : UInt64) : Prop where
  cluster : w.cluster = t.clusterIndex key
  only : ∀ {s}, (t.look ⟨w.cluster, s⟩).Holds (tagOf key) → s = w.slot
  room : (t.look w).isOccupied = true → ¬ (t.look w).Holds (tagOf key) →
    ∀ s, (t.look ⟨w.cluster, s⟩).isOccupied = true

theorem Ready.untouched {t : Table} {w : Writer} {key : UInt64} {e : Event} (h : Ready t w key)
    (quiet : e.writeInto? w.cluster = none) (valid : e.change.Valid t) :
    Ready (e.change.apply t) w key := by
  have same := Event.same_of_writeInto? quiet valid
  have sameCount := Change.clusterCount_apply t e.change
  refine ⟨?_, ?_, ?_⟩
  · unfold Table.clusterIndex
    rw [sameCount]
    exact h.cluster
  · intro s
    exact Table.Sole.kept (fun _ => h.only) (fun s _ => Event.writeTo?_of_writeInto? quiet s) valid s
  · intro used other s
    have here := same w.slot
    rw [here.2] at used
    unfold Entry.Holds at other
    rw [here.1, here.2] at other
    rw [(same s).2]
    exact h.room used other s

/-! ## What paired writes keep -/

structure Lossless (log : Log) (t : Table) (c : Nat) : Prop where
  home : ∀ write ∈ log.writesInto c, t.clusterIndex write.1 = c
  distinct : ∀ {tag r s}, (t.look ⟨c, r⟩).Holds tag → (t.look ⟨c, s⟩).Holds tag → r = s
  newest : ∀ {tag s}, (t.look ⟨c, s⟩).Holds tag →
    newest? (log.writesInto c) tag = (log.writesTo ⟨c, s⟩).head?
  complete : ∀ {s}, (t.look ⟨c, s⟩).isOccupied = false → ∀ write ∈ log.writesInto c,
    ∃ r, (t.look ⟨c, r⟩).Holds (tagOf write.1)

namespace Lossless

variable {log : Log} {t : Table} {c : Nat} {e : Event}

theorem nothing (blank : t.Blank) (c : Nat) : Lossless [] t c := by
  have lost : ∀ {tag s}, ¬ (t.look ⟨c, s⟩).Holds tag := by
    rintro tag s ⟨-, used⟩
    rw [blank.look] at used
    exact absurd used Bool.false_ne_true
  refine ⟨?_, ?_, ?_, ?_⟩
  · intro write member
    exact absurd member List.not_mem_nil
  · intro tag r s holds
    exact absurd holds lost
  · intro tag s holds
    exact absurd holds lost
  · intro s _ write member
    exact absurd member List.not_mem_nil

theorem untouched (h : Lossless log t c) (quiet : e.writeInto? c = none)
    (valid : e.change.Valid t) : Lossless (e :: log) (e.change.apply t) c := by
  have same : ∀ s tag, ((e.change.apply t).look ⟨c, s⟩).Holds tag ↔ (t.look ⟨c, s⟩).Holds tag :=
    fun s => Event.holds_of_writeTo? (Event.writeTo?_of_writeInto? quiet s) valid
  have sameCount := Change.clusterCount_apply t e.change
  have into : Log.writesInto (e :: log) c = log.writesInto c := by
    rw [Log.writesInto_cons, quiet]
    rfl
  refine ⟨?_, ?_, ?_, ?_⟩
  · intro write written
    rw [into] at written
    unfold Table.clusterIndex
    rw [sameCount]
    exact h.home write written
  · intro tag r s one other
    exact h.distinct ((same r tag).1 one) ((same s tag).1 other)
  · intro tag s holds
    rw [into, Log.writesTo_cons, Event.writeTo?_of_writeInto? quiet]
    exact h.newest ((same s tag).1 holds)
  · intro s unused write written
    rw [into] at written
    rw [(Event.same_of_writeInto? quiet valid s).2] at unused
    obtain ⟨r, holds⟩ := h.complete unused write written
    exact ⟨r, (same r _).2 holds⟩

section Stored

variable {slot : Slot} {key : UInt64} {r : Record} {g : UInt8}

theorem writesInto_stored (change : e.change = .stored ⟨c, slot⟩ key r g) :
    Log.writesInto (e :: log) c = (key, r) :: log.writesInto c := by
  rw [Log.writesInto_cons, Event.writeInto?, change]
  simp

theorem writesTo_stored (change : e.change = .stored ⟨c, slot⟩ key r g) (s : Slot) :
    Log.writesTo (e :: log) ⟨c, s⟩ =
      if slot = s then (key, r) :: log.writesTo ⟨c, s⟩ else log.writesTo ⟨c, s⟩ := by
  rw [Log.writesTo_cons, Event.writeTo?, change]
  by_cases here : slot = s <;> simp [here]

theorem look_stored_of_ne (valid : (Change.stored ⟨c, slot⟩ key r g).Valid t) {s : Slot}
    (other : slot ≠ s) :
    ((Change.stored ⟨c, slot⟩ key r g).apply t).look ⟨c, s⟩ = t.look ⟨c, s⟩ := by
  rw [Change.look_stored valid]
  exact if_neg fun both => other (congrArg Writer.slot both)

theorem holds_stored (valid : (Change.stored ⟨c, slot⟩ key r g).Valid t) (s : Slot)
    (tag : UInt16) :
    (((Change.stored ⟨c, slot⟩ key r g).apply t).look ⟨c, s⟩).Holds tag ↔
      if slot = s then tagOf key = tag else (t.look ⟨c, s⟩).Holds tag := by
  rw [Change.holds_stored valid]
  simp only [Writer.mk.injEq, true_and]

/-- A slot that is empty after the write was empty before it, so the write took no tag but its own
from the cluster. -/
theorem complete_stored (h : Lossless log t c) (ready : Ready t ⟨c, slot⟩ key)
    (valid : (Change.stored ⟨c, slot⟩ key r g).Valid t) {s : Slot}
    (unused : (((Change.stored ⟨c, slot⟩ key r g).apply t).look ⟨c, s⟩).isOccupied = false) :
    ∀ write ∈ (key, r) :: log.writesInto c,
      ∃ s, (((Change.stored ⟨c, slot⟩ key r g).apply t).look ⟨c, s⟩).Holds (tagOf write.1) := by
  have written := (holds_stored valid slot (tagOf key)).2 (by rw [if_pos rfl])
  have other : slot ≠ s := by
    rintro rfl
    exact absurd (unused.symm.trans written.2) Bool.false_ne_true
  rw [look_stored_of_ne valid other] at unused
  intro write old
  rcases List.mem_cons.1 old with rfl | old
  · exact ⟨slot, written⟩
  · obtain ⟨holder, holds⟩ := h.complete unused write old
    by_cases own : slot = holder
    · subst own
      have kept : (t.look ⟨c, slot⟩).Holds (tagOf key) := by
        by_contra taken
        have full := ready.room holds.2 taken s
        exact absurd (unused.symm.trans full) Bool.false_ne_true
      rw [← holds.1, kept.1]
      exact ⟨slot, written⟩
    · refine ⟨holder, (holds_stored valid holder _).2 ?_⟩
      rw [if_neg own]
      exact holds

theorem stored (h : Lossless log t c) (change : e.change = .stored ⟨c, slot⟩ key r g)
    (ready : Ready t ⟨c, slot⟩ key) (valid : e.change.Valid t) :
    Lossless (e :: log) (e.change.apply t) c := by
  have into : Log.writesInto (e :: log) c = (key, r) :: log.writesInto c := writesInto_stored change
  have distinct : ((e.change.apply t).row c).Distinct := by
    apply Cluster.Distinct.kept (fun _ _ _ => h.distinct) valid
    intro v key' r' g' made
    obtain ⟨rfl, rfl, -, -⟩ := Change.stored.inj (change.symm.trans made)
    exact fun _ => ready.only
  rw [change] at valid distinct ⊢
  refine ⟨?_, ?_, ?_, ?_⟩
  · intro write written
    rw [into, List.mem_cons] at written
    rcases written with rfl | written
    · exact ready.cluster.symm
    · exact h.home write written
  · intro tag one other
    exact distinct tag one other
  · intro tag s holds
    rw [holds_stored valid] at holds
    rw [into, writesTo_stored change, newest?_cons]
    by_cases here : slot = s
    · rw [if_pos here] at holds
      rw [if_pos holds, if_pos here]
      rfl
    · rw [if_neg here] at holds
      have other : tagOf key ≠ tag := by
        rintro rfl
        exact here (ready.only holds).symm
      rw [if_neg other, if_neg here]
      exact h.newest holds
  · intro s unused
    rw [into]
    exact complete_stored h ready valid unused

end Stored

theorem ready {key : UInt64} {p : Probe} {after : Table}
    (h : Lossless log t (t.clusterIndex key)) (outcome : Table.Hit t key p after ∨
      Table.Miss t key p after) : Ready t p.writer key := by
  have sole : t.Sole p.writer (tagOf key) := .of_probe (fun _ _ _ => h.distinct) outcome
  rcases outcome with hit | miss
  · refine ⟨hit.cluster, fun {s} => sole s, ?_⟩
    intro _ other
    exact absurd hit.holds other
  · refine ⟨miss.cluster, fun {s} => sole s, ?_⟩
    intro used _ s
    by_contra unused
    rw [Table.look, miss.cluster, miss.slot] at used
    rw [miss.cluster] at unused
    have given := Cluster.leastWorth_of_unoccupied (Bool.not_eq_true _ ▸ unused) t.generation
    exact absurd (given.symm.trans used) Bool.false_ne_true

theorem ready_of_event {key : UInt64} {p : Probe} {call : Call} (sound : t.Sound)
    (h : Lossless log t (t.clusterIndex key))
    (probed : t.event call = ⟨.probe key, .ok (.probed p)⟩) : Ready t p.writer key :=
  h.ready (sound.outcome_of_event probed)

end Lossless

/-- After a run of paired writes, every cluster lost nothing. The invariant says also that every
writer that may be used for a key is ready for it. -/
theorem Run.lossless {start t : Table} {log : Log} (blank : start.Blank)
    (run : Run .paired start log t) (c : Nat) : Lossless log t c := by
  refine (run.invariant (fun log t => (∀ c, Lossless log t c) ∧
    ∀ w key, log.Current w key → Ready t w key) blank.sound ?_ ?_).2.1 c
  · exact ⟨Lossless.nothing blank, fun w key valid => absurd valid (Log.not_current_nil w key)⟩
  · rintro log t call _ sound ⟨lossless, ready⟩ _ allowed valid
    constructor
    · intro i
      cases into : (t.event call).writeInto? i with
      | none => exact (lossless i).untouched into valid
      | some write =>
        obtain ⟨slot, g, change⟩ := Event.change_of_writeInto into
        have written : call = .write ⟨i, slot⟩ write.1 write.2 g := Event.call_of_stored change
        rw [written] at allowed
        exact (lossless i).stored change (ready _ _ allowed) valid
    · intro w key current
      rcases current.of_cons with ⟨p, probed, rfl⟩ | ⟨earlier, quiet⟩
      · refine ((lossless _).ready_of_event sound probed).untouched ?_ valid
        rw [probed, Event.writeInto?_probed]
      · exact (ready w key earlier).untouched quiet valid

end PositionCache
