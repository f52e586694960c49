import PositionCache.Proofs.Pairing

/-!
# No loss below capacity

As many slots of a cluster are in use as tags were written into it, but three at most; up to three
tags, each is found with what was written last for it.
-/

namespace PositionCache

/-! ## Counting -/

def Cluster.used (c : Cluster) : Nat := c.toList.countP Entry.isOccupied

def Table.used (t : Table) : Nat := (t.clusters.toList.map Cluster.used).sum

def Event.key? (e : Event) : Option UInt64 :=
  match e.change with
  | .stored _ key _ _ => some key
  | _ => none

def Log.keys (log : Log) : Finset UInt64 := (log.filterMap Event.key?).toFinset

def Log.tagsInto (log : Log) (c : Nat) : Finset UInt16 :=
  ((log.writesInto c).map fun write => tagOf write.1).toFinset

/-- The tags that the slots of a cluster hold. -/
def Table.tagsIn (t : Table) (c : Nat) : Finset UInt16 :=
  (Finset.univ.filter fun s : Slot => ((t.row c).get s).isOccupied = true).image
    fun s => ((t.row c).get s).tag

theorem Cluster.used_eq_card (c : Cluster) :
    c.used = (Finset.univ.filter fun s : Slot => (c.get s).isOccupied = true).card := by
  have slots : c.toList = (List.finRange 3).map c.get := rfl
  unfold used
  rw [slots, List.countP_map, List.countP_eq_length_filter]
  simp [Finset.card, Finset.filter, Finset.univ, Fintype.elems, Function.comp_def]

theorem Cluster.used_le (c : Cluster) : c.used ≤ 3 :=
  List.countP_le_length

theorem Cluster.used_of_full {c : Cluster} (full : ∀ s, (c.get s).isOccupied = true) :
    c.used = 3 := by
  rw [used_eq_card, Finset.filter_true_of_mem fun s _ => full s]
  rfl

theorem Table.mem_tagsIn {t : Table} {c : Nat} {tag : UInt16} :
    tag ∈ t.tagsIn c ↔ ∃ s, (t.look ⟨c, s⟩).Holds tag := by
  simp only [tagsIn, Finset.mem_image, Finset.mem_filter, Finset.mem_univ, true_and]
  constructor
  · rintro ⟨s, used, same⟩
    exact ⟨s, same, used⟩
  · rintro ⟨s, same, used⟩
    exact ⟨s, used, same⟩

theorem Log.mem_tagsInto {log : Log} {c : Nat} {tag : UInt16} :
    tag ∈ log.tagsInto c ↔ ∃ write ∈ log.writesInto c, tagOf write.1 = tag := by
  unfold tagsInto
  rw [List.mem_toFinset, List.mem_map]

theorem Log.mem_keys {log : Log} {key : UInt64} :
    key ∈ log.keys ↔ ∃ c r, (key, r) ∈ log.writesInto c := by
  unfold keys
  rw [List.mem_toFinset, List.mem_filterMap]
  simp only [writesInto, List.mem_filterMap]
  constructor
  · rintro ⟨e, member, wrote⟩
    unfold Event.key? at wrote
    split at wrote
    · next v _ r _ change =>
      obtain rfl := Option.some.inj wrote
      refine ⟨v.cluster, r, e, member, ?_⟩
      simp only [Event.writeInto?, change, if_pos]
    · exact absurd wrote.symm (Option.some_ne_none key)
  · rintro ⟨c, r, e, member, wrote⟩
    obtain ⟨s, g, change⟩ := Event.change_of_writeInto wrote
    refine ⟨e, member, ?_⟩
    rw [Event.key?, change]

theorem Table.Sound.used_eq {t : Table} (h : t.Sound) :
    t.used = ((List.range t.clusterCount).map fun c => (t.row c).used).sum := by
  have rows : t.clusters.toList = (List.range t.clusterCount).map t.row := by
    apply List.ext_getElem
    · simp [h.size]
    · intro i inside _
      rw [Array.length_toList] at inside
      simp [row_eq_getElem inside]
  unfold used
  rw [rows, List.map_map]
  rfl

/-! ## The tags of a cluster -/

namespace Run

variable {start t : Table} {log : Log}

theorem card_tagsIn (run : Run .paired start log t) (blank : start.Blank) (c : Nat) :
    (t.tagsIn c).card = (t.row c).used := by
  rw [Cluster.used_eq_card, Table.tagsIn]
  apply Finset.card_image_of_injOn
  intro r one s other same
  rw [Finset.mem_coe, Finset.mem_filter] at one other
  exact (run.lossless blank c).distinct ⟨same, one.2⟩ ⟨rfl, other.2⟩

theorem newest_of_holds (run : Run .paired start log t) (blank : start.Blank) {c : Nat} {s : Slot}
    {tag : UInt16} (holds : (t.look ⟨c, s⟩).Holds tag) :
    ∃ write, newest? (log.writesInto c) tag = some write ∧
      (log.writesTo ⟨c, s⟩).head? = some write := by
  have last := ((run.keeps blank ⟨c, s⟩).holds_iff tag).1 holds
  obtain ⟨write, head, -⟩ := Option.map_eq_some_iff.1 last
  exact ⟨write, ((run.lossless blank c).newest holds).trans head, head⟩

theorem tagsIn_subset (run : Run .paired start log t) (blank : start.Blank) (c : Nat) :
    t.tagsIn c ⊆ log.tagsInto c := by
  intro tag held
  obtain ⟨s, holds⟩ := Table.mem_tagsIn.1 held
  obtain ⟨write, newest, -⟩ := run.newest_of_holds blank holds
  have same := List.find?_some newest
  exact Log.mem_tagsInto.2 ⟨write, List.mem_of_find?_eq_some newest, beq_iff_eq.1 same⟩

theorem tagsIn_of_room (run : Run .paired start log t) (blank : start.Blank) {c : Nat} {s : Slot}
    (unused : (t.look ⟨c, s⟩).isOccupied = false) : t.tagsIn c = log.tagsInto c := by
  apply (run.tagsIn_subset blank c).antisymm
  intro tag written
  obtain ⟨write, old, rfl⟩ := Log.mem_tagsInto.1 written
  exact Table.mem_tagsIn.2 ((run.lossless blank c).complete unused write old)

theorem used_eq_min (run : Run .paired start log t) (blank : start.Blank) (c : Nat) :
    (t.row c).used = min 3 (log.tagsInto c).card := by
  have held := run.card_tagsIn blank c
  by_cases full : ∀ s, (t.look ⟨c, s⟩).isOccupied = true
  · have three : (t.row c).used = 3 := Cluster.used_of_full full
    have atLeast := Finset.card_le_card (run.tagsIn_subset blank c)
    omega
  · obtain ⟨s, unused⟩ := not_forall.1 full
    have atMost := (t.row c).used_le
    rw [run.tagsIn_of_room blank (Bool.not_eq_true _ ▸ unused)] at held
    omega

theorem tagsIn_eq (run : Run .paired start log t) (blank : start.Blank) {c : Nat}
    (few : (log.tagsInto c).card ≤ 3) : t.tagsIn c = log.tagsInto c := by
  apply Finset.eq_of_subset_of_card_le (run.tagsIn_subset blank c)
  rw [run.card_tagsIn blank, run.used_eq_min blank]
  exact le_min few le_rfl

theorem mem_tagsInto_iff (run : Run .paired start log t) (blank : start.Blank) {c : Nat}
    {tag : UInt16} :
    tag ∈ log.tagsInto c ↔ ∃ key ∈ log.keys, start.clusterIndex key = c ∧ tagOf key = tag := by
  have home : ∀ {c}, ∀ write ∈ log.writesInto c, start.clusterIndex write.1 = c := by
    intro c write written
    rw [← run.clusterIndex_eq blank.sound]
    exact (run.lossless blank c).home write written
  rw [Log.mem_tagsInto]
  constructor
  · rintro ⟨⟨key, r⟩, written, same⟩
    exact ⟨key, Log.mem_keys.2 ⟨c, r, written⟩, home (key, r) written, same⟩
  · rintro ⟨key, member, index, same⟩
    obtain ⟨i, r, written⟩ := Log.mem_keys.1 member
    obtain rfl : i = c := (home (key, r) written).symm.trans index
    exact ⟨(key, r), written, same⟩

theorem probe_written (run : Run .paired start log t) (blank : start.Blank) {c : Nat}
    (few : (log.tagsInto c).card ≤ 3) {key : UInt64} {r : Record}
    (written : (key, r) ∈ log.writesInto c) :
    ∃ p, (t.probe key).1 = .ok p ∧ p.found = true ∧
      ∃ last, newest? (log.writesInto c) (tagOf key) = some last ∧
        p.record.value = .ofNarrow last.2.value.narrow ∧ p.record.depth = last.2.depth ∧
        p.record.bound = last.2.bound ∧ p.record.isPv = last.2.isPv := by
  have home := (run.lossless blank c).home _ written
  have held : tagOf key ∈ t.tagsIn c := by
    rw [run.tagsIn_eq blank few]
    exact Log.mem_tagsInto.2 ⟨_, written, rfl⟩
  obtain ⟨p, answered, outcome⟩ := Table.probe_spec (run.sound blank.sound) key
  have found : p.found = true := by
    rw [Table.found_iff outcome, home]
    exact Table.mem_tagsIn.1 held
  have hit := Table.Hit.of_found outcome found
  have here := hit.writer_eq
  have holds := hit.holds_slot
  rw [home] at here holds
  obtain ⟨write, newest, head⟩ := run.newest_of_holds blank holds
  obtain ⟨last, r, rest, writes, -, same⟩ := ((run.keeps blank _).recalls holds).last
  rw [writes] at head
  obtain rfl := Option.some.inj head
  refine ⟨p, answered, found, ?_⟩
  rw [hit.record, here]
  exact ⟨_, newest, same⟩

theorem used_congr {start' t' : Table} {log' : Log} (run : Run .paired start log t)
    (run' : Run .paired start' log' t') (blank : start.Blank) (blank' : start'.Blank)
    (sameCount : start'.clusterCount = start.clusterCount) (sameKeys : log'.keys = log.keys) :
    t'.used = t.used := by
  have sameIndex : ∀ key, start'.clusterIndex key = start.clusterIndex key := by
    intro key
    rw [Table.clusterIndex, sameCount, Table.clusterIndex]
  have sameTags : ∀ c, log'.tagsInto c = log.tagsInto c := by
    intro c
    ext tag
    rw [run'.mem_tagsInto_iff blank', run.mem_tagsInto_iff blank, sameKeys]
    simp only [sameIndex]
  rw [(run'.sound blank'.sound).used_eq, (run.sound blank.sound).used_eq,
    run'.clusterCount_eq blank'.sound, run.clusterCount_eq blank.sound, sameCount]
  apply congrArg
  apply List.map_congr_left
  intro c _
  rw [run'.used_eq_min blank', run.used_eq_min blank, sameTags]

end Run

/-- After any run of paired writes, as many slots of a cluster are in use as tags were written into
it, but three at most. Up to three tags, a probe of every key written finds what was written last
with its tag. Two such runs of tables of one size that wrote the same keys fill as many slots. -/
theorem lossless_below_capacity {start t : Table} {log : Log} (fresh : start.Fresh)
    (run : Run .paired start log t) :
    (∀ c, (t.row c).used = min 3 (log.tagsInto c).card) ∧
      (∀ c, (log.tagsInto c).card ≤ 3 → ∀ key r, (key, r) ∈ log.writesInto c →
        ∃ p, (t.probe key).1 = .ok p ∧ p.found = true ∧
          ∃ last, newest? (log.writesInto c) (tagOf key) = some last ∧
            p.record.value = .ofNarrow last.2.value.narrow ∧ p.record.depth = last.2.depth ∧
            p.record.bound = last.2.bound ∧ p.record.isPv = last.2.isPv) ∧
      ∀ start' log' t', Table.Fresh start' → start'.clusterCount = start.clusterCount →
        Run .paired start' log' t' → log'.keys = log.keys → t'.used = t.used := by
  have blank := fresh.blank
  refine ⟨run.used_eq_min blank, ?_, ?_⟩
  · intro c few key r written
    exact run.probe_written blank few written
  · intro start' log' t' fresh' sameCount run' sameKeys
    exact run.used_congr run' blank fresh'.blank sameCount sameKeys

/-! ## Three keys of two tags -/

theorem Log.writesInto_store (log : Log) (p : Probe) (key : UInt64) (r : Record) (g : UInt8) :
    (log.store p key r g).writesInto p.writer.cluster =
      (key, r) :: log.writesInto p.writer.cluster := by
  unfold store
  rw [writesInto_cons, writesInto_cons, Event.writeInto?_probed, Event.writeInto?, Event.change]
  simp

theorem Log.keys_store (log : Log) (p : Probe) (key : UInt64) (r : Record) (g : UInt8) :
    (log.store p key r g).keys = insert key log.keys := by
  have probed : Event.key? ⟨.probe key, .ok (.probed p)⟩ = none := by
    rw [Event.key?, Event.change]
    split_ifs <;> rfl
  have written : Event.key? ⟨.write p.writer key r g, .ok .done⟩ = some key := rfl
  unfold store keys
  rw [List.filterMap_cons_some written, List.filterMap_cons_none probed, List.toFinset_cons]

theorem Run.store {start t : Table} {log : Log} (run : Run .paired start log t)
    (sound : start.Sound) (key : UInt64) {r : Record} {g : UInt8} (fits : Entry.Fits r g) :
    ∃ p t', p.writer.cluster = start.clusterIndex key ∧
      Run .paired start (log.store p key r g) t' := by
  obtain ⟨p, answered, outcome⟩ := Table.probe_spec (run.sound sound) key
  have cluster := outcome.elim Table.Hit.cluster Table.Miss.cluster
  rw [run.clusterIndex_eq sound] at cluster
  have probed : t.probe key = (.ok p, (t.probe key).2) := Prod.ext answered rfl
  exact ⟨p, _, cluster, run.probe_write sound probed fits trivial ⟨[], p, log, rfl, rfl, rfl⟩⟩

theorem run_stores (writes : List (UInt64 × Record))
    (small : ∀ write ∈ writes, Table.least.clusterIndex write.1 = 0 ∧ Entry.Fits write.2 0) :
    ∃ log t, Run .paired Table.least log t ∧ log.writesInto 0 = writes ∧
      log.keys = (writes.map Prod.fst).toFinset := by
  induction writes with
  | nil => exact ⟨[], _, .start, rfl, rfl⟩
  | cons write writes ih =>
    obtain ⟨first, rest⟩ := List.forall_mem_cons.1 small
    obtain ⟨log, t, run, into, keys⟩ := ih rest
    obtain ⟨p, t', cluster, stored⟩ := run.store Table.least_fresh.sound write.1 first.2
    have received := log.writesInto_store p write.1 write.2 0
    rw [cluster, first.1, into] at received
    refine ⟨_, t', stored, received, ?_⟩
    rw [Log.keys_store, keys, List.map_cons, List.toFinset_cons]

/-- Two of the keys have one tag. -/
def threeWrites : List (UInt64 × Record) :=
  [(65541, deeperFinding), (6, shallowFinding), (5, shallowFinding)]

theorem lossless_three_writes :
    ∃ log t log' t', Run .paired Table.least log t ∧ Run .paired Table.least log' t' ∧
      log.writesInto 0 = threeWrites ∧ log'.writesInto 0 = threeWrites.reverse ∧
      (t.row 0).used = 2 ∧
      (∃ p, (t.probe 5).1 = .ok p ∧ p.found = true ∧ p.record.value = ⟨-20⟩ ∧ p.record.depth = 9) ∧
      t'.used = t.used := by
  obtain ⟨log, t, run, into, keys⟩ := run_stores threeWrites (by decide)
  obtain ⟨log', t', run', into', keys'⟩ := run_stores threeWrites.reverse (by decide)
  obtain ⟨filled, finds, congr⟩ := lossless_below_capacity Table.least_fresh run
  have two : (log.tagsInto 0).card = 2 := by
    unfold Log.tagsInto
    rw [into]
    decide
  refine ⟨log, t, log', t', run, run', into, into', ?_, ?_, ?_⟩
  · rw [filled, two]
    rfl
  · have first : (5, shallowFinding) ∈ log.writesInto 0 := by
      rw [into]
      decide
    obtain ⟨p, answered, found, last, newest, value, depth, -⟩ :=
      finds 0 (by rw [two]; decide) 5 shallowFinding first
    have sameTag : newest? threeWrites (tagOf 5) = some (65541, deeperFinding) := by decide
    rw [into, sameTag] at newest
    obtain rfl := Option.some.inj newest
    exact ⟨p, answered, found, value, depth⟩
  · have sameKeys : log'.keys = log.keys := by
      rw [keys, keys']
      decide
    exact congr _ _ _ Table.least_fresh rfl run' sameKeys

end PositionCache
