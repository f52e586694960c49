import PositionCache.Proofs.Life

/-!
# A probe finds what was last written

What a slot holds is told by the writes it received. A move and an evaluation may be older than the
last of them, from as far back as the tag is the same.
-/

namespace PositionCache

/-! ## The writes to a slot -/

/-- The write that an event made to a slot, with its key, if it made one. -/
def Event.writeTo? (w : Writer) (e : Event) : Option (UInt64 × Record) :=
  match e.change with
  | .stored v key r _ => if v = w then some (key, r) else none
  | _ => none

/-- The writes that a slot received, the newest first. -/
def Log.writesTo (log : Log) (w : Writer) : List (UInt64 × Record) :=
  log.filterMap (Event.writeTo? w)

def lastTag? (writes : List (UInt64 × Record)) : Option UInt16 :=
  writes.head?.map fun write => tagOf write.1

/-- The newest writes, back to the first that carries another tag. -/
def streak (writes : List (UInt64 × Record)) (tag : UInt16) : List (UInt64 × Record) :=
  writes.takeWhile fun write => tagOf write.1 == tag

def lastMove (writes : List (UInt64 × Record)) : Move :=
  ((writes.map (·.2.move)).find? fun move => !move.isAbsent).getD .absent

def lastEval? (writes : List (UInt64 × Record)) : Option Score :=
  (writes.map (·.2.eval)).find? fun eval => eval != .unknown

/-- The record is what a slot with these writes gives a probe of a tag that it holds. -/
structure Recalls (writes : List (UInt64 × Record)) (tag : UInt16) (found : Record) : Prop where
  last : ∃ key r rest, writes = (key, r) :: rest ∧ tagOf key = tag ∧
    found.value = .ofNarrow r.value.narrow ∧ found.depth = r.depth ∧ found.bound = r.bound ∧
    found.isPv = r.isPv
  move : found.move = lastMove (streak writes tag)
  eval : ∀ s, lastEval? (streak writes tag) = some s → found.eval = .ofNarrow s.narrow

theorem streak_cons (key : UInt64) (r : Record) (writes : List (UInt64 × Record)) (tag : UInt16) :
    streak ((key, r) :: writes) tag =
      if tagOf key = tag then (key, r) :: streak writes tag else [] := by
  rw [streak, List.takeWhile_cons]
  simp only [beq_iff_eq]
  rfl

theorem lastMove_cons (key : UInt64) (r : Record) (writes : List (UInt64 × Record)) :
    lastMove ((key, r) :: writes) = if r.move.isAbsent then lastMove writes else r.move := by
  unfold lastMove
  rw [List.map_cons, List.find?_cons]
  cases r.move.isAbsent <;> rfl

theorem lastEval?_cons (key : UInt64) (r : Record) (writes : List (UInt64 × Record)) :
    lastEval? ((key, r) :: writes) =
      if r.eval = .unknown then lastEval? writes else some r.eval := by
  unfold lastEval?
  rw [List.map_cons, List.find?_cons]
  by_cases known : r.eval = .unknown
  · rw [if_pos known, known]
    rfl
  · rw [if_neg known, bne_iff_ne.2 known]

theorem Event.writeTo?_probe (w : Writer) (key : UInt64) (answer : Except Fault Answer) :
    writeTo? w ⟨.probe key, answer⟩ = none := by
  rcases answer with _ | (_ | p | _ | _)
  case ok.probed =>
    rw [writeTo?, change]
    split_ifs <;> rfl
  all_goals rfl

theorem Event.same_of_writeTo? {t : Table} {w : Writer} {e : Event} (h : e.writeTo? w = none)
    (valid : e.change.Valid t) :
    ((e.change.apply t).look w).tag = (t.look w).tag ∧
      ((e.change.apply t).look w).isOccupied = (t.look w).isOccupied := by
  unfold writeTo? at h
  cases change : e.change with
  | none | advanced => exact ⟨rfl, rfl⟩
  | refreshed v =>
    rw [change] at valid
    rw [Change.look_refreshed valid]
    split_ifs
    · exact ⟨rfl, rfl⟩
    · exact ⟨rfl, rfl⟩
  | stored v key r g =>
    rw [change] at valid
    rw [change] at h
    have elsewhere : v ≠ w := by
      rintro rfl
      exact absurd h (by simp)
    rw [Change.look_stored valid, if_neg elsewhere]
    exact ⟨rfl, rfl⟩

theorem Event.holds_of_writeTo? {t : Table} {w : Writer} {e : Event} (h : e.writeTo? w = none)
    (valid : e.change.Valid t) (tag : UInt16) :
    ((e.change.apply t).look w).Holds tag ↔ (t.look w).Holds tag := by
  have same := same_of_writeTo? h valid
  rw [Entry.Holds, same.1, same.2]
  rfl

/-! ## What an entry keeps of them -/

/-- The entry is what the writes left in the slot. -/
structure Keeps (e : Entry) (writes : List (UInt64 × Record)) : Prop where
  unused : writes = [] → e = .empty
  last : ∀ {key r rest}, writes = (key, r) :: rest → e.Holds (tagOf key) ∧
    e.value = r.value.narrow ∧ e.depth = r.depth ∧ Stamp.bound e.stamp = r.bound ∧
    Stamp.isPv e.stamp = r.isPv
  move : ∀ tag, lastMove (streak writes tag) = if tag = e.tag then e.move else .absent
  eval : ∀ tag s, lastEval? (streak writes tag) = some s → tag = e.tag ∧ e.eval = s.narrow

namespace Keeps

variable {e : Entry} {writes : List (UInt64 × Record)}

theorem nothing : Keeps .empty [] where
  unused _ := rfl
  last none := absurd none (List.cons_ne_nil _ _).symm
  move tag := by
    unfold streak
    rw [List.takeWhile_nil]
    exact (ite_self (c := tag = Entry.empty.tag) Move.absent).symm
  eval _ s none := absurd none.symm (Option.some_ne_none s)

theorem refresh (h : Keeps e writes) {g : UInt8} (aligned : Stamp.Aligned g)
    (used : e.isOccupied = true) : Keeps (e.refresh g) writes where
  unused none := by
    rw [h.unused none] at used
    exact absurd used Bool.false_ne_true
  last some := by
    obtain ⟨holds, value, depth, bound, isPv⟩ := h.last some
    refine ⟨holds, value, depth, ?_, ?_⟩
    · rw [Entry.refresh, Stamp.bound_refresh aligned, bound]
    · rw [Entry.refresh, Stamp.isPv_refresh aligned, isPv]
  move := h.move
  eval := h.eval

theorem overwrite (h : Keeps e writes) {key : UInt64} {r : Record} {g : UInt8}
    (fits : Entry.Fits r g) : Keeps (e.overwrite (tagOf key) r g) ((key, r) :: writes) where
  unused none := absurd none (List.cons_ne_nil _ _)
  last some := by
    obtain ⟨⟨rfl, rfl⟩, -⟩ := Prod.mk.injEq .. ▸ List.cons.inj some
    refine ⟨(Entry.holds_overwrite fits.1 _ _ _ _).2 rfl, rfl, Entry.depth_overwrite fits.1 _ _ _,
      Stamp.bound_pack fits.2 _ _, Stamp.isPv_pack fits.2 _ _⟩
  move tag := by
    rw [streak_cons]
    have newTag : (e.overwrite (tagOf key) r g).tag = tagOf key := rfl
    have newMove : (e.overwrite (tagOf key) r g).move =
        if r.move.isAbsent = true ∧ tagOf key = e.tag then e.move else r.move := by
      simp only [Entry.overwrite, Bool.and_eq_true, beq_iff_eq]
    rw [newTag, newMove]
    by_cases same : tagOf key = tag
    · subst same
      rw [if_pos rfl, if_pos rfl, lastMove_cons, h.move]
      by_cases absent : r.move.isAbsent = true
      · rw [if_pos absent]
        by_cases own : tagOf key = e.tag
        · rw [if_pos own, if_pos ⟨absent, own⟩]
        · rw [if_neg own, if_neg (fun both => own both.2), Move.eq_absent absent]
      · rw [if_neg absent, if_neg (fun both => absent both.1)]
    · rw [if_neg same, if_neg (Ne.symm same)]
      rfl
  eval tag s some := by
    rw [streak_cons] at some
    by_cases same : tagOf key = tag
    · subst same
      rw [if_pos rfl, lastEval?_cons] at some
      refine ⟨rfl, ?_⟩
      simp only [Entry.overwrite, Bool.and_eq_true, beq_iff_eq]
      by_cases unknown : r.eval = .unknown
      · rw [if_pos unknown] at some
        obtain ⟨tags, kept⟩ := h.eval _ _ some
        rw [if_pos ⟨unknown, tags⟩, kept]
      · rw [if_neg unknown] at some
        rw [if_neg (fun both => unknown both.1), Option.some.inj some]
    · rw [if_neg same] at some
      exact absurd some.symm (Option.some_ne_none s)

theorem holds_iff (h : Keeps e writes) (tag : UInt16) : e.Holds tag ↔ lastTag? writes = some tag := by
  cases writes with
  | nil =>
    rw [h.unused rfl]
    constructor
    · rintro ⟨-, used⟩
      exact absurd used Bool.false_ne_true
    · intro tagged
      exact absurd tagged nofun
  | cons write rest =>
    obtain ⟨key, r⟩ := write
    obtain ⟨⟨same, used⟩, -⟩ := h.last rfl
    have last : lastTag? ((key, r) :: rest) = some (tagOf key) := rfl
    rw [last, Option.some.injEq, Entry.Holds, same]
    exact and_iff_left used

theorem recalls (h : Keeps e writes) {tag : UInt16} (holds : e.Holds tag) :
    Recalls writes tag e.read := by
  have same := (h.holds_iff tag).1 holds
  cases writes with
  | nil => exact absurd same nofun
  | cons write rest =>
    obtain ⟨key, r⟩ := write
    obtain ⟨-, value, depth, bound, isPv⟩ := h.last rfl
    refine ⟨⟨key, r, rest, rfl, Option.some.inj same, ?_, depth, bound, isPv⟩, ?_, ?_⟩
    · exact congrArg Score.ofNarrow value
    · rw [h.move, if_pos holds.1.symm]
      rfl
    · intro s given
      exact congrArg Score.ofNarrow (h.eval tag s given).2

end Keeps

/-! ## Runs -/

@[simp]
theorem Log.writesTo_cons (e : Event) (log : Log) (w : Writer) :
    Log.writesTo (e :: log) w = (e.writeTo? w).toList ++ log.writesTo w := by
  unfold Log.writesTo
  rw [List.filterMap_cons]
  cases e.writeTo? w <;> rfl

/-- What every slot holds after a run is what the writes of the run left there. -/
theorem Run.keeps {rule : Rule} {start t : Table} {log : Log} (blank : start.Blank)
    (run : Run rule start log t) (w : Writer) : Keeps (t.look w) (log.writesTo w) := by
  -- Only a write to the slot adds to its writes; a refresh leaves what it holds.
  refine (run.invariant (fun log t => ∀ w, Keeps (t.look w) (log.writesTo w)) blank.sound ?_ ?_).2 w
  · intro w
    rw [blank.look]
    exact Keeps.nothing
  · intro log t c _ sound kept _ _ valid w
    rw [Log.writesTo_cons, Event.writeTo?]
    cases change : (t.event c).change with
    | none | advanced => exact kept w
    | refreshed v =>
      rw [change] at valid
      rw [Change.look_refreshed valid]
      split_ifs with same
      · exact (kept w).refresh sound.aligned (same ▸ valid.2)
      · exact kept w
    | stored v key r g =>
      rw [change] at valid
      rw [Change.look_stored valid]
      dsimp only
      split_ifs
      · exact (kept w).overwrite valid.2
      · exact kept w

/-- Every probe of a run answers. It finds its key exactly if the last write to some slot of the
key's cluster carried the key's tag, and then it reads the first such slot as the writes before the
probe left it. It reads as nothing found exactly if it did not find its key. -/
theorem probe_recalls {start t : Table} {log later earlier : Log} {key : UInt64}
    {answer : Except Fault Answer} (fresh : start.Fresh) (run : Run .any start log t)
    (split : log = later ++ ⟨.probe key, answer⟩ :: earlier) :
    ∃ p, answer = .ok (.probed p) ∧
      (p.found = true ↔
        ∃ s, lastTag? (earlier.writesTo ⟨start.clusterIndex key, s⟩) = some (tagOf key)) ∧
      (p.found = true →
        p.writer.cluster = start.clusterIndex key ∧
        lastTag? (earlier.writesTo p.writer) = some (tagOf key) ∧
        (∀ s < p.writer.slot,
          lastTag? (earlier.writesTo ⟨start.clusterIndex key, s⟩) ≠ some (tagOf key)) ∧
        Recalls (earlier.writesTo p.writer) (tagOf key) p.record) ∧
      (p.record = Record.empty ↔ p.found = false) := by
  obtain ⟨before, run, happened, -⟩ := run.upTo split
  have sound := run.sound fresh.sound
  have keeps := run.keeps fresh.blank
  have sameIndex := run.clusterIndex_eq fresh.sound key
  obtain ⟨p, answered, outcome⟩ := Table.probe_spec sound key
  have answer : answer = .ok (.probed p) := by
    have given := congrArg Event.answer happened
    rw [Table.event, Call.perform, answered] at given
    exact given
  have found := Table.found_iff outcome
  simp only [(keeps _).holds_iff, sameIndex] at found
  refine ⟨p, answer, found, ?_, ?_⟩
  · intro yes
    rcases outcome with hit | miss
    · refine ⟨hit.cluster.trans sameIndex, ((keeps _).holds_iff _).1 hit.holds, ?_, ?_⟩
      · intro s below
        rw [← sameIndex]
        exact fun last => hit.first s below (((keeps _).holds_iff _).2 last)
      · rw [hit.record]
        exact (keeps _).recalls hit.holds
    · exact absurd (miss.missed.symm.trans yes) Bool.false_ne_true
  · rcases outcome with hit | miss
    · have full : p.record ≠ Record.empty := hit.record ▸ Entry.read_ne_empty hit.holds.2
      exact iff_of_false full (by rw [hit.found]; exact Bool.false_ne_true.symm)
    · exact iff_of_true miss.record miss.missed

/-- A finding with a move, and a deeper one without a move or an evaluation. -/
def shallowFinding : Record := ⟨⟨7⟩, ⟨10⟩, ⟨30⟩, 4, .lower, false⟩

def deeperFinding : Record := ⟨.absent, ⟨-20⟩, .unknown, 9, .exact, true⟩

/-- The least table with the first finding in it, in the slot that a probe hands out for it. -/
def oneFinding : Table :=
  Table.least.put ⟨0, Cluster.empty.leastWorth 0⟩
    (Entry.empty.overwrite (tagOf 5) shallowFinding 0)

theorem oneFinding_eq :
    oneFinding = Table.least.put ⟨0, 0⟩ (Entry.empty.overwrite (tagOf 5) shallowFinding 0) := rfl

theorem run_oneFinding :
    Run .any Table.least (Log.store [] (Table.missed ⟨0, 0⟩) 5 shallowFinding 0) oneFinding :=
  Table.least_fresh.blank.run_store (by decide) (by decide) trivial trivial

theorem oneFinding_reachable : oneFinding.Reachable := .used Table.least_reachable run_oneFinding

theorem least_inside : (⟨0, 0⟩ : Writer).cluster < Table.least.clusters.size :=
  Table.least_fresh.sound.clusterIndex_lt 0

theorem isOccupied_oneFinding : (oneFinding.look ⟨0, 0⟩).isOccupied = true := by
  rw [oneFinding_eq, Table.look_put_self least_inside]
  exact Entry.isOccupied_overwrite (by decide) _ _ _

/-- The second finding is written through the kept writer, and a search begins. -/
def storedTwice (w : Writer) : Log :=
  ⟨.newSearch, .ok .done⟩ :: ⟨.write w 5 deeperFinding 0, .ok .done⟩ ::
    Log.store [] (Table.missed w) 5 shallowFinding 0

theorem run_storedTwice : ∃ t, Run .any Table.least (storedTwice ⟨0, 0⟩) t := by
  have handedOut : (Log.store [] (Table.missed ⟨0, 0⟩) 5 shallowFinding 0).HandedOut ⟨0, 0⟩ :=
    ⟨5, _, List.mem_cons_of_mem _ (List.mem_singleton_self _), rfl⟩
  have inside := oneFinding_reachable.sound.clusterIndex_lt 0
  have fits : Entry.Fits deeperFinding 0 := by decide
  have second := run_oneFinding.write inside fits 5 handedOut trivial
  exact ⟨_, second.call .newSearch trivial trivial⟩

theorem probe_recalls_older_move :
    ∃ t p, Table.least.Fresh ∧
      Run .any Table.least (⟨.probe 5, .ok (.probed p)⟩ :: storedTwice ⟨0, 0⟩) t ∧
      p.found = true ∧ p.writer = ⟨0, 0⟩ ∧
      p.record = ⟨⟨7⟩, ⟨-20⟩, ⟨30⟩, 9, .exact, true⟩ := by
  obtain ⟨t, run⟩ := run_storedTwice
  have probed := run.call (.probe 5) trivial trivial
  obtain ⟨p, answer, found, recalls, -⟩ :=
    probe_recalls Table.least_fresh probed (List.nil_append _).symm
  have lastTag : lastTag? ((storedTwice ⟨0, 0⟩).writesTo ⟨Table.least.clusterIndex 5, 0⟩) =
      some (tagOf 5) := by decide
  have yes := found.2 ⟨0, lastTag⟩
  obtain ⟨cluster, -, lowest, ⟨key, r, rest, writes, -, value, depth, bound, isPv⟩, move, eval⟩ :=
    recalls yes
  have slot : p.writer.slot = 0 := by
    by_contra other
    exact lowest 0 (Fin.pos_iff_ne_zero.2 other) lastTag
  have writer : p.writer = ⟨0, 0⟩ := (Writer.mk.injEq ..).symm ▸ ⟨cluster, slot⟩
  have received : (storedTwice ⟨0, 0⟩).writesTo ⟨0, 0⟩ =
      [(5, deeperFinding), (5, shallowFinding)] := rfl
  rw [writer, received] at writes move eval
  obtain ⟨⟨rfl, rfl⟩, -⟩ := Prod.mk.injEq .. ▸ List.cons.inj writes
  have eval := eval ⟨30⟩ (by decide)
  have record : p.record = ⟨⟨7⟩, ⟨-20⟩, ⟨30⟩, 9, .exact, true⟩ := by
    cases read : p.record
    simp only [read] at value depth bound isPv move eval
    rw [value, depth, bound, isPv, move, eval]
    decide
  unfold Table.event at probed
  rw [answer] at probed
  exact ⟨_, p, Table.least_fresh, probed, yes, writer, record⟩

end PositionCache
