import PositionCache.Table.Occupancy
import PositionCache.Proofs.Table

/-!
# Runs

A run is any number of calls that leave the storage in place. A call may name any writer that a probe
of its log handed out, whatever the slot holds by then.
-/

namespace PositionCache

/-! ## Calls and logs -/

inductive Call where
  | probe (key : UInt64)
  | write (w : Writer) (key : UInt64) (record : Record) (generation : UInt8)
  | shouldOverwrite (w : Writer) (key : UInt64) (isPv : Bool) (bound : Bound) (depth : Depth)
      (generation : UInt8)
  | newSearch
  | hashfull
  | hashfullWithAge (maxAge : Nat)
  | prefetch (key : UInt64)

inductive Answer where
  | done
  | probed (p : Probe)
  | advice (overwrite : Bool)
  | share (perMille : Nat)
deriving DecidableEq

namespace Call

/-- The answer of a call and the table after it. -/
def perform (t : Table) : Call → Except Fault Answer × Table
  | probe key => (.probed <$> (t.probe key).1, (t.probe key).2)
  | write w key r g => ((fun _ => .done) <$> (t.write w key r g).1, (t.write w key r g).2)
  | shouldOverwrite w key pv b d g => (.advice <$> t.shouldOverwrite w key pv b d g, t)
  | newSearch => (.ok .done, t.newSearch)
  | hashfull => (.share <$> t.hashfull, t)
  | hashfullWithAge maxAge => (.share <$> t.hashfullWithAge maxAge, t)
  | prefetch key => ((fun _ => .done) <$> t.prefetch key, t)

end Call

structure Event where
  call : Call
  answer : Except Fault Answer

/-- What happened so far, the newest first. -/
abbrev Log := List Event

/-- A probe of a key and a write of it through the probe's writer, after what the log has. -/
def Log.store (log : Log) (p : Probe) (key : UInt64) (r : Record) (g : UInt8) : Log :=
  ⟨.write p.writer key r g, .ok .done⟩ :: ⟨.probe key, .ok (.probed p)⟩ :: log

def Log.HandedOut (log : Log) (w : Writer) : Prop :=
  ∃ key p, ⟨.probe key, .ok (.probed p)⟩ ∈ log ∧ p.writer = w

/-- The call uses no writer but those handed out. -/
def Call.Bound (log : Log) : Call → Prop
  | write w .. | shouldOverwrite w .. => log.HandedOut w
  | _ => True

/-! ## What an event did -/

inductive Change where
  | none
  | refreshed (w : Writer)
  | stored (w : Writer) (key : UInt64) (record : Record) (generation : UInt8)
  | advanced

namespace Change

def apply (t : Table) : Change → Table
  | none => t
  | refreshed w => t.put w ((t.look w).refresh t.generation)
  | stored w key r g => t.put w ((t.look w).overwrite (tagOf key) r g)
  | advanced => t.newSearch

/-- The table has the slot, and the slot takes the change. -/
def Valid (t : Table) : Change → Prop
  | refreshed w => w.cluster < t.clusters.size ∧ (t.look w).isOccupied = true
  | stored w _ r g => w.cluster < t.clusters.size ∧ Entry.Fits r g
  | none | advanced => True

end Change

/-- The change that a call made, as its answer tells. A write that faulted made none. -/
def Event.change : Event → Change
  | ⟨.probe _, .ok (.probed p)⟩ => if p.found then .refreshed p.writer else .none
  | ⟨.write w key r g, .ok _⟩ => .stored w key r g
  | ⟨.newSearch, _⟩ => .advanced
  | _ => .none

theorem Event.call_of_stored {e : Event} {w : Writer} {key : UInt64} {r : Record} {g : UInt8}
    (h : e.change = .stored w key r g) : e.call = .write w key r g := by
  unfold Event.change at h
  split at h
  · split_ifs at h
  · obtain ⟨rfl, rfl, rfl, rfl⟩ := Change.stored.inj h
    rfl
  · exact absurd h nofun
  · exact absurd h nofun

def Table.event (t : Table) (c : Call) : Event := ⟨c, (c.perform t).1⟩

theorem perform_spec {t : Table} (h : t.Sound) (c : Call) :
    (t.event c).change.Valid t ∧ (c.perform t).2 = (t.event c).change.apply t := by
  cases c with
  | probe key =>
    obtain ⟨p, answer, outcome⟩ := Table.probe_spec h key
    have event : (t.event (.probe key)).change = if p.found then .refreshed p.writer else .none := by
      rw [Table.event, Call.perform, answer]
      rfl
    have inside := h.writer_inside outcome
    rw [event, Call.perform]
    rcases outcome with hit | miss
    · rw [if_pos hit.found]
      exact ⟨⟨inside, hit.holds.2⟩, hit.refreshed⟩
    · rw [if_neg (by rw [miss.missed]; exact Bool.false_ne_true)]
      exact ⟨trivial, miss.unchanged⟩
  | write w key r g =>
    by_cases takes : w.cluster < t.clusters.size ∧ Entry.Fits r g
    · have event : (t.event (.write w key r g)).change = .stored w key r g := by
        rw [Table.event, Call.perform, Table.write_of_fits takes.1 takes.2]
        rfl
      rw [event, Call.perform, Table.write_of_fits takes.1 takes.2]
      exact ⟨takes, rfl⟩
    · obtain ⟨fault, refused⟩ := Table.write_of_refused takes key
      have event : (t.event (.write w key r g)).change = .none := by
        rw [Table.event, Call.perform, refused]
        rfl
      rw [event, Call.perform, refused]
      exact ⟨trivial, rfl⟩
  | newSearch => exact ⟨trivial, rfl⟩
  | shouldOverwrite | hashfull | hashfullWithAge | prefetch =>
    simp only [Table.event, Call.perform, Event.change]
    exact ⟨trivial, rfl⟩

theorem Table.Sound.outcome_of_event {t : Table} (h : t.Sound) {c : Call} {key : UInt64} {p : Probe}
    (probed : t.event c = ⟨.probe key, .ok (.probed p)⟩) :
    Table.Hit t key p (t.probe key).2 ∨ Table.Miss t key p (t.probe key).2 := by
  obtain rfl : c = .probe key := congrArg Event.call probed
  obtain ⟨q, answered, outcome⟩ := Table.probe_spec h key
  have given := congrArg Event.answer probed
  rw [Table.event, Call.perform, answered] at given
  obtain rfl : q = p := Answer.probed.inj (Except.ok.inj given)
  exact outcome

theorem Change.sound {t : Table} {c : Change} (h : t.Sound) (valid : c.Valid t) :
    (c.apply t).Sound := by
  cases c with
  | none => exact h
  | advanced => exact h.newSearch
  | refreshed w => exact h.put valid.1 (.of_isOccupied valid.2)
  | stored w key r g =>
    exact h.put valid.1 (.of_isOccupied (Entry.isOccupied_overwrite valid.2.1 _ _ _))

@[simp]
theorem Change.clusterCount_apply (t : Table) (c : Change) :
    (c.apply t).clusterCount = t.clusterCount := by
  cases c <;> rfl

theorem Change.look_refreshed {t : Table} {v : Writer} (valid : (refreshed v).Valid t)
    (w : Writer) : ((refreshed v).apply t).look w =
      if v = w then (t.look w).refresh t.generation else t.look w := by
  unfold apply
  rw [Table.look_put valid.1]
  split_ifs with same
  · rw [same]
  · rfl

theorem Change.look_stored {t : Table} {v : Writer} {key : UInt64} {r : Record} {g : UInt8}
    (valid : (stored v key r g).Valid t) (w : Writer) : ((stored v key r g).apply t).look w =
      if v = w then (t.look w).overwrite (tagOf key) r g else t.look w := by
  unfold apply
  rw [Table.look_put valid.1]
  split_ifs with same
  · rw [same]
  · rfl

theorem Change.holds_refreshed {t : Table} {v : Writer} (valid : (refreshed v).Valid t)
    (w : Writer) (tag : UInt16) :
    (((refreshed v).apply t).look w).Holds tag ↔ (t.look w).Holds tag := by
  rw [look_refreshed valid]
  split_ifs <;> rfl

theorem Change.holds_stored {t : Table} {v : Writer} {key : UInt64} {r : Record} {g : UInt8}
    (valid : (stored v key r g).Valid t) (w : Writer) (tag : UInt16) :
    (((stored v key r g).apply t).look w).Holds tag ↔
      if v = w then tagOf key = tag else (t.look w).Holds tag := by
  rw [look_stored valid]
  split_ifs
  · exact Entry.holds_overwrite valid.2.1 _ _ _ _
  · rfl

theorem Change.isOccupied_apply {t : Table} {c : Change} (valid : c.Valid t) {w : Writer}
    (h : (t.look w).isOccupied = true) : ((c.apply t).look w).isOccupied = true := by
  cases c with
  | none | advanced => exact h
  | refreshed v =>
    rw [look_refreshed valid]
    split_ifs
    · exact h
    · exact h
  | stored v key r g =>
    rw [look_stored valid]
    split_ifs
    · exact Entry.isOccupied_overwrite valid.2.1 _ _ _
    · exact h

/-! ## Runs -/

/-- Which calls a run may make, by what happened so far and the table then. -/
abbrev Rule := Log → Table → Call → Prop

def Rule.any : Rule := fun _ _ _ => True

/-- The calls of the log lead from one table to another, and each was allowed. -/
inductive Run (rule : Rule) (start : Table) : Log → Table → Prop
  | start : Run rule start [] start
  | call {log : Log} {t : Table} (earlier : Run rule start log t) (c : Call) (bound : c.Bound log)
      (allowed : rule log t c) : Run rule start (t.event c :: log) (c.perform t).2

namespace Run

variable {rule : Rule} {start t : Table} {log : Log}

/-- What holds at the start and is kept by every call of a sound table holds after a run. -/
theorem invariant (Inv : Log → Table → Prop) (sound : start.Sound) (initial : Inv [] start)
    (kept : ∀ {log t} (c : Call), Run rule start log t → t.Sound → Inv log t → c.Bound log →
      rule log t c → (t.event c).change.Valid t →
      Inv (t.event c :: log) ((t.event c).change.apply t))
    (run : Run rule start log t) : t.Sound ∧ Inv log t := by
  induction run with
  | start => exact ⟨sound, initial⟩
  | call earlier c bound allowed ih =>
    obtain ⟨valid, after⟩ := perform_spec ih.1 c
    rw [after]
    exact ⟨Change.sound ih.1 valid, kept c earlier ih.1 ih.2 bound allowed valid⟩

theorem of_cons {e : Event} {after : Table} (run : Run rule start (e :: log) after) :
    ∃ t c, Run rule start log t ∧ c.Bound log ∧ rule log t c ∧ e = t.event c ∧
      after = (c.perform t).2 := by
  cases run with
  | call earlier c bound allowed => exact ⟨_, c, earlier, bound, allowed, rfl, rfl⟩

theorem unique {t' : Table} (run : Run rule start log t) (other : Run rule start log t') :
    t = t' := by
  induction log generalizing t t' with
  | nil =>
    cases run
    cases other
    rfl
  | cons e log ih =>
    obtain ⟨before, c, earlier, -, -, happened, rfl⟩ := run.of_cons
    obtain ⟨before', c', earlier', -, -, happened', rfl⟩ := other.of_cons
    have sameCall : c = c' := congrArg Event.call (happened.symm.trans happened')
    rw [ih earlier earlier', sameCall]

theorem sound (run : Run rule start log t) (h : start.Sound) : t.Sound :=
  (invariant (fun _ _ => True) h trivial (fun _ _ _ _ _ _ _ => trivial) run).1

theorem write (run : Run rule start log t) {w : Writer} {r : Record} {g : UInt8}
    (inside : w.cluster < t.clusters.size) (fits : Entry.Fits r g) (key : UInt64)
    (bound : log.HandedOut w) (allowed : rule log t (.write w key r g)) :
    Run rule start (⟨.write w key r g, .ok .done⟩ :: log)
      (t.put w ((t.look w).overwrite (tagOf key) r g)) := by
  have written := run.call (.write w key r g) bound allowed
  rw [Table.event, Call.perform, Table.write_of_fits inside fits] at written
  exact written

theorem probe (run : Run rule start log t) {key : UInt64} {p : Probe} {after : Table}
    (probed : t.probe key = (.ok p, after)) (allowed : rule log t (.probe key)) :
    Run rule start (⟨.probe key, .ok (.probed p)⟩ :: log) after := by
  have found := run.call (.probe key) trivial allowed
  rw [Table.event, Call.perform, probed] at found
  exact found

theorem probe_write (run : Run rule start log t) (h : start.Sound) {key : UInt64} {p : Probe}
    {after : Table} (probed : t.probe key = (.ok p, after)) {r : Record} {g : UInt8}
    (fits : Entry.Fits r g) (probing : rule log t (.probe key))
    (writing : rule (⟨.probe key, .ok (.probed p)⟩ :: log) after (.write p.writer key r g)) :
    Run rule start (log.store p key r g)
      (after.put p.writer ((after.look p.writer).overwrite (tagOf key) r g)) := by
  obtain ⟨q, answered, outcome⟩ := Table.probe_spec (run.sound h) key
  rw [probed] at answered outcome
  obtain rfl := Except.ok.inj answered
  obtain ⟨sound, leads⟩ := (run.sound h).after_probe outcome
  exact (run.probe probed probing).write (leads.inside sound) fits key
    ⟨key, p, List.mem_cons_self, rfl⟩ writing

theorem clusterCount_eq (run : Run rule start log t) (h : start.Sound) :
    t.clusterCount = start.clusterCount := by
  refine (invariant (fun _ t => t.clusterCount = start.clusterCount) h rfl ?_ run).2
  intro log t c _ _ same _ _ _
  rw [Change.clusterCount_apply, same]

theorem clusterIndex_eq (run : Run rule start log t) (h : start.Sound) (key : UInt64) :
    t.clusterIndex key = start.clusterIndex key := by
  rw [Table.clusterIndex, run.clusterCount_eq h, Table.clusterIndex]

theorem rest (Inv : Table → Prop) {later : Log} {after : Table} (run : Run rule start log t)
    (rest : Run rule start (later ++ log) after) (h : start.Sound) (now : Inv t)
    (kept : ∀ {t : Table} {e : Event}, e ∈ later → t.Sound → e.change.Valid t → Inv t →
      Inv (e.change.apply t)) : Inv after := by
  induction later generalizing after with
  | nil => exact run.unique rest ▸ now
  | cons e later ih =>
    obtain ⟨before, c, earlier, -, -, rfl, rfl⟩ := of_cons rest
    obtain ⟨valid, after⟩ := perform_spec (earlier.sound h) c
    rw [after]
    exact kept List.mem_cons_self (earlier.sound h) valid
      (ih earlier fun member => kept (List.mem_cons_of_mem _ member))

theorem isOccupied_of_earlier {later : Log} {after : Table} (run : Run rule start log t)
    (rest : Run rule start (later ++ log) after) (h : start.Sound) {w : Writer}
    (used : (t.look w).isOccupied = true) : (after.look w).isOccupied = true :=
  run.rest (fun t => (t.look w).isOccupied = true) rest h used fun _ _ valid =>
    Change.isOccupied_apply valid

theorem mono {lax : Rule} (h : ∀ log t c, rule log t c → lax log t c)
    (run : Run rule start log t) : Run lax start log t := by
  induction run with
  | start => exact .start
  | call earlier c bound allowed ih => exact .call ih c bound (h _ _ _ allowed)

/-- What led up to an event of the log is a run as well, and the event is of a call allowed then. -/
theorem upTo {later earlier : Log} {e : Event} (run : Run rule start log t)
    (split : log = later ++ e :: earlier) :
    ∃ before, Run rule start earlier before ∧ e = before.event e.call ∧
      rule earlier before e.call := by
  induction run generalizing later with
  | start => exact absurd split.symm (List.append_ne_nil_of_right_ne_nil _ (List.cons_ne_nil _ _))
  | call run c bound allowed ih =>
    cases later with
    | nil =>
      obtain ⟨rfl, rfl⟩ := List.cons.inj split
      exact ⟨_, run, rfl, allowed⟩
    | cons newest later =>
      exact ih (List.cons.inj split).2

theorem cluster_of_probed (run : Run rule start log t) (h : start.Sound) {key : UInt64} {p : Probe}
    (probed : ⟨.probe key, .ok (.probed p)⟩ ∈ log) :
    p.writer.cluster = start.clusterIndex key := by
  obtain ⟨later, earlier, split⟩ := List.append_of_mem probed
  obtain ⟨before, ran, happened, -⟩ := run.upTo split
  rw [← ran.clusterIndex_eq h key]
  rcases (ran.sound h).outcome_of_event happened.symm with hit | miss
  · exact hit.cluster
  · exact miss.cluster

end Run

end PositionCache
