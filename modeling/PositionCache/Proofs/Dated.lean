import PositionCache.Proofs.Run

/-!
# Tables with unbounded dates

The same cache with nothing packed: a slot in use keeps the number of the search that used it last.
-/

namespace PositionCache

/-- A slot's contents, unpacked. -/
structure DatedEntry where
  tag : UInt16
  /-- The depth's distance from `Depth.offset`; 0 in an empty slot. -/
  depthByte : UInt8
  isPv : Bool
  bound : Bound
  move : Move
  value : Int16
  eval : Int16
  /-- The search that last wrote or found the slot. -/
  lastUsed : Nat

namespace DatedEntry

def empty : DatedEntry := ⟨0, 0, false, .none, .absent, 0, 0, 0⟩

def isOccupied (e : DatedEntry) : Bool := e.depthByte != 0

def read (e : DatedEntry) : Record where
  move := e.move
  value := .ofNarrow e.value
  eval := .ofNarrow e.eval
  depth := e.depthByte.toNat + Depth.offset
  bound := e.bound
  isPv := e.isPv

def holds (e : DatedEntry) (tag : UInt16) : Bool := e.tag == tag && e.isOccupied

def age (e : DatedEntry) (now : Nat) : Nat := now - e.lastUsed

def worth (e : DatedEntry) (now : Nat) : Int :=
  if e.isOccupied then (e.depthByte.toNat : Int) - 8 * (e.age now : Int) else Entry.worthless

/-- A slot in use is old if it was not used in this search. An empty slot has no date and passes for
one of the last search whose number is a multiple of 32; `shouldYield_of_unoccupied` says that no
depth that can be stored makes a difference there. -/
def isOld (e : DatedEntry) (now : Nat) : Prop := (if e.isOccupied then e.age now else now % 32) ≠ 0

instance (e : DatedEntry) (now : Nat) : Decidable (e.isOld now) := inferInstanceAs (Decidable (_ ≠ _))

def use (e : DatedEntry) (now : Nat) : DatedEntry := { e with lastUsed := now }

def overwrite (e : DatedEntry) (tag : UInt16) (r : Record) (now : Nat) : DatedEntry where
  tag := tag
  depthByte := UInt8.ofNat (r.depth - Depth.offset).toNat
  isPv := r.isPv
  bound := r.bound
  move := if r.move.isAbsent && tag == e.tag then e.move else r.move
  value := r.value.narrow
  eval := if r.eval == .unknown && tag == e.tag then e.eval else r.eval.narrow
  lastUsed := now

def shouldYield (e : DatedEntry) (tag : UInt16) (isPv : Bool) (bound : Bound) (depth : Depth)
    (now : Nat) : Except Fault Bool :=
  let distance := depth - Depth.offset
  let bonus := distance + if isPv then 2 else 0
  if depthLimit < distance then .error (.overflow .subtract)
  else if bound = .exact ∨ tag ≠ e.tag then .ok true
  else if depthLimit < bonus then .error (.overflow .add)
  else .ok (decide ((e.depthByte.toNat : Int) - 4 < bonus ∨ e.isOld now))

theorem shouldYield_of_unoccupied {e : DatedEntry} (unused : e.isOccupied = false) {d : Int}
    (storable : Depth.Storable d) (tag : UInt16) (isPv : Bool) (bound : Bound) (now : Nat) :
    e.shouldYield tag isPv bound d now = .ok true := by
  have zero : e.depthByte = 0 := by
    unfold isOccupied at unused
    rw [bne_eq_false_iff_eq] at unused
    exact unused
  have low : -6 ≤ d := storable.1
  have high : d ≤ 248 := storable.2
  have fits : ¬ depthLimit < d - Depth.offset := by
    change ¬ (2147483647 : Int) < d - -7
    omega
  have bonusFits : ¬ depthLimit < d - Depth.offset + if isPv then 2 else 0 := by
    change ¬ (2147483647 : Int) < d - -7 + if isPv then 2 else 0
    split_ifs <;> omega
  have deeper : (e.depthByte.toNat : Int) - 4 < d - Depth.offset + if isPv then 2 else 0 := by
    rw [zero, UInt8.toNat_zero]
    change (0 : Int) - 4 < d - -7 + if isPv then 2 else 0
    split_ifs <;> omega
  unfold shouldYield
  simp only [if_neg fits, if_neg bonusFits, deeper, true_or, decide_true, ite_self]

end DatedEntry

structure DatedTable where
  clusterCount : Nat
  slots : Writer → DatedEntry
  searches : Nat

namespace DatedTable

def blank (clusterCount : Nat) : DatedTable := ⟨clusterCount, fun _ => .empty, 0⟩

/-! ## Operations -/

def put (t : DatedTable) (w : Writer) (e : DatedEntry) : DatedTable :=
  { t with slots := fun v => if w = v then e else t.slots v }

def newSearch (t : DatedTable) : DatedTable := { t with searches := t.searches + 1 }

def clusterIndex (t : DatedTable) (key : UInt64) : Nat := key.toNat * t.clusterCount / 2 ^ 64

def find? (t : DatedTable) (i : Nat) (tag : UInt16) : Option Slot :=
  (List.finRange 3).find? fun s => (t.slots ⟨i, s⟩).holds tag

/-- The first of the slots that are worth least. There is one, so the last is never a way out. -/
def leastWorth (t : DatedTable) (i : Nat) : Slot :=
  let worth (s : Slot) : Int := (t.slots ⟨i, s⟩).worth t.searches
  ((List.finRange 3).find? fun s => ∀ r, worth s ≤ worth r).getD (Fin.last 2)

def probe (t : DatedTable) (key : UInt64) : Probe × DatedTable :=
  let i := t.clusterIndex key
  match t.find? i (tagOf key) with
  | some s =>
    let e := t.slots ⟨i, s⟩
    (⟨true, e.read, ⟨i, s⟩⟩, t.put ⟨i, s⟩ (e.use t.searches))
  | none => (⟨false, .empty, ⟨i, t.leastWorth i⟩⟩, t)

def write (t : DatedTable) (w : Writer) (key : UInt64) (r : Record) :
    Except Fault Unit × DatedTable :=
  if t.clusterCount ≤ w.cluster then (.error (.outOfBounds t.clusterCount w.cluster), t)
  else if ¬ Depth.Storable r.depth then (.error (.depthOutOfRange r.depth), t)
  else (.ok (), t.put w ((t.slots w).overwrite (tagOf key) r t.searches))

def shouldOverwrite (t : DatedTable) (w : Writer) (key : UInt64) (isPv : Bool) (bound : Bound)
    (depth : Depth) : Except Fault Bool :=
  if t.clusterCount ≤ w.cluster then .error (.outOfBounds t.clusterCount w.cluster)
  else (t.slots w).shouldYield (tagOf key) isPv bound depth t.searches

/-! ## Occupancy -/

/-- The slots of the first thousand clusters, or of all if there are fewer. -/
def sample (t : DatedTable) : List DatedEntry :=
  (List.range (min 1000 t.clusterCount)).flatMap fun i =>
    (List.finRange 3).map fun s => t.slots ⟨i, s⟩

/-- The share of the sample's slots that were used at most so many searches ago, in thousandths. -/
def hashfullWithAge (t : DatedTable) (maxAge : Nat) : Nat :=
  t.sample.countP (fun e => e.isOccupied && decide (e.age t.searches ≤ maxAge)) * 1000 /
    (min 1000 t.clusterCount * 3)

def hashfull (t : DatedTable) : Nat := t.hashfullWithAge 0

/-! ## Runs -/

/-- The answer of a call and the table after it. A generation is not looked at. -/
def perform (t : DatedTable) : Call → Except Fault Answer × DatedTable
  | .probe key => (.ok (.probed (t.probe key).1), (t.probe key).2)
  | .write w key r _ => ((fun _ => .done) <$> (t.write w key r).1, (t.write w key r).2)
  | .shouldOverwrite w key pv b d _ => (.advice <$> t.shouldOverwrite w key pv b d, t)
  | .newSearch => (.ok .done, t.newSearch)
  | .hashfull => (.ok (.share t.hashfull), t)
  | .hashfullWithAge maxAge => (.ok (.share (t.hashfullWithAge maxAge)), t)
  | .prefetch _ => (.ok .done, t)

def event (t : DatedTable) (c : Call) : Event := ⟨c, (t.perform c).1⟩

/-- The calls of the log, with just these answers, lead from one table to another. -/
inductive Run (start : DatedTable) : Log → DatedTable → Prop
  | start : Run start [] start
  | call {log : Log} {t : DatedTable} (earlier : Run start log t) (c : Call) :
      Run start (t.event c :: log) (t.perform c).2

/-! ## What a call does -/

def apply (t : DatedTable) : Change → DatedTable
  | .none => t
  | .refreshed w => t.put w ((t.slots w).use t.searches)
  | .stored w key r _ => t.put w ((t.slots w).overwrite (tagOf key) r t.searches)
  | .advanced => t.newSearch

theorem perform_spec (t : DatedTable) (c : Call) : (t.perform c).2 = t.apply (t.event c).change := by
  cases c with
  | probe key =>
    simp only [event, perform, Event.change, probe]
    cases t.find? (t.clusterIndex key) (tagOf key) <;> rfl
  | write w key r g =>
    simp only [event, perform, write]
    by_cases outside : t.clusterCount ≤ w.cluster
    · rw [if_pos outside]
      rfl
    · by_cases storable : Depth.Storable r.depth
      · rw [if_neg outside, if_neg (not_not_intro storable)]
        rfl
      · rw [if_neg outside, if_pos storable]
        rfl
  | shouldOverwrite w key pv b d g =>
    simp only [event, perform, Event.change]
    rfl
  | newSearch | hashfull | hashfullWithAge | prefetch => rfl

end DatedTable

end PositionCache
