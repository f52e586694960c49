import PositionCache.Proofs.Run
import PositionCache.Proofs.Upkeep

/-!
# The life of a table

A table is made, used in runs, and between them cleared, resized or given another number of workers;
all writers end there.
-/

namespace PositionCache.Table

/-- The tables that can come to be, also by upkeep that fails. -/
inductive Reachable : Table → Prop
  | made {m : Machine} {s : Settings} {t : Table} : make m s = .ok t → Reachable t
  | used {t after : Table} {log : Log} : Reachable t → Run .any t log after → Reachable after
  | cleared {t : Table} : Reachable t → Reachable t.clear.table
  | resized {t : Table} (m : Machine) (mb : Nat) : Reachable t → Reachable (t.resize m mb).table
  | rethreaded {t : Table} (threads : Nat) : Reachable t → Reachable (t.setInitThreads threads)

/-- The tables whose history begins anew. -/
inductive Fresh : Table → Prop
  | made {m : Machine} {s : Settings} {t : Table} : make m s = .ok t → Fresh t
  | cleared {t : Table} : Reachable t → t.clear.failure = none → Fresh t.clear.table
  | resized {t : Table} {m : Machine} {mb : Nat} : Reachable t → (t.resize m mb).failure = none →
      Fresh (t.resize m mb).table
  | rethreaded {t : Table} (threads : Nat) : Fresh t → Fresh (t.setInitThreads threads)

theorem Reachable.sound {t : Table} (h : Reachable t) : t.Sound := by
  induction h with
  | made made => exact (make_blank made).sound
  | used _ run ih => exact run.sound ih
  | cleared _ ih => exact ih.clear
  | resized m mb _ ih => exact ih.resize
  | rethreaded threads _ ih => exact ih.setInitThreads threads

/-- The tables that can come to be when every run keeps a rule. -/
inductive ReachableBy (rule : Rule) : Table → Prop
  | made {m : Machine} {s : Settings} {t : Table} : make m s = .ok t → ReachableBy rule t
  | used {t after : Table} {log : Log} : ReachableBy rule t → Run rule t log after →
      ReachableBy rule after
  | cleared {t : Table} : ReachableBy rule t → ReachableBy rule t.clear.table
  | resized {t : Table} (m : Machine) (mb : Nat) : ReachableBy rule t →
      ReachableBy rule (t.resize m mb).table
  | rethreaded {t : Table} (threads : Nat) : ReachableBy rule t →
      ReachableBy rule (t.setInitThreads threads)

theorem ReachableBy.reachable {rule : Rule} {t : Table} (h : ReachableBy rule t) :
    Reachable t := by
  induction h with
  | made made => exact .made made
  | used _ run ih => exact .used ih (run.mono fun _ _ _ _ => trivial)
  | cleared _ ih => exact .cleared ih
  | resized m mb _ ih => exact .resized m mb ih
  | rethreaded threads _ ih => exact .rethreaded threads ih

theorem Reachable.byAny {t : Table} (h : Reachable t) : ReachableBy .any t := by
  induction h with
  | made made => exact .made made
  | used _ run ih => exact .used ih run
  | cleared _ ih => exact .cleared ih
  | resized m mb _ ih => exact .resized m mb ih
  | rethreaded threads _ ih => exact .rethreaded threads ih

/-- What holds of empty storage and is kept by every run holds of all storage: upkeep empties it or
leaves it alone. -/
theorem ReachableBy.storage {rule : Rule} {P : (Nat → Cluster) → Prop} (empty : P fun _ => .empty)
    (kept : ∀ {start t log}, start.Sound → P start.row → Run rule start log t → P t.row)
    {t : Table} (h : ReachableBy rule t) : P t.row := by
  induction h with
  | made made =>
    rw [(make_blank made).row]
    exact empty
  | used reached run ih => exact kept reached.reachable.sound ih run
  | @cleared t reached ih =>
    by_cases done : t.clear.failure = none
    · rw [(clear_blank reached.reachable.sound done).row]
      exact empty
    · rw [clear_row_of_failure reached.reachable.sound done]
      exact ih
  | @resized t m mb reached ih =>
    by_cases done : (t.resize m mb).failure = none
    · rw [(resize_blank reached.reachable.sound done).row]
      exact empty
    · rw [resize_row_of_failure reached.reachable.sound done]
      exact ih
  | rethreaded _ _ ih => exact ih

theorem Fresh.blank {t : Table} (h : Fresh t) : t.Blank := by
  induction h with
  | made made => exact make_blank made
  | cleared reached done => exact clear_blank reached.sound done
  | resized reached done => exact resize_blank reached.sound done
  | rethreaded threads _ ih => exact ⟨ih.clusters, ih.nonempty, ih.generation⟩

theorem Fresh.sound {t : Table} (h : Fresh t) : t.Sound := h.blank.sound

/-! ## The least table -/

def stale : Entry := ⟨0xFFFF, 0xFF, 0xFF, ⟨0xFFFF⟩, -1, -1⟩

/-- A machine that has every block, full of what stood there before. -/
def generous : Machine where
  processors := 1
  grants _ := true
  contents _ _ := ⟨stale, stale, stale⟩

/-- The table of size 1 that one worker cleared. -/
def least : Table where
  clusters := Array.replicate 32768 .empty
  clusterCount := 32768
  generation := 0
  sizeMb := 1
  initThreads := 1
  largePages := false

theorem make_least : make generous ⟨1, 1, false⟩ = .ok least := by
  have counted : clusterCountFor 1 = .ok 32768 := by decide
  have served : storageFor generous 32768 false = .ok ⟨1048576, 4096⟩ := rfl
  rw [make_of_served rfl counted served, if_pos Zeroing.countable_one]
  rfl

theorem least_fresh : Fresh least := .made make_least

theorem least_reachable : Reachable least := .made make_least

/-! ## A first probe and a first write -/

def missed (w : Writer) : Probe := ⟨false, .empty, w⟩

theorem Blank.probe {t : Table} (h : t.Blank) (key : UInt64) :
    t.probe key = (.ok (missed ⟨t.clusterIndex key, 0⟩), t) := by
  have inside := h.sound.clusterIndex_lt key
  have unused : t.row (t.clusterIndex key) = .empty := Cluster.ext_get fun s => by
    rw [Cluster.get_empty]
    exact h.look ⟨t.clusterIndex key, s⟩
  have lost : Cluster.empty.find? (tagOf key) = none := by
    rw [Cluster.find?_eq_none_iff]
    rintro s ⟨-, used⟩
    rw [Cluster.get_empty] at used
    exact absurd used Bool.false_ne_true
  rw [probe_of_find_none inside (unused ▸ lost), unused]
  rfl

theorem least_probe {key : UInt64} (h : least.clusterIndex key = 0) :
    least.probe key = (.ok (missed ⟨0, 0⟩), least) := by
  rw [least_fresh.blank.probe, h]

theorem Blank.run_store {t : Table} (h : t.Blank) {rule : Rule} {w : Writer} {key : UInt64}
    {r : Record} {g : UInt8} (here : w = ⟨t.clusterIndex key, 0⟩) (fits : Entry.Fits r g)
    (probing : rule [] t (.probe key))
    (writing : rule [⟨.probe key, .ok (.probed (missed w))⟩] t (.write w key r g)) :
    Run rule t (Log.store [] (missed w) key r g)
      (t.put w (Entry.empty.overwrite (tagOf key) r g)) := by
  subst here
  have run := Run.start.probe_write h.sound (h.probe key) fits probing writing
  rw [h.look] at run
  exact run

end PositionCache.Table
