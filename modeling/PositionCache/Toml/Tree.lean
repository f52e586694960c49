import PositionCache.Toml.Text

/-!
# Tables of settings

Keys and values form a tree of tables. A table comes about by a header of its own, on the way to
another header, or on the way along the points of a key, and that decides who may add to it later:
no header opens a table a second time, and no pointed key enters a table that it did not make. Of
several tables under one key only the newest can still grow, so only that one is kept.
-/

namespace PositionCache.Toml

/-- A value, as far as settings need it: any but integers and truth values is told by its kind. -/
inductive Value where
  | integer (n : Int)
  | boolean (b : Bool)
  | text (content : List Char)
  | float
  | moment
  | array
  | table
deriving DecidableEq, Inhabited

inductive Origin where
  | header
  /-- On the way to the table of a header. -/
  | passed
  /-- On the way along a key with points. -/
  | pointed
deriving DecidableEq, Inhabited

inductive Node where
  | value (v : Value)
  | table (origin : Origin) (fields : List (Key × Node))
  /-- Several tables, of which this is the newest. -/
  | tables (newest : List (Key × Node))

abbrev Fields := List (Key × Node)

namespace Fields

def get? (fields : Fields) (k : Key) : Option Node := List.lookup k fields

def put (k : Key) (n : Node) : Fields → Fields
  | [] => [(k, n)]
  | (k', n') :: rest => if k' = k then (k, n) :: rest else (k', n') :: put k n rest

/-- Changes the table at the end of a way from a table of some origin, and makes the tables on the
way that are missing. A way along points does not enter the table of a header. -/
def changeAt (along : Origin) (change : Origin → Fields → Option Fields) :
    List Key → Origin → Fields → Option Fields
  | [], origin, fields => change origin fields
  | k :: way, _, fields =>
    match fields.get? k with
    | none => do
      let inner ← changeAt along change way along []
      pure (fields.put k (.table along inner))
    | some (.value _) => none
    | some (.table origin inner) =>
      if along = .pointed ∧ origin = .header then none
      else do
        let inner ← changeAt along change way origin inner
        pure (fields.put k (.table origin inner))
    | some (.tables newest) => do
      let newest ← changeAt along change way .header newest
      pure (fields.put k (.tables newest))

def add (k : Key) (v : Value) (fields : Fields) : Option Fields :=
  match fields.get? k with
  | none => some (fields.put k (.value v))
  | some _ => none

/-- Adds a value along the points of its key. The table that it ends in must have been made by
points, unless there are none. -/
def addAt (p : Path) (v : Value) (origin : Origin) (fields : Fields) : Option Fields :=
  changeAt .pointed
    (fun origin fields =>
      if p.parents ≠ [] ∧ origin ≠ .pointed then none else fields.add p.last v)
    p.parents origin fields

def openTable (p : Path) (fields : Fields) : Option Fields :=
  changeAt .passed
    (fun _ fields =>
      match fields.get? p.last with
      | none => some (fields.put p.last (.table .header []))
      | some (.table .passed inner) => some (fields.put p.last (.table .header inner))
      | some _ => none)
    p.parents .header fields

def openTables (p : Path) (fields : Fields) : Option Fields :=
  changeAt .passed
    (fun _ fields =>
      match fields.get? p.last with
      | none | some (.tables _) => some (fields.put p.last (.tables []))
      | some _ => none)
    p.parents .header fields

end Fields

end PositionCache.Toml
