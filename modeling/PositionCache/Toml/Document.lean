import PositionCache.Toml.Number
import PositionCache.Toml.Tree

/-!
# Documents

A document is a sequence of statements: a key with its value, or the header of the table that the
next keys belong to. Arrays run over several lines and tables in braces do not; both nest, but only
so deep.
-/

namespace PositionCache.Toml

namespace Reader

/-! ## Values -/

def boolean : Reader Bool :=
  (do chars ['t', 'r', 'u', 'e']; pure true) <|>
  (do chars ['f', 'a', 'l', 's', 'e']; pure false)

def scalar : Reader Value :=
  .text <$> text
    <|> (fun _ => .moment) <$> moment
    <|> (fun _ => .float) <$> float
    <|> .integer <$> integer
    <|> .boolean <$> boolean

/-- Values with commas between them and perhaps one at the end, at most `limit`. -/
def elements (value : Reader Value) : Nat → Reader Unit
  | 0 => pure ()
  | limit + 1 =>
    (do
      gap
      let _ ← value
      gap
      (do
        char ','
        elements value limit) <|> pure ()) <|> pure ()

def array (value : Reader Value) : Reader Value := do
  char '['
  (fun s => elements value s.length s : Reader Unit)
  gap
  char ']'
  pure .array

def pair (value : Reader Value) : Reader (Path × Value) := do
  let p ← path
  char '='
  blanks
  let v ← value
  pure (p, v)

/-- A table in braces: pairs with commas between them, that could also stand on their own. -/
def braces (value : Reader Value) : Reader Value := do
  char '{'
  let first ← maybe (pair value <* blanks)
  let pairs ← match first with
    | none => pure []
    | some p => do
      let rest ← many (do
        char ','
        pair value <* blanks)
      pure (p :: rest)
  blanks
  char '}'
  match pairs.foldlM (fun fields (p, v) => Fields.addAt p v .header fields) [] with
  | some _ => pure .table
  | none => failure

def nestingLimit : Nat := 79

/-- A value in which others nest at most so deep. -/
def nested : Nat → Reader Value
  | 0 => scalar
  | depth + 1 => scalar <|> array (nested depth) <|> braces (nested depth)

def value : Reader Value := nested nestingLimit

end Reader

/-! ## Statements -/

/-- What a document says by some point: its tables, and the way to the one being filled. -/
structure Draft where
  fields : Fields
  way : List Key

namespace Draft

def empty : Draft := ⟨[], []⟩

def add (d : Draft) (p : Path) (v : Value) : Option Draft := do
  let fields ← d.fields.changeAt .passed (fun origin fields => fields.addAt p v origin) d.way .header
  pure { d with fields }

def enter (d : Draft) (p : Path) : Option Draft := do
  let fields ← d.fields.openTable p
  pure ⟨fields, p.parents ++ [p.last]⟩

/-- Goes on to one more table under a header. -/
def enterNext (d : Draft) (p : Path) : Option Draft := do
  let fields ← d.fields.openTables p
  pure ⟨fields, p.parents ++ [p.last]⟩

end Draft

namespace Reader

def lift (d : Option Draft) : Reader Draft := StateT.lift d

def header (d : Draft) : Reader Draft :=
  (do
    chars ['[', '[']
    let p ← path
    chars [']', ']']
    lineEnd
    lift (d.enterNext p)) <|>
  (do
    char '['
    notAhead ['[']
    let p ← path
    char ']'
    lineEnd
    lift (d.enter p))

/-- One statement, or a line without any. -/
def statement (d : Draft) : Reader Draft :=
  (do
    comment
    newline <|> ending
    pure d) <|>
  (do
    newline
    pure d) <|>
  header d <|>
  (do
    let (p, v) ← pair value
    lineEnd
    lift (d.add p v))

/-- Statements up to the end of the text, at most so many. -/
def statements : Nat → Draft → Reader Draft
  | 0, d => do
    ending
    pure d
  | limit + 1, d =>
    (do
      ending
      pure d) <|>
    (do
      let d ← statement d
      blanks
      statements limit d)

/-- A whole document, with or without the mark that says how its bytes are ordered. -/
def document : Reader Fields := do
  let _ ← maybe (char (Char.ofNat 0xFEFF))
  blanks
  let d ← (fun s => statements s.length .empty s : Reader Draft)
  pure d.fields

end Reader

def parse (text : List Char) : Option Fields := (·.1) <$> Reader.document text

end PositionCache.Toml
