/-!
# Reading characters

A reader takes what it understands from the front of a text and leaves the rest, or fails. Where
one alternative fails the next starts from the same place. The text format's own character classes
and its rules for blanks, line ends and comments are here too.
-/

namespace PositionCache.Toml

abbrev Reader := StateT (List Char) Option

namespace Reader

/-! ## Single characters -/

def one (accepts : Char → Bool) : Reader Char
  | [] => none
  | c :: rest => if accepts c then some (c, rest) else none

def char (c : Char) : Reader Unit := do
  let _ ← one (· == c)

def chars : List Char → Reader Unit
  | [] => pure ()
  | c :: rest => do
    char c
    chars rest

/-- All characters of a class up to the first that is not. -/
def span (accepts : Char → Bool) : Reader (List Char) := fun s =>
  some (s.takeWhile accepts, s.dropWhile accepts)

def ending : Reader Unit
  | [] => some ((), [])
  | _ :: _ => none

/-- Succeeds where the text does not start with these characters. -/
def notAhead (cs : List Char) : Reader Unit := fun s => if cs.isPrefixOf s then none else some ((), s)

/-! ## Repetition -/

def manyUpTo {α : Type} (item : Reader α) : Nat → Reader (List α)
  | 0 => pure []
  | limit + 1 =>
    (do
      let a ← item
      let as ← manyUpTo item limit
      pure (a :: as)) <|> pure []

/-- Items in a row, as many as there are. An item takes at least one character. -/
def many {α : Type} (item : Reader α) : Reader (List α) := fun s => manyUpTo item s.length s

def maybe {α : Type} (item : Reader α) : Reader (Option α) := some <$> item <|> pure none

/-! ## Blanks, line ends, comments -/

def isBlank (c : Char) : Bool := c == ' ' || c == '\t'

/-- Printable characters, tabs, and everything beyond ASCII. -/
def isText (c : Char) : Bool := c == '\t' || (0x20 ≤ c.val && c.val != 0x7F)

def blanks : Reader Unit := do
  let _ ← span isBlank

def newline : Reader Unit := chars ['\n'] <|> chars ['\r', '\n']

def comment : Reader Unit := do
  char '#'
  let _ ← span isText

/-- What may follow on the line of a complete statement. -/
def lineEnd : Reader Unit := do
  blanks
  let _ ← maybe comment
  newline <|> ending

/-- Blanks, and whole lines without contents. -/
def gap : Reader Unit := do
  blanks
  let _ ← many (do
    newline <|> (do
      comment
      newline)
    blanks)

end Reader

end PositionCache.Toml
