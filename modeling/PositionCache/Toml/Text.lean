import PositionCache.Toml.Reader

/-!
# Quoted text

Text stands between quotes, on one line or, between three of them, over several. Between double
quotes a backslash begins an escape; between single quotes every character stands for itself.
-/

namespace PositionCache.Toml

namespace Reader

/-! ## Escapes -/

def hexDigit? (c : Char) : Option Nat :=
  if '0' ≤ c ∧ c ≤ '9' then some (c.toNat - '0'.toNat)
  else if 'a' ≤ c ∧ c ≤ 'f' then some (c.toNat - 'a'.toNat + 10)
  else if 'A' ≤ c ∧ c ≤ 'F' then some (c.toNat - 'A'.toNat + 10)
  else none

def hexDigit : Reader Nat := do
  match hexDigit? (← one fun _ => true) with
  | some n => pure n
  | none => failure

/-- A number of so many hexadecimal digits, after what was read before. -/
def hexNumber (before : Nat) : Nat → Reader Nat
  | 0 => pure before
  | digits + 1 => do
    let d ← hexDigit
    hexNumber (16 * before + d) digits

/-- The character of a number, unless the number is none: surrogates are not characters. -/
def codePoint (n : Nat) : Reader Char :=
  if n.isValidChar then pure (Char.ofNat n) else failure

/-- A backslash and what it makes of the characters after it. -/
def escape : Reader Char := do
  char '\\'
  match ← one fun _ => true with
  | 'b' => pure '\x08'
  | 't' => pure '\t'
  | 'n' => pure '\n'
  | 'f' => pure '\x0c'
  | 'r' => pure '\r'
  | '"' => pure '"'
  | '\\' => pure '\\'
  | 'u' => do codePoint (← hexNumber 0 4)
  | 'U' => do codePoint (← hexNumber 0 8)
  | _ => failure

/-! ## One line -/

def basicChar : Reader Char := one fun c => isText c && c != '"' && c != '\\'

def literalChar : Reader Char := one fun c => isText c && c != '\''

def basicText : Reader (List Char) := do
  char '"'
  let content ← many (basicChar <|> escape)
  char '"'
  pure content

def literalText : Reader (List Char) := do
  char '\''
  let content ← many literalChar
  char '\''
  pure content

/-! ## Several lines -/

/-- A line end within text, whatever its spelling. -/
def textNewline : Reader Char := do
  newline
  pure '\n'

/-- A backslash at a line's end leaves out that end and all blanks and line ends after it. -/
def joinedLine : Reader Unit := do
  char '\\'
  blanks
  newline
  let _ ← many (newline <|> (do
    let _ ← one isBlank))

/-- A quote that is not the first of the three that close the text. -/
def innerQuote (quote : Char) : Reader Char := do
  notAhead [quote, quote, quote]
  char quote
  pure quote

/-- Three quotes, after up to two more that belong to the text. -/
def closing (quote : Char) : Reader (List Char) := do
  chars [quote, quote, quote]
  let extra ← many (char quote)
  if extra.length ≤ 2 then pure (extra.map fun _ => quote) else failure

/-- Text between three quotes on each side. A line end right after the first three is left out. -/
def linesText (quote : Char) (item : Reader (List Char)) : Reader (List Char) := do
  chars [quote, quote, quote]
  let _ ← maybe newline
  let parts ← many (item <|> ([·]) <$> textNewline <|> ([·]) <$> innerQuote quote)
  let rest ← closing quote
  pure (parts.flatten ++ rest)

def basicLines : Reader (List Char) :=
  linesText '"' (([·]) <$> basicChar <|> (fun _ => []) <$> joinedLine <|> ([·]) <$> escape)

def literalLines : Reader (List Char) := linesText '\'' (([·]) <$> literalChar)

def text : Reader (List Char) := basicLines <|> literalLines <|> basicText <|> literalText

end Reader

/-! ## Keys -/

/-- The name of a setting, as it reads without its quotes. -/
abbrev Key := List Char

structure Path where
  parents : List Key
  last : Key
deriving DecidableEq, Inhabited

namespace Path

/-- A path has fewer keys than this. -/
def lengthLimit : Nat := 80

def ofKeys (first : Key) : List Key → Path
  | [] => ⟨[], first⟩
  | second :: rest =>
    let path := ofKeys second rest
    ⟨first :: path.parents, path.last⟩

end Path

namespace Reader

/-- Letters, digits, dashes and underscores of ASCII. -/
def isBare (c : Char) : Bool := c.isAlphanum || c == '-' || c == '_'

def bareKey : Reader Key := do
  let first ← one isBare
  let rest ← span isBare
  pure (first :: rest)

def key : Reader Key := do
  blanks
  let k ← basicText <|> literalText <|> bareKey
  blanks
  pure k

def path : Reader Path := do
  let first ← key
  let rest ← many (do
    char '.'
    key)
  if rest.length + 1 < Path.lengthLimit then pure (Path.ofKeys first rest) else failure

end Reader

end PositionCache.Toml
