import PositionCache.Word

/-!
# Command lines

A command line is a sequence of options, each given at most once and in any order. An option has a
long name after two dashes, and perhaps a letter after one. A switch takes no value; any other
option takes the rest of its argument, after an equals sign or right behind the letter, or else the
next argument, which must not look like an option itself. Letters of switches may be run together.
Values are checked as they are met, and the first mistake or call for help from the left decides.
-/

namespace PositionCache.CommandLine

/-! ## Options -/

inductive Takes where
  | nothing
  /-- Nothing, and ends the reading of the command line with a call for help. -/
  | help
  /-- A word in decimal digits. -/
  | number
  | path
deriving DecidableEq, Inhabited

structure Choice where
  long : String
  letter : Option Char
  takes : Takes
  /-- What the help says of the option. -/
  about : String
  /-- The value when the option is not given. -/
  usual : Option Nat

/-- The call for help, which every command line may give. -/
def helpChoice : Choice := ⟨"help", some 'h', .help, "Print help", none⟩

def Choice.takesValue (c : Choice) : Bool := c.takes == .number || c.takes == .path

/-- The word that decimal digits stand for, with or without a plus sign in front. -/
def word? (text : String) : Option Nat :=
  let digits := match text.toList with
    | '+' :: rest => rest
    | cs => cs
  if digits ≠ [] ∧ digits.all (fun c => '0' ≤ c && c ≤ '9') then
    let n := Nat.ofDigitChars 10 digits 0
    if n < wordLimit then some n else none
  else none

def Choice.admits (c : Choice) (value : String) : Bool :=
  match c.takes with
  | .number => (word? value).isSome
  | .path => value != ""
  | .nothing | .help => value == ""

/-! ## Reading -/

inductive UsageError where
  | unexpected (argument : String)
  | missingValue (option : String)
  | unneededValue (option : String)
  | invalidValue (option value : String)
  | repeated (option : String)
deriving DecidableEq, Inhabited

namespace UsageError

def message : UsageError → String
  | .unexpected argument => s!"unexpected argument '{argument}'"
  | .missingValue option => s!"a value is required for '--{option}'"
  | .unneededValue option => s!"'--{option}' takes no value"
  | .invalidValue option value => s!"invalid value '{value}' for '--{option}'"
  | .repeated option => s!"'--{option}' cannot be used multiple times"

end UsageError

/-- Why a command line is not carried out. -/
inductive Stop where
  | help
  | usage (error : UsageError)
deriving DecidableEq, Inhabited

/-- The options given and their values; a switch has the empty one. -/
abbrev Given := List (String × String)

structure Progress where
  given : Given
  /-- The option that takes the next argument as its value. -/
  waiting : Option Choice
  closed : Bool

namespace Progress

def start : Progress := ⟨[], none, false⟩

def accept (p : Progress) (c : Choice) (value : String) : Except Stop Progress :=
  if c.takes = .help then .error .help
  else if (p.given.lookup c.long).isSome then .error (.usage (.repeated c.long))
  else if ¬ c.admits value then .error (.usage (.invalidValue c.long value))
  else .ok ⟨p.given ++ [(c.long, value)], none, p.closed⟩

/-- Letters after one dash: switches, up to an option that takes what follows. -/
def letters (choices : List Choice) (argument : String) (p : Progress) :
    List Char → Except Stop Progress
  | [] => .ok p
  | c :: rest =>
    match choices.find? (·.letter == some c) with
    | none => .error (.usage (.unexpected argument))
    | some choice =>
      if choice.takesValue then
        match rest with
        | [] => .ok { p with waiting := some choice }
        | '=' :: value => p.accept choice (.ofList value)
        | value => p.accept choice (.ofList value)
      else do letters choices argument (← p.accept choice "") rest

/-- A name after two dashes, perhaps with a value after an equals sign. -/
def long (choices : List Choice) (argument : String) (p : Progress) (body : List Char) :
    Except Stop Progress :=
  let name := String.ofList (body.takeWhile (· != '='))
  match choices.find? (·.long == name), body.dropWhile (· != '=') with
  | none, _ => .error (.usage (.unexpected argument))
  | some choice, [] =>
    if choice.takesValue then .ok { p with waiting := some choice } else p.accept choice ""
  | some choice, _ :: value =>
    if choice.takesValue then p.accept choice (.ofList value)
    else .error (.usage (.unneededValue choice.long))

def looksLikeOption (argument : String) : Bool :=
  match argument.toList with
  | '-' :: _ :: _ => true
  | _ => false

def step (choices : List Choice) (p : Progress) (argument : String) : Except Stop Progress :=
  if p.closed then .error (.usage (.unexpected argument))
  else
    match p.waiting with
    | some choice =>
      if looksLikeOption argument then .error (.usage (.missingValue choice.long))
      else p.accept choice argument
    | none =>
      match argument.toList with
      | ['-', '-'] => .ok { p with closed := true }
      | '-' :: '-' :: body => p.long choices argument body
      | '-' :: c :: rest => p.letters choices argument (c :: rest)
      | _ => .error (.usage (.unexpected argument))

end Progress

def read (choices : List Choice) (arguments : List String) : Except Stop Given := do
  let p ← arguments.foldlM (Progress.step (choices ++ [helpChoice])) .start
  match p.waiting with
  | some choice => .error (.usage (.missingValue choice.long))
  | none => pure p.given

namespace Given

def has (g : Given) (long : String) : Bool := (g.lookup long).isSome

def number? (g : Given) (long : String) : Option Nat := (g.lookup long).bind word?

end Given

/-! ## Help -/

def Choice.shape (c : Choice) : String :=
  let letter := match c.letter with
    | some l => String.ofList ['-', l, ',', ' ']
    | none => "    "
  let value := if c.takesValue then " <" ++ (c.long.map upper) ++ ">" else ""
  letter ++ "--" ++ c.long ++ value
where
  upper (c : Char) : Char := if c == '-' then '_' else c.toUpper

def helpLines (program about : String) (choices : List Choice) : List String :=
  let choices := choices ++ [helpChoice]
  let width := (choices.map (·.shape.length)).foldl max 0
  [about, "", s!"Usage: {program} [OPTIONS]", "", "Options:"] ++ choices.map fun c =>
    let blanks := String.ofList (List.replicate (width + 2 - c.shape.length) ' ')
    let usual := match c.usual with
      | some n => s!" [default: {n}]"
      | none => ""
    "  " ++ c.shape ++ blanks ++ c.about ++ usual

end PositionCache.CommandLine
