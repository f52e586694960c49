import PositionCache.Settings.Text

/-!
# Resolving settings

Settings for a table come from a file, if one is named, and from the command line, which has the
last word. A file that cannot be read or understood is an error whatever the command line says; a
value that no table can have is one only if nothing overrides it.
-/

namespace PositionCache

/-- A file that settings are read from. -/
structure SettingsFile where
  path : String
  /-- The file's bytes, if it can be read. -/
  contents : Option ByteArray

/-- Why a file gives no settings. -/
inductive LoadError where
  /-- There is no such file, or it is no text. -/
  | unreadable (path : String)
  /-- The text is no document, or a value is not of its key's kind. -/
  | malformed (path : String)
deriving DecidableEq, Inhabited

namespace LoadError

def message : LoadError → String
  | .unreadable path => s!"failed to read config: {path}"
  | .malformed path => s!"invalid config: {path}"

end LoadError

/-- Why there are no settings for a table. -/
inductive SettingsError where
  | load (error : LoadError)
  | refused (refusal : Refusal)
deriving DecidableEq, Inhabited

namespace SettingsError

def message : SettingsError → String
  | .load error => error.message
  | .refused refusal => refusal.message

end SettingsError

namespace SettingsFile

/-- The text of the file. -/
def text? (file : SettingsFile) : Option (List Char) :=
  (·.toList) <$> file.contents.bind String.fromUTF8?

/-- What the file names. -/
def layer [Toml.Codec] (file : SettingsFile) : Except LoadError Overrides :=
  match file.text? with
  | none => .error (.unreadable file.path)
  | some text =>
    match Overrides.parse? text with
    | none => .error (.malformed file.path)
    | some o => .ok o

end SettingsFile

namespace Settings

/-- The standard settings with what the file names in their place. -/
def load [Toml.Codec] (processors : Nat) (file : SettingsFile) : Except LoadError Settings := do
  pure ((← file.layer).over (standard processors))

/-- The settings from a file, if there is one, and a last layer; checked at the end. -/
def resolve [Toml.Codec] (processors : Nat) (file? : Option SettingsFile) (last : Overrides) :
    Except SettingsError Settings := do
  let base ← match file? with
    | none => .ok (standard processors)
    | some file => (load processors file).mapError .load
  let settings := last.over base
  settings.validate.mapError .refused
  pure settings

end Settings

end PositionCache
