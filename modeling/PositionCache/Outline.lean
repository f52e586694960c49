/-!
# Outlines

A value shown for inspection is a tree: a word, a name over one value, or a name over labelled
values. The same tree is written on one line or over many, each level four blanks further in.
-/

namespace PositionCache

inductive Outline where
  | word (text : String)
  | wrapped (name : String) (value : Outline)
  | labelled (name : String) (fields : List (String × Outline))

namespace Outline

def inline : Outline → String
  | .word text => text
  | .wrapped name value => name ++ "(" ++ value.inline ++ ")"
  | .labelled name fields => name ++ " \x7b " ++ inlineFields fields ++ " \x7d"
where
  inlineFields : List (String × Outline) → String
    | [] => ""
    | [(label, value)] => label ++ ": " ++ value.inline
    | (label, value) :: rest => label ++ ": " ++ value.inline ++ ", " ++ inlineFields rest

def margin (level : Nat) : String := String.ofList (List.replicate (4 * level) ' ')

/-- The tree over many lines, the first of them without a margin. -/
def spread (level : Nat) : Outline → String
  | .word text => text
  | .wrapped name value =>
    name ++ "(\n" ++ margin (level + 1) ++ value.spread (level + 1) ++ ",\n" ++ margin level ++ ")"
  | .labelled name fields =>
    name ++ " \x7b\n" ++ spreadFields (level + 1) fields ++ margin level ++ "\x7d"
where
  spreadFields (level : Nat) : List (String × Outline) → String
    | [] => ""
    | (label, value) :: rest =>
      margin level ++ label ++ ": " ++ value.spread level ++ ",\n" ++ spreadFields level rest

end Outline

end PositionCache
