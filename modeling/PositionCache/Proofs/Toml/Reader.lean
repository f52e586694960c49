import Mathlib
import PositionCache.Toml.Reader

/-!
# What readers take

A reader is known by what it takes from the front of a text, and by where it fails.
-/

namespace PositionCache.Toml

theorem ne_of_accepts {accepts : Char → Bool} {c : Char} (other : Char) (inside : accepts c = true)
    (outside : accepts other = false) : c ≠ other := by
  rintro rfl
  exact absurd (inside.symm.trans outside) (by decide)

/-- The text is at its end or begins with a character outside the class. -/
def Lacks (accepts : Char → Bool) (s : List Char) : Prop := ∀ c ∈ s.head?, accepts c = false

section Lacks

variable {accepts : Char → Bool} {c : Char} {s t : List Char}

theorem lacks_nil : Lacks accepts [] := by simp [Lacks]

@[simp]
theorem lacks_cons : Lacks accepts (c :: s) ↔ accepts c = false := by simp [Lacks]

theorem Lacks.mono {fewer : Char → Bool} (h : Lacks accepts s)
    (sub : ∀ c, fewer c = true → accepts c = true) : Lacks fewer s := by
  intro c first
  have outside := h c first
  cases inside : fewer c with
  | false => rfl
  | true => exact absurd ((sub c inside).symm.trans outside) (by decide)

theorem takeWhile_append (all : ∀ c ∈ s, accepts c = true) (stop : Lacks accepts t) :
    (s ++ t).takeWhile accepts = s := by
  rw [List.takeWhile_append_of_pos all]
  cases t with
  | nil => simp
  | cons c t => simp [lacks_cons.1 stop]

theorem dropWhile_append (all : ∀ c ∈ s, accepts c = true) (stop : Lacks accepts t) :
    (s ++ t).dropWhile accepts = t := by
  rw [List.dropWhile_append_of_pos all]
  cases t with
  | nil => simp
  | cons c t => simp [lacks_cons.1 stop]

end Lacks

namespace Reader

variable {α β : Type} {s t : List Char}

/-! ## One reader after another -/

@[simp]
theorem bind_apply (r : Reader α) (f : α → Reader β) (s : List Char) :
    (r >>= f) s = (r s).bind fun (a, t) => f a t := rfl

theorem bind_of_some {r : Reader α} {a : α} (h : r s = some (a, t)) (f : α → Reader β) :
    (r >>= f) s = f a t := by
  rw [bind_apply, h, Option.bind_some]

@[simp]
theorem map_apply (f : α → β) (r : Reader α) (s : List Char) :
    (f <$> r) s = (r s).map fun (a, t) => (f a, t) := by
  cases taken : r s with
  | none => simp [Functor.map, StateT.map, taken]
  | some p => simp [Functor.map, StateT.map, taken]

@[simp]
theorem pure_apply (a : α) (s : List Char) : (pure a : Reader α) s = some (a, s) := rfl

@[simp]
theorem orElse_apply (r r' : Reader α) (s : List Char) : (r <|> r') s = (r s).or (r' s) := by
  have alternatives : (r <|> r') s = (r s <|> r' s) := rfl
  rw [alternatives, Option.orElse_eq_orElse, Option.orElse_eq_or]

theorem maybe_of_some {r : Reader α} {a : α} (h : r s = some (a, t)) :
    maybe r s = some (some a, t) := by
  simp [maybe, h]

theorem maybe_of_none {r : Reader α} (h : r s = none) : maybe r s = some (none, s) := by
  simp [maybe, h]

/-! ## Characters -/

variable {accepts : Char → Bool} {c : Char}

theorem one_cons (h : accepts c = true) (s : List Char) : one accepts (c :: s) = some (c, s) := by
  rw [one, if_pos h]

theorem one_of_lacks (h : Lacks accepts s) : one accepts s = none := by
  cases s with
  | nil => rfl
  | cons c s => simp [one, lacks_cons.1 h]

@[simp]
theorem char_cons (c : Char) (s : List Char) : char c (c :: s) = some ((), s) := by
  simp [char, one]

theorem char_of_lacks (h : Lacks (· == c) s) : char c s = none := by
  simp [char, one_of_lacks h]

theorem chars_append (cs s : List Char) : chars cs (cs ++ s) = some ((), s) := by
  induction cs with
  | nil => rfl
  | cons c cs ih => simp [chars, ih]

theorem chars_of_lacks {cs : List Char} (h : Lacks (· == c) s) : chars (c :: cs) s = none := by
  simp [chars, char_of_lacks h]

theorem span_append (all : ∀ c ∈ s, accepts c = true) (stop : Lacks accepts t) :
    span accepts (s ++ t) = some (s, t) := by
  rw [span, takeWhile_append all stop, dropWhile_append all stop]

theorem ending_of_ne_nil (h : s ≠ []) : ending s = none := by
  cases s with
  | nil => exact absurd rfl h
  | cons c s => rfl

/-! ## Rows of items -/

/-- Items that stand in a row from one place to another, where no further one stands. -/
inductive Row (item : Reader α) : List α → List Char → List Char → Prop
  | nil {s : List Char} : item s = none → Row item [] s s
  | cons {a : α} {as : List α} {s t u : List Char} :
      item s = some (a, t) → t.length < s.length → Row item as t u → Row item (a :: as) s u

theorem Row.manyUpTo {item : Reader α} {as : List α} (row : Row item as s t) {limit : Nat}
    (enough : s.length ≤ limit) : manyUpTo item limit s = some (as, t) := by
  induction row generalizing limit with
  | nil stops =>
    cases limit with
    | zero => rfl
    | succ limit => simp [Reader.manyUpTo, stops]
  | cons takes shorter _ ih =>
    cases limit with
    | zero => omega
    | succ limit =>
      have later : Reader.manyUpTo item limit _ = _ := ih (by omega)
      simp [Reader.manyUpTo, takes, later]

theorem Row.eq_of_nil {item : Reader α} (row : Row item [] s t) : s = t := by
  cases row
  rfl

theorem Row.many {item : Reader α} {as : List α} (row : Row item as s t) :
    many item s = some (as, t) := row.manyUpTo le_rfl

@[simp]
theorem blanks_apply (s : List Char) : blanks s = some ((), s.dropWhile isBlank) := rfl

theorem blanks_append (all : ∀ c ∈ s, isBlank c = true) (stop : Lacks isBlank t) :
    blanks (s ++ t) = some ((), t) := by
  rw [blanks_apply, dropWhile_append all stop]

end Reader

end PositionCache.Toml
