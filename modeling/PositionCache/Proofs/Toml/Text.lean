import PositionCache.Proofs.Toml.Reader
import PositionCache.Toml.Number

/-!
# How keys are spelled

As a bare word, between single quotes, or between double ones with escapes.
-/

namespace PositionCache.Toml

open Reader

/-! ## Spelling -/

/-- The letters behind a backslash, and the characters that they stand for. -/
def shortEscapes : List (Char × Char) :=
  [('b', '\x08'), ('t', '\t'), ('n', '\n'), ('f', '\x0c'), ('r', '\r'), ('"', '"'), ('\\', '\\')]

/-- The letters before a character's number, and how many digits the number has. -/
def numberedEscapes : List (Char × Nat) := [('u', 4), ('U', 8)]

inductive EscapeText : Char → List Char → Prop
  | short {letter c : Char} : (letter, c) ∈ shortEscapes → EscapeText c ['\\', letter]
  | numbered {letter : Char} {ds : List Char} : (letter, ds.length) ∈ numberedEscapes →
      (∀ d ∈ ds, (hexDigit? d).isSome) → (valueOf 16 ds).isValidChar →
      EscapeText (Char.ofNat (valueOf 16 ds)) ('\\' :: letter :: ds)

inductive BasicText : List Char → List Char → Prop
  | nil : BasicText [] []
  | plain {c : Char} {cs text : List Char} : isText c → c ≠ '"' → c ≠ '\\' → BasicText cs text →
      BasicText (c :: cs) (c :: text)
  | escaped {c : Char} {cs spelled text : List Char} : EscapeText c spelled → BasicText cs text →
      BasicText (c :: cs) (spelled ++ text)

inductive KeyText : Key → List Char → Prop
  | bare {k : Key} : k ≠ [] → (∀ c ∈ k, isBare c) → KeyText k k
  | literal {k : Key} : (∀ c ∈ k, isText c ∧ c ≠ '\'') → KeyText k ('\'' :: (k ++ ['\'']))
  | basic {k text : List Char} : BasicText k text → KeyText k ('"' :: (text ++ ['"']))

/-! ## Escapes -/

theorem hexNumber_append {ds : List Char} (all : ∀ d ∈ ds, (hexDigit? d).isSome) (before : Nat)
    (rest : List Char) : hexNumber before ds.length (ds ++ rest) =
      some (ds.foldl (fun n d => 16 * n + (hexDigit? d).getD 0) before, rest) := by
  induction ds generalizing before with
  | nil => rfl
  | cons d ds ih =>
    obtain ⟨first, others⟩ := List.forall_mem_cons.1 all
    obtain ⟨n, value⟩ := Option.isSome_iff_exists.1 first
    have taken : hexDigit (d :: (ds ++ rest)) = some (n, ds ++ rest) := by
      simp [hexDigit, one, value]
    rw [List.length_cons, List.cons_append, hexNumber, bind_of_some taken, ih others, List.foldl_cons,
      value, Option.getD_some]

theorem EscapeText.escape {c : Char} {text : List Char} (h : EscapeText c text)
    (rest : List Char) : escape (text ++ rest) = some (c, rest) := by
  cases h with
  | short known =>
    simp only [shortEscapes, List.mem_cons, Prod.mk.injEq, List.not_mem_nil, or_false] at known
    rcases known with known | known | known | known | known | known | known
    all_goals
      obtain ⟨rfl, rfl⟩ := known
      rfl
  | @numbered letter ds known all valid =>
    have taken : (do codePoint (← hexNumber 0 ds.length) : Reader Char) (ds ++ rest) =
        some (Char.ofNat (valueOf 16 ds), rest) := by
      have point : codePoint (valueOf 16 ds) = pure (Char.ofNat (valueOf 16 ds)) := if_pos valid
      rw [bind_of_some (hexNumber_append all 0 rest)]
      exact congrFun point rest
    simp only [numberedEscapes, List.mem_cons, Prod.mk.injEq, List.not_mem_nil, or_false] at known
    rcases known with ⟨rfl, length⟩ | ⟨rfl, length⟩
    · rw [length] at taken
      exact taken
    · rw [length] at taken
      exact taken

theorem EscapeText.cons {c : Char} {text : List Char} (h : EscapeText c text) :
    ∃ tail, text = '\\' :: tail := by
  cases h with
  | short => exact ⟨_, rfl⟩
  | numbered => exact ⟨_, rfl⟩

/-! ## Text between quotes -/

theorem BasicText.row {cs text : List Char} (h : BasicText cs text) (rest : List Char) :
    Row (basicChar <|> escape) cs (text ++ '"' :: rest) ('"' :: rest) := by
  induction h with
  | nil => exact .nil rfl
  | @plain c cs text printed noQuote noEscape _ ih =>
    refine .cons ?_ (by simp) ih
    have taken : basicChar (c :: (text ++ '"' :: rest)) = some (c, text ++ '"' :: rest) :=
      one_cons (by simp [printed, noQuote, noEscape]) _
    simp [taken]
  | @escaped c cs spelled text known _ ih =>
    obtain ⟨tail, same⟩ := known.cons
    refine .cons ?_ (by simp [same]) ih
    have skipped : basicChar (spelled ++ (text ++ '"' :: rest)) = none := by
      rw [same]
      exact one_of_lacks (lacks_cons.2 rfl)
    simp [skipped, known.escape]

theorem BasicText.basicText {cs text : List Char} (h : BasicText cs text) (rest : List Char) :
    basicText ('"' :: (text ++ '"' :: rest)) = some (cs, rest) := by
  have content := (h.row rest).many
  simp [Reader.basicText, content]

theorem literalText_append {k : Key} (all : ∀ c ∈ k, isText c ∧ c ≠ '\'') (rest : List Char) :
    literalText ('\'' :: (k ++ '\'' :: rest)) = some (k, rest) := by
  have row : Row literalChar k (k ++ '\'' :: rest) ('\'' :: rest) := by
    induction k with
    | nil => exact .nil rfl
    | cons c k ih =>
      obtain ⟨⟨printed, noQuote⟩, others⟩ := List.forall_mem_cons.1 all
      exact .cons (one_cons (by simp [printed, noQuote]) _) (by simp) (ih others)
  simp [literalText, row.many]

/-! ## Keys -/

theorem isBlank_of_bare {c : Char} (bare : isBare c = true) : isBlank c = false := by
  simp [isBlank, ne_of_accepts ' ' bare rfl, ne_of_accepts '\t' bare rfl]

theorem KeyText.lacks {accepts : Char → Bool} {k : Key} {text : List Char} (h : KeyText k text)
    (noBare : ∀ c, isBare c = true → accepts c = false)
    (noQuote : accepts '\'' = false ∧ accepts '"' = false) (rest : List Char) :
    Lacks accepts (text ++ rest) := by
  cases h with
  | bare nonempty all =>
    cases k with
    | nil => exact absurd rfl nonempty
    | cons c k => exact lacks_cons.2 (noBare c (all c List.mem_cons_self))
  | literal => exact lacks_cons.2 noQuote.1
  | basic => exact lacks_cons.2 noQuote.2

theorem KeyText.lacks_char {k : Key} {text : List Char} (h : KeyText k text) (other : Char)
    (noBare : isBare other = false) (noQuote : other ≠ '\'' ∧ other ≠ '"') (rest : List Char) :
    Lacks (· == other) (text ++ rest) :=
  h.lacks (fun _ bare => beq_eq_false_iff_ne.2 (ne_of_accepts other bare noBare))
    ⟨beq_eq_false_iff_ne.2 noQuote.1.symm, beq_eq_false_iff_ne.2 noQuote.2.symm⟩ rest

theorem bareKey_append {k : Key} (nonempty : k ≠ []) (all : ∀ c ∈ k, isBare c) {rest : List Char}
    (stop : Lacks isBare rest) : bareKey (k ++ rest) = some (k, rest) := by
  cases k with
  | nil => exact absurd rfl nonempty
  | cons c k =>
    obtain ⟨first, others⟩ := List.forall_mem_cons.1 all
    simp [bareKey, one_cons first, span_append others stop]

theorem KeyText.content {k : Key} {text rest : List Char} (h : KeyText k text)
    (stop : Lacks isBare rest) :
    (basicText <|> literalText <|> bareKey) (text ++ rest) = some (k, rest) := by
  cases h with
  | bare nonempty all =>
    have noQuote (quote : Char) (other : isBare quote = false) : char quote (k ++ rest) = none := by
      cases k with
      | nil => exact absurd rfl nonempty
      | cons c k =>
        have first := ne_of_accepts quote (all c List.mem_cons_self) other
        exact char_of_lacks (lacks_cons.2 (beq_eq_false_iff_ne.2 first))
    simp [basicText, literalText, noQuote '"' rfl, noQuote '\'' rfl, bareKey_append nonempty all stop]
  | literal all =>
    have noQuote : basicText ('\'' :: (k ++ '\'' :: rest)) = none := by
      simp [basicText, char_of_lacks (c := '"') (s := '\'' :: (k ++ '\'' :: rest)) (by simp)]
    simp [noQuote, literalText_append all]
  | basic spelled => simp [spelled.basicText]

theorem KeyText.key {k : Key} {before text after rest : List Char} (h : KeyText k text)
    (blankBefore : ∀ c ∈ before, isBlank c) (blankAfter : ∀ c ∈ after, isBlank c) :
    key (before ++ (text ++ (after ++ '=' :: rest))) = some (k, '=' :: rest) := by
  have stop : Lacks isBare (after ++ '=' :: rest) := by
    cases after with
    | nil => exact lacks_cons.2 rfl
    | cons c after =>
      refine lacks_cons.2 (Bool.eq_false_iff.2 fun bare => ?_)
      exact absurd (blankAfter c List.mem_cons_self) (by simp [isBlank_of_bare bare])
  have start := blanks_append blankBefore
    (h.lacks (fun _ => isBlank_of_bare) ⟨rfl, rfl⟩ (after ++ '=' :: rest))
  have finish := blanks_append blankAfter (lacks_cons.2 rfl : Lacks isBlank ('=' :: rest))
  rw [Reader.key, bind_of_some start, bind_of_some (h.content stop), bind_of_some finish, pure_apply]

theorem KeyText.path {k : Key} {before text after rest : List Char} (h : KeyText k text)
    (blankBefore : ∀ c ∈ before, isBlank c) (blankAfter : ∀ c ∈ after, isBlank c) :
    path (before ++ (text ++ (after ++ '=' :: rest))) = some (⟨[], k⟩, '=' :: rest) := by
  have noPoint : (do char '.'; Reader.key : Reader Key) ('=' :: rest) = none := by
    simp [char_of_lacks (c := '.') (s := '=' :: rest) (by simp)]
  have alone : many (do char '.'; Reader.key) ('=' :: rest) = some ([], '=' :: rest) :=
    (Row.nil noPoint).many
  rw [Reader.path, bind_of_some (h.key blankBefore blankAfter), bind_of_some alone]
  rfl

end PositionCache.Toml
