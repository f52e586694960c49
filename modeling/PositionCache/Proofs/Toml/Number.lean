import PositionCache.Proofs.Toml.Reader
import PositionCache.Toml.Number

/-!
# How integers are spelled

What is spelled so, and ends where values end, is read as that integer: it is no date, no time and
has no fraction.
-/

namespace PositionCache.Toml

/-! ## Where values end -/

/-- Blanks, comments and line ends. -/
def valueEnds : List Char := [' ', '\t', '#', '\n', '\r']

/-- The text is at its end or goes on with something that ends a value. -/
def Closed (s : List Char) : Prop := ∀ c ∈ s.head?, c ∈ valueEnds

theorem Closed.lacks {accepts : Char → Bool} {s : List Char} (h : Closed s)
    (outside : ∀ c ∈ valueEnds, accepts c = false) : Lacks accepts s :=
  fun c first => outside c (h c first)

/-! ## Spelling -/

open Reader

/-- Digits of a class, and their text. -/
inductive DigitText (accepts : Char → Bool) : List Char → List Char → Prop
  | last {c : Char} : accepts c = true → DigitText accepts [c] [c]
  | next {c : Char} {ds text : List Char} :
      accepts c = true → DigitText accepts ds text → DigitText accepts (c :: ds) (c :: text)
  | apart {c : Char} {ds text : List Char} :
      accepts c = true → DigitText accepts ds text → DigitText accepts (c :: ds) (c :: '_' :: text)

inductive SignText : Bool → List Char → Prop
  | minus : SignText true ['-']
  | plus : SignText false ['+']
  | unsigned : SignText false []

/-- The mark of a base, and the digits that the base has. -/
inductive BaseMark : Char → Nat → (Char → Bool) → Prop
  | hexadecimal : BaseMark 'x' 16 fun c => (hexDigit? c).isSome
  | octal : BaseMark 'o' 8 fun c => '0' ≤ c && c ≤ '7'
  | binary : BaseMark 'b' 2 fun c => c == '0' || c == '1'

/-- A number in base 10, its sign apart. No zero stands before other digits. -/
structure WholeText (negative : Bool) (sign ds text : List Char) : Prop where
  signed : SignText negative sign
  digits : DigitText isDigit ds text
  lead : ds.head? = some '0' → ds = ['0']

inductive IntegerText : Int → List Char → Prop
  | decimal {negative : Bool} {sign ds text : List Char} : WholeText negative sign ds text →
      IntegerText (if negative then -(valueOf 10 ds : Int) else valueOf 10 ds) (sign ++ text)
  | marked {mark : Char} {base : Nat} {accepts : Char → Bool} {ds text : List Char} :
      BaseMark mark base accepts → DigitText accepts ds text →
      IntegerText (valueOf base ds) ('0' :: mark :: text)

/-! ## Digits -/

section Digits

variable {accepts : Char → Bool} {ds text rest : List Char}

/-- What may stand behind digits: neither one more nor an underscore. -/
structure Apart (accepts : Char → Bool) (rest : List Char) : Prop where
  digit : Lacks accepts rest
  mark : Lacks (· == '_') rest

theorem DigitText.row (h : DigitText accepts ds text) (mark : accepts '_' = false)
    (stop : Apart accepts rest) :
    ∃ c more tail, ds = c :: more ∧ text = c :: tail ∧ accepts c = true ∧
      Row (one accepts <|> (do char '_'; one accepts)) more (tail ++ rest) rest := by
  induction h with
  | @last c first =>
    refine ⟨c, [], [], rfl, rfl, first, .nil ?_⟩
    simp [one_of_lacks stop.digit, char_of_lacks stop.mark]
  | @next c ds text first _ ih =>
    obtain ⟨d, more, tail, rfl, rfl, second, row⟩ := ih
    refine ⟨c, d :: more, d :: tail, rfl, rfl, first, .cons ?_ ?_ row⟩
    · simp [one_cons second]
    · simp
  | @apart c ds text first _ ih =>
    obtain ⟨d, more, tail, rfl, rfl, second, row⟩ := ih
    refine ⟨c, d :: more, '_' :: d :: tail, rfl, rfl, first, .cons ?_ ?_ row⟩
    · have skipped : one accepts ('_' :: d :: (tail ++ rest)) = none :=
        one_of_lacks (lacks_cons.2 mark)
      simp [skipped, one_cons second]
    · simp

theorem DigitText.digits (h : DigitText accepts ds text) (mark : accepts '_' = false)
    (stop : Apart accepts rest) : digits accepts (text ++ rest) = some (ds, rest) := by
  obtain ⟨c, more, tail, rfl, rfl, first, row⟩ := h.row mark stop
  have others : moreDigits accepts (tail ++ rest) = some (more, rest) := row.many
  simp [Reader.digits, one_cons first, others]

theorem DigitText.wholeDigits (h : DigitText isDigit ds text)
    (lead : ds.head? = some '0' → ds = ['0']) (stop : Apart isDigit rest) :
    wholeDigits (text ++ rest) = some (ds, rest) := by
  obtain ⟨c, more, tail, rfl, rfl, first, row⟩ := h.row (by decide) stop
  by_cases zero : c = '0'
  · subst zero
    obtain ⟨-, rfl⟩ := List.cons.inj (lead rfl)
    obtain rfl : tail = [] := List.append_left_eq_self.1 row.eq_of_nil
    have skipped : one (fun c => isDigit c && c != '0') ('0' :: rest) = none :=
      one_of_lacks (lacks_cons.2 (by decide))
    simp [Reader.wholeDigits, skipped, one_cons first]
  · have taken : one (fun c => isDigit c && c != '0') (c :: (tail ++ rest)) =
        some (c, tail ++ rest) := one_cons (by simp [first, zero]) _
    have others : moreDigits isDigit (tail ++ rest) = some (more, rest) := row.many
    simp [Reader.wholeDigits, taken, others]

/-- Digits begin with a run of digits, and what follows the run begins with an underscore or is what
stands behind the digits. -/
theorem DigitText.run (h : DigitText isDigit ds text) (stop : Lacks isDigit rest) :
    ∃ run t, text ++ rest = run ++ t ∧ run ≠ [] ∧ (∀ c ∈ run, isDigit c = true) ∧ Lacks isDigit t ∧
      (t.head? = some '_' ∨ t = rest) := by
  induction h with
  | @last c first => exact ⟨[c], rest, rfl, by simp, by simp [first], stop, .inr rfl⟩
  | @next c ds text first _ ih =>
    obtain ⟨run, t, same, -, all, outside, after⟩ := ih
    exact ⟨c :: run, t, by simp [same], by simp, List.forall_mem_cons.2 ⟨first, all⟩, outside, after⟩
  | @apart c ds text first _ ih =>
    exact ⟨[c], '_' :: (text ++ rest), rfl, by simp, by simp [first], by simp; decide, .inl rfl⟩

theorem DigitText.cons (h : DigitText accepts ds text) :
    ∃ c tail, text = c :: tail ∧ ds.head? = some c ∧ accepts c = true := by
  cases h with
  | last first => exact ⟨_, _, rfl, rfl, first⟩
  | next first _ => exact ⟨_, _, rfl, rfl, first⟩
  | apart first _ => exact ⟨_, _, rfl, rfl, first⟩

end Digits

/-! ## No date and no time -/

theorem fixedNumber_spec {before count n : Nat} {s t : List Char}
    (taken : fixedNumber before count s = some (n, t)) :
    ∃ ds, s = ds ++ t ∧ ds.length = count ∧ ∀ c ∈ ds, isDigit c = true := by
  induction count generalizing before s with
  | zero =>
    cases taken
    exact ⟨[], rfl, rfl, by simp⟩
  | succ count ih =>
    cases s with
    | nil => simp [fixedNumber, one] at taken
    | cons c s =>
      by_cases digit : isDigit c = true
      · simp only [fixedNumber, bind_apply, one_cons digit, Option.bind_some] at taken
        obtain ⟨ds, rfl, length, all⟩ := ih taken
        exact ⟨c :: ds, rfl, by simp [length], List.forall_mem_cons.2 ⟨digit, all⟩⟩
      · have skipped : one isDigit (c :: s) = none := one_of_lacks (lacks_cons.2 (by simpa using digit))
        simp [fixedNumber, skipped] at taken

theorem fixedNumber_of_lacks {before count : Nat} {s : List Char} (h : Lacks isDigit s) :
    fixedNumber before (count + 1) s = none := by
  simp [fixedNumber, one_of_lacks h]

/-- A text that begins with a run of digits, behind which there is no dash and no colon. -/
def Timeless (s : List Char) : Prop :=
  ∃ run t, s = run ++ t ∧ (∀ c ∈ run, isDigit c = true) ∧ Lacks isDigit t ∧
    Lacks (fun c => c == '-' || c == ':') t

theorem Timeless.lacks (mark : Char) {ds u : List Char} (h : Timeless (ds ++ u))
    (digits : ∀ c ∈ ds, isDigit c = true) (known : (mark == '-' || mark == ':') = true) :
    Lacks (· == mark) u := by
  obtain ⟨run, t, same, all, stop, outside⟩ := h
  have plain : isDigit mark = false := by
    rcases Bool.or_eq_true_iff.1 known with dash | colon
    · rw [beq_iff_eq.1 dash]
      decide
    · rw [beq_iff_eq.1 colon]
      decide
  -- Digits that are followed by the mark are the whole run, and the mark is not behind the run.
  cases u with
  | nil => exact lacks_nil
  | cons c u =>
    rw [lacks_cons, beq_eq_false_iff_ne]
    rintro rfl
    have behind := congrArg (List.dropWhile isDigit) same
    rw [dropWhile_append digits (lacks_cons.2 plain), dropWhile_append all stop] at behind
    rw [← behind, lacks_cons, known] at outside
    exact absurd outside (by decide)

theorem Timeless.date {s : List Char} (h : Timeless s) : date s = none := by
  unfold Reader.date
  rw [bind_apply]
  cases taken : fixedNumber 0 4 s with
  | none => rfl
  | some read =>
    obtain ⟨ds, rfl, -, digits⟩ := fixedNumber_spec taken
    simp [char_of_lacks (h.lacks '-' digits rfl)]

theorem Timeless.clock {s : List Char} (h : Timeless s) : clock s = none := by
  unfold Reader.clock twoDigits
  simp only [bind_apply]
  cases taken : fixedNumber 0 2 s with
  | none => rfl
  | some read =>
    obtain ⟨ds, rfl, -, digits⟩ := fixedNumber_spec taken
    simp only [Option.bind_some]
    split_ifs
    · simp [char_of_lacks (h.lacks ':' digits rfl)]
    · rfl

theorem Timeless.moment {s : List Char} (h : Timeless s) : moment s = none := by
  simp [Reader.moment, h.date, h.clock]

theorem moment_of_lacks {s : List Char} (h : Lacks isDigit s) : moment s = none := by
  have noDate : date s = none := by simp [Reader.date, fixedNumber_of_lacks h]
  have noClock : clock s = none := by simp [Reader.clock, twoDigits, fixedNumber_of_lacks h]
  simp [Reader.moment, noDate, noClock]

/-! ## What stands behind the digits of an integer -/

/-- Characters that make more than an integer of the digits before them. -/
def goesOn (c : Char) : Bool := isDigit c || c ∈ ['_', '.', 'e', 'E', '-', ':']

theorem isDigit_goesOn {c : Char} (h : isDigit c = true) : goesOn c = true := by simp [goesOn, h]

theorem Lacks.of_goesOn {accepts : Char → Bool} {rest : List Char} (stop : Lacks goesOn rest)
    (sub : ∀ c, accepts c = true → c ∈ ['_', '.', 'e', 'E', '-', ':']) : Lacks accepts rest :=
  stop.mono fun c inside => by
    rw [goesOn, decide_eq_true (sub c inside), Bool.or_true]

theorem Lacks.apart {rest : List Char} (stop : Lacks goesOn rest) : Apart isDigit rest :=
  ⟨stop.mono fun _ => isDigit_goesOn, stop.of_goesOn (by simp)⟩

theorem Closed.stops {rest : List Char} (h : Closed rest) : Lacks goesOn rest :=
  h.lacks (by simp [valueEnds, goesOn, isDigit])

section Whole

variable {negative : Bool} {sign ds text rest : List Char}

theorem DigitText.timeless (h : DigitText isDigit ds text) (stop : Lacks goesOn rest) :
    Timeless (text ++ rest) := by
  obtain ⟨run, t, same, -, all, outside, after⟩ := h.run stop.apart.digit
  refine ⟨run, t, same, all, outside, ?_⟩
  rcases after with underscore | rfl
  · intro c first
    rw [underscore] at first
    obtain rfl := Option.some.inj first
    rfl
  · exact stop.of_goesOn (by simp)

theorem SignText.read (h : SignText negative sign)
    (plain : Lacks (fun c => c == '-' || c == '+') rest) :
    Reader.sign (sign ++ rest) = some (negative, rest) := by
  cases h with
  | minus => simp [Reader.sign]
  | plus => simp [Reader.sign, char_of_lacks (c := '-') (s := '+' :: rest) (by simp)]
  | unsigned =>
    have noMinus : char '-' rest = none := char_of_lacks (plain.mono (by simp))
    have noPlus : char '+' rest = none := char_of_lacks (plain.mono (by simp))
    simp [Reader.sign, noMinus, noPlus]

theorem DigitText.lacks {accepts outside : Char → Bool} (h : DigitText accepts ds text)
    (apart : ∀ c, accepts c = true → outside c = false) : Lacks outside (text ++ rest) := by
  obtain ⟨c, tail, rfl, -, first⟩ := h.cons
  exact lacks_cons.2 (apart c first)

theorem DigitText.lacks_sign (h : DigitText isDigit ds text) :
    Lacks (fun c => c == '-' || c == '+') (text ++ rest) :=
  h.lacks fun c digit => by simp [ne_of_accepts '-' digit rfl, ne_of_accepts '+' digit rfl]

theorem WholeText.afterSign (h : WholeText negative sign ds text) (rest : List Char) :
    Reader.sign (sign ++ (text ++ rest)) = some (negative, text ++ rest) :=
  h.signed.read h.digits.lacks_sign

theorem WholeText.wholeDigits (h : WholeText negative sign ds text) (stop : Lacks goesOn rest) :
    wholeDigits (text ++ rest) = some (ds, rest) :=
  h.digits.wholeDigits h.lead stop.apart

theorem WholeText.decimalFloat (h : WholeText negative sign ds text) (stop : Lacks goesOn rest) :
    decimalFloat (sign ++ (text ++ rest)) = none := by
  have noPower : powerOfTen rest = none := by
    have noMark : one (fun c => c == 'e' || c == 'E') rest = none :=
      one_of_lacks (stop.of_goesOn (by simp))
    simp [powerOfTen, noMark]
  have noFraction : fraction rest = none := by
    have noPoint : char '.' rest = none := char_of_lacks (stop.of_goesOn (by simp))
    simp [fraction, noPoint]
  simp [Reader.decimalFloat, h.afterSign, h.wholeDigits stop, noPower, noFraction]

theorem WholeText.specialFloat (h : WholeText negative sign ds text) (rest : List Char) :
    specialFloat (sign ++ (text ++ rest)) = none := by
  have noInf : chars ['i', 'n', 'f'] (text ++ rest) = none :=
    chars_of_lacks (h.digits.lacks fun c digit => by simp [ne_of_accepts 'i' digit rfl])
  have noNan : chars ['n', 'a', 'n'] (text ++ rest) = none :=
    chars_of_lacks (h.digits.lacks fun c digit => by simp [ne_of_accepts 'n' digit rfl])
  simp [Reader.specialFloat, h.afterSign, noInf, noNan]

theorem WholeText.float (h : WholeText negative sign ds text) (stop : Lacks goesOn rest) :
    float (sign ++ (text ++ rest)) = none := by
  simp [Reader.float, h.decimalFloat stop, h.specialFloat]

theorem WholeText.moment (h : WholeText negative sign ds text) (stop : Lacks goesOn rest) :
    moment (sign ++ (text ++ rest)) = none := by
  obtain ⟨signed, digits, -⟩ := h
  cases signed with
  | minus => exact moment_of_lacks (lacks_cons.2 rfl)
  | plus => exact moment_of_lacks (lacks_cons.2 rfl)
  | unsigned => exact (digits.timeless stop).moment

theorem word_of_isWord {n : Int} (fits : IsWord n) : word n = pure n := if_pos fits

theorem WholeText.decimalInteger (h : WholeText negative sign ds text) (stop : Lacks goesOn rest)
    (fits : IsWord (if negative then -(valueOf 10 ds : Int) else valueOf 10 ds)) :
    decimalInteger (sign ++ (text ++ rest)) =
      some (if negative then -(valueOf 10 ds : Int) else valueOf 10 ds, rest) := by
  rw [Reader.decimalInteger, bind_of_some (h.afterSign rest), bind_of_some (h.wholeDigits stop),
    word_of_isWord fits, pure_apply]

end Whole

/-! ## Marks of other bases -/

section Mark

variable {mark : Char} {base : Nat} {accepts : Char → Bool} {ds text rest : List Char}

theorem BaseMark.noUnderscore (h : BaseMark mark base accepts) : accepts '_' = false := by
  cases h with
  | hexadecimal => rfl
  | octal => rfl
  | binary => rfl

theorem BaseMark.apart (h : BaseMark mark base accepts) (closed : Closed rest) :
    Apart accepts rest := by
  refine ⟨?_, closed.lacks (by simp [valueEnds])⟩
  cases h with
  | hexadecimal => exact closed.lacks (by simp [valueEnds, hexDigit?])
  | octal => exact closed.lacks (by simp [valueEnds])
  | binary => exact closed.lacks (by simp [valueEnds])

theorem marked_of_other (mark other : Char) (different : mark ≠ other) :
    marked other base accepts ('0' :: mark :: rest) = none := by
  have noMark : char other (mark :: rest) = none := char_of_lacks (by simpa using different)
  simp [marked, chars, noMark]

theorem WholeText.marked {negative : Bool} {sign : List Char} (h : WholeText negative sign ds text)
    (stop : Lacks (· == mark) rest) : marked mark base accepts (sign ++ (text ++ rest)) = none := by
  have noZero {c : Char} {s : List Char} (other : c ≠ '0') :
      Reader.marked mark base accepts (c :: s) = none := by
    have skipped : char '0' (c :: s) = none := char_of_lacks (by simpa using other)
    simp [Reader.marked, chars, skipped]
  obtain ⟨signed, digits, lead⟩ := h
  cases signed with
  | minus => exact noZero (by decide)
  | plus => exact noZero (by decide)
  | unsigned =>
    obtain ⟨c, tail, rfl, first, -⟩ := digits.cons
    by_cases zero : c = '0'
    · subst zero
      obtain rfl := lead first
      cases digits with
      | last => simp [Reader.marked, chars, char_of_lacks stop]
      | next _ more => cases more
      | apart _ more => cases more
    · exact noZero zero

theorem BaseMark.marked (h : BaseMark mark base accepts) (digits : DigitText accepts ds text)
    (closed : Closed rest) (fits : IsWord (valueOf base ds)) :
    marked mark base accepts ('0' :: mark :: (text ++ rest)) = some ((valueOf base ds : Int), rest) := by
  have after : chars ['0', mark] ('0' :: mark :: (text ++ rest)) = some ((), text ++ rest) :=
    chars_append ['0', mark] _
  have taken : Reader.digits accepts (text ++ rest) = some (ds, rest) :=
    digits.digits h.noUnderscore (h.apart closed)
  rw [Reader.marked, bind_of_some after, bind_of_some taken, word_of_isWord fits, pure_apply]

end Mark

/-! ## Integers -/

theorem lone_zero : WholeText false [] ['0'] ['0'] := ⟨.unsigned, .last rfl, fun _ => rfl⟩

theorem BaseMark.stops {mark : Char} {base : Nat} {accepts : Char → Bool}
    (h : BaseMark mark base accepts) (s : List Char) : Lacks goesOn (mark :: s) := by
  cases h with
  | hexadecimal => exact lacks_cons.2 rfl
  | octal => exact lacks_cons.2 rfl
  | binary => exact lacks_cons.2 rfl

section Integer

variable {n : Int} {text rest : List Char}

theorem IntegerText.lacks {accepts : Char → Bool} (h : IntegerText n text)
    (noDigit : ∀ c, isDigit c = true → accepts c = false)
    (noSign : accepts '-' = false ∧ accepts '+' = false) (rest : List Char) :
    Lacks accepts (text ++ rest) := by
  cases h with
  | decimal whole =>
    obtain ⟨signed, digits, -⟩ := whole
    cases signed with
    | minus => exact lacks_cons.2 noSign.1
    | plus => exact lacks_cons.2 noSign.2
    | unsigned => exact digits.lacks noDigit
  | marked => exact lacks_cons.2 (noDigit '0' rfl)

theorem IntegerText.moment (h : IntegerText n text) (closed : Closed rest) :
    moment (text ++ rest) = none := by
  cases h with
  | decimal whole =>
    rw [List.append_assoc]
    exact whole.moment closed.stops
  | marked mark digits => exact lone_zero.moment (mark.stops _)

theorem IntegerText.float (h : IntegerText n text) (closed : Closed rest) :
    float (text ++ rest) = none := by
  cases h with
  | decimal whole =>
    rw [List.append_assoc]
    exact whole.float closed.stops
  | marked mark digits => exact lone_zero.float (mark.stops _)

theorem IntegerText.integer (h : IntegerText n text) (fits : IsWord n) (closed : Closed rest) :
    integer (text ++ rest) = some (n, rest) := by
  cases h with
  | @decimal negative sign ds text whole =>
    rw [List.append_assoc]
    have noMark (mark : Char) (base : Nat) (accepts : Char → Bool) (other : mark ∉ valueEnds) :
        Reader.marked mark base accepts (sign ++ (text ++ rest)) = none :=
      whole.marked (closed.lacks fun c ends => beq_eq_false_iff_ne.2 (ne_of_mem_of_not_mem ends other))
    have taken := whole.decimalInteger closed.stops fits
    simp [Reader.integer, noMark 'x' _ _ (by simp [valueEnds]), noMark 'o' _ _ (by simp [valueEnds]),
      noMark 'b' _ _ (by simp [valueEnds]), taken]
  | marked mark digits =>
    have taken := mark.marked digits closed fits
    rw [List.cons_append, List.cons_append]
    -- The bases are tried from the greatest on, so the marks before this one have to fail.
    cases mark with
    | hexadecimal => simp [Reader.integer, taken]
    | octal => simp [Reader.integer, marked_of_other 'o' 'x' (by decide), taken]
    | binary =>
      simp [Reader.integer, marked_of_other 'b' 'x' (by decide),
        marked_of_other 'b' 'o' (by decide), taken]

end Integer

/-! ## The decimal text of a number -/

theorem DigitText.of_forall {accepts : Char → Bool} {ds : List Char} (nonempty : ds ≠ [])
    (all : ∀ c ∈ ds, accepts c = true) : DigitText accepts ds ds := by
  induction ds with
  | nil => exact absurd rfl nonempty
  | cons c ds ih =>
    obtain ⟨first, others⟩ := List.forall_mem_cons.1 all
    cases ds with
    | nil => exact .last first
    | cons d ds => exact .next first (ih (List.cons_ne_nil d ds) others)

theorem isDigit_of_mem_toDigits {n : Nat} {c : Char} (member : c ∈ Nat.toDigits 10 n) :
    isDigit c = true := by
  have digit := Nat.isDigit_of_mem_toDigits (by decide) le_rfl member
  simpa [Char.isDigit, isDigit, Char.le_def] using digit

theorem valueOf_toDigits (n : Nat) : valueOf 10 (Nat.toDigits 10 n) = n := by
  have value : valueOf 10 (Nat.toDigits 10 n) = Nat.ofDigitChars 10 (Nat.toDigits 10 n) 0 := by
    rw [Nat.ofDigitChars_eq_foldl, valueOf]
    refine List.foldl_ext _ _ _ fun before c member => ?_
    have digit := isDigit_of_mem_toDigits member
    rw [isDigit, Bool.and_eq_true, decide_eq_true_iff, decide_eq_true_iff] at digit
    rw [hexDigit?, if_pos digit, Option.getD_some]
  rw [value, Nat.ofDigitChars_ten_toDigits]

theorem toDigits_lead (n : Nat) (zero : (Nat.toDigits 10 n).head? = some '0') :
    Nat.toDigits 10 n = ['0'] := by
  induction n using Nat.strong_induction_on with
  | _ n ih =>
    by_cases small : n < 10
    · rw [Nat.toDigits_of_lt_base small] at zero ⊢
      rw [Option.some.inj zero]
    · have split := Nat.toDigits_of_base_le (by decide) (not_lt.1 small)
      rw [split, List.head?_append_of_ne_nil _ Nat.toDigits_ne_nil] at zero
      have value := valueOf_toDigits (n / 10)
      rw [ih (n / 10) (by omega) zero] at value
      have nothing : valueOf 10 ['0'] = 0 := rfl
      omega

theorem wholeText_toDigits {negative : Bool} {sign : List Char} (signed : SignText negative sign)
    (n : Nat) : WholeText negative sign (Nat.toDigits 10 n) (Nat.toDigits 10 n) :=
  ⟨signed, .of_forall Nat.toDigits_ne_nil fun _ => isDigit_of_mem_toDigits, toDigits_lead n⟩

end PositionCache.Toml
