import PositionCache.Proofs.Toml.Document
import PositionCache.Toml.Codec

/-!
# Lawful codecs

What is relied on of a codec: plain lines are written as the format spells them, and read back from
any spelling.
-/

namespace PositionCache.Toml

/-- What a key and its value are, and the line that they are written as. -/
inductive Printed : Key × Value → List Char → Prop
  | integer {k : Key} {n : Int} : Bare k → IsWord n → Printed (k, .integer n) (line k (decimal n))
  | boolean {k : Key} {b : Bool} : Bare k → Printed (k, .boolean b) (line k (truth b))

class LawfulCodec [Codec] : Prop where
  /-- Lines are read as what they give, however they are spelled. -/
  parse_document {es : List (Key × Value)} {text : List Char} :
    Document es text → (es.map Prod.fst).Nodup → Codec.parse text = some (Fields.given es)
  /-- Integers of 64 bits and truth values are written, a line each. -/
  print_lines {lines : List ((Key × Value) × List Char)} : (∀ l ∈ lines, Printed l.1 l.2) →
    ((lines.map Prod.fst).map Prod.fst).Nodup →
      Codec.print (lines.map Prod.fst) = some (lines.map Prod.snd).flatten
  /-- No other integer is written. -/
  print_beyond {es : List (Key × Value)} {k : Key} {n : Int} :
    (k, .integer n) ∈ es → ¬ IsWord n → Codec.print es = none

/-! ## Lines written -/

theorem Bare.keyText {k : Key} (h : Bare k) : KeyText k k := .bare h.1 h.2

theorem integerText_decimal (n : Int) : IntegerText n (decimal n) := by
  cases n with
  | ofNat n =>
    have spelled := IntegerText.decimal (wholeText_toDigits .unsigned n)
    rw [valueOf_toDigits] at spelled
    exact spelled
  | negSucc n =>
    have spelled := IntegerText.decimal (wholeText_toDigits .minus (n + 1))
    rw [valueOf_toDigits] at spelled
    exact spelled

theorem valueText_truth (b : Bool) : ValueText (.boolean b) (truth b) := by
  cases b with
  | true => exact .yes
  | false => exact .no

section

variable {es : List (Key × Value)} {text : List Char}

theorem document_line {k : Key} {v : Value} {value : List Char} (bare : Bare k)
    (given : ValueText v value) (later : Document es text) :
    Document ((k, v) :: es) (line k value ++ text) := by
  have first : LineText [(k, v)] ([] ++ (k ++ ([' '] ++ '=' :: ([' '] ++ (value ++ ([] ++ [])))))) :=
    .entry (by simp [Blank]) bare.keyText (by simp [Blank, Reader.isBlank])
      (by simp [Blank, Reader.isBlank]) given (by simp [Blank]) .absent
  have whole := Document.line first .feed later
  simpa [line] using whole

theorem document_nil : Document [] [] :=
  .last (.idle (List.forall_mem_nil _) .absent : LineText [] ([] ++ []))

theorem Printed.document {e : Key × Value} {own : List Char} (h : Printed e own)
    (later : Document es text) : Document (e :: es) (own ++ text) := by
  cases h with
  | integer bare fits => exact document_line bare (.number (integerText_decimal _) fits) later
  | boolean bare => exact document_line bare (valueText_truth _) later

theorem document_printed {lines : List ((Key × Value) × List Char)}
    (printed : ∀ l ∈ lines, Printed l.1 l.2) (later : Document es text) :
    Document (lines.map Prod.fst ++ es) ((lines.map Prod.snd).flatten ++ text) := by
  induction lines with
  | nil => exact later
  | cons l lines ih =>
    obtain ⟨first, others⟩ := List.forall_mem_cons.1 printed
    simpa using first.document (ih others)

end

/-! ## The codec that stands here -/

theorem Printed.print {e : Key × Value} {own : List Char} (h : Printed e own)
    {es : List (Key × Value)} {text : List Char} (later : print es = some text) :
    print (e :: es) = some (own ++ text) := by
  cases h with
  | integer bare fits => simp [Toml.print, Value.spelled?, later, bare, fits]
  | boolean bare => simp [Toml.print, Value.spelled?, later, bare]

theorem print_of_printed {lines : List ((Key × Value) × List Char)}
    (printed : ∀ l ∈ lines, Printed l.1 l.2) :
    print (lines.map Prod.fst) = some (lines.map Prod.snd).flatten := by
  induction lines with
  | nil => rfl
  | cons l lines ih =>
    obtain ⟨first, others⟩ := List.forall_mem_cons.1 printed
    exact first.print (ih others)

theorem print_of_beyond {es : List (Key × Value)} {k : Key} {n : Int} (member : (k, .integer n) ∈ es)
    (beyond : ¬ IsWord n) : print es = none := by
  induction es with
  | nil => cases member
  | cons e es ih =>
    rcases List.mem_cons.1 member with rfl | later
    · simp [print, Value.spelled?, beyond]
    · simp [print, ih later]

instance : LawfulCodec where
  parse_document lines distinct := lines.parse distinct
  print_lines printed _ := print_of_printed printed
  print_beyond := print_of_beyond

end PositionCache.Toml
