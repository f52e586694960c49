import PositionCache.Proofs.Toml.Number
import PositionCache.Proofs.Toml.Text
import PositionCache.Toml.Document

/-!
# Documents of plain lines

A line gives a key without points an integer or a truth value, or says nothing.
-/

namespace PositionCache.Toml

open Reader

/-! ## Spelling -/

/-- An integer or a truth value, and its text. -/
inductive ValueText : Value → List Char → Prop
  | number {n : Int} {text : List Char} : IntegerText n text → IsWord n → ValueText (.integer n) text
  | yes : ValueText (.boolean true) ['t', 'r', 'u', 'e']
  | no : ValueText (.boolean false) ['f', 'a', 'l', 's', 'e']

def Blank (text : List Char) : Prop := ∀ c ∈ text, isBlank c = true

inductive Remark : List Char → Prop
  | absent : Remark []
  | hash {text : List Char} : (∀ c ∈ text, isText c = true) → Remark ('#' :: text)

inductive NewlineText : List Char → Prop
  | feed : NewlineText ['\n']
  | returned : NewlineText ['\r', '\n']

/-- What a line gives, and its text up to the line's end. -/
inductive LineText : List (Key × Value) → List Char → Prop
  | idle {margin remark : List Char} : Blank margin → Remark remark → LineText [] (margin ++ remark)
  | entry {k : Key} {v : Value} {margin key beforeEquals afterEquals value behind remark : List Char} :
      Blank margin → KeyText k key → Blank beforeEquals → Blank afterEquals → ValueText v value →
      Blank behind → Remark remark →
      LineText [(k, v)] (margin ++ (key ++ (beforeEquals ++ '=' ::
        (afterEquals ++ (value ++ (behind ++ remark))))))

/-- What the lines of a text give. The last line may end without a line end. -/
inductive Document : List (Key × Value) → List Char → Prop
  | last {es : List (Key × Value)} {text : List Char} : LineText es text → Document es text
  | line {es later : List (Key × Value)} {line newline text : List Char} : LineText es line →
      NewlineText newline → Document later text → Document (es ++ later) (line ++ (newline ++ text))

/-! ## Where a line ends -/

/-- A text that begins with a line end or is at its own end, and what comes after. -/
inductive LineEnd : List Char → List Char → Prop
  | broken {newline rest : List Char} : NewlineText newline → LineEnd (newline ++ rest) rest
  | final : LineEnd [] []

section LineEnd

variable {s rest margin remark : List Char}

theorem LineEnd.read (h : LineEnd s rest) : (newline <|> ending) s = some ((), rest) := by
  cases h with
  | broken text =>
    cases text with
    | feed => rfl
    | returned => rfl
  | final => rfl

theorem LineEnd.lacks {accepts : Char → Bool} (h : LineEnd s rest)
    (outside : accepts '\n' = false ∧ accepts '\r' = false) : Lacks accepts s := by
  cases h with
  | broken text =>
    cases text with
    | feed => exact lacks_cons.2 outside.1
    | returned => exact lacks_cons.2 outside.2
  | final => exact lacks_nil

theorem LineEnd.length_le (h : LineEnd s rest) : rest.length ≤ s.length := by
  cases h with
  | broken => simp
  | final => exact le_rfl

theorem LineEnd.closed (h : LineEnd s rest) : Closed s := by
  cases h with
  | broken text => cases text <;> simp [Closed, valueEnds]
  | final => simp [Closed]

theorem comment_of_lacks (h : Lacks (· == '#') s) : comment s = none := by
  simp [Reader.comment, char_of_lacks h]

theorem LineEnd.comment {text : List Char} (h : LineEnd s rest) (all : ∀ c ∈ text, isText c = true) :
    comment ('#' :: (text ++ s)) = some ((), s) := by
  simp [Reader.comment, span_append all (h.lacks ⟨rfl, rfl⟩)]

theorem Remark.lacks_blank (h : Remark remark) (finish : LineEnd s rest) :
    Lacks isBlank (remark ++ s) := by
  cases h with
  | absent => exact finish.lacks ⟨rfl, rfl⟩
  | hash => exact lacks_cons.2 rfl

theorem Remark.closed (h : Remark remark) (blank : Blank margin) (finish : LineEnd s rest) :
    Closed (margin ++ (remark ++ s)) := by
  cases margin with
  | nil =>
    cases h with
    | absent => exact finish.closed
    | hash => simp [Closed, valueEnds]
  | cons c margin =>
    have first := blank c List.mem_cons_self
    simp only [isBlank, Bool.or_eq_true, beq_iff_eq] at first
    rcases first with rfl | rfl <;> simp [Closed, valueEnds]

theorem Remark.lineEnd (h : Remark remark) (blank : Blank margin) (finish : LineEnd s rest) :
    lineEnd (margin ++ (remark ++ s)) = some ((), rest) := by
  rw [Reader.lineEnd, bind_of_some (blanks_append blank (h.lacks_blank finish))]
  cases h with
  | absent =>
    have noComment : comment s = none := comment_of_lacks (finish.lacks ⟨rfl, rfl⟩)
    rw [List.nil_append, bind_of_some (maybe_of_none noComment), finish.read]
  | hash all =>
    rw [List.cons_append, bind_of_some (maybe_of_some (finish.comment all)), finish.read]

end LineEnd

/-! ## Values -/

section Value

variable {v : Value} {s rest : List Char}

theorem text_of_lacks (noDouble : Lacks (· == '"') s) (noSingle : Lacks (· == '\'') s) :
    Reader.text s = none := by
  simp [Reader.text, basicLines, literalLines, basicText, literalText, linesText,
    chars_of_lacks noDouble, chars_of_lacks noSingle, char_of_lacks noDouble, char_of_lacks noSingle]

theorem isBlank_of_digit {c : Char} (digit : isDigit c = true) : isBlank c = false := by
  simp [isBlank, ne_of_accepts ' ' digit rfl, ne_of_accepts '\t' digit rfl]

theorem ValueText.lacks_blank (h : ValueText v s) (rest : List Char) :
    Lacks isBlank (s ++ rest) := by
  cases h with
  | number spelled => exact spelled.lacks (fun _ => isBlank_of_digit) ⟨rfl, rfl⟩ rest
  | yes => exact lacks_cons.2 rfl
  | no => exact lacks_cons.2 rfl

theorem ValueText.scalar (h : ValueText v s) (closed : Closed rest) :
    scalar (s ++ rest) = some (v, rest) := by
  cases h with
  | number spelled fits =>
    -- Texts, moments and floats are tried before integers, so all of them have to fail here.
    have noText : Reader.text (s ++ rest) = none :=
      text_of_lacks
        (spelled.lacks (fun c digit => by simpa using ne_of_accepts '"' digit rfl) ⟨rfl, rfl⟩ rest)
        (spelled.lacks (fun c digit => by simpa using ne_of_accepts '\'' digit rfl) ⟨rfl, rfl⟩ rest)
    simp [Reader.scalar, noText, spelled.moment closed, spelled.float closed,
      spelled.integer fits closed]
  | yes => rfl
  | no => rfl

theorem nested_of_scalar (taken : scalar s = some (v, rest)) (depth : Nat) :
    nested depth s = some (v, rest) := by
  cases depth with
  | zero => exact taken
  | succ depth => simp [nested, taken]

theorem ValueText.value (h : ValueText v s) (closed : Closed rest) :
    value (s ++ rest) = some (v, rest) := nested_of_scalar (h.scalar closed) _

end Value

/-! ## Statements -/

section Statement

variable {k : Key} {v : Value} {key beforeEquals afterEquals value behind remark s rest : List Char}

theorem pair_append (spelled : KeyText k key) (before : Blank beforeEquals)
    (after : Blank afterEquals) (given : ValueText v value) (closed : Closed rest) :
    pair Reader.value (key ++ (beforeEquals ++ '=' :: (afterEquals ++ (value ++ rest)))) =
      some ((⟨[], k⟩, v), rest) := by
  have left : path ([] ++ (key ++ (beforeEquals ++ '=' :: (afterEquals ++ (value ++ rest))))) =
      some (⟨[], k⟩, '=' :: (afterEquals ++ (value ++ rest))) := spelled.path (by simp) before
  rw [List.nil_append] at left
  have blank := blanks_append after (given.lacks_blank rest)
  rw [pair, bind_of_some left, bind_of_some (char_cons '=' _), bind_of_some blank,
    bind_of_some (given.value closed), pure_apply]

theorem statement_of_key (spelled : KeyText k key) (d : Draft) (rest : List Char) :
    statement d (key ++ rest) =
      (do
        let (p, v) ← pair Reader.value
        lineEnd
        lift (d.add p v) : Reader Draft) (key ++ rest) := by
  have noHash : comment (key ++ rest) = none :=
    comment_of_lacks (spelled.lacks_char '#' rfl (by decide) rest)
  have noNewline : newline (key ++ rest) = none := by
    simp [newline, chars_of_lacks (spelled.lacks_char '\n' rfl (by decide) rest),
      chars_of_lacks (spelled.lacks_char '\r' rfl (by decide) rest)]
  have noHeader : header d (key ++ rest) = none := by
    have noBracket := spelled.lacks_char '[' rfl (by decide) rest
    simp [header, chars_of_lacks noBracket, char_of_lacks noBracket]
  rw [statement, orElse_apply, orElse_apply, orElse_apply, bind_apply, noHash, bind_apply, noNewline,
    noHeader]
  rfl

theorem statement_of_entry (spelled : KeyText k key) (before : Blank beforeEquals)
    (after : Blank afterEquals) (given : ValueText v value) (blank : Blank behind)
    (noted : Remark remark) (finish : LineEnd s rest) (d : Draft) :
    statement d (key ++ (beforeEquals ++ '=' :: (afterEquals ++ (value ++ (behind ++ (remark ++ s)))))) =
      (d.add ⟨[], k⟩ v).map (·, rest) := by
  rw [statement_of_key spelled,
    bind_of_some (pair_append spelled before after given (noted.closed blank finish))]
  dsimp only
  rw [bind_of_some (noted.lineEnd blank finish)]
  cases added : d.add ⟨[], k⟩ v <;> rfl

theorem statement_of_remark {text : List Char} (all : ∀ c ∈ text, isText c = true)
    (finish : LineEnd s rest) (d : Draft) : statement d ('#' :: (text ++ s)) = some (d, rest) := by
  rw [statement, orElse_apply, bind_of_some (finish.comment all), bind_of_some finish.read]
  rfl

theorem statement_of_newline {newline : List Char} (h : NewlineText newline) (d : Draft)
    (rest : List Char) : statement d (newline ++ rest) = some (d, rest) := by
  cases h with
  | feed => rfl
  | returned => rfl

end Statement

/-! ## Texts of lines -/

/-- The draft with some more keys and their values. -/
def Draft.give (d : Draft) (es : List (Key × Value)) : Option Draft :=
  es.foldlM (fun d (k, v) => d.add ⟨[], k⟩ v) d

section Lines

variable {es : List (Key × Value)} {line s rest text : List Char} {d d' : Draft}

theorem statements_nil (limit : Nat) (d : Draft) : statements limit d [] = some (d, []) := by
  cases limit with
  | zero => rfl
  | succ limit => rfl

theorem statements_of_statement {t : List Char} {limit : Nat} (taken : statement d t = some (d', rest))
    (nonempty : t ≠ []) :
    statements (limit + 1) d t = statements limit d' (rest.dropWhile isBlank) := by
  have more : (do ending; pure d : Reader Draft) t = none := by
    rw [bind_apply, ending_of_ne_nil nonempty, Option.bind_none]
  rw [statements, orElse_apply, more, Option.none_or, bind_of_some taken,
    bind_of_some (blanks_apply rest)]

/-- A line is either blank to the end of the text or one statement. -/
theorem LineText.statement (h : LineText es line) (finish : LineEnd s rest)
    (given : d.give es = some d') :
    (d' = d ∧ rest = [] ∧ (line ++ s).dropWhile isBlank = []) ∨
      (rest.length < ((line ++ s).dropWhile isBlank).length ∧
        statement d ((line ++ s).dropWhile isBlank) = some (d', rest)) := by
  cases h with
  | @idle margin remark blank noted =>
    rw [List.append_assoc, dropWhile_append blank (noted.lacks_blank finish)]
    obtain rfl : d = d' := Option.some.inj given
    cases noted with
    | hash all =>
      refine .inr ⟨?_, statement_of_remark all finish d⟩
      have shorter := finish.length_le
      simp only [List.cons_append, List.length_cons, List.length_append]
      omega
    | absent =>
      cases finish with
      | broken text =>
        refine .inr ⟨?_, statement_of_newline text d rest⟩
        cases text <;> simp
      | final => exact .inl ⟨rfl, rfl, rfl⟩
  | @entry k v margin key beforeEquals afterEquals value behind remark blank spelled before after worth
      apart noted =>
    have added : d.add ⟨[], k⟩ v = some d' := by simpa [Draft.give] using given
    have stop (t : List Char) : Lacks isBlank (key ++ t) :=
      spelled.lacks (fun _ => isBlank_of_bare) ⟨rfl, rfl⟩ t
    simp only [List.append_assoc, List.cons_append]
    rw [dropWhile_append blank (stop _)]
    refine .inr ⟨?_, ?_⟩
    · have shorter := finish.length_le
      simp only [List.length_append, List.length_cons]
      omega
    · rw [statement_of_entry spelled before after worth apart noted finish, added, Option.map_some]

theorem LineText.statements (h : LineText es line) (finish : LineEnd s rest)
    (given : d.give es = some d') {r : Draft × List Char}
    (later : ∀ limit, (rest.dropWhile isBlank).length ≤ limit →
      statements limit d' (rest.dropWhile isBlank) = some r) {limit : Nat}
    (enough : ((line ++ s).dropWhile isBlank).length ≤ limit) :
    statements limit d ((line ++ s).dropWhile isBlank) = some r := by
  rcases h.statement finish given with ⟨rfl, rfl, blank⟩ | ⟨shorter, taken⟩
  · rw [blank] at enough ⊢
    exact later limit enough
  · have fewer := (List.dropWhile_sublist isBlank (l := rest)).length_le
    cases limit with
    | zero => omega
    | succ limit =>
      have nonempty : (line ++ s).dropWhile isBlank ≠ [] := List.ne_nil_of_length_pos (by omega)
      rw [statements_of_statement taken nonempty]
      exact later limit (by omega)

theorem Document.statements (h : Document es text) (given : d.give es = some d') {limit : Nat}
    (enough : (text.dropWhile isBlank).length ≤ limit) :
    statements limit d (text.dropWhile isBlank) = some (d', []) := by
  -- On the lines of the text: what is left of the limit covers what is left of the text.
  induction h generalizing d limit with
  | @last es text only =>
    rw [← List.append_nil text] at enough ⊢
    exact only.statements .final given (fun limit _ => statements_nil limit d') enough
  | @line es later line newline text first ends _ ih =>
    rw [Draft.give, List.foldlM_append] at given
    obtain ⟨between, start, finish⟩ := Option.bind_eq_some_iff.1 given
    exact first.statements (.broken ends) start (fun limit => ih finish) enough

end Lines

/-! ## Fields -/

/-- The fields that keys and values stand for. -/
def Fields.given (es : List (Key × Value)) : Fields := es.map fun (k, v) => (k, .value v)

theorem Fields.put_of_fresh {k : Key} {n : Node} {fields : Fields} (fresh : k ∉ fields.map Prod.fst) :
    fields.put k n = fields ++ [(k, n)] := by
  induction fields with
  | nil => rfl
  | cons field fields ih =>
    rw [List.map_cons, List.mem_cons, not_or] at fresh
    rw [Fields.put, if_neg (Ne.symm fresh.1), ih fresh.2, List.cons_append]

theorem Fields.get?_of_fresh {k : Key} {fields : Fields} (fresh : k ∉ fields.map Prod.fst) :
    fields.get? k = none := by
  refine List.lookup_eq_none_iff.2 fun field member => bne_iff_ne.2 ?_
  rintro rfl
  exact fresh (List.mem_map_of_mem member)

theorem Draft.add_of_fresh {k : Key} {fields : Fields} (fresh : k ∉ fields.map Prod.fst) (v : Value) :
    Draft.add ⟨fields, []⟩ ⟨[], k⟩ v = some ⟨fields ++ [(k, .value v)], []⟩ := by
  have added : fields.add k v = some (fields ++ [(k, .value v)]) := by
    rw [Fields.add, Fields.get?_of_fresh fresh, Fields.put_of_fresh fresh]
  simp [Draft.add, Fields.changeAt, Fields.addAt, added]

theorem Draft.give_of_fresh {es : List (Key × Value)} {fields : Fields}
    (distinct : (fields.map Prod.fst ++ es.map Prod.fst).Nodup) :
    Draft.give ⟨fields, []⟩ es = some ⟨fields ++ Fields.given es, []⟩ := by
  induction es generalizing fields with
  | nil => simp [Draft.give, Fields.given]
  | cons e es ih =>
    obtain ⟨k, v⟩ := e
    have fresh : k ∉ fields.map Prod.fst := fun member =>
      List.disjoint_of_nodup_append distinct member List.mem_cons_self
    have next : Draft.give ⟨fields ++ [(k, .value v)], []⟩ es =
        some ⟨fields ++ [(k, .value v)] ++ Fields.given es, []⟩ := ih (by simpa using distinct)
    rw [Draft.give, List.foldlM_cons]
    dsimp only
    rw [Draft.add_of_fresh fresh]
    simpa [Draft.give, Fields.given] using next

/-! ## Documents -/

section Mark

variable {other : Char} {s margin : List Char}

theorem Blank.lacks_char (h : Blank margin) (noBlank : isBlank other = false)
    (stop : Lacks (· == other) s) : Lacks (· == other) (margin ++ s) := by
  cases margin with
  | nil => exact stop
  | cons c margin =>
    exact lacks_cons.2 (beq_eq_false_iff_ne.2 (ne_of_accepts other (h c List.mem_cons_self) noBlank))

def byteOrderMark : Char := Char.ofNat 0xFEFF

theorem LineText.lacks_mark {es : List (Key × Value)} {line : List Char} (h : LineText es line)
    (stop : Lacks (· == byteOrderMark) s) : Lacks (· == byteOrderMark) (line ++ s) := by
  cases h with
  | idle blank noted =>
    rw [List.append_assoc]
    refine blank.lacks_char rfl ?_
    cases noted with
    | absent => exact stop
    | hash => exact lacks_cons.2 rfl
  | entry blank spelled =>
    simp only [List.append_assoc]
    exact blank.lacks_char rfl (spelled.lacks_char _ rfl (by decide) _)

theorem Document.lacks_mark {es : List (Key × Value)} {text : List Char} (h : Document es text) :
    Lacks (· == byteOrderMark) text := by
  cases h with
  | last only =>
    rw [← List.append_nil text]
    exact only.lacks_mark lacks_nil
  | line first ends _ => exact first.lacks_mark ((LineEnd.broken ends).lacks ⟨rfl, rfl⟩)

end Mark

theorem Document.parse {es : List (Key × Value)} {text : List Char} (h : Document es text)
    (distinct : (es.map Prod.fst).Nodup) : parse text = some (Fields.given es) := by
  have noMark : maybe (char byteOrderMark) text = some (none, text) :=
    maybe_of_none (char_of_lacks h.lacks_mark)
  have given : Draft.empty.give es = some ⟨Fields.given es, []⟩ :=
    Draft.give_of_fresh (by simpa using distinct)
  let loop : Reader Draft := fun s => Reader.statements s.length .empty s
  have taken : loop (text.dropWhile isBlank) = some (⟨Fields.given es, []⟩, []) :=
    h.statements given le_rfl
  have read : document text = some (Fields.given es, []) := by
    refine (bind_of_some noMark _).trans ?_
    rw [bind_of_some (blanks_apply text)]
    change (loop >>= fun d => pure d.fields) (text.dropWhile isBlank) = _
    rw [bind_of_some taken, pure_apply]
  rw [Toml.parse, read]
  rfl

end PositionCache.Toml
