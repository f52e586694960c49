import PositionCache.Proofs.Toml.Codec
import PositionCache.Settings.Layers

/-! # Settings read back -/

namespace PositionCache

open Toml

/-! ## What a document names -/

theorem Toml.Fields.get?_given {es : List (Key × Value)} {k : Key} {w : Value}
    (own : ∀ v, (k, v) ∈ es → v = w) :
    (Fields.given es).get? k = if k ∈ es.map Prod.fst then some (.value w) else none := by
  induction es with
  | nil => rfl
  | cons e es ih =>
    obtain ⟨k', v⟩ := e
    have others := ih fun v member => own v (List.mem_cons_of_mem _ member)
    by_cases same : k = k'
    · subst same
      rw [own v List.mem_cons_self]
      simp [Fields.given, Fields.get?]
    · have apart : (k == k') = false := beq_eq_false_iff_ne.2 same
      have further : (Fields.given ((k', v) :: es)).get? k = (Fields.given es).get? k := by
        simp [Fields.given, Fields.get?, List.lookup_cons, apart]
      rw [further, others]
      simp only [List.map_cons, List.mem_cons, same, false_or]

namespace Overrides

variable {es : List (Key × Value)} {k : Key}

theorem number_given {n : Nat} (own : ∀ v, (k, v) ∈ es → v = .integer n) :
    number (Fields.given es) k = some (if k ∈ es.map Prod.fst then some n else none) := by
  rw [number, Fields.get?_given own]
  split_ifs
  · simp only [Int.natCast_nonneg, if_true, Int.toNat_natCast]
  · rfl

theorem switch_given {b : Bool} (own : ∀ v, (k, v) ∈ es → v = .boolean b) :
    switch (Fields.given es) k = some (if k ∈ es.map Prod.fst then some b else none) := by
  rw [switch, Fields.get?_given own]
  split_ifs
  · rfl
  · rfl

end Overrides

namespace Settings

/-- What the lines give to the keys of settings is what these settings have. -/
structure Own (s : Settings) (es : List (Key × Value)) : Prop where
  hashMb : ∀ v, (hashMbKey, v) ∈ es → v = .integer s.hashMb
  threads : ∀ v, (threadsKey, v) ∈ es → v = .integer s.threads
  largePages : ∀ v, (largePagesKey, v) ∈ es → v = .boolean s.largePages

def named (s : Settings) (keys : List Key) : Overrides where
  hashMb := if hashMbKey ∈ keys then some s.hashMb else none
  threads := if threadsKey ∈ keys then some s.threads else none
  largePages := if largePagesKey ∈ keys then some s.largePages else none

/-- The settings' own values under some keys, and standard ones for the others. -/
def selected (processors : Nat) (s : Settings) (keys : List Key) : Settings where
  hashMb := if hashMbKey ∈ keys then s.hashMb else (standard processors).hashMb
  threads := if threadsKey ∈ keys then s.threads else (standard processors).threads
  largePages := if largePagesKey ∈ keys then s.largePages else (standard processors).largePages

theorem named_over (processors : Nat) (s : Settings) (keys : List Key) :
    (s.named keys).over (standard processors) = s.selected processors keys := by
  simp only [Overrides.over, named, selected]
  congr 1 <;> split_ifs <;> rfl

end Settings

def SettingsFile.ofText (path : String) (text : List Char) : SettingsFile :=
  ⟨path, some (String.ofList text).toUTF8⟩

theorem SettingsFile.text?_ofText (path : String) (text : List Char) :
    (SettingsFile.ofText path text).text? = some text := by
  have decoded : String.fromUTF8? (String.ofList text).toUTF8 = some (String.ofList text) := by
    unfold String.fromUTF8?
    rw [String.toUTF8_eq_toByteArray, dif_pos (String.ofList text).isValidUTF8]
    rfl
  rw [SettingsFile.text?, SettingsFile.ofText, Option.bind_some, decoded]
  simp

namespace Settings

variable {s : Settings} {es : List (Key × Value)} {text : List Char}

theorem Own.ofFields (own : s.Own es) :
    Overrides.ofFields (Fields.given es) = some (s.named (es.map Prod.fst)) := by
  simp only [Overrides.ofFields, Overrides.number_given own.hashMb, Overrides.number_given own.threads,
    Overrides.switch_given own.largePages]
  rfl

/-! ## What is written -/

/-- What the settings give to each key, and the line that they are written with. -/
def written (s : Settings) : List ((Key × Value) × List Char) :=
  [((hashMbKey, .integer s.hashMb), line hashMbKey (decimal s.hashMb)),
    ((threadsKey, .integer s.threads), line threadsKey (decimal s.threads)),
    ((largePagesKey, .boolean s.largePages), line largePagesKey (truth s.largePages))]

theorem bare_of_mem {k : Key} (known : k ∈ [hashMbKey, threadsKey, largePagesKey]) : Bare k := by
  have bare : ∀ k ∈ [hashMbKey, threadsKey, largePagesKey], k ≠ [] ∧ ∀ c ∈ k, Reader.isBare c := by
    simp [hashMbKey, threadsKey, largePagesKey, Reader.isBare]
  exact bare k known

theorem isWord_iff (n : Nat) : IsWord n ↔ n < signedLimit := by
  unfold IsWord
  omega

theorem printed_of_mem (hashMb : s.hashMb < signedLimit) (threads : s.threads < signedLimit) :
    ∀ l ∈ s.written, Printed l.1 l.2 := by
  intro l member
  simp only [written, List.mem_cons, List.not_mem_nil, or_false] at member
  rcases member with rfl | rfl | rfl
  · exact .integer (bare_of_mem (by simp)) ((isWord_iff _).2 hashMb)
  · exact .integer (bare_of_mem (by simp)) ((isWord_iff _).2 threads)
  · exact .boolean (bare_of_mem (by simp))

theorem written_distinct (s : Settings) : ((s.written.map Prod.fst).map Prod.fst).Nodup := by
  simp [written, hashMbKey, threadsKey, largePagesKey]

theorem document_written (hashMb : s.hashMb < signedLimit) (threads : s.threads < signedLimit) :
    Document (s.written.map Prod.fst) (s.written.map Prod.snd).flatten := by
  simpa using document_printed (printed_of_mem hashMb threads) document_nil

theorem own_written (s : Settings) : s.Own (s.written.map Prod.fst) where
  hashMb v member := by simpa [written, hashMbKey, threadsKey, largePagesKey] using member
  threads v member := by simpa [written, hashMbKey, threadsKey, largePagesKey] using member
  largePages v member := by simpa [written, hashMbKey, threadsKey, largePagesKey] using member

theorem selected_written (processors : Nat) (s : Settings) :
    s.selected processors ((s.written.map Prod.fst).map Prod.fst) = s := by
  simp [selected, written]

/-! ## Through a codec -/

theorem Own.load [Codec] [LawfulCodec] (own : s.Own es) (lines : Document es text)
    (distinct : (es.map Prod.fst).Nodup) (processors : Nat) (path : String) :
    load processors (.ofText path text) = .ok (s.selected processors (es.map Prod.fst)) := by
  have parsed : Overrides.parse? text = some (s.named (es.map Prod.fst)) := by
    rw [Overrides.parse?, LawfulCodec.parse_document lines distinct, Option.bind_some, own.ofFields]
  have layer : (SettingsFile.ofText path text).layer = .ok (s.named (es.map Prod.fst)) := by
    rw [SettingsFile.layer, SettingsFile.text?_ofText]
    dsimp only
    rw [parsed]
  rw [Settings.load, layer, ← named_over]
  rfl

theorem render?_eq [Codec] [LawfulCodec] (s : Settings) :
    s.render? = if s.hashMb < signedLimit ∧ s.threads < signedLimit
      then some (s.written.map Prod.snd).flatten else none := by
  split_ifs with fits
  · exact LawfulCodec.print_lines (printed_of_mem fits.1 fits.2) s.written_distinct
  · rcases not_and_or.1 fits with beyond | beyond
    · exact LawfulCodec.print_beyond List.mem_cons_self (mt (isWord_iff _).1 beyond)
    · exact LawfulCodec.print_beyond (List.mem_cons_of_mem _ List.mem_cons_self)
        (mt (isWord_iff _).1 beyond)

/-- Through any lawful codec, settings are written unless a number is too great, and what is written
is read back as they are. A document whose lines give the keys of settings no other values than
theirs is read as theirs where it has the key and as standard where it has not; and their own lines
may stand in any document. -/
theorem settings_read_back [Codec] [LawfulCodec] (processors : Nat) (path : String)
    (s : Settings) :
    (s.render? = none ↔ signedLimit ≤ s.hashMb ∨ signedLimit ≤ s.threads) ∧
    (∀ text, s.render? = some text → text = (s.written.map Prod.snd).flatten ∧
      load processors (.ofText path text) = .ok s) ∧
    (∀ es text, Document es text → (es.map Prod.fst).Nodup → s.Own es →
      load processors (.ofText path text) = .ok (s.selected processors (es.map Prod.fst))) ∧
    (s.hashMb < signedLimit → s.threads < signedLimit → ∀ e own es text, (e, own) ∈ s.written →
      Document es text → Document (e :: es) (own ++ text)) := by
  rw [s.render?_eq]
  refine ⟨?_, ?_, fun es text lines distinct own => own.load lines distinct processors path, ?_⟩
  · split_ifs with fits
    · simp only [false_iff]
      omega
    · simp only [true_iff]
      omega
  · intro text rendered
    split_ifs at rendered with fits
    obtain rfl := Option.some.inj rendered
    have read := s.own_written.load (document_written fits.1 fits.2) s.written_distinct processors path
    rw [s.selected_written] at read
    exact ⟨rfl, read⟩
  · intro hashMb threads e own es text member later
    exact (printed_of_mem hashMb threads _ member).document later

/-- A line of the settings' own, one of another key and one in another spelling; nothing is said about
large pages. -/
theorem settings_read_back_partial :
    ∃ text, text = threadsKey ++ [' ', '=', ' ', '+', '3', ' ', '#', '4', '\n'] ++
        ['"', 'x', '"', '=', 't', 'r', 'u', 'e', '\r', '\n'] ++ line hashMbKey ['6', '4'] ∧
      Document [(threadsKey, .integer 3), (['x'], .boolean true), (hashMbKey, .integer 64)] text ∧
      Own ⟨64, 3, false⟩ [(threadsKey, .integer 3), (['x'], .boolean true), (hashMbKey, .integer 64)] ∧
      load 8 (.ofText "table.toml" text) = .ok ⟨64, 3, true⟩ := by
  have digit : WholeText false ['+'] ['3'] ['3'] := ⟨.plus, .last rfl, by simp⟩
  have three : ValueText (.integer 3) ['+', '3'] := .number (IntegerText.decimal digit) (by decide)
  have first : LineText [(threadsKey, .integer 3)]
      ([] ++ (threadsKey ++ ([' '] ++ '=' :: ([' '] ++ (['+', '3'] ++ ([' '] ++ ['#', '4'])))))) :=
    .entry (by simp [Blank]) (bare_of_mem (by simp)).keyText (by simp [Blank, Reader.isBlank])
      (by simp [Blank, Reader.isBlank]) three (by simp [Blank, Reader.isBlank])
      (.hash (by simp [Reader.isText]))
  have second : LineText [(['x'], .boolean true)]
      ([] ++ (['"', 'x', '"'] ++ ([] ++ '=' :: ([] ++ (['t', 'r', 'u', 'e'] ++ ([] ++ [])))))) :=
    .entry (by simp [Blank]) (.basic (.plain rfl (by decide) (by decide) .nil)) (by simp [Blank])
      (by simp [Blank]) .yes (by simp [Blank]) .absent
  obtain ⟨-, -, read, stands⟩ := settings_read_back 8 "table.toml" ⟨64, 3, false⟩
  have third : Document [(hashMbKey, .integer 64)] (line hashMbKey ['6', '4'] ++ []) :=
    stands (by decide) (by decide) _ _ _ _ List.mem_cons_self document_nil
  have lines := Document.line first .feed (.line second .returned third)
  have own : Own ⟨64, 3, false⟩
      [(threadsKey, .integer 3), (['x'], .boolean true), (hashMbKey, .integer 64)] :=
    ⟨by simp [hashMbKey, threadsKey], by simp [hashMbKey, threadsKey],
      by simp [largePagesKey, hashMbKey, threadsKey]⟩
  refine ⟨_, rfl, lines, own, ?_⟩
  exact read _ _ lines (by decide) own

end Settings

end PositionCache
