import PositionCache.CommandLine.Transcript
import PositionCache.Proofs.Refusals
import PositionCache.Proofs.SettingsText

/-!
# Which layer has the last word

The command line before the file, and the file before the standard settings; the last word is checked.
-/

namespace PositionCache

namespace Settings

/-- What a command line names: numbers, and perhaps that there are to be no large pages. -/
def arguments (hashMb? threads? : Option Nat) (noLargePages : Bool) : Overrides where
  hashMb := hashMb?
  threads := threads?
  largePages := if noLargePages then some false else none

/-- Both programs read their command lines as such layers. -/
theorem ofGiven_layer (g : CommandLine.Given) : (CommandLine.TableRequest.ofGiven g).layer =
    arguments (g.number? "hash-mb") (g.number? "init-threads") (g.has "no-large-pages") := rfl

/-- The last word on every setting. -/
def merged (base : Settings) (hashMb? threads? : Option Nat) (noLargePages : Bool) : Settings where
  hashMb := hashMb?.getD base.hashMb
  threads := threads?.getD base.threads
  largePages := base.largePages && !noLargePages

theorem arguments_over (b : Settings) (hashMb? threads? : Option Nat) (noLargePages : Bool) :
    (arguments hashMb? threads? noLargePages).over b = merged b hashMb? threads? noLargePages := by
  cases noLargePages with
  | true => simp [arguments, Overrides.over, merged]
  | false => simp [arguments, Overrides.over, merged]

def checked (s : Settings) : Except SettingsError Settings :=
  if s.hashMb = 0 then .error (.refused .zeroSize)
  else if s.threads = 0 then .error (.refused .noThreads)
  else .ok s

theorem checked_ne_load (s : Settings) (e : LoadError) : s.checked ≠ .error (.load e) := by
  unfold checked
  split_ifs <;> simp

theorem hashMb_of_checked {s : Settings} (h : s.checked = .error (.refused .zeroSize)) :
    s.hashMb = 0 := by
  unfold checked at h
  split_ifs at h with noSize noThreads
  · exact noSize
  · exact absurd h (by simp)

theorem threads_of_checked {s : Settings} (h : s.checked = .error (.refused .noThreads)) :
    s.threads = 0 := by
  unfold checked at h
  split_ifs at h with noSize noThreads
  · exact absurd h (by simp)
  · exact noThreads

theorem valid_of_checked {s t : Settings} (h : s.checked = .ok t) : s = t ∧ t.validate = .ok () := by
  unfold checked at h
  split_ifs at h with noSize noThreads
  obtain rfl := Except.ok.inj h
  exact ⟨rfl, (validate_iff s).2 ⟨noSize, noThreads⟩⟩

/-- The settings below the command line: the file's, if one is named, or the standard ones. -/
def base [Toml.Codec] (processors : Nat) (file? : Option SettingsFile) : Except LoadError Settings :=
  match file? with
  | none => .ok (standard processors)
  | some file => load processors file

section Resolve

variable [Toml.Codec] {processors : Nat} {file? : Option SettingsFile} {hashMb? threads? : Option Nat}
  {noLargePages : Bool} {b : Settings} {e : LoadError}

theorem resolve_of_base (loaded : base processors file? = .ok b) :
    resolve processors file? (arguments hashMb? threads? noLargePages) =
      (merged b hashMb? threads? noLargePages).checked := by
  rw [← arguments_over]
  generalize arguments hashMb? threads? noLargePages = last
  have ended : (do (last.over b).validate.mapError .refused; pure (last.over b) :
      Except SettingsError Settings) = (last.over b).checked := by
    unfold validate checked
    split_ifs <;> rfl
  cases file? with
  | none =>
    obtain rfl := Except.ok.inj loaded
    exact ended
  | some file =>
    have read : load processors file = .ok b := loaded
    rw [resolve, read]
    exact ended

theorem resolve_of_failed (failed : base processors file? = .error e) (last : Overrides) :
    resolve processors file? last = .error (.load e) := by
  cases file? with
  | none => exact absurd failed nofun
  | some file =>
    have read : load processors file = .error e := failed
    rw [resolve, read]
    rfl

theorem base_eq_error_iff :
    base processors file? = .error e ↔ ∃ file, file? = some file ∧ load processors file = .error e := by
  cases file? with
  | none => simp [base]
  | some file => simp [base]

theorem resolve_eq_load_iff :
    resolve processors file? (arguments hashMb? threads? noLargePages) = .error (.load e) ↔
      ∃ file, file? = some file ∧ load processors file = .error e := by
  rw [← base_eq_error_iff]
  cases loaded : base processors file? with
  | error other => simp [resolve_of_failed loaded]
  | ok b => simp [resolve_of_base loaded, checked_ne_load]

theorem resolve_cases (processors : Nat) (file? : Option SettingsFile)
    (hashMb? threads? : Option Nat) (noLargePages : Bool) :
    (∃ e, resolve processors file? (arguments hashMb? threads? noLargePages) = .error (.load e)) ∨
      ∃ b, resolve processors file? (arguments hashMb? threads? noLargePages) =
        (merged b hashMb? threads? noLargePages).checked := by
  cases loaded : base processors file? with
  | error e => exact .inl ⟨e, resolve_of_failed loaded _⟩
  | ok b => exact .inr ⟨b, resolve_of_base loaded⟩

end Resolve

end Settings

namespace Table

variable {m : Machine} {refusal : Refusal}

theorem sizeRefusal_of_someSize {mb : Nat} {largePages : Bool} (someSize : mb ≠ 0)
    (refused : sizeRefusal m mb largePages = some refusal) :
    refusal ≠ .zeroSize ∧ refusal ≠ .noThreads := by
  rw [sizeRefusal, if_neg someSize] at refused
  split_ifs at refused
  all_goals
    obtain rfl := Option.some.inj refused
    simp

theorem refusal_of_valid {s : Settings} (valid : s.validate = .ok ())
    (refused : make m s = .error (.refused refusal)) : refusal ≠ .zeroSize ∧ refusal ≠ .noThreads := by
  have someSize := ((Settings.validate_iff s).1 valid).1
  rw [make_of_valid valid, attempt] at refused
  cases sized : sizeRefusal m s.hashMb s.largePages with
  | none =>
    rw [sized] at refused
    dsimp only at refused
    split_ifs at refused
    exact absurd refused (by simp)
  | some other =>
    rw [sized] at refused
    obtain rfl : other = refusal := Failure.refused.inj (Except.error.inj refused)
    exact sizeRefusal_of_someSize someSize sized

end Table

namespace Settings

/-- Whatever reads the files, a run fails by its settings file exactly if it names one that cannot
be loaded, whatever else it names. Otherwise only the last word on every setting counts: a size of
nothing is refused first, then no workers, and all else passes. So a number of nothing does no harm
below the command line's own number, nothing below saves one on the command line, and what passes is
not refused for either when the table is made. -/
theorem layers_in_order [Toml.Codec] (processors : Nat) (file? : Option SettingsFile)
    (hashMb? threads? : Option Nat) (noLargePages : Bool) :
    let resolved := resolve processors file? (arguments hashMb? threads? noLargePages)
    (∀ e, resolved = .error (.load e) ↔
      ∃ file, file? = some file ∧ load processors file = .error e) ∧
    (∀ b, base processors file? = .ok b →
      let c : Settings := ⟨hashMb?.getD b.hashMb, threads?.getD b.threads, b.largePages && !noLargePages⟩
      resolved =
        if c.hashMb = 0 then .error (.refused .zeroSize)
        else if c.threads = 0 then .error (.refused .noThreads)
        else .ok c) ∧
    (∀ n, n ≠ 0 → (hashMb? = some n → resolved ≠ .error (.refused .zeroSize)) ∧
      (threads? = some n → resolved ≠ .error (.refused .noThreads))) ∧
    (hashMb? = some 0 ∨ threads? = some 0 → ∀ s, resolved ≠ .ok s) ∧
    ∀ s, resolved = .ok s → ∀ m refusal, Table.make m s = .error (.refused refusal) →
      refusal ≠ .zeroSize ∧ refusal ≠ .noThreads := by
  intro resolved
  refine ⟨fun e => resolve_eq_load_iff, fun b loaded => resolve_of_base loaded, ?_⟩
  rcases resolve_cases processors file? hashMb? threads? noLargePages with ⟨e, ended⟩ | ⟨b, ended⟩
  · have failed : resolved = .error (.load e) := ended
    simp [failed]
  · have last : resolved = (merged b hashMb? threads? noLargePages).checked := ended
    rw [last]
    refine ⟨fun n nonzero => ⟨?_, ?_⟩, ?_, ?_⟩
    · rintro rfl refused
      exact nonzero (hashMb_of_checked refused)
    · rintro rfl refused
      exact nonzero (threads_of_checked refused)
    · rintro nothing s passed
      obtain ⟨rfl, valid⟩ := valid_of_checked passed
      obtain ⟨someSize, someThreads⟩ := (validate_iff _).1 valid
      rcases nothing with rfl | rfl
      · exact someSize rfl
      · exact someThreads rfl
    · intro s passed m refusal refused
      exact Table.refusal_of_valid (valid_of_checked passed).2 refused

/-- A size of nothing in a file does no harm where the command line names another, and one on the command
line is not saved by the file; a file that is not there fails the run, and a machine without memory
refuses the settings for its own reason. -/
theorem layers_in_order_overridden :
    ∃ file : SettingsFile, load 8 file = .ok ⟨0, 8, true⟩ ∧
      resolve 8 (some file) (arguments none none true) = .error (.refused .zeroSize) ∧
      resolve 8 (some file) (arguments (some 4) none true) = .ok ⟨4, 8, false⟩ ∧
      (∀ s, resolve 8 (some file) (arguments (some 4) (some 0) true) ≠ .ok s) ∧
      resolve 8 (some ⟨"absent.toml", none⟩) (arguments (some 0) none true) =
        .error (.load (.unreadable "absent.toml")) ∧
      Table.make Table.exhausted ⟨4, 8, false⟩ = .error (.refused (.allocationFailed 4194304)) ∧
      Refusal.allocationFailed 4194304 ≠ .noThreads := by
  have zero : Toml.Printed (hashMbKey, .integer 0) (Toml.line hashMbKey (Toml.decimal 0)) :=
    .integer (bare_of_mem (by simp)) (by decide)
  have lines := zero.document Toml.document_nil
  generalize Toml.line hashMbKey (Toml.decimal 0) ++ [] = text at lines
  have own : Own ⟨0, 8, true⟩ [(hashMbKey, .integer 0)] :=
    ⟨by simp, by simp [hashMbKey, threadsKey], by simp [hashMbKey, largePagesKey]⟩
  have loaded : load 8 (.ofText "table.toml" text) = .ok ⟨0, 8, true⟩ :=
    own.load lines (by simp) 8 "table.toml"
  generalize SettingsFile.ofText "table.toml" text = file at loaded
  obtain ⟨-, unchanged, -⟩ := layers_in_order 8 (some file) none none true
  obtain ⟨-, overridden, -, -, again⟩ := layers_in_order 8 (some file) (some 4) none true
  obtain ⟨-, -, -, unsaved, -⟩ := layers_in_order 8 (some file) (some 4) (some 0) true
  obtain ⟨failed, -⟩ := layers_in_order 8 (some ⟨"absent.toml", none⟩) (some 0) none true
  have passed := overridden _ loaded
  have refused : Table.make Table.exhausted ⟨4, 8, false⟩ =
      .error (.refused (.allocationFailed 4194304)) :=
    (Table.make_of_valid ((validate_iff _).2 ⟨by decide, by decide⟩)).trans rfl
  exact ⟨file, loaded, unchanged _ loaded, passed, unsaved (.inr rfl),
    (failed _).2 ⟨_, rfl, rfl⟩, refused, (again _ passed _ _ refused).2⟩

end Settings

end PositionCache
