import PositionCache.Proofs.Renewal

/-!
# Which refusal comes first

Five things can stand against a table, and they are looked at in one order. Two more stand behind
them in the program, and never come.
-/

namespace PositionCache

theorem Layout.roundUp_isLeast {alignment : Nat} (positive : 0 < alignment) (size : Nat) :
    IsLeast {n | size ≤ n ∧ alignment ∣ n} (roundUp size alignment) := by
  have pages : roundUp size alignment = alignment * (size ⌈/⌉ alignment) := Nat.mul_comm _ _
  rw [pages]
  refine ⟨⟨le_smul_ceilDiv positive, Nat.dvd_mul_right _ _⟩, ?_⟩
  rintro n ⟨holds, count, rfl⟩
  exact Nat.mul_le_mul_left _ ((ceilDiv_le_iff_le_mul positive).2 holds)

namespace Table

variable {m : Machine} {t : Table} {mb count : Nat} {largePages : Bool}

/-! ## The block for a size -/

theorem max_pageBytes (largePages : Bool) :
    max clusterBytes (pageBytes largePages) = pageBytes largePages := by
  cases largePages <;> rfl

def block (mb : Nat) (largePages : Bool) : Layout :=
  ⟨Layout.roundUp (mb * unitBytes) (pageBytes largePages), pageBytes largePages⟩

theorem size_block (mb : Nat) (largePages : Bool) :
    IsLeast {n | mb * unitBytes ≤ n ∧ pageBytes largePages ∣ n} (block mb largePages).size := by
  apply Layout.roundUp_isLeast
  cases largePages <;> decide

theorem ofSize?_of_counted (counted : clusterCountFor mb = .ok count) (largePages : Bool) :
    Layout.ofSize? (count * clusterBytes) (max clusterBytes (pageBytes largePages)) =
      if Layout.greatestSize < (block mb largePages).size then none
      else some (block mb largePages) := by
  rw [max_pageBytes, (bytes_of_counted counted).1]
  rfl

theorem size_block_ne_zero (counted : clusterCountFor mb = .ok count) (largePages : Bool) :
    (block mb largePages).size ≠ 0 := by
  have positive := (bytes_of_counted counted).2.1
  exact (positive.trans_le (size_block mb largePages).1.1).ne'

/-! ## Sizes that are refused -/

/-- What stands against a table of the size, if anything does but its workers. -/
def sizeRefusal (m : Machine) (mb : Nat) (largePages : Bool) : Option Refusal :=
  if mb = 0 then some .zeroSize
  else if 2 ^ 44 ≤ mb then some (.sizeOverflow mb)
  else if Layout.greatestSize < (block mb largePages).size then
    some (.allocationFailed (mb * unitBytes))
  else if m.grants (block mb largePages) then none
  else some (.allocationFailed (block mb largePages).size)

theorem sizeRefusal_of_uncounted {refusal : Refusal} (h : clusterCountFor mb = .error refusal) :
    sizeRefusal m mb largePages = some refusal := by
  rw [clusterCountFor_eq] at h
  unfold sizeRefusal
  split_ifs at h ⊢
  · exact congrArg some (Except.error.inj h)
  · exact congrArg some (Except.error.inj h)

theorem storageFor_of_counted (counted : clusterCountFor mb = .ok count) (m : Machine)
    (largePages : Bool) :
    storageFor m count largePages =
      match sizeRefusal m mb largePages with
      | some refusal => .error refusal
      | none => .ok (block mb largePages) := by
  obtain ⟨bytes, -, word⟩ := bytes_of_counted counted
  obtain ⟨least, less, -⟩ := clusterCountFor_eq_ok_iff.1 counted
  have someSize : mb ≠ 0 := by omega
  rw [storageFor, if_pos (bytes.trans_lt word), reserve, ofSize?_of_counted counted, bytes,
    sizeRefusal, if_neg someSize, if_neg less.not_ge]
  by_cases far : Layout.greatestSize < (block mb largePages).size
  · simp only [if_pos far]
  · simp only [if_neg far, if_neg (size_block_ne_zero counted largePages)]
    split_ifs <;> rfl

/-! ## Making and resizing -/

/-- What comes of settings that name a size and some workers. -/
def attempt (m : Machine) (s : Settings) : Except Failure Table :=
  match sizeRefusal m s.hashMb s.largePages with
  | some refusal => .error (.refused refusal)
  | none => if Zeroing.Countable s.threads then .ok (anew s (32768 * s.hashMb))
    else .error (.stopped (.overflow .multiply))

theorem make_of_valid {s : Settings} (valid : s.validate = .ok ()) : make m s = attempt m s := by
  cases counted : clusterCountFor s.hashMb with
  | error refusal =>
    rw [make_of_uncounted valid counted, attempt, sizeRefusal_of_uncounted counted]
  | ok count =>
    obtain ⟨-, -, rfl⟩ := clusterCountFor_eq_ok_iff.1 counted
    have stored := storageFor_of_counted counted m s.largePages
    unfold attempt
    cases sized : sizeRefusal m s.hashMb s.largePages with
    | some refusal =>
      rw [sized] at stored
      exact make_of_unserved valid counted stored
    | none =>
      rw [sized] at stored
      exact make_of_served valid counted stored

theorem resize_other (m : Machine) (other : clusterCountFor mb ≠ .ok t.clusterCount) :
    t.resize m mb =
      match attempt m ⟨mb, t.initThreads, t.largePages⟩ with
      | .error failure => ⟨t, [], some failure⟩
      | .ok u => ⟨u, [.resized mb u.clusterCount u.largePages], none⟩ := by
  cases counted : clusterCountFor mb with
  | error refusal =>
    rw [resize_of_uncounted counted, attempt, sizeRefusal_of_uncounted counted]
  | ok count =>
    obtain ⟨-, -, rfl⟩ := clusterCountFor_eq_ok_iff.1 counted
    have different : 32768 * mb ≠ t.clusterCount := by
      rintro same
      exact other (same ▸ counted)
    have stored := storageFor_of_counted counted m t.largePages
    unfold attempt
    cases sized : sizeRefusal m mb t.largePages with
    | some refusal =>
      rw [sized] at stored
      exact resize_of_unserved counted different stored
    | none =>
      rw [sized] at stored
      rw [resize_of_served counted different stored]
      split_ifs <;> rfl

/-- A table is made, or the first of five things stands against it: a size of 0, no workers, a size
of 2⁴⁴ units or more, a block of whole pages beyond the greatest one, or a block that the machine does
not grant. Only the last reports the bytes of the block, where the fourth reports those of the size.
A resizing to another number of clusters comes to the same but for the check of the workers, and
changes nothing if it is refused. The bytes always fit a word by the time storage is asked for, and
the block is never empty. -/
theorem refusals_in_order (m : Machine) :
    (∀ s : Settings, make m s =
        if s.hashMb = 0 then .error (.refused .zeroSize)
        else if s.threads = 0 then .error (.refused .noThreads)
        else attempt m s) ∧
      (∀ (t : Table) mb, clusterCountFor mb ≠ .ok t.clusterCount →
        t.resize m mb = match attempt m ⟨mb, t.initThreads, t.largePages⟩ with
          | .error failure => ⟨t, [], some failure⟩
          | .ok u => ⟨u, [.resized mb u.clusterCount u.largePages], none⟩) ∧
      (∀ mb largePages, IsLeast {n | mb * 2 ^ 20 ≤ n ∧ pageBytes largePages ∣ n}
        (block mb largePages).size) ∧
      ∀ mb count, clusterCountFor mb = .ok count → count * clusterBytes < wordLimit ∧
        ∀ largePages layout, Layout.ofSize? (count * clusterBytes)
          (max clusterBytes (pageBytes largePages)) = some layout → layout.size ≠ 0 := by
  refine ⟨?_, fun _ _ => resize_other m, size_block, ?_⟩
  · intro s
    by_cases noSize : s.hashMb = 0
    · rw [if_pos noSize, make, Settings.validate, if_pos noSize]
      rfl
    by_cases noThreads : s.threads = 0
    · rw [if_neg noSize, if_pos noThreads, make, Settings.validate, if_neg noSize, if_pos noThreads]
      rfl
    · rw [if_neg noSize, if_neg noThreads]
      exact make_of_valid ((Settings.validate_iff s).2 ⟨noSize, noThreads⟩)
  · intro mb count counted
    obtain ⟨bytes, -, word⟩ := bytes_of_counted counted
    refine ⟨bytes.trans_lt word, ?_⟩
    intro largePages layout made
    rw [ofSize?_of_counted counted] at made
    split_ifs at made
    obtain rfl := Option.some.inj made
    exact size_block_ne_zero counted largePages

def exhausted : Machine where
  processors := 1
  grants _ := false

theorem refusals_in_order_exhausted :
    make exhausted ⟨0, 0, true⟩ = .error (.refused .zeroSize) ∧
      make exhausted ⟨17592186044416, 1, true⟩ =
        .error (.refused (.sizeOverflow 17592186044416)) ∧
      make exhausted ⟨8796093022207, 1, true⟩ =
        .error (.refused (.allocationFailed 9223372036853727232)) ∧
      make exhausted ⟨3, 1, true⟩ = .error (.refused (.allocationFailed 4194304)) ∧
      clusterCountFor 3 ≠ .ok oneFinding.clusterCount ∧
      oneFinding.resize exhausted 3 =
        ⟨oneFinding, [], some (.refused (.allocationFailed 3145728))⟩ := by
  obtain ⟨made, resized, -⟩ := refusals_in_order exhausted
  have other : clusterCountFor 3 ≠ .ok oneFinding.clusterCount := by decide
  exact ⟨made _, made _, made _, made _, other, resized _ _ other⟩

end Table

end PositionCache
