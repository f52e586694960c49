import PositionCache.Proofs.Life

/-!
# What a write after a miss leaves

A write does not ask whether the slot is in use before it keeps the evaluation of a slot with its tag,
and an empty slot has tag 0 and evaluation 0.
-/

namespace PositionCache

/-- A record without an evaluation is written under tag 0 into an empty slot. -/
def TakesZero (e : Entry) (tag : UInt16) (r : Record) : Prop :=
  tag = 0 ∧ r.eval = .unknown ∧ e.isOccupied = false

instance (e : Entry) (tag : UInt16) (r : Record) : Decidable (TakesZero e tag r) :=
  inferInstanceAs (Decidable (_ ∧ _))

/-- A slot that did not hold the tag keeps nothing of what it had, unless the record takes the
evaluation 0 of an empty slot. -/
theorem Entry.read_overwrite_of_not_holds {e : Entry} (sound : e.Sound) {tag : UInt16}
    (foreign : ¬ e.Holds tag) {r : Record} {g : UInt8} (fits : Entry.Fits r g) :
    (e.overwrite tag r g).read =
      if TakesZero e tag r then { r.narrowed with eval := .zero } else r.narrowed := by
  rw [Entry.read_overwrite fits]
  cases used : e.isOccupied with
  | true =>
    have other : tag ≠ e.tag := fun same => foreign ⟨same.symm, used⟩
    have full : ¬ TakesZero e tag r := by
      rintro ⟨-, -, unused⟩
      exact absurd (unused.symm.trans used) Bool.false_ne_true
    rw [if_neg full, if_neg (fun both => other both.2), if_neg (fun both => other both.2)]
    rfl
  | false =>
    obtain rfl := sound used
    have noMove : (if r.move.isAbsent = true ∧ tag = Entry.empty.tag then Entry.empty.move
        else r.move) = r.move := by
      split_ifs with kept
      · rw [Move.eq_absent kept.1]
        rfl
      · rfl
    have zero : Score.ofNarrow Entry.empty.eval = .zero := by decide
    rw [noMove, zero]
    by_cases takes : TakesZero Entry.empty tag r
    · rw [if_pos takes, if_pos ⟨takes.2.1, takes.1⟩]
      rfl
    · rw [if_neg takes, if_neg (fun both => takes ⟨both.2, both.1, used⟩)]
      rfl

namespace Table

variable {t : Table} {key : UInt64} {p : Probe}

theorem Miss.probe_write (sound : t.Sound) (miss : Miss t key p t) {r : Record} {g : UInt8}
    (fits : Entry.Fits r g) :
    t.write p.writer key r g = (.ok (), t.put p.writer ((t.look p.writer).overwrite (tagOf key) r g)) ∧
      ∃ q, ((t.put p.writer ((t.look p.writer).overwrite (tagOf key) r g)).probe key).1 = .ok q ∧
        q.found = true ∧ q.writer = p.writer ∧
        q.record = ((t.look p.writer).overwrite (tagOf key) r g).read := by
  obtain ⟨written, probed⟩ := miss.leads.probe_write sound fits
  exact ⟨written, _, probed, rfl, rfl, rfl⟩

theorem miss_of_probe (sound : t.Sound) (probed : (t.probe key).1 = .ok p)
    (missed : p.found = false) : Miss t key p t ∧ (t.probe key).2 = t := by
  obtain ⟨q, answer, outcome⟩ := probe_spec sound key
  obtain rfl := Except.ok.inj (answer.symm.trans probed)
  have miss := Miss.of_missed outcome missed
  have same := miss.unchanged
  rw [same] at miss
  exact ⟨miss, same⟩

/-- After a miss a record can be written, and the next probe of the key reads it with its scores
cut to sixteen bits, exactly if it does not take the evaluation 0 of an empty slot. -/
theorem store_after_miss (reachable : t.Reachable) (probed : (t.probe key).1 = .ok p)
    (missed : p.found = false) {r : Record} {g : UInt8} (fits : Entry.Fits r g) :
    ∃ after q, (t.probe key).2.write p.writer key r g = (.ok (), after) ∧
      (after.probe key).1 = .ok q ∧ q.found = true ∧ q.writer = p.writer ∧
      (q.record = r.narrowed ↔ ¬ TakesZero (t.look p.writer) (tagOf key) r) ∧
      (TakesZero (t.look p.writer) (tagOf key) r → q.record = { r.narrowed with eval := .zero }) := by
  have sound := reachable.sound
  obtain ⟨miss, same⟩ := miss_of_probe sound probed missed
  obtain ⟨written, q, answer, found, writer, record⟩ := miss.probe_write sound fits
  have foreign : ¬ (t.look p.writer).Holds (tagOf key) := by
    have absent := miss.absent p.writer.slot
    rwa [← miss.cluster] at absent
  rw [Entry.read_overwrite_of_not_holds (sound.slots _) foreign fits] at record
  rw [same]
  refine ⟨_, q, written, answer, found, writer, ?_, ?_⟩
  · rw [record]
    by_cases takes : TakesZero (t.look p.writer) (tagOf key) r
    · -- The score of no evaluation survives the cut, and it is not 0.
      have unknown : r.narrowed.eval = .unknown := by
        unfold Record.narrowed
        rw [takes.2.1, Score.ofNarrow_unknown]
      rw [if_pos takes]
      refine iff_of_false (fun zero => ?_) (not_not_intro takes)
      have evals : Score.zero = r.narrowed.eval := congrArg Record.eval zero
      rw [unknown] at evals
      exact absurd evals (by decide)
    · rw [if_neg takes]
      exact iff_of_true rfl takes
  · intro takes
    rw [record, if_pos takes]

/-- Two findings without a move, with an evaluation and without one. -/
def evaluated : Record := ⟨.absent, ⟨100⟩, ⟨-12⟩, 5, .lower, true⟩

def unevaluated : Record := { evaluated with eval := .unknown }

theorem store_after_miss_other_tag :
    least.Reachable ∧ (least.probe 5).1 = .ok ⟨false, .empty, ⟨0, 0⟩⟩ ∧ Entry.Fits unevaluated 8 ∧
      ∃ after q, least.write ⟨0, 0⟩ 5 unevaluated 8 = (.ok (), after) ∧
        (after.probe 5).1 = .ok q ∧ q.found = true ∧ q.record = unevaluated := by
  have fits : Entry.Fits unevaluated 8 := by decide
  have probed : least.probe 5 = (.ok ⟨false, .empty, ⟨0, 0⟩⟩, least) := least_probe (by decide)
  have answer := congrArg Prod.fst probed
  obtain ⟨after, q, written, read, found, -, exactly, -⟩ :=
    store_after_miss least_reachable answer rfl fits
  rw [probed] at written
  have other : ¬ TakesZero (least.look ⟨0, 0⟩) (tagOf 5) unevaluated := by
    rintro ⟨zero, -⟩
    exact absurd zero (by decide)
  have narrowed : unevaluated.narrowed = unevaluated := by decide
  exact ⟨least_reachable, answer, fits, after, q, written, read, found,
    (exactly.2 other).trans narrowed⟩

/-- Under tag 0 it is read back as the evaluation 0. -/
theorem missing_evaluation_reads_zero :
    least.Reachable ∧ (least.probe 65536).1 = .ok ⟨false, .empty, ⟨0, 0⟩⟩ ∧
      Entry.Fits unevaluated 0 ∧ unevaluated.narrowed.eval = .unknown ∧
      ∃ after q, least.write ⟨0, 0⟩ 65536 unevaluated 0 = (.ok (), after) ∧
        (after.probe 65536).1 = .ok q ∧ q.record.eval = .zero ∧
        q.record ≠ unevaluated.narrowed := by
  have fits : Entry.Fits unevaluated 0 := by decide
  have probed : least.probe 65536 = (.ok ⟨false, .empty, ⟨0, 0⟩⟩, least) := least_probe (by decide)
  have answer := congrArg Prod.fst probed
  obtain ⟨miss, -⟩ := miss_of_probe least_fresh.sound answer rfl
  obtain ⟨written, q, read, -, -, record⟩ := miss.probe_write least_fresh.sound fits
  have stored : q.record = { unevaluated.narrowed with eval := .zero } := by
    rw [record, least_fresh.blank.look]
    decide
  have zero : q.record.eval = .zero := congrArg Record.eval stored
  refine ⟨least_reachable, answer, fits, by decide, _, q, written, read, zero, ?_⟩
  intro same
  exact absurd (zero.symm.trans (congrArg Record.eval same)) (by decide)

end Table

end PositionCache
