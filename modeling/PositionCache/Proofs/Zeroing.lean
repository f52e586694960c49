import Mathlib
import PositionCache.Table.Zeroing

/-! # Clearing reaches every cluster -/

namespace PositionCache.Zeroing

/-! ## One span -/

@[simp]
theorem size_blank (row : Array Cluster) (start count : Nat) :
    (blank row start count).size = row.size := by
  induction count generalizing row start with
  | zero => rfl
  | succ count ih => rw [blank, ih, Array.size_setIfInBounds]

theorem getElem?_blank (row : Array Cluster) (start count i : Nat) :
    (blank row start count)[i]? =
      if start ≤ i ∧ i < start + count then row[i]?.map (fun _ => Cluster.empty) else row[i]? := by
  induction count generalizing row start with
  | zero =>
    rw [blank, if_neg (by omega)]
  | succ count ih =>
    rw [blank, ih, Array.getElem?_setIfInBounds]
    by_cases here : start = i
    · subst here
      rw [if_neg (by omega), if_pos rfl]
      by_cases inside : start < row.size
      · rw [if_pos inside, if_pos (by omega), Array.getElem?_eq_getElem inside, Option.map_some]
      · rw [if_neg inside, if_pos (by omega), Array.getElem?_eq_none (by omega), Option.map_none]
    · rw [if_neg here]
      apply if_congr (by omega) rfl rfl

/-! ## Several spans -/

def Within (i : Nat) (s : Span) : Prop := s.start ≤ i ∧ i < s.start + s.count

theorem blankSpans_cons (row : Array Cluster) (s : Span) (ss : List Span) :
    blankSpans row (s :: ss) = blankSpans (blankSpan row s) ss := rfl

@[simp]
theorem size_blankSpans (row : Array Cluster) (ss : List Span) :
    (blankSpans row ss).size = row.size := by
  induction ss generalizing row with
  | nil => rfl
  | cons s ss ih =>
    rw [blankSpans_cons, ih, blankSpan, size_blank]

theorem blankSpans_of_empty {row : Array Cluster} {i : Nat} (h : row[i]? = some .empty)
    (ss : List Span) : (blankSpans row ss)[i]? = some .empty := by
  induction ss generalizing row with
  | nil => exact h
  | cons s ss ih =>
    rw [blankSpans_cons]
    apply ih
    unfold blankSpan
    rw [getElem?_blank, h]
    exact ite_self (some Cluster.empty)

theorem blankSpans_of_within {row : Array Cluster} {i : Nat} {s : Span} {ss : List Span}
    (member : s ∈ ss) (within : Within i s) (inside : i < row.size) :
    (blankSpans row ss)[i]? = some .empty := by
  induction ss generalizing row with
  | nil => exact absurd member List.not_mem_nil
  | cons r ss ih =>
    rw [blankSpans_cons]
    rcases List.mem_cons.1 member with rfl | later
    · apply blankSpans_of_empty
      obtain ⟨low, high⟩ := within
      rw [blankSpan, getElem?_blank, if_pos ⟨low, high⟩, Array.getElem?_eq_getElem inside,
        Option.map_some]
    · have kept : i < (blankSpan row r).size := by
        unfold blankSpan
        rw [size_blank]
        exact inside
      exact ih later kept

/-! ## The spans of the workers -/

/-- The clusters that make it worth while to share a row among so many workers can be counted in a
word. -/
def Countable (workers : Nat) : Prop := workers * clustersPerWorker < wordLimit

instance (workers : Nat) : Decidable (Countable workers) := inferInstanceAs (Decidable (_ < _))

theorem countable_one : Countable 1 := by decide

theorem spans_eq {workers : Nat} (h : Countable workers) (clusters : Nat) :
    spans clusters workers =
      .ok (if 1 < workers ∧ workers * clustersPerWorker ≤ clusters then shares clusters workers
        else [⟨0, clusters⟩]) := by
  unfold spans
  by_cases one : workers ≤ 1
  · rw [if_pos one, if_neg (by omega)]
  · rw [if_neg one, checkedProduct_eq_ok h]
    simp only [bind, Except.bind]
    by_cases small : clusters < workers * clustersPerWorker
    · rw [if_pos small, if_neg (by omega)]
    · rw [if_neg small, if_pos (by omega)]

theorem spans_of_not_countable {workers : Nat} (h : ¬ Countable workers) (clusters : Nat) :
    spans clusters workers = .error (.overflow .multiply) := by
  have several : ¬ workers ≤ 1 := by
    intro few
    exact h (lt_of_le_of_lt (Nat.mul_le_mul_right _ few) countable_one)
  unfold Countable at h
  rw [spans, if_neg several, checkedProduct, if_neg h]
  rfl

theorem mem_takeWhile_range {p : Nat → Bool} {k n : Nat} (hk : k < n) (h : ∀ j ≤ k, p j = true) :
    k ∈ (List.range n).takeWhile p := by
  obtain ⟨d, rfl⟩ := Nat.exists_eq_add_of_lt hk
  rw [show k + d + 1 = (k + 1) + d by omega, List.range_add, List.takeWhile_append_of_pos]
  · exact List.mem_append_left _ (List.mem_range.2 (Nat.lt_succ_self k))
  · intro j hj
    exact h j (Nat.lt_succ_iff.1 (List.mem_range.1 hj))

/-- The span of worker `i`, if it begins within the row. -/
def share (clusters workers i : Nat) : Span :=
  ⟨i * (clusters ⌈/⌉ workers), min (clusters ⌈/⌉ workers) (clusters - i * (clusters ⌈/⌉ workers))⟩

theorem shares_eq (clusters workers : Nat) :
    shares clusters workers = ((List.range workers).takeWhile fun i =>
      i * (clusters ⌈/⌉ workers) < clusters).map (share clusters workers) := rfl

theorem mem_shares_iff {clusters workers : Nat} {s : Span} :
    s ∈ shares clusters workers ↔
      ∃ i < workers, i * (clusters ⌈/⌉ workers) < clusters ∧ s = share clusters workers i := by
  rw [shares_eq, List.mem_map]
  constructor
  · rintro ⟨i, member, rfl⟩
    have worker : i ∈ List.range workers := (List.takeWhile_sublist _).subset member
    have begins := List.mem_takeWhile_imp member
    exact ⟨i, List.mem_range.1 worker, of_decide_eq_true begins, rfl⟩
  · rintro ⟨i, worker, begins, rfl⟩
    refine ⟨i, mem_takeWhile_range worker ?_, rfl⟩
    intro j le
    exact decide_eq_true ((Nat.mul_le_mul_right _ le).trans_lt begins)

theorem shareLength_pos {clusters workers i : Nat} (hw : 0 < workers) (hi : i < clusters) :
    0 < clusters ⌈/⌉ workers := by
  have reach : clusters ≤ workers * (clusters ⌈/⌉ workers) := le_smul_ceilDiv hw
  exact Nat.pos_of_lt_mul_left (hi.trans_le reach)

theorem shares_cover {clusters workers i : Nat} (hw : 0 < workers) (hi : i < clusters) :
    ∃ s ∈ shares clusters workers, Within i s := by
  have reach : clusters ≤ workers * (clusters ⌈/⌉ workers) := le_smul_ceilDiv hw
  have positive := shareLength_pos hw hi
  have own : i / (clusters ⌈/⌉ workers) * (clusters ⌈/⌉ workers) ≤ i := Nat.div_mul_le_self i _
  have next := Nat.lt_div_mul_add (a := i) positive
  have worker : i / (clusters ⌈/⌉ workers) < workers := by
    rw [Nat.div_lt_iff_lt_mul positive]
    omega
  -- Cluster `i` falls to the worker whose number is `i` divided by the length of a span.
  refine ⟨_, mem_shares_iff.2 ⟨_, worker, by omega, rfl⟩, own, ?_⟩
  simp only [share]
  omega

def Apart (r s : Span) : Prop := ∀ i, Within i r → ¬ Within i s

/-- The spans lie within the row and apart from each other. -/
structure Placed (clusters : Nat) (ss : List Span) : Prop where
  inside : ∀ s ∈ ss, s.start + s.count ≤ clusters
  apart : ss.Pairwise Apart

/-- The spans leave nothing of the row out. -/
structure Cut (clusters : Nat) (ss : List Span) : Prop extends Placed clusters ss where
  cover : ∀ i < clusters, ∃ s ∈ ss, Within i s

theorem share_apart {clusters workers i j : Nat} (before : i < j) :
    Apart (share clusters workers i) (share clusters workers j) := by
  rintro k ⟨-, ends⟩ ⟨begins, -⟩
  have next : (i + 1) * (clusters ⌈/⌉ workers) ≤ j * (clusters ⌈/⌉ workers) :=
    Nat.mul_le_mul_right _ before
  rw [Nat.add_one_mul] at next
  simp only [share] at ends begins
  omega

theorem shares_cut {workers : Nat} (hw : 0 < workers) (clusters : Nat) :
    Cut clusters (shares clusters workers) where
  inside s member := by
    obtain ⟨i, -, begins, rfl⟩ := mem_shares_iff.1 member
    simp only [share]
    omega
  apart := by
    rw [shares_eq, List.pairwise_map]
    exact (List.pairwise_lt_range.sublist (List.takeWhile_sublist _)).imp share_apart
  cover _ := shares_cover hw

theorem whole_cut (clusters : Nat) : Cut clusters [⟨0, clusters⟩] where
  inside s member := by
    rw [List.mem_singleton.1 member, Nat.zero_add]
  apart := List.pairwise_singleton _ _
  cover i inside := ⟨_, List.mem_singleton_self _, i.zero_le, (Nat.zero_add clusters).symm ▸ inside⟩

theorem spans_cut {clusters workers : Nat} {ss : List Span}
    (h : spans clusters workers = .ok ss) : Cut clusters ss := by
  by_cases countable : Countable workers
  · rw [spans_eq countable, Except.ok.injEq] at h
    rw [← h]
    split_ifs with shared
    · exact shares_cut (by omega) clusters
    · exact whole_cut clusters
  · rw [spans_of_not_countable countable] at h
    exact absurd h nofun

theorem eq_replicate_of_empty {row : Array Cluster} {clusters : Nat} (size : row.size = clusters)
    (h : ∀ i < clusters, row[i]? = some .empty) : row = Array.replicate clusters .empty := by
  rw [Array.eq_replicate_iff]
  refine ⟨size, ?_⟩
  intro c member
  obtain ⟨i, found⟩ := Array.mem_iff_getElem?.1 member
  have below : i < clusters := size ▸ (Array.getElem?_eq_some_iff.1 found).1
  exact Option.some.inj (found.symm.trans (h i below))

/-- Whatever the row held, its clearing leaves the empty row. -/
theorem Cut.blankSpans_eq {row : Array Cluster} {ss : List Span} (cut : Cut row.size ss) :
    blankSpans row ss = Array.replicate row.size .empty := by
  apply eq_replicate_of_empty (size_blankSpans row ss)
  intro i inside
  obtain ⟨s, member, within⟩ := cut.cover i inside
  exact blankSpans_of_within member within inside

theorem spans_of_countable {workers : Nat} (h : Countable workers) (row : Array Cluster) :
    ∃ ss, spans row.size workers = .ok ss ∧
      blankSpans row ss = Array.replicate row.size .empty :=
  ⟨_, spans_eq h row.size, (spans_cut (spans_eq h row.size)).blankSpans_eq⟩

end PositionCache.Zeroing
