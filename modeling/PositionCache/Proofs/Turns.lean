import PositionCache.Table.Layout
import PositionCache.Proofs.Cluster
import PositionCache.Proofs.Zeroing

/-!
# Workers that take turns

The workers that clear a row run at once. Here they take turns in any way, a cluster at a time.
-/

namespace PositionCache.Zeroing

/-- A row, and the spans that its workers have still to clear. -/
structure Work where
  row : Array Cluster
  left : List Span

/-- One of the workers clears the next cluster of its span. -/
inductive Turn : Work → Work → Prop
  | clear (row : Array Cluster) (before : List Span) (start count : Nat) (after : List Span) :
    Turn ⟨row, before ++ ⟨start, count + 1⟩ :: after⟩
      ⟨row.setIfInBounds start .empty, before ++ ⟨start + 1, count⟩ :: after⟩

/-- So many turns lead from one state of the work to the other. -/
inductive Turns (start : Work) : Nat → Work → Prop
  | none : Turns start 0 start
  | next {n : Nat} {v w : Work} (turns : Turns start n v) (turn : Turn v w) : Turns start (n + 1) w

variable {clusters n : Nat} {ss : List Span} {u v w : Work}

/-! ## Counting -/

namespace Work

def remaining (w : Work) : Nat := (w.left.map Span.count).sum

theorem exists_turn (unfinished : 0 < w.remaining) : ∃ v, Turn w v := by
  obtain ⟨row, left⟩ := w
  obtain ⟨_, counted, positive⟩ := List.exists_mem_ne_zero_of_sum_ne_zero unfinished.ne'
  obtain ⟨⟨start, count⟩, member, rfl⟩ := List.mem_map.1 counted
  obtain ⟨rest, rfl⟩ := Nat.exists_eq_succ_of_ne_zero positive
  obtain ⟨before, after, rfl⟩ := List.append_of_mem member
  exact ⟨_, .clear row before start rest after⟩

end Work

theorem Turn.remaining (turn : Turn w v) : w.remaining = v.remaining + 1 := by
  cases turn
  simp only [Work.remaining, List.map_append, List.map_cons, List.sum_append, List.sum_cons]
  omega

theorem Turns.remaining (turns : Turns u n w) : u.remaining = w.remaining + n := by
  induction turns with
  | none => rfl
  | next _ turn ih =>
    rw [ih, turn.remaining]
    omega

theorem Cut.sum_count (cut : Cut clusters ss) : (ss.map Span.count).sum = clusters := by
  -- The spans list each cluster of the row once.
  have distinct : (ss.flatMap fun s => List.range' s.start s.count).Nodup := by
    rw [List.nodup_flatMap]
    refine ⟨fun _ _ => List.nodup_range', cut.apart.imp ?_⟩
    intro r s apart i here there
    rw [List.mem_range'_1] at here there
    exact apart i here there
  have same : (ss.flatMap fun s => List.range' s.start s.count).Perm (List.range clusters) := by
    rw [List.perm_ext_iff_of_nodup distinct List.nodup_range]
    intro i
    simp only [List.mem_flatMap, List.mem_range'_1, List.mem_range]
    constructor
    · rintro ⟨s, member, -, ends⟩
      exact ends.trans_le (cut.inside s member)
    · exact cut.cover i
  simpa [List.length_flatMap] using same.length_eq

/-! ## What every turn keeps -/

/-- The spans that are left are placed, and what is in none of them is cleared. -/
structure Work.Sound (clusters : Nat) (w : Work) : Prop where
  size : w.row.size = clusters
  placed : Placed clusters w.left
  cleared : ∀ i < clusters, (∀ s ∈ w.left, ¬ Within i s) → w.row[i]? = some .empty

theorem Cut.sound (cut : Cut clusters ss) {row : Array Cluster} (size : row.size = clusters) :
    Work.Sound clusters ⟨row, ss⟩ where
  size := size
  placed := cut.toPlaced
  cleared i inside outside := by
    obtain ⟨s, member, within⟩ := cut.cover i inside
    exact absurd within (outside s member)

theorem within_succ_iff {i start count : Nat} :
    Within i ⟨start, count + 1⟩ ↔ start = i ∨ Within i ⟨start + 1, count⟩ := by
  simp only [Within]
  omega

theorem Placed.next {before after : List Span} {start count : Nat}
    (h : Placed clusters (before ++ ⟨start, count + 1⟩ :: after)) :
    Placed clusters (before ++ ⟨start + 1, count⟩ :: after) := by
  obtain ⟨inside, apart⟩ := h
  simp only [List.pairwise_append, List.pairwise_cons, List.forall_mem_append,
    List.forall_mem_cons] at inside apart
  obtain ⟨insideBefore, insideHere, insideAfter⟩ := inside
  obtain ⟨apartBefore, ⟨fromHere, apartAfter⟩, across⟩ := apart
  have smaller {i : Nat} (h : Within i ⟨start + 1, count⟩) : Within i ⟨start, count + 1⟩ :=
    within_succ_iff.2 (.inr h)
  constructor
  · simp only [List.forall_mem_append, List.forall_mem_cons]
    exact ⟨insideBefore, by omega, insideAfter⟩
  · simp only [List.pairwise_append, List.pairwise_cons, List.forall_mem_cons]
    refine ⟨apartBefore, ⟨fun s later i here => fromHere s later i (smaller here), apartAfter⟩, ?_⟩
    intro r earlier
    obtain ⟨toHere, toAfter⟩ := across r earlier
    exact ⟨fun i there here => toHere i there (smaller here), toAfter⟩

theorem Turn.sound (turn : Turn w v) (h : w.Sound clusters) : v.Sound clusters := by
  obtain ⟨row, before, start, count, after⟩ := turn
  obtain ⟨size, placed, cleared⟩ := h
  refine ⟨Array.size_setIfInBounds.trans size, placed.next, ?_⟩
  -- A cluster that is in no span now was in none before, or it is the one of this turn.
  intro i below outside
  rw [Array.getElem?_setIfInBounds]
  split_ifs with here bounded
  · rfl
  · rw [here, size] at bounded
    exact absurd below bounded
  · apply cleared i below
    simp only [List.forall_mem_append, List.forall_mem_cons, within_succ_iff, not_or] at outside ⊢
    obtain ⟨outBefore, outHere, outAfter⟩ := outside
    exact ⟨outBefore, ⟨here, outHere⟩, outAfter⟩

theorem Turns.sound (turns : Turns u n w) (h : u.Sound clusters) : w.Sound clusters := by
  induction turns with
  | none => exact h
  | next _ turn ih => exact turn.sound ih

theorem Work.Sound.row_eq (h : w.Sound clusters) (done : w.remaining = 0) :
    w.row = Array.replicate clusters .empty := by
  apply eq_replicate_of_empty h.size
  intro i inside
  apply h.cleared i inside
  rintro s member ⟨begins, ends⟩
  have nothing : s.count = 0 := List.sum_eq_zero_iff.1 done _ (List.mem_map_of_mem member)
  omega

/-! ## Numbers on the way -/

/-- Every worker's beginning is a word, that of the first worker without a span included. -/
theorem beginning_lt {threads : Nat} (small : clusters < 2 ^ 59) {i : Nat} (worker : i < threads)
    (earlier : ∀ j < i, j * (clusters ⌈/⌉ threads) < clusters) :
    i * (clusters ⌈/⌉ threads) < 2 ^ 64 := by
  have length : clusters ⌈/⌉ threads ≤ clusters := by
    rw [ceilDiv_le_iff_le_mul (by omega)]
    exact Nat.le_mul_of_pos_left clusters (by omega)
  cases i with
  | zero => omega
  | succ i =>
    have before := earlier i (Nat.lt_succ_self i)
    rw [Nat.add_one_mul]
    omega

/-- The row is cut into spans: one for each worker that begins within it, and none of these is empty,
or a single one if it is not worth while to share. No number on the way leaves its word. However the
workers take turns, there are as many turns as clusters, and no two workers ever have a cluster left
in common. In the end the row is what one worker alone makes of it: every slot is all zero. -/
theorem clearing_in_any_order {len threads : Nat} (small : len < 2 ^ 59)
    (countable : threads * 1024 < 2 ^ 64) :
    ∃ ss, spans len threads = .ok ss ∧
      (threads ≤ 1 ∨ len < threads * 1024 → ss = [⟨0, len⟩]) ∧
      (1 < threads ∧ threads * 1024 ≤ len →
        (∀ s, s ∈ ss ↔ ∃ i < threads, i * (len ⌈/⌉ threads) < len ∧
          s = ⟨i * (len ⌈/⌉ threads), min (len ⌈/⌉ threads) (len - i * (len ⌈/⌉ threads))⟩) ∧
        ∀ s ∈ ss, 0 < s.count) ∧
      Cut len ss ∧
      (∀ i < threads, (∀ j < i, j * (len ⌈/⌉ threads) < len) → i * (len ⌈/⌉ threads) < 2 ^ 64) ∧
      (∀ s ∈ ss, s.start ≤ len ∧ (s.start + s.count) * Table.clusterBytes < 2 ^ 64) ∧
      ∀ row : Array Cluster, row.size = len →
        (∀ n w, Turns ⟨row, ss⟩ n w → n ≤ len ∧ (n < len → ∃ v, Turn w v) ∧
          w.left.Pairwise Apart ∧ (n = len → w.row = blank row 0 len)) ∧
        blankSpans row ss = blank row 0 len ∧
        (blank row 0 len).size = len ∧
        ∀ c ∈ blank row 0 len, ∀ s, c.get s = ⟨0, 0, 0, ⟨0⟩, 0, 0⟩ := by
  have counted : Countable threads := countable
  have handed := spans_eq counted len
  have cut := spans_cut handed
  refine ⟨_, handed, ?_, ?_, cut, fun _ => beginning_lt small, ?_, ?_⟩
  · intro alone
    rw [clustersPerWorker, if_neg (by omega)]
  · intro shared
    rw [clustersPerWorker, if_pos shared]
    refine ⟨fun s => mem_shares_iff, ?_⟩
    intro s member
    obtain ⟨i, -, begins, rfl⟩ := mem_shares_iff.1 member
    have length : 0 < len ⌈/⌉ threads := shareLength_pos (by omega) begins
    simp only [share]
    omega
  · intro s member
    have inside := cut.inside s member
    rw [Table.clusterBytes]
    omega
  · rintro row rfl
    have alone : blank row 0 row.size = Array.replicate row.size .empty :=
      (whole_cut row.size).blankSpans_eq
    simp only [alone]
    refine ⟨?_, cut.blankSpans_eq, Array.size_replicate, ?_⟩
    · intro n w turns
      have sound := turns.sound (cut.sound rfl)
      have left : row.size = w.remaining + n := cut.sum_count.symm.trans turns.remaining
      refine ⟨by omega, fun fewer => w.exists_turn (by omega),
        sound.placed.apart, ?_⟩
      intro all
      exact sound.row_eq (by omega)
    · intro c member s
      obtain ⟨-, rfl⟩ := Array.mem_replicate.1 member
      exact Cluster.get_empty s

/-- Spans of 1025 clusters. Three clusters are left for the last worker but one, and the last would
begin beyond the row. -/
theorem clearing_in_any_order_idle_worker :
    2097153 < 2 ^ 59 ∧ 2048 * 1024 < 2 ^ 64 ∧ ∃ ss, spans 2097153 2048 = .ok ss ∧
      Cut 2097153 ss ∧ ⟨2097150, 3⟩ ∈ ss ∧ ∀ s ∈ ss, s.start ≤ 2097150 := by
  have small : 2097153 < 2 ^ 59 := by decide
  have countable : 2048 * 1024 < 2 ^ 64 := by decide
  obtain ⟨ss, handed, -, shared, cut, -⟩ := clearing_in_any_order small countable
  obtain ⟨which, -⟩ := shared (by decide)
  have length : 2097153 ⌈/⌉ 2048 = 1025 := rfl
  simp only [length] at which
  refine ⟨small, countable, ss, handed, cut, (which _).2 ⟨2046, by decide, by decide, rfl⟩, ?_⟩
  intro s member
  obtain ⟨i, -, begins, rfl⟩ := (which s).1 member
  simp only
  omega

end PositionCache.Zeroing
