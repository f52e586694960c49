import PositionCache.CommandLine.Stress
import PositionCache.Proofs.Draws
import PositionCache.Proofs.GuardedStore
import PositionCache.Proofs.Rounding

/-!
# Every visit of a stress run writes

No finding is deeper than 40, and one of a position found is no shallower than what was found.
-/

namespace PositionCache

theorem Score.ofNarrow_narrow {s : Score} (low : -32768 ≤ s.raw.toInt) (high : s.raw.toInt < 32768) :
    ofNarrow s.narrow = s := by
  have same : s.raw.toInt16.toInt32 = s.raw := by
    rw [← Int32.toInt_inj, Int16.toInt_toInt32, Int32.toInt_toInt16]
    exact Int.bmod_eq_of_le (by norm_num; omega) (by norm_num; omega)
  exact congrArg Score.mk same

namespace Stress

variable {σ : Type} [RandomSource σ]

/-! ## Findings -/

structure Pretended (r : Record) : Prop where
  depth : (1 : Int) ≤ r.depth ∧ (r.depth : Int) ≤ 40
  bound : r.bound ≠ .none
  isPv : r.isPv = true ↔ r.bound = .exact
  value : -2000 ≤ r.value.raw.toInt ∧ r.value.raw.toInt ≤ 2000
  eval : -1000 ≤ r.eval.raw.toInt ∧ r.eval.raw.toInt ≤ 1000

theorem storable_of_mem {d : Int} (low : 1 ≤ d) (high : d ≤ 40) : Depth.Storable d :=
  Depth.storable_iff.2 ⟨by omega, by omega⟩

theorem Pretended.storable {r : Record} (h : Pretended r) : Depth.Storable r.depth :=
  storable_of_mem h.depth.1 h.depth.2

theorem Pretended.overwrite {r : Record} {g : UInt8} (h : Pretended r) (aligned : Stamp.Aligned g)
    (e : Entry) (tag : UInt16) : Pretended (e.overwrite tag r g).read := by
  have value := h.value
  have eval := h.eval
  have evaluated : r.eval ≠ .unknown := by
    intro unknown
    rw [unknown] at eval
    exact absurd eval (by decide)
  rw [Entry.read_overwrite ⟨h.storable, aligned⟩]
  simp only [evaluated, false_and, if_false, Score.ofNarrow_narrow (s := r.eval) (by omega) (by omega)]
  refine ⟨h.depth, h.bound, h.isPv, ?_, eval⟩
  simp only [Record.narrowed, Score.ofNarrow_narrow (s := r.value) (by omega) (by omega)]
  exact value

theorem drawBound_ne_none (s : σ) : (drawBound s).1 ≠ .none := by
  change boundOf _ ≠ .none
  unfold boundOf
  split_ifs <;> decide

variable [LawfulRandomSource σ]

theorem drawScore_mem {greatest : Int} (low : 0 ≤ greatest) (high : greatest < 2 ^ 31) (s : σ) :
    -greatest ≤ (drawScore greatest s).1.raw.toInt ∧
      (drawScore greatest s).1.raw.toInt ≤ greatest := by
  have drawn := LawfulRandomSource.between_mem (-greatest) greatest s (by omega)
  have raw : (drawScore greatest s).1.raw =
      Int32.ofInt (RandomSource.between (-greatest) greatest s).1 := rfl
  rw [raw, Int32.toInt_ofInt_of_le (by omega) (by omega)]
  exact drawn

theorem drawRecord_pretended {d : Int} (low : 1 ≤ d) (high : d ≤ 40) {bound : Bound}
    (bounded : bound ≠ .none) (s : σ) : Pretended (drawRecord d bound s).1 where
  depth := ⟨low, high⟩
  bound := bounded
  isPv := beq_iff_eq
  value := drawScore_mem (by norm_num) (by norm_num) _
  eval := drawScore_mem (by norm_num) (by norm_num) _

theorem one_deeper {d : Int} (low : 1 ≤ d) (high : d ≤ 40) :
    1 ≤ min (d + 1) 40 ∧ min (d + 1) 40 ≤ 40 ∧ d ≤ min (d + 1) 40 := by
  omega

theorem drawDepth_mem {p : Probe} (record : p.found = true → Pretended p.record) (s : σ) :
    (1 : Int) ≤ (drawDepth p s).1 ∧ ((drawDepth p s).1 : Int) ≤ 40 ∧
      (p.found = true → (p.record.depth : Int) ≤ (drawDepth p s).1) := by
  cases found : p.found with
  | true =>
    obtain ⟨low, high⟩ := (record found).depth
    have deeper : (drawDepth p s).1 = min ((p.record.depth : Int) + 1) 40 := by
      rw [drawDepth, if_pos found]
      rfl
    obtain ⟨one, most, further⟩ := one_deeper low high
    rw [deeper]
    exact ⟨one, most, fun _ => further⟩
  | false =>
    have drawn := LawfulRandomSource.between_mem 1 12 s (by norm_num)
    have same : (drawDepth p s).1 = (RandomSource.between 1 12 s).1 := by
      rw [drawDepth, if_neg (by rw [found]; exact Bool.false_ne_true)]
    rw [same]
    exact ⟨drawn.1, drawn.2.trans (by norm_num), fun other => absurd other Bool.false_ne_true⟩

end Stress

/-! ## Tables of a stress run -/

namespace Table

open Stress

/-- Every slot in use holds what some worker pretended to have found. -/
structure Steady (t : Table) : Prop where
  sound : t.Sound
  pretended : ∀ w, (t.look w).isOccupied = true → Pretended (t.look w).read

variable {t : Table}

theorem Fresh.steady (h : t.Fresh) : t.Steady where
  sound := h.sound
  pretended w used := by
    rw [h.blank.look] at used
    exact absurd used Bool.false_ne_true

theorem Steady.newSearch (h : t.Steady) : t.newSearch.Steady := ⟨h.sound.newSearch, h.pretended⟩

theorem Steady.put (h : t.Steady) {w : Writer} (inside : w.cluster < t.clusters.size) {e : Entry}
    (used : e.isOccupied = true) (pretended : Pretended e.read) : (t.put w e).Steady where
  sound := h.sound.put inside (.of_isOccupied used)
  pretended v := by
    rw [look_put inside]
    split_ifs
    · exact fun _ => pretended
    · exact h.pretended v

theorem Steady.write (h : t.Steady) {w : Writer} (inside : w.cluster < t.clusters.size)
    (key : UInt64) {r : Record} (found : Pretended r) :
    ∃ after, t.write w key r t.generation = (.ok (), after) ∧ after.Steady := by
  have fits : Entry.Fits r t.generation := ⟨found.storable, h.sound.aligned⟩
  refine ⟨_, write_of_fits inside fits key, h.put inside ?_ ?_⟩
  · exact Entry.isOccupied_overwrite found.storable _ _ _
  · exact found.overwrite h.sound.aligned _ _

/-- What the probe of a visit leaves: a slot that takes any finding which is no shallower than what
the probe read. -/
structure Yielding (after : Table) (key : UInt64) (p : Probe) : Prop where
  steady : after.Steady
  inside : p.writer.cluster < after.clusters.size
  record : p.found = true → Pretended p.record
  yields : ∀ {d : Int} (isPv : Bool) (bound : Bound), 1 ≤ d → d ≤ 40 →
    (p.found = true → (p.record.depth : Int) ≤ d) →
      after.shouldOverwrite p.writer key isPv bound d after.generation = .ok true

theorem Steady.probe (h : t.Steady) (key : UInt64) :
    ∃ p after, t.probe key = (.ok p, after) ∧ after.Yielding key p := by
  obtain ⟨p, answered, outcome⟩ := probe_spec h.sound key
  have inside := h.sound.writer_inside outcome
  refine ⟨p, (t.probe key).2, Prod.ext answered rfl, ?_⟩
  -- A slot that was found is of age 0 by now, and one that is given up takes any finding.
  rcases outcome with hit | miss
  · have read := Entry.read_refresh h.sound.aligned (t.look p.writer)
    have found := h.pretended p.writer hit.holds.2
    refine ⟨?_, ?_, fun _ => hit.record ▸ found, ?_⟩
    · rw [hit.refreshed]
      exact h.put inside hit.holds.2 (read.symm ▸ found)
    · rw [hit.refreshed, size_put]
      exact inside
    · intro d isPv bound low high deeper
      have depth := deeper hit.found
      have close : p.record.depth - 4 < d + if isPv then 2 else 0 := by
        unfold Depth at depth ⊢
        split_ifs <;> omega
      rw [hit.shouldOverwrite h.sound (storable_of_mem low high), decide_eq_true (.inr close)]
  · refine ⟨miss.unchanged.symm ▸ h, miss.unchanged.symm ▸ inside, ?_, ?_⟩
    · intro found
      exact absurd (miss.missed.symm.trans found) Bool.false_ne_true
    · intro d isPv bound low high _
      exact miss.shouldOverwrite h.sound (storable_of_mem low high) isPv bound _

end Table

namespace Stress

variable {σ : Type} [RandomSource σ]

/-! ## Statistics -/

/-- So many nodes, each of them with a write. -/
structure Tally.AllWritten (t : Tally) (n : Nat) : Prop where
  nodes : t.nodes = n
  hits : t.hits ≤ n
  writes : t.writes = n

theorem Tally.AllWritten.zero : Tally.zero.AllWritten 0 := ⟨rfl, Nat.le_refl 0, rfl⟩

theorem Tally.AllWritten.add {a b : Tally} {m n : Nat} (ha : a.AllWritten m)
    (hb : b.AllWritten n) : (a.add b).AllWritten (m + n) := by
  obtain ⟨nodes, hits, writes⟩ := ha
  obtain ⟨nodes', hits', writes'⟩ := hb
  constructor
  all_goals
    simp only [Tally.add]
    omega

theorem Visit.allWritten {v : Visit} (wrote : v.wrote = true) : v.tally.AllWritten 1 := by
  constructor
  · rfl
  · simp only [tally]
    split_ifs <;> omega
  · simp only [tally, wrote, if_true]

/-! ## Workers -/

variable [LawfulRandomSource σ]

theorem Worker.step_writes (draw : σ → UInt64 × σ) (visit : Nat) {w : Worker σ}
    (steady : w.table.Steady) :
    ∃ v after, step draw visit w = .ok (v, after) ∧ v.wrote = true ∧ after.table.Steady := by
  obtain ⟨table, source, ring⟩ := w
  obtain ⟨p, probed, answered, yielding⟩ := steady.probe ring[place visit]
  obtain ⟨low, high, deeper⟩ := drawDepth_mem yielding.record (draw source).2
  have yields := yielding.yields ((drawBound (drawDepth p (draw source).2).2).1 == .exact)
    (drawBound (drawDepth p (draw source).2).2).1 low high deeper
  have found := drawRecord_pretended low high (drawBound_ne_none (drawDepth p (draw source).2).2)
    (drawBound (drawDepth p (draw source).2).2).2
  obtain ⟨after, written, kept⟩ := yielding.steady.write yielding.inside ring[place visit] found
  simp only [step, Table.prefetch_ok steady.sound (draw source).1, answered, yields, written]
  exact ⟨_, _, rfl, rfl, kept⟩

theorem Worker.run_writes (draw : σ → UInt64 × σ) (count visit : Nat) {n : Nat} {tally : Tally}
    {w : Worker σ} (all : tally.AllWritten n) (steady : w.table.Steady) :
    ∃ tally' after, run draw count visit tally w = .ok (tally', after) ∧
      tally'.AllWritten (n + count) ∧ after.table.Steady := by
  induction count generalizing visit n tally w with
  | zero => exact ⟨tally, w, rfl, all, steady⟩
  | succ count ih =>
    obtain ⟨v, after, stepped, wrote, kept⟩ := step_writes draw visit steady
    obtain ⟨tally', last, ran, most, still⟩ := ih (visit + 1)
      (all.add (Visit.allWritten wrote)) kept
    rw [Nat.add_assoc, Nat.add_comm 1] at most
    exact ⟨tally', last, by rw [run, stepped]; exact ran, most, still⟩

theorem work_writes (keySpace : UInt64) (nodes : Nat) {t : Table} (steady : t.Steady)
    (source : σ) :
    ∃ tally after, work keySpace nodes t source = .ok (tally, after) ∧ tally.AllWritten nodes ∧
      after.Steady := by
  obtain ⟨tally, w, ran, all, kept⟩ := Worker.run_writes (drawKey keySpace) nodes 0 .zero
    (w := Worker.start (drawKey keySpace) t source) steady
  rw [Nat.zero_add] at all
  exact ⟨tally, w.table, by simp only [work, ran], all, kept⟩

/-! ## Searches -/

theorem workers_write (plan : Plan) (number count worker : Nat) {n : Nat} {tally : Tally} {t : Table}
    (all : tally.AllWritten n) (steady : t.Steady) :
    ∃ tally' after, workers plan number count worker tally t = .ok (tally', after) ∧
      tally'.AllWritten (n + count * plan.nodes) ∧ after.Steady := by
  induction count generalizing worker n tally t with
  | zero => exact ⟨tally, t, rfl, by simpa using all, steady⟩
  | succ count ih =>
    obtain ⟨own, after, worked, wrote, kept⟩ := work_writes plan.keySpace plan.nodes steady
      (Xoshiro.ofSeed (plan.workerSeed number worker))
    obtain ⟨tally', last, ran, most, still⟩ := ih (worker + 1) (all.add wrote) kept
    rw [Nat.add_assoc, Nat.add_comm plan.nodes, ← Nat.succ_mul] at most
    exact ⟨tally', last, by rw [workers, worked]; exact ran, most, still⟩

theorem search_writes (plan : Plan) (number : Nat) {t : Table} (steady : t.Steady) :
    ∃ report after, search plan number t = .ok (report, after) ∧
      report.tally.AllWritten (plan.threads * plan.nodes) ∧ after.Steady := by
  obtain ⟨tally, after, worked, all, kept⟩ := workers_write plan number plan.threads 0 .zero
    steady.newSearch
  obtain ⟨current, -, counted⟩ := Table.hashfull_ok kept.sound
  obtain ⟨recent, -, counted'⟩ := Table.hashfullWithAge_ok kept.sound 7
  rw [Nat.zero_add] at all
  refine ⟨⟨number + 1, tally, current, recent⟩, after, ?_, all, kept⟩
  simp only [search, worked, bind, Except.bind, counted, counted']
  rfl

theorem searches_write (plan : Plan) (count number : Nat) {t : Table} (steady : t.Steady) :
    ∃ after, (searches plan count number t).ending = .ok after ∧ after.Steady ∧
      (searches plan count number t).reports.length = count ∧
      ∀ r ∈ (searches plan count number t).reports,
        r.tally.AllWritten (plan.threads * plan.nodes) := by
  induction count generalizing number t with
  | zero => exact ⟨t, rfl, steady, rfl, List.forall_mem_nil _⟩
  | succ count ih =>
    obtain ⟨report, after, searched, all, kept⟩ := search_writes plan number steady
    obtain ⟨last, ended, still, length, most⟩ := ih (number + 1) kept
    simp only [searches, searched]
    exact ⟨last, ended, still, by simp [length], List.forall_mem_cons.2 ⟨all, most⟩⟩

theorem foldl_allWritten {reports : List Report} {n : Nat}
    (all : ∀ r ∈ reports, r.tally.AllWritten n) {tally : Tally} {m : Nat}
    (before : tally.AllWritten m) :
    ((reports.map (·.tally)).foldl Tally.add tally).AllWritten (m + reports.length * n) := by
  induction reports generalizing tally m with
  | nil => simpa using before
  | cons r later ih =>
    obtain ⟨own, rest⟩ := List.forall_mem_cons.1 all
    have most := ih rest (before.add own)
    rw [Nat.add_assoc, Nat.add_comm n, ← Nat.succ_mul] at most
    exact most

theorem run_writes (plan : Plan) {t : Table} (steady : t.Steady) :
    ∃ after, (run plan t).ending = .ok after ∧ after.Steady ∧
      (total (run plan t).reports).AllWritten (plan.searches * (plan.threads * plan.nodes)) := by
  obtain ⟨after, ended, kept, length, all⟩ := searches_write plan plan.searches 0 steady
  have most := foldl_allWritten all .zero
  rw [Nat.zero_add, length] at most
  exact ⟨after, ended, kept, most⟩

theorem write_rate_mem_summary {tally : Tally} {n : Nat} (all : tally.AllWritten n) (positive : 0 < n)
    (word : n < wordLimit) (t : Table) (hashfull : Nat) :
    "write_rate     100.00%" ∈ CommandLine.Stress.summary t hashfull tally := by
  have rate := Binary64.fixed_percent_self positive word
  have shown : "write_rate     " ++ "100.00" ++ "%" = "write_rate     100.00%" := by decide
  rw [CommandLine.Stress.summary, all.writes, all.nodes, rate, shown]
  simp

/-! ## Any number of searches -/

/-- The tables that searches lead to from one with no history. -/
inductive Searched (σ : Type) [RandomSource σ] : Table → Prop
  | fresh {t : Table} : t.Fresh → Searched σ t
  | begun {t : Table} : Searched σ t → Searched σ t.newSearch
  | worked {t after : Table} {keySpace : UInt64} {nodes : Nat} {source : σ} {tally : Tally} :
      Searched σ t → 0 < keySpace → work keySpace nodes t source = .ok (tally, after) →
      Searched σ after

theorem Searched.steady {t : Table} (h : Searched σ t) : t.Steady := by
  induction h with
  | fresh fresh => exact fresh.steady
  | begun _ ih => exact ih.newSearch
  | @worked t after keySpace nodes source tally _ _ worked ih =>
    obtain ⟨_, _, ran, -, kept⟩ := work_writes keySpace nodes ih source
    rw [worked] at ran
    obtain ⟨-, rfl⟩ := Prod.mk.inj (Except.ok.inj ran)
    exact kept

end Stress

open Stress

/-- However many searches a table went through, its slots in use hold what a worker can pretend to
have found. A worker never faults and writes at each of its visits; so does a run of the program, and
the share of writes it shows is all of them. -/
theorem every_visit_writes {σ : Type} [RandomSource σ] [LawfulRandomSource σ] {t : Table}
    (searched : Searched σ t) :
    (∀ w, (t.look w).isOccupied = true → Pretended (t.look w).read) ∧
      (∀ keySpace nodes (source : σ), 0 < keySpace →
        ∃ tally after, work keySpace nodes t source = .ok (tally, after) ∧ tally.nodes = nodes ∧
          tally.hits ≤ nodes ∧ tally.writes = nodes) ∧
      ∀ plan : Plan, 0 < plan.keySpace →
        ∃ after, (run plan t).ending = .ok after ∧
          (total (run plan t).reports).nodes = plan.searches * (plan.threads * plan.nodes) ∧
          (total (run plan t).reports).hits ≤ (total (run plan t).reports).nodes ∧
          (total (run plan t).reports).writes = (total (run plan t).reports).nodes ∧
          (0 < (total (run plan t).reports).nodes →
            (total (run plan t).reports).nodes < wordLimit → ∀ hashfull,
              "write_rate     100.00%" ∈
                CommandLine.Stress.summary after hashfull (total (run plan t).reports)) := by
  have steady := searched.steady
  refine ⟨steady.pretended, ?_, ?_⟩
  · intro keySpace nodes source _
    obtain ⟨tally, after, worked, all, -⟩ := work_writes keySpace nodes steady source
    exact ⟨tally, after, worked, all.nodes, all.hits, all.writes⟩
  · intro plan _
    obtain ⟨after, ended, -, all⟩ := run_writes plan steady
    have nodes := all.nodes
    refine ⟨after, ended, nodes, nodes ▸ all.hits, all.writes.trans nodes.symm, ?_⟩
    intro positive word hashfull
    rw [nodes] at positive word
    exact write_rate_mem_summary all positive word after hashfull

def shortPlan : Plan where
  threads := 2
  searches := 2
  nodes := 3
  keySpace := 7
  seed := 1

theorem every_visit_writes_seven_positions :
    Searched Xoshiro Table.least.newSearch ∧ 0 < shortPlan.keySpace ∧
      (∃ tally after, work 7 3 Table.least.newSearch (Xoshiro.ofSeed 1) = .ok (tally, after) ∧
        tally.nodes = 3 ∧ tally.writes = 3 ∧ Searched Xoshiro after) ∧
      ∃ after, (run shortPlan Table.least.newSearch).ending = .ok after ∧
        (total (run shortPlan Table.least.newSearch).reports).writes = 12 ∧
        "write_rate     100.00%" ∈ CommandLine.Stress.summary after 1
          (total (run shortPlan Table.least.newSearch).reports) := by
  have searched : Searched Xoshiro Table.least.newSearch := .begun (.fresh Table.least_fresh)
  have positive : 0 < shortPlan.keySpace := by decide
  obtain ⟨-, workers, programs⟩ := every_visit_writes searched
  obtain ⟨tally, after, worked, nodes, -, writes⟩ := workers 7 3 (Xoshiro.ofSeed 1) positive
  obtain ⟨last, ended, total, -, all, shown⟩ := programs shortPlan positive
  have twelve : shortPlan.searches * (shortPlan.threads * shortPlan.nodes) = 12 := by decide
  rw [twelve] at total
  refine ⟨searched, positive,
    ⟨tally, after, worked, nodes, writes, searched.worked positive worked⟩, last,
    ended, all.trans total, ?_⟩
  exact shown (by rw [total]; decide) (by rw [total]; decide) 1

end PositionCache
