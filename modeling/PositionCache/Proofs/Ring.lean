import PositionCache.Proofs.Faults
import PositionCache.Proofs.Keys

/-!
# Keys wait for four visits

The ring holds the keys that were asked for and not probed yet, the one that waits longest first.
-/

namespace PositionCache

namespace Stress

variable {σ : Type} [RandomSource σ]

/-! ## Positions drawn -/

/-- A source that records the positions that are drawn from it, the oldest first. -/
structure Recorded (σ : Type) where
  source : σ
  positions : List UInt64

namespace Recorded

def start (source : σ) : Recorded σ := ⟨source, []⟩

instance : RandomSource (Recorded σ) where
  word r :=
    let (word, source) := RandomSource.word r.source
    (word, { r with source })
  below bound r :=
    let (position, source) := RandomSource.below bound r.source
    (position, ⟨source, r.positions ++ [position]⟩)
  between least greatest r :=
    let (n, source) := RandomSource.between least greatest r.source
    (n, { r with source })

instance [LawfulRandomSource σ] : LawfulRandomSource (Recorded σ) where
  below_lt bound r := LawfulRandomSource.below_lt bound r.source
  between_mem least greatest r := LawfulRandomSource.between_mem least greatest r.source

/-! What a visit draws beside its key is drawn from the source, and is no position. -/

theorem drawDepth_eq (p : Probe) (r : Recorded σ) :
    drawDepth p r = ((drawDepth p r.source).1, ⟨(drawDepth p r.source).2, r.positions⟩) := by
  unfold drawDepth
  split_ifs <;> rfl

theorem drawBound_eq (r : Recorded σ) :
    drawBound r = ((drawBound r.source).1, ⟨(drawBound r.source).2, r.positions⟩) := rfl

theorem drawMove_eq (bound : Bound) (r : Recorded σ) :
    drawMove bound r = ((drawMove bound r.source).1, ⟨(drawMove bound r.source).2, r.positions⟩) := by
  unfold drawMove
  split_ifs <;> rfl

theorem drawRecord_eq (depth : Depth) (bound : Bound) (r : Recorded σ) :
    drawRecord depth bound r =
      ((drawRecord depth bound r.source).1, ⟨(drawRecord depth bound r.source).2, r.positions⟩) := by
  simp only [drawRecord, drawMove_eq bound r]
  rfl

/-- A way to draw keys of a key space from a source, and the same with the positions recorded. -/
structure Records (keySpace : UInt64) (draw : σ → UInt64 × σ)
    (recording : Recorded σ → UInt64 × Recorded σ) : Prop where
  source r : draw r.source = ((recording r).1, (recording r).2.source)
  position r : ∃ position < keySpace, (recording r).1 = scramble position ∧
    (recording r).2.positions = r.positions ++ [position]

theorem records_drawKey [LawfulRandomSource σ] {keySpace : UInt64} (positive : 0 < keySpace) :
    Records keySpace (drawKey keySpace : σ → UInt64 × σ) (drawKey keySpace) where
  source _ := rfl
  position r := ⟨_, LawfulRandomSource.below_lt keySpace r.source positive, rfl, rfl⟩

end Recorded

open Recorded (Records)

/-! ## Keys that wait -/

/-- The keys of the ring in the order of the visits that probe them, from a given visit on. -/
def waiting (ring : Ring) (visit : Nat) : List UInt64 :=
  [ring.get (place visit), ring.get (place (visit + 1)), ring.get (place (visit + 2)),
    ring.get (place (visit + 3))]

theorem get_set_place (ring : Ring) (visit later : Nat) (next : UInt64) :
    (ring.set (place visit) next (place visit).isLt).get (place later) =
      if place visit = place later then next else ring.get (place later) := by
  simp only [Vector.get_eq_getElem, Vector.getElem_set, Fin.ext_iff]

theorem place_ne (visit ahead : Nat) (positive : 0 < ahead) (few : ahead < 4) :
    place visit ≠ place (visit + ahead) := by
  intro same
  have mod : visit % 4 = (visit + ahead) % 4 := congrArg Fin.val same
  omega

theorem place_four (visit : Nat) : place (visit + 4) = place visit :=
  Fin.ext (Nat.add_mod_right visit 4)

/-- The key that waits longest makes room for the newest one. -/
theorem waiting_set (ring : Ring) (visit : Nat) (next : UInt64) :
    ring.get (place visit) :: waiting (ring.set (place visit) next (place visit).isLt) (visit + 1) =
      waiting ring visit ++ [next] := by
  have one := place_ne visit 1 (by decide) (by decide)
  have two := place_ne visit 2 (by decide) (by decide)
  have three := place_ne visit 3 (by decide) (by decide)
  have four := place_four visit
  simp only [waiting, Nat.add_assoc, Nat.reduceAdd, get_set_place, one, two, three, four,
    if_true, if_false, List.cons_append, List.nil_append]

/-! ## One visit -/

section

variable {keySpace : UInt64} {draw : σ → UInt64 × σ}
  {recording : Recorded σ → UInt64 × Recorded σ}

namespace Worker

/-- What a visit does to the ring and to the positions drawn, whatever the table answers. -/
structure Turned (keySpace : UInt64) (visit : Nat) (w : Worker (Recorded σ)) (v : Visit)
    (after : Worker (Recorded σ)) : Prop where
  drawn : ∃ position < keySpace, v.fetched = scramble position ∧
    after.source.positions = w.source.positions ++ [position]
  turned : v.probed :: waiting after.ring (visit + 1) = waiting w.ring visit ++ [v.fetched]

theorem step_turned (records : Records keySpace draw recording) {visit : Nat}
    {w after : Worker (Recorded σ)} {v : Visit}
    (stepped : step recording visit w = .ok (v, after)) : Turned keySpace visit w v after := by
  obtain ⟨table, source, ring⟩ := w
  obtain ⟨position, less, key, recorded⟩ := records.position source
  have turned := waiting_set ring visit (recording source).1
  simp only [step, Recorded.drawDepth_eq, Recorded.drawBound_eq, Recorded.drawRecord_eq] at stepped
  split at stepped
  · cases stepped
  split at stepped
  · cases stepped
  split at stepped
  · cases stepped
  · cases stepped
    exact ⟨⟨position, less, key, recorded⟩, turned⟩
  · split at stepped
    · cases stepped
    · cases stepped
      exact ⟨⟨position, less, key, recorded⟩, turned⟩

/-- The calls of a visit, from the table that it meets to the one that it leaves: they ask for the
keys that the visit names and tell what it says. -/
structure Calls (t : Table) (v : Visit) (after : Table) : Prop where
  fetched : t.prefetch v.fetched = .ok ()
  probed : ∃ p probed, t.probe v.probed = (.ok p, probed) ∧ p.found = v.found ∧
    if v.wrote then ∃ r, probed.write p.writer v.probed r probed.generation = (.ok (), after)
    else after = probed

theorem step_calls {draw : σ → UInt64 × σ} {visit : Nat} {w after : Worker σ} {v : Visit}
    (stepped : step draw visit w = .ok (v, after)) : Calls w.table v after.table := by
  obtain ⟨table, source, ring⟩ := w
  simp only [step] at stepped
  split at stepped
  · cases stepped
  rename_i fetched
  split at stepped
  · cases stepped
  rename_i p probed answered
  split at stepped
  · cases stepped
  · cases stepped
    exact ⟨fetched, p, probed, answered, rfl, rfl⟩
  · split at stepped
    · cases stepped
    · rename_i written
      cases stepped
      exact ⟨fetched, p, probed, answered, rfl, _, written⟩

def unrecorded (w : Worker (Recorded σ)) : Worker σ := ⟨w.table, w.source.source, w.ring⟩

theorem step_unrecorded (records : Records keySpace draw recording) {visit : Nat}
    {w after : Worker (Recorded σ)} {v : Visit}
    (stepped : step recording visit w = .ok (v, after)) :
    step draw visit w.unrecorded = .ok (v, after.unrecorded) := by
  obtain ⟨table, source, ring⟩ := w
  simp only [step, Recorded.drawDepth_eq, Recorded.drawBound_eq, Recorded.drawRecord_eq] at stepped
  simp only [step, unrecorded, records.source]
  split at stepped
  · cases stepped
  split at stepped
  · cases stepped
  rename_i probed
  simp only [probed]
  split at stepped
  · cases stepped
  · rename_i advised
    cases stepped
    simp only [advised]
  · rename_i advised
    split at stepped
    · cases stepped
    · rename_i written
      cases stepped
      simp only [advised, written]

end Worker

end

/-! ## Any number of visits -/

namespace Worker

/-- So many visits from a given one on. Before each of them the others do what they do to the
table. -/
def visits (draw : σ → UInt64 × σ) (others : Nat → Table → Table) :
    Nat → Nat → Worker σ → Except Fault (List Visit × Worker σ)
  | 0, _, w => .ok ([], w)
  | count + 1, visit, w =>
    match step draw visit { w with table := others visit w.table } with
    | .error fault => .error fault
    | .ok (v, w) =>
      match visits draw others count (visit + 1) w with
      | .error fault => .error fault
      | .ok (later, w) => .ok (v :: later, w)

theorem run_eq_visits (draw : σ → UInt64 × σ) (count visit : Nat) (tally : Tally) (w : Worker σ) :
    run draw count visit tally w = (visits draw (fun _ t => t) count visit w).map
      fun (vs, after) => (vs.foldl (fun sum v => sum.add v.tally) tally, after) := by
  induction count generalizing visit tally w with
  | zero => rfl
  | succ count ih =>
    rw [run, visits]
    cases stepped : step draw visit w with
    | error fault => rfl
    | ok outcome =>
      obtain ⟨v, after⟩ := outcome
      simp only [ih]
      cases visits draw (fun _ t => t) count (visit + 1) after with
      | error fault => rfl
      | ok later => rfl

section

variable {keySpace : UInt64} {draw : σ → UInt64 × σ}
  {recording : Recorded σ → UInt64 × Recorded σ} {others : Nat → Table → Table}

theorem visits_succ {count visit : Nat} {w after : Worker σ} {vs : List Visit} :
    visits draw others (count + 1) visit w = .ok (vs, after) ↔
      ∃ v later mid, vs = v :: later ∧
        step draw visit { w with table := others visit w.table } = .ok (v, mid) ∧
        visits draw others count (visit + 1) mid = .ok (later, after) := by
  rw [visits]
  constructor
  · intro visited
    split at visited
    · cases visited
    split at visited
    · cases visited
    · cases visited
      exact ⟨_, _, _, rfl, ‹_›, ‹_›⟩
  · rintro ⟨v, later, mid, rfl, stepped, visited⟩
    simp only [stepped, visited]

theorem visits_split {first second visit : Nat} {w after : Worker σ} {vs : List Visit}
    (visited : visits draw others (first + second) visit w = .ok (vs, after)) :
    ∃ mid, visits draw others first visit w = .ok (vs.take first, mid) ∧
      visits draw others second (visit + first) mid = .ok (vs.drop first, after) := by
  induction first generalizing visit w vs with
  | zero =>
    rw [Nat.zero_add] at visited
    exact ⟨w, rfl, visited⟩
  | succ first ih =>
    rw [Nat.succ_add] at visited
    obtain ⟨v, later, mid, rfl, stepped, rest⟩ := visits_succ.1 visited
    obtain ⟨point, before, behind⟩ := ih rest
    refine ⟨point, visits_succ.2 ⟨v, _, mid, rfl, stepped, before⟩, ?_⟩
    rw [Nat.add_right_comm] at behind
    exact behind

/-- Each visit makes its calls on the table that the others made of what the visits before it left. -/
theorem visits_calls {count visit : Nat} {w after : Worker σ} {vs : List Visit}
    (visited : visits draw others count visit w = .ok (vs, after)) {n : Nat} {v : Visit}
    (here : vs[n]? = some v) :
    ∃ mid next, visits draw others n visit w = .ok (vs.take n, mid) ∧
      visits draw others (n + 1) visit w = .ok (vs.take (n + 1), next) ∧
      Calls (others (visit + n) mid.table) v next.table := by
  -- On the number of visits. Behind the first one, visit `n` is number `n - 1`.
  induction count generalizing visit w vs n with
  | zero =>
    cases visited
    cases here
  | succ count ih =>
    obtain ⟨first, later, second, rfl, stepped, rest⟩ := visits_succ.1 visited
    cases n with
    | zero =>
      cases here
      exact ⟨w, second, rfl, visits_succ.2 ⟨v, [], second, rfl, stepped, rfl⟩, step_calls stepped⟩
    | succ n =>
      obtain ⟨mid, next, before, upTo, calls⟩ := ih rest here
      rw [Nat.add_right_comm] at calls
      exact ⟨mid, next, visits_succ.2 ⟨first, _, second, rfl, stepped, before⟩,
        visits_succ.2 ⟨first, _, second, rfl, stepped, upTo⟩, calls⟩

theorem visits_unrecorded (records : Records keySpace draw recording) {count visit : Nat}
    {w after : Worker (Recorded σ)} {vs : List Visit}
    (visited : visits recording others count visit w = .ok (vs, after)) :
    visits draw others count visit w.unrecorded = .ok (vs, after.unrecorded) := by
  induction count generalizing visit w vs with
  | zero =>
    cases visited
    rfl
  | succ count ih =>
    obtain ⟨v, later, mid, rfl, stepped, rest⟩ := visits_succ.1 visited
    exact visits_succ.2 ⟨v, later, mid.unrecorded, rfl, step_unrecorded records stepped, ih rest⟩

structure Passed (keySpace : UInt64) (visit : Nat) (w : Worker (Recorded σ)) (vs : List Visit)
    (after : Worker (Recorded σ)) : Prop where
  drawn : ∃ positions, (∀ p ∈ positions, p < keySpace) ∧
    vs.map Visit.fetched = positions.map scramble ∧
    after.source.positions = w.source.positions ++ positions
  passed : vs.map Visit.probed ++ waiting after.ring (visit + vs.length) =
    waiting w.ring visit ++ vs.map Visit.fetched

theorem visits_passed (records : Records keySpace draw recording) {count visit : Nat}
    {w after : Worker (Recorded σ)} {vs : List Visit}
    (visited : visits recording others count visit w = .ok (vs, after)) :
    vs.length = count ∧ Passed keySpace visit w vs after := by
  induction count generalizing visit w vs with
  | zero =>
    cases visited
    exact ⟨rfl, ⟨[], List.forall_mem_nil _, rfl, by simp⟩, by simp⟩
  | succ count ih =>
    obtain ⟨v, later, mid, rfl, stepped, rest⟩ := visits_succ.1 visited
    obtain ⟨⟨position, less, fetched, one⟩, turned⟩ := step_turned records stepped
    obtain ⟨length, ⟨positions, below, fetches, more⟩, passed⟩ := ih rest
    refine ⟨congrArg (· + 1) length, ⟨position :: positions, ?_, ?_, ?_⟩, ?_⟩
    · exact List.forall_mem_cons.2 ⟨less, below⟩
    · rw [List.map_cons, List.map_cons, fetched, fetches]
    · rw [more, one, List.append_assoc]
      rfl
    · calc
        (v :: later).map Visit.probed ++ waiting after.ring (visit + (v :: later).length)
        _ = v.probed :: (later.map Visit.probed ++
              waiting after.ring (visit + 1 + later.length)) := by
            rw [List.map_cons, List.cons_append, List.length_cons, Nat.add_assoc visit 1,
              Nat.add_comm 1]
        _ = (v.probed :: waiting mid.ring (visit + 1)) ++ later.map Visit.fetched := by
            rw [passed, List.cons_append]
        _ = waiting w.ring visit ++ (v :: later).map Visit.fetched := by
            rw [turned, List.append_assoc]
            rfl

end

end Worker

/-! ## From the first visit on -/

section

variable {keySpace : UInt64} {draw : σ → UInt64 × σ}
  {recording : Recorded σ → UInt64 × Recorded σ}

omit [RandomSource σ] in
theorem Worker.start_waiting (records : Records keySpace draw recording) (t : Table) (source : σ) :
    ∃ positions, positions.length = 4 ∧ (∀ p ∈ positions, p < keySpace) ∧
      (start recording t (Recorded.start source)).source.positions = positions ∧
      waiting (start recording t (Recorded.start source)).ring 0 = positions.map scramble := by
  obtain ⟨a, lessA, keyA, drawnA⟩ := records.position (Recorded.start source)
  obtain ⟨b, lessB, keyB, drawnB⟩ := records.position (recording (Recorded.start source)).2
  obtain ⟨c, lessC, keyC, drawnC⟩ :=
    records.position (recording (recording (Recorded.start source)).2).2
  obtain ⟨d, lessD, keyD, drawnD⟩ :=
    records.position (recording (recording (recording (Recorded.start source)).2).2).2
  refine ⟨[a, b, c, d], rfl, by simp [lessA, lessB, lessC, lessD], ?_, ?_⟩
  · simp only [start, drawRing, drawnD, drawnC, drawnB, drawnA]
    rfl
  · rw [List.map_cons, List.map_cons, List.map_cons, List.map_cons, ← keyA, ← keyB, ← keyC, ← keyD]
    rfl

omit [RandomSource σ] in
theorem Worker.start_unrecorded (records : Records keySpace draw recording) (t : Table)
    (source : σ) :
    (start recording t (Recorded.start source)).unrecorded = start draw t source := by
  have first : draw source = _ := records.source (Recorded.start source)
  simp only [unrecorded, start, drawRing, first, records.source]

/-- Visits that probe keys in the order in which their positions are drawn. -/
structure InTurn (positions : List UInt64) (vs : List Visit) (ring : Ring) : Prop where
  drawn : positions.length = vs.length + 4
  probed : vs.map Visit.probed = (positions.map scramble).take vs.length
  fetched : vs.map Visit.fetched = (positions.map scramble).drop 4
  left : waiting ring vs.length = (positions.map scramble).drop vs.length

theorem Worker.visits_inTurn (records : Records keySpace draw recording)
    {others : Nat → Table → Table} {t : Table} {source : σ} {count : Nat} {vs : List Visit}
    {after : Worker (Recorded σ)}
    (visited : visits recording others count 0 (start recording t (Recorded.start source)) =
      .ok (vs, after)) :
    vs.length = count ∧ (∀ p ∈ after.source.positions, p < keySpace) ∧
      InTurn after.source.positions vs after.ring := by
  obtain ⟨first, four, begun, drawn, ahead⟩ := start_waiting records t source
  obtain ⟨length, ⟨later, below, fetched, more⟩, passed⟩ := visits_passed records visited
  rw [drawn] at more
  rw [ahead, Nat.zero_add] at passed
  have lengths : later.length = vs.length := by
    rw [← List.length_map (f := scramble), ← fetched, List.length_map]
  have keys : after.source.positions.map scramble = first.map scramble ++ vs.map Visit.fetched := by
    rw [more, List.map_append, fetched]
  refine ⟨length, ?_, ⟨?_, ?_, ?_, ?_⟩⟩
  · rw [more]
    exact List.forall_mem_append.2 ⟨begun, below⟩
  · rw [more, List.length_append, four, lengths, Nat.add_comm]
  · rw [keys, ← passed, List.take_left' (List.length_map _)]
  · rw [keys, List.drop_left' (by rw [List.length_map, four])]
  · rw [keys, ← passed, List.drop_left' (List.length_map _)]

theorem Worker.visits_take (records : Records keySpace draw recording)
    {others : Nat → Table → Table} {t : Table} {source : σ} {count : Nat} {vs : List Visit}
    {after : Worker (Recorded σ)}
    (visited : visits recording others count 0 (start recording t (Recorded.start source)) =
      .ok (vs, after)) {n : Nat} (fewer : n ≤ count) :
    ∃ mid, visits recording others n 0 (start recording t (Recorded.start source)) =
        .ok (vs.take n, mid) ∧
      mid.source.positions = after.source.positions.take (n + 4) := by
  obtain ⟨later, rfl⟩ := Nat.exists_eq_add_of_le fewer
  obtain ⟨mid, begun, ended⟩ := visits_split visited
  obtain ⟨length, -, turns⟩ := visits_inTurn records begun
  obtain ⟨-, ⟨positions, -, -, more⟩, -⟩ := visits_passed records ended
  refine ⟨mid, begun, ?_⟩
  rw [more, List.take_left' (by rw [turns.drawn, length])]

end

theorem work_eq_visits (keySpace : UInt64) (nodes : Nat) (t : Table) (source : σ) :
    work keySpace nodes t source =
      (Worker.visits (drawKey keySpace) (fun _ u => u) nodes 0
        (Worker.start (drawKey keySpace) t source)).map
        fun (vs, after) => (vs.foldl (fun sum v => sum.add v.tally) .zero, after.table) := by
  simp only [work, Worker.run_eq_visits]
  cases Worker.visits (drawKey keySpace) (fun _ u => u) nodes 0
    (Worker.start (drawKey keySpace) t source) with
  | error fault => rfl
  | ok outcome => rfl

namespace InTurn

variable {positions : List UInt64} {vs : List Visit} {ring : Ring} {n : Nat} {v : Visit}

theorem probed_at (h : InTurn positions vs ring) (visited : vs[n]? = some v) :
    positions[n]?.map scramble = some v.probed := by
  have inside : n < vs.length := (List.getElem?_eq_some_iff.1 visited).1
  have here := congrArg (·[n]?) h.probed
  simp only [List.getElem?_map, List.getElem?_take_of_lt inside, visited] at here
  exact here.symm

theorem fetched_at (h : InTurn positions vs ring) (visited : vs[n]? = some v) :
    positions[n + 4]?.map scramble = some v.fetched := by
  have here := congrArg (·[n]?) h.fetched
  simp only [List.getElem?_map, List.getElem?_drop, visited] at here
  rw [Nat.add_comm]
  exact here.symm

theorem fetched_four_before (h : InTurn positions vs ring) (late : 4 ≤ n)
    (visited : vs[n]? = some v) : ∃ u, vs[n - 4]? = some u ∧ u.fetched = v.probed := by
  have inside : n < vs.length := (List.getElem?_eq_some_iff.1 visited).1
  obtain ⟨u, before⟩ : ∃ u, vs[n - 4]? = some u := ⟨_, List.getElem?_eq_getElem (by omega)⟩
  have fetched := h.fetched_at before
  rw [Nat.sub_add_cancel late, h.probed_at visited] at fetched
  exact ⟨u, before, (Option.some.inj fetched).symm⟩

theorem draw_unique (distinct : positions.Nodup) {i j : Nat} {key : UInt64}
    (first : positions[i]?.map scramble = some key)
    (second : positions[j]?.map scramble = some key) : i = j := by
  obtain ⟨p, here, rfl⟩ := Option.map_eq_some_iff.1 first
  obtain ⟨q, there, same⟩ := Option.map_eq_some_iff.1 second
  obtain rfl := scramble_injective same
  have inside : i < positions.length := (List.getElem?_eq_some_iff.1 here).1
  exact (List.getElem?_inj inside distinct).1 (here.trans there.symm)

theorem once (h : InTurn positions vs ring) (distinct : positions.Nodup) (visited : vs[n]? = some v) :
    (∀ m u, vs[m]? = some u → (u.fetched = v.probed ↔ m + 4 = n) ∧ (u.probed = v.probed → m = n)) ∧
      v.probed ∉ waiting ring vs.length := by
  have probed := h.probed_at visited
  refine ⟨fun m u other => ⟨⟨?_, ?_⟩, ?_⟩, ?_⟩
  · intro same
    exact draw_unique distinct (h.fetched_at other) (same ▸ probed)
  · rintro rfl
    exact Option.some.inj ((h.fetched_at other).symm.trans probed)
  · intro same
    exact draw_unique distinct (h.probed_at other) (same ▸ probed)
  · intro left
    obtain ⟨i, there⟩ := List.mem_iff_getElem?.1 left
    rw [h.left, List.getElem?_drop, List.getElem?_map] at there
    have inside : n < vs.length := (List.getElem?_eq_some_iff.1 visited).1
    have same := draw_unique distinct there probed
    omega

end InTurn

/-! ## Sound tables -/

variable [LawfulRandomSource σ]

theorem drawDepth_storable {p : Probe} (deep : p.found = true → (-7 : Int) < p.record.depth) (s : σ) :
    Depth.Storable (drawDepth p s).1 := by
  cases found : p.found with
  | true =>
    have least := deep found
    have deeper : (drawDepth p s).1 = min ((p.record.depth : Int) + 1) 40 := by
      rw [drawDepth, if_pos found]
      rfl
    rw [deeper, Depth.storable_iff]
    omega
  | false =>
    have drawn := LawfulRandomSource.between_mem 1 12 s (by norm_num)
    have same : (drawDepth p s).1 = (RandomSource.between 1 12 s).1 := by
      rw [drawDepth, if_neg (by rw [found]; exact Bool.false_ne_true)]
    rw [same, Depth.storable_iff]
    omega

theorem exists_probe {t : Table} (sound : t.Sound) (key : UInt64) :
    ∃ p probed, t.probe key = (.ok p, probed) ∧ probed.Sound ∧
      p.writer.cluster < probed.clusters.size ∧
      (p.found = true → (-7 : Int) < p.record.depth) := by
  obtain ⟨p, answered, outcome⟩ := Table.probe_spec sound key
  obtain ⟨after, leads⟩ := sound.after_probe outcome
  refine ⟨p, (t.probe key).2, Prod.ext answered rfl, after, leads.inside after, ?_⟩
  intro found
  have hit := Table.Hit.of_found outcome found
  rw [hit.record]
  exact Entry.depth_of_occupied hit.holds.2

theorem Worker.step_ok (draw : σ → UInt64 × σ) (visit : Nat) {w : Worker σ}
    (sound : w.table.Sound) :
    ∃ v after, step draw visit w = .ok (v, after) ∧ after.table.Sound := by
  obtain ⟨table, source, ring⟩ := w
  obtain ⟨p, probed, answered, kept, inside, deep⟩ := exists_probe sound ring[place visit]
  have storable := drawDepth_storable deep (draw source).2
  simp only [step, Table.prefetch_ok sound (draw source).1, answered,
    Table.shouldOverwrite_of_storable inside storable]
  split
  · rename_i stopped
    cases stopped
  · exact ⟨_, _, rfl, kept⟩
  · rw [Table.write_of_fits inside]
    · refine ⟨_, _, rfl, ?_⟩
      exact kept.put inside (.of_isOccupied (Entry.isOccupied_overwrite storable _ _ _))
    · exact ⟨storable, kept.aligned⟩

theorem Worker.visits_ok (draw : σ → UInt64 × σ) {others : Nat → Table → Table}
    (kept : ∀ visit u, u.Sound → (others visit u).Sound) (count visit : Nat) {w : Worker σ}
    (sound : w.table.Sound) :
    ∃ vs after, visits draw others count visit w = .ok (vs, after) := by
  induction count generalizing visit w with
  | zero => exact ⟨[], w, rfl⟩
  | succ count ih =>
    obtain ⟨v, mid, stepped, still⟩ := step_ok draw visit
      (w := { w with table := others visit w.table }) (kept visit _ sound)
    obtain ⟨later, after, rest⟩ := ih (visit + 1) still
    exact ⟨v :: later, after, visits_succ.2 ⟨v, later, mid, rfl, stepped, rest⟩⟩

end Stress

open Stress

/-- Whatever others do to the table between two visits, as long as it stays sound, a worker makes
all its visits, each with the calls that it names. Visit `n` probes the key of position number `n`
in the order in which positions are drawn, the four before the first visit included. It draws one
position, number `n + 4`, and asks for the key of that one. So a key is asked for four visits before
it is probed, and where no position is drawn twice at no other visit; the keys of the last four
positions are never probed. The record of the positions changes nothing, and a worker that is alone
does its work by these visits. -/
theorem keys_wait_four_visits {σ : Type} [RandomSource σ] [LawfulRandomSource σ]
    {keySpace : UInt64} (positive : 0 < keySpace) {t : Table} (sound : t.Sound)
    {others : Nat → Table → Table} (kept : ∀ visit u, u.Sound → (others visit u).Sound)
    (nodes : Nat) (source : σ) :
    let visits n := Worker.visits (drawKey keySpace) others n 0
      (Worker.start (drawKey keySpace) t (Recorded.start source))
    ∃ vs after, visits nodes = .ok (vs, after) ∧ vs.length = nodes ∧
      (∀ p ∈ after.source.positions, p < keySpace) ∧ InTurn after.source.positions vs after.ring ∧
      (∀ n ≤ nodes, ∃ mid, visits n = .ok (vs.take n, mid) ∧
        mid.source.positions = after.source.positions.take (n + 4)) ∧
      (∀ n v, vs[n]? = some v → ∃ mid next, visits n = .ok (vs.take n, mid) ∧
        visits (n + 1) = .ok (vs.take (n + 1), next) ∧
        Worker.Calls (others n mid.table) v next.table) ∧
      (∀ n v, vs[n]? = some v → 4 ≤ n → ∃ u, vs[n - 4]? = some u ∧ u.fetched = v.probed) ∧
      (after.source.positions.Nodup → ∀ n v, vs[n]? = some v →
        (∀ m u, vs[m]? = some u →
          (u.fetched = v.probed ↔ m + 4 = n) ∧ (u.probed = v.probed → m = n)) ∧
        v.probed ∉ waiting after.ring nodes) ∧
      Worker.visits (drawKey keySpace) others nodes 0 (Worker.start (drawKey keySpace) t source) =
        .ok (vs, after.unrecorded) ∧
      ((∀ visit u, others visit u = u) → work keySpace nodes t source =
        .ok (vs.foldl (fun sum v => sum.add v.tally) .zero, after.table)) := by
  have records := Recorded.records_drawKey (σ := σ) positive
  obtain ⟨vs, after, visited⟩ := Worker.visits_ok (drawKey keySpace) kept nodes 0
    (w := Worker.start (drawKey keySpace) t (Recorded.start source)) sound
  obtain ⟨length, below, turns⟩ := Worker.visits_inTurn records visited
  have unrecorded := Worker.visits_unrecorded records visited
  rw [Worker.start_unrecorded records] at unrecorded
  refine ⟨vs, after, visited, length, below, turns, ?_, ?_, ?_, ?_, unrecorded, ?_⟩
  · exact fun n fewer => Worker.visits_take records visited fewer
  · intro n v here
    have called := Worker.visits_calls visited here
    rwa [Nat.zero_add] at called
  · exact fun n v here late => turns.fetched_four_before late here
  · intro distinct n v here
    rw [← length]
    exact turns.once distinct here
  · intro alone
    obtain rfl : others = fun _ u => u := funext fun visit => funext (alone visit)
    rw [work_eq_visits, unrecorded]
    rfl

def searchMeanwhile (visit : Nat) (t : Table) : Table := if visit = 2 then t.newSearch else t

theorem keys_wait_four_visits_meanwhile :
    (0 : UInt64) < 7 ∧ Table.least.Sound ∧
      (∀ visit u, u.Sound → (searchMeanwhile visit u).Sound) ∧
      ∃ vs after, Worker.visits (drawKey 7) searchMeanwhile 6 0
          (Worker.start (drawKey 7) Table.least (Xoshiro.ofSeed 1)) =
            .ok (vs, Worker.unrecorded after) ∧
        InTurn after.source.positions vs after.ring ∧ after.source.positions.length = 10 ∧
        ∃ u v, vs[1]? = some u ∧ vs[5]? = some v ∧ u.fetched = v.probed := by
  have positive : (0 : UInt64) < 7 := by decide
  have sound := Table.least_fresh.sound
  have kept : ∀ visit u, u.Sound → (searchMeanwhile visit u).Sound := by
    intro visit u now
    unfold searchMeanwhile
    split_ifs
    · exact now.newSearch
    · exact now
  obtain ⟨vs, after, -, length, -, turns, -, -, before, -, visited, -⟩ :=
    keys_wait_four_visits positive sound kept 6 (Xoshiro.ofSeed 1)
  have last : vs[5]? = some vs[5] := List.getElem?_eq_getElem (by omega)
  obtain ⟨u, here, fetched⟩ := before 5 _ last (by decide)
  exact ⟨positive, sound, kept, vs, after, visited, turns, by rw [turns.drawn, length], u, _, here, last,
    fetched⟩

end PositionCache
