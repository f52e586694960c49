import PositionCache.Proofs.Replacement

/-!
# Stores that ask first

A slot that a probe found is of age 0, and one that it gives up is empty or of another position. So
only an entry of the position itself is ever kept.
-/

namespace PositionCache

namespace Table

variable {t after : Table} {key : UInt64} {p : Probe}

/-! ## The advice after a probe -/

theorem Hit.shouldOverwrite (sound : t.Sound) (hit : Hit t key p after) {d : Int}
    (storable : Depth.Storable d) (isPv : Bool) (bound : Bound) :
    after.shouldOverwrite p.writer key isPv bound d after.generation =
      .ok (decide (bound = .exact ∨ (p.record.depth : Int) - 4 < d + if isPv then 2 else 0)) := by
  obtain rfl := hit.refreshed
  have inside := hit.leads.inside sound
  set e := (t.look p.writer).refresh t.generation
  have own : e.tag = tagOf key := hit.holds.1
  have young : e.age t.generation = 0 := Entry.age_refresh sound.aligned (t.look p.writer)
  have byte : (e.depthByte.toNat : Int) = p.record.depth + 7 := by
    rw [hit.record]
    exact (Int.neg_add_cancel_right _ 7).symm
  have now : (t.put p.writer e).generation = t.generation := rfl
  rw [shouldOverwrite_of_storable (by simpa using inside) storable, look_put_self inside, now]
  refine congrArg Except.ok (decide_eq_decide.2 (or_congr_right ?_))
  simp only [own, young, byte, ne_eq, not_true_eq_false, false_or, or_false]
  unfold Depth
  omega

theorem Miss.shouldOverwrite (sound : t.Sound) (miss : Miss t key p after) {d : Int}
    (storable : Depth.Storable d) (isPv : Bool) (bound : Bound) (g : UInt8) :
    after.shouldOverwrite p.writer key isPv bound d g = .ok true := by
  obtain rfl := miss.unchanged
  have foreign := miss.absent p.writer.slot
  rw [← miss.cluster] at foreign
  rw [shouldOverwrite_of_storable (miss.leads.inside sound) storable]
  congr 1
  rw [decide_eq_true_iff]
  rcases not_and_or.1 foreign with other | unused
  · exact .inr (.inl (Ne.symm other))
  · -- An empty slot may have the tag, but every finding is deeper.
    have byte : ¬ 0 < (after.look p.writer).depthByte.toNat := mt (Entry.isOccupied_iff _).2 unused
    have low : -6 ≤ d := storable.1
    refine .inr (.inr (.inl ?_))
    split_ifs <;> omega

theorem shouldOverwrite_after_probe (sound : t.Sound)
    (outcome : Hit t key p after ∨ Miss t key p after) {r : Record}
    (storable : Depth.Storable r.depth) :
    ∃ advice, after.shouldOverwrite p.writer key r.isPv r.bound r.depth after.generation =
        .ok advice ∧
      (p.found = false → advice = true) ∧
      (p.found = true → (advice = true ↔
        r.bound = .exact ∨ p.record.depth - 4 < r.depth + if r.isPv then 2 else 0)) := by
  rcases outcome with hit | miss
  · refine ⟨_, hit.shouldOverwrite sound storable r.isPv r.bound, ?_, fun _ => decide_eq_true_iff⟩
    intro missed
    exact absurd (missed.symm.trans hit.found) Bool.false_ne_true
  · refine ⟨true, miss.shouldOverwrite sound storable _ _ _, fun _ => rfl, ?_⟩
    intro found
    exact absurd (miss.missed.symm.trans found) Bool.false_ne_true

/-! ## The store -/

theorem Leads.probe_stored {w : Writer} (sound : t.Sound) (leads : t.Leads key w) {r : Record}
    (storable : Depth.Storable r.depth) :
    ∃ left q, t.write w key r t.generation = (.ok (), left) ∧ (left.probe key).1 = .ok q ∧
      q.found = true ∧ q.writer = w ∧ q.record.depth = r.depth ∧ q.record.bound = r.bound ∧
      q.record.isPv = r.isPv := by
  have fits : Entry.Fits r t.generation := ⟨storable, sound.aligned⟩
  obtain ⟨written, probed⟩ := leads.probe_write sound fits
  rw [Entry.read_overwrite fits] at probed
  exact ⟨_, _, written, probed, rfl, rfl, rfl, rfl, rfl⟩

theorem Hit.probe_again (sound : t.Sound) (hit : Hit t key p after) :
    (after.probe key).1 = .ok p := by
  obtain ⟨kept, leads⟩ := sound.after_probe (.inl hit)
  obtain rfl := hit.refreshed
  have slot := look_put_self (hit.leads.inside sound) ((t.look p.writer).refresh t.generation)
  rw [leads.probe kept (slot.symm ▸ hit.holds), slot, Entry.read_refresh sound.aligned,
    ← hit.record, ← hit.found]

/-- After a probe of any position in a table that can come to be, the advice on a finding that can
be stored is to write it if the probe missed; and if it hit, exactly if the finding is exact or, with
two plies more for a principal variation, less than four plies shallower than what was found. When
the advice was followed, a probe finds the position in the same slot: either the finding, or what was
there before, and that is deeper by four plies at least. -/
theorem guarded_store (reachable : t.Reachable) (key : UInt64) {r : Record}
    (least : -6 ≤ (r.depth : Int)) (greatest : (r.depth : Int) ≤ 248) :
    ∃ p probed advice left q, t.probe key = (.ok p, probed) ∧
      probed.shouldOverwrite p.writer key r.isPv r.bound r.depth probed.generation = .ok advice ∧
      (if advice then probed.write p.writer key r probed.generation else (.ok (), probed)) =
        (.ok (), left) ∧
      (left.probe key).1 = .ok q ∧
      (p.found = false → advice = true) ∧
      (p.found = true → (advice = true ↔
        r.bound = .exact ∨ p.record.depth - 4 < r.depth + if r.isPv then 2 else 0)) ∧
      q.found = true ∧ q.writer = p.writer ∧
      (advice = true → q.record.depth = r.depth ∧ q.record.bound = r.bound ∧
        q.record.isPv = r.isPv) ∧
      (advice = false → p.found = true ∧ q.record = p.record ∧
        r.depth + (if r.isPv then 2 else 0) + 4 ≤ p.record.depth) := by
  have storable : Depth.Storable r.depth := ⟨least, greatest⟩
  have sound := reachable.sound
  obtain ⟨p, answered, outcome⟩ := probe_spec sound key
  obtain ⟨advice, advised, missed, found⟩ := shouldOverwrite_after_probe sound outcome storable
  refine ⟨p, (t.probe key).2, advice, ?_⟩
  cases advice with
  | true =>
    obtain ⟨kept, leads⟩ := sound.after_probe outcome
    obtain ⟨left, q, written, read, again, writer, stored⟩ := leads.probe_stored kept storable
    exact ⟨left, q, Prod.ext answered rfl, advised, written, read, missed, found, again, writer,
      fun _ => stored, fun refused => absurd refused.symm Bool.false_ne_true⟩
  | false =>
    -- The advice is never to keep a slot that was given up.
    have hit := outcome.resolve_right fun miss => absurd (missed miss.missed) Bool.false_ne_true
    have shallow := mt (found hit.found).2 Bool.false_ne_true
    refine ⟨_, p, Prod.ext answered rfl, advised, rfl, hit.probe_again sound, missed, found,
      hit.found, rfl, fun written => absurd written Bool.false_ne_true,
      fun _ => ⟨hit.found, rfl, ?_⟩⟩
    have far := not_lt.1 (not_or.1 shallow).2
    unfold Depth at far ⊢
    omega

theorem probe_oneFinding : ∃ probed, oneFinding.newSearch.probe 5 =
    (.ok ⟨true, shallowFinding, ⟨0, 0⟩⟩, probed) := by
  have sound := oneFinding_reachable.sound.newSearch
  have slot : oneFinding.newSearch.look ⟨0, 0⟩ =
      Entry.empty.overwrite (tagOf 5) shallowFinding 0 := by
    rw [look_newSearch, oneFinding_eq, look_put_self least_inside]
  have leads : oneFinding.newSearch.Leads 5 ⟨0, 0⟩ :=
    ⟨by decide, fun s before => absurd before (Fin.not_lt_zero s)⟩
  have read : (Entry.empty.overwrite (tagOf 5) shallowFinding 0).read = shallowFinding := by decide
  have probed := leads.probe sound (slot.symm ▸ by decide)
  rw [slot, read] at probed
  exact ⟨_, probed⟩

/-- Four plies below what was found in an earlier search, a finding is not written; three plies below
it is. Under tag 0 a finding is written into an empty slot, whatever its depth. -/
theorem guarded_store_around_four_plies :
    oneFinding.newSearch.Reachable ∧ least.Reachable ∧
      (∃ p probed, oneFinding.newSearch.probe 5 = (.ok p, probed) ∧ p.record.depth = 4 ∧
        probed.shouldOverwrite p.writer 5 false .lower 0 probed.generation = .ok false ∧
        probed.shouldOverwrite p.writer 5 false .lower 1 probed.generation = .ok true) ∧
      ∃ p probed, least.probe 65536 = (.ok p, probed) ∧ p.found = false ∧
        probed.shouldOverwrite p.writer 65536 false .upper (-6) probed.generation = .ok true := by
  have reachable : oneFinding.newSearch.Reachable :=
    .used oneFinding_reachable (.call .start .newSearch trivial trivial)
  refine ⟨reachable, least_reachable, ?_, ?_⟩
  · obtain ⟨after, known⟩ := probe_oneFinding
    obtain ⟨p, probed, advice, -, -, first, refused, -, -, -, four, -⟩ :=
      guarded_store reachable 5 (r := shallowFindingAt 0) (by decide) (by decide)
    obtain ⟨answer, rfl⟩ := Prod.mk.inj (known.symm.trans first)
    obtain rfl := Except.ok.inj answer
    obtain ⟨q, again, advice', -, -, second, advised, -, -, -, three, -⟩ :=
      guarded_store reachable 5 (r := shallowFindingAt 1) (by decide) (by decide)
    obtain ⟨answer, rfl⟩ := Prod.mk.inj (known.symm.trans second)
    obtain rfl := Except.ok.inj answer
    obtain rfl : advice = false := Bool.eq_false_iff.2 (mt (four rfl).1 (by decide))
    obtain rfl : advice' = true := (three rfl).2 (by decide)
    exact ⟨_, _, known, rfl, refused, advised⟩
  · have known : least.probe 65536 = (.ok (missed ⟨0, 0⟩), least) := least_probe (by decide)
    obtain ⟨p, probed, advice, -, -, first, advised, -, -, empty, -⟩ :=
      guarded_store least_reachable 65536 (r := { shallowFindingAt (-6) with bound := .upper })
        (by decide) (by decide)
    obtain ⟨answer, rfl⟩ := Prod.mk.inj (known.symm.trans first)
    obtain rfl := Except.ok.inj answer
    obtain rfl : advice = true := empty rfl
    exact ⟨_, _, known, rfl, advised⟩

end Table

end PositionCache
