import PositionCache.Cluster
import PositionCache.Proofs.Entry

/-!
# What a cluster's search finds

A search finds the first slot that holds the tag. The slot given up is the first of those worth least.
-/

namespace PositionCache.Cluster

theorem forall_slot {p : Slot → Prop} : (∀ s, p s) ↔ p 0 ∧ p 1 ∧ p 2 := by
  constructor
  · intro h
    exact ⟨h 0, h 1, h 2⟩
  · rintro ⟨h0, h1, h2⟩ s
    match s with
    | 0 => exact h0
    | 1 => exact h1
    | 2 => exact h2

theorem ext_get {c d : Cluster} (h : ∀ s, c.get s = d.get s) : c = d := by
  obtain ⟨h0, h1, h2⟩ := forall_slot.1 h
  cases c
  cases d
  simp only [mk.injEq]
  exact ⟨h0, h1, h2⟩

@[simp]
theorem get_empty (s : Slot) : empty.get s = Entry.empty := by
  match s with
  | 0 | 1 | 2 => rfl

theorem get_set (c : Cluster) (s t : Slot) (e : Entry) :
    (c.set s e).get t = if s = t then e else c.get t := by
  by_cases same : s = t
  · rw [if_pos same, same, get_set_self]
  · rw [if_neg same, get_set_of_ne c e same]

/-! ## The slot that is found -/

theorem find?_eq_none_iff (c : Cluster) (tag : UInt16) :
    c.find? tag = none ↔ ∀ s, ¬ (c.get s).Holds tag := by
  rw [forall_slot, find?]
  simp only [get]
  split_ifs <;> simp_all

theorem find?_eq_some {c : Cluster} {tag : UInt16} {s : Slot} (h : c.find? tag = some s) :
    (c.get s).Holds tag ∧ ∀ r < s, ¬ (c.get r).Holds tag := by
  unfold find? at h
  split_ifs at h with h0 h1 h2
  all_goals
    obtain rfl := Option.some.inj h
    rw [forall_slot]
  · exact ⟨h0, by simp⟩
  · exact ⟨h1, fun _ => h0, by simp⟩
  · exact ⟨h2, fun _ => h0, fun _ => h1, by simp⟩

theorem find?_of_first {c : Cluster} {tag : UInt16} {s : Slot} (holds : (c.get s).Holds tag)
    (first : ∀ r < s, ¬ (c.get r).Holds tag) : c.find? tag = some s := by
  cases found : c.find? tag with
  | none => exact absurd holds ((find?_eq_none_iff c tag).1 found s)
  | some r =>
    obtain ⟨also, lowest⟩ := find?_eq_some found
    rcases lt_trichotomy r s with before | rfl | after
    · exact absurd also (first r before)
    · rfl
    · exact absurd holds (lowest s after)

/-! ## The slot that is given up -/

theorem leastWorth_eq (c : Cluster) (g : UInt8) :
    c.leastWorth g =
      if c.second.worth g < c.first.worth g then
        if c.third.worth g < c.second.worth g then 2 else 1
      else if c.third.worth g < c.first.worth g then 2 else 0 := by
  unfold leastWorth
  by_cases h : c.second.worth g < c.first.worth g
  · simp only [h, if_true, get]
  · simp only [h, if_false, get]

theorem leastWorth_spec (c : Cluster) (g : UInt8) :
    (∀ s, (c.get (c.leastWorth g)).worth g ≤ (c.get s).worth g) ∧
      ∀ s < c.leastWorth g, (c.get (c.leastWorth g)).worth g < (c.get s).worth g := by
  rw [leastWorth_eq, forall_slot, forall_slot]
  split_ifs with h1 h2 h2
  · simp [get]
    omega
  · simp [get]
    omega
  · simp [get]
    omega
  · simp [get]
    omega

theorem leastWorth_of_unoccupied {c : Cluster} {s : Slot} (h : (c.get s).isOccupied = false)
    (g : UInt8) : (c.get (c.leastWorth g)).isOccupied = false := by
  have least := (leastWorth_spec c g).1 s
  rw [Entry.worth_of_empty h] at least
  by_contra used
  have := Entry.worthless_lt_worth (Bool.not_eq_false _ ▸ used) g
  omega

theorem isOccupied_before_leastWorth {c : Cluster} {g : UInt8} {s : Slot}
    (before : s < c.leastWorth g) : (c.get s).isOccupied = true := by
  by_contra unused
  have less := (leastWorth_spec c g).2 s before
  have worthless := Entry.worth_of_empty (Bool.eq_false_of_not_eq_true unused) g
  have least := Entry.worthless_le_worth (c.get (c.leastWorth g)) g
  omega

end PositionCache.Cluster
