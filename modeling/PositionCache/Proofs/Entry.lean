import PositionCache.Entry
import PositionCache.Proofs.Stamp

/-! # What a write and a refresh do to an entry -/

namespace PositionCache

/-! ## Records as a slot keeps them -/

/-- A record whose scores were cut to the sixteen bits that a slot keeps. -/
def Record.narrowed (r : Record) : Record :=
  { r with value := .ofNarrow r.value.narrow, eval := .ofNarrow r.eval.narrow }

theorem Score.ofNarrow_unknown : Score.ofNarrow Score.unknown.narrow = Score.unknown := by decide

theorem Move.eq_absent {m : Move} (h : m.isAbsent = true) : m = .absent := by
  unfold isAbsent at h
  rw [beq_iff_eq] at h
  unfold absent
  rw [← h]

namespace Entry

/-- The conditions under which a write goes through. -/
def Fits (r : Record) (generation : UInt8) : Prop :=
  Depth.Storable r.depth ∧ Stamp.Aligned generation

instance (r : Record) (generation : UInt8) : Decidable (Fits r generation) :=
  inferInstanceAs (Decidable (_ ∧ _))

/-- A slot that is not in use is all zero. -/
def Sound (e : Entry) : Prop := e.isOccupied = false → e = empty

theorem empty_sound : Sound empty := fun _ => rfl

theorem isOccupied_iff (e : Entry) : e.isOccupied = true ↔ 0 < e.depthByte.toNat := by
  unfold isOccupied
  rw [bne_iff_ne, ne_eq, ← UInt8.toNat_inj]
  exact Nat.pos_iff_ne_zero.symm

theorem Sound.of_isOccupied {e : Entry} (used : e.isOccupied = true) : e.Sound := by
  intro unused
  exact absurd (unused.symm.trans used) Bool.false_ne_true

/-! ## Writing -/

theorem depthByte_of_storable {d : Int} (h : Depth.Storable d) :
    ((UInt8.ofNat (d + 7).toNat).toNat : Int) = d + 7 ∧ 0 < d + 7 := by
  have low : -6 ≤ d := h.1
  have high : d ≤ 248 := h.2
  rw [UInt8.toNat_ofNat']
  omega

theorem toNat_depthByte_overwrite {r : Record} (h : Depth.Storable r.depth) (e : Entry)
    (tag : UInt16) (g : UInt8) :
    ((e.overwrite tag r g).depthByte.toNat : Int) = (r.depth : Int) + 7 :=
  (depthByte_of_storable h).1

theorem isOccupied_overwrite {r : Record} (h : Depth.Storable r.depth) (e : Entry) (tag : UInt16)
    (g : UInt8) : (e.overwrite tag r g).isOccupied = true := by
  have distance := toNat_depthByte_overwrite h e tag g
  have positive := (depthByte_of_storable h).2
  rw [isOccupied_iff]
  omega

theorem depth_overwrite {r : Record} (h : Depth.Storable r.depth) (e : Entry) (tag : UInt16)
    (g : UInt8) : (e.overwrite tag r g).depth = r.depth := by
  unfold depth
  rw [toNat_depthByte_overwrite h]
  exact Int.add_neg_cancel_right r.depth 7

theorem holds_overwrite {r : Record} (h : Depth.Storable r.depth) (e : Entry) (tag : UInt16)
    (g : UInt8) (sought : UInt16) : (e.overwrite tag r g).Holds sought ↔ tag = sought := by
  have used := isOccupied_overwrite h e tag g
  exact ⟨And.left, fun same => ⟨same, used⟩⟩

theorem read_overwrite {r : Record} {g : UInt8} (h : Fits r g) (e : Entry) (tag : UInt16) :
    (e.overwrite tag r g).read =
      { r.narrowed with
        move := if r.move.isAbsent ∧ tag = e.tag then e.move else r.move
        eval := if r.eval = .unknown ∧ tag = e.tag then .ofNarrow e.eval
          else .ofNarrow r.eval.narrow } := by
  obtain ⟨depthFits, aligned⟩ := h
  have depthKept := depth_overwrite depthFits e tag g
  unfold read
  rw [depthKept]
  simp [overwrite, Record.narrowed, Stamp.isPv_pack aligned, Stamp.bound_pack aligned,
    apply_ite Score.ofNarrow]

theorem save_of_fits {r : Record} {g : UInt8} (h : Fits r g) (e : Entry) (tag : UInt16) :
    e.save tag r g = .ok (e.overwrite tag r g) := by
  simp [save, h.1, h.2]

theorem save_of_not_fits {r : Record} {g : UInt8} (h : ¬ Fits r g) (e : Entry) (tag : UInt16) :
    ∃ fault, e.save tag r g = .error fault := by
  unfold save
  by_cases depthFits : Depth.Storable r.depth
  · have skewed : ¬ Stamp.Aligned g := fun aligned => h ⟨depthFits, aligned⟩
    rw [if_neg (not_not_intro depthFits), if_pos skewed]
    exact ⟨_, rfl⟩
  · rw [if_pos depthFits]
    exact ⟨_, rfl⟩

/-! ## Dating and reading -/

theorem read_refresh {g : UInt8} (h : Stamp.Aligned g) (e : Entry) :
    (e.refresh g).read = e.read := by
  simp [read, refresh, depth, Stamp.isPv_refresh h, Stamp.bound_refresh h]

theorem refresh_refresh {g : UInt8} (h : Stamp.Aligned g) (e : Entry) :
    (e.refresh g).refresh g = e.refresh g := by
  simp only [refresh, Stamp.refresh_refresh h]

theorem age_overwrite {g : UInt8} (h : Stamp.Aligned g) (e : Entry) (tag : UInt16) (r : Record) :
    (e.overwrite tag r g).age g = 0 :=
  (Stamp.age_eq_zero_iff h _).2 (Stamp.generation_pack h _ _)

theorem age_refresh {g : UInt8} (h : Stamp.Aligned g) (e : Entry) : (e.refresh g).age g = 0 :=
  (Stamp.age_eq_zero_iff h _).2 (Stamp.generation_refresh h _)

theorem depth_of_occupied {e : Entry} (h : e.isOccupied = true) : (-7 : Int) < e.depth := by
  have distance : (e.depthByte.toNat : Int) + -7 = e.depth := rfl
  rw [isOccupied_iff] at h
  omega

theorem read_ne_empty {e : Entry} (h : e.isOccupied = true) : e.read ≠ Record.empty := by
  intro same
  have depths : e.depth = Depth.offset := congrArg Record.depth same
  exact absurd depths (ne_of_gt (depth_of_occupied h))

/-! ## Worth -/

theorem worth_of_occupied {e : Entry} (h : e.isOccupied = true) {g : UInt8}
    (aligned : Stamp.Aligned g) :
    e.worth g = e.depthByte.toNat -
      8 * (((Stamp.search g : Int) - (Stamp.search e.stamp : Int)) % 32) := by
  have now := Stamp.search_lt g
  have used := Stamp.search_lt e.stamp
  rw [worth, if_pos h, age, Stamp.age_eq aligned, ageWeight]
  omega

theorem worthless_lt_worth {e : Entry} (h : e.isOccupied = true) (g : UInt8) :
    worthless < e.worth g := by
  have young : e.age g ≤ 31 := Stamp.age_le e.stamp g
  unfold worth
  rw [if_pos h, worthless, ageWeight]
  omega

theorem worthless_le_worth (e : Entry) (g : UInt8) : worthless ≤ e.worth g := by
  cases used : e.isOccupied with
  | true => exact (worthless_lt_worth used g).le
  | false => simp [worth, used]

theorem worth_of_empty {e : Entry} (h : e.isOccupied = false) (g : UInt8) :
    e.worth g = worthless := by
  simp [worth, h]

end Entry

end PositionCache
