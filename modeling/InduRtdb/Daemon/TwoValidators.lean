/-
  Daemon/TwoValidators.lean --- the validation of the library and the daemon's copy of it.

  Source: `indurtdb_validate_config` of `src/api/indurtdb.c`, `rtdbd_validate_config` of
  `rtdbd/src/rtdbd.c`.

  The two loops make the same turn.  The library's runs over the ids of the segment, the
  daemon's over those it was told of; a handle with fewer points than its segment has
  tells them apart.
-/
import InduRtdb.Core.Mapping
import InduRtdb.Daemon.Validation

set_option autoImplicit false

namespace InduRtdb.Daemon

open InduRtdb.Core InduRtdb.Api InduRtdb.Lib

/-! ## The two loops -/

/-- The first `mapped` bytes of the segment can be read, and the turn for `id` reads no
others: a record is copied when `irt_pm_validate_id` accepts the id, metadata when the
handle has it and nobody holds the lock. -/
structure TurnMapped (mapped : Nat) (h : IndurtdbH) (id : Nat) : Prop where
  point : pmValidateId h.seg id → h.seg.hdr.offPoints + sizeofPoint * (id + 1) ≤ mapped
  pointMeta : pmValidateId h.seg id → (h.seg.points id).name ≠ CStr.empty →
    (h.seg.points id).type.toNat ≤ indurtdbTypeFloat →
    (h.seg.points id).access = indurtdbAccessReadOnly ∨
      (h.seg.points id).access = indurtdbAccessReadWrite →
    id < h.shm.maxPoints → h.seg.hdr.offMeta ≠ 0 → h.seg.hdr.writeSeq % 2 = 0 →
    h.seg.hdr.offMeta + sizeofMeta * (id + 1) ≤ mapped

instance (mapped : Nat) (h : IndurtdbH) (id : Nat) : Decidable (TurnMapped mapped h id) :=
  decidable_of_iff (_ ∧ _) ⟨fun hboth => ⟨hboth.1, hboth.2⟩, fun h => ⟨h.point, h.pointMeta⟩⟩

/-- The loop over the ids of both validators.  The outer `none` is a read of a byte that
is not mapped, from which nothing returns. -/
def validateLoop (mapped : Nat) (h : IndurtdbH) : List Nat → Option (Option ConfigFault)
  | [] => some none
  | id :: rest =>
      if TurnMapped mapped h id then
        match validatePoint h id with
        | some fault => some (some fault)
        | none => validateLoop mapped h rest
      else none

/-- `indurtdb_validate_config`, on the handle `h`: the ids below the capacity the header
states. -/
def indurtdbValidateConfig (mapped : Nat) (h : IndurtdbH) : Option (Option ConfigFault) :=
  validateLoop mapped h (List.range h.seg.hdr.maxPoints)

/-- `rtdbd_validate_config`: the ids below `g_max_points`. -/
def rtdbdValidateMapped (mapped : Nat) (h : IndurtdbH) (maxPoints : Nat) :
    Option (Option ConfigFault) :=
  validateLoop mapped h (List.range maxPoints)

/-- A turn leaves the loop: with a fault, or at a byte that is not mapped. -/
def Leaves (mapped : Nat) (h : IndurtdbH) (id : Nat) : Prop :=
  ¬ TurnMapped mapped h id ∨ validatePoint h id ≠ none

section Loop

variable {mapped : Nat} {h : IndurtdbH}

theorem validateLoop_append (ids rest : List Nat) :
    validateLoop mapped h (ids ++ rest) =
      if validateLoop mapped h ids = some none then validateLoop mapped h rest
      else validateLoop mapped h ids := by
  induction ids with
  | nil => rw [List.nil_append, validateLoop, if_pos rfl]
  | cons id ids ih =>
      rw [List.cons_append, validateLoop, validateLoop]
      split
      next =>
        cases validatePoint h id with
        | some fault => rw [if_neg (by simp)]
        | none => exact ih
      next => rw [if_neg (by simp)]

/-- The loop finds everything valid when no turn leaves it. -/
theorem validateLoop_eq_valid_iff (ids : List Nat) :
    validateLoop mapped h ids = some none ↔ ∀ id ∈ ids, ¬ Leaves mapped h id := by
  induction ids with
  | nil => simp [validateLoop]
  | cons id ids ih =>
      rw [validateLoop, List.forall_mem_cons, Leaves]
      split
      next hmapped =>
        cases hpoint : validatePoint h id with
        | some fault => simp
        | none => simpa [hmapped] using ih
      next hnot => simp [hnot]

/-- While every byte is mapped, the daemon's loop is the one that was validated with. -/
theorem rtdbdValidateMapped_eq {maxPoints : Nat}
    (hmapped : ∀ id, id < maxPoints → TurnMapped mapped h id) :
    rtdbdValidateMapped mapped h maxPoints = some (rtdbdValidateConfig h maxPoints) := by
  have hloop : ∀ ids : List Nat, (∀ id ∈ ids, TurnMapped mapped h id) →
      validateLoop mapped h ids = some (ids.findSome? (validatePoint h)) := by
    intro ids
    induction ids with
    | nil => intro _; rfl
    | cons id ids ih =>
        intro hall
        obtain ⟨hid, hrest⟩ := List.forall_mem_cons.mp hall
        rw [validateLoop, if_pos hid, List.findSome?_cons]
        cases validatePoint h id with
        | some fault => rfl
        | none => exact ih hrest
  exact hloop _ fun id hid => hmapped id (List.mem_range.mp hid)

/-- A shorter loop comes back with the same exactly when a turn leaves it, or no later
turn would. -/
theorem validateLoop_range_iff {n N : Nat} (hle : n ≤ N) :
    validateLoop mapped h (List.range N) = validateLoop mapped h (List.range n) ↔
      (∃ id, id < n ∧ Leaves mapped h id) ∨ ∀ id, n ≤ id → id < N → ¬ Leaves mapped h id := by
  obtain ⟨k, rfl⟩ := Nat.exists_eq_add_of_le hle
  have hmem : ∀ id, id ∈ (List.range k).map (n + ·) ↔ n ≤ id ∧ id < n + k := by
    intro id
    simp only [List.mem_map, List.mem_range]
    constructor
    · rintro ⟨j, hj, rfl⟩
      omega
    · rintro ⟨hlo, hhi⟩
      exact ⟨id - n, by omega, by omega⟩
  rw [List.range_add, validateLoop_append]
  split
  next hvalid =>
    have hstays := (validateLoop_eq_valid_iff _).mp hvalid
    have hnone : ¬ ∃ id, id < n ∧ Leaves mapped h id := by
      rintro ⟨id, hid, hleaves⟩
      exact hstays id (List.mem_range.mpr hid) hleaves
    rw [hvalid, validateLoop_eq_valid_iff, or_iff_right hnone]
    exact ⟨fun hrest id hlo hhi => hrest id ((hmem id).mpr ⟨hlo, hhi⟩),
      fun hrest id hid => hrest id ((hmem id).mp hid).1 ((hmem id).mp hid).2⟩
  next hleft =>
    refine iff_of_true rfl (.inl ?_)
    by_contra hnone
    refine hleft ((validateLoop_eq_valid_iff _).mpr fun id hid hleaves => ?_)
    exact hnone ⟨id, List.mem_range.mp hid, hleaves⟩

end Loop

/-! ## Handles of a segment -/

section Handles

variable {N M pid mapped : Nat} {h : IndurtdbH}

/-- The layout of a segment stays the one its creator stored. -/
theorem pmValidateId_of_layout (hlayout : SameLayout (irtShmInitHeader N M pid) h.seg.hdr)
    (id : Nat) : pmValidateId h.seg id ↔ id < N := by
  have hmax : h.seg.hdr.maxPoints = N := by rw [hlayout]; rfl
  have hoff : h.seg.hdr.offPoints = 128 := by rw [hlayout]; rfl
  unfold pmValidateId
  rw [hmax, hoff]
  simp

/-- Of a point beyond the ones a handle was opened for, its metadata is not looked at. -/
theorem leaves_beyond_iff (hlayout : SameLayout (irtShmInitHeader N M pid) h.seg.hdr) {id : Nat}
    (hbeyond : h.shm.maxPoints ≤ id) (hid : id < N) :
    ¬ Leaves mapped h id ↔ sizeofHeader + sizeofPoint * (id + 1) ≤ mapped ∧
      ((h.seg.points id).name ≠ CStr.empty → Typed (h.seg.points id)) := by
  have hoff : h.seg.hdr.offPoints = sizeofHeader := by rw [hlayout]; rfl
  have hvalid : pmValidateId h.seg id := (pmValidateId_of_layout hlayout id).mpr hid
  have hzero : checkedMeta h id = IndurtdbMeta.zero := by
    unfold checkedMeta indurtdbHGetMeta
    rw [if_pos hbeyond]
    rfl
  have hmapped : TurnMapped mapped h id ↔ sizeofHeader + sizeofPoint * (id + 1) ≤ mapped := by
    rw [← hoff]
    exact ⟨fun hturn => hturn.point hvalid, fun hle => ⟨fun _ => hle,
      fun _ _ _ _ hin => absurd hin (Nat.not_lt.mpr hbeyond)⟩⟩
  rw [Leaves, not_or, not_not, not_not, hmapped, validatePoint_eq_none_iff, hzero]
  simp [hvalid, validatePointMeta_zero]

/-- **The daemon's validator is the library's.**  On a handle of a segment the two come
back with the same, exactly when one of the points the handle was opened for leaves the
loop, or every record behind those is mapped and, if it carries a name, has the type and
the access of a point. -/
theorem validatesAlike_iff (hlayout : SameLayout (irtShmInitHeader N M pid) h.seg.hdr)
    (hopened : Opened N M pid h.shm) :
    indurtdbValidateConfig mapped h = rtdbdValidateMapped mapped h h.shm.maxPoints ↔
      (∃ id, id < h.shm.maxPoints ∧ Leaves mapped h id) ∨
        ∀ id, h.shm.maxPoints ≤ id → id < N →
          sizeofHeader + sizeofPoint * (id + 1) ≤ mapped ∧
            ((h.seg.points id).name ≠ CStr.empty → Typed (h.seg.points id)) := by
  have hmax : h.seg.hdr.maxPoints = N := by rw [hlayout]; rfl
  rw [indurtdbValidateConfig, rtdbdValidateMapped, hmax, validateLoop_range_iff hopened.le]
  refine or_congr_right ⟨fun hrest id hlo hhi => ?_, fun hrest id hlo hhi => ?_⟩
  · exact (leaves_beyond_iff hlayout hlo hhi).mp (hrest id hlo hhi)
  · exact (leaves_beyond_iff hlayout hlo hhi).mpr (hrest id hlo hhi)

end Handles

/-- A handle opened for one point of a segment of two.  The second point is named and its
type is out of range. -/
def smaller : IndurtdbH where
  shm := irtShmRequest 1 2
  seg := (irtShmInitOwner 2 2 1).setPoint 1
    { IndurtdbPoint.zero with name := CStr.ofBytes [97], type := 9 }
  delta := none

theorem smaller_layout : SameLayout (irtShmInitHeader 2 2 1) smaller.seg.hdr := by
  have hhdr : smaller.seg.hdr = irtShmInitHeader 2 2 1 := by
    simp only [smaller, Segment.setPoint, irtShmInitOwner, decodeSegment]
  rw [hhdr]
  generalize irtShmInitHeader 2 2 1 = hdr
  rfl

theorem smaller_opened : Opened 2 2 1 smaller.shm :=
  .inr ⟨1, 2, irtShmAttach_created_iff.mpr ⟨⟨by decide, by decide, by decide⟩, rfl⟩⟩

theorem validatesAlike_smaller :
    indurtdbValidateConfig 4096 smaller = rtdbdValidateMapped 4096 smaller 1 ↔
      (∃ id, id < 1 ∧ Leaves 4096 smaller id) ∨
        ∀ id, 1 ≤ id → id < 2 → sizeofHeader + sizeofPoint * (id + 1) ≤ 4096 ∧
          ((smaller.seg.points id).name ≠ CStr.empty → Typed (smaller.seg.points id)) :=
  validatesAlike_iff smaller_layout smaller_opened

/-- The library reports the second point, the daemon's copy does not look at it; all the
library reads is mapped. -/
theorem not_validatesAlike :
    ¬ ∀ (N M pid mapped : Nat) (h : IndurtdbH),
      SameLayout (irtShmInitHeader N M pid) h.seg.hdr → Opened N M pid h.shm →
      h.shm.totalSize ≤ mapped →
      indurtdbValidateConfig mapped h = rtdbdValidateMapped mapped h h.shm.maxPoints := by
  intro hall
  have hsame := hall 2 2 1 4096 smaller smaller_layout smaller_opened (by decide)
  revert hsame
  decide +kernel

end InduRtdb.Daemon
