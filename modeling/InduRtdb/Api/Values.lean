/-
  Api/Values.lean --- reading and writing point values and metadata through a
  handle.

  Source: `src/api/indurtdb.c` (`indurtdb_h_read_point`, `indurtdb_h_get_meta`,
  `indurtdb_h_set_meta`, `indurtdb_h_write_quality_ts`, `indurtdb_h_self_check`),
  `src/core/irt_point_manager.c` and `irt_meta_get` of `src/core/irt_shm.c`.

  Calls are made one after another, as in `Api/Registry`.  A read that finds the
  lock free needs one turn of its loop.  Callbacks inside the process are left
  out: the daemon registers none.
-/
import InduRtdb.Api.Registry
import InduRtdb.Core.PointManager
import InduRtdb.Core.Semantics

set_option autoImplicit false

namespace InduRtdb.Api

open InduRtdb.Core

/-- `irt_pm_validate_id`, and that the segment has its points. -/
def pmValidateId (seg : Segment) (id : Nat) : Prop :=
  id < seg.hdr.maxPoints ∧ seg.hdr.offPoints ≠ 0

instance (seg : Segment) (id : Nat) : Decidable (pmValidateId seg id) :=
  inferInstanceAs (Decidable (_ ∧ _))

/-- `indurtdb_h_read_point`: `none` is its error. -/
def indurtdbHReadPoint (h : IndurtdbH) (id : Nat) : Option IndurtdbPoint :=
  if pmValidateId h.seg id then some (h.seg.points id) else none

/-- `indurtdb_h_get_meta`. -/
def indurtdbHGetMeta (h : IndurtdbH) (id : Nat) : Except Rc IndurtdbMeta :=
  if h.shm.maxPoints ≤ id then .error .errArg
  else if h.seg.hdr.offMeta = 0 then .error .errArg
  else if h.seg.hdr.writeSeq % 2 = 1 then .error .errBusy
  else .ok (h.seg.metas id)

/-- `indurtdb_h_set_meta`. -/
def indurtdbHSetMeta (h : IndurtdbH) (id : Nat) (m : IndurtdbMeta) : Rc × IndurtdbH :=
  match indurtdbValidatePointMeta m with
  | some _ => (.errArg, h)
  | none =>
      let stored := irtMetaSet h.shm h.seg id m
      (stored.1, { h with seg := stored.2 })

/-- The section of `pm_write_impl_q`, run at once. -/
def pmWriteLocked (seg : Segment) (id : Nat) (type : UInt8) (value : List UInt8)
    (sourceTsNs : Nat) (quality : UInt8) (now : Nat) : Rc × Segment :=
  match (pmWriteBody id type value sourceTsNs quality now).run seg with
  | (.returns rc, seg) => (rc, seg)
  | (.notDue, seg) => (.ok, seg)

/-- `indurtdb_h_write_quality_ts`; `now` is the wall clock. -/
def indurtdbHWriteQualityTs (h : IndurtdbH) (id : Nat) (type : UInt8) (value : List UInt8)
    (sourceTsNs : Nat) (quality : UInt8) (now : Nat) : Rc × IndurtdbH :=
  if pmValidateId h.seg id then
    match withWriteLock h.seg fun seg => pmWriteLocked seg id type value sourceTsNs quality now with
    | (.ok, seg) =>
        (.ok, { h with seg :=
          { seg with hdr := { seg.hdr with statsWrites := u64 (seg.hdr.statsWrites + 1) } } })
    | (rc, seg) => (rc, { h with seg := seg })
  else (.errArg, h)

/-- `indurtdb_h_self_check` finds the segment healthy. -/
def indurtdbHSelfCheck (h : IndurtdbH) : Bool :=
  h.seg.hdr.magic == irtMagic && h.seg.hdr.version == irtShmVersion

end InduRtdb.Api
