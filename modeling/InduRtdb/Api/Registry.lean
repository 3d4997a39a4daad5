/-
  Api/Registry.lean --- creating, deleting, renaming and finding points through
  a handle, loading a base configuration and replaying the delta log.

  Source: `src/api/indurtdb.c` (`indurtdb_h_create_point_in`,
  `indurtdb_h_delete_point_in`, `indurtdb_h_rename_point_in`,
  `indurtdb_h_find_by_name_in`, `indurtdb_h_load_config`, `delta_log`,
  `delta_apply`, `indurtdb_h_delta_replay`).

  These functions describe calls made one after another: nobody else touches
  the segment during a call.  The retry loops around the write lock then end
  after one turn, because a word that is odd once stays odd.
-/
import InduRtdb.Core.Index
import InduRtdb.Core.Delta

set_option autoImplicit false

namespace InduRtdb.Api

open InduRtdb.Core

/-- The parts of `indurtdb_t` used here.  `delta` is the file behind `delta_fd`,
absent while the log is disabled. -/
structure IndurtdbH where
  shm : IrtShm
  seg : Segment
  delta : Option (List UInt8)

/-- The record `delta_log` builds. -/
def deltaRec (op id : Nat) (type access : UInt8) (name : CStr) : IrtDeltaRec where
  magic := irtDeltaMagic
  version := irtDeltaVersion
  op := op
  pointId := id
  type := type
  access := access
  name := name.strncpy nameMax

/-- `delta_log`, with an append that takes the whole record. -/
def deltaLog (h : IndurtdbH) (op id : Nat) (type access : UInt8) (name : CStr) : IndurtdbH :=
  match h.delta with
  | none => h
  | some file =>
      { h with delta := some (irtDeltaAppend file (deltaRec op id type access name)
          sizeofDeltaRec).1 }

/-! ## Points -/

/-- `h_point_register`. -/
def hPointRegister (seg : Segment) (partition : UInt32) (id : Nat) (name : CStr)
    (type access : UInt8) : Segment :=
  seg.setPoint id
    { seg.points id with
      type := type
      access := access
      unit := 0
      partition := partition
      quality := indurtdbQualityGood
      value := List.replicate 32 0
      name := name.strncpy nameMax }

/-- The check shared by creation and renaming: another id is found under the
name. -/
def nameTaken (h : IndurtdbH) (partition : UInt32) (name : CStr) (id : Nat) : Bool :=
  match irtIndexLookup h.shm h.seg partition name with
  | .ok exist => exist != id
  | .error _ => false

/-- The rollback of `indurtdb_h_create_point_in`. -/
def unregister (seg : Segment) (id : Nat) : Segment :=
  (withWriteLock seg fun seg =>
    (.ok, seg.setPoint id { seg.points id with name := CStr.empty })).2

/-- The locked part of `indurtdb_h_create_point_in`. -/
def registerLocked (seg : Segment) (partition : UInt32) (id : Nat) (name : CStr)
    (type access : UInt8) : Rc × Segment :=
  if (seg.points id).name.isEmpty then (.ok, hPointRegister seg partition id name type access)
  else (.errFull, seg)

/-- `indurtdb_h_create_point_in`. -/
def indurtdbHCreatePointIn (h : IndurtdbH) (partition : UInt32) (id : Nat) (name : CStr)
    (type access : Int) : Rc × IndurtdbH :=
  if name.isEmpty then (.errArg, h)
  else if type < 0 ∨ indurtdbTypeFloat < type then (.errArg, h)
  else if access ≠ indurtdbAccessReadOnly.toNat ∧ access ≠ indurtdbAccessReadWrite.toNat then
    (.errArg, h)
  else if h.shm.maxPoints ≤ id then (.errArg, h)
  else if nameTaken h partition name id then (.errArg, h)
  else
    match withWriteLock h.seg fun seg =>
      registerLocked seg partition id name (.ofNat type.toNat) (.ofNat access.toNat) with
    | (.ok, seg) =>
        match irtIndexInsert h.shm seg partition name id with
        | (.ok, seg) =>
            (.ok, deltaLog { h with seg := seg } irtDeltaOpCreate id (.ofNat type.toNat)
              (.ofNat access.toNat) name)
        | (rc, seg) => (rc, { h with seg := unregister seg id })
    | (rc, seg) => (rc, { h with seg := seg })

/-- The locked part of `indurtdb_h_delete_point_in`.  The index entry is removed
while the point still carries its name. -/
def deleteLocked (s : IrtShm) (seg : Segment) (partition : UInt32) (id : Nat) : Rc × Segment :=
  if (seg.points id).name.isEmpty then (.errNotFound, seg)
  else if (seg.points id).partition ≠ partition then (.errNotFound, seg)
  else
    let seg := (irtIndexRemoveLocked s seg (seg.points id).partition (seg.points id).name).2
    (.ok, seg.setPoint id { seg.points id with name := CStr.empty })

/-- `indurtdb_h_delete_point_in`. -/
def indurtdbHDeletePointIn (h : IndurtdbH) (partition : UInt32) (id : Nat) :
    Rc × IndurtdbH :=
  if h.shm.maxPoints ≤ id then (.errArg, h)
  else
    match withWriteLock h.seg fun seg => deleteLocked h.shm seg partition id with
    | (.ok, seg) => (.ok, deltaLog { h with seg := seg } irtDeltaOpDelete id 0 0 CStr.empty)
    | (rc, seg) => (rc, { h with seg := seg })

/-- What `indurtdb_h_rename_point_in` did under the lock. -/
inductive Renamed where
  | failed (rc : Rc)
  /-- the point already carries the name -/
  | same
  | changed
  deriving DecidableEq

/-- The locked part of `indurtdb_h_rename_point_in`: the new name is inserted
before the old one is removed. -/
def renameLocked (s : IrtShm) (seg : Segment) (partition : UInt32) (id : Nat) (name : CStr) :
    Renamed × Segment :=
  if (seg.points id).name.isEmpty ∨ (seg.points id).partition ≠ partition then
    (.failed .errNotFound, seg)
  else if (seg.points id).name.strncmpEq name 64 then (.same, seg)
  else
    match irtIndexInsertLocked s seg partition name id with
    | (.ok, seg) =>
        let seg := (irtIndexRemoveLocked s seg partition (seg.points id).name).2
        (.changed, seg.setPoint id { seg.points id with name := name.strncpy nameMax })
    | (_, seg) => (.failed .errFull, seg)

/-- `indurtdb_h_rename_point_in`. -/
def indurtdbHRenamePointIn (h : IndurtdbH) (partition : UInt32) (id : Nat) (name : CStr) :
    Rc × IndurtdbH :=
  if name.isEmpty then (.errArg, h)
  else if h.shm.maxPoints ≤ id then (.errArg, h)
  else if nameTaken h partition name id then (.errArg, h)
  else
    let begun := irtSeqlockWriteBegin h.seg.hdr.writeSeq
    if begun.1 % 2 = 1 then (.errBusy, h)
    else
      let renamed := renameLocked h.shm (h.seg.setWriteSeq begun.2) partition id name
      let h := { h with seg := renamed.2.setWriteSeq (irtSeqlockWriteEnd begun.1) }
      match renamed.1 with
      | .failed rc => (rc, h)
      | .same => (.ok, h)
      | .changed =>
          (.ok, deltaLog h irtDeltaOpRename id (h.seg.points id).type (h.seg.points id).access
            name)

/-- `indurtdb_h_find_by_name_in`. -/
def indurtdbHFindByNameIn (h : IndurtdbH) (partition : UInt32) (name : CStr) : Except Rc Nat :=
  if name.isEmpty then .error .errArg
  else irtIndexLookup h.shm h.seg partition name

/-! ## The base configuration -/

/-- `irt_point_meta_t`: one point of a parsed configuration. -/
structure IrtPointMeta where
  id : Nat
  type : UInt8
  unit : UInt16
  access : UInt8
  name : CStr
  pointMeta : IndurtdbMeta
  hasMeta : Bool
  badValue : Bool

/-- One turn of the retry loop of `indurtdb_h_load_config`: the record is
overwritten, then its name is inserted into the index. -/
def configurePoint (s : IrtShm) (seg : Segment) (pm : IrtPointMeta) : Rc × Segment :=
  let stored := withWriteLock seg fun seg =>
    (.ok, seg.setPoint pm.id
      { seg.points pm.id with
        type := pm.type
        unit := pm.unit
        access := pm.access
        partition := 0
        name := pm.name.strncpy nameMax })
  match stored with
  | (.ok, seg) => irtIndexInsert s seg 0 (seg.points pm.id).name pm.id
  | (rc, seg) => (rc, seg)

/-- The loop of `indurtdb_h_load_config` over the parsed points, with
`overall_rc`. -/
def loadConfigLoop (s : IrtShm) : List IrtPointMeta → Rc → Segment → Rc × Segment
  | [], overall, seg => (overall, seg)
  | pm :: rest, overall, seg =>
      if s.maxPoints ≤ pm.id then loadConfigLoop s rest overall seg
      else if indurtdbTypeFloat < pm.type.toNat then loadConfigLoop s rest overall seg
      else if pm.badValue then (.errArg, seg)
      else
        let configured := configurePoint s seg pm
        if configured.1 = .errFull then (.errFull, configured.2)
        else
          let overall := if configured.1 = .errBusy then .errBusy else overall
          if pm.hasMeta then
            let stored := irtMetaSet s configured.2 pm.id pm.pointMeta
            loadConfigLoop s rest (if stored.1 = .ok then overall else .errBusy) stored.2
          else loadConfigLoop s rest overall configured.2

/-- `indurtdb_h_load_config`, from the parsed points on. -/
def indurtdbHLoadConfig (h : IndurtdbH) (batch : List IrtPointMeta) : Rc × IndurtdbH :=
  if h.seg.hdr.offPoints = 0 ∨ h.shm.maxPoints = 0 then (.errArg, h)
  else
    let loaded := loadConfigLoop h.shm batch .ok h.seg
    (loaded.1, { h with seg := loaded.2 })

/-! ## The delta log -/

/-- `delta_apply`: the return codes of the operations are dropped.  The record
has no partition, so partition 0 is used. -/
def deltaApply (rec : IrtDeltaRec) (h : IndurtdbH) : Bool × IndurtdbH :=
  if rec.op = irtDeltaOpCreate then
    (true, (indurtdbHCreatePointIn h 0 rec.pointId rec.name rec.type.toNat rec.access.toNat).2)
  else if rec.op = irtDeltaOpDelete then (true, (indurtdbHDeletePointIn h 0 rec.pointId).2)
  else if rec.op = irtDeltaOpRename then
    (true, (indurtdbHRenamePointIn h 0 rec.pointId rec.name).2)
  else (false, h)

/-- `indurtdb_h_delta_replay` over the bytes of the log.  Appending is suppressed
while it runs. -/
def indurtdbHDeltaReplay (h : IndurtdbH) (file : List UInt8) : Nat × IndurtdbH :=
  let replayed := irtDeltaReplay deltaApply file { h with delta := none }
  (replayed.1, { replayed.2 with delta := h.delta })

end InduRtdb.Api
