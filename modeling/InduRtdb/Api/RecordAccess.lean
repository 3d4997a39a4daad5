/-
  Api/RecordAccess.lean --- a record of the delta log applied to the registry, one
  access at a time.

  Source: `delta_apply`, `indurtdb_h_create_point_in`, `indurtdb_h_delete_point_in`,
  `indurtdb_h_rename_point_in`, `h_point_register` and `delta_log` of
  `src/api/indurtdb.c`; `src/core/irt_index.c`.

  The functions are those of `Core/Index` and `Api/Registry` with their memory
  checked: the name of the record is its array, and a byte behind it faults; the
  point table ends at the capacity of the handle, and a point behind it faults.  The
  names in the table are arrays of their own and are taken as strings.
-/
import InduRtdb.Api.Registry
import InduRtdb.Core.DeltaFile
import InduRtdb.Core.IndexSpec

set_option autoImplicit false

namespace InduRtdb.Api.Raw

open InduRtdb.Core InduRtdb.Lib

/-! ## The array of the name -/

/-- The loop of `irt_index_compose_hash` over the name, up to a NUL. -/
def hashLoop : UInt32 → List UInt8 → Option UInt32
  | _, [] => none
  | h, b :: rest => if b = 0 then some h else hashLoop (fnvStep h b) rest

/-- `irt_index_compose_hash`. -/
def irtIndexComposeHash (partition : UInt32) (name : List UInt8) : Option UInt32 := do
  let h ← hashLoop (((List.range 4).map (partitionByte partition)).foldl fnvStep 0x811C9DC5) name
  let h := (h ^^^ (h >>> 16)) * fnvPrime
  some ((h ^^^ (h >>> 13)) * fnvPrime)

/-- `strncmp(…, name, n) == 0`, with the bytes of a name in the table. -/
def strncmpLoop : Nat → List UInt8 → List UInt8 → Option Bool
  | 0, _, _ => some true
  | _ + 1, _, [] => none
  | _ + 1, [], b :: _ => some (b == 0)
  | n + 1, a :: as, b :: bs => if a = b then strncmpLoop n as bs else some false

/-- A name in the table compared with the name of the record. -/
def strncmpEq (name : List UInt8) (n : Nat) (stored : CStr) : Option Bool :=
  strncmpLoop n stored.bytes name

/-- The bytes `strncpy` copies, up to a NUL. -/
def strncpyLoop : Nat → List UInt8 → Option (List UInt8)
  | 0, _ => some []
  | _ + 1, [] => none
  | n + 1, b :: bs => if b = 0 then some [] else (strncpyLoop n bs).map (b :: ·)

/-- `strncpy(dst, name, n); dst[n] = '\0'`. -/
def strncpy (name : List UInt8) (n : Nat) : Option CStr := (strncpyLoop n name).map .ofBytes

/-! ## The point table -/

/-- A load from `pts[id]`. -/
def pointAt (s : IrtShm) (seg : Segment) (id : Nat) : Option IndurtdbPoint :=
  if id < s.maxPoints then some (seg.points id) else none

/-- A store to `pts[id]`. -/
def setPointAt (s : IrtShm) (seg : Segment) (id : Nat) (p : IndurtdbPoint) : Option Segment :=
  if id < s.maxPoints then some (seg.setPoint id p) else none

/-- `irt_index_slot_matches`; `same` compares the name of the point. -/
def irtIndexSlotMatches (s : IrtShm) (seg : Segment) (hash partition : UInt32)
    (same : CStr → Option Bool) (slot : IrtIndexSlot) : Option Bool :=
  if slot.hash ≠ hash then some false
  else if slot.pointId = irtIndexEmpty ∨ slot.pointId = irtIndexTombstone then some false
  else do
    let p ← pointAt s seg slot.pointId
    if p.partition ≠ partition then some false else same p.name

/-- The probe loop of `irt_index_probe` and `irt_index_remove_locked`. -/
def irtIndexProbeLoop (s : IrtShm) (ix : IrtIndex) (seg : Segment) (hash partition : UInt32)
    (same : CStr → Option Bool) : Nat → Nat → Option (Option Nat)
  | 0, _ => some none
  | n + 1, d =>
      let i := ix.slotIndex hash d
      if (seg.slots i).pointId = irtIndexEmpty then some none
      else if (seg.slots i).pointId = irtIndexTombstone then
        irtIndexProbeLoop s ix seg hash partition same n (d + 1)
      else do
        let found ← irtIndexSlotMatches s seg hash partition same (seg.slots i)
        if found then some (some i) else irtIndexProbeLoop s ix seg hash partition same n (d + 1)

/-- The probe loop of `irt_index_insert_locked`. -/
def irtIndexInsertLoop (s : IrtShm) (ix : IrtIndex) (seg : Segment) (hash partition : UInt32)
    (same : CStr → Option Bool) : Nat → Nat → Option Nat → Option Probe.Place
  | 0, _, none => some .full
  | 0, _, some t => some (.free t)
  | n + 1, d, tomb =>
      let i := ix.slotIndex hash d
      if (seg.slots i).pointId = irtIndexEmpty then some (.free (tomb.getD i))
      else if (seg.slots i).pointId = irtIndexTombstone then
        irtIndexInsertLoop s ix seg hash partition same n (d + 1) (tomb.or (some i))
      else do
        let found ← irtIndexSlotMatches s seg hash partition same (seg.slots i)
        if found then some (.hit i)
        else irtIndexInsertLoop s ix seg hash partition same n (d + 1) tomb

/-- `irt_index_probe` under the name of the record. -/
def irtIndexProbe (s : IrtShm) (ix : IrtIndex) (seg : Segment) (partition : UInt32)
    (name : List UInt8) : Option (Except Rc Nat) := do
  let hash ← irtIndexComposeHash partition name
  let found ← irtIndexProbeLoop s ix seg hash partition (strncmpEq name nameMax) ix.capacity 0
  match found with
  | some i => some (.ok (seg.slots i).pointId)
  | none => some (.error .errNotFound)

/-- The attempts of `irt_index_lookup`. -/
def irtIndexLookupAttempts (s : IrtShm) (ix : IrtIndex) (seg : Segment) (partition : UInt32)
    (name : List UInt8) : Nat → Option (Except Rc Nat)
  | 0 => some (.error .errBusy)
  | n + 1 =>
      if seg.hdr.writeSeq % 2 = 1 then irtIndexLookupAttempts s ix seg partition name n
      else irtIndexProbe s ix seg partition name

/-- `irt_index_lookup`. -/
def irtIndexLookup (s : IrtShm) (seg : Segment) (partition : UInt32) (name : List UInt8) :
    Option (Except Rc Nat) := do
  let first ← name.head?
  if first = 0 then some (.error .errArg)
  else match irtIndexBind s seg.hdr with
  | none => some (.error .errArg)
  | some ix =>
      if seg.hdr.offPoints = 0 then some (.error .errArg)
      else irtIndexLookupAttempts s ix seg partition name irtIndexMaxRetry

/-- `irt_index_insert_locked`. -/
def irtIndexInsertLocked (s : IrtShm) (seg : Segment) (partition : UInt32) (name : List UInt8)
    (pointId : Nat) : Option (Rc × Segment) := do
  let first ← name.head?
  if first = 0 then some (.errArg, seg)
  else match irtIndexBind s seg.hdr with
  | none => some (.errArg, seg)
  | some ix =>
      if seg.hdr.offPoints = 0 ∨ s.maxPoints ≤ pointId then some (.errArg, seg)
      else do
        let p ← pointAt s seg pointId
        let seg ← setPointAt s seg pointId { p with partition := partition }
        let hash ← irtIndexComposeHash partition name
        let place ← irtIndexInsertLoop s ix seg hash partition (strncmpEq name nameMax)
          ix.capacity 0 none
        match place with
        | .hit i => some (.ok, seg.setSlot i { seg.slots i with pointId := pointId })
        | .free i =>
            some (.ok,
              (seg.setSlot i ⟨hash, pointId⟩).setIndexCount (u32 (seg.hdr.indexCount + 1)))
        | .full => some (.errFull, seg)

/-- `irt_index_remove_locked` under a name of the table. -/
def irtIndexRemoveLocked (s : IrtShm) (seg : Segment) (partition : UInt32) (old : CStr) :
    Option (Rc × Segment) :=
  if old.isEmpty then some (.errArg, seg)
  else match irtIndexBind s seg.hdr with
  | none => some (.errArg, seg)
  | some ix =>
      if seg.hdr.offPoints = 0 then some (.errArg, seg)
      else do
        let found ← irtIndexProbeLoop s ix seg (Core.irtIndexComposeHash partition old) partition
          (fun stored => some (stored.strncmpEq old nameMax)) ix.capacity 0
        match found with
        | none => some (.errNotFound, seg)
        | some i =>
            some (.ok, (seg.setSlot i { seg.slots i with
              pointId := irtIndexTombstone }).setIndexCount (seg.hdr.indexCount - 1))

/-- Run a body under the write lock. -/
def withWriteLock (seg : Segment) (body : Segment → Option (Rc × Segment)) :
    Option (Rc × Segment) :=
  let begun := irtSeqlockWriteBegin seg.hdr.writeSeq
  if begun.1 % 2 = 1 then some (.errBusy, seg)
  else do
    let done ← body (seg.setWriteSeq begun.2)
    some (done.1, done.2.setWriteSeq (irtSeqlockWriteEnd begun.1))

/-! ## The registry -/

/-- `h_point_register`. -/
def hPointRegister (s : IrtShm) (seg : Segment) (partition : UInt32) (id : Nat)
    (name : List UInt8) (type access : UInt8) : Option Segment := do
  let p ← pointAt s seg id
  let copied ← strncpy name nameMax
  setPointAt s seg id
    { p with
      type := type
      access := access
      unit := 0
      partition := partition
      quality := indurtdbQualityGood
      value := List.replicate 32 0
      name := copied }

/-- Another id is found under the name. -/
def nameTaken (h : IndurtdbH) (partition : UInt32) (name : List UInt8) (id : Nat) : Option Bool := do
  let found ← irtIndexLookup h.shm h.seg partition name
  match found with
  | .ok exist => some (exist != id)
  | .error _ => some false

/-- `delta_log`. -/
def deltaLog (h : IndurtdbH) (op id : Nat) (type access : UInt8) (name : List UInt8) :
    Option IndurtdbH :=
  match h.delta with
  | none => some h
  | some file => do
      let copied ← strncpy name nameMax
      some { h with delta := some (irtDeltaAppend file (deltaRec op id type access copied)
        sizeofDeltaRec).1 }

/-- The rollback of `indurtdb_h_create_point_in`. -/
def unregister (s : IrtShm) (seg : Segment) (id : Nat) : Option Segment := do
  let done ← withWriteLock seg fun seg => do
    let p ← pointAt s seg id
    let seg ← setPointAt s seg id { p with name := CStr.empty }
    some (.ok, seg)
  some done.2

/-- The locked part of `indurtdb_h_create_point_in`. -/
def registerLocked (s : IrtShm) (seg : Segment) (partition : UInt32) (id : Nat)
    (name : List UInt8) (type access : UInt8) : Option (Rc × Segment) := do
  let p ← pointAt s seg id
  if p.name.isEmpty then do
    let seg ← hPointRegister s seg partition id name type access
    some (.ok, seg)
  else some (.errFull, seg)

/-- `indurtdb_h_create_point_in`. -/
def indurtdbHCreatePointIn (h : IndurtdbH) (partition : UInt32) (id : Nat) (name : List UInt8)
    (type access : Int) : Option (Rc × IndurtdbH) := do
  let first ← name.head?
  if first = 0 then some (.errArg, h)
  else if type < 0 ∨ indurtdbTypeFloat < type then some (.errArg, h)
  else if access ≠ indurtdbAccessReadOnly.toNat ∧ access ≠ indurtdbAccessReadWrite.toNat then
    some (.errArg, h)
  else if h.shm.maxPoints ≤ id then some (.errArg, h)
  else do
    let taken ← nameTaken h partition name id
    if taken then some (.errArg, h)
    else do
      let registered ← withWriteLock h.seg fun seg =>
        registerLocked h.shm seg partition id name (.ofNat type.toNat) (.ofNat access.toNat)
      match registered with
      | (.ok, seg) => do
          let inserted ← withWriteLock seg fun seg =>
            irtIndexInsertLocked h.shm seg partition name id
          match inserted with
          | (.ok, seg) => do
              let h ← deltaLog { h with seg := seg } irtDeltaOpCreate id (.ofNat type.toNat)
                (.ofNat access.toNat) name
              some (.ok, h)
          | (rc, seg) => do
              let seg ← unregister h.shm seg id
              some (rc, { h with seg := seg })
      | (rc, seg) => some (rc, { h with seg := seg })

/-- The locked part of `indurtdb_h_delete_point_in`. -/
def deleteLocked (s : IrtShm) (seg : Segment) (partition : UInt32) (id : Nat) :
    Option (Rc × Segment) := do
  let p ← pointAt s seg id
  if p.name.isEmpty then some (.errNotFound, seg)
  else if p.partition ≠ partition then some (.errNotFound, seg)
  else do
    let removed ← irtIndexRemoveLocked s seg p.partition p.name
    let p ← pointAt s removed.2 id
    let seg ← setPointAt s removed.2 id { p with name := CStr.empty }
    some (.ok, seg)

/-- `indurtdb_h_delete_point_in`. -/
def indurtdbHDeletePointIn (h : IndurtdbH) (partition : UInt32) (id : Nat) :
    Option (Rc × IndurtdbH) :=
  if h.shm.maxPoints ≤ id then some (.errArg, h)
  else do
    let deleted ← withWriteLock h.seg fun seg => deleteLocked h.shm seg partition id
    match deleted with
    | (.ok, seg) =>
        some (.ok, Api.deltaLog { h with seg := seg } irtDeltaOpDelete id 0 0 CStr.empty)
    | (rc, seg) => some (rc, { h with seg := seg })

/-- The locked part of `indurtdb_h_rename_point_in`. -/
def renameLocked (s : IrtShm) (seg : Segment) (partition : UInt32) (id : Nat)
    (name : List UInt8) : Option (Renamed × Segment) := do
  let p ← pointAt s seg id
  if p.name.isEmpty ∨ p.partition ≠ partition then some (.failed .errNotFound, seg)
  else do
    let same ← strncmpEq name 64 p.name
    if same then some (.same, seg)
    else do
      let inserted ← irtIndexInsertLocked s seg partition name id
      match inserted with
      | (.ok, seg) => do
          let p ← pointAt s seg id
          let removed ← irtIndexRemoveLocked s seg partition p.name
          let p ← pointAt s removed.2 id
          let copied ← strncpy name nameMax
          let seg ← setPointAt s removed.2 id { p with name := copied }
          some (.changed, seg)
      | (_, seg) => some (.failed .errFull, seg)

/-- `indurtdb_h_rename_point_in`. -/
def indurtdbHRenamePointIn (h : IndurtdbH) (partition : UInt32) (id : Nat) (name : List UInt8) :
    Option (Rc × IndurtdbH) := do
  let first ← name.head?
  if first = 0 then some (.errArg, h)
  else if h.shm.maxPoints ≤ id then some (.errArg, h)
  else do
    let taken ← nameTaken h partition name id
    if taken then some (.errArg, h)
    else
      let begun := irtSeqlockWriteBegin h.seg.hdr.writeSeq
      if begun.1 % 2 = 1 then some (.errBusy, h)
      else do
        let renamed ← renameLocked h.shm (h.seg.setWriteSeq begun.2) partition id name
        let h := { h with seg := renamed.2.setWriteSeq (irtSeqlockWriteEnd begun.1) }
        match renamed.1 with
        | .failed rc => some (rc, h)
        | .same => some (.ok, h)
        | .changed => do
            let p ← pointAt h.shm h.seg id
            let h ← deltaLog h irtDeltaOpRename id p.type p.access name
            some (.ok, h)

/-- `delta_apply`. -/
def deltaApply (r : RawRec) (h : IndurtdbH) : Option (Bool × IndurtdbH) :=
  if r.fields.op = irtDeltaOpCreate then do
    let done ← indurtdbHCreatePointIn h 0 r.fields.pointId r.name r.fields.type.toNat
      r.fields.access.toNat
    some (true, done.2)
  else if r.fields.op = irtDeltaOpDelete then do
    let done ← indurtdbHDeletePointIn h 0 r.fields.pointId
    some (true, done.2)
  else if r.fields.op = irtDeltaOpRename then do
    let done ← indurtdbHRenamePointIn h 0 r.fields.pointId r.name
    some (true, done.2)
  else some (false, h)

end InduRtdb.Api.Raw
