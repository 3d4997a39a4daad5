/-
  Core/PointManager.lean --- the operations on the segment that take the write
  lock, as programs of single loads and stores.

  Source: `src/core/irt_point_manager.c`, `irt_meta_set` of `src/core/irt_shm.c`,
  `irt_index_insert` and `irt_index_remove` of `src/core/irt_index.c`.

  The lock word and `stats.writes` are kept by the system the operations run in
  (`Writers`), so `hdr.writeSeq` and `hdr.statsWrites` of the segment are not used
  here.  Neither are `stats.timeouts` and `scan_skipped`, which no operation reads.
-/
import InduRtdb.Core.Index
import InduRtdb.Core.SeqlockSteps

set_option autoImplicit false

namespace InduRtdb.Core

open InduRtdb.Lib InduRtdb.Spec

/-! ## Bodies -/

/-- What a section reports: the code the call returns, or that the scan passes on
to the next point. -/
inductive SectionResult where
  | returns (rc : Rc)
  | notDue
  deriving DecidableEq

/-- The operation succeeded. -/
def SectionResult.success : SectionResult → Bool
  | .returns .ok => true
  | _ => false

/-- Store to the fields of one point, one after the other. -/
def storePoint (id : Nat) (fs : List (IndurtdbPoint → IndurtdbPoint))
    (k : Prog Segment SectionResult) : Prog Segment SectionResult :=
  fs.foldr (fun f rest => .store (fun seg => seg.setPoint id (f (seg.points id))) rest) k

/-- The union after a store of `bytes` at `offset`. -/
def storeValue (offset : Nat) (bytes : List UInt8) (p : IndurtdbPoint) : IndurtdbPoint :=
  { p with value := p.value.take offset ++ bytes ++ p.value.drop (offset + bytes.length) }

/-- The stores of the `switch` of `pm_write_impl_q` on the union.  `value` is the
memory the caller's pointer names; a string is copied one byte at a time. -/
def pmValueStores (type : UInt8) (value : List UInt8) : List (IndurtdbPoint → IndurtdbPoint) :=
  if type.toNat = indurtdbTypeBool then [storeValue 0 (value.take 1)]
  else if type.toNat = indurtdbTypeInt32 then [storeValue 0 (value.take 4)]
  else if type.toNat = indurtdbTypeInt64 then [storeValue 0 (value.take 8)]
  else if type.toNat = indurtdbTypeUint32 then [storeValue 0 (value.take 4)]
  else if type.toNat = indurtdbTypeFloat then [storeValue 0 (value.take 4)]
  else if type.toNat = indurtdbTypeDouble then [storeValue 0 (value.take 8)]
  else if type.toNat = indurtdbTypeString then
    (List.range 31).map (fun i => storeValue i [(CStr.ofBytes value).bytes.getD i 0])
      ++ [storeValue 31 [0]]
  else []

/-- The section of `pm_write_impl_q`; `now` is what `irt_time_realtime_ns` returns
in it.  `-3` is reported as `INDURTDB_ERR_READ_ONLY`. -/
def pmWriteBody (id : Nat) (type : UInt8) (value : List UInt8) (sourceTsNs : Nat)
    (quality : UInt8) (now : Nat) : Prog Segment SectionResult :=
  .load fun seg =>
    if (seg.points id).access = indurtdbAccessReadOnly then .ret (.returns .errReadOnly)
    else
      storePoint id
        ([fun p => { p with type := type }] ++ pmValueStores type value ++
          [fun p => { p with timestampNs := now }, fun p => { p with quality := quality },
            fun p => { p with sourceTimestampNs := sourceTsNs }])
        (.ret (.returns .ok))

/-- The section of `irt_pm_set_quality`. -/
def pmSetQualityBody (id : Nat) (quality : UInt8) : Prog Segment SectionResult :=
  storePoint id [fun p => { p with quality := quality }] (.ret (.returns .ok))

/-- The second check of `irt_pm_check_timeouts`, made under the lock: the point is
not timed out after all. -/
def PmNotDue (now timeoutNs : Nat) (p : IndurtdbPoint) : Prop :=
  p.timestampNs = 0 ∨ now ≤ p.timestampNs ∨ p.quality = indurtdbQualityTimeout ∨
    now - p.timestampNs ≤ timeoutNs

instance (now timeoutNs : Nat) (p : IndurtdbPoint) : Decidable (PmNotDue now timeoutNs p) :=
  inferInstanceAs (Decidable (_ ∨ _ ∨ _ ∨ _))

/-- The section of `irt_pm_check_timeouts` for one point.  The limit bits of the
quality are kept. -/
def pmMarkTimeoutBody (id now timeoutNs : Nat) : Prog Segment SectionResult :=
  .load fun seg =>
    if PmNotDue now timeoutNs (seg.points id) then .ret .notDue
    else
      storePoint id
        [fun p => { p with
          quality := indurtdbQualityMake indurtdbQualityTimeout (indurtdbQualityLimit p.quality) }]
        (.ret (.returns .ok))

/-- The section of `irt_meta_set`. -/
def metaSetBody (id : Nat) (m : IndurtdbMeta) : Prog Segment SectionResult :=
  .store (fun seg => seg.setMeta id m) (.ret (.returns .ok))

/-- The search of `irt_index_insert_locked` for the place of the entry of `partition`
and `name`. -/
def indexPlace (ix : IrtIndex) (seg : Segment) (partition : UInt32) (name : CStr) : Probe.Place :=
  irtIndexInsertLoop ix seg (irtIndexComposeHash partition name) partition name ix.capacity 0 none

/-- The section of `irt_index_insert`. -/
def indexInsertBody (s : IrtShm) (partition : UInt32) (name : CStr) (pointId : Nat) :
    Prog Segment SectionResult :=
  .load fun seg =>
    if name.isEmpty then .ret (.returns .errArg)
    else match irtIndexBind s seg.hdr with
    | none => .ret (.returns .errArg)
    | some ix =>
        if seg.hdr.offPoints = 0 ∨ s.maxPoints ≤ pointId then .ret (.returns .errArg)
        else
          storePoint pointId [fun p => { p with partition := partition }] <| .load fun seg =>
            match indexPlace ix seg partition name with
            | .hit i =>
                .store (fun seg => seg.setSlot i { seg.slots i with pointId := pointId })
                  (.ret (.returns .ok))
            | .free i =>
                .store (fun seg =>
                    seg.setSlot i { seg.slots i with hash := irtIndexComposeHash partition name }) <|
                .store (fun seg => seg.setSlot i { seg.slots i with pointId := pointId }) <|
                .store (fun seg => seg.setIndexCount (u32 (seg.hdr.indexCount + 1)))
                  (.ret (.returns .ok))
            | .full => .ret (.returns .errFull)

/-- The section of `irt_index_remove`. -/
def indexRemoveBody (s : IrtShm) (partition : UInt32) (name : CStr) :
    Prog Segment SectionResult :=
  .load fun seg =>
    if name.isEmpty then .ret (.returns .errArg)
    else match irtIndexBind s seg.hdr with
    | none => .ret (.returns .errArg)
    | some ix =>
        if seg.hdr.offPoints = 0 then .ret (.returns .errArg)
        else
          match irtIndexProbeLoop ix seg (irtIndexComposeHash partition name) partition name
              ix.capacity 0 with
          | none => .ret (.returns .errNotFound)
          | some i =>
              .store (fun seg => seg.setSlot i { seg.slots i with pointId := irtIndexTombstone }) <|
              .store (fun seg => seg.setIndexCount (seg.hdr.indexCount - 1))
                (.ret (.returns .ok))

/-! ## Run alone, the bodies are the functions -/

theorem indexInsertBody_run (s : IrtShm) (seg : Segment) (partition : UInt32) (name : CStr)
    (pointId : Nat) :
    (indexInsertBody s partition name pointId).run seg =
      (.returns (irtIndexInsertLocked s seg partition name pointId).1,
        (irtIndexInsertLocked s seg partition name pointId).2) := by
  simp only [indexInsertBody, irtIndexInsertLocked, Prog.run_load]
  split
  · rfl
  · cases irtIndexBind s seg.hdr with
    | none => rfl
    | some ix =>
        simp only
        split
        · rfl
        · simp only [storePoint, List.foldr_cons, List.foldr_nil, Prog.run_store, Prog.run_load]
          change ((match indexPlace ix _ partition name with
            | .hit i => _ | .free i => _ | .full => _ : Prog Segment SectionResult).run _) = _
          simp only [indexPlace]
          cases irtIndexInsertLoop ix _ (irtIndexComposeHash partition name) partition name
              ix.capacity 0 none with
          | hit i => rfl
          | free i =>
              simp only [Prog.run_store, Prog.run_ret]
              congr 1
              simp [Segment.setIndexCount, Segment.setSlot]
          | full => rfl

theorem indexRemoveBody_run (s : IrtShm) (seg : Segment) (partition : UInt32) (name : CStr) :
    (indexRemoveBody s partition name).run seg =
      (.returns (irtIndexRemoveLocked s seg partition name).1,
        (irtIndexRemoveLocked s seg partition name).2) := by
  simp only [indexRemoveBody, irtIndexRemoveLocked, Prog.run_load]
  split
  · rfl
  · cases irtIndexBind s seg.hdr with
    | none => rfl
    | some ix =>
        simp only
        split
        · rfl
        · cases irtIndexProbeLoop ix seg (irtIndexComposeHash partition name) partition name
              ix.capacity 0 with
          | none => rfl
          | some i => rfl

end InduRtdb.Core
