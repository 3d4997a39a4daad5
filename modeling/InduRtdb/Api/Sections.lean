/-
  Api/Sections.lean --- the locked sections of the registry operations, as programs
  of single loads and stores.

  Source: `src/api/indurtdb.c` (`h_point_register`, `indurtdb_h_create_point_in`,
  `indurtdb_h_delete_point_in`, `indurtdb_h_rename_point_in`).

  A creation takes the lock up to three times: to register the point, to insert its
  name (`irt_index_insert`), and to undo the registration if that failed.  Each is an
  operation of its own here, so they may come in any order and from any thread.
-/
import InduRtdb.Core.Serializable
import InduRtdb.Core.IndexReads
import InduRtdb.Api.Registry

set_option autoImplicit false

namespace InduRtdb.Api

open InduRtdb.Core InduRtdb.Lib

/-! ## Bodies -/

/-- The section that registers a point: `h_point_register` on a free slot. -/
def registerBody (partition : UInt32) (id : Nat) (name : CStr) (type access : UInt8) :
    Prog Segment SectionResult :=
  .load fun seg =>
    if (seg.points id).name.isEmpty then
      storePoint id
        [fun p => { p with type := type }, fun p => { p with access := access },
          fun p => { p with unit := 0 }, fun p => { p with partition := partition },
          fun p => { p with quality := indurtdbQualityGood },
          fun p => { p with value := List.replicate 32 0 },
          fun p => { p with name := name.strncpy nameMax }]
        (.ret (.returns .ok))
    else .ret (.returns .errFull)

/-- The section that undoes a registration. -/
def unregisterBody (id : Nat) : Prog Segment SectionResult :=
  storePoint id [fun p => { p with name := CStr.empty }] (.ret (.returns .ok))

/-- The section of `indurtdb_h_delete_point_in`. -/
def deleteBody (s : IrtShm) (partition : UInt32) (id : Nat) : Prog Segment SectionResult :=
  .load fun seg =>
    if (seg.points id).name.isEmpty then .ret (.returns .errNotFound)
    else if (seg.points id).partition ≠ partition then .ret (.returns .errNotFound)
    else
      (indexRemoveBody s (seg.points id).partition (seg.points id).name).bind fun _ =>
        storePoint id [fun p => { p with name := CStr.empty }] (.ret (.returns .ok))

/-- The section of `indurtdb_h_rename_point_in`. -/
def renameBody (s : IrtShm) (partition : UInt32) (id : Nat) (name : CStr) :
    Prog Segment SectionResult :=
  .load fun seg =>
    if (seg.points id).name.isEmpty ∨ (seg.points id).partition ≠ partition then
      .ret (.returns .errNotFound)
    else if (seg.points id).name.strncmpEq name 64 then .ret (.returns .ok)
    else
      (indexInsertBody s partition name id).bind fun result =>
        if result = .returns .ok then
          .load fun seg =>
            (indexRemoveBody s partition (seg.points id).name).bind fun _ =>
              storePoint id [fun p => { p with name := name.strncpy nameMax }]
                (.ret (.returns .ok))
        else .ret (.returns .errFull)

/-! ## Run alone, the bodies are the functions -/

theorem registerBody_run (seg : Segment) (partition : UInt32) (id : Nat) (name : CStr)
    (type access : UInt8) :
    (registerBody partition id name type access).run seg =
      (.returns (registerLocked seg partition id name type access).1,
        (registerLocked seg partition id name type access).2) := by
  rw [registerBody, Prog.run_load, registerLocked]
  split
  · simp [storePoint, hPointRegister, Segment.setPoint]
  · rfl

theorem deleteBody_run (s : IrtShm) (seg : Segment) (partition : UInt32) (id : Nat) :
    (deleteBody s partition id).run seg =
      (.returns (deleteLocked s seg partition id).1, (deleteLocked s seg partition id).2) := by
  rw [deleteBody, Prog.run_load, deleteLocked]
  split
  · rfl
  · split
    · rfl
    · rw [Prog.run_bind, indexRemoveBody_run]
      rfl

/-- The code a rename reports for what happened under the lock. -/
def Renamed.rc : Renamed → Rc
  | .failed rc => rc
  | .same => .ok
  | .changed => .ok

theorem renameBody_run (s : IrtShm) (seg : Segment) (partition : UInt32) (id : Nat)
    (name : CStr) :
    (renameBody s partition id name).run seg =
      (.returns (renameLocked s seg partition id name).1.rc,
        (renameLocked s seg partition id name).2) := by
  rw [renameBody, Prog.run_load, renameLocked]
  split
  · rfl
  · split
    · rfl
    · rw [Prog.run_bind, indexInsertBody_run]
      obtain ⟨rc, seg'⟩ := irtIndexInsertLocked s seg partition name id
      cases rc with
      | ok =>
          simp only [if_true, Prog.run_load, Prog.run_bind, indexRemoveBody_run]
          rfl
      | errArg | errNotFound | errFull | errNotInit | errBusy | errReadOnly =>
          simp only [SectionResult.returns.injEq, reduceCtorEq, if_false]
          rfl

/-! ## The operations -/

/-- Everything that takes the write lock of a segment, with the handle it is called
through. -/
inductive SegmentOp where
  | writer (op : WriterOp)
  | register (s : IrtShm) (partition : UInt32) (id : Nat) (name : CStr) (type access : UInt8)
  | unregister (s : IrtShm) (id : Nat)
  | delete (s : IrtShm) (partition : UInt32) (id : Nat)
  | rename (s : IrtShm) (partition : UInt32) (id : Nat) (name : CStr)

/-- A section of the registry: the id is checked before, the lock is tried
`IRT_SEQLOCK_MAX_RETRY` times. -/
def registryJob (s : IrtShm) (id : Nat) (body : Prog Segment SectionResult) :
    Job Segment SectionResult where
  ready _ := decide (id < s.maxPoints)
  attempts := irtSeqlockMaxRetry
  body := body
  counts _ := false

/-- How each operation takes the lock and what it does under it. -/
def SegmentOp.job : SegmentOp → Job Segment SectionResult
  | .writer op => op.job
  | .register s partition id name type access =>
      registryJob s id (registerBody partition id name type access)
  | .unregister s id => registryJob s id (unregisterBody id)
  | .delete s partition id => registryJob s id (deleteBody s partition id)
  | .rename s partition id name => registryJob s id (renameBody s partition id name)

/-- The handle was accepted on a segment of `N` points: it asked for at most as
many. -/
def SegmentOp.Accepted (N : Nat) : SegmentOp → Prop
  | .writer (.metaSet s _ _) => s.maxPoints ≤ N
  | .writer (.indexInsert s _ _ _) => s.maxPoints ≤ N
  | .writer (.indexRemove s _ _) => s.maxPoints ≤ N
  | .writer _ => True
  | .register s _ _ _ _ _ => s.maxPoints ≤ N
  | .unregister s _ => s.maxPoints ≤ N
  | .delete s _ _ => s.maxPoints ≤ N
  | .rename s _ _ _ => s.maxPoints ≤ N

/-! ## What no operation spoils -/

section Keeps

variable {N : Nat} {hdr : IrtHeader}

theorem storePoint_keeps {id : Nat} {fs : List (IndurtdbPoint → IndurtdbPoint)}
    {k : Prog Segment SectionResult} (hk : k.Keeps (SlotsValid N hdr)) :
    (storePoint id fs k).Keeps (SlotsValid N hdr) := by
  induction fs with
  | nil => exact hk
  | cons f fs ih => exact ⟨fun _ h => h, ih⟩

theorem indexInsertBody_keeps {s : IrtShm} {partition : UInt32} {name : CStr} {pointId : Nat}
    (hs : s.maxPoints ≤ N) :
    (indexInsertBody s partition name pointId).Keeps (SlotsValid N hdr) := by
  rw [indexInsertBody, Prog.keeps_load]
  intro seg _
  split
  · trivial
  · split
    · trivial
    · split
      · trivial
      · rename_i hid
        have hbelow : pointId < N := by omega
        refine storePoint_keeps (Prog.keeps_load.mpr fun seg _ => ?_)
        split
        · exact ⟨fun seg h => h.setSlot fun _ => .of_lt hbelow, trivial⟩
        · exact ⟨fun seg h => h.setSlot fun hi => (h.2 _ hi).of_pointId rfl,
            fun seg h => h.setSlot fun _ => .of_lt hbelow, fun _ h => h.setIndexCount, trivial⟩
        · trivial

theorem indexRemoveBody_keeps {s : IrtShm} {partition : UInt32} {name : CStr} :
    (indexRemoveBody s partition name).Keeps (SlotsValid N hdr) := by
  rw [indexRemoveBody, Prog.keeps_load]
  intro seg _
  split
  · trivial
  · split
    · trivial
    · split
      · trivial
      · split
        · trivial
        · exact ⟨fun seg h => h.setSlot fun _ => .tombstone rfl, fun _ h => h.setIndexCount, trivial⟩

/-- No operation through an accepted handle spoils a slot or moves a table. -/
theorem job_keeps {op : SegmentOp} (h : op.Accepted N) :
    op.job.body.Keeps (SlotsValid N hdr) := by
  cases op with
  | writer op =>
      cases op with
      | write id type value sourceTsNs quality now =>
          refine Prog.keeps_load.mpr fun seg _ => ?_
          split
          · trivial
          · exact storePoint_keeps trivial
      | setQuality id quality => exact storePoint_keeps trivial
      | markTimeout id now timeoutNs =>
          refine Prog.keeps_load.mpr fun seg _ => ?_
          split
          · trivial
          · exact storePoint_keeps trivial
      | metaSet s id m => exact ⟨fun _ h => h, trivial⟩
      | indexInsert s partition name pointId => exact indexInsertBody_keeps h
      | indexRemove s partition name => exact indexRemoveBody_keeps
  | register s partition id name type access =>
      refine Prog.keeps_load.mpr fun seg _ => ?_
      split
      · exact storePoint_keeps trivial
      · trivial
  | unregister s id => exact storePoint_keeps trivial
  | delete s partition id =>
      refine Prog.keeps_load.mpr fun seg _ => ?_
      split
      · trivial
      · split
        · trivial
        · exact indexRemoveBody_keeps.bind fun _ => storePoint_keeps trivial
  | rename s partition id name =>
      refine Prog.keeps_load.mpr fun seg _ => ?_
      split
      · trivial
      · split
        · trivial
        · refine (indexInsertBody_keeps h).bind fun result => ?_
          split
          · exact fun seg _ => indexRemoveBody_keeps.bind fun _ => storePoint_keeps trivial
          · trivial

end Keeps

end InduRtdb.Api
