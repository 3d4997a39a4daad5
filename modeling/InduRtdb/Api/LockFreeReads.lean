/-
  Api/LockFreeReads.lean --- lookups and metadata reads among writers.

  Source: `irt_index_lookup` of `src/core/irt_index.c`, `irt_meta_get` of
  `src/core/irt_shm.c`; the writers are all the sections of `Api/Sections.lean`.
-/
import InduRtdb.Core.Snapshot
import InduRtdb.Api.Sections

set_option autoImplicit false

namespace InduRtdb.Api

open InduRtdb.Core InduRtdb.Lib InduRtdb.Spec

/-! ## The calls -/

/-- A call that takes no lock, through the handle `s`.  A metadata record is copied
in any order that leaves out no field. -/
inductive LockFreeCall where
  | lookup (s : IrtShm) (partition : UInt32) (name : CStr)
  | metaGet (s : IrtShm) (id : Nat) (out : IndurtdbMeta) (order : List MetaField)
      (whole : ∀ f, f ∈ order)

/-- What a call finds. -/
inductive Found where
  | id (id : Nat)
  | record (m : IndurtdbMeta)
  deriving DecidableEq

/-- The checks before the first load. -/
def LockFreeCall.refuses : LockFreeCall → Segment → Option Rc
  | .lookup s _ name, seg =>
      if name.isEmpty then some .errArg
      else if (irtIndexBind s seg.hdr).isNone then some .errArg
      else if seg.hdr.offPoints = 0 then some .errArg
      else none
  | .metaGet s id _ _ _, seg =>
      if s.maxPoints ≤ id then some .errArg
      else if seg.hdr.offMeta = 0 then some .errArg
      else none

/-- What one attempt reads. -/
def LockFreeCall.body : LockFreeCall → Reads SegAccess SegAccess.Val (Except Rc Found)
  | .lookup s partition name =>
      (probeReads (indexView s.maxPoints) (irtIndexComposeHash partition name) partition name
        (irtLayoutBuckets s.maxPoints) 0).bind fun result => .ret (result.map .id)
  | .metaGet _ id out order _ =>
      (metaReads id order out).bind fun m => .ret (.ok (.record m))

/-- The call, access by access. -/
def LockFreeCall.snapshot (call : LockFreeCall) : SnapshotCall Found where
  refuses := call.refuses
  attempts := irtIndexMaxRetry
  body := call.body

/-- The same call, run alone. -/
def LockFreeCall.alone : LockFreeCall → Segment → Except Rc Found
  | .lookup s partition name, seg => (irtIndexLookup s seg partition name).map .id
  | .metaGet s id _ _ _, seg => (irtMetaGet s seg id).map .record

/-- The handle was accepted on a segment of `N` points. -/
def LockFreeCall.Accepted (N : Nat) : LockFreeCall → Prop
  | .lookup s _ _ => s.maxPoints ≤ N
  | .metaGet s _ _ _ _ => s.maxPoints ≤ N

variable {Tid Op : Type} [DecidableEq Tid]

/-- The segment at an instant, with its lock word. -/
def segmentAt (w : Writers Tid Op Segment SectionResult) : Segment := w.data.setWriteSeq w.writeSeq

/-! ## What is wanted -/

/-- A call that has returned, or is on its way, among writers of a segment of `N`
points. -/
structure LockFree (N : Nat) (call : LockFreeCall)
    (past : List (Watched Tid Op SectionResult Found))
    (s : Watched Tid Op SectionResult Found) : Prop where
  /-- a result is that of the call run alone at an instant at which nobody was inside -/
  linearizable : ∀ result, s.reader = .done result →
    ∃ p, p ∈ past ∧ p.reader.Loading ∧ p.writers.Free ∧ result = call.alone (segmentAt p.writers)
  /-- an argument error is that of the call run alone at the instant of the call -/
  argument : ∀ rc, s.reader = .refused rc →
    ∃ p, p ∈ past ∧ p.reader = .idle ∧ .error rc = call.alone (segmentAt p.writers)
  /-- no slot names a point outside the table -/
  slots : ∀ i, i < irtLayoutBuckets N → (s.writers.data.slots i).Valid N
  /-- the next load is inside its table -/
  inRange : ∀ k s0 mark a rest, s.reader = .reading k s0 mark (.get a rest) → a.InRange N

/-! ## The calls run alone -/

theorem look_setWriteSeq (seg : Segment) (seq : Nat) : (seg.setWriteSeq seq).look = seg.look := by
  funext a
  cases a <;> rfl

theorem alone_of_refuses {call : LockFreeCall} {seg : Segment} {rc : Rc} {seq : Nat}
    (h : call.refuses seg = some rc) : call.alone (seg.setWriteSeq seq) = .error rc := by
  cases call with
  | lookup s partition name =>
      simp only [LockFreeCall.refuses] at h
      simp only [LockFreeCall.alone, irtIndexLookup]
      split at h
      · obtain rfl := Option.some.inj h
        rename_i hname
        rw [if_pos hname]
        rfl
      · rename_i hname
        rw [if_neg hname]
        have hhdr : irtIndexBind s (seg.setWriteSeq seq).hdr = irtIndexBind s seg.hdr := rfl
        rw [hhdr]
        cases hbind : irtIndexBind s seg.hdr with
        | none =>
            rw [hbind] at h
            obtain rfl := Option.some.inj h
            rfl
        | some ix =>
            rw [hbind] at h
            simp only [Option.isNone_some, Bool.false_eq_true, if_false] at h
            split at h
            · obtain rfl := Option.some.inj h
              rename_i hoff
              have hoff : (seg.setWriteSeq seq).hdr.offPoints = 0 := hoff
              simp only [if_pos hoff]
              rfl
            · cases h
  | metaGet s id out order whole =>
      simp only [LockFreeCall.refuses] at h
      simp only [LockFreeCall.alone, irtMetaGet]
      split at h
      · obtain rfl := Option.some.inj h
        rename_i hid
        rw [if_pos hid]
        rfl
      · split at h
        · obtain rfl := Option.some.inj h
          rename_i hid hoff
          have hoff : (seg.setWriteSeq seq).hdr.offMeta = 0 := hoff
          rw [if_neg hid, if_pos hoff]
          rfl
        · cases h

theorem alone_of_passes {call : LockFreeCall} {seg : Segment} {seq : Nat}
    (h : call.refuses seg = none) (heven : seq % 2 = 0) :
    call.alone (seg.setWriteSeq seq) = call.body.run seg.look := by
  have hodd : ¬ (seg.setWriteSeq seq).hdr.writeSeq % 2 = 1 := by
    rw [Segment.setWriteSeq_writeSeq]
    omega
  cases call with
  | lookup s partition name =>
      simp only [LockFreeCall.refuses] at h
      split at h
      · cases h
      · rename_i hname
        split at h
        · cases h
        · rename_i hbound
          split at h
          · cases h
          · rename_i hpoints
            have hoff : seg.hdr.offIndex ≠ 0 := by
              intro hzero
              exact hbound (by simp [irtIndexBind, hzero])
            have hbind : irtIndexBind s (seg.setWriteSeq seq).hdr = some (indexView s.maxPoints) :=
              irtIndexBind_eq hoff
            have hpoints' : ¬ (seg.setWriteSeq seq).hdr.offPoints = 0 := hpoints
            simp only [LockFreeCall.alone, irtIndexLookup, if_neg hname, hbind, if_neg hpoints',
              irtIndexLookupAttempts, if_neg hodd]
            rw [← irtIndexProbe_eq, look_setWriteSeq, LockFreeCall.body, Reads.run_bind]
            rfl
  | metaGet s id out order whole =>
      simp only [LockFreeCall.refuses] at h
      split at h
      · cases h
      · rename_i hid
        split at h
        · cases h
        · rename_i hoff
          have hoff' : ¬ (seg.setWriteSeq seq).hdr.offMeta = 0 := hoff
          simp only [LockFreeCall.alone, irtMetaGet, if_neg hid, if_neg hoff', irtMetaGetAttempts,
            if_neg hodd]
          rw [LockFreeCall.body, Reads.run_bind, metaReads_run seg id order out
            fun f => Or.inl (whole f)]
          rfl

/-- The checks read nothing that a section changes. -/
theorem refuses_congr {N : Nat} {hdr : IrtHeader} {call : LockFreeCall} {seg seg' : Segment}
    (h : SlotsValid N hdr seg) (h' : SlotsValid N hdr seg') :
    call.refuses seg = call.refuses seg' := by
  obtain ⟨⟨count, hhdr⟩, -⟩ := h
  obtain ⟨⟨count', hhdr'⟩, -⟩ := h'
  cases call with
  | lookup s partition name => simp only [LockFreeCall.refuses, irtIndexBind, hhdr, hhdr']
  | metaGet s id out order whole => simp only [LockFreeCall.refuses, hhdr, hhdr']

theorem body_within {N : Nat} {call : LockFreeCall} {seg : Segment} (hcall : call.Accepted N)
    (h : call.refuses seg = none) :
    call.body.Within (SegAccess.InRange N) (SegAccess.Yields N) := by
  cases call with
  | lookup s partition name => exact (probeReads_within hcall _ _ _ _ _).bind fun _ => trivial
  | metaGet s id out order whole =>
      simp only [LockFreeCall.refuses] at h
      split at h
      · cases h
      · rename_i hid
        have hs : s.maxPoints ≤ N := hcall
        exact (metaReads_within (by omega) order out).bind fun _ => trivial

/-! ## Whole runs -/

section Runs

variable {N w₀ stats₀ : Nat} {seg₀ : Segment} {ops : Op → SegmentOp} {call : LockFreeCall}
  {past : List (Watched Tid Op SectionResult Found)} {s : Watched Tid Op SectionResult Found}

/-- As long as the word does not go all the way round between the two loads of an
attempt, lock-free calls are linearizable and stay inside the tables, whatever
operations the writers run through accepted handles, and in whatever order. -/
theorem lockFree_of_fewSections (hw₀ : w₀ < 2 ^ 64) (hcall : call.Accepted N)
    (hops : ∀ op, (ops op).Accepted N) (hvalid : SlotsValid N seg₀.hdr seg₀)
    (hrun : Run (Watched.Step (fun op => (ops op).job) call.snapshot FewSections)
      (Watched.start w₀ stats₀ seg₀) past s) : LockFree N call past s := by
  have hslots : ∀ p, p ∈ past → SlotsValid N seg₀.hdr p.writers.data := by
    intro p hp
    obtain ⟨past', hrun'⟩ := hrun.visited hp
    obtain ⟨wpast, hwriters, -⟩ := watched_writers hrun'
    exact Writers.run_keeps (fun op => job_keeps (hops op)) hvalid hwriters
  have hinv := attemptInv_of_run hw₀ hrun
  refine ⟨fun result hdone => ?_, fun rc hrefused => ?_, (hslots s hrun.last_mem).2, ?_⟩
  · obtain ⟨q, hq, hpasses⟩ := passed_of_run hrun (by simp [hdone]) (by simp [hdone])
    simp only [AttemptInv, hdone] at hinv
    obtain ⟨p, hp, hloading, heven, hfree, hresult⟩ := hinv
    refine ⟨p, hp, hloading, hfree, ?_⟩
    have hpasses' : call.refuses p.writers.data = none :=
      (refuses_congr (hslots p hp) (hslots q hq)).trans hpasses
    rw [segmentAt, alone_of_passes hpasses' heven]
    exact hresult
  · simp only [AttemptInv, hrefused] at hinv
    obtain ⟨p, hp, hidle, hfails⟩ := hinv
    exact ⟨p, hp, hidle, (alone_of_refuses hfails).symm⟩
  · intro k s0 mark a rest hat
    obtain ⟨q, hq, hpasses⟩ := passed_of_run hrun (by simp [hat]) (by simp [hat])
    exact (within_of_run (body_within hcall hpasses) hslots hrun k s0 mark _ hat).1

end Runs

/-- A fresh segment has valid slots. -/
theorem slotsValid_fresh {N M pid : Nat} (hfits : IndexOffsetFits N) :
    SlotsValid N (irtShmInitOwner N M pid).hdr (irtShmInitOwner N M pid) :=
  ⟨⟨0, rfl⟩, fun _ hi => Or.inl (irtShmInitOwner_slots hfits hi)⟩

/-! ## A word that goes all the way round -/

/-- The handle of the example. -/
abbrev exampleShm : IrtShm := irtShmRequest 4 1

/-- The metadata every writer of the example stores. -/
def newMeta : IndurtdbMeta := ⟨1, 1, 1, 1, 1⟩

/-- Metadata that no writer ever stored. -/
def tornMeta : IndurtdbMeta := ⟨0, 1, 1, 1, 1⟩

/-- The call of the example. -/
def exampleCall : LockFreeCall :=
  .metaGet exampleShm 0 IndurtdbMeta.zero [.eurMin, .eurMax, .deadband, .flags, .reserved]
    (by intro f; cases f <;> decide)

/-- The only operation of the example. -/
def exampleOp (_ : Unit) : SegmentOp := .writer (.metaSet exampleShm 0 newMeta)

/-- The writers of the example. -/
abbrev ExampleWriters : Type := Writers Unit Unit Segment SectionResult

/-- One writer can store the new metadata any number of times. -/
theorem example_repeat (n : Nat) :
    ∃ (past : List ExampleWriters) (w : ExampleWriters),
      Run (Writers.AllowedStep (fun op => (exampleOp op).job) fun _ _ => True)
        (Writers.start 0 0 (irtShmInitOwner 4 1 1)) past w ∧
      w.threads () = .idle ∧ w.writeSeq = u64 (2 * n) ∧ (0 < n → w.data.metas 0 = newMeta) ∧
      w.data.hdr.offMeta ≠ 0 := by
  induction n with
  | zero => exact ⟨_, _, .start, rfl, rfl, fun h => absurd h (Nat.lt_irrefl 0), by decide⟩
  | succ n ih =>
      obtain ⟨past, w, hrun, hidle, hword, -, hoff⟩ := ih
      have heven : w.writeSeq % 2 = 0 := by
        rw [hword, u64]
        omega
      have hready : (exampleOp ()).job.ready w.data = true := by
        simp [exampleOp, SegmentOp.job, WriterOp.job, exampleShm, irtShmRequest, hoff]
      obtain ⟨past', -, hrun'⟩ := Writers.run_alone () () hrun hidle hready heven trivial
      refine ⟨past', _, hrun', ?_, ?_, fun _ => ?_, hoff⟩
      · simp [Writers.ran, exampleOp, SegmentOp.job, WriterOp.job]
      · simp only [Writers.ran, irtSeqlockWriteEnd, hword, u64]
        omega
      · simp [Writers.ran, exampleOp, SegmentOp.job, WriterOp.job, metaSetBody]

/-- A writer stores the metadata while two of its fields have been copied: the check fails,
and the next attempt returns what was stored. -/
theorem lockFree_of_fewSections_retried :
    ∃ (past : List (Watched Unit Unit SectionResult Found)) (s : _),
      Run (Watched.Step (fun op => (exampleOp op).job) exampleCall.snapshot FewSections)
        (Watched.start 0 0 (irtShmInitOwner 4 1 1)) past s ∧
      s.reader = .done (.ok (.record newMeta)) ∧ LockFree 4 exampleCall past s := by
  have hstart : Run (Watched.Step (fun op => (exampleOp op).job) exampleCall.snapshot FewSections)
      (Watched.start 0 0 (irtShmInitOwner 4 1 1) : Watched Unit Unit SectionResult Found) _ _ :=
    .start
  have hcall := hstart.next (.reader (.call (by decide)) trivial)
  have heven := hcall.next (.reader (.even rfl) trivial)
  have hhalf := (heven.next (.reader .read trivial)).next (.reader .read trivial)
  obtain ⟨wpast, w, hwriters, -, hword, hnew, -⟩ := example_repeat 1
  have hmoved : (Watched.start 0 0 (irtShmInitOwner 4 1 1) :
      Watched Unit Unit SectionResult Found).writers.writeSeq ≠ w.writeSeq := by
    rw [hword]
    exact Nat.zero_ne_add_one 1
  obtain ⟨past, hwritten⟩ := watched_extend hhalf (hwriters.mono fun _ _ h => h.1)
  have hread := ((hwritten.next (.reader .read trivial)).next (.reader .read trivial)).next
    (.reader .read trivial)
  have hretry := hread.next (.reader .check fun h => absurd h hmoved)
  simp only [if_neg hmoved] at hretry
  have hagain := hretry.next (.reader (.even (by rw [hword]; rfl)) trivial)
  have hrest := (((hagain.next (.reader .read trivial)).next (.reader .read trivial)).next
    (.reader .read trivial)).next (.reader .read trivial)
  have hlast := hrest.next (.reader .read trivial)
  have hdone := hlast.next (.reader .check fun _ => Nat.lt_add_of_pos_right (by decide))
  refine ⟨_, _, hdone, ?_, lockFree_of_fewSections (by decide) (Nat.le_refl 4)
    (fun op => show SegmentOp.Accepted 4 (exampleOp op) from Nat.le_refl 4)
    (slotsValid_fresh (by decide)) hdone⟩
  refine (if_pos rfl).trans ?_
  have hmeta : w.data.metas 0 = newMeta := hnew (by decide)
  simp only [Segment.look, hmeta]
  refine congrArg (fun m : IndurtdbMeta => SnapshotPc.done (Except.ok (Found.record m))) ?_
  decide +kernel

/-- At every instant at which nobody is inside, the metadata is the old or the new
one. -/
theorem example_serial {log : List (Unit × SectionResult)} {seg : Segment}
    (h : Sections.Serial (fun op => (exampleOp op).job.body) (fun _ _ => True)
      (irtShmInitOwner 4 1 1) log seg) :
    seg.metas 0 = IndurtdbMeta.zero ∨ seg.metas 0 = newMeta := by
  induction h with
  | nil => exact Or.inl (by decide +kernel)
  | snoc _ _ hran =>
      obtain ⟨-, rfl⟩ := Prod.mk.inj hran
      exact Or.inr (by simp)

/-- So no call run alone at such an instant returns the torn record. -/
theorem example_alone {past : List (Watched Unit Unit SectionResult Found)}
    {p s : Watched Unit Unit SectionResult Found}
    (hrun : Run (Watched.Step (fun op => (exampleOp op).job) exampleCall.snapshot
      fun _ _ => True) (Watched.start 0 0 (irtShmInitOwner 4 1 1)) past s)
    (hp : p ∈ past) (hfree : p.writers.Free) :
    exampleCall.alone (segmentAt p.writers) ≠ .ok (.record tornMeta) := by
  obtain ⟨past', hrun'⟩ := hrun.visited hp
  obtain ⟨wpast, hwriters, -⟩ := watched_writers hrun'
  obtain ⟨a, href, hserial⟩ := Writers.run_refines (by decide) hwriters
  simp only [Sections.SerialInv, href.free_iff.mp hfree, ← href.data] at hserial
  intro halone
  have hmeta : tornMeta = p.writers.data.metas 0 := by
    cases hget : irtMetaGet exampleShm (segmentAt p.writers) 0 with
    | error rc => simp [LockFreeCall.alone, exampleCall, hget, Except.map] at halone
    | ok m =>
        have hm := irtMetaGet_ok hget
        simp only [LockFreeCall.alone, exampleCall, hget, Except.map, Except.ok.injEq,
          Found.record.injEq] at halone
        rw [← halone]
        exact hm
  rcases example_serial hserial with h | h
  · rw [h] at hmeta
    exact absurd hmeta (by decide)
  · rw [h] at hmeta
    exact absurd hmeta (by decide)

/-- A reader that copies one field, sleeps while the metadata is stored `2^63` times,
and copies the rest, finds the word where it was and returns metadata that was never
stored. -/
theorem not_lockFree :
    ¬ ∀ (N w₀ stats₀ : Nat) (seg₀ : Segment) (ops : Unit → SegmentOp) (call : LockFreeCall)
        (past : List (Watched Unit Unit SectionResult Found)) (s : _),
      w₀ < 2 ^ 64 → call.Accepted N → (∀ op, (ops op).Accepted N) →
      SlotsValid N seg₀.hdr seg₀ →
      Run (Watched.Step (fun op => (ops op).job) call.snapshot fun _ _ => True)
        (Watched.start w₀ stats₀ seg₀) past s →
      LockFree N call past s := by
  intro hall
  have hstart : Run (Watched.Step (fun op => (exampleOp op).job) exampleCall.snapshot
      fun _ _ => True) (Watched.start 0 0 (irtShmInitOwner 4 1 1) :
        Watched Unit Unit SectionResult Found) _ _ := .start
  have hcall := hstart.next (.reader (.call (by decide)) trivial)
  have heven := hcall.next (.reader (.even rfl) trivial)
  have hfirst := heven.next (.reader .read trivial)
  obtain ⟨wpast, w, hwriters, -, hword, hnew, -⟩ := example_repeat (2 ^ 63)
  obtain ⟨past, hslept⟩ := watched_extend hfirst (hwriters.mono fun _ _ h => h.1)
  have hsecond := hslept.next (.reader .read trivial)
  have hthird := hsecond.next (.reader .read trivial)
  have hfourth := hthird.next (.reader .read trivial)
  have hfifth := hfourth.next (.reader .read trivial)
  have hcheck := hfifth.next (.reader .check trivial)
  have hfree := hall 4 0 0 _ exampleOp exampleCall _ _ (by decide) (Nat.le_refl 4)
    (fun _ => Nat.le_refl 4) (slotsValid_fresh (by decide)) hcheck
  have hback : (0 : Nat) = w.writeSeq := by
    rw [hword]
    rfl
  have hmeta : w.data.metas 0 = newMeta := hnew (by decide)
  obtain ⟨p, hp, -, hout, halone⟩ := hfree.linearizable (.ok (.record tornMeta)) (by
    refine (if_pos hback).trans ?_
    simp only [Segment.look, hmeta]
    refine congrArg (fun m : IndurtdbMeta => SnapshotPc.done (Except.ok (Found.record m))) ?_
    decide +kernel)
  exact example_alone hcheck hp hout halone.symm

end InduRtdb.Api
