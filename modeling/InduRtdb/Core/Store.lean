/-
  Core/Store.lean --- stores into the segment and the write lock around them.

  Source: `src/internal/irt_seqlock.h` and `irt_meta_set` of
  `src/core/irt_shm.c`.

  The two functions of the lock describe one call during which no other thread touches
  the word: the compare-exchange cannot fail, and an odd word stays odd through all the
  retries.
-/
import InduRtdb.Core.Shm

set_option autoImplicit false

namespace InduRtdb.Core

/-! ## The write lock -/

/-- `IRT_SEQLOCK_MAX_RETRY`. -/
abbrev irtSeqlockMaxRetry : Nat := 3

/-- Truncation to `uint64_t`. -/
def u64 (n : Nat) : Nat := n % 2 ^ 64

/-- `irt_seqlock_write_begin`: the value it returns and the word it leaves.  An
odd return value means that the lock was not taken. -/
def irtSeqlockWriteBegin (seq : Nat) : Nat × Nat :=
  if seq % 2 = 0 then (seq, u64 (seq + 1)) else (seq, seq)

/-- `irt_seqlock_write_end`: the word it stores. -/
def irtSeqlockWriteEnd (seq0 : Nat) : Nat := u64 (seq0 + 2)

theorem irtSeqlockWriteEnd_even {seq0 : Nat} (h : seq0 % 2 = 0) :
    irtSeqlockWriteEnd seq0 % 2 = 0 := by
  simp only [irtSeqlockWriteEnd, u64]
  omega

/-! ## Stores -/

namespace Segment

/-- Store one point record. -/
def setPoint (seg : Segment) (id : Nat) (p : IndurtdbPoint) : Segment :=
  { seg with points := Function.update seg.points id p }

/-- Store one index slot. -/
def setSlot (seg : Segment) (i : Nat) (slot : IrtIndexSlot) : Segment :=
  { seg with slots := Function.update seg.slots i slot }

/-- Store one metadata record. -/
def setMeta (seg : Segment) (id : Nat) (m : IndurtdbMeta) : Segment :=
  { seg with metas := Function.update seg.metas id m }

/-- Store `index_count`. -/
def setIndexCount (seg : Segment) (n : Nat) : Segment :=
  { seg with hdr := { seg.hdr with indexCount := n } }

/-- Store `write_seq`. -/
def setWriteSeq (seg : Segment) (seq : Nat) : Segment :=
  { seg with hdr := { seg.hdr with writeSeq := seq } }

section Fields

variable (seg : Segment) (id i n seq : Nat) (p : IndurtdbPoint) (slot : IrtIndexSlot)

@[simp] theorem setPoint_points :
    (seg.setPoint id p).points = Function.update seg.points id p := rfl
@[simp] theorem setPoint_slots : (seg.setPoint id p).slots = seg.slots := rfl
@[simp] theorem setPoint_hdr : (seg.setPoint id p).hdr = seg.hdr := rfl
@[simp] theorem setSlot_points : (seg.setSlot i slot).points = seg.points := rfl
@[simp] theorem setSlot_slots :
    (seg.setSlot i slot).slots = Function.update seg.slots i slot := rfl
@[simp] theorem setSlot_hdr : (seg.setSlot i slot).hdr = seg.hdr := rfl
@[simp] theorem setMeta_metas (m : IndurtdbMeta) :
    (seg.setMeta id m).metas = Function.update seg.metas id m := rfl
@[simp] theorem setIndexCount_points : (seg.setIndexCount n).points = seg.points := rfl
@[simp] theorem setIndexCount_slots : (seg.setIndexCount n).slots = seg.slots := rfl
@[simp] theorem setIndexCount_indexCount : (seg.setIndexCount n).hdr.indexCount = n := rfl
@[simp] theorem setWriteSeq_points : (seg.setWriteSeq seq).points = seg.points := rfl
@[simp] theorem setWriteSeq_slots : (seg.setWriteSeq seq).slots = seg.slots := rfl
@[simp] theorem setWriteSeq_writeSeq : (seg.setWriteSeq seq).hdr.writeSeq = seq := rfl
@[simp] theorem setWriteSeq_indexCount :
    (seg.setWriteSeq seq).hdr.indexCount = seg.hdr.indexCount := rfl

end Fields

end Segment

/-- Run a body under the write lock, as every writer of the segment
does: a lock held by somebody else is reported at once. -/
def withWriteLock (seg : Segment) (body : Segment → Rc × Segment) : Rc × Segment :=
  let begun := irtSeqlockWriteBegin seg.hdr.writeSeq
  if begun.1 % 2 = 1 then (.errBusy, seg)
  else
    let done := body (seg.setWriteSeq begun.2)
    (done.1, done.2.setWriteSeq (irtSeqlockWriteEnd begun.1))

/-- `irt_meta_set`. -/
def irtMetaSet (s : IrtShm) (seg : Segment) (id : Nat) (m : IndurtdbMeta) : Rc × Segment :=
  if s.maxPoints ≤ id then (.errArg, seg)
  else if seg.hdr.offMeta = 0 then (.errArg, seg)
  else withWriteLock seg fun seg => (.ok, seg.setMeta id m)

/-! ## The lock around a body -/

theorem withWriteLock_of_even {seg : Segment} {body : Segment → Rc × Segment}
    (h : seg.hdr.writeSeq % 2 = 0) :
    withWriteLock seg body =
      ((body (seg.setWriteSeq (u64 (seg.hdr.writeSeq + 1)))).1,
        (body (seg.setWriteSeq (u64 (seg.hdr.writeSeq + 1)))).2.setWriteSeq
          (irtSeqlockWriteEnd seg.hdr.writeSeq)) := by
  have hnot : ¬ seg.hdr.writeSeq % 2 = 1 := by omega
  simp only [withWriteLock, irtSeqlockWriteBegin, if_pos h, if_neg hnot]

end InduRtdb.Core
