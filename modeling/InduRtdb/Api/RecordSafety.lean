/-
  Api/RecordSafety.lean --- which records of the delta log are applied without a
  stray access.

  Source: as in `Api/RecordAccess`.

  Each function of `Api/RecordAccess` yields what its counterpart in `Core/Index` or
  `Api/Registry` does, and faults exactly where a condition on the record and the
  tables fails.
-/
import InduRtdb.Api.RecordAccess
import InduRtdb.Api.Changes
import InduRtdb.Api.Frames
import Mathlib.Data.List.TakeWhile

set_option autoImplicit false

namespace InduRtdb.Api.Raw

open InduRtdb.Core InduRtdb.Lib

/-! ## The name -/

section Name

variable {name : List UInt8} {n : Nat}

theorem ofBytes_cons {b : UInt8} (hb : b ≠ 0) (bs : List UInt8) :
    (CStr.ofBytes (b :: bs)).bytes = b :: (CStr.ofBytes bs).bytes :=
  List.takeWhile_cons_of_pos (p := fun b => decide (b ≠ 0)) (decide_eq_true hb)

theorem ofBytes_bytes (s : CStr) : CStr.ofBytes s.bytes = s := by
  refine CStr.ext_bytes (List.takeWhile_eq_self_iff.mpr fun b hb => ?_)
  exact decide_eq_true fun h => s.nulFree (h ▸ hb)

theorem hashLoop_yields (name : List UInt8) :
    ∀ h, Yields (hashLoop h name) (0 ∈ name) ((CStr.ofBytes name).bytes.foldl fnvStep h) := by
  induction name with
  | nil => exact fun h => ⟨fun hmem => absurd hmem List.not_mem_nil, fun _ => rfl⟩
  | cons b rest ih =>
      intro h
      rw [hashLoop]
      by_cases hb : b = 0
      · subst hb
        exact Yields.done h List.mem_cons_self
      · rw [if_neg hb, ofBytes_cons hb, List.foldl_cons]
        refine (ih (fnvStep h b)).congr ?_
        rw [List.mem_cons]
        exact ⟨Or.inr, fun hmem => hmem.resolve_left (Ne.symm hb)⟩

/-- The hash reads on until it meets a NUL. -/
theorem irtIndexComposeHash_yields (partition : UInt32) (name : List UInt8) :
    Yields (irtIndexComposeHash partition name) (0 ∈ name)
      (Core.irtIndexComposeHash partition (.ofBytes name)) :=
  Yields.congr (Yields.bind (hashLoop_yields name _) fun _ => Yields.pure _) (and_iff_left trivial)

theorem strncmpLoop_eq :
    ∀ (n : Nat) (stored name : List UInt8), (0 : UInt8) ∉ stored → n ≤ name.length →
      strncmpLoop n stored name =
        some (stored.take n == (CStr.ofBytes name).bytes.take n) := by
  intro n
  induction n with
  | zero => exact fun _ _ _ _ => rfl
  | succ n ih =>
      intro stored name hfree hlen
      cases name with
      | nil => exact absurd hlen (Nat.not_succ_le_zero n)
      | cons b bs =>
          cases stored with
          | nil =>
              by_cases hb : b = 0
              · subst hb
                rfl
              · rw [ofBytes_cons hb]
                simp [strncmpLoop, hb]
          | cons a as =>
              have ha : a ≠ 0 := fun h => hfree (h ▸ List.mem_cons_self)
              have has : (0 : UInt8) ∉ as := fun h => hfree (List.mem_cons_of_mem a h)
              rw [strncmpLoop]
              by_cases hab : a = b
              · subst hab
                rw [if_pos rfl, ih as bs has (Nat.le_of_succ_le_succ hlen),
                  ofBytes_cons ha]
                simp
              · rw [if_neg hab]
                by_cases hb : b = 0
                · subst hb
                  rfl
                · rw [ofBytes_cons hb]
                  simp [hab]

/-- A comparison that ends within the array is that of the strings. -/
theorem strncmpEq_eq (hn : n ≤ name.length) (stored : CStr) :
    strncmpEq name n stored = some (stored.strncmpEq (.ofBytes name) n) :=
  strncmpLoop_eq n stored.bytes name stored.nulFree hn

theorem strncpyLoop_eq : ∀ (n : Nat) (name : List UInt8), n ≤ name.length →
    strncpyLoop n name = some ((CStr.ofBytes name).bytes.take n) := by
  intro n
  induction n with
  | zero => exact fun _ _ => rfl
  | succ n ih =>
      intro name hlen
      cases name with
      | nil => exact absurd hlen (Nat.not_succ_le_zero n)
      | cons b bs =>
          rw [strncpyLoop]
          by_cases hb : b = 0
          · subst hb
            rfl
          · rw [if_neg hb, ih bs (Nat.le_of_succ_le_succ hlen),
              ofBytes_cons hb]
            rfl

/-- A copy that ends within the array is that of the string. -/
theorem strncpy_eq (hn : n ≤ name.length) :
    strncpy name n = some ((CStr.ofBytes name).strncpy n) := by
  rw [strncpy, strncpyLoop_eq n name hn, Option.map_some]
  exact congrArg some (ofBytes_bytes ((CStr.ofBytes name).strncpy n))

/-- `name[0]`. -/
theorem head?_eq (hlen : name.length = 64) :
    ∃ first, name.head? = some first ∧ (first = 0 ↔ (CStr.ofBytes name).isEmpty = true) := by
  cases name with
  | nil => cases hlen
  | cons b bs =>
      refine ⟨b, rfl, ?_⟩
      by_cases hb : b = 0
      · subst hb
        exact ⟨fun _ => rfl, fun _ => rfl⟩
      · rw [CStr.isEmpty, ofBytes_cons hb]
        exact ⟨fun h => absurd h hb, fun h => absurd h Bool.false_ne_true⟩

end Name

/-! ## Searches in the index -/

section Search

variable {s : IrtShm} {seg : Segment} {hash partition : UInt32} {name : CStr}
  {same : CStr → Option Bool}

/-- The entries a search under a hash and a key tests. -/
def tested (s : IrtShm) (seg : Segment) (hash partition : UInt32) (name : CStr) :
    Nat → Nat → List IrtIndexSlot :=
  Probe.tested ((indexView s.maxPoints).slotIndex hash) (fun i => (seg.slots i).cell)
    (Core.irtIndexSlotMatches seg.points hash partition name)

/-- The entries whose points a search for the key compares name points of the handle. -/
def ComparesBelow (s : IrtShm) (seg : Segment) (partition : UInt32) (name : CStr) : Prop :=
  ∀ slot ∈ tested s seg (Core.irtIndexComposeHash partition name) partition name
      (irtLayoutBuckets s.maxPoints) 0,
    slot.hash = Core.irtIndexComposeHash partition name → slot.pointId < s.maxPoints

instance (s : IrtShm) (seg : Segment) (partition : UInt32) (name : CStr) :
    Decidable (ComparesBelow s seg partition name) :=
  inferInstanceAs (Decidable (∀ slot ∈ _, _))

theorem pointAt_yields (s : IrtShm) (seg : Segment) (id : Nat) :
    Yields (pointAt s seg id) (id < s.maxPoints) (seg.points id) := Yields.guard _

theorem pointAt_eq {id : Nat} (hid : id < s.maxPoints) :
    pointAt s seg id = some (seg.points id) := if_pos hid

theorem setPointAt_eq {id : Nat} (hid : id < s.maxPoints) (p : IndurtdbPoint) :
    setPointAt s seg id p = some (seg.setPoint id p) := if_pos hid

/-- Only a point behind an equal hash is looked at. -/
theorem irtIndexSlotMatches_yields
    (hsame : ∀ stored, same stored = some (stored.strncmpEq name nameMax)) {slot : IrtIndexSlot}
    (hlive : slot.Live) :
    Yields (irtIndexSlotMatches s seg hash partition same slot)
      (slot.hash = hash → slot.pointId < s.maxPoints)
      (Core.irtIndexSlotMatches seg.points hash partition name slot) := by
  have hfree : ¬ (slot.pointId = irtIndexEmpty ∨ slot.pointId = irtIndexTombstone) :=
    not_or.mpr hlive
  rw [irtIndexSlotMatches, Core.irtIndexSlotMatches, bne_iff_ne.mpr hlive.1,
    bne_iff_ne.mpr hlive.2, Bool.and_true, Bool.and_true]
  by_cases hhash : slot.hash = hash
  · rw [if_neg (not_not_intro hhash), if_neg hfree, beq_iff_eq.mpr hhash, Bool.true_and]
    have hcompared : (if (seg.points slot.pointId).partition ≠ partition then some false
          else same (seg.points slot.pointId).name) =
        some ((seg.points slot.pointId).partition == partition &&
          (seg.points slot.pointId).name.strncmpEq name nameMax) := by
      by_cases hpart : (seg.points slot.pointId).partition = partition
      · rw [if_neg (not_not_intro hpart), hsame, beq_iff_eq.mpr hpart, Bool.true_and]
      · rw [if_pos hpart, beq_eq_false_iff_ne.mpr hpart, Bool.false_and]
    refine ((pointAt_yields s seg slot.pointId).bind fun _ => .of_eq hcompared).congr ?_
    exact ⟨fun h _ => h.1, fun h => ⟨h hhash, trivial⟩⟩
  · rw [if_pos hhash, beq_eq_false_iff_ne.mpr hhash, Bool.false_and, Bool.false_and]
    exact Yields.done false fun h => absurd h hhash

/-- Behind a match nothing is tested. -/
theorem forall_tested_rest {P : IrtIndexSlot → Prop} {c : Prop} [Decidable c]
    {l : List IrtIndexSlot} : (¬ c → ∀ slot ∈ l, P slot) ↔ ∀ slot ∈ if c then [] else l, P slot := by
  by_cases hc : c
  · rw [if_pos hc]
    exact iff_of_true (fun hnot => absurd hc hnot) nofun
  · rw [if_neg hc]
    exact forall_prop_of_true hc

/-- The loop of a search touches only the points it compares. -/
theorem irtIndexProbeLoop_yields
    (hsame : ∀ stored, same stored = some (stored.strncmpEq name nameMax)) :
    ∀ n d, Yields (irtIndexProbeLoop s (indexView s.maxPoints) seg hash partition same n d)
      (∀ slot ∈ tested s seg hash partition name n d,
        slot.hash = hash → slot.pointId < s.maxPoints)
      (Core.irtIndexProbeLoop (indexView s.maxPoints) seg hash partition name n d) := by
  intro n
  induction n with
  | zero =>
      exact fun _ => Yields.done none fun slot hslot => absurd hslot List.not_mem_nil
  | succ n ih =>
      intro d
      simp only [irtIndexProbeLoop, Core.irtIndexProbeLoop, tested, Probe.tested,
        IrtIndexSlot.cell]
      split
      · exact Yields.done none fun slot hslot => absurd hslot List.not_mem_nil
      · split
        · exact ih (d + 1)
        · rename_i hempty htomb
          refine ((irtIndexSlotMatches_yields hsame ⟨hempty, htomb⟩).bind fun _ =>
            .ite_done fun _ => ih (d + 1)).congr ?_
          rw [List.forall_mem_cons]
          exact and_congr_right' forall_tested_rest

/-- So does the loop of an insertion. -/
theorem irtIndexInsertLoop_yields
    (hsame : ∀ stored, same stored = some (stored.strncmpEq name nameMax)) :
    ∀ n d tomb,
      Yields (irtIndexInsertLoop s (indexView s.maxPoints) seg hash partition same n d tomb)
        (∀ slot ∈ tested s seg hash partition name n d,
          slot.hash = hash → slot.pointId < s.maxPoints)
        (Core.irtIndexInsertLoop (indexView s.maxPoints) seg hash partition name n d tomb) := by
  intro n
  induction n with
  | zero =>
      intro d tomb
      have hnothing : ∀ slot ∈ tested s seg hash partition name 0 d,
          slot.hash = hash → slot.pointId < s.maxPoints :=
        fun slot hslot => absurd hslot List.not_mem_nil
      cases tomb with
      | none => exact Yields.done _ hnothing
      | some i => exact Yields.done _ hnothing
  | succ n ih =>
      intro d tomb
      simp only [irtIndexInsertLoop, Core.irtIndexInsertLoop, tested, Probe.tested,
        IrtIndexSlot.cell]
      split
      · exact Yields.done _ fun slot hslot => absurd hslot List.not_mem_nil
      · split
        · exact ih (d + 1) _
        · rename_i hempty htomb
          refine ((irtIndexSlotMatches_yields hsame ⟨hempty, htomb⟩).bind fun _ =>
            .ite_done fun _ => ih (d + 1) tomb).congr ?_
          rw [List.forall_mem_cons]
          exact and_congr_right' forall_tested_rest

end Search

/-! ## The operations of the index -/

/-- The header names an index region and a point table. -/
def Mapped (seg : Segment) : Prop := seg.hdr.offIndex ≠ 0 ∧ seg.hdr.offPoints ≠ 0

/-- A search under the name of a record stays within its array and the table. -/
def SearchSafe (s : IrtShm) (seg : Segment) (partition : UInt32) (name : List UInt8) : Prop :=
  0 ∈ name ∧ ComparesBelow s seg partition (.ofBytes name)

/-- `irt_index_lookup` searches where the regions are there and nobody writes. -/
def LookupSafe (s : IrtShm) (seg : Segment) (partition : UInt32) (name : List UInt8) : Prop :=
  Mapped seg → seg.hdr.writeSeq % 2 = 0 → SearchSafe s seg partition name

section Operations

variable {s : IrtShm} {seg : Segment} {partition : UInt32} {name : List UInt8} {id : Nat}

theorem irtIndexProbe_yields (hlen : name.length = 64) :
    Yields (irtIndexProbe s (indexView s.maxPoints) seg partition name)
      (SearchSafe s seg partition name)
      (Core.irtIndexProbe (indexView s.maxPoints) seg partition (.ofBytes name)) := by
  have hsame : ∀ stored, strncmpEq name nameMax stored =
      some (stored.strncmpEq (.ofBytes name) nameMax) :=
    strncmpEq_eq (hlen ▸ (by decide : nameMax ≤ 64))
  refine Yields.bind (irtIndexComposeHash_yields partition name) fun _ => ?_
  refine ((irtIndexProbeLoop_yields hsame _ 0).bind fun _ => ?_).congr (and_iff_left trivial)
  rw [Core.irtIndexProbe]
  cases Core.irtIndexProbeLoop (indexView s.maxPoints) seg
      (Core.irtIndexComposeHash partition (.ofBytes name)) partition (.ofBytes name)
      (indexView s.maxPoints).capacity 0 with
  | none => exact Yields.pure _
  | some i => exact Yields.pure _

theorem irtIndexLookup_yields (hlen : name.length = 64)
    (hname : (CStr.ofBytes name).isEmpty = false) :
    Yields (irtIndexLookup s seg partition name) (LookupSafe s seg partition name)
      (Core.irtIndexLookup s seg partition (.ofBytes name)) := by
  obtain ⟨first, hfirst, hzero⟩ := head?_eq hlen
  have hne : first ≠ 0 := fun h => Bool.false_ne_true (hname.symm.trans (hzero.mp h))
  rw [irtIndexLookup, Core.irtIndexLookup, hname]
  refine Yields.bind_of_eq hfirst ?_
  rw [if_neg hne, if_neg Bool.false_ne_true]
  by_cases hix : seg.hdr.offIndex = 0
  · rw [irtIndexBind, if_pos hix]
    exact Yields.done _ fun h => absurd hix h.1
  · rw [irtIndexBind_eq hix]
    dsimp only
    by_cases hpts : seg.hdr.offPoints = 0
    · rw [if_pos hpts, if_pos hpts]
      exact Yields.done _ fun h => absurd hpts h.2
    · rw [if_neg hpts, if_neg hpts]
      by_cases heven : seg.hdr.writeSeq % 2 = 0
      · have hnot : ¬ seg.hdr.writeSeq % 2 = 1 := by omega
        rw [irtIndexLookupAttempts, Core.irtIndexLookupAttempts, if_neg hnot, if_neg hnot]
        exact (irtIndexProbe_yields hlen).congr ⟨fun h _ _ => h, fun h => h ⟨hix, hpts⟩ heven⟩
      · have hbusy : ∀ n, Yields
            (irtIndexLookupAttempts s (indexView s.maxPoints) seg partition name n) True
            (Core.irtIndexLookupAttempts (indexView s.maxPoints) seg partition (.ofBytes name)
              n) := by
          have hodd : seg.hdr.writeSeq % 2 = 1 := by omega
          intro n
          induction n with
          | zero => exact Yields.pure _
          | succ n ih =>
              rw [irtIndexLookupAttempts, Core.irtIndexLookupAttempts, if_pos hodd, if_pos hodd]
              exact ih
        exact (hbusy irtIndexMaxRetry).congr (iff_of_true trivial fun _ h => absurd h heven)

theorem irtIndexInsertLocked_yields (hlen : name.length = 64)
    (hname : (CStr.ofBytes name).isEmpty = false) (hid : id < s.maxPoints) :
    Yields (irtIndexInsertLocked s seg partition name id)
      (Mapped seg → SearchSafe s (withPartition seg id partition) partition name)
      (Core.irtIndexInsertLocked s seg partition (.ofBytes name) id) := by
  obtain ⟨first, hfirst, hzero⟩ := head?_eq hlen
  have hne : first ≠ 0 := fun h => Bool.false_ne_true (hname.symm.trans (hzero.mp h))
  rw [irtIndexInsertLocked, Core.irtIndexInsertLocked, hname]
  refine Yields.bind_of_eq hfirst ?_
  rw [if_neg hne, if_neg Bool.false_ne_true]
  by_cases hix : seg.hdr.offIndex = 0
  · rw [irtIndexBind, if_pos hix]
    exact Yields.done _ fun h => absurd hix h.1
  · rw [irtIndexBind_eq hix]
    dsimp only
    by_cases hpts : seg.hdr.offPoints = 0
    · rw [if_pos (Or.inl hpts), if_pos (Or.inl hpts)]
      exact Yields.done _ fun h => absurd hpts h.2
    · have hargs : ¬ (seg.hdr.offPoints = 0 ∨ s.maxPoints ≤ id) :=
        not_or.mpr ⟨hpts, Nat.not_le.mpr hid⟩
      have hsame : ∀ stored, strncmpEq name nameMax stored =
          some (stored.strncmpEq (.ofBytes name) nameMax) :=
        strncmpEq_eq (hlen ▸ (by decide : nameMax ≤ 64))
      rw [if_neg hargs, if_neg hargs]
      refine Yields.bind_of_eq (pointAt_eq hid) (Yields.bind_of_eq (setPointAt_eq hid _) ?_)
      refine (Yields.bind (irtIndexComposeHash_yields partition name) fun _ =>
        (irtIndexInsertLoop_yields hsame _ 0 none).bind fun _ => ?_).congr
          ⟨fun h _ => ⟨h.1, h.2.1⟩,
            fun h => ⟨(h ⟨hix, hpts⟩).1, (h ⟨hix, hpts⟩).2, trivial⟩⟩
      cases Core.irtIndexInsertLoop (indexView s.maxPoints) (withPartition seg id partition)
          (Core.irtIndexComposeHash partition (.ofBytes name)) partition (.ofBytes name)
          (indexView s.maxPoints).capacity 0 none with
      | hit i => exact Yields.pure _
      | free i => exact Yields.pure _
      | full => exact Yields.pure _

/-- A name of the table is hashed as it is. -/
theorem irtIndexRemoveLocked_yields (old : CStr) (hold : old.isEmpty = false) :
    Yields (irtIndexRemoveLocked s seg partition old)
      (Mapped seg → ComparesBelow s seg partition old)
      (Core.irtIndexRemoveLocked s seg partition old) := by
  rw [irtIndexRemoveLocked, Core.irtIndexRemoveLocked, hold, if_neg Bool.false_ne_true,
    if_neg Bool.false_ne_true]
  by_cases hix : seg.hdr.offIndex = 0
  · rw [irtIndexBind, if_pos hix]
    exact Yields.done _ fun h => absurd hix h.1
  · rw [irtIndexBind_eq hix]
    dsimp only
    by_cases hpts : seg.hdr.offPoints = 0
    · rw [if_pos hpts, if_pos hpts]
      exact Yields.done _ fun h => absurd hpts h.2
    · rw [if_neg hpts, if_neg hpts]
      refine ((irtIndexProbeLoop_yields (fun _ => rfl) _ 0).bind fun _ => ?_).congr
        ⟨fun h _ => h.1, fun h => ⟨h ⟨hix, hpts⟩, trivial⟩⟩
      cases Core.irtIndexProbeLoop (indexView s.maxPoints) seg
          (Core.irtIndexComposeHash partition old) partition old
          (indexView s.maxPoints).capacity 0 with
      | none => exact Yields.pure _
      | some i => exact Yields.pure _

end Operations

/-! ## The lock around a body -/

/-- A body that is not run cannot fault. -/
theorem withWriteLock_yields {seg : Segment} {body : Segment → Option (Rc × Segment)}
    {body' : Segment → Rc × Segment} {safe : Prop}
    (hbody : ∀ w, Yields (body (seg.setWriteSeq w)) safe (body' (seg.setWriteSeq w))) :
    Yields (withWriteLock seg body) (seg.hdr.writeSeq % 2 = 0 → safe)
      (Core.withWriteLock seg body') := by
  have hword : (irtSeqlockWriteBegin seg.hdr.writeSeq).1 = seg.hdr.writeSeq := by
    rw [irtSeqlockWriteBegin]
    split <;> rfl
  rw [withWriteLock, Core.withWriteLock]
  dsimp only
  rw [hword]
  by_cases hodd : seg.hdr.writeSeq % 2 = 1
  · rw [if_pos hodd, if_pos hodd]
    exact Yields.done _ fun heven => by omega
  · have heven : seg.hdr.writeSeq % 2 = 0 := by omega
    rw [if_neg hodd, if_neg hodd]
    refine Yields.congr (Yields.bind (hbody _) fun _ => Yields.pure (_, _)) ?_
    exact ⟨fun hsafe _ => hsafe.1, fun hsafe => ⟨hsafe heven, trivial⟩⟩

theorem withWriteLock_eq {seg : Segment} {body : Segment → Option (Rc × Segment)}
    {body' : Segment → Rc × Segment} (hbody : ∀ seg, body seg = some (body' seg)) :
    withWriteLock seg body = some (Core.withWriteLock seg body') :=
  (withWriteLock_yields fun w => .of_eq (hbody (seg.setWriteSeq w))).eq_some fun _ => trivial

theorem irtIndexInsert_yields {s : IrtShm} {seg : Segment} {partition : UInt32}
    {name : List UInt8} {id : Nat} (hlen : name.length = 64)
    (hname : (CStr.ofBytes name).isEmpty = false) (hid : id < s.maxPoints) :
    Yields (withWriteLock seg fun seg => irtIndexInsertLocked s seg partition name id)
      (seg.hdr.writeSeq % 2 = 0 → Mapped seg →
        SearchSafe s (withPartition seg id partition) partition name)
      (Core.irtIndexInsert s seg partition (.ofBytes name) id) :=
  withWriteLock_yields fun _ => irtIndexInsertLocked_yields hlen hname hid

/-! ## Creation -/

section Create

variable {h : IndurtdbH} {s : IrtShm} {seg : Segment} {partition : UInt32} {id : Nat}
  {name : List UInt8}

theorem nameTaken_yields (hlen : name.length = 64)
    (hname : (CStr.ofBytes name).isEmpty = false) :
    Yields (nameTaken h partition name id) (LookupSafe h.shm h.seg partition name)
      (Api.nameTaken h partition (.ofBytes name) id) := by
  refine (Yields.bind (irtIndexLookup_yields hlen hname) fun _ => ?_).congr
    (and_iff_left trivial)
  rw [Api.nameTaken]
  cases Core.irtIndexLookup h.shm h.seg partition (.ofBytes name) with
  | ok exist => exact Yields.pure _
  | error rc => exact Yields.pure _

theorem deltaLog_copied (hlen : name.length = 64) (op id : Nat) (type access : UInt8) :
    deltaLog h op id type access name =
      some (Api.deltaLog h op id type access (.ofBytes name)) := by
  rw [deltaLog, Api.deltaLog]
  cases h.delta with
  | none => rfl
  | some file =>
      have htwice : ((CStr.ofBytes name).strncpy nameMax).strncpy nameMax =
          (CStr.ofBytes name).strncpy nameMax :=
        CStr.strncpy_of_length_le (CStr.length_strncpy_le _ _)
      dsimp only
      rw [strncpy_eq (hlen ▸ (by decide : nameMax ≤ 64))]
      simp only [Option.bind_eq_bind, Option.bind_some, deltaRec, htwice]

theorem hPointRegister_eq (hlen : name.length = 64) (hid : id < s.maxPoints)
    (type access : UInt8) :
    hPointRegister s seg partition id name type access =
      some (Api.hPointRegister seg partition id (.ofBytes name) type access) := by
  rw [hPointRegister, pointAt_eq hid, strncpy_eq (hlen ▸ (by decide : nameMax ≤ 64))]
  exact setPointAt_eq hid _

theorem registerLocked_eq (hlen : name.length = 64) (hid : id < s.maxPoints)
    (type access : UInt8) :
    registerLocked s seg partition id name type access =
      some (Api.registerLocked seg partition id (.ofBytes name) type access) := by
  rw [registerLocked, Api.registerLocked, pointAt_eq hid]
  simp only [Option.bind_eq_bind, Option.bind_some]
  split
  · rw [hPointRegister_eq hlen hid]
    rfl
  · rfl

theorem unregister_eq (hid : id < s.maxPoints) :
    unregister s seg id = some (Api.unregister seg id) := by
  have hbody : ∀ seg : Segment, (do
      let p ← pointAt s seg id
      let seg ← setPointAt s seg id { p with name := CStr.empty }
      some (Rc.ok, seg)) =
        some (Rc.ok, seg.setPoint id { seg.points id with name := CStr.empty }) := by
    intro seg
    rw [pointAt_eq hid]
    simp only [Option.bind_eq_bind, Option.bind_some, setPointAt_eq hid]
  rw [unregister, withWriteLock_eq hbody]
  rfl

/-- A name that is not taken, for an id without one, is in no entry. -/
theorem find_none_of_not_taken {name : CStr} (hname : name.isEmpty = false)
    (hmapped : Mapped h.seg) (heven : h.seg.hdr.writeSeq % 2 = 0)
    (htaken : Api.nameTaken h partition name id = false)
    (hfree : (h.seg.points id).name.isEmpty = true) :
    Probe.find ((indexView h.shm.maxPoints).slotIndex (Core.irtIndexComposeHash partition name))
      (fun i => (h.seg.slots i).cell)
      (Core.irtIndexSlotMatches h.seg.points (Core.irtIndexComposeHash partition name) partition
        name) (irtLayoutBuckets h.shm.maxPoints) 0 = none := by
  cases hfind : Probe.find ((indexView h.shm.maxPoints).slotIndex
      (Core.irtIndexComposeHash partition name)) (fun i => (h.seg.slots i).cell)
      (Core.irtIndexSlotMatches h.seg.points (Core.irtIndexComposeHash partition name) partition
        name) (irtLayoutBuckets h.shm.maxPoints) 0 with
  | none => rfl
  | some i =>
      exfalso
      have hlookup : Core.irtIndexLookup h.shm h.seg partition name =
          .ok (h.seg.slots i).pointId := by
        rw [irtIndexLookup_eq hmapped.1 hmapped.2 (CStr.isEmpty_eq_false_iff.mp hname) heven,
          irtIndexProbeLoop_eq_find, hfind]
      have hself : (h.seg.slots i).pointId = id := by
        rw [Api.nameTaken, hlookup] at htaken
        exact bne_eq_false_iff_eq.mp htaken
      obtain ⟨entry, hcell, hmatch, _⟩ := Probe.find_some _ 0 i hfind (fun j hj _ => by omega)
      obtain ⟨_, rfl⟩ := IrtIndexSlot.cell_eq_live_iff.mp hcell
      rw [Core.irtIndexSlotMatches, Bool.and_eq_true, hself] at hmatch
      -- the empty name of the id begins like no other
      have hcopies : ((h.seg.points id).name.strncpy nameMax).bytes =
          (name.strncpy nameMax).bytes := beq_iff_eq.mp hmatch.2
      have hempty : (name.strncpy nameMax).isEmpty = true := by
        rw [CStr.isEmpty, ← hcopies]
        exact (CStr.strncpy_isEmpty (by decide)).trans hfree
      rw [CStr.strncpy_isEmpty (by decide), hname] at hempty
      exact Bool.false_ne_true hempty

/-- The search of the insertion behind a registration compares nothing new. -/
theorem comparesBelow_registered {name : CStr} (hname : name.isEmpty = false)
    (hmapped : Mapped h.seg) (heven : h.seg.hdr.writeSeq % 2 = 0)
    (htaken : Api.nameTaken h partition name id = false)
    (hfree : (h.seg.points id).name.isEmpty = true)
    (hbelow : ComparesBelow h.shm h.seg partition name) {seg : Segment}
    (hslots : seg.slots = h.seg.slots) : ComparesBelow h.shm seg partition name := by
  intro slot hslot
  rw [tested, hslots] at hslot
  exact hbelow slot (Probe.tested_subset _ 0
    (find_none_of_not_taken hname hmapped heven htaken hfree) hslot)

/-- Which creations stay within the name and the table. -/
def CreateSafe (h : IndurtdbH) (partition : UInt32) (id : Nat) (name : List UInt8)
    (type access : Int) : Prop :=
  name.head? ≠ some 0 → WellFormed type access → id < h.shm.maxPoints →
    LookupSafe h.shm h.seg partition name

theorem indurtdbHCreatePointIn_yields (hlen : name.length = 64) (type access : Int) :
    Yields (indurtdbHCreatePointIn h partition id name type access)
      (CreateSafe h partition id name type access)
      (Api.indurtdbHCreatePointIn h partition id (.ofBytes name) type access) := by
  obtain ⟨first, hfirst, hzero⟩ := head?_eq hlen
  rw [indurtdbHCreatePointIn, Api.indurtdbHCreatePointIn]
  refine Yields.bind_of_eq hfirst ?_
  by_cases hname : (CStr.ofBytes name).isEmpty = true
  · have hnul : name.head? = some 0 := hfirst.trans (congrArg some (hzero.mpr hname))
    rw [if_pos (hzero.mpr hname), if_pos hname]
    exact Yields.done _ fun h => absurd hnul h
  have hnul : name.head? ≠ some 0 := fun h =>
    hname (hzero.mp (Option.some.inj (hfirst.symm.trans h)))
  rw [if_neg fun h => hname (hzero.mp h), if_neg hname]
  by_cases htype : type < 0 ∨ (indurtdbTypeFloat : Int) < type
  · rw [if_pos htype, if_pos htype]
    refine Yields.done _ fun _ hformed => ?_
    have hrange := hformed.1
    omega
  rw [if_neg htype, if_neg htype]
  by_cases haccess : access ≠ indurtdbAccessReadOnly.toNat ∧
      access ≠ indurtdbAccessReadWrite.toNat
  · rw [if_pos haccess, if_pos haccess]
    exact Yields.done _ fun _ hformed => absurd hformed.2 (not_or.mpr haccess)
  rw [if_neg haccess, if_neg haccess]
  by_cases hid : h.shm.maxPoints ≤ id
  · rw [if_pos hid, if_pos hid]
    exact Yields.done _ fun _ _ hlt => absurd hid (Nat.not_le.mpr hlt)
  have hlt : id < h.shm.maxPoints := Nat.not_le.mp hid
  have hformed : WellFormed type access := by
    refine ⟨by omega, ?_⟩
    by_contra hboth
    exact haccess (not_or.mp hboth)
  rw [if_neg hid, if_neg hid]
  refine (Yields.bind (nameTaken_yields hlen (eq_false_of_ne_true hname)) fun hsafe => ?_).congr
    ⟨fun h _ _ _ => h.1, fun h => ⟨h hnul hformed hlt, trivial⟩⟩
  -- behind the lookup nothing new is touched
  by_cases htaken : Api.nameTaken h partition (.ofBytes name) id = true
  · rw [if_pos htaken, if_pos htaken]
    exact Yields.pure _
  rw [if_neg htaken, if_neg htaken]
  refine Yields.bind_of_eq (withWriteLock_eq fun seg => registerLocked_eq hlen hlt _ _) ?_
  rcases withWriteLock_cases h.seg fun seg => Api.registerLocked seg partition id (.ofBytes name)
      (.ofNat type.toNat) (.ofNat access.toNat) with ⟨_, hbusy⟩ | ⟨heven, w, w', _, hdone⟩
  · rw [hbusy]
    exact Yields.pure _
  rw [hdone]
  by_cases hfree : (h.seg.points id).name.isEmpty = true
  · have hregistered : Api.registerLocked (h.seg.setWriteSeq w) partition id (.ofBytes name)
        (.ofNat type.toNat) (.ofNat access.toNat) = (.ok, Api.hPointRegister
          (h.seg.setWriteSeq w) partition id (.ofBytes name) (.ofNat type.toNat)
          (.ofNat access.toNat)) := if_pos hfree
    rw [hregistered]
    dsimp only
    refine Yields.bind_of_eq
      ((irtIndexInsert_yields hlen (eq_false_of_ne_true hname) hlt).eq_some ?_) ?_
    · intro _ hmapped
      have hsearch : SearchSafe h.shm h.seg partition name := hsafe hmapped heven
      exact ⟨hsearch.1, comparesBelow_registered (eq_false_of_ne_true hname) hmapped heven
        (eq_false_of_ne_true htaken) hfree hsearch.2 rfl⟩
    · generalize Core.irtIndexInsert h.shm _ partition (.ofBytes name) id = inserted
      obtain ⟨rc, seg⟩ := inserted
      cases rc with
      | ok => exact Yields.bind_of_eq (deltaLog_copied hlen _ _ _ _) (Yields.pure _)
      | _ => exact Yields.bind_of_eq (unregister_eq hlt) (Yields.pure _)
  · have hrefused : Api.registerLocked (h.seg.setWriteSeq w) partition id (.ofBytes name)
        (.ofNat type.toNat) (.ofNat access.toNat) = (.errFull, h.seg.setWriteSeq w) :=
      if_neg hfree
    rw [hrefused]
    exact Yields.pure _

end Create

/-! ## Deletion and renaming -/

section Change

variable {h : IndurtdbH} {s : IrtShm} {seg : Segment} {partition : UInt32} {id : Nat}
  {name : List UInt8}

/-- Which deletions stay within the table: the name searched for is that of the point. -/
def DeleteSafe (h : IndurtdbH) (partition : UInt32) (id : Nat) : Prop :=
  id < h.shm.maxPoints → h.seg.hdr.writeSeq % 2 = 0 → (h.seg.points id).name.isEmpty = false →
    (h.seg.points id).partition = partition → Mapped h.seg →
    ComparesBelow h.shm h.seg partition (h.seg.points id).name

theorem deleteLocked_yields (hid : id < s.maxPoints) :
    Yields (deleteLocked s seg partition id)
      ((seg.points id).name.isEmpty = false → (seg.points id).partition = partition →
        Mapped seg → ComparesBelow s seg partition (seg.points id).name)
      (Api.deleteLocked s seg partition id) := by
  rw [deleteLocked, Api.deleteLocked]
  refine Yields.bind_of_eq (pointAt_eq hid) ?_
  by_cases hempty : (seg.points id).name.isEmpty = true
  · rw [if_pos hempty, if_pos hempty]
    exact Yields.done _ fun hnamed => absurd (hempty.symm.trans hnamed) (by decide)
  rw [if_neg hempty, if_neg hempty]
  by_cases hpart : (seg.points id).partition = partition
  · subst hpart
    have hnamed := eq_false_of_ne_true hempty
    rw [if_neg (not_not_intro rfl), if_neg (not_not_intro rfl)]
    refine (Yields.bind (irtIndexRemoveLocked_yields (seg.points id).name hnamed) fun _ =>
      Yields.bind_of_eq (pointAt_eq hid) (Yields.bind_of_eq (setPointAt_eq hid _) ?_)).congr
        ⟨fun hsafe _ _ => hsafe.1, fun hsafe => ⟨hsafe hnamed rfl, trivial⟩⟩
    exact Yields.pure _
  · rw [if_pos hpart, if_pos hpart]
    exact Yields.done _ fun _ heq => absurd heq hpart

theorem indurtdbHDeletePointIn_yields :
    Yields (indurtdbHDeletePointIn h partition id) (DeleteSafe h partition id)
      (Api.indurtdbHDeletePointIn h partition id) := by
  rw [indurtdbHDeletePointIn, Api.indurtdbHDeletePointIn]
  by_cases hid : h.shm.maxPoints ≤ id
  · rw [if_pos hid, if_pos hid]
    exact Yields.done _ fun hlt => absurd hid (Nat.not_le.mpr hlt)
  have hlt : id < h.shm.maxPoints := Nat.not_le.mp hid
  rw [if_neg hid, if_neg hid]
  have hlocked : Yields (withWriteLock h.seg fun seg => deleteLocked h.shm seg partition id)
      (h.seg.hdr.writeSeq % 2 = 0 → (h.seg.points id).name.isEmpty = false →
        (h.seg.points id).partition = partition → Mapped h.seg →
        ComparesBelow h.shm h.seg partition (h.seg.points id).name)
      (Core.withWriteLock h.seg fun seg => Api.deleteLocked h.shm seg partition id) :=
    withWriteLock_yields fun _ => deleteLocked_yields hlt
  refine (Yields.bind hlocked fun _ => ?_).congr
    ⟨fun hsafe _ => hsafe.1, fun hsafe => ⟨hsafe hlt, trivial⟩⟩
  generalize Core.withWriteLock h.seg (fun seg => Api.deleteLocked h.shm seg partition id) = done
  obtain ⟨rc, seg⟩ := done
  cases rc with
  | ok => exact Yields.pure _
  | _ => exact Yields.pure _

/-- The lookup of a renaming lets it pass, and the point carries another name. -/
structure Replaces (h : IndurtdbH) (partition : UInt32) (id : Nat) (name : CStr) : Prop where
  not_taken : Api.nameTaken h partition name id = false
  even : h.seg.hdr.writeSeq % 2 = 0
  registered : (h.seg.points id).name.isEmpty = false
  partition : (h.seg.points id).partition = partition
  other : (h.seg.points id).name.strncmpEq name 64 = false

/-- Which renamings stay within the name and the table: the new name is searched for
first, and where it has been inserted, the old one. -/
def RenameSafe (h : IndurtdbH) (partition : UInt32) (id : Nat) (name : List UInt8) : Prop :=
  name.head? ≠ some 0 → id < h.shm.maxPoints →
    LookupSafe h.shm h.seg partition name ∧
      (Replaces h partition id (.ofBytes name) →
        (Core.irtIndexInsertLocked h.shm h.seg partition (.ofBytes name) id).1 = .ok →
        ComparesBelow h.shm
          (Core.irtIndexInsertLocked h.shm h.seg partition (.ofBytes name) id).2 partition
          (h.seg.points id).name)

theorem irtIndexInsertLocked_offIndex (s : IrtShm) (seg : Segment) (partition : UInt32)
    (name : CStr) (id : Nat) :
    (Core.irtIndexInsertLocked s seg partition name id).2.hdr.offIndex = seg.hdr.offIndex := by
  unfold Core.irtIndexInsertLocked
  split
  · rfl
  · split
    · rfl
    · split
      · rfl
      · dsimp only
        split <;> rfl

theorem mapped_of_inserted {name : CStr}
    (hok : (Core.irtIndexInsertLocked s seg partition name id).1 = .ok) : Mapped seg := by
  unfold Core.irtIndexInsertLocked at hok
  split at hok
  · cases hok
  · split at hok
    · cases hok
    · rename_i hbind
      split at hok
      · cases hok
      · rename_i hargs
        refine ⟨fun hix => ?_, fun hpts => hargs (Or.inl hpts)⟩
        rw [irtIndexBind, if_pos hix] at hbind
        cases hbind

/-- The change under the lock, behind a lookup that was safe. -/
theorem renameLocked_yields (hlen : name.length = 64)
    (hname : (CStr.ofBytes name).isEmpty = false) (hid : id < s.maxPoints)
    (hsearch : Mapped seg → SearchSafe s seg partition name) :
    Yields (renameLocked s seg partition id name)
      ((seg.points id).name.isEmpty = false → (seg.points id).partition = partition →
        (seg.points id).name.strncmpEq (.ofBytes name) 64 = false →
        (Core.irtIndexInsertLocked s seg partition (.ofBytes name) id).1 = .ok →
        ComparesBelow s (Core.irtIndexInsertLocked s seg partition (.ofBytes name) id).2 partition
          (seg.points id).name)
      (Api.renameLocked s seg partition id (.ofBytes name)) := by
  rw [renameLocked, Api.renameLocked]
  refine Yields.bind_of_eq (pointAt_eq hid) ?_
  by_cases hpresent : (seg.points id).name.isEmpty = true ∨ (seg.points id).partition ≠ partition
  · rw [if_pos hpresent, if_pos hpresent]
    refine Yields.done _ fun hnamed hpart => ?_
    rcases hpresent with hempty | hother
    · exact absurd (hempty.symm.trans hnamed) (by decide)
    · exact absurd hpart hother
  rw [if_neg hpresent, if_neg hpresent]
  obtain ⟨hnamed, hpart⟩ := not_or.mp hpresent
  have hpart := not_not.mp hpart
  have hnamed := eq_false_of_ne_true hnamed
  refine Yields.bind_of_eq (strncmpEq_eq (Nat.le_of_eq hlen.symm) _) ?_
  by_cases hsame : (seg.points id).name.strncmpEq (.ofBytes name) 64 = true
  · rw [if_pos hsame, if_pos hsame]
    exact Yields.done _ fun _ _ hother => absurd (hsame.symm.trans hother) (by decide)
  rw [if_neg hsame, if_neg hsame]
  -- the point has this partition, so the insertion searches the same table
  have hstored : withPartition seg id partition = seg := by
    rw [withPartition, ← hpart]
    simp only [Segment.setPoint, Function.update_eq_self]
  have hinsert : irtIndexInsertLocked s seg partition name id =
      some (Core.irtIndexInsertLocked s seg partition (.ofBytes name) id) :=
    (irtIndexInsertLocked_yields hlen hname hid).eq_some fun hmapped => by
      rw [hstored]
      exact hsearch hmapped
  have hstores := irtIndexInsertLocked_stores s seg partition (.ofBytes name) id hpart
  have hix := irtIndexInsertLocked_offIndex s seg partition (.ofBytes name) id
  have hmapped : (Core.irtIndexInsertLocked s seg partition (.ofBytes name) id).1 = .ok →
      Mapped seg := mapped_of_inserted
  refine Yields.bind_of_eq hinsert ?_
  generalize Core.irtIndexInsertLocked s seg partition (.ofBytes name) id = inserted at *
  obtain ⟨rc, seg'⟩ := inserted
  dsimp only at *
  by_cases hok : rc = .ok
  · subst hok
    have hsame' : seg'.points id = seg.points id := hstores.at_id
    have hmapped' : Mapped seg' :=
      ⟨hix ▸ (hmapped rfl).1, hstores.offPoints ▸ (hmapped rfl).2⟩
    refine Yields.bind_of_eq (pointAt_eq hid) ?_
    dsimp only
    rw [hsame']
    refine (Yields.bind (irtIndexRemoveLocked_yields _ hnamed) fun _ =>
      Yields.bind_of_eq (pointAt_eq hid) (Yields.bind_of_eq
        (strncpy_eq (hlen ▸ (by decide : nameMax ≤ 64)))
        (Yields.bind_of_eq (setPointAt_eq hid _) ?_))).congr
      ⟨fun hsafe _ _ _ _ => hsafe.1 hmapped',
        fun hsafe => ⟨fun _ => hsafe hnamed hpart (eq_false_of_ne_true hsame) rfl, trivial⟩⟩
    exact Yields.pure _
  · cases rc with
    | ok => exact absurd rfl hok
    | _ =>
        exact Yields.done (Renamed.failed .errFull, seg') fun _ _ _ h => absurd h hok

theorem indurtdbHRenamePointIn_yields (hlen : name.length = 64) :
    Yields (indurtdbHRenamePointIn h partition id name) (RenameSafe h partition id name)
      (Api.indurtdbHRenamePointIn h partition id (.ofBytes name)) := by
  obtain ⟨first, hfirst, hzero⟩ := head?_eq hlen
  rw [indurtdbHRenamePointIn, Api.indurtdbHRenamePointIn]
  refine Yields.bind_of_eq hfirst ?_
  by_cases hname : (CStr.ofBytes name).isEmpty = true
  · have hnul : name.head? = some 0 := hfirst.trans (congrArg some (hzero.mpr hname))
    rw [if_pos (hzero.mpr hname), if_pos hname]
    exact Yields.done _ fun h => absurd hnul h
  have hnul : name.head? ≠ some 0 := fun h =>
    hname (hzero.mp (Option.some.inj (hfirst.symm.trans h)))
  rw [if_neg fun h => hname (hzero.mp h), if_neg hname]
  by_cases hid : h.shm.maxPoints ≤ id
  · rw [if_pos hid, if_pos hid]
    exact Yields.done _ fun _ hlt => absurd hid (Nat.not_le.mpr hlt)
  have hlt : id < h.shm.maxPoints := Nat.not_le.mp hid
  rw [if_neg hid, if_neg hid]
  have hnamed := eq_false_of_ne_true hname
  refine (Yields.bind (nameTaken_yields hlen hnamed) fun hsafe => ?_).congr
    ⟨fun hsafe _ _ => ⟨hsafe.1, hsafe.2⟩, fun hsafe => hsafe hnul hlt⟩
  by_cases htaken : Api.nameTaken h partition (.ofBytes name) id = true
  · rw [if_pos htaken, if_pos htaken]
    refine Yields.done _ fun hreplaces => ?_
    exact absurd (htaken.symm.trans hreplaces.not_taken) (by decide)
  rw [if_neg htaken, if_neg htaken]
  have hword : (irtSeqlockWriteBegin h.seg.hdr.writeSeq).1 = h.seg.hdr.writeSeq := by
    rw [irtSeqlockWriteBegin]
    split <;> rfl
  dsimp only
  rw [hword]
  by_cases hodd : h.seg.hdr.writeSeq % 2 = 1
  · rw [if_pos hodd, if_pos hodd]
    refine Yields.done _ fun hreplaces => ?_
    have heven := hreplaces.even
    omega
  have heven : h.seg.hdr.writeSeq % 2 = 0 := by omega
  rw [if_neg hodd, if_neg hodd]
  have hsearch : ∀ w, Mapped (h.seg.setWriteSeq w) →
      SearchSafe h.shm (h.seg.setWriteSeq w) partition name :=
    fun _ hmapped => hsafe hmapped heven
  have hlocked := renameLocked_yields hlen hnamed hlt
    (hsearch (irtSeqlockWriteBegin h.seg.hdr.writeSeq).2)
  have hblind := irtIndexInsertLocked_blind h.shm partition (.ofBytes name) id h.seg
    (irtSeqlockWriteBegin h.seg.hdr.writeSeq).2
  dsimp only at hblind
  rw [hblind] at hlocked
  refine (Yields.bind hlocked fun _ => ?_).congr
    ⟨fun hsafe hreplaces => hsafe.1 hreplaces.registered hreplaces.partition hreplaces.other,
      fun hsafe => ⟨fun hreg hpart hother =>
        hsafe ⟨eq_false_of_ne_true htaken, heven, hreg, hpart, hother⟩, trivial⟩⟩
  generalize Api.renameLocked h.shm (h.seg.setWriteSeq (irtSeqlockWriteBegin h.seg.hdr.writeSeq).2)
    partition id (.ofBytes name) = renamed
  obtain ⟨what, seg⟩ := renamed
  cases what with
  | failed rc => exact Yields.pure _
  | same => exact Yields.pure _
  | changed =>
      refine Yields.bind_of_eq (pointAt_eq hlt) (Yields.bind_of_eq (deltaLog_copied hlen _ _ _ _) ?_)
      exact Yields.pure _

end Change

/-! ## Applying a record -/

/-- Which records are applied without a stray access. -/
def StepSafe (r : RawRec) (h : IndurtdbH) : Prop :=
  (r.fields.op = irtDeltaOpCreate →
      CreateSafe h 0 r.fields.pointId r.name r.fields.type.toNat r.fields.access.toNat) ∧
    (r.fields.op = irtDeltaOpDelete → DeleteSafe h 0 r.fields.pointId) ∧
    (r.fields.op = irtDeltaOpRename → RenameSafe h 0 r.fields.pointId r.name)

theorem deltaApply_yields {r : RawRec} (hrec : r.Recognised) (h : IndurtdbH) :
    Yields (deltaApply r h) (StepSafe r h) (true, (Api.deltaApply r.fields h).2) := by
  have hcd : irtDeltaOpCreate ≠ irtDeltaOpDelete := by decide
  have hcr : irtDeltaOpCreate ≠ irtDeltaOpRename := by decide
  have hdr : irtDeltaOpDelete ≠ irtDeltaOpRename := by decide
  obtain ⟨_, _, hop | hop | hop⟩ := hrec
  · rw [deltaApply, Api.deltaApply, StepSafe, r.fields_name, hop, if_pos rfl, if_pos rfl]
    refine (Yields.bind (indurtdbHCreatePointIn_yields r.length_name _ _) fun _ =>
      Yields.pure (true, _)).congr ?_
    exact ⟨fun hsafe => ⟨fun _ => hsafe.1, fun hop => absurd hop hcd, fun hop => absurd hop hcr⟩,
      fun hsafe => ⟨hsafe.1 rfl, trivial⟩⟩
  · rw [deltaApply, Api.deltaApply, StepSafe, hop, if_neg hcd.symm, if_neg hcd.symm, if_pos rfl,
      if_pos rfl]
    refine (Yields.bind indurtdbHDeletePointIn_yields fun _ => Yields.pure (true, _)).congr ?_
    exact ⟨fun hsafe => ⟨fun hop => absurd hop hcd.symm, fun _ => hsafe.1,
      fun hop => absurd hop hdr⟩, fun hsafe => ⟨hsafe.2.1 rfl, trivial⟩⟩
  · rw [deltaApply, Api.deltaApply, StepSafe, r.fields_name, hop, if_neg hcr.symm,
      if_neg hcr.symm, if_neg hdr.symm, if_neg hdr.symm, if_pos rfl, if_pos rfl]
    refine (Yields.bind (indurtdbHRenamePointIn_yields r.length_name) fun _ =>
      Yields.pure (true, _)).congr ?_
    exact ⟨fun hsafe => ⟨fun hop => absurd hop hcr.symm, fun hop => absurd hop hdr.symm,
      fun _ => hsafe.1⟩, fun hsafe => ⟨hsafe.2.2 rfl, trivial⟩⟩

end InduRtdb.Api.Raw
