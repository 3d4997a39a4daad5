/-
  Core/IndexReads.lean --- lookups and metadata reads, one access at a time.

  Source: `irt_index_probe` and `irt_index_lookup` of `src/core/irt_index.c`,
  `irt_meta_get` of `src/core/irt_shm.c`.
-/
import InduRtdb.Core.IndexSpec
import InduRtdb.Lib.Reads

set_option autoImplicit false

namespace InduRtdb.Core

open InduRtdb.Lib

/-! ## Accesses -/

/-- The fields of `indurtdb_meta_t`. -/
inductive MetaField where
  | eurMin
  | eurMax
  | deadband
  | flags
  | reserved
  deriving DecidableEq

/-- One load of a field of a slot, a point record or a metadata record. -/
inductive SegAccess where
  | slotPointId (i : Nat)
  | slotHash (i : Nat)
  | pointPartition (id : Nat)
  | pointName (id : Nat)
  | metaField (id : Nat) (f : MetaField)

/-- What a field of a metadata record holds. -/
abbrev MetaField.Val : MetaField → Type
  | .eurMin => UInt64
  | .eurMax => UInt64
  | .deadband => UInt32
  | .flags => UInt32
  | .reserved => UInt64

/-- What a load yields. -/
abbrev SegAccess.Val : SegAccess → Type
  | .slotPointId _ => Nat
  | .slotHash _ => UInt32
  | .pointPartition _ => UInt32
  | .pointName _ => CStr
  | .metaField _ f => f.Val

/-- One field of a metadata record. -/
def IndurtdbMeta.field (m : IndurtdbMeta) : (f : MetaField) → f.Val
  | .eurMin => m.eurMin
  | .eurMax => m.eurMax
  | .deadband => m.deadband
  | .flags => m.flags
  | .reserved => m.reserved

/-- Store one field of a metadata record. -/
def IndurtdbMeta.setField (m : IndurtdbMeta) : (f : MetaField) → f.Val → IndurtdbMeta
  | .eurMin, v => { m with eurMin := v }
  | .eurMax, v => { m with eurMax := v }
  | .deadband, v => { m with deadband := v }
  | .flags, v => { m with flags := v }
  | .reserved, v => { m with reserved := v }

/-- What a load yields now. -/
def Segment.look (seg : Segment) : (a : SegAccess) → a.Val
  | .slotPointId i => (seg.slots i).pointId
  | .slotHash i => (seg.slots i).hash
  | .pointPartition id => (seg.points id).partition
  | .pointName id => (seg.points id).name
  | .metaField id f => (seg.metas id).field f

/-! ## The programs -/

/-- `irt_index_slot_matches` for slot `i`, whose id has been loaded. -/
def slotMatchesReads (i pid : Nat) (hash partition : UInt32) (name : CStr) :
    Reads SegAccess SegAccess.Val Bool :=
  .get (.slotHash i) fun slotHash =>
    if slotHash ≠ hash then .ret false
    else if pid = irtIndexEmpty ∨ pid = irtIndexTombstone then .ret false
    else .get (.pointPartition pid) fun p =>
      if p ≠ partition then .ret false
      else .get (.pointName pid) fun n => .ret (n.strncmpEq name nameMax)

/-- The loop of `irt_index_probe`. -/
def probeReads (ix : IrtIndex) (hash partition : UInt32) (name : CStr) :
    Nat → Nat → Reads SegAccess SegAccess.Val (Except Rc Nat)
  | 0, _ => .ret (.error .errNotFound)
  | n + 1, d =>
      .get (.slotPointId (ix.slotIndex hash d)) fun pid =>
        if pid = irtIndexEmpty then .ret (.error .errNotFound)
        else if pid = irtIndexTombstone then probeReads ix hash partition name n (d + 1)
        else (slotMatchesReads (ix.slotIndex hash d) pid hash partition name).bind fun found =>
          if found then .ret (.ok pid) else probeReads ix hash partition name n (d + 1)

/-- The `memcpy` of `irt_meta_get` into `out`, field by field in the order given. -/
def metaReads (id : Nat) : List MetaField → IndurtdbMeta →
    Reads SegAccess SegAccess.Val IndurtdbMeta
  | [], out => .ret out
  | f :: order, out => .get (.metaField id f) fun v => metaReads id order (out.setField f v)

/-- The attempts of `irt_meta_get`, run alone: an odd word costs one attempt. -/
def irtMetaGetAttempts (seg : Segment) (id : Nat) : Nat → Except Rc IndurtdbMeta
  | 0 => .error .errBusy
  | n + 1 =>
      if seg.hdr.writeSeq % 2 = 1 then irtMetaGetAttempts seg id n else .ok (seg.metas id)

/-- `irt_meta_get`. -/
def irtMetaGet (s : IrtShm) (seg : Segment) (id : Nat) : Except Rc IndurtdbMeta :=
  if s.maxPoints ≤ id then .error .errArg
  else if seg.hdr.offMeta = 0 then .error .errArg
  else irtMetaGetAttempts seg id 16

/-- What `irt_meta_get` returns is the stored record. -/
theorem irtMetaGet_ok {s : IrtShm} {seg : Segment} {id : Nat} {m : IndurtdbMeta}
    (h : irtMetaGet s seg id = .ok m) : m = seg.metas id := by
  have hattempts : ∀ n, irtMetaGetAttempts seg id n = .ok m → m = seg.metas id := by
    intro n
    induction n with
    | zero => rintro ⟨⟩
    | succ n ih =>
        intro hn
        rw [irtMetaGetAttempts] at hn
        split at hn
        · exact ih hn
        · exact (Except.ok.inj hn).symm
  rw [irtMetaGet] at h
  split at h
  · cases h
  · split at h
    · cases h
    · exact hattempts _ h

/-! ## Run alone, the programs are the functions -/

theorem slotMatchesReads_run (seg : Segment) (i : Nat) (hash partition : UInt32) (name : CStr) :
    (slotMatchesReads i (seg.slots i).pointId hash partition name).run seg.look =
      irtIndexSlotMatches seg.points hash partition name (seg.slots i) := by
  rw [slotMatchesReads, Reads.run_get, irtIndexSlotMatches]
  split
  · rename_i hother
    have hother : (seg.slots i).hash ≠ hash := hother
    simp [hother]
  · rename_i hhash
    have hhash : (seg.slots i).hash = hash := not_not.mp hhash
    split
    · rename_i hdead
      rcases hdead with h | h <;> simp [h]
    · rename_i hlive
      obtain ⟨hempty, htomb⟩ := not_or.mp hlive
      rw [Reads.run_get]
      split
      · rename_i hother
        have hother : (seg.points (seg.slots i).pointId).partition ≠ partition := hother
        simp [hother]
      · rename_i hpart
        have hpart : (seg.points (seg.slots i).pointId).partition = partition := not_not.mp hpart
        simp [hhash, hempty, htomb, hpart, Segment.look]

/-- What a search returns for the slot it ends at. -/
def probeResult (seg : Segment) : Option Nat → Except Rc Nat
  | some i => .ok (seg.slots i).pointId
  | none => .error .errNotFound

theorem probeReads_run (ix : IrtIndex) (seg : Segment) (hash partition : UInt32) (name : CStr) :
    ∀ n d, (probeReads ix hash partition name n d).run seg.look =
      probeResult seg (irtIndexProbeLoop ix seg hash partition name n d) := by
  intro n
  induction n with
  | zero => intro d; rfl
  | succ n ih =>
      intro d
      have hget : (probeReads ix hash partition name (n + 1) d).run seg.look =
          (if (seg.slots (ix.slotIndex hash d)).pointId = irtIndexEmpty then
            (.ret (.error .errNotFound) : Reads SegAccess SegAccess.Val (Except Rc Nat))
          else if (seg.slots (ix.slotIndex hash d)).pointId = irtIndexTombstone then
            probeReads ix hash partition name n (d + 1)
          else
            (slotMatchesReads (ix.slotIndex hash d) (seg.slots (ix.slotIndex hash d)).pointId hash
              partition name).bind fun found =>
              if found then .ret (.ok (seg.slots (ix.slotIndex hash d)).pointId)
              else probeReads ix hash partition name n (d + 1)).run seg.look := rfl
      rw [hget, irtIndexProbeLoop]
      split
      · rfl
      · split
        · exact ih (d + 1)
        · rw [Reads.run_bind, slotMatchesReads_run]
          split
          · rfl
          · exact ih (d + 1)

theorem irtIndexProbe_eq (ix : IrtIndex) (seg : Segment) (partition : UInt32) (name : CStr) :
    (probeReads ix (irtIndexComposeHash partition name) partition name ix.capacity 0).run seg.look
      = irtIndexProbe ix seg partition name := by
  rw [probeReads_run, irtIndexProbe]
  cases irtIndexProbeLoop ix seg (irtIndexComposeHash partition name) partition name
      ix.capacity 0 with
  | none => rfl
  | some i => rfl

@[simp] theorem IndurtdbMeta.field_setField_self (m : IndurtdbMeta) (f : MetaField) (v : f.Val) :
    (m.setField f v).field f = v := by
  cases f <;> rfl

theorem IndurtdbMeta.field_setField_of_ne {m : IndurtdbMeta} {f g : MetaField} {v : f.Val}
    (hne : g ≠ f) : (m.setField f v).field g = m.field g := by
  cases f <;> cases g <;> first | rfl | exact absurd rfl hne

theorem IndurtdbMeta.ext_field {m m' : IndurtdbMeta} (h : ∀ f, m.field f = m'.field f) :
    m = m' := by
  cases m
  cases m'
  simp only [IndurtdbMeta.mk.injEq]
  exact ⟨h .eurMin, h .eurMax, h .deadband, h .flags, h .reserved⟩

/-- A copy that leaves out no field is the record. -/
theorem metaReads_run (seg : Segment) (id : Nat) :
    ∀ (order : List MetaField) (out : IndurtdbMeta),
      (∀ f, f ∈ order ∨ out.field f = (seg.metas id).field f) →
      (metaReads id order out).run seg.look = seg.metas id := by
  intro order
  induction order with
  | nil =>
      intro out hcopied
      exact IndurtdbMeta.ext_field fun f => (hcopied f).resolve_left List.not_mem_nil
  | cons f order ih =>
      intro out hcopied
      refine ih _ fun g => ?_
      rcases eq_or_ne g f with rfl | hne
      · exact Or.inr (IndurtdbMeta.field_setField_self _ _ _)
      · rw [IndurtdbMeta.field_setField_of_ne hne]
        exact (hcopied g).imp (fun h => (List.mem_cons.mp h).resolve_left hne) fun h => h

/-! ## What the programs touch -/

/-- A slot is empty, a tombstone, or names one of the first `N` points. -/
def IrtIndexSlot.Valid (slot : IrtIndexSlot) (N : Nat) : Prop :=
  slot.pointId = irtIndexEmpty ∨ slot.pointId = irtIndexTombstone ∨ slot.pointId < N

namespace IrtIndexSlot

variable {N : Nat} {slot slot' : IrtIndexSlot}

theorem Valid.of_lt (h : slot.pointId < N) : slot.Valid N := Or.inr (Or.inr h)

theorem Valid.tombstone (h : slot.pointId = irtIndexTombstone) : slot.Valid N := Or.inr (Or.inl h)

theorem Valid.of_pointId (h : slot.Valid N) (hsame : slot'.pointId = slot.pointId) :
    slot'.Valid N := by
  rw [Valid, hsame]
  exact h

end IrtIndexSlot

/-- The header is `hdr` but for its entry count, and every slot is valid. -/
def SlotsValid (N : Nat) (hdr : IrtHeader) (seg : Segment) : Prop :=
  (∃ count, seg.hdr = { hdr with indexCount := count }) ∧
    ∀ i, i < irtLayoutBuckets N → (seg.slots i).Valid N

section SlotsValid

variable {N : Nat} {hdr : IrtHeader}

theorem SlotsValid.setSlot {seg : Segment} {i : Nat} {slot : IrtIndexSlot}
    (h : SlotsValid N hdr seg)
    (hslot : i < irtLayoutBuckets N → slot.Valid N) :
    SlotsValid N hdr (seg.setSlot i slot) := by
  refine ⟨h.1, fun j hj => ?_⟩
  rcases eq_or_ne j i with rfl | hne
  · rw [Segment.setSlot_slots, Function.update_self]
    exact hslot hj
  · rw [Segment.setSlot_slots, Function.update_of_ne hne]
    exact h.2 j hj

theorem SlotsValid.setIndexCount {seg : Segment} {n : Nat} (h : SlotsValid N hdr seg) :
    SlotsValid N hdr (seg.setIndexCount n) := by
  obtain ⟨⟨count, hhdr⟩, hslots⟩ := h
  exact ⟨⟨n, by rw [Segment.setIndexCount, hhdr]⟩, hslots⟩

end SlotsValid

/-- The access stays inside the tables of a segment of `N` points. -/
def SegAccess.InRange (N : Nat) : SegAccess → Prop
  | .slotPointId i => i < irtLayoutBuckets N
  | .slotHash i => i < irtLayoutBuckets N
  | .pointPartition id => id < N
  | .pointName id => id < N
  | .metaField id _ => id < N

/-- What a load may yield. -/
def SegAccess.Yields (N : Nat) : (a : SegAccess) → a.Val → Prop
  | .slotPointId _, v => v = irtIndexEmpty ∨ v = irtIndexTombstone ∨ v < N
  | .slotHash _, _ => True
  | .pointPartition _, _ => True
  | .pointName _, _ => True
  | .metaField _ _, _ => True

theorem SlotsValid.yields {N : Nat} {hdr : IrtHeader} {seg : Segment} (h : SlotsValid N hdr seg)
    {a : SegAccess} (ha : a.InRange N) : a.Yields N (seg.look a) := by
  cases a with
  | slotPointId i => exact h.2 i ha
  | slotHash | pointPartition | pointName | metaField => trivial

theorem slotMatchesReads_within {N i pid : Nat} {hash partition : UInt32} {name : CStr}
    (hi : i < irtLayoutBuckets N) (hpid : pid < N) :
    (slotMatchesReads i pid hash partition name).Within (SegAccess.InRange N)
      (SegAccess.Yields N) := by
  refine Reads.within_get.mpr ⟨hi, fun slotHash _ => ?_⟩
  split
  · trivial
  · split
    · trivial
    · refine Reads.within_get.mpr ⟨hpid, fun p _ => ?_⟩
      split
      · trivial
      · exact ⟨hpid, fun _ _ => trivial⟩

/-- A probe through a handle of at most `N` points stays inside the tables, however
the slots change under it, as long as each of them is valid whenever it is read. -/
theorem probeReads_within {N : Nat} {s : IrtShm} (hs : s.maxPoints ≤ N) (hash partition : UInt32)
    (name : CStr) :
    ∀ n d, (probeReads (indexView s.maxPoints) hash partition name n d).Within
      (SegAccess.InRange N) (SegAccess.Yields N) := by
  have hslot : ∀ d, (indexView s.maxPoints).slotIndex hash d < irtLayoutBuckets N := fun d =>
    Nat.lt_of_lt_of_le (slotIndex_lt s.maxPoints hash d) (irtLayoutBuckets_mono hs)
  intro n
  induction n with
  | zero => intro d; trivial
  | succ n ih =>
      intro d
      refine Reads.within_get.mpr ⟨hslot d, fun pid hpid => ?_⟩
      split
      · trivial
      · rename_i hempty
        split
        · exact ih (d + 1)
        · rename_i htomb
          have hbelow : pid < N := (hpid.resolve_left hempty).resolve_left htomb
          refine (slotMatchesReads_within (hslot d) hbelow).bind fun found => ?_
          split
          · trivial
          · exact ih (d + 1)

theorem metaReads_within {N id : Nat} (hid : id < N) :
    ∀ (order : List MetaField) (out : IndurtdbMeta),
      (metaReads id order out).Within (SegAccess.InRange N) (SegAccess.Yields N) := by
  intro order
  induction order with
  | nil => intro out; trivial
  | cons f order ih => exact fun out => ⟨hid, fun v _ => ih (out.setField f v)⟩

end InduRtdb.Core
