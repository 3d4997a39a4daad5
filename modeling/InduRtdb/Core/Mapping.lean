/-
  Core/Mapping.lean --- which bytes the operations of an opened handle touch, and
  when they all lie in the bytes that handle mapped.

  Source: `src/core/irt_shm.c`, `src/core/irt_shm.h`,
  `src/core/irt_point_manager.c`, `src/core/irt_index.c`,
  `src/core/irt_subscription.c`.

  An opener maps as many bytes as its own request needs.  The offsets of the
  regions and the bound of `irt_pm_validate_id` come from the header, that is
  from the request of the creator.
-/
import InduRtdb.Core.IndexSpec

set_option autoImplicit false

namespace InduRtdb.Core

/-! ## The bytes an operation touches -/

/-- `irt_pm_validate_id`. -/
def irtPmValidateId (hdr : IrtHeader) (id : Nat) : Bool := decide (id < hdr.maxPoints)

/-- The bytes the checked operations of a handle may read or write in a
segment. -/
inductive Touches (s : IrtShm) (seg : Segment) : Nat → Prop where
  /-- the record of an id that `irt_pm_validate_id` accepts -/
  | point {id b : Nat} (hid : irtPmValidateId seg.hdr id = true) (hb : b < sizeofPoint) :
      Touches s seg (seg.hdr.offPoints + sizeofPoint * id + b)
  /-- the record of an id that `indurtdb_h_create_point_in` accepts -/
  | create {id b : Nat} (hid : id < s.maxPoints) (hb : b < sizeofPoint) :
      Touches s seg (seg.hdr.offPoints + sizeofPoint * id + b)
  /-- the record of an id scanned by `irt_pm_check_timeouts` -/
  | scan {id b : Nat} (hid : id < seg.hdr.maxPoints) (hb : b < sizeofPoint) :
      Touches s seg (seg.hdr.offPoints + sizeofPoint * id + b)
  /-- a bucket that insertion, removal or lookup probes -/
  | bucket {ix : IrtIndex} {hash : UInt32} {d b : Nat} (hix : irtIndexBind s seg.hdr = some ix)
      (hd : d < ix.capacity) (hb : b < irtIndexSlotSize) :
      Touches s seg (seg.hdr.offIndex + irtIndexSlotSize * ix.slotIndex hash d + b)
  /-- the record that a probed bucket names -/
  | named {ix : IrtIndex} {hash : UInt32} {d b : Nat} (hix : irtIndexBind s seg.hdr = some ix)
      (hd : d < ix.capacity) (hlive : (seg.slots (ix.slotIndex hash d)).Live)
      (hb : b < sizeofPoint) :
      Touches s seg
        (seg.hdr.offPoints + sizeofPoint * (seg.slots (ix.slotIndex hash d)).pointId + b)
  /-- the record of `irt_meta_set` and `irt_meta_get` -/
  | pointMeta {id b : Nat} (hid : id < s.maxPoints) (hoff : seg.hdr.offMeta ≠ 0)
      (hb : b < sizeofMeta) : Touches s seg (seg.hdr.offMeta + sizeofMeta * id + b)
  /-- a heartbeat entry -/
  | heartbeat {j b : Nat} (hj : j < s.maxSubscribers) (hoff : seg.hdr.offSubs ≠ 0)
      (hb : b < sizeofSubscriberEntry) :
      Touches s seg (seg.hdr.offSubs + sizeofSubscriberEntry * j + b)

/-- Every byte the handle may touch is one it mapped. -/
def StaysInside (s : IrtShm) (seg : Segment) : Prop := ∀ o, Touches s seg o → o < s.totalSize

/-! ## The states of a segment -/

/-- Headers that differ only in what changes after creation. -/
def SameLayout (hdr hdr' : IrtHeader) : Prop :=
  hdr' = { hdr with
    writeSeq := hdr'.writeSeq
    ownerPid := hdr'.ownerPid
    statsWrites := hdr'.statsWrites
    statsTimeouts := hdr'.statsTimeouts
    indexCount := hdr'.indexCount
    scanSkipped := hdr'.scanSkipped }

theorem SameLayout.trans {h₁ h₂ h₃ : IrtHeader} (h₁₂ : SameLayout h₁ h₂)
    (h₂₃ : SameLayout h₂ h₃) : SameLayout h₁ h₃ := by
  unfold SameLayout at *
  rw [h₂₃, h₁₂]

/-- Attaching looks at the layout only. -/
theorem irtShmAttach_congr {hdr hdr' : IrtHeader} (h : SameLayout hdr hdr') (n m : Nat) :
    irtShmAttach hdr' n m = irtShmAttach hdr n m := by
  rw [h]
  rfl

/-- A handle some process holds on the segment. -/
def Opened (N M pid : Nat) (s : IrtShm) : Prop :=
  s = irtShmRequest N M ∨ ∃ n m, irtShmAttach (irtShmInitHeader N M pid) n m = .ok s

/-- The states a segment can be in: index entries come and go through the index
functions of handles opened on it, everything else but the layout may change
in any way. -/
inductive SegmentOf (N M pid : Nat) : Segment → Prop where
  | created : SegmentOf N M pid (irtShmInitOwner N M pid)
  | inserted {seg : Segment} {s : IrtShm} (h : SegmentOf N M pid seg) (hs : Opened N M pid s)
      (partition : UInt32) (name : CStr) (id : Nat) :
      SegmentOf N M pid (irtIndexInsertLocked s seg partition name id).2
  | removed {seg : Segment} {s : IrtShm} (h : SegmentOf N M pid seg) (hs : Opened N M pid s)
      (partition : UInt32) (name : CStr) :
      SegmentOf N M pid (irtIndexRemoveLocked s seg partition name).2
  | changed {seg seg' : Segment} (h : SegmentOf N M pid seg) (hslots : seg'.slots = seg.slots)
      (hhdr : SameLayout seg.hdr seg'.hdr) : SegmentOf N M pid seg'

theorem Opened.le {N M pid : Nat} {s : IrtShm} (h : Opened N M pid s) : s.maxPoints ≤ N := by
  rcases h with rfl | ⟨n, m, hattach⟩
  · exact le_rfl
  · obtain ⟨⟨_, hn, _⟩, rfl⟩ := irtShmAttach_created_iff.mp hattach
    exact hn

/-- An insertion stores one entry of an id in range, or none. -/
theorem irtIndexInsertLocked_slots (s : IrtShm) (seg : Segment) (partition : UInt32)
    (name : CStr) (id : Nat) :
    SameLayout seg.hdr (irtIndexInsertLocked s seg partition name id).2.hdr ∧
      ((irtIndexInsertLocked s seg partition name id).2.slots = seg.slots ∨
        ∃ i slot, slot.pointId < s.maxPoints ∧
          (irtIndexInsertLocked s seg partition name id).2.slots =
            Function.update seg.slots i slot) := by
  unfold irtIndexInsertLocked
  split
  · exact ⟨rfl, Or.inl rfl⟩
  · split
    · exact ⟨rfl, Or.inl rfl⟩
    · split
      · exact ⟨rfl, Or.inl rfl⟩
      · rename_i hguard
        have hid : id < s.maxPoints := by
          rw [not_or] at hguard
          exact Nat.lt_of_not_le hguard.2
        dsimp only
        split
        · exact ⟨rfl, Or.inr ⟨_, _, hid, rfl⟩⟩
        · exact ⟨rfl, Or.inr ⟨_, _, hid, rfl⟩⟩
        · exact ⟨rfl, Or.inl rfl⟩

/-- A removal buries one entry, or none. -/
theorem irtIndexRemoveLocked_slots (s : IrtShm) (seg : Segment) (partition : UInt32)
    (name : CStr) :
    SameLayout seg.hdr (irtIndexRemoveLocked s seg partition name).2.hdr ∧
      ((irtIndexRemoveLocked s seg partition name).2.slots = seg.slots ∨
        ∃ i slot, slot.pointId = irtIndexTombstone ∧
          (irtIndexRemoveLocked s seg partition name).2.slots =
            Function.update seg.slots i slot) := by
  unfold irtIndexRemoveLocked
  split
  · exact ⟨rfl, Or.inl rfl⟩
  · split
    · exact ⟨rfl, Or.inl rfl⟩
    · split
      · exact ⟨rfl, Or.inl rfl⟩
      · dsimp only
        split
        · exact ⟨rfl, Or.inl rfl⟩
        · exact ⟨rfl, Or.inr ⟨_, _, rfl, rfl⟩⟩

/-- The layout of a segment never changes, and its entries name points of its
creator. -/
theorem SegmentOf.invariant {N M pid : Nat} {seg : Segment} (hfits : IndexOffsetFits N)
    (h : SegmentOf N M pid seg) :
    SameLayout (irtShmInitHeader N M pid) seg.hdr ∧ EntriesBelow N seg.slots := by
  induction h with
  | created => exact ⟨rfl, fun i hi hlive => absurd (irtShmInitOwner_slots hfits hi) hlive.1⟩
  | inserted h hs partition name id ih =>
      rename_i seg s
      obtain ⟨hlayout, hslots⟩ := irtIndexInsertLocked_slots s seg partition name id
      refine ⟨ih.1.trans hlayout, ?_⟩
      rcases hslots with hsame | ⟨i, slot, hslot, hupdate⟩
      · rw [hsame]
        exact ih.2
      · rw [hupdate]
        exact ih.2.update fun _ => Nat.lt_of_lt_of_le hslot hs.le
  | removed h hs partition name ih =>
      rename_i seg s
      obtain ⟨hlayout, hslots⟩ := irtIndexRemoveLocked_slots s seg partition name
      refine ⟨ih.1.trans hlayout, ?_⟩
      rcases hslots with hsame | ⟨i, slot, hslot, hupdate⟩
      · rw [hsame]
        exact ih.2
      · rw [hupdate]
        exact ih.2.update fun hlive => absurd hslot hlive.2
  | changed h hslots hhdr ih =>
      refine ⟨ih.1.trans hhdr, ?_⟩
      rw [hslots]
      exact ih.2

/-! ## Accepted requests -/

/-- No byte touched through an accepted handle lies outside its mapping. -/
def AttachesStayInside : Prop :=
  ∀ (N M pid n m : Nat) (seg : Segment) (s : IrtShm), LayoutFits N → SegmentOf N M pid seg →
    irtShmAttach seg.hdr n m = .ok s → StaysInside s seg

section Accepted

variable {N M pid n m : Nat} {seg : Segment} {s : IrtShm} (hfits : LayoutFits N)
  (hseg : SegmentOf N M pid seg) (hattach : irtShmAttach seg.hdr n m = .ok s)
include hfits hseg hattach

/-- What an accepted handle looks like, and where the regions are. -/
theorem accepted_layout :
    (0 < n ∧ n ≤ N ∧ m ≤ M) ∧ s = irtShmRequest n m ∧ seg.hdr.maxPoints = N ∧
      seg.hdr.offPoints = 128 ∧ seg.hdr.offIndex = 128 + 128 * N ∧
      seg.hdr.offMeta = 128 + 128 * N + 8 * irtLayoutBuckets N ∧
      seg.hdr.offSubs = 128 + 160 * N + 8 * irtLayoutBuckets N := by
  have hlayout := (hseg.invariant hfits.indexOffsetFits).1
  rw [irtShmAttach_congr hlayout] at hattach
  obtain ⟨hbounds, hs⟩ := irtShmAttach_created_iff.mp hattach
  refine ⟨hbounds, hs, ?_, ?_, ?_, ?_, ?_⟩
  · rw [hlayout]
    rfl
  · rw [hlayout]
    rfl
  · rw [hlayout, ← hfits.offIndex]
    rfl
  · rw [hlayout, ← hfits.offMeta]
    rfl
  · rw [hlayout, ← hfits.offSubs]
    rfl

/-- A request for the creator's number of points stays inside. -/
theorem staysInside_of_eq (heq : n = N) : StaysInside s seg := by
  obtain ⟨⟨_, _, _⟩, rfl, hmax, hpoints, hindex, hmeta, hsubs⟩ :=
    accepted_layout hfits hseg hattach
  have hbelow := (hseg.invariant hfits.indexOffsetFits).2
  have htotal : (irtShmRequest n m).totalSize = 128 + 160 * N + 8 * irtLayoutBuckets N + 16 * m := by
    simp only [irtShmRequest, irtShmTotalSize, irtLayoutIndexSize, irtLayoutMetaSize, heq,
      sizeofHeader, sizeofPoint, irtIndexSlotSize, sizeofMeta, sizeofSubscriberEntry]
    omega
  have hview : ∀ {ix}, irtIndexBind (irtShmRequest n m) seg.hdr = some ix → ix = indexView N := by
    intro ix hix
    rw [irtIndexBind_eq (by omega)] at hix
    rw [← Option.some.inj hix]
    exact congrArg indexView heq
  intro o ho
  rw [htotal]
  cases ho with
  | point hid hb =>
      rw [irtPmValidateId, decide_eq_true_iff, hmax] at hid
      simp only [hpoints, sizeofPoint] at hb ⊢
      omega
  | create hid hb =>
      simp only [irtShmRequest, hpoints, sizeofPoint] at hid hb ⊢
      omega
  | scan hid hb =>
      simp only [hmax, hpoints, sizeofPoint] at hid hb ⊢
      omega
  | bucket hix hd hb =>
      rename_i hash d b
      obtain rfl := hview hix
      have hslot := slotIndex_lt N hash d
      simp only [hindex, irtIndexSlotSize] at hb ⊢
      omega
  | named hix hd hlive hb =>
      rename_i hash d b
      obtain rfl := hview hix
      have hpid := hbelow _ (slotIndex_lt N hash d) hlive
      simp only [hpoints, sizeofPoint] at hb ⊢
      omega
  | pointMeta hid hoff hb =>
      simp only [irtShmRequest, hmeta, sizeofMeta] at hid hb ⊢
      omega
  | heartbeat hj hoff hb =>
      simp only [irtShmRequest, hsubs, sizeofSubscriberEntry] at hj hb ⊢
      omega

/-- A request for fewer points reaches past its mapping: the last heartbeat, or
without heartbeats the last metadata record, lies where the creator put it. -/
theorem not_staysInside_of_lt (hlt : n < N) : ¬ StaysInside s seg := by
  obtain ⟨⟨hpos, _, _⟩, rfl, hmax, hpoints, hindex, hmeta, hsubs⟩ :=
    accepted_layout hfits hseg hattach
  have hmono : irtLayoutBuckets n ≤ irtLayoutBuckets N := irtLayoutBuckets_mono (by omega)
  have htotal : (irtShmRequest n m).totalSize = 128 + 160 * n + 8 * irtLayoutBuckets n + 16 * m := by
    simp only [irtShmRequest, irtShmTotalSize, irtLayoutIndexSize, irtLayoutMetaSize,
      sizeofHeader, sizeofPoint, irtIndexSlotSize, sizeofMeta, sizeofSubscriberEntry]
    omega
  intro hinside
  rcases Nat.eq_zero_or_pos m with hm | hm
  · have hlast : Touches (irtShmRequest n m) seg (seg.hdr.offMeta + sizeofMeta * (n - 1) + 31) :=
      .pointMeta (Nat.sub_lt hpos Nat.one_pos) (by omega) (by decide)
    have hbound := hinside _ hlast
    simp only [hmeta, sizeofMeta, htotal] at hbound
    omega
  · have hlast : Touches (irtShmRequest n m) seg
        (seg.hdr.offSubs + sizeofSubscriberEntry * (m - 1) + 15) :=
      .heartbeat (Nat.sub_lt hm Nat.one_pos) (by omega) (by decide)
    have hbound := hinside _ hlast
    simp only [hsubs, sizeofSubscriberEntry, htotal] at hbound
    omega

end Accepted

/-- An accepted handle stays inside its mapping exactly when it asked for as many
points as the segment was created with. -/
theorem staysInside_iff {N M pid n m : Nat} {seg : Segment} {s : IrtShm} (hfits : LayoutFits N)
    (hseg : SegmentOf N M pid seg) (hattach : irtShmAttach seg.hdr n m = .ok s) :
    StaysInside s seg ↔ n = N := by
  constructor
  · intro hinside
    have hle := (accepted_layout hfits hseg hattach).1.2.1
    by_contra hne
    exact not_staysInside_of_lt hfits hseg hattach (by omega) hinside
  · exact staysInside_of_eq hfits hseg hattach

/-- A segment for two points, attached with the same request. -/
theorem staysInside_two : StaysInside (irtShmRequest 2 1) (irtShmInitOwner 2 1 7) :=
  (staysInside_iff (N := 2) (M := 1) (n := 2) (m := 1) (by decide) .created
    (irtShmAttach_created_iff.mpr ⟨by decide, rfl⟩)).mpr rfl

/-- A segment for two points, attached with a request for one: the handle maps
368 bytes and the record of point 1 reaches byte 383. -/
theorem not_attachesStayInside : ¬ AttachesStayInside := by
  intro hall
  have hattach : irtShmAttach (irtShmInitOwner 2 1 7).hdr 1 1 = .ok (irtShmRequest 1 1) :=
    irtShmAttach_created_iff.mpr ⟨by decide, rfl⟩
  have htouch : Touches (irtShmRequest 1 1) (irtShmInitOwner 2 1 7) 383 :=
    Touches.point (b := 127) (show irtPmValidateId (irtShmInitOwner 2 1 7).hdr 1 = true by decide)
      (by decide)
  exact absurd (hall 2 1 7 1 1 _ _ (by decide) .created hattach 383 htouch) (by decide)

end InduRtdb.Core
