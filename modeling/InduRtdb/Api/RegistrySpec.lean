/-
  Api/RegistrySpec.lean --- the registry operations of a handle refine the
  operations of the abstract registry.

  Source: `src/api/indurtdb.c`.

  `Refines` relates a segment to the abstract map it stands for.  It does not
  ask the index to be tight, so it also describes a segment that outlived its
  writer; the operations then need room in the index, which a tight index
  always has.
-/
import InduRtdb.Core.IndexInv
import InduRtdb.Spec.Registry
import InduRtdb.Api.Registry

set_option autoImplicit false

namespace InduRtdb.Api

open InduRtdb.Core InduRtdb.Spec

/-! ## The abstraction -/

/-- The key a point is registered under. -/
def pointKey (p : IndurtdbPoint) : Option (UInt32 × CStr) :=
  if p.name.isEmpty then none else some (p.partition, p.name)

theorem pointKey_eq_some_iff {p : IndurtdbPoint} {partition : UInt32} {name : CStr} :
    pointKey p = some (partition, name) ↔ p.name ≠ CStr.empty ∧ p.HasKey partition name := by
  unfold pointKey IndurtdbPoint.HasKey
  split
  · rename_i hempty
    simp [CStr.isEmpty_iff.mp hempty]
  · rename_i hempty
    have hne : p.name ≠ CStr.empty := fun h => hempty (CStr.isEmpty_iff.mpr h)
    simp [hne]

theorem pointKey_eq_none_iff {p : IndurtdbPoint} : pointKey p = none ↔ p.name = CStr.empty := by
  unfold pointKey
  split
  · rename_i hempty
    simp [CStr.isEmpty_iff.mp hempty]
  · rename_i hempty
    have hne : p.name ≠ CStr.empty := fun h => hempty (CStr.isEmpty_iff.mpr h)
    simp [hne]

/-- The registry a segment stands for. -/
abbrev PointRegistry (n : Nat) := Registry UInt32 CStr n

/-- The segment stands for the registry, nobody is writing, and every registered
point is found. -/
structure Refines (n : Nat) (seg : Segment) (r : PointRegistry n) : Prop where
  even : seg.hdr.writeSeq % 2 = 0
  covers : IndexCovers n (fun _ => False) seg
  holds : ∀ id, id < n → r.holds id = pointKey (seg.points id)

/-- There is nothing in the index but what the registry needs. -/
structure TightFor (n : Nat) (seg : Segment) (r : PointRegistry n) : Prop where
  tight : IndexTight n seg
  count : seg.hdr.indexCount = r.size

/-- Some bucket holds no entry. -/
def IndexRoom (n : Nat) (seg : Segment) : Prop :=
  ∃ i, i < irtLayoutBuckets n ∧ ¬ (seg.slots i).Live

/-- Some bucket holds no entry, or one that the point left there under the same
key. -/
def RoomFor (n : Nat) (seg : Segment) (partition : UInt32) (name : CStr) (id : Nat) : Prop :=
  ∃ i, i < irtLayoutBuckets n ∧
    (¬ (seg.slots i).Live ∨ seg.slots i = ⟨irtIndexComposeHash partition name, id⟩)

theorem IndexRoom.roomFor {n : Nat} {seg : Segment} (h : IndexRoom n seg) (partition : UInt32)
    (name : CStr) (id : Nat) : RoomFor n seg partition name id := by
  obtain ⟨i, hi, hfree⟩ := h
  exact ⟨i, hi, Or.inl hfree⟩

/-- A name an array of 64 bytes can hold. -/
structure PointName where
  str : CStr
  nonempty : str ≠ CStr.empty
  fits : str.bytes.length ≤ nameMax

theorem PointName.stored (name : PointName) : name.str.strncpy nameMax = name.str :=
  CStr.strncpy_of_length_le name.fits

section Lookup

variable {s : IrtShm} {seg : Segment} {r : PointRegistry s.maxPoints} {partition : UInt32}

theorem Refines.holds_iff (h : Refines s.maxPoints seg r) {id : Nat} {name : CStr} :
    r.holds id = some (partition, name) ↔
      id < s.maxPoints ∧ (seg.points id).name ≠ CStr.empty ∧
        (seg.points id).HasKey partition name := by
  constructor
  · intro hid
    have hlt := r.inRange id _ hid
    rw [h.holds id hlt, pointKey_eq_some_iff] at hid
    exact ⟨hlt, hid⟩
  · rintro ⟨hlt, hkey⟩
    rw [h.holds id hlt, pointKey_eq_some_iff]
    exact hkey

/-- A lookup answers what the registry answers. -/
theorem Refines.lookup (h : Refines s.maxPoints seg r) (hn : s.maxPoints < irtIndexTombstone)
    (name : PointName) :
    irtIndexLookup s seg partition name.str = r.find partition name.str := by
  rw [irtIndexLookup_eq h.covers.offIndex h.covers.offPoints name.nonempty h.even]
  cases hloop : irtIndexProbeLoop (indexView s.maxPoints) seg
      (irtIndexComposeHash partition name.str) partition name.str
      (irtLayoutBuckets s.maxPoints) 0 with
  | some i =>
      obtain ⟨_, _, _, hlt, hkey⟩ := probeLoop_some h.covers.names name.fits h.covers.below hloop
      have hnamed : (seg.points (seg.slots i).pointId).name ≠ CStr.empty := by
        rw [hkey.2]
        exact name.nonempty
      exact (Registry.find_of_holds (h.holds_iff.mpr ⟨hlt, hnamed, hkey⟩)).symm
  | none =>
      refine (Registry.find_of_not_holds fun id hid => ?_).symm
      obtain ⟨hlt, hnamed, hkey⟩ := h.holds_iff.mp hid
      obtain ⟨i, hi⟩ := probeLoop_isSome h.covers.names name.fits hn hlt
        (h.covers.slotted id hlt (by simp) hnamed) hkey
      rw [hkey.keyHash, hloop] at hi
      cases hi

end Lookup

section Operations

variable {h : IndurtdbH} {r : PointRegistry h.shm.maxPoints} {partition : UInt32} {id : Nat}

theorem nameTaken_iff (href : Refines h.shm.maxPoints h.seg r)
    (hn : h.shm.maxPoints < irtIndexTombstone) (name : PointName) :
    nameTaken h partition name.str id = true ↔ r.Taken (partition, name.str) id := by
  rw [nameTaken, href.lookup hn name]
  by_cases hex : ∃ j, r.holds j = some (partition, name.str)
  · obtain ⟨j, hj⟩ := hex
    rw [Registry.find_of_holds hj]
    simp only [bne_iff_ne, Registry.Taken]
    constructor
    · intro hne
      exact ⟨j, hne, hj⟩
    · rintro ⟨k, hk, hkey⟩
      rwa [r.unique j k _ hj hkey]
  · rw [Registry.find_of_not_holds (fun j hj => hex ⟨j, hj⟩)]
    simp only [Bool.false_eq_true, false_iff]
    rintro ⟨k, _, hkey⟩
    exact hex ⟨k, hkey⟩

/-! ## One entry is stored -/

/-- What an insertion that succeeds did to the segment: bucket `i` now holds the
entry, and it held none before or one of the same key. -/
structure EntryStored (n : Nat) (seg seg' : Segment) (partition : UInt32) (name : CStr)
    (id i : Nat) : Prop where
  even : seg'.hdr.writeSeq % 2 = 0
  offIndex : seg'.hdr.offIndex = seg.hdr.offIndex
  offPoints : seg'.hdr.offPoints = seg.hdr.offPoints
  offMeta : seg'.hdr.offMeta = seg.hdr.offMeta
  points : seg'.points = seg.points
  reach : SlotReach n seg.slots (irtIndexComposeHash partition name) i
  slots : seg'.slots = Function.update seg.slots i ⟨irtIndexComposeHash partition name, id⟩
  owner : (¬ (seg.slots i).Live ∧ seg'.hdr.indexCount = u32 (seg.hdr.indexCount + 1)) ∨
    ((seg.slots i).pointId < n ∧ (seg.points (seg.slots i).pointId).HasKey partition name ∧
      seg'.hdr.indexCount = seg.hdr.indexCount)

/-- An insertion for a point that already carries the key succeeds when there is
room. -/
theorem irtIndexInsert_stored {s : IrtShm} {seg : Segment} {hidden : Nat → Prop}
    (hcov : IndexCovers s.maxPoints hidden seg) (heven : seg.hdr.writeSeq % 2 = 0)
    (hid : id < s.maxPoints) (name : PointName) (hkey : (seg.points id).HasKey partition name.str)
    (hroom : RoomFor s.maxPoints seg partition name.str id) :
    ∃ seg' i, irtIndexInsert s seg partition name.str id = (.ok, seg') ∧
      EntryStored s.maxPoints seg seg' partition name.str id i := by
  have hsame : ∀ w, (withPartition (seg.setWriteSeq w) id partition).points = seg.points := by
    intro w
    simp only [withPartition, Segment.setPoint, Segment.setWriteSeq, ← hkey.1,
      Function.update_eq_self]
  have heven' := irtSeqlockWriteEnd_even heven
  rw [irtIndexInsert, withWriteLock_of_even heven]
  rcases irtIndexInsertLocked_cases (s := s) partition id
      (show (seg.setWriteSeq (u64 (seg.hdr.writeSeq + 1))).hdr.offIndex ≠ 0 from hcov.offIndex)
      hcov.offPoints hcov.names name.nonempty name.fits hcov.below hid with
    ⟨i, heq, hreach, _, _, hlt, hkey⟩ | ⟨i, heq, hreach, hfree⟩ | ⟨_, hall⟩
  · rw [hsame] at hkey
    refine ⟨_, i, by rw [heq], ?_⟩
    exact ⟨heven', rfl, rfl, rfl, hsame _, hreach, rfl, Or.inr ⟨hlt, hkey, rfl⟩⟩
  · refine ⟨_, i, by rw [heq], ?_⟩
    exact ⟨heven', rfl, rfl, rfl, hsame _, hreach, rfl, Or.inl ⟨hfree, rfl⟩⟩
  · obtain ⟨i, hi, hfree | hslot⟩ := hroom
    · exact absurd (hall i hi).1 hfree
    · have hslot' : (seg.setWriteSeq (u64 (seg.hdr.writeSeq + 1))).slots i =
          ⟨irtIndexComposeHash partition name.str, id⟩ := hslot
      refine absurd ?_ (hall i hi).2
      rw [hslot', hsame]
      exact ⟨rfl, hkey⟩

end Operations

/-! ## The operations refine the registry -/

/-- Legal type and access arguments of a creation. -/
def WellFormed (type access : Int) : Prop :=
  (0 ≤ type ∧ type ≤ indurtdbTypeFloat) ∧
    (access = indurtdbAccessReadOnly.toNat ∨ access = indurtdbAccessReadWrite.toNat)

instance (type access : Int) : Decidable (WellFormed type access) :=
  inferInstanceAs (Decidable (_ ∧ _))

/-- An operation on a handle did what the operation on its registry does. -/
structure StepRefines (h : IndurtdbH) (r : PointRegistry h.shm.maxPoints) (res : Rc × IndurtdbH)
    (spec : Rc × PointRegistry h.shm.maxPoints) : Prop where
  code : res.1 = spec.1
  shm : res.2.shm = h.shm
  offMeta : res.2.seg.hdr.offMeta = h.seg.hdr.offMeta
  refines : Refines h.shm.maxPoints res.2.seg spec.2
  tight : TightFor h.shm.maxPoints h.seg r → TightFor h.shm.maxPoints res.2.seg spec.2

@[simp] theorem deltaLog_shm (h : IndurtdbH) (op id : Nat) (type access : UInt8) (name : CStr) :
    (deltaLog h op id type access name).shm = h.shm := by
  unfold deltaLog
  split <;> rfl

@[simp] theorem deltaLog_seg (h : IndurtdbH) (op id : Nat) (type access : UInt8) (name : CStr) :
    (deltaLog h op id type access name).seg = h.seg := by
  unfold deltaLog
  split <;> rfl

section Operations

variable {h : IndurtdbH} {r : PointRegistry h.shm.maxPoints} {partition : UInt32} {id : Nat}
  (href : Refines h.shm.maxPoints h.seg r)
include href

/-- A refused operation that leaves the handle alone. -/
theorem StepRefines.refused (rc : Rc) : StepRefines h r (rc, h) (rc, r) where
  code := rfl
  shm := rfl
  offMeta := rfl
  refines := href
  tight := id

/-- A refused operation that took and released the write lock. -/
theorem StepRefines.unlocked (rc : Rc) (seq : Nat) (heven : seq % 2 = 0) :
    StepRefines h r (rc, { h with seg := h.seg.setWriteSeq seq }) (rc, r) where
  code := rfl
  shm := rfl
  offMeta := rfl
  refines := ⟨heven, href.covers.of_tables rfl rfl rfl rfl, href.holds⟩
  tight ht := ⟨⟨ht.tight.current, ht.tight.distinct⟩, ht.count⟩

/-- Point `id` becomes `p` while it takes the key of `p`. -/
theorem Refines.holds_assign {p : IndurtdbPoint} {key : UInt32 × CStr} (hid : id < h.shm.maxPoints)
    (hfree : ¬ r.Taken key id) (hp : pointKey p = some key) :
    ∀ k, k < h.shm.maxPoints →
      (r.assign id key hid hfree).holds k = pointKey (Function.update h.seg.points id p k) := by
  intro k hk
  rcases eq_or_ne k id with rfl | hne
  · simp only [Registry.assign, Function.update_self, hp]
  · simp only [Registry.assign, Function.update_of_ne hne]
    exact href.holds k hk

/-- Point `id` loses its name while it releases its key. -/
theorem Refines.holds_clear {p : IndurtdbPoint} (hp : p.name = CStr.empty) :
    ∀ k, k < h.shm.maxPoints →
      (r.clear id).holds k = pointKey (Function.update h.seg.points id p k) := by
  intro k hk
  rcases eq_or_ne k id with rfl | hne
  · simp only [Registry.clear, Function.update_self]
    exact (pointKey_eq_none_iff.mpr hp).symm
  · simp only [Registry.clear, Function.update_of_ne hne]
    exact href.holds k hk

variable (hn : h.shm.maxPoints < irtIndexTombstone)
include hn

/-! ### Creation -/

omit href in
/-- A free point has become `p`, and then an entry of its new key was stored:
the segment stands for the enlarged registry. -/
theorem stored_refines (href : Refines h.shm.maxPoints h.seg r)
    (name : PointName) {p : IndurtdbPoint} (hkey : p.HasKey partition name.str)
    (hid : id < h.shm.maxPoints) (hfree : (h.seg.points id).name = CStr.empty)
    (htaken : ¬ r.Taken (partition, name.str) id) {i : Nat} {seg₁ seg' : Segment}
    (hp : seg₁.points = Function.update h.seg.points id p)
    (hstored : EntryStored h.shm.maxPoints seg₁ seg' partition name.str id i)
    (hoffIndex : seg₁.hdr.offIndex = h.seg.hdr.offIndex)
    (hoffPoints : seg₁.hdr.offPoints = h.seg.hdr.offPoints)
    (hcount₁ : seg₁.hdr.indexCount = h.seg.hdr.indexCount)
    (hslots₁ : seg₁.slots = h.seg.slots) :
    Refines h.shm.maxPoints seg' (r.assign id (partition, name.str) hid htaken) ∧
      (TightFor h.shm.maxPoints h.seg r →
        TightFor h.shm.maxPoints seg' (r.assign id (partition, name.str) hid htaken)) := by
  obtain ⟨hpart, hname⟩ := hkey
  have hpoints : seg'.points = Function.update h.seg.points id p := hstored.points.trans hp
  have hhash : p.keyHash = irtIndexComposeHash partition name.str :=
    IndurtdbPoint.HasKey.keyHash ⟨hpart, hname⟩
  have hnamed : p.name ≠ CStr.empty := by
    rw [hname]
    exact name.nonempty
  have hslots : seg'.slots = Function.update h.seg.slots i ⟨p.keyHash, id⟩ := by
    rw [hhash]
    rw [← hslots₁]
    exact hstored.slots
  have hnone : r.holds id = none := by
    rw [href.holds id hid, pointKey_eq_none_iff, hfree]
  -- an entry of the key can only be a leftover of `id` itself
  have howner : (¬ (h.seg.slots i).Live ∧ seg'.hdr.indexCount = u32 (h.seg.hdr.indexCount + 1)) ∨
      (h.seg.slots i).pointId = id := by
    rcases hstored.owner with howner | ⟨hlt, hkey, _⟩
    · rw [hslots₁, hcount₁] at howner
      exact Or.inl howner
    · refine Or.inr ?_
      by_contra hne
      rw [hslots₁] at hlt
      rw [hp, hslots₁] at hkey
      have hkey' : (Function.update h.seg.points id p (h.seg.slots i).pointId).HasKey partition
          name.str := hkey
      rw [Function.update_of_ne hne] at hkey'
      refine htaken ⟨_, hne, href.holds_iff.mpr ⟨hlt, ?_, hkey'⟩⟩
      rw [hkey'.2]
      exact name.nonempty
  refine ⟨⟨hstored.even, ?_, ?_⟩, fun ht => ⟨?_, ?_⟩⟩
  · refine (href.covers.assign (i := i) (p := p) hn hid ?_ ?_ ?_ (hstored.offIndex.trans hoffIndex)
      (hstored.offPoints.trans hoffPoints) hpoints hslots).mono (by simp)
    · rw [hname]
      exact name.fits
    · rw [hhash, ← hslots₁]
      exact hstored.reach
    · intro hlive
      rcases howner with ⟨hnot, _⟩ | hpid
      · exact absurd hlive hnot
      · exact Or.inl hpid
  · rw [hpoints]
    exact href.holds_assign hid htaken (pointKey_eq_some_iff.mpr ⟨hnamed, hpart, hname⟩)
  · exact ht.tight.assign hnamed hfree hpoints hslots
  · have hcount : seg'.hdr.indexCount = u32 (h.seg.hdr.indexCount + 1) := by
      rcases howner with ⟨_, hcount⟩ | hpid
      · exact hcount
      · rcases hstored.owner with ⟨_, hcount⟩ | ⟨hlt, hkey, _⟩
        · rw [hcount, hcount₁]
        · exfalso
          rw [hslots₁] at hlt
          have hlive : (h.seg.slots i).Live := IrtIndexSlot.live_of_lt hn hlt
          refine (ht.tight.current i hstored.reach.lt hlive).1 ?_
          rw [hpid, hfree]
    have hle := (r.assign id (partition, name.str) hid htaken).size_le
    have hsize := r.size_assign_of_none hnone hid htaken
    rw [hcount, ht.count, hsize]
    refine u32_of_lt ?_
    simp only [irtIndexTombstone] at hn
    omega

/-- Creation does what the registry does, given room when the id is free. -/
theorem create_refines (name : PointName) (type access : Int)
    (hroom : r.holds id = none → ¬ r.Taken (partition, name.str) id →
      RoomFor h.shm.maxPoints h.seg partition name.str id) :
    StepRefines h r (indurtdbHCreatePointIn h partition id name.str type access)
      (r.create partition id name.str (WellFormed type access)) := by
  have htaken : nameTaken h partition name.str id = true ↔ r.Taken (partition, name.str) id :=
    nameTaken_iff href hn name
  unfold indurtdbHCreatePointIn Registry.create
  rw [if_neg (by simp [CStr.isEmpty_eq_false_iff.mpr name.nonempty])]
  by_cases hok : WellFormed type access ∧ id < h.shm.maxPoints ∧
      ¬ r.Taken (partition, name.str) id
  · obtain ⟨hwf, hid, hfree⟩ := hok
    have htype : ¬ (type < 0 ∨ (indurtdbTypeFloat : Int) < type) := by
      have := hwf.1
      omega
    have haccess : ¬ (access ≠ indurtdbAccessReadOnly.toNat ∧
        access ≠ indurtdbAccessReadWrite.toNat) := by
      rintro ⟨hro, hrw⟩
      rcases hwf.2 with hacc | hacc
      · exact hro hacc
      · exact hrw hacc
    rw [dif_pos ⟨hwf, hid, hfree⟩, if_neg htype, if_neg haccess, if_neg (by omega),
      if_neg (by rwa [htaken]), withWriteLock_of_even href.even]
    have hend := irtSeqlockWriteEnd_even href.even
    by_cases hnamed : (h.seg.points id).name = CStr.empty
    · have hnone : r.holds id = none := by
        rw [href.holds id hid, pointKey_eq_none_iff, hnamed]
      have hcond : (((h.seg.setWriteSeq (u64 (h.seg.hdr.writeSeq + 1))).points id).name.isEmpty)
          = true := CStr.isEmpty_iff.mpr hnamed
      rw [if_pos hnone, registerLocked, if_pos hcond]
      obtain ⟨p, hp, hkey⟩ : ∃ p : IndurtdbPoint,
          ((hPointRegister (h.seg.setWriteSeq (u64 (h.seg.hdr.writeSeq + 1))) partition id name.str
            (.ofNat type.toNat) (.ofNat access.toNat)).setWriteSeq
              (irtSeqlockWriteEnd h.seg.hdr.writeSeq)).points =
            Function.update h.seg.points id p ∧ p.HasKey partition name.str :=
        ⟨_, rfl, rfl, name.stored⟩
      have hcov : IndexCovers h.shm.maxPoints (· = id)
          ((hPointRegister (h.seg.setWriteSeq (u64 (h.seg.hdr.writeSeq + 1))) partition id name.str
            (.ofNat type.toNat) (.ofNat access.toNat)).setWriteSeq
              (irtSeqlockWriteEnd h.seg.hdr.writeSeq)) :=
        (href.covers.mono fun _ h => h.elim).overwrite rfl (by rw [hkey.2]; exact name.fits) hp
          rfl rfl rfl
      obtain ⟨seg', i, heq, hstored⟩ := irtIndexInsert_stored hcov hend hid name
        (by rw [hp, Function.update_self]; exact hkey) (hroom hnone hfree)
      obtain ⟨hrefines, htight⟩ :=
        stored_refines hn href name hkey hid hnamed hfree hp hstored rfl rfl rfl rfl
      simp only [heq]
      exact ⟨rfl, deltaLog_shm .., by rw [deltaLog_seg]; exact hstored.offMeta,
        by rw [deltaLog_seg]; exact hrefines, fun ht => by rw [deltaLog_seg]; exact htight ht⟩
    · have hsome : r.holds id ≠ none := by
        rw [href.holds id hid, Ne, pointKey_eq_none_iff]
        exact hnamed
      have hcond : ¬ (((h.seg.setWriteSeq (u64 (h.seg.hdr.writeSeq + 1))).points
          id).name.isEmpty = true) := fun hempty => hnamed (CStr.isEmpty_iff.mp hempty)
      rw [if_neg hsome, registerLocked, if_neg hcond]
      exact StepRefines.unlocked href .errFull _ hend
  · rw [dif_neg hok]
    have hrefuse := StepRefines.refused href .errArg
    split
    · exact hrefuse
    · split
      · exact hrefuse
      · split
        · exact hrefuse
        · split
          · exact hrefuse
          · rename_i htype haccess hid hfree
            refine absurd ⟨⟨by omega, ?_⟩, by omega, by rwa [← htaken]⟩ hok
            by_contra hboth
            exact haccess (not_or.mp hboth)

/-! ### Removal of an entry -/

/-- Under a unique key the search of a removal finds an entry of `id` itself. -/
theorem removeLocked_entry (seg : Segment) (hix : seg.hdr.offIndex ≠ 0)
    (hpts : seg.hdr.offPoints ≠ 0) (hpoints : seg.points = h.seg.points)
    (hbelow : EntriesBelow h.shm.maxPoints seg.slots) {name : CStr}
    (hheld : r.holds id = some (partition, name))
    (hslotted : Slotted h.shm.maxPoints seg.slots (irtIndexComposeHash partition name) id) :
    ∃ j, irtIndexRemoveLocked h.shm seg partition name =
        (.ok, (seg.setSlot j ⟨irtIndexComposeHash partition name, irtIndexTombstone⟩).setIndexCount
          (seg.hdr.indexCount - 1)) ∧
      j < irtLayoutBuckets h.shm.maxPoints ∧
      seg.slots j = ⟨irtIndexComposeHash partition name, id⟩ := by
  obtain ⟨hid, hnamed, hkey⟩ := href.holds_iff.mp hheld
  have hname : name ≠ CStr.empty := hkey.2 ▸ hnamed
  have hlen : name.bytes.length ≤ nameMax := hkey.2 ▸ href.covers.names id hid
  have hnames : NamesFit h.shm.maxPoints seg.points := by
    rw [hpoints]
    exact href.covers.names
  rcases irtIndexRemoveLocked_cases (s := h.shm) partition hix hpts hnames hname
      hlen hbelow with ⟨j, heq, hreach, hhash, _, hlt, hkeyj⟩ | ⟨_, hnone⟩
  · have hpid : (seg.slots j).pointId = id := by
      rw [hpoints] at hkeyj
      refine r.unique _ _ _ (href.holds_iff.mpr ⟨hlt, ?_, hkeyj⟩) hheld
      rw [hkeyj.2]
      exact hname
    refine ⟨j, heq, hreach.lt, ?_⟩
    rw [← hhash, ← hpid]
  · obtain ⟨i, hi⟩ := probeLoop_isSome hnames hlen hn hid hslotted
      (show (seg.points id).HasKey partition name by rw [hpoints]; exact hkey)
    rw [hnone] at hi
    cases hi

/-! ### Deletion -/

/-- Deletion does what the registry does. -/
theorem delete_refines :
    StepRefines h r (indurtdbHDeletePointIn h partition id) (r.delete partition id) := by
  unfold indurtdbHDeletePointIn Registry.delete
  by_cases hid : id < h.shm.maxPoints
  · rw [if_neg (by omega), if_pos hid, withWriteLock_of_even href.even, deleteLocked]
    have hend := irtSeqlockWriteEnd_even href.even
    generalize u64 (h.seg.hdr.writeSeq + 1) = seq
    have hpoint : (h.seg.setWriteSeq seq).points id = h.seg.points id := rfl
    by_cases hnamed : (h.seg.points id).name = CStr.empty
    · have hspec : ¬ ∃ name, r.holds id = some (partition, name) := by
        rintro ⟨name, hname⟩
        rw [href.holds id hid, pointKey_eq_none_iff.mpr hnamed] at hname
        cases hname
      rw [if_neg hspec, hpoint, if_pos (CStr.isEmpty_iff.mpr hnamed)]
      exact StepRefines.unlocked href .errNotFound _ hend
    · rw [hpoint, if_neg (fun hempty => hnamed (CStr.isEmpty_iff.mp hempty))]
      by_cases hpart : (h.seg.points id).partition = partition
      · have hheld : r.holds id = some (partition, (h.seg.points id).name) :=
          href.holds_iff.mpr ⟨hid, hnamed, hpart, rfl⟩
        rw [if_neg (not_not.mpr hpart), if_pos ⟨_, hheld⟩]
        obtain ⟨j, heq, hj, hslot⟩ := removeLocked_entry href hn
          (h.seg.setWriteSeq seq) href.covers.offIndex href.covers.offPoints rfl
          href.covers.below hheld (by
            have := href.covers.slotted id hid (by simp) hnamed
            rwa [IndurtdbPoint.keyHash, hpart] at this)
        rw [hpart, heq]
        refine ⟨rfl, deltaLog_shm .., by rw [deltaLog_seg]; rfl, ?_, ?_⟩
        · rw [deltaLog_seg]
          refine ⟨hend, ?_, ?_⟩
          · exact href.covers.release (p := { h.seg.points id with name := CStr.empty }) rfl
              (by rw [show h.seg.slots j = _ from hslot]) rfl rfl rfl rfl
          · exact href.holds_clear (p := { h.seg.points id with name := CStr.empty }) rfl
        · intro ht
          rw [deltaLog_seg]
          have hpid : (h.seg.slots j).pointId = id := by
            rw [show h.seg.slots j = _ from hslot]
          refine ⟨ht.tight.release (p := { h.seg.points id with name := CStr.empty }) hj
            (IrtIndexSlot.live_of_lt hn (by rw [hpid]; exact hid)) hpid rfl rfl, ?_⟩
          have hsize := r.size_clear_of_some hheld
          have hcount : h.seg.hdr.indexCount = r.size := ht.count
          change h.seg.hdr.indexCount - 1 = (r.clear id).size
          omega
      · have hspec : ¬ ∃ name, r.holds id = some (partition, name) := by
          rintro ⟨name, hname⟩
          exact hpart (href.holds_iff.mp hname).2.2.1
        rw [if_pos hpart, if_neg hspec]
        exact StepRefines.unlocked href .errNotFound _ hend
  · rw [if_pos (by omega), if_neg hid]
    exact StepRefines.refused href .errArg

/-! ### Renaming -/

/-- The locked part of a renaming to a name nobody holds. -/
theorem renameLocked_refines (hroom : IndexRoom h.shm.maxPoints h.seg) (name : PointName)
    (hid : id < h.shm.maxPoints) (htaken : ¬ r.Taken (partition, name.str) id)
    (hnamed : (h.seg.points id).name ≠ CStr.empty)
    (hpart : (h.seg.points id).partition = partition)
    (hne : (h.seg.points id).name ≠ name.str) (seq : Nat) {seq' : Nat} (heven : seq' % 2 = 0) :
    ∃ seg', renameLocked h.shm (h.seg.setWriteSeq seq) partition id name.str = (.changed, seg') ∧
      seg'.hdr.offMeta = h.seg.hdr.offMeta ∧
      Refines h.shm.maxPoints (seg'.setWriteSeq seq')
        (r.assign id (partition, name.str) hid htaken) ∧
      (TightFor h.shm.maxPoints h.seg r → TightFor h.shm.maxPoints (seg'.setWriteSeq seq')
        (r.assign id (partition, name.str) hid htaken)) := by
  have hheld : r.holds id = some (partition, (h.seg.points id).name) :=
    href.holds_iff.mpr ⟨hid, hnamed, hpart, rfl⟩
  have hdiff : ¬ ((h.seg.setWriteSeq seq).points id).name.strncmpEq name.str 64 = true := by
    have h64 : ∀ {c : CStr}, c.bytes.length ≤ nameMax → c.bytes.length ≤ 64 := by
      intro c hc
      simp only [nameMax] at hc
      omega
    rw [Segment.setWriteSeq_points,
      CStr.strncmpEq_iff (h64 (href.covers.names id hid)) (h64 name.fits)]
    exact hne
  have hsame : (withPartition (h.seg.setWriteSeq seq) id partition).points = h.seg.points := by
    simp only [withPartition, Segment.setPoint, Segment.setWriteSeq, ← hpart,
      Function.update_eq_self]
  have hcond : ¬ (((h.seg.setWriteSeq seq).points id).name.isEmpty = true ∨
      ((h.seg.setWriteSeq seq).points id).partition ≠ partition) := by
    rintro (hempty | hother)
    · exact hnamed (CStr.isEmpty_iff.mp hempty)
    · exact hother hpart
  obtain ⟨p, hp⟩ : ∃ p, p = { h.seg.points id with name := name.str.strncpy nameMax } := ⟨_, rfl⟩
  have hpname : p.name = name.str := by
    rw [hp]
    exact name.stored
  have hphash : p.keyHash = irtIndexComposeHash partition name.str := by
    refine IndurtdbPoint.HasKey.keyHash ⟨?_, hpname⟩
    rw [hp]
    exact hpart
  have hpnamed : p.name ≠ CStr.empty := by
    rw [hpname]
    exact name.nonempty
  have hpfits : p.name.bytes.length ≤ nameMax := by
    rw [hpname]
    exact name.fits
  -- the new name is held by nobody, so its insertion fills a bucket
  rcases irtIndexInsertLocked_cases (s := h.shm) partition id
      (show (h.seg.setWriteSeq seq).hdr.offIndex ≠ 0 from href.covers.offIndex)
      href.covers.offPoints href.covers.names name.nonempty name.fits href.covers.below hid with
    ⟨i, _, _, _, _, hlt, hkey⟩ | ⟨i, heq, hreach, hfree⟩ | ⟨_, hall⟩
  · exfalso
    rw [hsame] at hkey
    rw [Segment.setWriteSeq_slots] at hkey hlt
    rcases eq_or_ne (h.seg.slots i).pointId id with hpid | hpid
    · rw [hpid] at hkey
      exact hne hkey.2
    · refine htaken ⟨_, hpid, href.holds_iff.mpr ⟨hlt, ?_, hkey⟩⟩
      rw [hkey.2]
      exact name.nonempty
  · -- and an entry of the old name is still found afterwards
    have hslotted : Slotted h.shm.maxPoints
        (Function.update h.seg.slots i ⟨irtIndexComposeHash partition name.str, id⟩)
        (irtIndexComposeHash partition (h.seg.points id).name) id := by
      have := href.covers.slotted id hid (by simp) hnamed
      rw [IndurtdbPoint.keyHash, hpart] at this
      exact this.fill hn hid hid hfree
    obtain ⟨j, hrem, hj, hslot⟩ := removeLocked_entry href hn
      (((withPartition (h.seg.setWriteSeq seq) id partition).setSlot i
          ⟨irtIndexComposeHash partition name.str, id⟩).setIndexCount
            (u32 ((h.seg.setWriteSeq seq).hdr.indexCount + 1)))
      href.covers.offIndex href.covers.offPoints hsame
      (href.covers.below.update fun _ => hid) hheld hslotted
    have hpoint : (((withPartition (h.seg.setWriteSeq seq) id partition).setSlot i
        ⟨irtIndexComposeHash partition name.str, id⟩).setIndexCount
          (u32 ((h.seg.setWriteSeq seq).hdr.indexCount + 1))).points id = h.seg.points id :=
      congrFun hsame id
    have hslot' : Function.update h.seg.slots i ⟨p.keyHash, id⟩ j =
        ⟨(h.seg.points id).keyHash, id⟩ := by
      rw [hphash, IndurtdbPoint.keyHash, hpart]
      exact hslot
    have hreach' : SlotReach h.shm.maxPoints h.seg.slots p.keyHash i := by
      rw [hphash]
      exact hreach
    obtain ⟨seg', hseg'⟩ : ∃ seg', seg' =
        (((((withPartition (h.seg.setWriteSeq seq) id partition).setSlot i
          ⟨irtIndexComposeHash partition name.str, id⟩).setIndexCount
            (u32 ((h.seg.setWriteSeq seq).hdr.indexCount + 1))).setSlot j
              ⟨irtIndexComposeHash partition (h.seg.points id).name,
                irtIndexTombstone⟩).setIndexCount
                  (u32 ((h.seg.setWriteSeq seq).hdr.indexCount + 1) - 1)).setPoint id p := ⟨_, rfl⟩
    have hpoints : (seg'.setWriteSeq seq').points = Function.update h.seg.points id p := by
      rw [hseg', Segment.setWriteSeq_points, Segment.setPoint_points,
        Segment.setIndexCount_points, Segment.setSlot_points, Segment.setIndexCount_points,
        Segment.setSlot_points, hsame]
    have hslots : (seg'.setWriteSeq seq').slots = Function.update
        (Function.update h.seg.slots i ⟨p.keyHash, id⟩) j
        ⟨irtIndexComposeHash partition (h.seg.points id).name, irtIndexTombstone⟩ := by
      rw [hseg']
      simp only [Segment.setWriteSeq_slots, Segment.setPoint_slots,
        Segment.setIndexCount_slots, Segment.setSlot_slots, hphash]
    refine ⟨seg', ?_, by rw [hseg']; rfl, ⟨heven, ?_, ?_⟩, fun ht => ⟨?_, ?_⟩⟩
    · unfold renameLocked
      rw [if_neg hcond, if_neg hdiff, heq, hseg']
      simp only [hpoint, hrem, hp, Segment.setIndexCount_points, Segment.setSlot_points,
        Segment.setIndexCount_indexCount]
    · exact href.covers.rekey (p := p)
        (irtIndexComposeHash partition (h.seg.points id).name)
        hn hid hpfits (by simp) hnamed hreach' hfree hslot' (by rw [hseg']; rfl)
        (by rw [hseg']; rfl) hpoints hslots
    · rw [hpoints]
      refine href.holds_assign hid htaken (pointKey_eq_some_iff.mpr ⟨hpnamed, ?_, hpname⟩)
      rw [hp]
      exact hpart
    · exact ht.tight.rekey (p := p)
        (irtIndexComposeHash partition (h.seg.points id).name) hn hid hpnamed hreach.lt hj
        hslot' hpoints hslots
    · have hle := r.size_le
      have hcount := ht.count
      have hsize := Registry.size_assign_of_some hheld hid htaken
      rw [hseg']
      change u32 (h.seg.hdr.indexCount + 1) - 1 = _
      simp only [irtIndexTombstone] at hn
      rw [u32_of_lt (by omega)]
      omega
  · obtain ⟨i, hi, hfree⟩ := hroom
    exact absurd (hall i hi).1 hfree

/-- Renaming does what the registry does, given room when the name changes. -/
theorem rename_refines (name : PointName)
    (hroom : ∀ old, r.holds id = some (partition, old) → old ≠ name.str →
      ¬ r.Taken (partition, name.str) id → IndexRoom h.shm.maxPoints h.seg) :
    StepRefines h r (indurtdbHRenamePointIn h partition id name.str)
      (r.rename partition id name.str) := by
  have htaken : nameTaken h partition name.str id = true ↔ r.Taken (partition, name.str) id :=
    nameTaken_iff href hn name
  have hend := irtSeqlockWriteEnd_even href.even
  have hnot : ¬ h.seg.hdr.writeSeq % 2 = 1 := by
    have := href.even
    omega
  unfold indurtdbHRenamePointIn Registry.rename
  rw [if_neg (by simp [CStr.isEmpty_eq_false_iff.mpr name.nonempty])]
  by_cases hok : id < h.shm.maxPoints ∧ ¬ r.Taken (partition, name.str) id
  · obtain ⟨hid, hfree⟩ := hok
    rw [dif_pos ⟨hid, hfree⟩, if_neg (by omega), if_neg (by rwa [htaken])]
    simp only [irtSeqlockWriteBegin, if_pos href.even, if_neg hnot]
    generalize u64 (h.seg.hdr.writeSeq + 1) = seq
    by_cases hheld : ∃ old, r.holds id = some (partition, old)
    · obtain ⟨old, hold⟩ := hheld
      rw [if_pos ⟨old, hold⟩]
      obtain ⟨_, hnamed, hpart, hname⟩ := href.holds_iff.mp hold
      by_cases hsame : (h.seg.points id).name = name.str
      · -- the point keeps its name, and so does the registry
        have hlocked : renameLocked h.shm (h.seg.setWriteSeq seq) partition id name.str =
            (.same, h.seg.setWriteSeq seq) := by
          unfold renameLocked
          rw [if_neg, if_pos]
          · rw [Segment.setWriteSeq_points, hsame, CStr.strncmpEq, beq_self_eq_true]
          · rintro (hempty | hother)
            · exact hnamed (CStr.isEmpty_iff.mp hempty)
            · exact hother hpart
        have hassign : r.assign id (partition, name.str) hid hfree = r := by
          refine Registry.assign_of_holds ?_ hid hfree
          rw [hold, ← hname, hsame]
        rw [hlocked, hassign]
        exact StepRefines.unlocked href .ok _ hend
      · obtain ⟨seg', heq, hmeta, hrefines, htight⟩ :=
          renameLocked_refines href hn (hroom old hold (hname ▸ hsame) hfree) name hid hfree
            hnamed hpart hsame seq hend
        rw [heq]
        exact ⟨rfl, deltaLog_shm .., by rw [deltaLog_seg]; exact hmeta,
          by rw [deltaLog_seg]; exact hrefines, fun ht => by rw [deltaLog_seg]; exact htight ht⟩
    · have hlocked : renameLocked h.shm (h.seg.setWriteSeq seq) partition id name.str =
          (.failed .errNotFound, h.seg.setWriteSeq seq) := by
        unfold renameLocked
        rw [if_pos]
        by_contra hboth
        obtain ⟨hnamed, hpart⟩ := not_or.mp hboth
        refine hheld ⟨_, href.holds_iff.mpr ⟨hid, fun hempty => ?_, not_not.mp hpart, rfl⟩⟩
        exact hnamed (CStr.isEmpty_iff.mpr hempty)
      rw [if_neg hheld, hlocked]
      exact StepRefines.unlocked href .errNotFound _ hend
  · rw [dif_neg hok]
    have hrefuse := StepRefines.refused href .errArg
    split
    · exact hrefuse
    · split
      · exact hrefuse
      · rename_i hid hfree
        exact absurd ⟨by omega, by rwa [← htaken]⟩ hok

/-- Finding a point answers what the registry answers. -/
theorem find_refines (name : PointName) :
    indurtdbHFindByNameIn h partition name.str = r.find partition name.str := by
  rw [indurtdbHFindByNameIn, if_neg (by simp [CStr.isEmpty_eq_false_iff.mpr name.nonempty]),
    href.lookup hn name]

end Operations

end InduRtdb.Api
