/-
  Core/IndexSpec.lean --- what each operation of the name index does.

  Source: `src/core/irt_index.c`.

  The bucket arithmetic and the probe loops of `Core/Index.lean` are the ones of
  `Lib/Probe.lean`, at the table of index slots.  On top of that stand one lemma
  for each outcome of a search, and the two facts the rest of the development
  uses about a change of the table: filling a cell that holds no entry and
  burying an entry both keep every other entry reachable.
-/
import InduRtdb.Core.Index

set_option autoImplicit false

namespace InduRtdb.Core

/-! ## Buckets -/

/-- The index as an opener of capacity `n` sees it. -/
abbrev indexView (n : Nat) : IrtIndex := ⟨irtLayoutBuckets n, irtLayoutBuckets n - 1⟩

theorem irtIndexBind_eq {s : IrtShm} {hdr : IrtHeader} (h : hdr.offIndex ≠ 0) :
    irtIndexBind s hdr = some (indexView s.maxPoints) := by
  rw [irtIndexBind, if_neg h]

/-- Masking with one less than the number of buckets is linear probing. -/
theorem slotIndex_eq_linear (n : Nat) (hash : UInt32) (d : Nat) :
    (indexView n).slotIndex hash d =
      Probe.linear (irtLayoutBuckets n) (hash.toNat % irtLayoutBuckets n) d := by
  obtain ⟨j, _, _, hpow⟩ := irtLayoutBuckets_pow n
  simp only [IrtIndex.slotIndex, Probe.linear, hpow, Nat.and_two_pow_sub_one_eq_mod]

theorem slotIndex_lt (n : Nat) (hash : UInt32) (d : Nat) :
    (indexView n).slotIndex hash d < irtLayoutBuckets n := by
  rw [slotIndex_eq_linear]
  exact Probe.linear_lt (by have := irtLayoutBuckets_pos n; omega) _ _

theorem slotIndex_surj {n i : Nat} (hash : UInt32) (hi : i < irtLayoutBuckets n) :
    ∃ d, d < irtLayoutBuckets n ∧ (indexView n).slotIndex hash d = i := by
  obtain ⟨d, hd, heq⟩ := Probe.linear_surj (hash.toNat % irtLayoutBuckets n) hi
  exact ⟨d, hd, by rw [slotIndex_eq_linear, heq]⟩

/-! ## Slots as cells -/

/-- The slot is neither empty nor a tombstone. -/
def IrtIndexSlot.Live (slot : IrtIndexSlot) : Prop :=
  slot.pointId ≠ irtIndexEmpty ∧ slot.pointId ≠ irtIndexTombstone

instance (slot : IrtIndexSlot) : Decidable slot.Live :=
  inferInstanceAs (Decidable (_ ∧ _))

/-- A slot read as a cell of a probed table. -/
def IrtIndexSlot.cell (slot : IrtIndexSlot) : Probe.Cell IrtIndexSlot :=
  if slot.pointId = irtIndexEmpty then .empty
  else if slot.pointId = irtIndexTombstone then .tomb
  else .live slot

theorem IrtIndexSlot.live_of_lt {slot : IrtIndexSlot} {n : Nat} (hn : n < irtIndexTombstone)
    (h : slot.pointId < n) : slot.Live := by
  simp only [IrtIndexSlot.Live, irtIndexEmpty, irtIndexTombstone] at *
  omega

theorem IrtIndexSlot.live_mk {n id : Nat} (hash : UInt32) (hn : n < irtIndexTombstone)
    (h : id < n) : (⟨hash, id⟩ : IrtIndexSlot).Live :=
  IrtIndexSlot.live_of_lt hn h

theorem IrtIndexSlot.cell_live {slot : IrtIndexSlot} (h : slot.Live) :
    slot.cell = .live slot := by
  rw [IrtIndexSlot.cell, if_neg h.1, if_neg h.2]

theorem IrtIndexSlot.cell_eq_live_iff {slot entry : IrtIndexSlot} :
    slot.cell = .live entry ↔ slot.Live ∧ slot = entry := by
  unfold IrtIndexSlot.cell IrtIndexSlot.Live
  split
  · rename_i hempty
    simp [hempty]
  · rename_i hempty
    split
    · rename_i htomb
      simp [htomb]
    · rename_i htomb
      simp [hempty, htomb]

theorem IrtIndexSlot.not_live_of_cell {slot : IrtIndexSlot}
    (h : slot.cell = .empty ∨ slot.cell = .tomb) : ¬ slot.Live := by
  intro hlive
  rw [IrtIndexSlot.cell_live hlive] at h
  rcases h with h | h <;> cases h

theorem IrtIndexSlot.cell_eq_empty_iff {slot : IrtIndexSlot} :
    slot.cell = .empty ↔ slot.pointId = irtIndexEmpty := by
  unfold IrtIndexSlot.cell
  split
  · rename_i hempty
    simp [hempty]
  · rename_i hempty
    split <;> simp [hempty]

/-- Bucket `i` is met before any empty slot by a search for `hash`. -/
def SlotReach (n : Nat) (slots : Nat → IrtIndexSlot) (hash : UInt32) (i : Nat) : Prop :=
  Probe.Reach ((indexView n).slotIndex hash) (fun j => (slots j).cell) (irtLayoutBuckets n) i

theorem SlotReach.lt {n : Nat} {slots : Nat → IrtIndexSlot} {hash : UInt32} {i : Nat}
    (h : SlotReach n slots hash i) : i < irtLayoutBuckets n := by
  obtain ⟨k, _, hk, _⟩ := h
  exact hk ▸ slotIndex_lt n hash k

/-- Reachability survives a store that does not empty a slot. -/
theorem SlotReach.update {n : Nat} {slots : Nat → IrtIndexSlot} {hash : UInt32} {i j : Nat}
    {slot : IrtIndexSlot} (h : SlotReach n slots hash i) (hslot : slot.pointId ≠ irtIndexEmpty) :
    SlotReach n (Function.update slots j slot) hash i := by
  refine Probe.Reach.mono h fun k hk => ?_
  rcases eq_or_ne k j with rfl | hne
  · rw [Function.update_self, IrtIndexSlot.cell_eq_empty_iff] at hk
    exact absurd hk hslot
  · rwa [Function.update_of_ne hne] at hk

/-! ## The loops are the generic searches -/

theorem irtIndexProbeLoop_eq_find (ix : IrtIndex) (seg : Segment) (hash partition : UInt32)
    (name : CStr) :
    ∀ n d, irtIndexProbeLoop ix seg hash partition name n d =
      Probe.find (ix.slotIndex hash) (fun j => (seg.slots j).cell)
        (irtIndexSlotMatches seg.points hash partition name) n d := by
  intro n
  induction n with
  | zero => intro d; rfl
  | succ n ih =>
      intro d
      simp only [irtIndexProbeLoop, Probe.find, IrtIndexSlot.cell]
      split
      · rfl
      · split
        · exact ih (d + 1)
        · rw [ih (d + 1)]
          rfl

theorem irtIndexInsertLoop_eq_place (ix : IrtIndex) (seg : Segment) (hash partition : UInt32)
    (name : CStr) :
    ∀ n d t, irtIndexInsertLoop ix seg hash partition name n d t =
      Probe.place (ix.slotIndex hash) (fun j => (seg.slots j).cell)
        (irtIndexSlotMatches seg.points hash partition name) n d t := by
  intro n
  induction n with
  | zero => intro d t; cases t <;> rfl
  | succ n ih =>
      intro d t
      simp only [irtIndexInsertLoop, Probe.place, IrtIndexSlot.cell]
      split
      · rfl
      · split
        · exact ih (d + 1) _
        · rw [ih (d + 1) t]
          rfl

/-! ## Outcomes of a search -/

/-- The point carries this partition and this name. -/
def IndurtdbPoint.HasKey (p : IndurtdbPoint) (partition : UInt32) (name : CStr) : Prop :=
  p.partition = partition ∧ p.name = name

/-- The hash of the key a point carries. -/
def IndurtdbPoint.keyHash (p : IndurtdbPoint) : UInt32 := irtIndexComposeHash p.partition p.name

theorem IndurtdbPoint.HasKey.keyHash {p : IndurtdbPoint} {partition : UInt32} {name : CStr}
    (h : p.HasKey partition name) : p.keyHash = irtIndexComposeHash partition name := by
  rw [IndurtdbPoint.keyHash, h.1, h.2]

/-- Every stored name fits its array, as far as the first `n` points go. -/
def NamesFit (n : Nat) (points : Nat → IndurtdbPoint) : Prop :=
  ∀ id, id < n → (points id).name.bytes.length ≤ nameMax

/-- Every entry of the index names one of the first `n` points. -/
def EntriesBelow (n : Nat) (slots : Nat → IrtIndexSlot) : Prop :=
  ∀ i, i < irtLayoutBuckets n → (slots i).Live → (slots i).pointId < n

/-- The entry `(hash, id)` stands where a search for `hash` finds it. -/
def Slotted (n : Nat) (slots : Nat → IrtIndexSlot) (hash : UInt32) (id : Nat) : Prop :=
  ∃ i, slots i = ⟨hash, id⟩ ∧ SlotReach n slots hash i

section Search

variable {n : Nat} {seg : Segment} {hash partition : UInt32} {name : CStr}

theorem irtIndexSlotMatches_iff {slot : IrtIndexSlot}
    (hstored : (seg.points slot.pointId).name.bytes.length ≤ nameMax)
    (hname : name.bytes.length ≤ nameMax) :
    irtIndexSlotMatches seg.points hash partition name slot = true ↔
      slot.hash = hash ∧ slot.Live ∧ (seg.points slot.pointId).HasKey partition name := by
  simp only [irtIndexSlotMatches, Bool.and_eq_true, beq_iff_eq, bne_iff_ne,
    CStr.strncmpEq_iff hstored hname, IrtIndexSlot.Live, IndurtdbPoint.HasKey]
  tauto

variable (hnames : NamesFit n seg.points) (hname : name.bytes.length ≤ nameMax)
include hnames hname

/-- A search finds an entry that stands where it should and whose point carries
the key. -/
theorem probeLoop_isSome {id : Nat} (hn : n < irtIndexTombstone) (hid : id < n)
    (hslotted : Slotted n seg.slots hash id) (hkey : (seg.points id).HasKey partition name) :
    ∃ i, irtIndexProbeLoop (indexView n) seg hash partition name (irtLayoutBuckets n) 0
      = some i := by
  obtain ⟨i, hslot, hreach⟩ := hslotted
  have hlive : (seg.slots i).Live := IrtIndexSlot.live_of_lt hn (by rw [hslot]; exact hid)
  have hmatch : irtIndexSlotMatches seg.points hash partition name (seg.slots i) = true := by
    rw [irtIndexSlotMatches_iff (by rw [hslot]; exact hnames id hid) hname, hslot]
    exact ⟨rfl, hslot ▸ hlive, hkey⟩
  rw [irtIndexProbeLoop_eq_find]
  exact Probe.find_isSome hreach (IrtIndexSlot.cell_live hlive) hmatch

variable (hbelow : EntriesBelow n seg.slots)
include hbelow

/-- A search that succeeds returns a bucket whose point carries the key. -/
theorem probeLoop_some {i : Nat}
    (h : irtIndexProbeLoop (indexView n) seg hash partition name (irtLayoutBuckets n) 0 = some i) :
    SlotReach n seg.slots hash i ∧ (seg.slots i).hash = hash ∧ (seg.slots i).Live ∧
      (seg.slots i).pointId < n ∧
      (seg.points (seg.slots i).pointId).HasKey partition name := by
  rw [irtIndexProbeLoop_eq_find] at h
  obtain ⟨entry, hcell, hmatch, hreach⟩ := Probe.find_some _ 0 i h (by intro j hj; omega)
  rw [Nat.zero_add] at hreach
  obtain ⟨hlive, rfl⟩ := IrtIndexSlot.cell_eq_live_iff.mp hcell
  have hlt : (seg.slots i).pointId < n := hbelow i (SlotReach.lt hreach) hlive
  obtain ⟨hhash, _, hkey⟩ := (irtIndexSlotMatches_iff (hnames _ hlt) hname).mp hmatch
  exact ⟨hreach, hhash, hlive, hlt, hkey⟩

variable (hash partition) in
/-- The search of an insertion ends at a bucket whose point carries the key, at
a reachable bucket without an entry, or in a table full of entries of other
keys. -/
theorem insertLoop_cases :
    (∃ i, irtIndexInsertLoop (indexView n) seg hash partition name (irtLayoutBuckets n) 0 none
        = .hit i ∧ SlotReach n seg.slots hash i ∧ (seg.slots i).hash = hash ∧
        (seg.slots i).Live ∧ (seg.slots i).pointId < n ∧
        (seg.points (seg.slots i).pointId).HasKey partition name) ∨
    (∃ i, irtIndexInsertLoop (indexView n) seg hash partition name (irtLayoutBuckets n) 0 none
        = .free i ∧ SlotReach n seg.slots hash i ∧ ¬ (seg.slots i).Live) ∨
    (irtIndexInsertLoop (indexView n) seg hash partition name (irtLayoutBuckets n) 0 none
        = .full ∧ ∀ i, i < irtLayoutBuckets n → (seg.slots i).Live ∧
          ¬ ((seg.slots i).hash = hash ∧
            (seg.points (seg.slots i).pointId).HasKey partition name)) := by
  cases hres : irtIndexInsertLoop (indexView n) seg hash partition name (irtLayoutBuckets n) 0
      none with
  | hit i =>
      refine Or.inl ⟨i, rfl, ?_⟩
      refine probeLoop_some hnames hname hbelow ?_
      rw [irtIndexProbeLoop_eq_find, ← Probe.place_hit_iff_find _ 0 none,
        ← irtIndexInsertLoop_eq_place, hres]
  | free i =>
      refine Or.inr (Or.inl ⟨i, rfl, ?_⟩)
      rw [irtIndexInsertLoop_eq_place] at hres
      obtain ⟨hcell, hreach⟩ :=
        Probe.place_free _ 0 none i hres (by intro j hj; omega) (by intro k hk; cases hk)
      rw [Nat.zero_add] at hreach
      exact ⟨hreach, IrtIndexSlot.not_live_of_cell hcell⟩
  | full =>
      refine Or.inr (Or.inr ⟨rfl, fun i hi => ?_⟩)
      rw [irtIndexInsertLoop_eq_place] at hres
      obtain ⟨d, hd, rfl⟩ := slotIndex_surj hash hi
      obtain ⟨entry, hcell, hother⟩ :=
        (Probe.place_full _ 0 none hres).2 d (Nat.zero_le _) (by omega)
      obtain ⟨hlive, rfl⟩ := IrtIndexSlot.cell_eq_live_iff.mp hcell
      refine ⟨hlive, fun ⟨hhash, hkey⟩ => ?_⟩
      have hmatch := (irtIndexSlotMatches_iff (hnames _ (hbelow _ hi hlive)) hname).mpr
        ⟨hhash, hlive, hkey⟩
      exact Bool.false_ne_true (hother.symm.trans hmatch)

end Search

/-! ## Changes of the table -/

section Change

variable {n : Nat} {slots : Nat → IrtIndexSlot} {hash hash' : UInt32} {i id id' : Nat}

/-- Filling a bucket without an entry keeps the others in place. -/
theorem Slotted.fill (h : Slotted n slots hash id) (hn : n < irtIndexTombstone) (hid : id < n)
    (hid' : id' < n) (hfree : ¬ (slots i).Live) :
    Slotted n (Function.update slots i ⟨hash', id'⟩) hash id := by
  obtain ⟨j, hslot, hreach⟩ := h
  have hne : j ≠ i := by
    rintro rfl
    exact hfree (IrtIndexSlot.live_of_lt hn (by rw [hslot]; exact hid))
  refine ⟨j, by rw [Function.update_of_ne hne, hslot], hreach.update ?_⟩
  exact (IrtIndexSlot.live_mk hash' hn hid').1

/-- The bucket filled holds the new entry. -/
theorem slotted_update_self (hreach : SlotReach n slots hash i) (hn : n < irtIndexTombstone)
    (hid : id < n) : Slotted n (Function.update slots i ⟨hash, id⟩) hash id :=
  ⟨i, Function.update_self i _ slots,
    hreach.update (IrtIndexSlot.live_mk hash hn hid).1⟩

/-- Changing a bucket that holds another entry keeps this one in place, as long
as the bucket does not become empty. -/
theorem Slotted.update_of_ne {slot : IrtIndexSlot} (h : Slotted n slots hash id)
    (hslot : slot.pointId ≠ irtIndexEmpty) (hne : slots i ≠ ⟨hash, id⟩) :
    Slotted n (Function.update slots i slot) hash id := by
  obtain ⟨j, hj, hreach⟩ := h
  have hji : j ≠ i := by
    rintro rfl
    exact hne hj
  exact ⟨j, by rw [Function.update_of_ne hji, hj], hreach.update hslot⟩

theorem EntriesBelow.update {slot : IrtIndexSlot} (h : EntriesBelow n slots)
    (hslot : slot.Live → slot.pointId < n) : EntriesBelow n (Function.update slots i slot) := by
  intro j hj hlive
  rcases eq_or_ne j i with rfl | hne
  · rw [Function.update_self] at hlive ⊢
    exact hslot hlive
  · rw [Function.update_of_ne hne] at hlive ⊢
    exact h j hj hlive

end Change

/-! ## The operations -/

section Operations

variable {s : IrtShm} {seg : Segment} {partition : UInt32} {name : CStr} {id : Nat}

/-- The point record after `irt_index_insert_locked` has stored the partition. -/
abbrev withPartition (seg : Segment) (id : Nat) (partition : UInt32) : Segment :=
  seg.setPoint id { seg.points id with partition := partition }

theorem NamesFit.update {n : Nat} {points : Nat → IndurtdbPoint} {p : IndurtdbPoint}
    (h : NamesFit n points) (hp : p.name.bytes.length ≤ nameMax) :
    NamesFit n (Function.update points id p) := by
  intro j hj
  rcases eq_or_ne j id with rfl | hne
  · rwa [Function.update_self]
  · rw [Function.update_of_ne hne]
    exact h j hj

variable (hix : seg.hdr.offIndex ≠ 0) (hpts : seg.hdr.offPoints ≠ 0)
  (hnames : NamesFit s.maxPoints seg.points) (hname : name ≠ CStr.empty)
  (hlen : name.bytes.length ≤ nameMax)
include hix hpts hnames hname hlen

variable (partition id) in
/-- Every outcome of an insertion: an entry of the key is taken over, a bucket
without an entry is filled, or all buckets hold entries of other keys. -/
theorem irtIndexInsertLocked_cases (hbelow : EntriesBelow s.maxPoints seg.slots)
    (hid : id < s.maxPoints) :
    (∃ i, irtIndexInsertLocked s seg partition name id =
        (.ok, (withPartition seg id partition).setSlot i
          ⟨irtIndexComposeHash partition name, id⟩) ∧
      SlotReach s.maxPoints seg.slots (irtIndexComposeHash partition name) i ∧
      (seg.slots i).hash = irtIndexComposeHash partition name ∧ (seg.slots i).Live ∧
      (seg.slots i).pointId < s.maxPoints ∧
      ((withPartition seg id partition).points (seg.slots i).pointId).HasKey partition name) ∨
    (∃ i, irtIndexInsertLocked s seg partition name id =
        (.ok, ((withPartition seg id partition).setSlot i
          ⟨irtIndexComposeHash partition name, id⟩).setIndexCount
            (u32 (seg.hdr.indexCount + 1))) ∧
      SlotReach s.maxPoints seg.slots (irtIndexComposeHash partition name) i ∧
      ¬ (seg.slots i).Live) ∨
    (irtIndexInsertLocked s seg partition name id =
        (.errFull, withPartition seg id partition) ∧
      ∀ i, i < irtLayoutBuckets s.maxPoints → (seg.slots i).Live ∧
        ¬ ((seg.slots i).hash = irtIndexComposeHash partition name ∧
          ((withPartition seg id partition).points (seg.slots i).pointId).HasKey partition
            name)) := by
  have hguard : ¬ (seg.hdr.offPoints = 0 ∨ s.maxPoints ≤ id) := by
    rintro (h | h)
    · exact hpts h
    · omega
  have hnames' : NamesFit s.maxPoints (withPartition seg id partition).points :=
    hnames.update (hnames id hid)
  simp only [irtIndexInsertLocked, CStr.isEmpty_eq_false_iff.mpr hname, irtIndexBind_eq hix,
    if_neg hguard, Bool.false_eq_true, if_false]
  rcases insertLoop_cases (irtIndexComposeHash partition name) partition hnames' hlen
      (show EntriesBelow s.maxPoints (withPartition seg id partition).slots from hbelow) with
    ⟨i, hloop, hreach, hhash, hlive, hlt, hkey⟩ | ⟨i, hloop, hreach, hfree⟩ | ⟨hloop, hall⟩
  · refine Or.inl ⟨i, ?_, hreach, hhash, hlive, hlt, hkey⟩
    rw [hloop, ← hhash]
  · refine Or.inr (Or.inl ⟨i, ?_, hreach, hfree⟩)
    rw [hloop]
    rfl
  · exact Or.inr (Or.inr ⟨by rw [hloop], hall⟩)

variable (partition) in
/-- Every outcome of a removal: an entry of the key becomes a tombstone, or the
search finds none and nothing changes. -/
theorem irtIndexRemoveLocked_cases (hbelow : EntriesBelow s.maxPoints seg.slots) :
    (∃ i, irtIndexRemoveLocked s seg partition name =
        (.ok, (seg.setSlot i ⟨irtIndexComposeHash partition name, irtIndexTombstone⟩).setIndexCount
          (seg.hdr.indexCount - 1)) ∧
      SlotReach s.maxPoints seg.slots (irtIndexComposeHash partition name) i ∧
      (seg.slots i).hash = irtIndexComposeHash partition name ∧ (seg.slots i).Live ∧
      (seg.slots i).pointId < s.maxPoints ∧
      (seg.points (seg.slots i).pointId).HasKey partition name) ∨
    (irtIndexRemoveLocked s seg partition name = (.errNotFound, seg) ∧
      irtIndexProbeLoop (indexView s.maxPoints) seg (irtIndexComposeHash partition name)
        partition name (irtLayoutBuckets s.maxPoints) 0 = none) := by
  simp only [irtIndexRemoveLocked, CStr.isEmpty_eq_false_iff.mpr hname, irtIndexBind_eq hix,
    if_neg hpts, Bool.false_eq_true, if_false]
  cases hloop : irtIndexProbeLoop (indexView s.maxPoints) seg
      (irtIndexComposeHash partition name) partition name (irtLayoutBuckets s.maxPoints) 0 with
  | none => exact Or.inr ⟨rfl, rfl⟩
  | some i =>
      obtain ⟨hreach, hhash, hlive, hlt, hkey⟩ := probeLoop_some hnames hlen hbelow hloop
      refine Or.inl ⟨i, ?_, hreach, hhash, hlive, hlt, hkey⟩
      simp only [hhash]

omit hnames hlen in
/-- What a lookup answers when nobody is writing. -/
theorem irtIndexLookup_eq (heven : seg.hdr.writeSeq % 2 = 0) :
    irtIndexLookup s seg partition name =
      match irtIndexProbeLoop (indexView s.maxPoints) seg (irtIndexComposeHash partition name)
        partition name (irtLayoutBuckets s.maxPoints) 0 with
      | some i => .ok (seg.slots i).pointId
      | none => .error .errNotFound := by
  have hnot : ¬ seg.hdr.writeSeq % 2 = 1 := by omega
  have hnamed : ¬ name.isEmpty = true := by
    rw [CStr.isEmpty_eq_false_iff.mpr hname]
    exact Bool.false_ne_true
  rw [irtIndexLookup, if_neg hnamed, irtIndexBind_eq hix]
  exact (if_neg hpts).trans (if_neg hnot)

end Operations

end InduRtdb.Core
