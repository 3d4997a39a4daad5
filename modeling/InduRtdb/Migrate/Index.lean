/-
  Migrate/Index.lean --- the index the migration tool builds is the one the library builds.

  Source: `compose_hash`, `build_index` and `index_probe` of
  `tools/irt_migrate/irt_migrate/layout.py`; `irt_index_compose_hash`,
  `irt_index_clear`, `irt_index_insert_locked` and `irt_index_probe` of
  `src/core/irt_index.c`.

  Both sides search by the generic probe of `Lib/Probe`, the tool over the bytes of its
  slots and the library over its table.  What is compared are the cells: an empty slot has
  no hash to speak of, and the two leave different bytes there.
-/
import InduRtdb.Core.IndexSpec
import InduRtdb.Migrate.Layout

set_option autoImplicit false

namespace InduRtdb.Migrate

open InduRtdb.Core InduRtdb.Lib

/-! ## Fields in bytes -/

theorem readLe_lt (mem : Nat → UInt8) : ∀ n o, readLe mem o n < 2 ^ (8 * n) := by
  intro n
  induction n with
  | zero => exact fun _ => Nat.two_pow_pos 0
  | succ n ih =>
      intro o
      have hrest := ih (o + 1)
      have hbyte := (mem o).toNat_lt
      rw [readLe, Nat.mul_succ, Nat.pow_add]
      omega

theorem readLe_le32 {n : Nat} (h : n < 2 ^ 32) : readLe (Bytes.mem (le32 n)) 0 4 = n := by
  have hbytes : readLe (Bytes.mem (le32 n)) 0 4 = (UInt8.ofNat n).toNat +
      256 * ((UInt8.ofNat (n / 2 ^ 8)).toNat + 256 * ((UInt8.ofNat (n / 2 ^ 16)).toNat +
        256 * ((UInt8.ofNat (n / 2 ^ 24)).toNat + 256 * 0))) := rfl
  rw [hbytes]
  simp only [UInt8.toNat_ofNat']
  omega

theorem length_flatMap_le32 (values : List Nat) :
    (values.flatMap le32).length = 4 * values.length := by
  induction values with
  | nil => rfl
  | cons v rest ih =>
      rw [List.flatMap_cons, List.length_append, ih, List.length_cons]
      simp only [le32, List.length_cons, List.length_nil]
      omega

theorem unpackU32_eq {raw : Bytes} {o : Nat} (h : o + 4 ≤ raw.length) :
    unpackU32 raw o = .ok (readLe raw.mem o 4) := if_pos h

/-- The slot in the bytes of an index. -/
def slotAt (slots : Bytes) (i : Nat) : IrtIndexSlot := decodeSlot slots.mem (irtIndexSlotSize * i)

theorem slotAt_hash (slots : Bytes) (i : Nat) :
    (slotAt slots i).hash.toNat = readLe slots.mem (irtIndexSlotSize * i) 4 := by
  have hlt := readLe_lt slots.mem 4 (irtIndexSlotSize * i)
  rw [slotAt, decodeSlot, UInt32.toNat_ofNat', Nat.mod_eq_of_lt hlt]

theorem unpackSlot_eq {slots : Bytes} {cap i : Nat} (hlen : slots.length = cap * indexSlotSize)
    (hi : i < cap) :
    unpackSlot slots i = .ok ((slotAt slots i).hash.toNat, (slotAt slots i).pointId) := by
  have hend : i * indexSlotSize + 4 + 4 ≤ slots.length := by
    simp only [hlen, indexSlotSize]
    omega
  rw [unpackSlot, unpackU32_eq (by omega), ok_bind, unpackU32_eq hend, ok_bind, slotAt_hash,
    Nat.mul_comm i]
  rfl

/-- A slot is packed at its own place. -/
theorem packSlot_eq {slots : Bytes} {cap i hash pointId : Nat}
    (hlen : slots.length = cap * indexSlotSize) (hi : i < cap) (hhash : hash < 2 ^ 32)
    (hpid : pointId < 2 ^ 32) :
    ∃ slots', packSlot slots i hash pointId = .ok slots' ∧ slots'.length = cap * indexSlotSize ∧
      slotAt slots' = Function.update (slotAt slots) i ⟨UInt32.ofNat hash, pointId⟩ := by
  have hvalues : ∀ v ∈ [hash, pointId], v < 2 ^ 32 := by
    intro v hv
    rcases List.mem_cons.mp hv with rfl | hv
    · exact hhash
    · rw [List.mem_singleton.mp hv]
      exact hpid
  have hfits : i * 8 + 8 ≤ slots.length := by
    rw [hlen]
    simp only [indexSlotSize]
    omega
  have hpacked : packSlot slots i hash pointId =
      .ok (slots.store (i * 8) (i * 8 + 8) (le32 hash ++ (le32 pointId ++ []))) :=
    if_pos ⟨hvalues, hfits⟩
  have hbegin : i * 8 ≤ i * 8 + 8 := by omega
  have hdata : (le32 hash ++ (le32 pointId ++ [])).length = i * 8 + 8 - i * 8 := by
    rw [Nat.add_sub_cancel_left]
    rfl
  refine ⟨_, hpacked, (Bytes.length_store hbegin hfits hdata).trans hlen, ?_⟩
  funext j
  rcases eq_or_ne j i with rfl | hne
  · have hbytes : ∀ b, b < 8 → (slots.store (j * 8) (j * 8 + 8)
        (le32 hash ++ (le32 pointId ++ []))).mem (8 * j + b) =
        Bytes.mem (le32 hash ++ (le32 pointId ++ [])) (0 + b) := by
      intro b hb
      rw [Bytes.mem_store_in hbegin hfits hdata (by omega) (by omega)]
      congr 1
      omega
    have hlow : readLe (Bytes.mem (le32 hash ++ (le32 pointId ++ []))) 0 4 = hash :=
      readLe_le32 hhash
    have hhigh : readLe (Bytes.mem (le32 hash ++ (le32 pointId ++ []))) (0 + 4) 4 = pointId :=
      readLe_le32 hpid
    rw [Function.update_self, slotAt, decodeSlot_congr hbytes, decodeSlot, hlow, hhigh]
  · rw [Function.update_of_ne hne]
    apply decodeSlot_congr
    intro b hb
    apply Bytes.mem_store_out hbegin hfits hdata
    simp only [irtIndexSlotSize]
    omega

/-! ## The key hash -/

theorem fnvMul_eq (h : Nat) : fnvMul h = h * 0x01000193 % 2 ^ 32 :=
  Nat.and_two_pow_sub_one_eq_mod (h * 0x01000193) 32

theorem fnvMul_toNat (h : UInt32) : fnvMul h.toNat = (h * fnvPrime).toNat := by
  rw [fnvMul_eq, UInt32.toNat_mul]
  rfl

/-- One FNV-1a step, masked. -/
theorem fnvMul_xor (h : UInt32) (byte : UInt8) :
    fnvMul (h.toNat ^^^ byte.toNat) = (fnvStep h byte).toNat := by
  have hxor : h.toNat ^^^ byte.toNat = (h ^^^ byte.toUInt32).toNat := by
    rw [UInt32.toNat_xor, UInt8.toNat_toUInt32]
  rw [hxor, fnvMul_toNat]
  rfl

theorem hashName_eq {name : Bytes} (hfree : (0 : UInt8) ∉ name) :
    ∀ h : UInt32, hashName h.toNat name = (name.foldl fnvStep h).toNat := by
  induction name with
  | nil => exact fun _ => rfl
  | cons b rest ih =>
      intro h
      have hb : b ≠ 0 := fun heq => hfree (heq ▸ List.mem_cons_self)
      rw [hashName, if_neg hb, fnvMul_xor, ih fun hmem => hfree (List.mem_cons_of_mem b hmem)]
      rfl

theorem partitionByte_toNat (partition : UInt32) {i : Nat} (hi : i < 4) :
    (partition.toNat >>> (8 * i)) &&& 0xFF = (partitionByte partition i).toNat := by
  have hshift : 8 * i % 2 ^ 32 % 32 = 8 * i := by omega
  have hbyte : ∀ n : Nat, (n &&& 255) % 2 ^ 8 = n &&& 255 := fun n =>
    Nat.mod_eq_of_lt (Nat.lt_of_le_of_lt Nat.and_le_right (by decide))
  simp only [partitionByte, UInt32.toNat_toUInt8, UInt32.toNat_and, UInt32.toNat_shiftRight,
    UInt32.toNat_ofNat', hshift]
  exact (hbyte _).symm

/-- Both sides hash a key alike. -/
theorem composeHash_eq (partition : UInt32) (name : CStr) :
    composeHash partition.toNat name.bytes = (irtIndexComposeHash partition name).toNat := by
  have hhead : ∀ (ids : List Nat), (∀ i ∈ ids, i < 4) → ∀ h : UInt32,
      ids.foldl (fun h i => fnvMul (h ^^^ ((partition.toNat >>> (8 * i)) &&& 0xFF))) h.toNat =
        ((ids.map (partitionByte partition)).foldl fnvStep h).toNat := by
    intro ids
    induction ids with
    | nil => exact fun _ _ => rfl
    | cons i rest ih =>
        intro hids h
        rw [List.foldl_cons, partitionByte_toNat partition (hids i List.mem_cons_self), fnvMul_xor,
          ih fun j hj => hids j (List.mem_cons_of_mem i hj)]
        rfl
  have hmix : ∀ (h : UInt32) (k : Nat), k < 32 →
      fnvMul (h.toNat ^^^ (h.toNat >>> k)) = ((h ^^^ (h >>> UInt32.ofNat k)) * fnvPrime).toNat := by
    intro h k hk
    have hshift : k % 2 ^ 32 % 32 = k := by omega
    rw [← fnvMul_toNat, UInt32.toNat_xor, UInt32.toNat_shiftRight, UInt32.toNat_ofNat', hshift]
  have hstart := hhead (List.range 4) (fun i hi => List.mem_range.mp hi) 0x811C9DC5
  simp only [composeHash, irtIndexComposeHash]
  rw [show (0x811C9DC5 : Nat) = (0x811C9DC5 : UInt32).toNat from rfl, hstart,
    hashName_eq name.nulFree, hmix _ 16 (by omega), hmix _ 13 (by omega)]
  rfl

/-! ## The two tables -/

/-- The bytes are those of the first `n` records. -/
structure PointsHeld (n : Nat) (points : Bytes) (table : Nat → IndurtdbPoint) : Prop where
  length : points.length = n * pointSize
  record : ∀ id, id < n → table id = decodePoint points.mem (sizeofPoint * id)

/-- The bytes are those of an index whose live slots are the ones of the table, tombstones
and empty slots included. -/
structure SlotsHeld (n : Nat) (slots : Bytes) (table : Nat → IrtIndexSlot) : Prop where
  length : slots.length = irtLayoutBuckets n * indexSlotSize
  cell : ∀ i, i < irtLayoutBuckets n → (slotAt slots i).cell = (table i).cell

section Points

variable {n : Nat} {points : Bytes} {table : Nat → IndurtdbPoint} {id : Nat}

theorem PointsHeld.name (h : PointsHeld n points table) (hid : id < n) :
    readPointName points id = (table id).name.bytes := by
  have hend : id * pointSize + nameOffset + nameLen ≤ points.length := by
    rw [h.length]
    simp only [pointSize, nameOffset, nameLen]
    omega
  rw [h.record id hid, readPointName, Bytes.slice_eq_map hend, Nat.mul_comm id]
  simp only [Nat.add_sub_cancel_left]
  rfl

theorem PointsHeld.partition (h : PointsHeld n points table) (hid : id < n) :
    readPointPartition points id = .ok (table id).partition.toNat := by
  have hend : id * pointSize + partitionOffset + 4 ≤ points.length := by
    rw [h.length]
    simp only [pointSize, partitionOffset]
    omega
  have hlt := readLe_lt points.mem 4 (pointSize * id + partitionOffset)
  rw [readPointPartition, unpackU32_eq hend, h.record id hid, Nat.mul_comm id, decodePoint,
    UInt32.toNat_ofNat']
  exact congrArg Except.ok (Nat.mod_eq_of_lt hlt).symm

/-- The comparison of a slot with a key. -/
theorem PointsHeld.slotMatches (h : PointsHeld n points table) (hnames : NamesFit n table)
    {slot : IrtIndexSlot} (hlive : slot.Live) (hlt : slot.pointId < n) (hash partition : UInt32)
    {name : CStr} (hname : name.bytes.length ≤ nameMax) :
    slotMatches points slot.hash.toNat slot.pointId hash.toNat name.bytes partition.toNat =
      .ok (irtIndexSlotMatches table hash partition name slot) := by
  have hfull : ((table slot.pointId).name.bytes == name.bytes) =
      (table slot.pointId).name.strncmpEq name nameMax := by
    rw [CStr.strncmpEq, List.take_of_length_le (hnames _ hlt), List.take_of_length_le hname]
  rw [Migrate.slotMatches, nameEq, h.partition hlt, h.name hlt, ok_bind, irtIndexSlotMatches,
    bne_iff_ne.mpr hlive.1, bne_iff_ne.mpr hlive.2]
  rcases eq_or_ne slot.hash hash with rfl | hhash
  · rw [if_pos rfl, beq_self_eq_true, Bool.true_and, Bool.true_and, Bool.true_and]
    rcases eq_or_ne (table slot.pointId).partition partition with heq | hpart
    · rw [if_neg (not_not.mpr (congrArg UInt32.toNat heq)), beq_iff_eq.mpr heq, Bool.true_and,
        hfull]
      rfl
    · rw [if_pos fun heq => hpart (UInt32.toNat_inj.mp heq), beq_eq_false_iff_ne.mpr hpart]
      rfl
  · rw [if_neg fun heq => hhash (UInt32.toNat_inj.mp heq), beq_eq_false_iff_ne.mpr hhash]
    rfl

end Points

/-! ## The loops of the tool are the generic searches -/

section Loops

variable {n : Nat} {points slots : Bytes} {table : Nat → IndurtdbPoint} {hash partition : UInt32}
  {name : CStr}

/-- The bucket of a turn. -/
theorem masked_eq_slotIndex (n : Nat) (hash : UInt32) (d : Nat) :
    ((hash.toNat &&& (irtLayoutBuckets n - 1)) + d) &&& (irtLayoutBuckets n - 1) =
      (indexView n).slotIndex hash d := rfl

/-- The three kinds of a slot. -/
theorem slot_cases (slot : IrtIndexSlot) :
    slot.pointId = indexEmpty ∧ slot.cell = .empty ∨
      (slot.pointId ≠ indexEmpty ∧ slot.pointId = indexTombstone ∧ slot.cell = .tomb) ∨
      (slot.pointId ≠ indexEmpty ∧ slot.pointId ≠ indexTombstone ∧ slot.Live ∧
        slot.cell = .live slot) := by
  rcases eq_or_ne slot.pointId irtIndexEmpty with hempty | hempty
  · exact .inl ⟨hempty, if_pos hempty⟩
  · rcases eq_or_ne slot.pointId irtIndexTombstone with htomb | htomb
    · exact .inr (.inl ⟨hempty, htomb, (if_neg hempty).trans (if_pos htomb)⟩)
    · exact .inr (.inr ⟨hempty, htomb, ⟨hempty, htomb⟩, IrtIndexSlot.cell_live ⟨hempty, htomb⟩⟩)

variable (hpoints : PointsHeld n points table) (hnames : NamesFit n table)
  (hlen : slots.length = irtLayoutBuckets n * indexSlotSize)
  (hbelow : EntriesBelow n (slotAt slots)) (hname : name.bytes.length ≤ nameMax)
include hpoints hnames hlen hbelow hname

theorem indexProbeLoop_eq_find : ∀ k d,
    indexProbeLoop slots (irtLayoutBuckets n) points hash.toNat name.bytes partition.toNat k d =
      .ok ((Probe.find ((indexView n).slotIndex hash) (fun j => (slotAt slots j).cell)
        (irtIndexSlotMatches table hash partition name) k d).map
          fun i => (slotAt slots i).pointId) := by
  intro k
  induction k with
  | zero => exact fun _ => rfl
  | succ k ih =>
      intro d
      have hi := slotIndex_lt n hash d
      have hslot := unpackSlot_eq hlen hi
      rw [indexProbeLoop, Probe.find, masked_eq_slotIndex, hslot, ok_bind]
      dsimp only
      rcases slot_cases (slotAt slots ((indexView n).slotIndex hash d)) with
        ⟨hid, hcell⟩ | ⟨hid, hid', hcell⟩ | ⟨hid, hid', hlive, hcell⟩
      · rw [if_pos hid, hcell]
        rfl
      · rw [if_neg hid, if_pos hid', hcell]
        exact ih (d + 1)
      · rw [if_neg hid, if_neg hid', hcell,
          hpoints.slotMatches hnames hlive (hbelow _ hi hlive) hash partition hname, ok_bind]
        dsimp only
        split
        · rfl
        · exact ih (d + 1)

omit hpoints hnames hlen hbelow hname in
/-- What is stored at the end of a search, and whether it counts. -/
def storePlace (slots : Bytes) (hash pid : Nat) : Probe.Place → Except Raised (Bytes × Bool)
  | .hit i => do
      let slots ← packSlot slots i hash pid
      pure (slots, false)
  | .free i => do
      let slots ← packSlot slots i hash pid
      pure (slots, true)
  | .full => .ok (slots, false)

variable (hash partition) in
theorem placeLoop_eq_place (pid : Nat) : ∀ k d t, (∀ i, t = some i → i < irtLayoutBuckets n) →
    (placeLoop points (irtLayoutBuckets n) hash.toNat pid name.bytes partition.toNat k d
        ⟨slots, t.getD (irtLayoutBuckets n), false, false⟩ >>=
      settle (irtLayoutBuckets n) hash.toNat pid) =
      storePlace slots hash.toNat pid (Probe.place ((indexView n).slotIndex hash)
        (fun j => (slotAt slots j).cell) (irtIndexSlotMatches table hash partition name) k d t) := by
  intro k
  induction k with
  | zero =>
      intro d t ht
      cases t with
      | none =>
          rw [placeLoop, ok_bind, settle]
          exact if_neg fun hboth => hboth.2 rfl
      | some i =>
          have hne : i ≠ irtLayoutBuckets n := Nat.ne_of_lt (ht i rfl)
          rw [placeLoop, ok_bind, settle]
          exact if_pos ⟨rfl, hne⟩
  | succ k ih =>
      intro d t ht
      have hi := slotIndex_lt n hash d
      have hslot := unpackSlot_eq hlen hi
      rw [placeLoop, Probe.place]
      dsimp only
      rw [masked_eq_slotIndex, hslot, ok_bind]
      dsimp only
      rcases slot_cases (slotAt slots ((indexView n).slotIndex hash d)) with
        ⟨hid, hcell⟩ | ⟨hid, hid', hcell⟩ | ⟨hid, hid', hlive, hcell⟩
      · rw [if_pos hid, hcell]
        have hdst : (if t.getD (irtLayoutBuckets n) ≠ irtLayoutBuckets n then
            t.getD (irtLayoutBuckets n) else (indexView n).slotIndex hash d) =
              t.getD ((indexView n).slotIndex hash d) := by
          cases t with
          | none => exact if_neg fun hne => hne rfl
          | some i => exact if_pos (Nat.ne_of_lt (ht i rfl))
        dsimp only
        rw [hdst, storePlace]
        cases packSlot slots (t.getD ((indexView n).slotIndex hash d)) hash.toNat pid with
        | error raised => rfl
        | ok slots' => rfl
      · have hnext := ih (d + 1) (t.or (some ((indexView n).slotIndex hash d))) (by
          intro i hor
          cases t with
          | none => exact Option.some.inj hor ▸ hi
          | some j => exact ht i hor)
        have htomb : (if t.getD (irtLayoutBuckets n) = irtLayoutBuckets n then
            (⟨slots, (indexView n).slotIndex hash d, false, false⟩ : Placing)
            else ⟨slots, t.getD (irtLayoutBuckets n), false, false⟩) =
              ⟨slots, (t.or (some ((indexView n).slotIndex hash d))).getD (irtLayoutBuckets n),
                false, false⟩ := by
          cases t with
          | none => exact if_pos rfl
          | some j => exact if_neg (Nat.ne_of_lt (ht j rfl))
        rw [if_neg hid, if_pos hid', hcell, ← hnext, ← htomb]
      · rw [if_neg hid, if_neg hid', hcell,
          hpoints.slotMatches hnames hlive (hbelow _ hi hlive) hash partition hname, ok_bind]
        dsimp only
        split
        · rw [storePlace]
          cases packSlot slots ((indexView n).slotIndex hash d) hash.toNat pid with
          | error raised => rfl
          | ok slots' => rfl
        · exact ih (d + 1) t ht

end Loops

/-! ## Building -/

/-- One named point of the library's index. -/
def indexNamed (s : IrtShm) (seg : Segment) (id : Nat) : Segment :=
  if (seg.points id).name.isEmpty then seg
  else (irtIndexInsertLocked s seg (seg.points id).partition (seg.points id).name id).2

/-- The library's index of a point table: `irt_index_clear`, and then
`irt_index_insert_locked` for every named point in ascending order. -/
def irtIndexRebuild (s : IrtShm) (seg : Segment) : Segment :=
  (List.range s.maxPoints).foldl (indexNamed s) (irtIndexClear s seg)

/-- A cleared index. -/
theorem irtIndexClear_eq {s : IrtShm} {seg : Segment} (hix : seg.hdr.offIndex ≠ 0) :
    irtIndexClear s seg =
      { seg with
        hdr := { seg.hdr with indexCount := 0 }
        slots := fun i => if i < irtLayoutBuckets s.maxPoints then ⟨0xFFFFFFFF, irtIndexEmpty⟩
          else seg.slots i } := by
  rw [irtIndexClear, irtIndexBind_eq hix]

/-- The tool's index of the first `k` points and the library's. -/
structure Agrees (s : IrtShm) (table : Nat → IndurtdbPoint) (k : Nat) (built : Bytes × Nat)
    (seg : Segment) : Prop where
  slots : SlotsHeld s.maxPoints built.1 seg.slots
  below : EntriesBelow s.maxPoints seg.slots
  count : seg.hdr.indexCount = built.2
  counted : built.2 ≤ k
  points : seg.points = table
  offIndex : seg.hdr.offIndex ≠ 0
  offPoints : seg.hdr.offPoints ≠ 0

/-- Entries stand for points of the table on either side. -/
theorem SlotsHeld.below {n : Nat} {slots : Bytes} {table : Nat → IrtIndexSlot}
    (h : SlotsHeld n slots table) (hbelow : EntriesBelow n table) :
    EntriesBelow n (slotAt slots) := by
  intro i hi hlive
  have hcell := h.cell i hi
  rw [IrtIndexSlot.cell_live hlive] at hcell
  obtain ⟨hlive', heq⟩ := IrtIndexSlot.cell_eq_live_iff.mp hcell.symm
  rw [← heq]
  exact hbelow i hi hlive'

/-- The same store on both sides. -/
theorem SlotsHeld.update {n i : Nat} {slots slots' : Bytes} {table : Nat → IrtIndexSlot}
    {slot : IrtIndexSlot} (h : SlotsHeld n slots table)
    (hlen : slots'.length = irtLayoutBuckets n * indexSlotSize)
    (hslots : slotAt slots' = Function.update (slotAt slots) i slot) :
    SlotsHeld n slots' (Function.update table i slot) := by
  refine ⟨hlen, fun j hj => ?_⟩
  rw [hslots]
  rcases eq_or_ne j i with rfl | hne
  · rw [Function.update_self, Function.update_self]
  · rw [Function.update_of_ne hne, Function.update_of_ne hne]
    exact h.cell j hj

/-- The two searches for a place end alike. -/
theorem place_agrees {n : Nat} {slots : Bytes} {seg : Segment} (h : SlotsHeld n slots seg.slots)
    (hash partition : UInt32) (name : CStr) :
    Probe.place ((indexView n).slotIndex hash) (fun j => (slotAt slots j).cell)
        (irtIndexSlotMatches seg.points hash partition name) (irtLayoutBuckets n) 0 none =
      irtIndexInsertLoop (indexView n) seg hash partition name (irtLayoutBuckets n) 0 none := by
  rw [irtIndexInsertLoop_eq_place]
  exact Probe.place_congr (fun d => h.cell _ (slotIndex_lt n hash d)) _ _ _

section Build

variable {s : IrtShm} {table : Nat → IndurtdbPoint} {points : Bytes} {k : Nat}
  {built : Bytes × Nat} {seg : Segment}

/-- A point already carries its partition. -/
theorem withPartition_self (seg : Segment) (id : Nat) :
    withPartition seg id (seg.points id).partition = seg := by
  rw [withPartition, Segment.setPoint, Function.update_eq_self]

/-- The outcome of an insertion, by the place its search ends at. -/
theorem irtIndexInsertLocked_place (hix : seg.hdr.offIndex ≠ 0) (hpts : seg.hdr.offPoints ≠ 0)
    {id : Nat} (hid : id < s.maxPoints) (hname : ¬ (seg.points id).name.isEmpty = true) :
    (irtIndexInsertLocked s seg (seg.points id).partition (seg.points id).name id).2 =
      match irtIndexInsertLoop (indexView s.maxPoints) seg
          (irtIndexComposeHash (seg.points id).partition (seg.points id).name)
          (seg.points id).partition (seg.points id).name (irtLayoutBuckets s.maxPoints) 0 none with
      | .hit i => seg.setSlot i { seg.slots i with pointId := id }
      | .free i =>
          (seg.setSlot i ⟨irtIndexComposeHash (seg.points id).partition (seg.points id).name,
            id⟩).setIndexCount (u32 (seg.hdr.indexCount + 1))
      | .full => seg := by
  have hguard : ¬ (seg.hdr.offPoints = 0 ∨ s.maxPoints ≤ id) := by
    rintro (hzero | hle)
    · exact hpts hzero
    · omega
  have hsame := withPartition_self seg id
  rw [withPartition] at hsame
  simp only [irtIndexInsertLocked, if_neg hname, irtIndexBind_eq hix, if_neg hguard, hsame]
  generalize irtIndexInsertLoop (indexView s.maxPoints) seg _ _ _ _ 0 none = place
  cases place with
  | hit i => rfl
  | free i => rfl
  | full => rfl

variable (hn : s.maxPoints ≤ 2 ^ 30) (hpoints : PointsHeld s.maxPoints points table)
  (hnames : NamesFit s.maxPoints table)
include hn hpoints hnames

/-- One point keeps the two indexes alike. -/
theorem Agrees.step (h : Agrees s table k built seg) (hk : k < s.maxPoints) :
    ∃ built', indexPoint points (irtLayoutBuckets s.maxPoints) built k = .ok built' ∧
      Agrees s table (k + 1) built' (indexNamed s seg k) := by
  have hpts : table k = seg.points k := by rw [h.points]
  have hread : readPointName points k = (seg.points k).name.bytes := by
    rw [hpoints.name hk, hpts]
  rcases Decidable.em ((seg.points k).name.isEmpty = true) with hempty | hnamed
  · refine ⟨built, ?_, ?_⟩
    · rw [indexPoint, hread]
      exact if_pos hempty
    · rw [indexNamed, if_pos hempty]
      exact ⟨h.slots, h.below, h.count, Nat.le_succ_of_le h.counted, h.points, h.offIndex,
        h.offPoints⟩
  · have hfit : (seg.points k).name.bytes.length ≤ nameMax := by
      rw [← hpts]
      exact hnames k hk
    have hnames' : NamesFit s.maxPoints seg.points := by
      rw [h.points]
      exact hnames
    have hplace := placeLoop_eq_place
      (irtIndexComposeHash (seg.points k).partition (seg.points k).name) (seg.points k).partition
      hpoints hnames h.slots.length (h.slots.below h.below) hfit k (irtLayoutBuckets s.maxPoints)
      0 none nofun
    rw [← h.points, place_agrees h.slots] at hplace
    have hpid : k < 2 ^ 32 := by omega
    have hhash : ∀ hash : UInt32, hash.toNat < 2 ^ 32 := fun hash => hash.toNat_lt
    have hcount : u32 (seg.hdr.indexCount + 1) = built.2 + 1 := by
      have hcounted := h.counted
      rw [h.count]
      exact u32_of_lt (by omega)
    have hinserted := irtIndexInsertLocked_place h.offIndex h.offPoints hk hnamed
    have hpoint : indexPoint points (irtLayoutBuckets s.maxPoints) built k =
        storePlace built.1 (irtIndexComposeHash (seg.points k).partition (seg.points k).name).toNat
          k (irtIndexInsertLoop (indexView s.maxPoints) seg
            (irtIndexComposeHash (seg.points k).partition (seg.points k).name)
            (seg.points k).partition (seg.points k).name (irtLayoutBuckets s.maxPoints) 0 none) >>=
          fun placed : Bytes × Bool =>
            pure (placed.1, if placed.2 then built.2 + 1 else built.2) := by
      rw [← hplace, bind_assoc, indexPoint, hread, hpoints.partition hk, hpts, ok_bind]
      dsimp only
      rw [composeHash_eq]
      exact if_neg hnamed
    rw [hpoint, indexNamed, if_neg hnamed, hinserted]
    generalize irtIndexComposeHash (seg.points k).partition (seg.points k).name = hash
    rcases insertLoop_cases hash (seg.points k).partition hnames' hfit h.below with
      ⟨i, hloop, hreach, hslot, -⟩ | ⟨i, hloop, hreach, -⟩ | ⟨hloop, -⟩
    · -- the key is there already
      obtain ⟨slots', hpack, hlen, hstored⟩ :=
        packSlot_eq h.slots.length hreach.lt (hhash hash) hpid
      rw [UInt32.ofNat_toNat] at hstored
      have hslots := h.slots.update hlen hstored
      rw [hloop, storePlace, hpack]
      refine ⟨_, rfl, ?_⟩
      have hentry : ({ seg.slots i with pointId := k } : IrtIndexSlot) = ⟨hash, k⟩ :=
        congrArg (fun hash => (⟨hash, k⟩ : IrtIndexSlot)) hslot
      dsimp only
      rw [hentry]
      exact ⟨hslots, h.below.update fun _ => hk, h.count, Nat.le_succ_of_le h.counted, h.points,
        h.offIndex, h.offPoints⟩
    · -- a free bucket is filled
      obtain ⟨slots', hpack, hlen, hstored⟩ :=
        packSlot_eq h.slots.length hreach.lt (hhash hash) hpid
      rw [UInt32.ofNat_toNat] at hstored
      have hslots := h.slots.update hlen hstored
      rw [hloop, storePlace, hpack]
      refine ⟨_, rfl, ?_⟩
      exact ⟨hslots, h.below.update fun _ => hk, hcount, Nat.succ_le_succ h.counted, h.points,
        h.offIndex, h.offPoints⟩
    · -- no bucket is free
      rw [hloop, storePlace]
      refine ⟨_, rfl, ?_⟩
      exact ⟨h.slots, h.below, h.count, Nat.le_succ_of_le h.counted, h.points, h.offIndex,
        h.offPoints⟩

/-- A run over the first points keeps them alike. -/
theorem Agrees.run (h : Agrees s table 0 built seg) :
    ∀ k, k ≤ s.maxPoints → ∃ built',
      (List.range k).foldlM (indexPoint points (irtLayoutBuckets s.maxPoints)) built = .ok built' ∧
        Agrees s table k built' ((List.range k).foldl (indexNamed s) seg) := by
  intro k
  induction k with
  | zero => exact fun _ => ⟨built, rfl, h⟩
  | succ k ih =>
      intro hk
      obtain ⟨built', hrun, hagrees⟩ := ih (by omega)
      obtain ⟨built'', hpoint, hnext⟩ := hagrees.step hn hpoints hnames (by omega)
      refine ⟨built'', ?_, ?_⟩
      · rw [List.range_succ, List.foldlM_append, hrun, ok_bind, List.foldlM_cons, hpoint, ok_bind]
        rfl
      · rw [List.range_succ, List.foldl_append]
        exact hnext

end Build

/-- The tool starts from an index of empty slots. -/
theorem clearSlots_eq (cap : Nat) :
    ∃ slots, (List.range cap).foldlM (fun slots i => packSlot slots i 0 indexEmpty)
        (zeros (cap * indexSlotSize)) = .ok slots ∧ slots.length = cap * indexSlotSize ∧
      ∀ i, i < cap → slotAt slots i = ⟨0, irtIndexEmpty⟩ := by
  have hloop : ∀ k, k ≤ cap →
      ∃ slots, (List.range k).foldlM (fun slots i => packSlot slots i 0 indexEmpty)
          (zeros (cap * indexSlotSize)) = .ok slots ∧ slots.length = cap * indexSlotSize ∧
        ∀ i, i < k → slotAt slots i = ⟨0, irtIndexEmpty⟩ := by
    intro k
    induction k with
    | zero =>
        intro _
        exact ⟨_, rfl, List.length_replicate, fun i hi => absurd hi (Nat.not_lt_zero i)⟩
    | succ k ih =>
        intro hk
        obtain ⟨slots, hrun, hlen, hempty⟩ := ih (by omega)
        have hzero : 0 < 2 ^ 32 := Nat.two_pow_pos 32
        have hmark : indexEmpty < 2 ^ 32 := Nat.sub_one_lt_of_lt hzero
        obtain ⟨slots', hpack, hlen', hstored⟩ := packSlot_eq hlen hk hzero hmark
        refine ⟨slots', ?_, hlen', fun i hi => ?_⟩
        · rw [List.range_succ, List.foldlM_append, hrun, ok_bind, List.foldlM_cons, hpack, ok_bind]
          rfl
        · rw [hstored]
          rcases eq_or_ne i k with rfl | hne
          · exact Function.update_self ..
          · rw [Function.update_of_ne hne]
            exact hempty i (by omega)
  exact hloop cap le_rfl

/-- **The tool builds the library's index**: the same cells in the same buckets, and the same
count. -/
theorem buildIndex_agrees {s : IrtShm} {seg : Segment} {points : Bytes}
    (hn : s.maxPoints ≤ 2 ^ 30) (hix : seg.hdr.offIndex ≠ 0) (hpts : seg.hdr.offPoints ≠ 0)
    (hpoints : PointsHeld s.maxPoints points seg.points)
    (hnames : NamesFit s.maxPoints seg.points) :
    ∃ built, buildIndex points s.maxPoints (layoutBuckets s.maxPoints) = .ok built ∧
      Agrees s seg.points s.maxPoints built (irtIndexRebuild s seg) := by
  obtain ⟨slots, hclear, hlen, hempty⟩ := clearSlots_eq (irtLayoutBuckets s.maxPoints)
  have hcleared := irtIndexClear_eq (s := s) hix
  have hstart : Agrees s seg.points 0 (slots, 0) (irtIndexClear s seg) := by
    rw [hcleared]
    refine ⟨⟨hlen, fun i hi => ?_⟩, fun i hi hlive => ?_, rfl, le_rfl, rfl, hix, hpts⟩
    · rw [hempty i hi]
      dsimp only
      rw [if_pos hi]
      rfl
    · exact absurd (congrArg IrtIndexSlot.pointId (if_pos hi)) hlive.1
  obtain ⟨built, hrun, hagrees⟩ := hstart.run hn hpoints hnames s.maxPoints le_rfl
  refine ⟨built, ?_, hagrees⟩
  rw [buildIndex, layoutBuckets_eq hn, hclear, ok_bind, hrun]

/-- Looking a key up in the bytes of an index and in the table they hold. -/
theorem indexProbe_eq {n : Nat} {points slots : Bytes} {seg : Segment} (partition : UInt32)
    {name : CStr} (hpoints : PointsHeld n points seg.points) (hslots : SlotsHeld n slots seg.slots)
    (hnames : NamesFit n seg.points) (hbelow : EntriesBelow n seg.slots)
    (hname : name.bytes.length ≤ nameMax) :
    indexProbe slots (irtLayoutBuckets n) points name.bytes partition.toNat =
      .ok (irtIndexProbe (indexView n) seg partition name).toOption := by
  have hfinds : Probe.find ((indexView n).slotIndex (irtIndexComposeHash partition name))
        (fun j => (slotAt slots j).cell)
        (irtIndexSlotMatches seg.points (irtIndexComposeHash partition name) partition name)
        (irtLayoutBuckets n) 0 =
      Probe.find ((indexView n).slotIndex (irtIndexComposeHash partition name))
        (fun j => (seg.slots j).cell)
        (irtIndexSlotMatches seg.points (irtIndexComposeHash partition name) partition name)
        (irtLayoutBuckets n) 0 :=
    Probe.find_congr (fun d => hslots.cell _ (slotIndex_lt n _ d)) _ _
  rw [indexProbe, composeHash_eq, indexProbeLoop_eq_find hpoints hnames hslots.length
    (hslots.below hbelow) hname, irtIndexProbe, irtIndexProbeLoop_eq_find, hfinds]
  cases hfind : Probe.find ((indexView n).slotIndex (irtIndexComposeHash partition name))
      (fun j => (seg.slots j).cell)
      (irtIndexSlotMatches seg.points (irtIndexComposeHash partition name) partition name)
      (irtLayoutBuckets n) 0 with
  | none => rfl
  | some i =>
      obtain ⟨entry, hcell, -, d, -, rfl, -⟩ := Probe.find_some _ 0 i hfind
        fun j hj => absurd hj (Nat.not_lt_zero j)
      -- a live cell is its slot, on either side
      have hbytes := hslots.cell _ (slotIndex_lt n (irtIndexComposeHash partition name) d)
      rw [hcell] at hbytes
      have hentry := (IrtIndexSlot.cell_eq_live_iff.mp hcell).2
      have hentry' := (IrtIndexSlot.cell_eq_live_iff.mp hbytes).2
      rw [Option.map_some, hentry', ← hentry]
      rfl

/-! ## Tables the library reaches -/

/-- A segment as the operations of the index, and the stores of the registry around them,
leave it: from a cleared index on, insertions and removals of any keys, and records whose
names fit. -/
inductive TableReached (s : IrtShm) : Segment → Prop where
  | cleared {seg : Segment} (hix : seg.hdr.offIndex ≠ 0) (hpts : seg.hdr.offPoints ≠ 0)
      (hnames : NamesFit s.maxPoints seg.points) : TableReached s (irtIndexClear s seg)
  | insert {seg : Segment} (h : TableReached s seg) (partition : UInt32) (name : CStr)
      (pointId : Nat) : TableReached s (irtIndexInsertLocked s seg partition name pointId).2
  | remove {seg : Segment} (h : TableReached s seg) (partition : UInt32) (name : CStr) :
      TableReached s (irtIndexRemoveLocked s seg partition name).2
  | store {seg : Segment} (h : TableReached s seg) (id : Nat) (p : IndurtdbPoint)
      (hname : p.name.bytes.length ≤ nameMax) : TableReached s (seg.setPoint id p)

/-- What holds of every table that is reached. -/
structure TableSound (s : IrtShm) (seg : Segment) : Prop where
  offIndex : seg.hdr.offIndex ≠ 0
  names : NamesFit s.maxPoints seg.points
  below : EntriesBelow s.maxPoints seg.slots

theorem TableSound.insert {s : IrtShm} {seg : Segment} (h : TableSound s seg) (partition : UInt32)
    (name : CStr) (pointId : Nat) :
    TableSound s (irtIndexInsertLocked s seg partition name pointId).2 := by
  unfold irtIndexInsertLocked
  split
  · exact h
  rw [irtIndexBind_eq h.offIndex]
  dsimp only
  split
  · exact h
  next hguard =>
  have hid : pointId < s.maxPoints := by
    rw [not_or] at hguard
    exact Nat.lt_of_not_le hguard.2
  have hnames : NamesFit s.maxPoints (withPartition seg pointId partition).points :=
    h.names.update (h.names pointId hid)
  split
  · exact ⟨h.offIndex, hnames, h.below.update fun _ => hid⟩
  · exact ⟨h.offIndex, hnames, h.below.update fun _ => hid⟩
  · exact ⟨h.offIndex, hnames, h.below⟩

theorem TableSound.remove {s : IrtShm} {seg : Segment} (h : TableSound s seg) (partition : UInt32)
    (name : CStr) : TableSound s (irtIndexRemoveLocked s seg partition name).2 := by
  unfold irtIndexRemoveLocked
  split
  · exact h
  rw [irtIndexBind_eq h.offIndex]
  dsimp only
  split
  · exact h
  split
  · exact h
  · exact ⟨h.offIndex, h.names, h.below.update fun hlive => absurd rfl hlive.2⟩

theorem TableReached.sound {s : IrtShm} {seg : Segment} (h : TableReached s seg) :
    TableSound s seg := by
  induction h with
  | @cleared seg hix hpts hnames =>
      rw [irtIndexClear_eq hix]
      refine ⟨hix, hnames, fun i hi hlive => ?_⟩
      exact absurd (congrArg IrtIndexSlot.pointId (if_pos hi)) hlive.1
  | insert _ partition name pointId ih => exact ih.insert partition name pointId
  | remove _ partition name ih => exact ih.remove partition name
  | store _ id p hname ih => exact ⟨ih.offIndex, ih.names.update hname, ih.below⟩

/-- Rebuilding an index is such a run. -/
theorem irtIndexRebuild_reached {s : IrtShm} {seg : Segment} (hix : seg.hdr.offIndex ≠ 0)
    (hpts : seg.hdr.offPoints ≠ 0) (hnames : NamesFit s.maxPoints seg.points) :
    TableReached s (irtIndexRebuild s seg) := by
  have hrun : ∀ (ids : List Nat) (seg : Segment), TableReached s seg →
      TableReached s (ids.foldl (indexNamed s) seg) := by
    intro ids
    induction ids with
    | nil => exact fun _ hreached => hreached
    | cons id rest ih =>
        intro seg hreached
        rw [List.foldl_cons]
        apply ih
        unfold indexNamed
        split
        · exact hreached
        · exact hreached.insert _ _ id
  exact hrun _ _ (.cleared hix hpts hnames)

/-! ## The tool's index is the library's -/

/-- The two indexes of a capacity: the one that the tool builds of a point table is the one
the library builds of it, and the tool finds in any table of the library what the library
finds there. -/
structure SameIndex (s : IrtShm) : Prop where
  built : ∀ (points : Bytes) (seg : Segment), seg.hdr.offIndex ≠ 0 → seg.hdr.offPoints ≠ 0 →
    PointsHeld s.maxPoints points seg.points → NamesFit s.maxPoints seg.points →
    ∃ slots, buildIndex points s.maxPoints (layoutBuckets s.maxPoints) =
        .ok (slots, (irtIndexRebuild s seg).hdr.indexCount) ∧
      SlotsHeld s.maxPoints slots (irtIndexRebuild s seg).slots
  probed : ∀ (points slots : Bytes) (seg : Segment), TableReached s seg →
    PointsHeld s.maxPoints points seg.points → SlotsHeld s.maxPoints slots seg.slots →
    ∀ (partition : UInt32) (name : CStr), name ≠ CStr.empty → name.bytes.length ≤ nameMax →
      indexProbe slots (layoutBuckets s.maxPoints) points name.bytes partition.toNat =
        .ok (irtIndexProbe (indexView s.maxPoints) seg partition name).toOption

/-- **The Python index is the C index**, for every capacity up to `2 ^ 30`. -/
theorem sameIndex (s : IrtShm) (hn : s.maxPoints ≤ 2 ^ 30) : SameIndex s where
  built := by
    intro points seg hix hpts hpoints hnames
    obtain ⟨⟨slots, count⟩, hbuild, hagrees⟩ := buildIndex_agrees hn hix hpts hpoints hnames
    refine ⟨slots, ?_, hagrees.slots⟩
    rw [hbuild, hagrees.count]
  probed := by
    intro points slots seg hreached hpoints hslots partition name _ hname
    have hsound := hreached.sound
    rw [layoutBuckets_eq hn]
    exact indexProbe_eq partition hpoints hslots hsound.names hsound.below hname

/-- The records of four points that are called `a`, nothing, `f` and `g`.  The three names
start at the same bucket, the last of eight. -/
def fourPoints : Bytes :=
  (((zeros 512).store 45 46 [97]).store 301 302 [102]).store 429 430 [103]

/-- A segment for them. -/
def fourSegment : Segment where
  hdr := irtShmInitHeader 4 0 7
  points id := decodePoint fourPoints.mem (sizeofPoint * id)
  slots _ := ⟨0, 0⟩
  metas _ := .zero

theorem fourSegment_held : PointsHeld 4 fourPoints fourSegment.points :=
  ⟨by decide +kernel, fun _ _ => rfl⟩

theorem fourSegment_fit : NamesFit 4 fourSegment.points := by
  have hfit : ∀ id < 4, (fourSegment.points id).name.bytes.length ≤ nameMax := by decide +kernel
  exact hfit

/-- The table with `a` taken out again: a tombstone is where the search for the others
begins. -/
def fourRemoved : Segment :=
  (irtIndexRemoveLocked (irtShmRequest 4 0) (irtIndexRebuild (irtShmRequest 4 0) fourSegment) 0
    (.ofBytes [97])).2

/-- The bytes of its slots. -/
def fourSlots : Bytes :=
  (List.range 8).flatMap fun i =>
    le32 (fourRemoved.slots i).hash.toNat ++ le32 (fourRemoved.slots i).pointId

/-- Both build the same index of the four points, and both find `g` behind the tombstone
and behind `f`, at the other end of the table. -/
theorem sameIndex_four :
    (∃ slots, buildIndex fourPoints 4 (layoutBuckets 4) =
        .ok (slots, (irtIndexRebuild (irtShmRequest 4 0) fourSegment).hdr.indexCount) ∧
      SlotsHeld 4 slots (irtIndexRebuild (irtShmRequest 4 0) fourSegment).slots) ∧
    indexProbe fourSlots (layoutBuckets 4) fourPoints [103] 0 =
      .ok (irtIndexProbe (indexView 4) fourRemoved 0 ⟨[103], by decide⟩).toOption ∧
    indexProbe fourSlots (layoutBuckets 4) fourPoints [103] 0 = .ok (some 3) ∧
    (fourRemoved.slots 7).pointId = irtIndexTombstone := by
  have hsame := sameIndex (irtShmRequest 4 0) (by decide)
  have hreached : TableReached (irtShmRequest 4 0) fourRemoved :=
    (irtIndexRebuild_reached (by decide +kernel) (by decide +kernel) fourSegment_fit).remove _ _
  refine ⟨hsame.built fourPoints fourSegment (by decide +kernel) (by decide +kernel)
    fourSegment_held fourSegment_fit, ?_, by decide +kernel, by decide +kernel⟩
  have hpoints : ∀ id < 4, fourRemoved.points id = decodePoint fourPoints.mem (sizeofPoint * id) := by
    decide +kernel
  have hcells : ∀ i < 8, (slotAt fourSlots i).cell = (fourRemoved.slots i).cell := by
    decide +kernel
  exact hsame.probed fourPoints fourSlots fourRemoved hreached ⟨by decide +kernel, hpoints⟩
    ⟨by decide +kernel, hcells⟩ 0 ⟨[103], by decide⟩ (by decide) (by decide)

end InduRtdb.Migrate
