/-
  Core/Shm.lean --- the segment header: creation, sealing and attaching.

  Source: `src/core/irt_shm.c` (`irt_crc32_update`, `irt_header_seal`,
  `irt_header_verify`, `irt_shm_init`).
-/
import InduRtdb.Core.Types

set_option autoImplicit false

namespace InduRtdb.Core

/-! ## The header -/

abbrev irtMagic : Nat := 0x1DBA1DBA
abbrev irtShmVersion : Nat := 3

/-- `irt_header_t`. -/
structure IrtHeader where
  magic : Nat
  version : Nat
  maxPoints : Nat
  maxSubscribers : Nat
  writeSeq : Nat
  ownerPid : Nat
  statsWrites : Nat
  statsTimeouts : Nat
  crc32 : UInt32
  flags : Nat
  reservedScan : Nat
  offPoints : Nat
  offIndex : Nat
  offMeta : Nat
  offSubs : Nat
  indexCount : Nat
  scanSkipped : Nat
  deriving DecidableEq

/-- The four bytes of a `uint32_t`, least significant first. -/
def le32 (n : Nat) : List UInt8 :=
  [UInt8.ofNat n, UInt8.ofNat (n / 2 ^ 8), UInt8.ofNat (n / 2 ^ 16), UInt8.ofNat (n / 2 ^ 24)]

/-- One turn of the bit loop of `irt_crc32_update`. -/
def irtCrc32Bit (crc : UInt32) : UInt32 :=
  if crc &&& 1 = 1 then (crc >>> 1) ^^^ 0xEDB88320 else crc >>> 1

/-- One byte of `irt_crc32_update`. -/
def irtCrc32Byte (crc : UInt32) (byte : UInt8) : UInt32 :=
  Nat.iterate irtCrc32Bit 8 (crc ^^^ byte.toUInt32)

/-- `irt_crc32_update`. -/
def irtCrc32Update (crc : UInt32) (data : List UInt8) : UInt32 :=
  data.foldl irtCrc32Byte crc

/-- Header bytes `0..15`: magic, version and the two capacities. -/
def IrtHeader.bytesHead (h : IrtHeader) : List UInt8 :=
  le32 h.magic ++ le32 h.version ++ le32 h.maxPoints ++ le32 h.maxSubscribers

/-- Header bytes `48..71`: flags, the reserved word and the four offsets. -/
def IrtHeader.bytesLayout (h : IrtHeader) : List UInt8 :=
  le32 h.flags ++ le32 h.reservedScan ++ le32 h.offPoints ++ le32 h.offIndex
    ++ le32 h.offMeta ++ le32 h.offSubs

/-- `irt_header_crc32_of`: the checksum of the layout fields only. -/
def irtHeaderCrc32Of (h : IrtHeader) : UInt32 :=
  irtCrc32Update (irtCrc32Update 0xFFFFFFFF h.bytesHead) h.bytesLayout ^^^ 0xFFFFFFFF

/-- `irt_header_seal`. -/
def irtHeaderSeal (h : IrtHeader) : IrtHeader :=
  let cleared := { h with crc32 := 0 }
  { cleared with crc32 := irtHeaderCrc32Of cleared }

/-- `irt_header_verify`. -/
def irtHeaderVerify (h : IrtHeader) : Bool :=
  h.magic == irtMagic && irtHeaderCrc32Of h == h.crc32

/-- A sealed header verifies as soon as its magic is right. -/
theorem irtHeaderVerify_seal (h : IrtHeader) :
    irtHeaderVerify (irtHeaderSeal h) = (h.magic == irtMagic) := by
  have hcrc : irtHeaderCrc32Of (irtHeaderSeal h) = (irtHeaderSeal h).crc32 := rfl
  rw [irtHeaderVerify, hcrc, beq_self_eq_true, Bool.and_true]
  rfl

/-! ## The segment -/

/-- The typed view of a mapped segment: the header and the tables behind it.
Every table is indexed by position; which positions exist is decided by the
operations that index it. -/
structure Segment where
  hdr : IrtHeader
  points : Nat → IndurtdbPoint
  slots : Nat → IrtIndexSlot
  metas : Nat → IndurtdbMeta

/-- Memory in which every byte is the same, as `memset` leaves it. -/
def filled (byte : UInt8) : Nat → UInt8 := fun _ => byte

/-- The little-endian value of the `n` bytes from `offset` on. -/
def readLe (mem : Nat → UInt8) (offset : Nat) : Nat → Nat
  | 0 => 0
  | n + 1 => (mem offset).toNat + 256 * readLe mem (offset + 1) n

/-- The `n` bytes from `offset` on. -/
def readBytes (mem : Nat → UInt8) (offset n : Nat) : List UInt8 :=
  (List.range n).map fun b => mem (offset + b)

/-- An `indurtdb_point_t` read from its 128 bytes. -/
def decodePoint (mem : Nat → UInt8) (offset : Nat) : IndurtdbPoint where
  value := readBytes mem offset 32
  timestampNs := readLe mem (offset + 32) 8
  type := mem (offset + 40)
  quality := mem (offset + 41)
  unit := UInt16.ofNat (readLe mem (offset + 42) 2)
  access := mem (offset + 44)
  name := CStr.ofBytes (readBytes mem (offset + 45) 64)
  sourceTimestampNs := readLe mem (offset + 112) 8
  partition := UInt32.ofNat (readLe mem (offset + 120) 4)

/-- An `irt_index_slot_t` read from its 8 bytes. -/
def decodeSlot (mem : Nat → UInt8) (offset : Nat) : IrtIndexSlot where
  hash := UInt32.ofNat (readLe mem offset 4)
  pointId := readLe mem (offset + 4) 4

/-- An `indurtdb_meta_t` read from its 32 bytes. -/
def decodeMeta (mem : Nat → UInt8) (offset : Nat) : IndurtdbMeta where
  eurMin := UInt64.ofNat (readLe mem offset 8)
  eurMax := UInt64.ofNat (readLe mem (offset + 8) 8)
  deadband := UInt32.ofNat (readLe mem (offset + 16) 4)
  flags := UInt32.ofNat (readLe mem (offset + 20) 4)
  reserved := UInt64.ofNat (readLe mem (offset + 24) 8)

/-- An `irt_header_t` read from its first 80 bytes; the others are reserved. -/
def decodeHeader (mem : Nat → UInt8) : IrtHeader where
  magic := readLe mem 0 4
  version := readLe mem 4 4
  maxPoints := readLe mem 8 4
  maxSubscribers := readLe mem 12 4
  writeSeq := readLe mem 16 8
  ownerPid := readLe mem 24 4
  statsWrites := readLe mem 28 8
  statsTimeouts := readLe mem 36 8
  crc32 := UInt32.ofNat (readLe mem 44 4)
  flags := readLe mem 48 4
  reservedScan := readLe mem 52 4
  offPoints := readLe mem 56 4
  offIndex := readLe mem 60 4
  offMeta := readLe mem 64 4
  offSubs := readLe mem 68 4
  indexCount := readLe mem 72 4
  scanSkipped := readLe mem 76 4

theorem readLe_congr {mem mem' : Nat → UInt8} :
    ∀ (n o o' : Nat), (∀ b, b < n → mem (o + b) = mem' (o' + b)) →
      readLe mem o n = readLe mem' o' n := by
  intro n
  induction n with
  | zero => intro o o' _; rfl
  | succ n ih =>
      intro o o' hbytes
      have hhead : mem o = mem' o' := hbytes 0 (by omega)
      have htail := ih (o + 1) (o' + 1) (by
        intro b hb
        have := hbytes (1 + b) (by omega)
        rwa [← Nat.add_assoc, ← Nat.add_assoc] at this)
      rw [readLe, readLe, hhead, htail]

theorem readBytes_congr {mem mem' : Nat → UInt8} {n o o' : Nat}
    (hbytes : ∀ b, b < n → mem (o + b) = mem' (o' + b)) :
    readBytes mem o n = readBytes mem' o' n :=
  List.map_congr_left fun b hb => hbytes b (List.mem_range.mp hb)

/-- A record depends on its own 128 bytes only. -/
theorem decodePoint_congr {mem mem' : Nat → UInt8} {o o' : Nat}
    (hbytes : ∀ b, b < 128 → mem (o + b) = mem' (o' + b)) :
    decodePoint mem o = decodePoint mem' o' := by
  have hfield : ∀ k n, k + n ≤ 128 → ∀ b, b < n → mem (o + k + b) = mem' (o' + k + b) := by
    intro k n hkn b hb
    rw [Nat.add_assoc, Nat.add_assoc]
    exact hbytes (k + b) (by omega)
  have hvalue : ∀ b, b < 32 → mem (o + b) = mem' (o' + b) :=
    fun b hb => hbytes b (by omega)
  unfold decodePoint
  have htype : mem (o + 40) = mem' (o' + 40) := hbytes 40 (by decide)
  have hquality : mem (o + 41) = mem' (o' + 41) := hbytes 41 (by decide)
  have haccess : mem (o + 44) = mem' (o' + 44) := hbytes 44 (by decide)
  rw [readBytes_congr hvalue, readLe_congr 8 _ _ (hfield 32 8 (by decide)), htype, hquality,
    readLe_congr 2 _ _ (hfield 42 2 (by decide)), haccess,
    readBytes_congr (hfield 45 64 (by decide)), readLe_congr 8 _ _ (hfield 112 8 (by decide)),
    readLe_congr 4 _ _ (hfield 120 4 (by decide))]

/-- An index slot depends on its own 8 bytes only. -/
theorem decodeSlot_congr {mem mem' : Nat → UInt8} {o o' : Nat}
    (hbytes : ∀ b, b < 8 → mem (o + b) = mem' (o' + b)) :
    decodeSlot mem o = decodeSlot mem' o' := by
  have hhash := readLe_congr 4 o o' fun b hb => hbytes b (by omega)
  have hid := readLe_congr 4 (o + 4) (o' + 4) fun b hb => by
    rw [Nat.add_assoc, Nat.add_assoc]
    exact hbytes (4 + b) (by omega)
  unfold decodeSlot
  rw [hhash, hid]

/-- A metadata record depends on its own 32 bytes only. -/
theorem decodeMeta_congr {mem mem' : Nat → UInt8} {o o' : Nat}
    (hbytes : ∀ b, b < 32 → mem (o + b) = mem' (o' + b)) :
    decodeMeta mem o = decodeMeta mem' o' := by
  have hfield : ∀ k n, k + n ≤ 32 → ∀ b, b < n → mem (o + k + b) = mem' (o' + k + b) := by
    intro k n hkn b hb
    rw [Nat.add_assoc, Nat.add_assoc]
    exact hbytes (k + b) (by omega)
  unfold decodeMeta
  rw [readLe_congr 8 o o' fun b hb => hbytes b (by omega),
    readLe_congr 8 _ _ (hfield 8 8 (by decide)), readLe_congr 4 _ _ (hfield 16 4 (by decide)),
    readLe_congr 4 _ _ (hfield 20 4 (by decide)), readLe_congr 8 _ _ (hfield 24 8 (by decide))]

/-- The view of the bytes behind a header, through the header's offsets. -/
def decodeSegment (hdr : IrtHeader) (mem : Nat → UInt8) : Segment where
  hdr := hdr
  points i := decodePoint mem (hdr.offPoints + sizeofPoint * i)
  slots i := decodeSlot mem (hdr.offIndex + irtIndexSlotSize * i)
  metas i := decodeMeta mem (hdr.offMeta + sizeofMeta * i)

/-! ## Opening a segment -/

/-- The process-local view `irt_shm_t`: what the opener asked for and mapped. -/
structure IrtShm where
  totalSize : Nat
  maxPoints : Nat
  maxSubscribers : Nat
  deriving DecidableEq

/-- The error codes of `irt_shm_init`. -/
inductive ShmErr where
  /-- `IRT_SHM_ERR_ARG`: bad argument or not enough capacity -/
  | arg
  /-- `IRT_SHM_ERR_VERSION`: wrong magic or layout version -/
  | version
  /-- `IRT_SHM_ERR_CRC`: the header does not verify -/
  | crc
  deriving DecidableEq, Repr

/-- The handle `irt_shm_init` fills in before it maps the segment. -/
def irtShmRequest (maxPoints maxSubscribers : Nat) : IrtShm where
  totalSize := irtShmTotalSize maxPoints maxSubscribers
  maxPoints := maxPoints
  maxSubscribers := maxSubscribers

/-- The header the creating process stores, before `irt_index_clear`. -/
def irtShmInitHeader (maxPoints maxSubscribers pid : Nat) : IrtHeader :=
  irtHeaderSeal
    { magic := irtMagic
      version := irtShmVersion
      maxPoints := maxPoints
      maxSubscribers := maxSubscribers
      writeSeq := 0
      ownerPid := pid
      statsWrites := 0
      statsTimeouts := 0
      crc32 := 0
      flags := 0
      reservedScan := 0
      offPoints := irtLayoutOffPoints
      offIndex := irtLayoutOffIndex maxPoints
      offMeta := irtLayoutOffMeta maxPoints
      offSubs := irtLayoutOffSubs maxPoints
      indexCount := 0
      scanSkipped := 0 }

/-- The bytes behind the header once the creating process is done: the segment
starts zeroed, `irt_index_clear` fills the index with `0xFF`, and the metadata
is zeroed last.  Either step is skipped when its offset is zero.  The regions
are taken where the stored offsets put them, so they overlap when an offset has
wrapped. -/
def irtShmInitBytes (maxPoints : Nat) (offset : Nat) : UInt8 :=
  let offIndex := irtLayoutOffIndex maxPoints
  let offMeta := irtLayoutOffMeta maxPoints
  if offMeta ≠ 0 ∧ offMeta ≤ offset ∧ offset < offMeta + irtLayoutMetaSize maxPoints then 0
  else if offIndex ≠ 0 ∧ offIndex ≤ offset ∧
      offset < offIndex + irtLayoutIndexSize maxPoints then 0xFF
  else 0

/-- `irt_shm_init` in the creating process: the segment it leaves behind. -/
def irtShmInitOwner (maxPoints maxSubscribers pid : Nat) : Segment :=
  decodeSegment (irtShmInitHeader maxPoints maxSubscribers pid) (irtShmInitBytes maxPoints)

/-- The acceptance tests of `irt_shm_init` in a process that found the segment
already there.  The zero capacity is refused before the segment is mapped. -/
def irtShmAttach (hdr : IrtHeader) (maxPoints maxSubscribers : Nat) :
    Except ShmErr IrtShm :=
  if maxPoints = 0 then .error .arg
  else if hdr.magic ≠ irtMagic ∨ hdr.version ≠ irtShmVersion then .error .version
  else if hdr.maxPoints < maxPoints ∨ hdr.maxSubscribers < maxSubscribers then .error .arg
  else if irtHeaderVerify hdr = false then .error .crc
  else .ok (irtShmRequest maxPoints maxSubscribers)

/-- Exactly which requests a freshly created segment accepts. -/
theorem irtShmAttach_created_iff {N M pid n m : Nat} {s : IrtShm} :
    irtShmAttach (irtShmInitHeader N M pid) n m = .ok s ↔
      (0 < n ∧ n ≤ N ∧ m ≤ M) ∧ s = irtShmRequest n m := by
  have hverify : irtHeaderVerify (irtShmInitHeader N M pid) = true :=
    irtHeaderVerify_seal _
  have hmagic : (irtShmInitHeader N M pid).magic = irtMagic := rfl
  have hversion : (irtShmInitHeader N M pid).version = irtShmVersion := rfl
  have hpoints : (irtShmInitHeader N M pid).maxPoints = N := rfl
  have hsubs : (irtShmInitHeader N M pid).maxSubscribers = M := rfl
  simp only [irtShmAttach, hverify, hmagic, hversion, hpoints, hsubs, ne_eq, not_true_eq_false,
    or_self, if_false, Bool.true_eq_false]
  by_cases hn : n = 0
  · simp [hn]
  · by_cases hsize : N < n ∨ M < m
    · simp [hn, hsize]
      omega
    · simp only [hn, hsize, if_false, Except.ok.injEq]
      constructor
      · intro h
        exact ⟨by omega, h.symm⟩
      · intro h
        exact h.2.symm

/-! ## The freshly created segment

As long as the index offset has not wrapped, the points are zeroed and every
index slot is empty, wherever the other offsets fell. -/

/-- The index offset does not wrap. -/
def IndexOffsetFits (maxPoints : Nat) : Prop :=
  sizeofHeader + maxPoints * sizeofPoint < 2 ^ 32

instance (maxPoints : Nat) : Decidable (IndexOffsetFits maxPoints) :=
  inferInstanceAs (Decidable (_ < _))

theorem indexOffsetFits_iff {N : Nat} : IndexOffsetFits N ↔ N < 2 ^ 25 - 1 := by
  simp only [IndexOffsetFits, sizeofHeader, sizeofPoint]
  omega

theorem LayoutFits.indexOffsetFits {N : Nat} (h : LayoutFits N) : IndexOffsetFits N :=
  Nat.lt_of_le_of_lt (by omega) h

section Fresh

variable {N : Nat} (h : IndexOffsetFits N)
include h

theorem IndexOffsetFits.offIndex : irtLayoutOffIndex N = 128 + 128 * N := by
  have hlt := indexOffsetFits_iff.mp h
  simp only [irtLayoutOffIndex, irtLayoutOffPoints, sizeofHeader, sizeofPoint, u32]
  omega

theorem IndexOffsetFits.buckets_le : irtLayoutBuckets N ≤ 2 ^ 26 := by
  have hlt := indexOffsetFits_iff.mp h
  calc irtLayoutBuckets N ≤ irtLayoutBuckets (2 ^ 25) := irtLayoutBuckets_mono (by omega)
    _ = 2 ^ 26 := by decide

theorem IndexOffsetFits.two_mul_le : 2 * N ≤ irtLayoutBuckets N :=
  two_mul_le_irtLayoutBuckets (by have := indexOffsetFits_iff.mp h; omega)

theorem irtShmInitBytes_points {o : Nat} (ho : o < 128 + 128 * N) :
    irtShmInitBytes N o = 0 := by
  simp only [irtShmInitBytes, h.offIndex]
  split
  · rfl
  · rw [if_neg (by omega)]

theorem irtShmInitBytes_index {o : Nat} (hlo : 128 + 128 * N ≤ o)
    (hhi : o < 128 + 128 * N + 8 * irtLayoutBuckets N) : irtShmInitBytes N o = 0xFF := by
  have hlt := indexOffsetFits_iff.mp h
  have hcap := h.buckets_le
  have htwo := h.two_mul_le
  have hindex := h.offIndex
  have hmeta : irtLayoutOffMeta N = u32 (128 + 128 * N + 8 * irtLayoutBuckets N) := by
    simp only [irtLayoutOffMeta, hindex, irtLayoutIndexSize, irtIndexSlotSize, u32]
    omega
  simp only [irtShmInitBytes, hindex, irtLayoutIndexSize, irtIndexSlotSize, irtLayoutMetaSize,
    sizeofMeta, hmeta, u32]
  rw [if_neg (by omega), if_pos (by omega)]

theorem irtShmInitOwner_slots {M pid i : Nat} (hi : i < irtLayoutBuckets N) :
    ((irtShmInitOwner N M pid).slots i).pointId = irtIndexEmpty := by
  have hbytes : ∀ b, b < 4 →
      irtShmInitBytes N (irtLayoutOffIndex N + 8 * i + 4 + b) = filled 0xFF (0 + b) := by
    intro b hb
    rw [h.offIndex]
    exact irtShmInitBytes_index h (by omega) (by omega)
  change readLe (irtShmInitBytes N) (irtLayoutOffIndex N + 8 * i + 4) 4 = irtIndexEmpty
  rw [readLe_congr 4 _ 0 hbytes]
  rfl

theorem irtShmInitOwner_points {M pid i : Nat} (hi : i < N) :
    (irtShmInitOwner N M pid).points i = IndurtdbPoint.zero := by
  have hbytes : ∀ b, b < 128 →
      irtShmInitBytes N (128 + 128 * i + b) = filled 0 (0 + b) := by
    intro b hb
    exact irtShmInitBytes_points h (by omega)
  change decodePoint (irtShmInitBytes N) (128 + 128 * i) = IndurtdbPoint.zero
  rw [decodePoint_congr hbytes]
  rfl

end Fresh

end InduRtdb.Core
