/-
  Core/HeaderCrc.lean --- what the checksum of the header protects.

  Source: `src/core/irt_shm.c` (`irt_crc32_update`, `irt_header_crc32_of`,
  `irt_header_seal`, `irt_header_verify`) and `irt_header_t` of
  `src/internal/irt_types.h`.

  The checksum is taken over the bytes that describe the layout and over no others: what
  the runtime counts in the header leaves a sealed header valid, and a burst of up to 32
  bits in the covered bytes does not.
-/
import InduRtdb.Core.Shm
import InduRtdb.Lib.Crc

set_option autoImplicit false

namespace InduRtdb.Core

open Lib

/-! ## The covered bytes -/

/-- A field of four bytes, written back. -/
theorem le32_readLe (mem : Nat → UInt8) (o : Nat) : le32 (readLe mem o 4) = readBytes mem o 4 := by
  have hvalue : readLe mem o 4 = (mem o).toNat + 256 * ((mem (o + 1)).toNat +
      256 * ((mem (o + 1 + 1)).toNat + 256 * ((mem (o + 1 + 1 + 1)).toNat + 256 * 0))) := rfl
  have hbytes : readBytes mem o 4 = [mem o, mem (o + 1), mem (o + 2), mem (o + 3)] := rfl
  have h0 := (mem o).toNat_lt
  have h1 := (mem (o + 1)).toNat_lt
  have h2 := (mem (o + 1 + 1)).toNat_lt
  have h3 := (mem (o + 1 + 1 + 1)).toNat_lt
  have hbyte : ∀ (b : UInt8) (n : Nat), n % 2 ^ 8 = b.toNat → UInt8.ofNat n = b := by
    intro b n hn
    apply UInt8.toNat_inj.mp
    rw [UInt8.toNat_ofNat', hn]
  rw [hvalue, hbytes, le32, hbyte (mem o) _ (by omega), hbyte (mem (o + 1)) _ (by omega),
    hbyte (mem (o + 1 + 1)) _ (by omega), hbyte (mem (o + 1 + 1 + 1)) _ (by omega)]

theorem irtCrc32Update_eq_foldl (crc : UInt32) (data : Bytes) : irtCrc32Update crc data =
    data.foldl (fun r byte => Nat.iterate Crc.turn 8 (r ^^^ byte.toUInt32)) crc := rfl

/-- The bytes that the checksum is taken over, in the order in which they are fed. -/
def coveredBytes (mem : Nat → UInt8) : Bytes := readBytes mem 0 16 ++ readBytes mem 48 24

/-- The checksum of a header in memory is the CRC-32 of the two ranges. -/
theorem irtHeaderCrc32Of_decodeHeader (mem : Nat → UInt8) :
    irtHeaderCrc32Of (decodeHeader mem) = Crc.crc32 (coveredBytes mem) := by
  have hhead : (decodeHeader mem).bytesHead = readBytes mem 0 16 := by
    rw [IrtHeader.bytesHead]
    simp only [decodeHeader, le32_readLe]
    rfl
  have hlayout : (decodeHeader mem).bytesLayout = readBytes mem 48 24 := by
    rw [IrtHeader.bytesLayout]
    simp only [decodeHeader, le32_readLe]
    rfl
  rw [Crc.crc32_eq_foldl, irtHeaderCrc32Of, hhead, hlayout, coveredBytes,
    irtCrc32Update_eq_foldl, irtCrc32Update_eq_foldl, List.foldl_append]

/-- The verdict depends on the covered bytes and on the stored checksum. -/
theorem irtHeaderVerify_congr {mem mem' : Nat → UInt8}
    (hsame : ∀ o, o < 16 ∨ 44 ≤ o ∧ o < 72 → mem o = mem' o) :
    irtHeaderVerify (decodeHeader mem) = irtHeaderVerify (decodeHeader mem') := by
  have hmagic : (decodeHeader mem).magic = (decodeHeader mem').magic :=
    readLe_congr 4 0 0 fun b hb => hsame (0 + b) (by omega)
  have hstored : (decodeHeader mem).crc32 = (decodeHeader mem').crc32 :=
    congrArg UInt32.ofNat (readLe_congr 4 44 44 fun b hb => hsame (44 + b) (by omega))
  have hcovered : coveredBytes mem = coveredBytes mem' := by
    rw [coveredBytes, coveredBytes, readBytes_congr fun b hb => hsame (0 + b) (by omega),
      readBytes_congr fun b hb => hsame (48 + b) (by omega)]
  rw [irtHeaderVerify, irtHeaderVerify, irtHeaderCrc32Of_decodeHeader,
    irtHeaderCrc32Of_decodeHeader, hmagic, hstored, hcovered]

/-! ## Sealing in memory -/

/-- A 32-bit word stored at an offset. -/
def store32 (mem : Nat → UInt8) (o : Nat) (v : UInt32) (b : Nat) : UInt8 :=
  if o ≤ b ∧ b < o + 4 then (le32 v.toNat).getD (b - o) 0 else mem b

theorem store32_other {mem : Nat → UInt8} {o b : Nat} (v : UInt32) (hb : ¬ (o ≤ b ∧ b < o + 4)) :
    store32 mem o v b = mem b := if_neg hb

/-- A stored word is read back. -/
theorem readLe_store32 (mem : Nat → UInt8) (o : Nat) (v : UInt32) :
    readLe (store32 mem o v) o 4 = v.toNat := by
  have hbyte : ∀ i, i < 4 → store32 mem o v (o + i) = (le32 v.toNat).getD i 0 := by
    intro i hi
    rw [store32, if_pos (by omega), Nat.add_sub_cancel_left]
  have h0 : store32 mem o v o = UInt8.ofNat v.toNat := hbyte 0 (by decide)
  have h1 : store32 mem o v (o + 1) = UInt8.ofNat (v.toNat / 2 ^ 8) := hbyte 1 (by decide)
  have h2 : store32 mem o v (o + 1 + 1) = UInt8.ofNat (v.toNat / 2 ^ 16) := hbyte 2 (by decide)
  have h3 : store32 mem o v (o + 1 + 1 + 1) = UInt8.ofNat (v.toNat / 2 ^ 24) :=
    hbyte 3 (by decide)
  have hlt := v.toNat_lt
  simp only [readLe, h0, h1, h2, h3, UInt8.toNat_ofNat']
  omega

/-- `irt_header_seal` on the header's bytes: the checksum is cleared, then computed and
stored. -/
def sealBytes (mem : Nat → UInt8) : Nat → UInt8 :=
  let cleared := store32 mem 44 0
  store32 cleared 44 (irtHeaderCrc32Of (decodeHeader cleared))

/-- Storing the checksum leaves the rest of the header as it was. -/
theorem decodeHeader_store32 (mem : Nat → UInt8) (v : UInt32) :
    decodeHeader (store32 mem 44 v) = { decodeHeader mem with crc32 := v } := by
  have hfield : ∀ o n, o + n ≤ 44 ∨ 48 ≤ o → readLe (store32 mem 44 v) o n = readLe mem o n :=
    fun o n ho => readLe_congr n o o fun b hb => store32_other v (by omega)
  have hstored : UInt32.ofNat (readLe (store32 mem 44 v) 44 4) = v := by
    rw [readLe_store32, UInt32.ofNat_toNat]
  unfold decodeHeader
  rw [hfield 0 4 (by decide), hfield 4 4 (by decide), hfield 8 4 (by decide),
    hfield 12 4 (by decide), hfield 16 8 (by decide), hfield 24 4 (by decide),
    hfield 28 8 (by decide), hfield 36 8 (by decide), hfield 48 4 (by decide),
    hfield 52 4 (by decide), hfield 56 4 (by decide), hfield 60 4 (by decide),
    hfield 64 4 (by decide), hfield 68 4 (by decide), hfield 72 4 (by decide),
    hfield 76 4 (by decide), hstored]

/-- Sealing the bytes seals the header they hold. -/
theorem decodeHeader_sealBytes (mem : Nat → UInt8) :
    decodeHeader (sealBytes mem) = irtHeaderSeal (decodeHeader mem) := by
  rw [sealBytes, decodeHeader_store32, decodeHeader_store32]
  rfl

/-! ## The protection -/

/-- The fields of `irt_header_t` that change while the segment is in use, each with its
offset and size: `write_seq`, `owner_pid`, `stats`, `index_count`, `scan_skipped` and
`reserved`. -/
def volatileFields : List (Nat × Nat) := [(16, 8), (24, 4), (28, 16), (72, 4), (76, 4), (80, 48)]

/-- The byte belongs to one of these fields. -/
def VolatileByte (o : Nat) : Prop := ∃ field ∈ volatileFields, field.1 ≤ o ∧ o < field.1 + field.2

instance (o : Nat) : Decidable (VolatileByte o) :=
  inferInstanceAs (Decidable (∃ field ∈ volatileFields, field.1 ≤ o ∧ o < field.1 + field.2))

theorem not_volatileByte {o : Nat} (ho : o < 16 ∨ 44 ≤ o ∧ o < 72) : ¬ VolatileByte o := by
  rintro ⟨field, hfield, hlo, hhi⟩
  simp only [volatileFields, List.mem_cons, List.not_mem_nil, or_false] at hfield
  rcases hfield with rfl | rfl | rfl | rfl | rfl | rfl <;> omega

/-- What sealing a header in memory achieves. -/
structure ProtectsLayout (mem : Nat → UInt8) : Prop where
  /-- a sealed header is accepted if its magic is right -/
  accepts : (decodeHeader mem).magic = irtMagic →
    irtHeaderVerify (decodeHeader (sealBytes mem)) = true
  /-- it still is after any change of what the runtime keeps in the header -/
  tolerates : ∀ mem', (∀ o, o < sizeofHeader → ¬ VolatileByte o → mem' o = sealBytes mem o) →
    irtHeaderVerify (decodeHeader mem') = irtHeaderVerify (decodeHeader (sealBytes mem))
  /-- it is not after a burst of up to 32 bits in the covered bytes, whatever else changed
  outside of the stored checksum -/
  detects : ∀ mem' w n, n ≤ 32 → (∀ o, 44 ≤ o → o < 48 → mem' o = sealBytes mem o) →
    Crc.AgreeOutside w n (coveredBytes (sealBytes mem)) (coveredBytes mem') →
    coveredBytes (sealBytes mem) ≠ coveredBytes mem' →
    irtHeaderVerify (decodeHeader mem') = false

theorem length_coveredBytes (mem : Nat → UInt8) : (coveredBytes mem).length = 40 := rfl

/-- The header's checksum protects the layout, and nothing else. -/
theorem protectsLayout (mem : Nat → UInt8) : ProtectsLayout mem where
  accepts := by
    intro hmagic
    rw [decodeHeader_sealBytes, irtHeaderVerify_seal, hmagic]
    exact beq_self_eq_true irtMagic
  tolerates := by
    intro mem' hsame
    apply irtHeaderVerify_congr
    intro o ho
    exact hsame o (by rw [sizeofHeader]; omega) (not_volatileByte ho)
  detects := by
    intro mem' w n hn hstored hout hne
    have hcrc : (decodeHeader mem').crc32 = Crc.crc32 (coveredBytes (sealBytes mem)) := by
      calc (decodeHeader mem').crc32
          = (decodeHeader (sealBytes mem)).crc32 :=
            congrArg UInt32.ofNat
              (readLe_congr 4 44 44 fun b hb => hstored (44 + b) (by omega) (by omega))
        _ = irtHeaderCrc32Of (decodeHeader (sealBytes mem)) := by
            rw [decodeHeader_sealBytes]
            rfl
        _ = Crc.crc32 (coveredBytes (sealBytes mem)) := irtHeaderCrc32Of_decodeHeader _
    have hdiffers := Crc.crc32_ne_of_burst hn
      (by rw [length_coveredBytes, length_coveredBytes]) hout hne
    rw [irtHeaderVerify, irtHeaderCrc32Of_decodeHeader, hcrc,
      beq_eq_false_iff_ne.mpr hdiffers.symm, Bool.and_false]

end InduRtdb.Core
