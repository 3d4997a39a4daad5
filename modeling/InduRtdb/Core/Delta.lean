/-
  Core/Delta.lean --- the delta log: fixed records appended to a file.

  Source: `src/core/irt_delta.h`, `src/core/irt_delta.c`.

  The log is the list of the file's bytes.  An append hands eighty bytes to one
  `write`, which may take fewer; a replay reads eighty bytes at a time and stops
  at the first record that is short or not recognised.
-/
import InduRtdb.Core.Store

set_option autoImplicit false

namespace InduRtdb.Core

/-! ## Records -/

abbrev irtDeltaMagic : Nat := 0x444C5441
abbrev irtDeltaVersion : Nat := 1

abbrev irtDeltaOpCreate : Nat := 1
abbrev irtDeltaOpDelete : Nat := 2
abbrev irtDeltaOpRename : Nat := 3

/-- `sizeof(irt_delta_rec_t)`. -/
abbrev sizeofDeltaRec : Nat := 80

/-- `irt_delta_rec_t`, without the two reserved bytes. -/
structure IrtDeltaRec where
  magic : Nat
  version : Nat
  op : Nat
  pointId : Nat
  type : UInt8
  access : UInt8
  name : CStr
  deriving DecidableEq

/-- The two bytes of a `uint16_t`, least significant first. -/
def le16 (n : Nat) : List UInt8 := [UInt8.ofNat n, UInt8.ofNat (n / 2 ^ 8)]

/-- A zeroed array of `n` bytes with a string copied to its start. -/
def charArray (n : Nat) (s : CStr) : List UInt8 :=
  s.bytes.take n ++ List.replicate (n - s.bytes.length) 0

/-- The eighty bytes of a record. -/
def IrtDeltaRec.toBytes (rec : IrtDeltaRec) : List UInt8 :=
  le32 rec.magic ++ le16 rec.version ++ le16 rec.op ++ le32 rec.pointId
    ++ [rec.type, rec.access, 0, 0] ++ charArray 64 rec.name

/-- The number stored in a list of bytes, least significant first. -/
def ofLe : List UInt8 → Nat
  | [] => 0
  | b :: bs => b.toNat + 256 * ofLe bs

/-- Eighty bytes read as a record. -/
def IrtDeltaRec.ofBytes (bytes : List UInt8) : IrtDeltaRec where
  magic := ofLe (bytes.take 4)
  version := ofLe ((bytes.drop 4).take 2)
  op := ofLe ((bytes.drop 6).take 2)
  pointId := ofLe ((bytes.drop 8).take 4)
  type := bytes.getD 12 0
  access := bytes.getD 13 0
  name := CStr.ofBytes ((bytes.drop 16).take 64)

/-- The tests of `irt_delta_replay` on a full record. -/
def IrtDeltaRec.Recognised (rec : IrtDeltaRec) : Prop :=
  rec.magic = irtDeltaMagic ∧ rec.version = irtDeltaVersion ∧
    (rec.op = irtDeltaOpCreate ∨ rec.op = irtDeltaOpDelete ∨ rec.op = irtDeltaOpRename)

instance (rec : IrtDeltaRec) : Decidable rec.Recognised :=
  inferInstanceAs (Decidable (_ ∧ _ ∧ _))

/-- A record every field of which fits its place in the file. -/
structure IrtDeltaRec.Fits (rec : IrtDeltaRec) : Prop where
  magic : rec.magic < 2 ^ 32
  version : rec.version < 2 ^ 16
  op : rec.op < 2 ^ 16
  pointId : rec.pointId < 2 ^ 32
  name : rec.name.bytes.length ≤ nameMax

/-! ## Append and replay -/

/-- `irt_delta_append` when `write` takes `written` bytes: the file afterwards,
and whether the call succeeds. -/
def irtDeltaAppend (file : List UInt8) (rec : IrtDeltaRec) (written : Nat) :
    List UInt8 × Bool :=
  (file ++ rec.toBytes.take written, decide (sizeofDeltaRec ≤ written))

section Replay

variable {σ : Type} (apply : IrtDeltaRec → σ → Bool × σ)

/-- The record loop of `irt_delta_replay`, `n` being the number of full records
still ahead.  `apply` says whether it accepts the record. -/
def irtDeltaReplayLoop : Nat → List UInt8 → σ → Nat × σ
  | 0, _, ctx => (0, ctx)
  | n + 1, file, ctx =>
      let rec' := IrtDeltaRec.ofBytes (file.take sizeofDeltaRec)
      if rec'.Recognised then
        match apply rec' ctx with
        | (true, ctx) =>
            let rest := irtDeltaReplayLoop n (file.drop sizeofDeltaRec) ctx
            (rest.1 + 1, rest.2)
        | (false, ctx) => (0, ctx)
      else (0, ctx)

/-- `irt_delta_replay`: the number of records applied and what they led to.  A
tail of fewer than eighty bytes is dropped. -/
def irtDeltaReplay (file : List UInt8) (ctx : σ) : Nat × σ :=
  irtDeltaReplayLoop apply (file.length / sizeofDeltaRec) file ctx

end Replay

/-! ## Records survive the file -/

@[simp] theorem length_le32 (n : Nat) : (le32 n).length = 4 := rfl

@[simp] theorem length_le16 (n : Nat) : (le16 n).length = 2 := rfl

theorem length_charArray {n : Nat} {s : CStr} (h : s.bytes.length ≤ n) :
    (charArray n s).length = n := by
  simp only [charArray, List.length_append, List.length_take, List.length_replicate]
  omega

theorem IrtDeltaRec.length_toBytes {rec : IrtDeltaRec} (h : rec.name.bytes.length ≤ nameMax) :
    rec.toBytes.length = sizeofDeltaRec := by
  simp only [nameMax] at h
  simp only [IrtDeltaRec.toBytes, List.length_append, length_le32, length_le16,
    length_charArray (n := 64) (s := rec.name) (by omega), List.length_cons, List.length_nil]

theorem length_flatMap_toBytes :
    ∀ recs : List IrtDeltaRec, (∀ rec ∈ recs, rec.Fits) →
      (recs.flatMap IrtDeltaRec.toBytes).length = sizeofDeltaRec * recs.length := by
  intro recs
  induction recs with
  | nil => exact fun _ => rfl
  | cons rec recs ih =>
      intro hfits
      rw [List.flatMap_cons, List.length_append,
        IrtDeltaRec.length_toBytes (hfits rec (List.mem_cons_self ..)).name,
        ih fun r hr => hfits r (List.mem_cons_of_mem _ hr), List.length_cons, Nat.mul_succ,
        Nat.add_comm]

theorem ofLe_le32 {n : Nat} (h : n < 2 ^ 32) : ofLe (le32 n) = n := by
  simp only [le32, ofLe, UInt8.toNat_ofNat']
  omega

theorem ofLe_le16 {n : Nat} (h : n < 2 ^ 16) : ofLe (le16 n) = n := by
  simp only [le16, ofLe, UInt8.toNat_ofNat']
  omega

theorem CStr.ofBytes_charArray {n : Nat} {s : CStr} (h : s.bytes.length < n) :
    CStr.ofBytes (charArray n s) = s := by
  refine CStr.ext_bytes ?_
  have hpos : n - s.bytes.length = (n - s.bytes.length - 1) + 1 := by omega
  simp only [CStr.ofBytes, charArray, List.take_of_length_le (Nat.le_of_lt h)]
  rw [hpos, List.replicate_succ, List.takeWhile_append_of_pos]
  · simp
  · intro b hb
    have : b ≠ 0 := by
      rintro rfl
      exact s.nulFree hb
    simpa using this

/-- What is read back is what was written. -/
theorem IrtDeltaRec.ofBytes_toBytes {rec : IrtDeltaRec} (h : rec.Fits) :
    IrtDeltaRec.ofBytes rec.toBytes = rec := by
  have hname : CStr.ofBytes (charArray 64 rec.name) = rec.name :=
    CStr.ofBytes_charArray (Nat.lt_succ_of_le h.name)
  have htail : (charArray 64 rec.name).take 64 = charArray 64 rec.name := by
    refine List.take_of_length_le ?_
    rw [length_charArray (by have := h.name; simp only [nameMax] at this; omega)]
  obtain ⟨magic, version, op, pointId, type, access, name⟩ := rec
  simp only [IrtDeltaRec.ofBytes, IrtDeltaRec.mk.injEq]
  refine ⟨ofLe_le32 h.magic, ofLe_le16 h.version, ofLe_le16 h.op, ofLe_le32 h.pointId,
    rfl, rfl, ?_⟩
  change CStr.ofBytes ((charArray 64 name).take 64) = name
  rw [htail, hname]

section Replay

variable {σ : Type} {apply : IrtDeltaRec → σ → Bool × σ}

/-- A replay starts with the record at the front of the file. -/
theorem irtDeltaReplay_cons {rec : IrtDeltaRec} {ctx ctx' : σ} (hfits : rec.Fits)
    (hrec : rec.Recognised) (happly : apply rec ctx = (true, ctx')) (rest : List UInt8) :
    irtDeltaReplay apply (rec.toBytes ++ rest) ctx =
      ((irtDeltaReplay apply rest ctx').1 + 1, (irtDeltaReplay apply rest ctx').2) := by
  have hlen := IrtDeltaRec.length_toBytes hfits.name
  have hcount : (rec.toBytes ++ rest).length / sizeofDeltaRec =
      rest.length / sizeofDeltaRec + 1 := by
    rw [List.length_append, hlen, Nat.add_comm, Nat.add_div_right _ (by decide)]
  have htake : (rec.toBytes ++ rest).take sizeofDeltaRec = rec.toBytes := by
    rw [← hlen, List.take_left]
  have hdrop : (rec.toBytes ++ rest).drop sizeofDeltaRec = rest := by
    rw [← hlen, List.drop_left]
  rw [irtDeltaReplay, hcount, irtDeltaReplayLoop, htake, hdrop,
    IrtDeltaRec.ofBytes_toBytes hfits]
  simp only [if_pos hrec, happly]
  rfl

/-- A file shorter than one record holds nothing to replay. -/
theorem irtDeltaReplay_short {file : List UInt8} {ctx : σ} (h : file.length < sizeofDeltaRec) :
    irtDeltaReplay apply file ctx = (0, ctx) := by
  rw [irtDeltaReplay, Nat.div_eq_of_lt h, irtDeltaReplayLoop]

/-- A file made of whole recognised records and a short tail: every record is
applied, once and in order. -/
theorem irtDeltaReplay_records {step : IrtDeltaRec → σ → σ} :
    ∀ (recs : List IrtDeltaRec) (tail : List UInt8) (ctx : σ),
      (∀ rec ∈ recs, rec.Fits ∧ rec.Recognised ∧
        ∀ ctx, apply rec ctx = (true, step rec ctx)) →
      tail.length < sizeofDeltaRec →
      irtDeltaReplay apply (recs.flatMap IrtDeltaRec.toBytes ++ tail) ctx =
        (recs.length, recs.foldl (fun ctx rec => step rec ctx) ctx) := by
  intro recs
  induction recs with
  | nil =>
      intro tail ctx _ htail
      exact irtDeltaReplay_short htail
  | cons rec recs ih =>
      intro tail ctx hrecs htail
      obtain ⟨hfits, hrec, happly⟩ := hrecs rec (List.mem_cons_self ..)
      rw [List.flatMap_cons, List.append_assoc,
        irtDeltaReplay_cons hfits hrec (happly ctx),
        ih tail _ (fun r hr => hrecs r (List.mem_cons_of_mem _ hr)) htail]
      rfl

end Replay

end InduRtdb.Core
