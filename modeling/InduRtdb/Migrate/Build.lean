/-
  Migrate/Build.lean --- what stands where in a segment that the migration tool builds.

  Source: `build_v2_header` of `tools/irt_migrate/irt_migrate/layout.py` and
  `build_target_segment` of `migrate.py`; `irt_header_crc32_of` and `irt_shm_init` of
  `src/core/irt_shm.c`.

  The header the tool builds is the one the library creates, with no owner; behind it stand
  the regions, each where the header says.
-/
import InduRtdb.Core.HeaderCrc
import InduRtdb.Migrate.Index
import InduRtdb.Migrate.Segment

set_option autoImplicit false

namespace InduRtdb.Migrate

open InduRtdb.Core InduRtdb.Lib

/-! ## The checksum -/

/-- The library's checksum of a header in memory is `zlib.crc32` of the two ranges. -/
theorem headerCrc_eq {raw : Bytes} (h : 72 ≤ raw.length) :
    headerCrc raw = (irtHeaderCrc32Of (decodeHeader raw.mem)).toNat := by
  have hhead : raw.slice 0 16 = readBytes raw.mem 0 16 := by
    rw [Bytes.slice_eq_map (by omega)]
    rfl
  have hlayout : raw.slice 48 72 = readBytes raw.mem 48 24 := by
    rw [Bytes.slice_eq_map (by omega)]
    rfl
  rw [headerCrc, zlibCrc32, irtHeaderCrc32Of_decodeHeader, coveredBytes, hhead, hlayout]

/-! ## Packed fields -/

/-- Numbers packed one after the other are read one by one. -/
theorem readLe_flatMap_le32 : ∀ (values : List Nat), (∀ v ∈ values, v < 2 ^ 32) →
    ∀ i (hi : i < values.length), readLe (Bytes.mem (values.flatMap le32)) (4 * i) 4 =
      values[i] := by
  intro values
  induction values with
  | nil => exact fun _ i hi => absurd hi (Nat.not_lt_zero i)
  | cons v rest ih =>
      intro hvalues i hi
      have hlen : (le32 v).length = 4 := rfl
      rw [List.flatMap_cons]
      cases i with
      | zero =>
          refine Eq.trans ?_ (readLe_le32 (hvalues v List.mem_cons_self))
          apply readLe_congr
          intro b hb
          exact Bytes.mem_append_left (show 4 * 0 + b < (le32 v).length by omega)
      | succ i =>
          refine Eq.trans ?_ (ih (fun w hw => hvalues w (List.mem_cons_of_mem v hw)) i
            (Nat.lt_of_succ_lt_succ hi))
          apply readLe_congr
          intro b hb
          rw [Bytes.mem_append_right (by omega), hlen]
          congr 1
          omega

/-- Numbers packed into bytes: they are read back, and the other bytes stay. -/
structure Packed (raw : Bytes) (o : Nat) (values : List Nat) (raw' : Bytes) : Prop where
  length : raw'.length = raw.length
  field : ∀ i (hi : i < values.length), readLe raw'.mem (o + 4 * i) 4 = values[i]
  mem : ∀ o', o' < o ∨ o + 4 * values.length ≤ o' → raw'.mem o' = raw.mem o'

theorem packU32s_packed (raw : Bytes) (o : Nat) (values : List Nat)
    (hvalues : ∀ v ∈ values, v < 2 ^ 32) (hfits : o + 4 * values.length ≤ raw.length) :
    ∃ raw', packU32s raw o values = .ok raw' ∧ Packed raw o values raw' := by
  have hbegin : o ≤ o + 4 * values.length := Nat.le_add_right _ _
  have hdata : (values.flatMap le32).length = o + 4 * values.length - o := by
    rw [length_flatMap_le32, Nat.add_sub_cancel_left]
  refine ⟨_, if_pos ⟨hvalues, hfits⟩, Bytes.length_store hbegin hfits hdata, ?_, ?_⟩
  · intro i hi
    rw [← readLe_flatMap_le32 values hvalues i hi]
    apply readLe_congr
    intro b hb
    rw [Bytes.mem_store_in hbegin hfits hdata (by omega) (by omega)]
    congr 1
    omega
  · intro o' ho'
    exact Bytes.mem_store_out hbegin hfits hdata ho'

theorem Packed.readLe {raw raw' : Bytes} {o : Nat} {values : List Nat}
    (h : Packed raw o values raw') {o' n : Nat} (ho' : o' + n ≤ o ∨ o + 4 * values.length ≤ o') :
    readLe raw'.mem o' n = readLe raw.mem o' n :=
  readLe_congr n o' o' fun b hb => h.mem _ (by omega)

/-- A slice away from the numbers. -/
theorem Packed.slice {raw raw' : Bytes} {o : Nat} {values : List Nat}
    (h : Packed raw o values raw') {k l : Nat} (hl : l ≤ raw.length)
    (hout : l ≤ o ∨ o + 4 * values.length ≤ k) : raw'.slice k l = raw.slice k l := by
  have hl' : l ≤ raw'.length := by
    rw [h.length]
    exact hl
  apply Bytes.ext_mem
  · rw [Bytes.length_slice hl, Bytes.length_slice hl']
  · intro b hb
    rw [Bytes.length_slice hl] at hb
    rw [Bytes.mem_slice (by omega), Bytes.mem_slice (by omega), h.mem _ (by omega)]

theorem readLe_zeros {k : Nat} : ∀ n o, o + n ≤ k → readLe (Bytes.mem (zeros k)) o n = 0 := by
  intro n
  induction n with
  | zero => exact fun _ _ => rfl
  | succ n ih =>
      intro o ho
      rw [InduRtdb.Core.readLe, ih (o + 1) (by omega), zeros, Bytes.mem_replicate (by omega)]
      rfl

/-! ## The header -/

/-- The offsets of the tool are those of the library as long as they fit. -/
theorem offsets_eq {N : Nat} (hfits : offSubsV2 N < 2 ^ 32) :
    LayoutFits N ∧ N ≤ 2 ^ 30 ∧ layoutBuckets N = irtLayoutBuckets N ∧
      offIndexV2 N = irtLayoutOffIndex N ∧ offMetaV2 N = irtLayoutOffMeta N ∧
        offSubsV2 N = irtLayoutOffSubs N := by
  have hsubs : offSubsV2 N = 128 + 160 * N + 8 * layoutBuckets N := by
    simp only [offSubsV2, offMetaV2, offIndexV2, offPointsV2, layoutMetaSize, layoutIndexSize,
      headerV2Size, pointSize, metaSizePerPoint, indexSlotSize]
    omega
  have hn : N ≤ 2 ^ 30 := by omega
  have hbuckets := layoutBuckets_eq hn
  have hlayout : LayoutFits N := by
    rw [layoutFits_iff, ← hbuckets]
    omega
  refine ⟨hlayout, hn, hbuckets, ?_, ?_, ?_⟩
  · rw [hlayout.offIndex]
    simp only [offIndexV2, offPointsV2, headerV2Size, pointSize]
    omega
  · rw [hlayout.offMeta, ← hbuckets]
    simp only [offMetaV2, offIndexV2, offPointsV2, layoutIndexSize, headerV2Size, pointSize,
      indexSlotSize]
    omega
  · rw [hlayout.offSubs, ← hbuckets]
    omega

/-- **The tool's header is the library's**, with no owner. -/
theorem buildV2Header_eq {N M : Nat} (hM : M < 2 ^ 32) (hfits : offSubsV2 N < 2 ^ 32) :
    ∃ header, buildV2Header N M = .ok header ∧ header.length = headerV2Size ∧
      decodeHeader header.mem = irtShmInitHeader N M 0 := by
  obtain ⟨hlayout, hn, hbuckets, hindex, hmeta, hsubs⟩ := offsets_eq hfits
  have hpoints : offPointsV2 = 128 := rfl
  have hle : offIndexV2 N ≤ offMetaV2 N ∧ offMetaV2 N ≤ offSubsV2 N :=
    ⟨Nat.le_add_right _ _, Nat.le_add_right _ _⟩
  have hzeros : (zeros headerV2Size).length = 128 := List.length_replicate
  have hwords : ∀ a b c d : Nat, a < 2 ^ 32 → b < 2 ^ 32 → c < 2 ^ 32 → d < 2 ^ 32 →
      ∀ v ∈ [a, b, c, d], v < 2 ^ 32 := by
    intro a b c d ha hb hc hd
    simp only [List.forall_mem_cons, List.not_mem_nil, false_implies, implies_true, and_true]
    exact ⟨ha, hb, hc, hd⟩
  obtain ⟨raw₁, hpack₁, hraw₁⟩ := packU32s_packed (zeros headerV2Size) 0
    [magicNumber, shmVersionCurrent, N, M]
    (hwords _ _ _ _ (by decide) (by decide) (by omega) hM)
    (by simp only [hzeros, List.length_cons, List.length_nil]; omega)
  obtain ⟨raw₂, hpack₂, hraw₂⟩ := packU32s_packed raw₁ 48 [0, 0] (by simp)
    (by simp only [hraw₁.length, hzeros, List.length_cons, List.length_nil]; omega)
  obtain ⟨raw₃, hpack₃, hraw₃⟩ := packU32s_packed raw₂ 56
    [offPointsV2, offIndexV2 N, offMetaV2 N, offSubsV2 N]
    (hwords _ _ _ _ (by omega) (by omega) (by omega) hfits)
    (by simp only [hraw₂.length, hraw₁.length, hzeros, List.length_cons, List.length_nil]; omega)
  obtain ⟨raw₄, hpack₄, hraw₄⟩ := packU32s_packed raw₃ 76 [0] (by simp)
    (by simp only [hraw₃.length, hraw₂.length, hraw₁.length, hzeros, List.length_cons,
      List.length_nil]; omega)
  have hlen₄ : raw₄.length = 128 := by
    rw [hraw₄.length, hraw₃.length, hraw₂.length, hraw₁.length, hzeros]
  have hcrc : headerCrc raw₄ < 2 ^ 32 := UInt32.toNat_lt _
  obtain ⟨raw₅, hpack₅, hraw₅⟩ := packU32s_packed raw₄ 44 [headerCrc raw₄] (by simpa using hcrc)
    (by simp only [hlen₄, List.length_cons, List.length_nil]; omega)
  -- each word is read where it was packed, and passes every other packing
  have hmagic : readLe raw₁.mem 0 4 = magicNumber := hraw₁.field 0 (by simp)
  have hversion : readLe raw₁.mem 4 4 = shmVersionCurrent := hraw₁.field 1 (by simp)
  have hmaxPoints : readLe raw₁.mem 8 4 = N := hraw₁.field 2 (by simp)
  have hmaxSubs : readLe raw₁.mem 12 4 = M := hraw₁.field 3 (by simp)
  have hflags : readLe raw₂.mem 48 4 = 0 := hraw₂.field 0 (by simp)
  have hreserved : readLe raw₂.mem 52 4 = 0 := hraw₂.field 1 (by simp)
  have hoffPoints : readLe raw₃.mem 56 4 = offPointsV2 := hraw₃.field 0 (by simp)
  have hoffIndex : readLe raw₃.mem 60 4 = offIndexV2 N := hraw₃.field 1 (by simp)
  have hoffMeta : readLe raw₃.mem 64 4 = offMetaV2 N := hraw₃.field 2 (by simp)
  have hoffSubs : readLe raw₃.mem 68 4 = offSubsV2 N := hraw₃.field 3 (by simp)
  have hskipped : readLe raw₄.mem 76 4 = 0 := hraw₄.field 0 (by simp)
  have hsum : readLe raw₅.mem 44 4 = headerCrc raw₄ := hraw₅.field 0 (by simp)
  have hpass₁ : ∀ o n, 16 ≤ o → readLe raw₁.mem o n = readLe (zeros headerV2Size).mem o n :=
    fun o n ho => hraw₁.readLe (.inr ho)
  have hpass₂ : ∀ o n, o + n ≤ 48 ∨ 56 ≤ o → readLe raw₂.mem o n = readLe raw₁.mem o n :=
    fun o n ho => hraw₂.readLe ho
  have hpass₃ : ∀ o n, o + n ≤ 56 ∨ 72 ≤ o → readLe raw₃.mem o n = readLe raw₂.mem o n :=
    fun o n ho => hraw₃.readLe ho
  have hpass₄ : ∀ o n, o + n ≤ 76 ∨ 80 ≤ o → readLe raw₄.mem o n = readLe raw₃.mem o n :=
    fun o n ho => hraw₄.readLe ho
  have hpass₅ : ∀ o n, o + n ≤ 44 ∨ 48 ≤ o → readLe raw₅.mem o n = readLe raw₄.mem o n :=
    fun o n ho => hraw₅.readLe ho
  have hzero : ∀ o n, o + n ≤ 128 → readLe (zeros headerV2Size).mem o n = 0 :=
    fun o n ho => readLe_zeros n o ho
  have hunsealed : decodeHeader raw₄.mem = { irtShmInitHeader N M 0 with crc32 := 0 } := by
    simp (disch := omega) only [decodeHeader, hpass₄, hpass₃, hpass₂, hpass₁, hzero, hmagic,
      hversion, hmaxPoints, hmaxSubs, hflags, hreserved, hoffPoints, hoffIndex, hoffMeta, hoffSubs,
      hskipped, hindex, hmeta, hsubs]
    rfl
  have hsealed : decodeHeader raw₅.mem =
      { decodeHeader raw₄.mem with crc32 := UInt32.ofNat (headerCrc raw₄) } := by
    simp (disch := omega) only [decodeHeader, hpass₅, hsum]
  refine ⟨raw₅, ?_, hraw₅.length.trans hlen₄, ?_⟩
  · rw [buildV2Header, hpack₁, ok_bind, hpack₂, ok_bind, hpack₃, ok_bind, hpack₄, ok_bind, hpack₅]
  · rw [hsealed, headerCrc_eq (by omega), hunsealed, UInt32.ofNat_toNat]
    rfl

/-! ## The points -/

/-- The bytes of a record that the migration clears. -/
def Cleared (mode : SourceTsMode) (b : Nat) : Prop :=
  partitionOffset ≤ b ∧ b < partitionOffset + 4 ∨
    mode = .zero ∧ sourceTsOffset ≤ b ∧ b < sourceTsOffset + 8

/-- The record of a migrated point. -/
def migratedPoint (mode : SourceTsMode) (p : IndurtdbPoint) : IndurtdbPoint :=
  { p with
    partition := 0
    sourceTimestampNs := match mode with
      | .zero => 0
      | .keep => p.sourceTimestampNs }

/-- A byte that is cleared, or stays. -/
structure Rewritten (mode : SourceTsMode) (rewritten : Nat → Prop) (points points' : Bytes) :
    Prop where
  length : points'.length = points.length
  cleared : ∀ id b, b < pointSize → rewritten id → Cleared mode b →
    points'.mem (pointSize * id + b) = 0
  kept : ∀ id b, b < pointSize → ¬ (rewritten id ∧ Cleared mode b) →
    points'.mem (pointSize * id + b) = points.mem (pointSize * id + b)

theorem mem_zeros (k o : Nat) : (zeros k).mem o = 0 := by
  rcases Nat.lt_or_ge o k with hlt | hge
  · exact Bytes.mem_replicate hlt
  · apply Bytes.mem_of_le
    rw [zeros, List.length_replicate]
    exact hge

/-- Clearing a range of bytes. -/
theorem mem_store_zeros {bs : Bytes} {i k : Nat} (hfits : i + k ≤ bs.length) (o : Nat) :
    (bs.store i (i + k) (zeros k)).mem o = if i ≤ o ∧ o < i + k then 0 else bs.mem o := by
  have hlen : (zeros k).length = i + k - i := by
    rw [Nat.add_sub_cancel_left, zeros, List.length_replicate]
  split
  next hin =>
    rw [Bytes.mem_store_in (Nat.le_add_right i k) hfits hlen hin.1 hin.2, mem_zeros]
  next hout =>
    exact Bytes.mem_store_out (Nat.le_add_right i k) hfits hlen (by omega)

theorem length_store_zeros {bs : Bytes} {i k : Nat} (hfits : i + k ≤ bs.length) :
    (bs.store i (i + k) (zeros k)).length = bs.length := by
  apply Bytes.length_store (Nat.le_add_right i k) hfits
  rw [Nat.add_sub_cancel_left, zeros, List.length_replicate]

theorem rewritePoint_rewritten {n pid : Nat} {points : Bytes} (mode : SourceTsMode)
    (hlen : points.length = n * pointSize) (hpid : pid < n) :
    Rewritten mode (fun id => id = pid) points (rewritePoint mode points pid) := by
  have hfits : pid * 128 + 128 ≤ points.length := by
    simp only [hlen, pointSize]
    omega
  have hpartition : pid * 128 + 120 + 4 ≤ points.length := by omega
  have hsource : pid * 128 + 112 + 8 ≤
      (points.store (pid * 128 + 120) (pid * 128 + 120 + 4) (zeros 4)).length := by
    rw [length_store_zeros hpartition]
    omega
  cases mode with
  | zero =>
      have hbyte : ∀ o, (rewritePoint .zero points pid).mem o =
          if pid * 128 + 112 ≤ o ∧ o < pid * 128 + 112 + 8 then 0
          else if pid * 128 + 120 ≤ o ∧ o < pid * 128 + 120 + 4 then 0 else points.mem o := by
        intro o
        refine (mem_store_zeros hsource o).trans ?_
        rw [mem_store_zeros hpartition]
      refine ⟨(length_store_zeros hsource).trans (length_store_zeros hpartition), ?_, ?_⟩
      · intro id b hb hid hcleared
        simp only [Cleared, partitionOffset, sourceTsOffset, pointSize, true_and] at hcleared hb ⊢
        rw [hbyte]
        split
        · rfl
        · rw [if_pos (by omega)]
      · intro id b hb hkept
        simp only [Cleared, partitionOffset, sourceTsOffset, pointSize, true_and] at hkept hb ⊢
        rw [hbyte, if_neg (by omega), if_neg (by omega)]
  | keep =>
      have hbyte : ∀ o, (rewritePoint .keep points pid).mem o =
          if pid * 128 + 120 ≤ o ∧ o < pid * 128 + 120 + 4 then 0 else points.mem o :=
        mem_store_zeros hpartition
      refine ⟨length_store_zeros hpartition, ?_, ?_⟩
      · intro id b hb hid hcleared
        simp only [Cleared, partitionOffset, pointSize, reduceCtorEq, false_and, or_false]
          at hcleared hb ⊢
        rw [hbyte, if_pos (by omega)]
      · intro id b hb hkept
        simp only [Cleared, partitionOffset, pointSize, reduceCtorEq, false_and, or_false]
          at hkept hb ⊢
        rw [hbyte, if_neg (by omega)]

/-- The loop over the points rewrites the first `k`. -/
theorem rewritePoints_rewritten {n : Nat} {points : Bytes} (mode : SourceTsMode)
    (hlen : points.length = n * pointSize) : ∀ k, k ≤ n →
    Rewritten mode (fun id => id < k) points
      ((List.range k).foldl (rewritePoint mode) points) := by
  intro k
  induction k with
  | zero =>
      intro _
      exact ⟨rfl, fun _ _ _ hid => absurd hid (Nat.not_lt_zero _), fun _ _ _ _ => rfl⟩
  | succ k ih =>
      intro hk
      have hrun := ih (by omega)
      have hstep := rewritePoint_rewritten mode (hrun.length.trans hlen) hk
      rw [List.range_succ, List.foldl_append, List.foldl_cons, List.foldl_nil]
      refine ⟨hstep.length.trans hrun.length, ?_, ?_⟩
      · intro id b hb hid hcleared
        rcases Nat.lt_succ_iff_lt_or_eq.mp hid with hlt | heq
        · rw [hstep.kept id b hb fun hboth => Nat.ne_of_lt hlt hboth.1]
          exact hrun.cleared id b hb hlt hcleared
        · exact hstep.cleared id b hb heq hcleared
      · intro id b hb hkept
        rw [hstep.kept id b hb fun hboth => hkept ⟨hboth.1 ▸ Nat.lt_succ_self k, hboth.2⟩]
        exact hrun.kept id b hb fun hboth => hkept ⟨Nat.lt_succ_of_lt hboth.1, hboth.2⟩

/-- A field whose bytes are cleared. -/
theorem readLe_cleared {mem : Nat → UInt8} {n o : Nat} (h : ∀ b, b < n → mem (o + b) = 0) :
    readLe mem o n = 0 := by
  have hbytes : ∀ b, b < n → mem (o + b) = Bytes.mem (zeros n) (0 + b) := by
    intro b hb
    rw [h b hb, mem_zeros]
  rw [readLe_congr n o 0 hbytes]
  exact readLe_zeros n 0 (by omega)

/-- Every field of a record but those cleared is kept. -/
theorem Rewritten.record {mode : SourceTsMode} {rewritten : Nat → Prop} {points points' : Bytes}
    (h : Rewritten mode rewritten points points') {id : Nat} (hid : rewritten id) :
    decodePoint points'.mem (sizeofPoint * id) =
      migratedPoint mode (decodePoint points.mem (sizeofPoint * id)) := by
  have hkept : ∀ b, b < 112 → points'.mem (sizeofPoint * id + b) =
      points.mem (sizeofPoint * id + b) := by
    intro b hb
    apply h.kept id b (by simp only [pointSize]; omega)
    simp only [Cleared, partitionOffset, sourceTsOffset]
    omega
  have hfield : ∀ k n, k + n ≤ 112 → ∀ b, b < n →
      points'.mem (sizeofPoint * id + k + b) = points.mem (sizeofPoint * id + k + b) := by
    intro k n hkn b hb
    rw [Nat.add_assoc]
    exact hkept (k + b) (by omega)
  have hpartition : readLe points'.mem (sizeofPoint * id + 120) 4 = 0 := by
    apply readLe_cleared
    intro b hb
    rw [Nat.add_assoc]
    apply h.cleared id (120 + b) (by simp only [pointSize]; omega) hid
    simp only [Cleared, partitionOffset]
    omega
  have hsource : readLe points'.mem (sizeofPoint * id + 112) 8 =
      match mode with
      | .zero => 0
      | .keep => readLe points.mem (sizeofPoint * id + 112) 8 := by
    cases mode with
    | zero =>
        apply readLe_cleared
        intro b hb
        rw [Nat.add_assoc]
        apply h.cleared id (112 + b) (by simp only [pointSize]; omega) hid
        simp only [Cleared, sourceTsOffset, true_and]
        omega
    | keep =>
        apply readLe_congr
        intro b hb
        rw [Nat.add_assoc]
        apply h.kept id (112 + b) (by simp only [pointSize]; omega)
        simp only [Cleared, partitionOffset, reduceCtorEq, false_and, or_false]
        omega
  rw [decodePoint, decodePoint, hpartition, hsource,
    readBytes_congr fun b hb => hkept b (Nat.lt_trans hb (by decide)),
    readLe_congr 8 _ _ (hfield 32 8 (by decide)), hkept 40 (by decide), hkept 41 (by decide),
    readLe_congr 2 _ _ (hfield 42 2 (by decide)), hkept 44 (by decide),
    readBytes_congr (hfield 45 64 (by decide))]
  cases mode with
  | zero => rfl
  | keep => rfl

/-! ## The segment -/

/-- The points that the tool stores. -/
def targetPoints (src : Source) (mode : SourceTsMode) : Bytes :=
  (List.range src.maxPoints).foldl (rewritePoint mode) src.points

/-- A header is read from its bytes, the count of the index apart. -/
theorem decodeHeader_of_count {mem mem' : Nat → UInt8} {count : Nat}
    (hbytes : ∀ o, o < 128 → o < 72 ∨ 76 ≤ o → mem o = mem' o)
    (hcount : readLe mem 72 4 = count) :
    decodeHeader mem = { decodeHeader mem' with indexCount := count } := by
  have hfield : ∀ o n, o + n ≤ 128 → o + n ≤ 72 ∨ 76 ≤ o → readLe mem o n = readLe mem' o n := by
    intro o n hend hout
    apply readLe_congr
    intro b hb
    exact hbytes (o + b) (by omega) (by omega)
  simp (disch := omega) only [decodeHeader, hfield, hcount]

/-- A region of `k` bytes is stored, and nothing else changes. -/
structure Placed (raw : Bytes) (o k : Nat) (data raw' : Bytes) : Prop where
  length : raw'.length = raw.length
  slice : raw'.slice o (o + k) = data
  mem : ∀ o', o' < o ∨ o + k ≤ o' → raw'.mem o' = raw.mem o'
  other : ∀ {i j : Nat}, j ≤ raw.length → j ≤ o ∨ o + k ≤ i → raw'.slice i j = raw.slice i j

theorem store_placed (raw : Bytes) (o : Nat) {data : Bytes} {k : Nat} (hfits : o + k ≤ raw.length)
    (hdata : data.length = k) :
    ∃ raw', raw.store o (o + k) data = raw' ∧ Placed raw o k data raw' := by
  have hbegin : o ≤ o + k := Nat.le_add_right o k
  have hlen : data.length = o + k - o := by omega
  exact ⟨_, rfl, Bytes.length_store hbegin hfits hlen, Bytes.slice_store hbegin hfits hlen,
    fun _ => Bytes.mem_store_out hbegin hfits hlen,
    Bytes.slice_store_out hbegin hfits hlen⟩

/-- What stands where in the bytes of a target segment. -/
structure TargetBytes (src : Source) (mode : SourceTsMode) (slots : Bytes) (count : Nat)
    (raw : Bytes) : Prop where
  length : raw.length = totalSizeV2 src.maxPoints src.maxSubscribers
  header : decodeHeader raw.mem =
    { irtShmInitHeader src.maxPoints src.maxSubscribers 0 with indexCount := count }
  points : raw.slice offPointsV2 (offPointsV2 + src.maxPoints * pointSize) = targetPoints src mode
  index : raw.slice (offIndexV2 src.maxPoints)
    (offIndexV2 src.maxPoints + layoutIndexSize src.maxPoints) = slots
  metadata : ∀ area, src.metadata = some area →
    raw.slice (offMetaV2 src.maxPoints)
      (offMetaV2 src.maxPoints + layoutMetaSize src.maxPoints) = area

/-- The metadata region is filled last. -/
theorem carryMeta_placed (raw : Bytes) {n : Nat} {metadata : Option Bytes} (hn : 0 < n)
    (hmeta : ∀ area, metadata = some area → area.length = layoutMetaSize n)
    (hfits : offMetaV2 n + layoutMetaSize n ≤ raw.length) :
    ∃ raw', carryMeta raw n metadata = .ok raw' ∧
      Placed raw (offMetaV2 n) (layoutMetaSize n)
        (metadata.getD (raw.slice (offMetaV2 n) (offMetaV2 n + layoutMetaSize n))) raw' := by
  cases metadata with
  | none => exact ⟨raw, rfl, rfl, rfl, fun _ _ => rfl, fun _ _ => rfl⟩
  | some area =>
      have hlen := hmeta area rfl
      have hnonempty : ¬ area.isEmpty = true := by
        intro hempty
        rw [List.isEmpty_iff.mp hempty] at hlen
        simp only [List.length_nil, layoutMetaSize, metaSizePerPoint] at hlen
        omega
      obtain ⟨raw', hstore, hplaced⟩ := store_placed raw (offMetaV2 n) hfits hlen
      refine ⟨raw', ?_, hplaced⟩
      rw [carryMeta, if_neg hnonempty, if_neg (not_not.mpr hlen), hstore]

/-- **What `build_target_segment` builds**, once it has the index. -/
theorem buildTargetSegment_eq {src : Source} {mode : SourceTsMode} {slots : Bytes} {count : Nat}
    (hM : src.maxSubscribers < 2 ^ 32) (hfits : offSubsV2 src.maxPoints < 2 ^ 32)
    (hN : 0 < src.maxPoints) (hpoints : src.points.length = src.maxPoints * pointSize)
    (hmeta : ∀ area, src.metadata = some area → area.length = layoutMetaSize src.maxPoints)
    (hbuild : buildIndex (targetPoints src mode) src.maxPoints (layoutBuckets src.maxPoints) =
      .ok (slots, count))
    (hslots : slots.length = layoutIndexSize src.maxPoints) (hcount : count < 2 ^ 32) :
    ∃ raw, buildTargetSegment src mode = .ok raw ∧ TargetBytes src mode slots count raw := by
  obtain ⟨header, hheader, hheaderLen, hdecode⟩ := buildV2Header_eq hM hfits
  have htarget : (targetPoints src mode).length = src.maxPoints * pointSize :=
    (rewritePoints_rewritten mode hpoints _ le_rfl).length.trans hpoints
  -- the regions follow one another
  have hindexOff : offIndexV2 src.maxPoints = 128 + src.maxPoints * pointSize := rfl
  have hmetaOff : offMetaV2 src.maxPoints =
      offIndexV2 src.maxPoints + layoutIndexSize src.maxPoints := rfl
  have hsubsOff : offSubsV2 src.maxPoints =
      offMetaV2 src.maxPoints + layoutMetaSize src.maxPoints := rfl
  have htotal : offSubsV2 src.maxPoints ≤ totalSizeV2 src.maxPoints src.maxSubscribers :=
    Nat.le_add_right _ _
  have hlen₀ : (zeros (totalSizeV2 src.maxPoints src.maxSubscribers)).length =
      totalSizeV2 src.maxPoints src.maxSubscribers := List.length_replicate
  obtain ⟨raw₁, hstore₁, hraw₁⟩ := store_placed
    (zeros (totalSizeV2 src.maxPoints src.maxSubscribers)) 0
    (by simp only [headerV2Size]; omega) hheaderLen
  have hlen₁ := hraw₁.length.trans hlen₀
  obtain ⟨raw₂, hstore₂, hraw₂⟩ := store_placed raw₁ offPointsV2
    (by simp only [offPointsV2, headerV2Size]; omega) htarget
  have hlen₂ := hraw₂.length.trans hlen₁
  obtain ⟨raw₃, hstore₃, hraw₃⟩ := store_placed raw₂ (offIndexV2 src.maxPoints)
    (by omega) hslots
  have hlen₃ := hraw₃.length.trans hlen₂
  obtain ⟨raw₄, hpack, hraw₄⟩ := packU32s_packed raw₃ 72 [count] (by simpa using hcount)
    (by simp only [List.length_cons, List.length_nil]; omega)
  have hlen₄ := hraw₄.length.trans hlen₃
  obtain ⟨raw₅, hcarry, hraw₅⟩ := carryMeta_placed raw₄ hN hmeta (by omega)
  have hbuilt : buildTargetSegment src mode = .ok raw₅ := by
    have hpoints' : ¬ src.points.length ≠ src.maxPoints * pointSize := not_not.mpr hpoints
    rw [Nat.zero_add] at hstore₁
    simp only [buildTargetSegment, hheader, ok_bind, if_neg hpoints', hstore₁]
    rw [targetPoints] at hstore₂ hbuild
    rw [hstore₂, hbuild, ok_bind]
    dsimp only
    rw [hslots, hstore₃, hpack, ok_bind, hcarry]
  refine ⟨raw₅, hbuilt, hraw₅.length.trans hlen₄, ?_, ?_, ?_, ?_⟩
  · have hmem : ∀ o, o < 128 → raw₅.mem o = raw₄.mem o :=
      fun o ho => hraw₅.mem o (.inl (by omega))
    have hkept : ∀ o, o < 128 → o < 72 ∨ 76 ≤ o → raw₅.mem o = header.mem o := by
      intro o ho hout
      have hstored : header.mem o = raw₁.mem (0 + o) := by
        rw [← hraw₁.slice]
        exact Bytes.mem_slice (by simp only [headerV2Size]; omega)
      rw [hmem o ho, hraw₄.mem o (by simpa using hout), hraw₃.mem o (.inl (by omega)),
        hraw₂.mem o (.inl ho), hstored, Nat.zero_add]
    have hcounted : readLe raw₅.mem 72 4 = count := by
      rw [readLe_congr 4 72 72 fun b hb => hmem (72 + b) (by omega)]
      exact hraw₄.field 0 (by simp)
    rw [decodeHeader_of_count hkept hcounted, hdecode]
  · have hend : offPointsV2 + src.maxPoints * pointSize = offIndexV2 src.maxPoints := rfl
    rw [hraw₅.other (by omega) (.inl (by omega)),
      hraw₄.slice (by omega) (.inr (by simp [offPointsV2, headerV2Size])),
      hraw₃.other (by omega) (.inl (by omega)), hraw₂.slice]
  · have hbehind : 72 + 4 * [count].length ≤ offIndexV2 src.maxPoints := by
      simp only [List.length_cons, List.length_nil]
      omega
    rw [hraw₅.other (by omega) (.inl (by omega)), hraw₄.slice (by omega) (.inr hbehind),
      hraw₃.slice]
  · intro area harea
    rw [hraw₅.slice, harea, Option.getD_some]

end InduRtdb.Migrate
