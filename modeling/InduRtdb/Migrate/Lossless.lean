/-
  Migrate/Lossless.lean --- a migrated segment holds what the source held, and the library
  opens it.

  Source: `build_target_segment` of `tools/irt_migrate/irt_migrate/migrate.py`, `validate` of
  `validate.py`; `irt_shm_init` of `src/core/irt_shm.c` and `irt_index_lookup` of
  `src/core/irt_index.c`.

  That the index finds every point is proved of the library's own table, which the tool's
  bytes hold (`Migrate/Index`), and is read back on either side.
-/
import InduRtdb.Core.IndexInv
import InduRtdb.Migrate.Build

set_option autoImplicit false

namespace InduRtdb.Migrate

open InduRtdb.Core InduRtdb.Lib

/-! ## Every named point is found -/

/-- No two points carry the same key. -/
def KeysDistinct (n : Nat) (table : Nat → IndurtdbPoint) : Prop :=
  ∀ i j, i < n → j < n → (table i).name ≠ CStr.empty →
    (table j).HasKey (table i).partition (table i).name → j = i

/-- An index of the first `k` points. -/
structure Rebuilding (s : IrtShm) (table : Nat → IndurtdbPoint) (k : Nat) (seg : Segment) :
    Prop where
  covers : IndexCovers s.maxPoints (fun id => k ≤ id) seg
  done : ∀ i, i < irtLayoutBuckets s.maxPoints → (seg.slots i).Live → (seg.slots i).pointId < k
  distinct : ∀ i j, i < irtLayoutBuckets s.maxPoints → j < irtLayoutBuckets s.maxPoints →
    (seg.slots i).Live → (seg.slots j).Live → (seg.slots i).pointId = (seg.slots j).pointId → i = j
  points : seg.points = table

section Rebuild

variable {s : IrtShm} {table : Nat → IndurtdbPoint} {k : Nat} {seg : Segment}
  (hn : s.maxPoints ≤ 2 ^ 30) (hkeys : KeysDistinct s.maxPoints table)
include hn hkeys

/-- One point enters the index, or has no name. -/
theorem Rebuilding.step (h : Rebuilding s table k seg) (hk : k < s.maxPoints) :
    Rebuilding s table (k + 1) (indexNamed s seg k) := by
  have hfits : s.maxPoints < irtIndexTombstone := by
    simp only [irtIndexTombstone]
    omega
  rcases Decidable.em ((seg.points k).name.isEmpty = true) with hempty | hnamed
  · rw [indexNamed, if_pos hempty]
    refine ⟨⟨h.covers.offIndex, h.covers.offPoints, h.covers.names, h.covers.below, ?_⟩,
      fun i hi hlive => Nat.lt_succ_of_lt (h.done i hi hlive), h.distinct, h.points⟩
    intro id hid hvisible hname
    have hne : id ≠ k := by
      rintro rfl
      exact hname (CStr.isEmpty_iff.mp hempty)
    apply h.covers.slotted id hid _ hname
    omega
  · have hname : (seg.points k).name ≠ CStr.empty := fun heq => hnamed (CStr.isEmpty_iff.mpr heq)
    have hsame := withPartition_self seg k
    rw [indexNamed, if_neg hnamed]
    rcases irtIndexInsertLocked_cases (seg.points k).partition k h.covers.offIndex
        h.covers.offPoints h.covers.names hname (h.covers.names k hk) h.covers.below hk with
      ⟨i, -, hreach, -, hlive, hlt, hkey⟩ | ⟨i, hinsert, hreach, hfree⟩ | ⟨-, hall⟩
    · -- an entry of the key would name a point before this one
      rw [hsame] at hkey
      have hdone := h.done i hreach.lt hlive
      rw [h.points] at hkey hname
      exact absurd (hkeys k _ hk hlt hname hkey) (Nat.ne_of_lt hdone)
    · have hsnd := congrArg Prod.snd hinsert
      generalize (irtIndexInsertLocked s seg (seg.points k).partition (seg.points k).name k).2 =
        seg' at hsnd ⊢
      rw [hsame] at hsnd
      have hpoints : seg'.points = seg.points := by
        rw [hsnd]
        rfl
      have hslots : seg'.slots = Function.update seg.slots i ⟨(seg.points k).keyHash, k⟩ := by
        rw [hsnd]
        rfl
      have hcovers := h.covers.assign hfits hk (h.covers.names k hk) hreach
        (fun hlive => absurd hlive hfree) (by rw [hsnd]; rfl) (by rw [hsnd]; rfl)
        (by rw [hpoints, Function.update_eq_self]) hslots
      -- a live entry is the new one, or an old one of a point before
      have hcases : ∀ j, j < irtLayoutBuckets s.maxPoints → (seg'.slots j).Live →
          (j = i ∧ (seg'.slots j).pointId = k) ∨
          ((seg.slots j).Live ∧ seg'.slots j = seg.slots j ∧ (seg.slots j).pointId < k) := by
        intro j hj hlive
        rw [hslots] at hlive ⊢
        rcases eq_or_ne j i with rfl | hne
        · rw [Function.update_self]
          exact .inl ⟨rfl, rfl⟩
        · rw [Function.update_of_ne hne] at hlive ⊢
          exact .inr ⟨hlive, rfl, h.done j hj hlive⟩
      refine ⟨hcovers.mono fun id hid => by omega, ?_, ?_, hpoints.trans h.points⟩
      · intro j hj hlive
        rcases hcases j hj hlive with ⟨-, heq⟩ | ⟨-, heq, hlt⟩
        · omega
        · rw [heq]
          omega
      · intro j l hj hl hlivej hlivel hpid
        rcases hcases j hj hlivej with ⟨rfl, heqj⟩ | ⟨holdj, heqj, hltj⟩
        · rcases hcases l hl hlivel with ⟨rfl, -⟩ | ⟨-, heql, hltl⟩
          · rfl
          · rw [heqj, heql] at hpid
            omega
        · rcases hcases l hl hlivel with ⟨rfl, heql⟩ | ⟨holdl, heql, hltl⟩
          · rw [heqj, heql] at hpid
            omega
          · rw [heqj, heql] at hpid
            exact h.distinct j l hj hl holdj holdl hpid
    · -- there is always room
      obtain ⟨i, hi, hfree⟩ := h.covers.below.room h.distinct (two_mul_le_irtLayoutBuckets hn)
      exact absurd (hall i hi).1 hfree

/-- The index of all points. -/
theorem Rebuilding.run (h : Rebuilding s table 0 seg) :
    ∀ k, k ≤ s.maxPoints → Rebuilding s table k ((List.range k).foldl (indexNamed s) seg) := by
  intro k
  induction k with
  | zero => exact fun _ => h
  | succ k ih =>
      intro hk
      rw [List.range_succ, List.foldl_append]
      exact (ih (by omega)).step hn hkeys hk

end Rebuild

/-- **A rebuilt index is complete**: every named point is found under its key. -/
theorem irtIndexRebuild_finds {s : IrtShm} {seg : Segment} {id : Nat} (hn : s.maxPoints ≤ 2 ^ 30)
    (hix : seg.hdr.offIndex ≠ 0) (hpts : seg.hdr.offPoints ≠ 0)
    (hnames : NamesFit s.maxPoints seg.points) (hkeys : KeysDistinct s.maxPoints seg.points)
    (hid : id < s.maxPoints) (hname : (seg.points id).name ≠ CStr.empty) :
    irtIndexProbe (indexView s.maxPoints) (irtIndexRebuild s seg) (seg.points id).partition
      (seg.points id).name = .ok id := by
  have hfits : s.maxPoints < irtIndexTombstone := by
    simp only [irtIndexTombstone]
    omega
  have hcleared := irtIndexClear_eq (s := s) hix
  have hdead : ∀ i, i < irtLayoutBuckets s.maxPoints → ¬ ((irtIndexClear s seg).slots i).Live := by
    intro i hi hlive
    rw [hcleared] at hlive
    exact hlive.1 (congrArg IrtIndexSlot.pointId (if_pos hi))
  have hstart : Rebuilding s seg.points 0 (irtIndexClear s seg) := by
    refine ⟨⟨?_, ?_, ?_, fun i hi hlive => absurd hlive (hdead i hi), ?_⟩,
      fun i hi hlive => absurd hlive (hdead i hi), fun i _ hi _ hlive => absurd hlive (hdead i hi),
      ?_⟩
    · rw [hcleared]
      exact hix
    · rw [hcleared]
      exact hpts
    · rw [hcleared]
      exact hnames
    · exact fun id _ hvisible => absurd (Nat.zero_le id) hvisible
    · rw [hcleared]
  have hdone := hstart.run hn hkeys s.maxPoints le_rfl
  rw [irtIndexRebuild]
  generalize (List.range s.maxPoints).foldl (indexNamed s) (irtIndexClear s seg) = built at hdone ⊢
  have hcovers := hdone.covers
  have hfit := hcovers.names id hid
  rw [← hdone.points] at hname hkeys ⊢
  have hslotted := hcovers.slotted id hid (Nat.not_le_of_lt hid) hname
  obtain ⟨i, hloop⟩ := probeLoop_isSome hcovers.names hfit hfits hid hslotted ⟨rfl, rfl⟩
  rw [IndurtdbPoint.keyHash] at hloop
  obtain ⟨-, -, -, hlt, hkey⟩ := probeLoop_some hcovers.names hfit hcovers.below hloop
  rw [irtIndexProbe, hloop]
  exact congrArg Except.ok (hkeys id _ hid hlt hname hkey)

/-! ## Reading a source -/

theorem exists_of_bind {α β : Type} {x : Except Raised α} {f : α → Except Raised β} {b : β}
    (h : (x >>= f) = .ok b) : ∃ a, x = .ok a ∧ f a = .ok b := by
  cases x with
  | error raised => cases h
  | ok a => exact ⟨a, rfl, h⟩

/-- A mapping holds the first bytes of the file. -/
theorem mapSegment_eq {file : Bytes} {k total : Nat} (hk : k ≤ total)
    (hlen : total ≤ file.length) :
    mapSegment file (file.slice 0 k) total = .ok (file.slice 0 total) := by
  have hhead : file.slice 0 k = file.take k := rfl
  have hheadLen : (file.take k).length = k := by
    rw [List.length_take]
    omega
  have hjoin : file.take k ++ (file.take total).drop k = file.take total := by
    rw [← List.take_append_drop k (file.take total), List.take_take, Nat.min_eq_left hk,
      List.drop_append_of_le_length hheadLen.ge, List.drop_of_length_le hheadLen.le,
      List.nil_append]
  rw [mapSegment, if_neg (Nat.not_lt_of_le hlen), hhead, hheadLen]
  exact congrArg Except.ok hjoin

theorem mapSegment_ok {file data : Bytes} {k total : Nat} (hk : k ≤ total)
    (h : mapSegment file (file.slice 0 k) total = .ok data) : data.length = total := by
  rcases Nat.lt_or_ge file.length total with hshort | hlen
  · rw [mapSegment, if_pos hshort] at h
    cases h
  · rw [mapSegment_eq hk hlen] at h
    cases h
    rw [Bytes.length_slice hlen, Nat.sub_zero]

theorem parseV1Header_ok {raw : Bytes} {hdr : V1Header} (h : parseV1Header raw = .ok hdr) :
    hdr.version = shmVersionV1 ∧ 0 < hdr.maxPoints ∧ hdr.maxSubscribers < 2 ^ 32 := by
  unfold parseV1Header at h
  split at h
  · cases h
  · dsimp only at h
    split at h
    · cases h
    split at h
    · cases h
    next hversion =>
    split at h
    · cases h
    next hpoints =>
    cases h
    exact ⟨not_not.mp hversion, Nat.pos_of_ne_zero hpoints, readLe_lt _ 4 12⟩

theorem parseV2Header_ok {raw : Bytes} {hdr : IrtHeader} (h : parseV2Header raw none = .ok hdr) :
    0 < hdr.maxPoints ∧ hdr.maxSubscribers < 2 ^ 32 := by
  unfold parseV2Header at h
  split at h
  · cases h
  · dsimp only at h
    split at h
    · cases h
    rw [Option.filter_none] at h
    dsimp only at h
    split at h
    · cases h
    next hpoints =>
    cases h
    exact ⟨Nat.pos_of_ne_zero hpoints, readLe_lt _ 4 12⟩

/-- What every source segment that is read has, and what its version says of it. -/
structure SourceOk (src : Source) : Prop where
  maxPoints : 0 < src.maxPoints
  maxSubscribers : src.maxSubscribers < 2 ^ 32
  version : src.version = shmVersionV1 ∧ src.points.length = src.maxPoints * pointSize ∧
      src.metadata = none ∨
    src.version = shmVersionV2 ∧ ∃ area, src.metadata = some area

theorem readSourceSegment_ok {file : Bytes} {src : Source} (h : readSourceSegment file = .ok src) :
    SourceOk src := by
  obtain ⟨version, -, h⟩ := exists_of_bind h
  split at h
  · obtain ⟨hdr, hparse, h⟩ := exists_of_bind h
    obtain ⟨data, hmap, h⟩ := exists_of_bind h
    cases h
    obtain ⟨hversion, hpoints, hsubs⟩ := parseV1Header_ok hparse
    have hregion : headerV1Size + hdr.maxPoints * pointSize ≤
        totalSizeV1 hdr.maxPoints hdr.maxSubscribers := Nat.le_add_right _ _
    have hlen := mapSegment_ok (Nat.le_trans (Nat.le_add_right _ _) hregion) hmap
    refine ⟨hpoints, hsubs, .inl ⟨hversion, ?_, rfl⟩⟩
    dsimp only
    rw [Bytes.length_slice (by rw [hlen]; exact hregion), Nat.add_sub_cancel_left]
  · split at h
    · obtain ⟨hdr, hparse, h⟩ := exists_of_bind h
      split at h
      · cases h
      next hversion =>
      split at h
      · cases h
      dsimp only at h
      split at h
      · cases h
      obtain ⟨data, -, h⟩ := exists_of_bind h
      cases h
      obtain ⟨hpoints, hsubs⟩ := parseV2Header_ok hparse
      exact ⟨hpoints, hsubs, .inr ⟨not_not.mp hversion, _, rfl⟩⟩
    · cases h

/-! ## The points and the index of a target -/

/-- Every name ends inside its field, and no two points have the same one. -/
structure NamesDistinct (src : Source) : Prop where
  fit : ∀ id, id < src.maxPoints → (readPointName src.points id).length ≤ nameMax
  distinct : ∀ i j, i < src.maxPoints → j < src.maxPoints → readPointName src.points i ≠ [] →
    readPointName src.points j = readPointName src.points i → j = i

/-- The two regions that are carried over lie inside the segment.  A segment of version 2 says
itself where they are; one whose slices come out short is refused by `build_target_segment`,
an empty slice for the metadata by `validate` only. -/
structure RegionsInside (src : Source) : Prop where
  points : src.points.length = src.maxPoints * pointSize
  metadata : ∀ area, src.metadata = some area → area.length = layoutMetaSize src.maxPoints

/-- The records of a point table. -/
def recordsOf (points : Bytes) (id : Nat) : IndurtdbPoint :=
  decodePoint points.mem (sizeofPoint * id)

section Target

variable {src : Source} (mode : SourceTsMode) (hinside : RegionsInside src)
include hinside

theorem recordsOf_held : PointsHeld src.maxPoints src.points (recordsOf src.points) :=
  ⟨hinside.points, fun _ _ => rfl⟩

theorem targetPoints_rewritten :
    Rewritten mode (fun id => id < src.maxPoints) src.points (targetPoints src mode) :=
  rewritePoints_rewritten mode hinside.points src.maxPoints le_rfl

theorem targetPoints_held :
    PointsHeld src.maxPoints (targetPoints src mode) (recordsOf (targetPoints src mode)) :=
  ⟨(targetPoints_rewritten mode hinside).length.trans hinside.points, fun _ _ => rfl⟩

/-- A record of the target is the migrated one. -/
theorem targetPoints_record {id : Nat} (hid : id < src.maxPoints) :
    recordsOf (targetPoints src mode) id = migratedPoint mode (recordsOf src.points id) :=
  (targetPoints_rewritten mode hinside).record hid

/-- The tool reads the name in the record. -/
theorem targetPoints_name {id : Nat} (hid : id < src.maxPoints) :
    (recordsOf (targetPoints src mode) id).name.bytes = readPointName src.points id := by
  rw [targetPoints_record mode hinside hid, (recordsOf_held hinside).name hid]
  rfl

variable (hnames : NamesDistinct src)
include hnames

theorem targetPoints_fit : NamesFit src.maxPoints (recordsOf (targetPoints src mode)) := by
  intro id hid
  rw [targetPoints_name mode hinside hid]
  exact hnames.fit id hid

theorem targetPoints_keys :
    KeysDistinct src.maxPoints (recordsOf (targetPoints src mode)) := by
  intro i j hi hj hname hkey
  have hsame : readPointName src.points j = readPointName src.points i := by
    rw [← targetPoints_name mode hinside hj,
      ← targetPoints_name mode hinside hi, hkey.2]
  apply hnames.distinct i j hi hj _ hsame
  rw [← targetPoints_name mode hinside hi]
  exact fun hempty => hname (CStr.ext_bytes hempty)

end Target

/-- The index that the tool builds: it has every named point under partition 0. -/
structure TargetIndex (src : Source) (mode : SourceTsMode) (slots : Bytes) (count : Nat) :
    Prop where
  built : buildIndex (targetPoints src mode) src.maxPoints (layoutBuckets src.maxPoints) =
    .ok (slots, count)
  length : slots.length = layoutIndexSize src.maxPoints
  counted : count ≤ src.maxPoints
  below : EntriesBelow src.maxPoints (slotAt slots)
  finds : ∀ id (name : CStr), id < src.maxPoints → name ≠ CStr.empty →
    readPointName src.points id = name.bytes →
      indexProbe slots (layoutBuckets src.maxPoints) (targetPoints src mode) name.bytes 0 =
        .ok (some id)

theorem targetIndex {src : Source} (mode : SourceTsMode) (hinside : RegionsInside src)
    (hnames : NamesDistinct src) (hfits : offSubsV2 src.maxPoints < 2 ^ 32) :
    ∃ slots count, TargetIndex src mode slots count := by
  obtain ⟨hlayout, hn, hbuckets, -⟩ := offsets_eq hfits
  have hheld := targetPoints_held mode hinside
  have hfit := targetPoints_fit mode hinside hnames
  have hkeys := targetPoints_keys mode hinside hnames
  -- the library's segment of the same points
  obtain ⟨seg, hhdr, hpoints⟩ : ∃ seg : Segment,
      seg.hdr = irtShmInitHeader src.maxPoints src.maxSubscribers 0 ∧
        seg.points = recordsOf (targetPoints src mode) :=
    ⟨⟨_, _, fun _ => ⟨0, 0⟩, fun _ => .zero⟩, rfl, rfl⟩
  have hix : seg.hdr.offIndex ≠ 0 := by
    rw [hhdr]
    show irtLayoutOffIndex src.maxPoints ≠ 0
    rw [hlayout.offIndex]
    omega
  have hpts : seg.hdr.offPoints ≠ 0 := by
    rw [hhdr]
    exact Nat.succ_ne_zero 127
  rw [← hpoints] at hheld hfit hkeys
  obtain ⟨⟨slots, count⟩, hbuild, hagrees⟩ :=
    buildIndex_agrees (s := irtShmRequest src.maxPoints src.maxSubscribers) hn hix hpts hheld hfit
  refine ⟨slots, count, hbuild, ?_, hagrees.counted, hagrees.slots.below hagrees.below, ?_⟩
  · rw [hagrees.slots.length, layoutIndexSize, hbuckets]
    rfl
  · intro id name hid hname hread
    have hstored : (seg.points id).name = name := by
      apply CStr.ext_bytes
      rw [hpoints, targetPoints_name mode hinside hid, hread]
    have hpartition : (seg.points id).partition = 0 := by
      rw [hpoints, targetPoints_record mode hinside hid]
      rfl
    have hfound := irtIndexRebuild_finds (s := irtShmRequest src.maxPoints src.maxSubscribers) hn
      hix hpts hfit hkeys hid (by rw [hstored]; exact hname)
    rw [hstored, hpartition] at hfound
    have hlen : name.bytes.length ≤ nameMax := by
      rw [← hread]
      exact hnames.fit id hid
    have hprobe := indexProbe_eq 0 (by rw [hagrees.points]; exact hheld)
      hagrees.slots (by rw [hagrees.points]; exact hfit) hagrees.below hlen
    rw [hfound] at hprobe
    rw [hbuckets]
    exact hprobe

/-! ## The target as the library sees it -/

/-- The segment that the bytes are. -/
def segmentAt (raw : Bytes) : Segment := decodeSegment (decodeHeader raw.mem) raw.mem

section Opened

variable {src : Source} {mode : SourceTsMode} {slots raw : Bytes} {count : Nat}
  (h : TargetBytes src mode slots count raw) (hfits : offSubsV2 src.maxPoints < 2 ^ 32)
include h

theorem TargetBytes.attach (n m : Nat) (hn : 0 < n) (hn' : n ≤ src.maxPoints)
    (hm : m ≤ src.maxSubscribers) :
    irtShmAttach (decodeHeader raw.mem) n m = .ok (irtShmRequest n m) := by
  have hcreated : irtShmAttach (irtShmInitHeader src.maxPoints src.maxSubscribers 0) n m =
      .ok (irtShmRequest n m) := irtShmAttach_created_iff.mpr ⟨⟨hn, hn', hm⟩, rfl⟩
  rw [h.header]
  exact hcreated

/-- A record, in the segment and among the points stored. -/
theorem TargetBytes.record {id : Nat} (hid : id < src.maxPoints) :
    (segmentAt raw).points id = recordsOf (targetPoints src mode) id := by
  have hoff : (decodeHeader raw.mem).offPoints = 128 := by
    rw [h.header]
    rfl
  rw [segmentAt, decodeSegment, hoff, recordsOf, ← h.points]
  apply decodePoint_congr
  intro b hb
  rw [Bytes.mem_slice (by simp only [offPointsV2, headerV2Size, pointSize, sizeofPoint]; omega),
    ← Nat.add_assoc]
  rfl

include hfits

/-- A slot, in the segment and in the index stored. -/
theorem TargetBytes.slot {i : Nat} (hi : i < irtLayoutBuckets src.maxPoints) :
    (segmentAt raw).slots i = slotAt slots i := by
  obtain ⟨-, -, hbuckets, hindex, -⟩ := offsets_eq hfits
  have hoff : (decodeHeader raw.mem).offIndex = offIndexV2 src.maxPoints := by
    rw [h.header, hindex]
    rfl
  rw [segmentAt, decodeSegment, hoff, slotAt, ← h.index]
  apply decodeSlot_congr
  intro b hb
  have hend : irtIndexSlotSize * i + b < layoutIndexSize src.maxPoints := by
    simp only [layoutIndexSize, hbuckets, indexSlotSize, irtIndexSlotSize]
    omega
  rw [Bytes.mem_slice (by omega), ← Nat.add_assoc]

/-- **The library finds what the tool indexed.** -/
theorem TargetBytes.lookup (hinside : RegionsInside src) (hnames : NamesDistinct src)
    (hindex : TargetIndex src mode slots count) {id : Nat} {name : CStr}
    (hid : id < src.maxPoints) (hname : name ≠ CStr.empty)
    (hread : readPointName src.points id = name.bytes) :
    irtIndexLookup (irtShmRequest src.maxPoints src.maxSubscribers) (segmentAt raw) 0 name =
      .ok id := by
  obtain ⟨hlayout, -, hbuckets, hoffIndex, -⟩ := offsets_eq hfits
  have hix : (segmentAt raw).hdr.offIndex ≠ 0 := by
    show (decodeHeader raw.mem).offIndex ≠ 0
    rw [h.header]
    show irtLayoutOffIndex src.maxPoints ≠ 0
    rw [hlayout.offIndex]
    omega
  have hpts : (segmentAt raw).hdr.offPoints ≠ 0 := by
    show (decodeHeader raw.mem).offPoints ≠ 0
    rw [h.header]
    exact Nat.succ_ne_zero 127
  have heven : (segmentAt raw).hdr.writeSeq % 2 = 0 := by
    show (decodeHeader raw.mem).writeSeq % 2 = 0
    rw [h.header]
    rfl
  have hlen : name.bytes.length ≤ nameMax := by
    rw [← hread]
    exact hnames.fit id hid
  have hpoints : PointsHeld src.maxPoints (targetPoints src mode) (segmentAt raw).points :=
    ⟨(targetPoints_held mode hinside).length, fun id hid => h.record hid⟩
  have hslots : SlotsHeld src.maxPoints slots (segmentAt raw).slots := by
    refine ⟨?_, fun i hi => ?_⟩
    · rw [hindex.length, layoutIndexSize, hbuckets]
    · rw [h.slot hfits hi]
  have hfit : NamesFit src.maxPoints (segmentAt raw).points := by
    intro id hid
    rw [h.record hid]
    exact targetPoints_fit mode hinside hnames id hid
  have hbelow : EntriesBelow src.maxPoints (segmentAt raw).slots := by
    intro i hi hlive
    rw [h.slot hfits hi] at hlive ⊢
    exact hindex.below i hi hlive
  have hfound := hindex.finds id name hid hname hread
  have hprobe := indexProbe_eq 0 hpoints hslots hfit hbelow hlen
  rw [hbuckets] at hfound
  have hanswer := Except.ok.inj (hprobe.symm.trans hfound)
  have hprobed : irtIndexProbe (indexView src.maxPoints) (segmentAt raw) 0 name = .ok id := by
    cases hcase : irtIndexProbe (indexView src.maxPoints) (segmentAt raw) 0 name with
    | error rc =>
        rw [hcase] at hanswer
        cases hanswer
    | ok found =>
        rw [hcase] at hanswer
        exact congrArg Except.ok (Option.some.inj hanswer)
  exact (irtIndexLookup_eq hix hpts hname heven).trans hprobed

end Opened

/-! ## Validation accepts the target -/

theorem collect_none {α β : Type} {f : α → Except Raised (Option β)} :
    ∀ {l : List α}, (∀ a ∈ l, f a = .ok none) → collect f l = .ok [] := by
  intro l
  induction l with
  | nil => exact fun _ => rfl
  | cons a rest ih =>
      intro hall
      rw [collect, hall a List.mem_cons_self, ok_bind,
        ih fun b hb => hall b (List.mem_cons_of_mem a hb)]
      rfl

theorem lt_of_mem_sampledIds {n id : Nat} {sample : Int} (h : id ∈ sampledIds n sample) :
    id < n := by
  unfold sampledIds at h
  split at h
  · exact List.mem_range.mp h
  · have hlt := List.mem_range.mp h
    omega

/-- The bytes that are compared are kept. -/
theorem comparedPoint_eq {src : Source} (mode : SourceTsMode) (hinside : RegionsInside src)
    {id : Nat} (hid : id < src.maxPoints) :
    comparedPoint mode src.points id = comparedPoint mode (targetPoints src mode) id := by
  have hrewritten := targetPoints_rewritten mode hinside
  have hend : (id + 1) * pointSize ≤ src.points.length := by
    rw [hinside.points]
    exact Nat.mul_le_mul_right _ hid
  have hend' : (id + 1) * pointSize ≤ (targetPoints src mode).length := by
    rw [hrewritten.length]
    exact hend
  have hsize : (id + 1) * pointSize - id * pointSize = 1 * pointSize := by
    simp only [pointSize]
    omega
  have hlen := (Bytes.length_slice hend).trans hsize
  have hlen' := (Bytes.length_slice hend').trans hsize
  have hcompared := rewritePoint_rewritten mode hlen Nat.one_pos
  have hcompared' := rewritePoint_rewritten mode hlen' Nat.one_pos
  apply Bytes.ext_mem
  · rw [comparedPoint, comparedPoint, hcompared.length, hcompared'.length, hlen, hlen']
  · intro o ho
    rw [comparedPoint, hcompared'.length, hlen', Nat.one_mul] at ho
    have hzero : pointSize * 0 + o = o := by omega
    have hplace : ∀ points : Bytes,
        (points.slice (id * pointSize) ((id + 1) * pointSize)).mem (pointSize * 0 + o) =
          points.mem (pointSize * id + o) := by
      intro points
      rw [hzero, Bytes.mem_slice (by simp only [pointSize] at ho ⊢; omega), Nat.mul_comm id]
    rcases Classical.em (Cleared mode o) with hcleared | hkept
    · have hleft := hcompared.cleared 0 o ho rfl hcleared
      have hright := hcompared'.cleared 0 o ho rfl hcleared
      rw [hzero] at hleft hright
      exact hleft.trans hright.symm
    · have hleft := hcompared.kept 0 o ho fun hboth => hkept hboth.2
      have hright := hcompared'.kept 0 o ho fun hboth => hkept hboth.2
      rw [hplace, hzero] at hleft hright
      rw [hrewritten.kept id o ho fun hboth => hkept hboth.2] at hright
      exact hleft.trans hright.symm

section Validate

theorem headerV2Size_le_totalSizeV2 (maxPoints maxSubscribers : Nat) :
    headerV2Size ≤ totalSizeV2 maxPoints maxSubscribers := by
  simp only [totalSizeV2, offSubsV2, offMetaV2, offIndexV2, offPointsV2]
  omega

variable {src : Source} {mode : SourceTsMode} {slots raw : Bytes} {count : Nat}
  (h : TargetBytes src mode slots count raw) (hfits : offSubsV2 src.maxPoints < 2 ^ 32)
  (hok : SourceOk src)
include h

/-- The header is read before the rest. -/
theorem TargetBytes.head :
    (raw.slice 0 headerV2Size).length = headerV2Size ∧
      decodeHeader (raw.slice 0 headerV2Size).mem =
        { irtShmInitHeader src.maxPoints src.maxSubscribers 0 with indexCount := count } := by
  have hbytes : ∀ o, o < 128 → (raw.slice 0 headerV2Size).mem o = raw.mem o := by
    intro o ho
    rw [Bytes.mem_slice (by simp only [headerV2Size]; omega), Nat.zero_add]
  have hcount : readLe raw.mem 72 4 = count := congrArg IrtHeader.indexCount h.header
  refine ⟨Bytes.length_slice (by rw [h.length]; exact headerV2Size_le_totalSizeV2 _ _), ?_⟩
  rw [decodeHeader_of_count (fun o ho _ => hbytes o ho)
    ((readLe_congr 4 72 72 fun b hb => hbytes (72 + b) (by omega)).trans hcount), h.header]

include hfits hok

/-- What `read_v2_segment` reads of a target. -/
theorem TargetBytes.read :
    readV2Segment raw = .ok
      { version := shmVersionCurrent
        maxPoints := src.maxPoints
        maxSubscribers := src.maxSubscribers
        crc32 := (irtShmInitHeader src.maxPoints src.maxSubscribers 0).crc32
        indexCount := count
        points := targetPoints src mode
        index := slots
        metadata := raw.slice (offMetaV2 src.maxPoints)
          (offMetaV2 src.maxPoints + layoutMetaSize src.maxPoints) } := by
  obtain ⟨-, -, -, hindex, hmeta, -⟩ := offsets_eq hfits
  obtain ⟨hhead, hdecode⟩ := h.head
  have hparse : parseV2Header (raw.slice 0 headerV2Size) none =
      .ok { irtShmInitHeader src.maxPoints src.maxSubscribers 0 with indexCount := count } := by
    have hlong : ¬ (raw.slice 0 headerV2Size).length < 80 := by
      rw [hhead]
      simp only [headerV2Size]
      omega
    have hmagic : ¬ (irtShmInitHeader src.maxPoints src.maxSubscribers 0).magic ≠ magicNumber :=
      not_not.mpr rfl
    have hpoints : ¬ (irtShmInitHeader src.maxPoints src.maxSubscribers 0).maxPoints = 0 :=
      Nat.pos_iff_ne_zero.mp hok.maxPoints
    rw [parseV2Header, if_neg hlong, hdecode]
    exact (if_neg hmagic).trans (if_neg hpoints)
  have hmap := mapSegment_eq (headerV2Size_le_totalSizeV2 _ _) h.length.ge
  have hwhole : raw.slice 0 (totalSizeV2 src.maxPoints src.maxSubscribers) = raw := by
    rw [← h.length]
    exact List.take_length
  rw [hwhole] at hmap
  have hversion : ¬ (irtShmInitHeader src.maxPoints src.maxSubscribers 0).version ≠
      shmVersionCurrent := not_not.mpr rfl
  rw [readV2Segment, hparse, ok_bind]
  refine (if_neg hversion).trans ?_
  refine (congrArg (· >>= _) hmap).trans ?_
  rw [ok_bind, ← h.points, ← h.index, hindex, hmeta]
  rfl

/-- **Validation accepts the target**, whatever is sampled. -/
theorem TargetBytes.validate {file : Bytes} (hread : readSourceSegment file = .ok src)
    (hinside : RegionsInside src) (hindex : TargetIndex src mode slots count) (sample : Int) :
    ∃ report, Migrate.validate file raw mode sample = .ok report := by
  have hcrc : headerCrc (raw.slice 0 headerV2Size) =
      (irtShmInitHeader src.maxPoints src.maxSubscribers 0).crc32.toNat := by
    have hlong : 72 ≤ (raw.slice 0 headerV2Size).length := by
      rw [h.head.1]
      simp only [headerV2Size]
      omega
    rw [headerCrc_eq hlong, h.head.2]
    rfl
  -- nothing is found that does not match
  have hpartition : ∀ dst : Target, dst.points = targetPoints src mode →
      collect (partitionNotZero dst) (List.range src.maxPoints) = .ok [] := by
    intro dst hdst
    apply collect_none
    intro id hid
    rw [partitionNotZero, hdst, (targetPoints_held mode hinside).partition (List.mem_range.mp hid),
      targetPoints_record mode hinside (List.mem_range.mp hid)]
    rfl
  have hpointsSame : ∀ dst : Target, dst.points = targetPoints src mode →
      (sampledIds src.maxPoints sample).filterMap (pointMismatch src dst mode) = [] := by
    intro dst hdst
    apply List.filterMap_eq_nil_iff.mpr
    intro id hid
    rw [pointMismatch, hdst, comparedPoint_eq mode hinside (lt_of_mem_sampledIds hid)]
    exact if_neg (not_not.mpr rfl)
  have hindexSame : ∀ dst : Target, dst.points = targetPoints src mode → dst.index = slots →
      collect (indexMismatch src dst) (sampledIds src.maxPoints sample) = .ok [] := by
    intro dst hdst hslots
    apply collect_none
    intro id hid
    have hlt := lt_of_mem_sampledIds hid
    rw [indexMismatch]
    split
    · rfl
    next hnamed =>
    have hstored := targetPoints_name mode hinside hlt
    have hname : (recordsOf (targetPoints src mode) id).name ≠ CStr.empty := by
      intro hempty
      rw [hempty] at hstored
      exact hnamed (by rw [← hstored]; rfl)
    have hfound := hindex.finds id _ hlt hname hstored.symm
    rw [hslots, hdst, ← hstored, hfound, ok_bind]
    exact congrArg Except.ok (if_neg (not_not.mpr rfl))
  rw [Migrate.validate, hread, ok_bind, h.read hfits hok, ok_bind]
  dsimp only
  rw [if_neg (not_not.mpr rfl), if_neg (not_not.mpr rfl), if_neg (not_not.mpr rfl), hcrc,
    if_neg (not_not.mpr rfl), hpartition _ rfl, ok_bind, if_neg (not_not.mpr rfl),
    hpointsSame _ rfl, hindexSame _ rfl rfl, ok_bind]
  have hkept : ¬ (src.version = shmVersionV2 ∧ src.metadata ≠ some (raw.slice
      (offMetaV2 src.maxPoints) (offMetaV2 src.maxPoints + layoutMetaSize src.maxPoints))) := by
    rintro ⟨hversion, hlost⟩
    rcases hok.version with ⟨hold, -⟩ | ⟨-, area, harea⟩
    · rw [hversion] at hold
      cases hold
    · exact hlost (harea.trans (congrArg some (h.metadata area harea).symm))
  rw [if_neg hkept, if_neg (not_or.mpr ⟨not_not.mpr rfl, not_not.mpr rfl⟩)]
  exact ⟨_, rfl⟩

end Validate

/-! ## Migration -/

/-- What the bytes of a target have to do with the source they were built from. -/
structure Lossless (file : Bytes) (src : Source) (mode : SourceTsMode) (raw : Bytes) : Prop where
  /-- validation accepts them against the source -/
  validates : ∀ sample, ∃ report, validate file raw mode sample = .ok report
  /-- the library opens them for every request within the capacity -/
  attaches : ∀ n m, 0 < n → n ≤ src.maxPoints → m ≤ src.maxSubscribers →
    irtShmAttach (decodeHeader raw.mem) n m = .ok (irtShmRequest n m)
  /-- there is no owner to take over from and no lock to release -/
  unowned : (decodeHeader raw.mem).ownerPid = 0 ∧ (decodeHeader raw.mem).writeSeq = 0
  /-- every field of a point is carried over but those cleared -/
  points : ∀ id, id < src.maxPoints →
    (segmentAt raw).points id = migratedPoint mode (recordsOf src.points id)
  /-- the metadata area is carried over byte for byte -/
  metadata : ∀ area, src.metadata = some area →
    raw.slice (decodeHeader raw.mem).offMeta ((decodeHeader raw.mem).offMeta + area.length) = area
  /-- every name is found, under partition 0 -/
  found : ∀ id (name : CStr), id < src.maxPoints → name ≠ CStr.empty →
    readPointName src.points id = name.bytes →
      irtIndexLookup (irtShmRequest src.maxPoints src.maxSubscribers) (segmentAt raw) 0 name =
        .ok id

/-- **Migration is lossless, and the library opens what it builds**: for every source segment
whose names end inside their fields and are distinct, of either version, and either mode. -/
theorem buildTargetSegment_lossless {file : Bytes} {src : Source}
    (hread : readSourceSegment file = .ok src)
    (hinside : src.version = shmVersionV2 → RegionsInside src) (hnames : NamesDistinct src)
    (hfits : offSubsV2 src.maxPoints < 2 ^ 32) (mode : SourceTsMode) :
    ∃ raw, buildTargetSegment src mode = .ok raw ∧ Lossless file src mode raw := by
  have hok := readSourceSegment_ok hread
  have hinside : RegionsInside src := by
    rcases hok.version with ⟨-, hlen, hnone⟩ | ⟨hversion, -⟩
    · refine ⟨hlen, fun area harea => ?_⟩
      rw [hnone] at harea
      cases harea
    · exact hinside hversion
  obtain ⟨slots, count, hindex⟩ := targetIndex mode hinside hnames hfits
  obtain ⟨-, hn, -, -, hmeta, -⟩ := offsets_eq hfits
  have hcounted := hindex.counted
  obtain ⟨raw, hbuilt, htarget⟩ := buildTargetSegment_eq hok.maxSubscribers hfits hok.maxPoints
    hinside.points hinside.metadata hindex.built hindex.length (by omega)
  refine ⟨raw, hbuilt, htarget.validate hfits hok hread hinside hindex, htarget.attach, ?_,
    ?_, ?_, fun id name => htarget.lookup hfits hinside hnames hindex⟩
  · rw [htarget.header]
    exact ⟨rfl, rfl⟩
  · intro id hid
    rw [htarget.record hid, targetPoints_record mode hinside hid]
  · intro area harea
    have hoff : (decodeHeader raw.mem).offMeta = offMetaV2 src.maxPoints := by
      rw [htarget.header, hmeta]
      rfl
    rw [hoff, hinside.metadata area harea]
    exact htarget.metadata area harea

/-- A segment of version 2 with four points, two of whose names collide with a third, and
with duplicates and tombstones in its index. -/
def fourFile : Bytes :=
  [0xBA, 0x1D, 0xBA, 0x1D, 2, 0, 0, 0, 4, 0, 0, 0, 0, 0, 0, 0] ++ zeros 40 ++
    [128, 0, 0, 0, 128, 2, 0, 0, 192, 2, 0, 0, 64, 3, 0, 0] ++ zeros 56 ++ fourPoints ++
      zeros 32 ++ List.replicate 4 0xFE ++ List.replicate 28 0xFF ++ List.replicate 128 7

/-- What is read of it. -/
def fourSource : Source where
  version := 2
  maxPoints := 4
  maxSubscribers := 0
  points := fourPoints
  metadata := some (List.replicate 128 7)

theorem fourSource_inside : RegionsInside fourSource := by
  refine ⟨by decide +kernel, fun area harea => ?_⟩
  rw [← Option.some.inj harea]
  decide +kernel

theorem fourSource_distinct : NamesDistinct fourSource := by
  have hfit : ∀ id < 4, (readPointName fourPoints id).length ≤ nameMax := by decide +kernel
  have hdistinct : ∀ i < 4, ∀ j < 4, readPointName fourPoints i ≠ [] →
      readPointName fourPoints j = readPointName fourPoints i → j = i := by decide +kernel
  exact ⟨hfit, fun i j hi hj => hdistinct i hi j hj⟩

theorem buildTargetSegment_lossless_four :
    ∃ raw, buildTargetSegment fourSource .zero = .ok raw ∧
      Lossless fourFile fourSource .zero raw :=
  buildTargetSegment_lossless (by decide +kernel) (fun _ => fourSource_inside)
    fourSource_distinct (by decide +kernel) .zero

end InduRtdb.Migrate
