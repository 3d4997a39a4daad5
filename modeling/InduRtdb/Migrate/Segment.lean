/-
  Migrate/Segment.lean --- reading a segment of version 1 or 2, building one of version 3,
  and validating the result.

  Source: `parse_v1_header`, `parse_v2_header` and `build_v2_header` of
  `tools/irt_migrate/irt_migrate/layout.py`, and `migrate.py` and `validate.py` beside it.

  A segment is the file below `/dev/shm` that holds it, here its bytes.  Of what the readers
  collect, the subscribers, the source's index and its offsets are left out: nothing looks at
  them afterwards.
-/
import InduRtdb.Migrate.Layout

set_option autoImplicit false

namespace InduRtdb.Migrate

open InduRtdb.Core InduRtdb.Lib

/-! ## Headers -/

/-- What `parse_v1_header` returns. -/
structure V1Header where
  version : Nat
  maxPoints : Nat
  maxSubscribers : Nat

/-- `parse_v1_header`. -/
def parseV1Header (raw : Bytes) : Except Raised V1Header :=
  if raw.length < 44 then .error .v1HeaderTooShort
  else
    let magic := readLe raw.mem 0 4
    let version := readLe raw.mem 4 4
    let maxPoints := readLe raw.mem 8 4
    if magic ≠ magicNumber then .error (.badMagic magic)
    else if version ≠ shmVersionV1 then .error (.notV1 version)
    else if maxPoints = 0 then .error .v1NoPoints
    else .ok ⟨version, maxPoints, readLe raw.mem 12 4⟩

/-- `parse_v2_header`: the fields of `irt_header_t`. -/
def parseV2Header (raw : Bytes) (expectedVersion : Option Nat) : Except Raised IrtHeader :=
  if raw.length < 80 then .error (.headerTooShort raw.length)
  else
    let hdr := decodeHeader raw.mem
    if hdr.magic ≠ magicNumber then .error (.badMagic hdr.magic)
    else
      match expectedVersion.filter fun expected => hdr.version ≠ expected with
      | some expected => .error (.versionMismatch hdr.version expected)
      | none => if hdr.maxPoints = 0 then .error .noPoints else .ok hdr

/-- `zlib.crc32(hdr[0:16] + hdr[48:72])`. -/
def headerCrc (raw : Bytes) : Nat := zlibCrc32 (raw.slice 0 16 ++ raw.slice 48 72)

/-- `build_v2_header`. -/
def buildV2Header (maxPoints maxSubscribers : Nat) : Except Raised Bytes := do
  let raw := zeros headerV2Size
  let raw ← packU32s raw 0 [magicNumber, shmVersionCurrent, maxPoints, maxSubscribers]
  let raw ← packU32s raw 48 [0, 0]
  let raw ← packU32s raw 56
    [offPointsV2, offIndexV2 maxPoints, offMetaV2 maxPoints, offSubsV2 maxPoints]
  let raw ← packU32s raw 76 [0]
  packU32s raw 44 [headerCrc raw]

/-! ## The source -/

/-- What is read of a source segment; there is no metadata in version 1. -/
structure Source where
  version : Nat
  maxPoints : Nat
  maxSubscribers : Nat
  points : Bytes
  metadata : Option Bytes
  deriving DecidableEq

/-- `data[:len(head)] = head; data[len(head):] = mm[len(head):total]` over a mapping of `total`
bytes. -/
def mapSegment (file head : Bytes) (total : Nat) : Except Raised Bytes :=
  if file.length < total then .error .mmapLength
  else .ok (head ++ file.slice head.length total)

/-- `read_v1_segment`. -/
def readV1Segment (file : Bytes) : Except Raised Source := do
  let head := file.slice 0 headerV1Size
  let hdr ← parseV1Header head
  let data ← mapSegment file head (totalSizeV1 hdr.maxPoints hdr.maxSubscribers)
  pure
    { version := hdr.version
      maxPoints := hdr.maxPoints
      maxSubscribers := hdr.maxSubscribers
      points := data.slice headerV1Size (headerV1Size + hdr.maxPoints * pointSize)
      metadata := none }

/-- `peek_segment_version`. -/
def peekSegmentVersion (file : Bytes) : Except Raised Nat :=
  let head := file.slice 0 8
  if head.length < 8 then .error (.headTooShort head.length)
  else if readLe head.mem 0 4 ≠ magicNumber then .error (.badMagic (readLe head.mem 0 4))
  else .ok (readLe head.mem 4 4)

/-- `read_v2_source_segment`. -/
def readV2SourceSegment (file : Bytes) : Except Raised Source := do
  let head := file.slice 0 headerV2Size
  let hdr ← parseV2Header head none
  if hdr.version ≠ shmVersionV2 then .error (.notV2 hdr.version)
  else if hdr.offPoints = 0 ∨ hdr.offIndex = 0 ∨ hdr.offMeta = 0 ∨ hdr.offSubs = 0 then
    .error .notSealed
  else
    let total := totalSizeV2 hdr.maxPoints hdr.maxSubscribers
    if file.length < total then .error (.segmentTruncated file.length total)
    else
      let data ← mapSegment file head total
      pure
        { version := hdr.version
          maxPoints := hdr.maxPoints
          maxSubscribers := hdr.maxSubscribers
          points := data.slice hdr.offPoints (hdr.offPoints + hdr.maxPoints * pointSize)
          metadata := some (data.slice hdr.offMeta (hdr.offMeta + layoutMetaSize hdr.maxPoints)) }

/-- `read_source_segment`. -/
def readSourceSegment (file : Bytes) : Except Raised Source := do
  let version ← peekSegmentVersion file
  if version = shmVersionV1 then readV1Segment file
  else if version = shmVersionV2 then readV2SourceSegment file
  else .error (.versionUnsupported version)

/-! ## The target -/

/-- `source_ts_mode`. -/
inductive SourceTsMode where
  | zero
  | keep
  deriving DecidableEq

/-- One point of the loop of `build_target_segment`. -/
def rewritePoint (mode : SourceTsMode) (points : Bytes) (pid : Nat) : Bytes :=
  let base := pid * pointSize
  let points := points.store (base + partitionOffset) (base + partitionOffset + 4) (zeros 4)
  match mode with
  | .zero => points.store (base + sourceTsOffset) (base + sourceTsOffset + 8) (zeros 8)
  | .keep => points

/-- The metadata region of `build_target_segment`. -/
def carryMeta (raw : Bytes) (maxPoints : Nat) : Option Bytes → Except Raised Bytes
  | none => .ok raw
  | some srcMeta =>
      if srcMeta.isEmpty then .ok raw
      else if srcMeta.length ≠ layoutMetaSize maxPoints then
        .error (.metaLength srcMeta.length (layoutMetaSize maxPoints))
      else
        .ok (raw.store (offMetaV2 maxPoints) (offMetaV2 maxPoints + layoutMetaSize maxPoints)
          srcMeta)

/-- `build_target_segment`. -/
def buildTargetSegment (src : Source) (mode : SourceTsMode) : Except Raised Bytes := do
  let maxPoints := src.maxPoints
  let raw := zeros (totalSizeV2 maxPoints src.maxSubscribers)
  let header ← buildV2Header maxPoints src.maxSubscribers
  let raw := raw.store 0 headerV2Size header
  if src.points.length ≠ maxPoints * pointSize then
    .error (.pointsLength src.points.length maxPoints)
  else
    let targetPoints := (List.range maxPoints).foldl (rewritePoint mode) src.points
    let raw := raw.store offPointsV2 (offPointsV2 + maxPoints * pointSize) targetPoints
    let (slots, indexCount) ← buildIndex targetPoints maxPoints (layoutBuckets maxPoints)
    let raw := raw.store (offIndexV2 maxPoints) (offIndexV2 maxPoints + slots.length) slots
    let raw ← packU32s raw 72 [indexCount]
    carryMeta raw maxPoints src.metadata

/-! ## Validation -/

/-- What is read of a target segment. -/
structure Target where
  version : Nat
  maxPoints : Nat
  maxSubscribers : Nat
  crc32 : UInt32
  indexCount : Nat
  points : Bytes
  index : Bytes
  metadata : Bytes

/-- `read_v2_segment`. -/
def readV2Segment (file : Bytes) : Except Raised Target := do
  let head := file.slice 0 headerV2Size
  let hdr ← parseV2Header head none
  if hdr.version ≠ shmVersionCurrent then .error (.notCurrent hdr.version)
  else
    let data ← mapSegment file head (totalSizeV2 hdr.maxPoints hdr.maxSubscribers)
    pure
      { version := hdr.version
        maxPoints := hdr.maxPoints
        maxSubscribers := hdr.maxSubscribers
        crc32 := hdr.crc32
        indexCount := hdr.indexCount
        points := data.slice hdr.offPoints (hdr.offPoints + hdr.maxPoints * pointSize)
        index := data.slice hdr.offIndex (hdr.offIndex + layoutIndexSize hdr.maxPoints)
        metadata := data.slice hdr.offMeta (hdr.offMeta + layoutMetaSize hdr.maxPoints) }

/-- A list that a loop appends to. -/
def collect {α β : Type} (f : α → Except Raised (Option β)) : List α → Except Raised (List β)
  | [] => .ok []
  | a :: rest => do
      let found ← f a
      let others ← collect f rest
      pure (found.toList ++ others)

/-- The bytes of a point that `validate` compares. -/
def comparedPoint (mode : SourceTsMode) (points : Bytes) (pid : Nat) : Bytes :=
  rewritePoint mode (points.slice (pid * pointSize) ((pid + 1) * pointSize)) 0

/-- Step 3 of `validate`, for one point. -/
def partitionNotZero (dst : Target) (pid : Nat) : Except Raised (Option Nat) := do
  let partition ← readPointPartition dst.points pid
  pure (if partition ≠ 0 then some pid else none)

/-- Step 4 of `validate`, for one point. -/
def pointMismatch (src : Source) (dst : Target) (mode : SourceTsMode) (pid : Nat) : Option Nat :=
  if comparedPoint mode src.points pid ≠ comparedPoint mode dst.points pid then some pid else none

/-- Step 5 of `validate`, for one point. -/
def indexMismatch (src : Source) (dst : Target) (pid : Nat) :
    Except Raised (Option (Nat × Bytes × Option Nat)) :=
  let name := readPointName src.points pid
  if name.isEmpty then .ok none
  else do
    let got ← indexProbe dst.index (layoutBuckets src.maxPoints) dst.points name 0
    pure (if got ≠ some pid then some (pid, name, got) else none)

/-- The report of `validate`. -/
structure Report where
  sourceVersion : Nat
  maxPoints : Nat
  checked : Nat
  pointMismatches : List Nat
  indexMismatches : List (Nat × Bytes × Option Nat)
  crcOk : Bool
  indexCount : Nat
  indexCapacity : Nat
  partitionAllZero : Bool
  metaPreserved : Option Bool

/-- The ids that `validate` looks at: all of them, or the first `sample`. -/
def sampledIds (maxPoints : Nat) (sample : Int) : List Nat :=
  if sample = 0 then List.range maxPoints else List.range (min sample maxPoints).toNat

/-- `validate`. -/
def validate (srcFile dstFile : Bytes) (mode : SourceTsMode) (sample : Int) :
    Except Raised Report := do
  let src ← readSourceSegment srcFile
  let dst ← readV2Segment dstFile
  if dst.maxPoints ≠ src.maxPoints then
    .error (.maxPointsDiffer src.maxPoints dst.maxPoints)
  else if dst.maxSubscribers ≠ src.maxSubscribers then .error .maxSubscribersDiffer
  else if dst.version ≠ shmVersionCurrent then .error (.notCurrent dst.version)
  else
    let crcCalc := headerCrc (dstFile.slice 0 headerV2Size)
    if crcCalc ≠ dst.crc32.toNat then .error (.crcMismatch dst.crc32.toNat crcCalc)
    else
      let badPartition ← collect (partitionNotZero dst) (List.range src.maxPoints)
      if badPartition ≠ [] then .error (.partitionNotZero badPartition)
      else
        let ids := sampledIds src.maxPoints sample
        let mismatches := ids.filterMap (pointMismatch src dst mode)
        let idxMismatch ← collect (indexMismatch src dst) ids
        if src.version = shmVersionV2 ∧ src.metadata ≠ some dst.metadata then
          .error .metaNotPreserved
        else if mismatches ≠ [] ∨ idxMismatch ≠ [] then .error (.mismatches mismatches idxMismatch)
        else
          pure
            { sourceVersion := src.version
              maxPoints := src.maxPoints
              checked := ids.length
              pointMismatches := mismatches
              indexMismatches := idxMismatch
              crcOk := true
              indexCount := dst.indexCount
              indexCapacity := layoutBuckets src.maxPoints
              partitionAllZero := true
              metaPreserved := if src.version = shmVersionV2 then some true else none }

end InduRtdb.Migrate
