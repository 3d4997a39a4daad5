/-
  Migrate/Command.lean --- the commands of the migration tool over the segments of a machine.

  Source: `write_segment` and `migrate` of `tools/irt_migrate/irt_migrate/migrate.py` and
  `cli.py` beside it.

  The tool works offline: while a command runs nobody else writes the segments.  The texts
  printed are the dictionaries they are made of, and the argument parser is left out: its
  choices are the types here.
-/
import InduRtdb.Migrate.Lossless

set_option autoImplicit false

namespace InduRtdb.Migrate

open InduRtdb.Core InduRtdb.Lib

/-! ## The segments of a machine -/

/-- The files below `/dev/shm` that hold segments, by the ids of their instances. -/
abbrev Segments : Type := String → Option Bytes

/-- What ends a command before it returns. -/
inductive Failed where
  /-- `os.open`: there is no such file -/
  | fileNotFound (id : String)
  /-- `write_segment` finds the target there and is not forced -/
  | fileExists (id : String)
  | raised (raised : Raised)
  deriving DecidableEq

/-- `except ValueError`: `struct.error` and the errors of files are none. -/
def Failed.isValueError : Failed → Bool
  | .raised .structError => false
  | .raised _ => true
  | .fileNotFound _ | .fileExists _ => false

/-- A reader opens the file of the segment first. -/
def openSegment {α : Type} (segments : Segments) (id : String) (read : Bytes → Except Raised α) :
    Except Failed α :=
  match segments id with
  | none => .error (.fileNotFound id)
  | some file => (read file).mapError .raised

/-- `write_segment`: the file is truncated to the data and overwritten, or created. -/
def writeSegment (segments : Segments) (id : String) (data : Bytes) (force : Bool) :
    Except Failed (Segments × Bool) :=
  let existed := (segments id).isSome
  if existed && !force then .error (.fileExists id)
  else .ok (Function.update segments id (some data), existed)

/-- What `migrate` returns. -/
structure Stat where
  srcId : String
  dstId : String
  sourceVersion : Nat
  maxPoints : Nat
  maxSubscribers : Nat
  indexCapacity : Nat
  dstOverwritten : Bool
  sourceTsMode : SourceTsMode

/-- `migrate`. -/
def migrate (segments : Segments) (srcId dstId : String) (mode : SourceTsMode) (force : Bool) :
    Except Failed (Segments × Stat) := do
  let src ← openSegment segments srcId readSourceSegment
  let target ← (buildTargetSegment src mode).mapError .raised
  let (segments, existed) ← writeSegment segments dstId target force
  pure (segments,
    { srcId := srcId
      dstId := dstId
      sourceVersion := src.version
      maxPoints := src.maxPoints
      maxSubscribers := src.maxSubscribers
      indexCapacity := layoutBuckets src.maxPoints
      dstOverwritten := existed
      sourceTsMode := mode })

/-- `validate`, which reads the source before it opens the target. -/
def validateSegments (segments : Segments) (srcId dstId : String) (mode : SourceTsMode)
    (sample : Int) : Except Failed Report :=
  match segments srcId, segments dstId with
  | none, _ => .error (.fileNotFound srcId)
  | some srcFile, none => do
      let _ ← (readSourceSegment srcFile).mapError .raised
      .error (.fileNotFound dstId)
  | some srcFile, some dstFile => (validate srcFile dstFile mode sample).mapError .raised

/-! ## The commands -/

/-- How a command ends: with an exit status, or with an exception that nothing catches. -/
inductive Ending where
  | returns (status : Nat)
  | raises (failed : Failed)
  deriving DecidableEq

/-- What `_cmd_info` prints; a segment of version 1 has neither index nor metadata. -/
structure Info where
  id : String
  version : Nat
  maxPoints : Nat
  maxSubscribers : Nat
  indexCapacity : Option Nat
  indexCount : Option Nat
  metaBytes : Option Nat
  totalBytes : Nat
  crc32 : Option UInt32
  kind : String

/-- The dictionaries that the commands print. -/
inductive Printed where
  | migrate (stat : Stat)
  | validate (report : Report)
  | info (info : Info)

/-- What a command leaves behind. -/
structure Done where
  segments : Segments
  printed : List Printed
  ending : Ending

/-- `except ValueError as e: ... return status`. -/
def Failed.ending (status : Nat) (failed : Failed) : Ending :=
  if failed.isValueError then .returns status else .raises failed

/-- `_cmd_validate`. -/
def cmdValidate (segments : Segments) (srcId dstId : String) (mode : SourceTsMode)
    (sample : Int) : Done :=
  match validateSegments segments srcId dstId mode sample with
  | .error failed => ⟨segments, [], failed.ending 1⟩
  | .ok report => ⟨segments, [.validate report], .returns 0⟩

/-- `_cmd_migrate`: the target is validated once it is written. -/
def cmdMigrate (segments : Segments) (srcId dstId : String) (mode : SourceTsMode) (force : Bool)
    (sample : Int) : Done :=
  match migrate segments srcId dstId mode force with
  | .error (.fileExists _) => ⟨segments, [], .returns 2⟩
  | .error failed => ⟨segments, [], failed.ending 2⟩
  | .ok (segments, stat) =>
      let validated := cmdValidate segments srcId dstId mode sample
      { validated with printed := .migrate stat :: validated.printed }

/-- What `_cmd_info` collects of a file. -/
def readInfo (id : String) (file : Bytes) : Except Raised (Option Info) := do
  let version ← peekSegmentVersion file
  if version = shmVersionV1 then
    let seg ← readV1Segment file
    pure (some ⟨id, seg.version, seg.maxPoints, seg.maxSubscribers, none, none, none,
      totalSizeV1 seg.maxPoints seg.maxSubscribers, none, "v1"⟩)
  else if version = shmVersionV2 then
    let seg ← readV2SourceSegment file
    -- the two fields of the header that `Source` has no place for
    let hdr ← parseV2Header (file.slice 0 headerV2Size) none
    pure (some ⟨id, seg.version, seg.maxPoints, seg.maxSubscribers,
      some (layoutBuckets seg.maxPoints), some hdr.indexCount,
      some (layoutMetaSize seg.maxPoints), totalSizeV2 seg.maxPoints seg.maxSubscribers,
      some hdr.crc32, "v2"⟩)
  else if version = shmVersionV3 then
    let seg ← readV2Segment file
    pure (some ⟨id, seg.version, seg.maxPoints, seg.maxSubscribers,
      some (layoutBuckets seg.maxPoints), some seg.indexCount,
      some (layoutMetaSize seg.maxPoints), totalSizeV2 seg.maxPoints seg.maxSubscribers,
      some seg.crc32, "v3"⟩)
  else pure none

/-- `_cmd_info`. -/
def cmdInfo (segments : Segments) (id : String) : Done :=
  match segments id with
  | none => ⟨segments, [], .returns 1⟩
  | some file =>
      match readInfo id file with
      | .error raised => ⟨segments, [], (Failed.raised raised).ending 1⟩
      | .ok none => ⟨segments, [], .returns 1⟩
      | .ok (some info) => ⟨segments, [.info info], .returns 0⟩

/-- A command line. -/
inductive Command where
  | migrate (srcId dstId : String) (mode : SourceTsMode) (force : Bool) (sample : Int)
  | validate (srcId dstId : String) (mode : SourceTsMode) (sample : Int)
  | info (id : String)

/-- `args.func(args)`. -/
def Command.run (segments : Segments) : Command → Done
  | .migrate srcId dstId mode force sample => cmdMigrate segments srcId dstId mode force sample
  | .validate srcId dstId mode sample => cmdValidate segments srcId dstId mode sample
  | .info id => cmdInfo segments id

/-- One command after the other. -/
def runCommands (segments : Segments) (commands : List Command) : Segments :=
  commands.foldl (fun segments command => (command.run segments).segments) segments

/-! ## What is built, whatever the names -/

theorem packU32s_ok {raw raw' : Bytes} {o : Nat} {values : List Nat}
    (h : packU32s raw o values = .ok raw') :
    (∀ v ∈ values, v < 2 ^ 32) ∧ o + 4 * values.length ≤ raw.length ∧
      Packed raw o values raw' := by
  unfold packU32s at h
  split at h
  next hfits =>
    obtain ⟨packed, hpack, hpacked⟩ := packU32s_packed raw o values hfits.1 hfits.2
    rw [packU32s, if_pos hfits] at hpack
    cases h
    cases hpack
    exact ⟨hfits.1, hfits.2, hpacked⟩
  next => cases h

/-- A loop keeps what each of its turns keeps. -/
theorem foldlM_keeps {α β : Type} {f : β → α → Except Raised β} {P : β → Prop}
    (hstep : ∀ b a b', P b → f b a = .ok b' → P b') :
    ∀ (l : List α) {b b' : β}, P b → l.foldlM f b = .ok b' → P b' := by
  intro l
  induction l with
  | nil =>
      intro b b' hb h
      cases h
      exact hb
  | cons a rest ih =>
      intro b b' hb h
      rw [List.foldlM_cons] at h
      obtain ⟨next, hnext, h⟩ := exists_of_bind h
      exact ih (hstep b a next hb hnext) h

theorem packSlot_length {slots slots' : Bytes} {i hash pid : Nat}
    (h : packSlot slots i hash pid = .ok slots') : slots'.length = slots.length :=
  (packU32s_ok h).2.2.length

theorem placeLoop_length {points name : Bytes} {capacity hash pid partition : Nat} :
    ∀ n d (v v' : Placing),
      placeLoop points capacity hash pid name partition n d v = .ok v' →
        v'.slots.length = v.slots.length := by
  intro n
  induction n with
  | zero =>
      intro d v v' h
      cases h
      rfl
  | succ n ih =>
      intro d v v' h
      obtain ⟨⟨sh, spid⟩, -, h⟩ := exists_of_bind h
      dsimp only at h
      split at h
      · obtain ⟨slots, hpack, h⟩ := exists_of_bind h
        cases h
        exact packSlot_length hpack
      split at h
      · refine (ih _ _ _ h).trans ?_
        split <;> rfl
      obtain ⟨found, -, h⟩ := exists_of_bind h
      split at h
      · obtain ⟨slots, hpack, h⟩ := exists_of_bind h
        cases h
        exact packSlot_length hpack
      · exact ih _ _ _ h

theorem indexPoint_length {points : Bytes} {capacity pid : Nat} {built built' : Bytes × Nat}
    (h : indexPoint points capacity built pid = .ok built') :
    built'.1.length = built.1.length := by
  unfold indexPoint at h
  dsimp only at h
  split at h
  · cases h
    rfl
  obtain ⟨partition, -, h⟩ := exists_of_bind h
  obtain ⟨v, hplace, h⟩ := exists_of_bind h
  have hplaced := placeLoop_length _ _ _ _ hplace
  obtain ⟨⟨slots, counted⟩, hsettle, h⟩ := exists_of_bind h
  cases h
  unfold settle at hsettle
  split at hsettle
  · obtain ⟨slots', hpack, hsettle⟩ := exists_of_bind hsettle
    cases hsettle
    exact (packSlot_length hpack).trans hplaced
  · cases hsettle
    exact hplaced

theorem buildIndex_length {points slots : Bytes} {maxPoints capacity count : Nat}
    (h : buildIndex points maxPoints capacity = .ok (slots, count)) :
    slots.length = capacity * indexSlotSize := by
  obtain ⟨cleared, hclear, h⟩ := exists_of_bind h
  have hcleared : cleared.length = capacity * indexSlotSize :=
    foldlM_keeps (P := fun slots : Bytes => slots.length = capacity * indexSlotSize)
      (fun _ _ _ hlen hpack => (packSlot_length hpack).trans hlen) _ List.length_replicate hclear
  exact foldlM_keeps (P := fun built : Bytes × Nat => built.1.length = capacity * indexSlotSize)
    (fun _ _ _ hlen hpoint => (indexPoint_length hpoint).trans hlen) _ hcleared h

theorem buildV2Header_ok {maxPoints maxSubscribers : Nat} {header : Bytes}
    (h : buildV2Header maxPoints maxSubscribers = .ok header) :
    maxSubscribers < 2 ^ 32 ∧ offSubsV2 maxPoints < 2 ^ 32 := by
  obtain ⟨raw₁, hpack₁, h⟩ := exists_of_bind h
  obtain ⟨raw₂, -, h⟩ := exists_of_bind h
  obtain ⟨raw₃, hpack₃, h⟩ := exists_of_bind h
  exact ⟨(packU32s_ok hpack₁).1 _ (by simp), (packU32s_ok hpack₃).1 _ (by simp)⟩

/-- A metadata region that came out empty is not carried: the source is one without. -/
def carried (src : Source) : Source :=
  if src.metadata = some [] then { src with version := shmVersionV1, metadata := none } else src

section Carried

variable (src : Source) (mode : SourceTsMode)

@[simp] theorem carried_maxPoints : (carried src).maxPoints = src.maxPoints := by
  unfold carried
  split <;> rfl

@[simp] theorem carried_maxSubscribers : (carried src).maxSubscribers = src.maxSubscribers := by
  unfold carried
  split <;> rfl

@[simp] theorem carried_points : (carried src).points = src.points := by
  unfold carried
  split <;> rfl

theorem targetPoints_carried : targetPoints (carried src) mode = targetPoints src mode := by
  rw [targetPoints, carried_maxPoints, carried_points, targetPoints]

theorem buildTargetSegment_carried :
    buildTargetSegment (carried src) mode = buildTargetSegment src mode := by
  unfold carried
  split
  next hempty =>
    rw [buildTargetSegment, buildTargetSegment, hempty]
    rfl
  next => rfl

end Carried

/-- What a target is built of, whatever the names. -/
structure Built (src : Source) (mode : SourceTsMode) (raw : Bytes) : Prop where
  fits : offSubsV2 src.maxPoints < 2 ^ 32
  inside : RegionsInside (carried src)
  bytes : ∃ slots count, TargetBytes (carried src) mode slots count raw

theorem buildTargetSegment_ok {src : Source} {mode : SourceTsMode} {raw : Bytes}
    (hN : 0 < src.maxPoints) (h : buildTargetSegment src mode = .ok raw) :
    Built src mode raw := by
  have hsame := buildTargetSegment_carried src mode
  rw [h] at hsame
  obtain ⟨header, hheader, h⟩ := exists_of_bind h
  obtain ⟨hM, hfits⟩ := buildV2Header_ok hheader
  split at h
  · cases h
  next hpoints =>
  obtain ⟨⟨slots, count⟩, hindex, h⟩ := exists_of_bind h
  obtain ⟨packed, hpack, h⟩ := exists_of_bind h
  have hcount : count < 2 ^ 32 := (packU32s_ok hpack).1 _ (by simp)
  have hmeta : ∀ area, (carried src).metadata = some area →
      area.length = layoutMetaSize src.maxPoints := by
    intro area harea
    unfold carried at harea
    split at harea
    · cases harea
    next hnonempty =>
    rw [harea] at h hnonempty
    unfold carryMeta at h
    dsimp only at h
    split at h
    next hempty =>
      rw [List.isEmpty_iff.mp hempty] at hnonempty
      exact absurd rfl hnonempty
    split at h
    · cases h
    next hlen => exact not_not.mp hlen
  have hinside : RegionsInside (carried src) := by
    refine ⟨?_, ?_⟩
    · rw [carried_points, carried_maxPoints]
      exact not_not.mp hpoints
    · rw [carried_maxPoints]
      exact hmeta
  refine ⟨hfits, hinside, slots, count, ?_⟩
  obtain ⟨raw', hbuilt, hbytes⟩ := @buildTargetSegment_eq (carried src) mode slots count
    (by rwa [carried_maxSubscribers]) (by rwa [carried_maxPoints]) (by rwa [carried_maxPoints])
    hinside.points hinside.metadata
    (by rw [targetPoints_carried, carried_maxPoints]; exact hindex)
    (by rw [carried_maxPoints]; exact buildIndex_length hindex) hcount
  rw [hsame] at hbuilt
  cases hbuilt
  exact hbytes

section Opened

variable {src : Source} {mode : SourceTsMode} {raw : Bytes} (h : Built src mode raw)
include h

theorem Built.peek : peekSegmentVersion raw = .ok shmVersionV3 := by
  obtain ⟨slots, count, hbytes⟩ := h.bytes
  have hlong : headerV2Size ≤ raw.length := by
    rw [hbytes.length]
    exact headerV2Size_le_totalSizeV2 _ _
  have hlen : (raw.slice 0 8).length = 8 := Bytes.length_slice (Nat.le_trans (by decide) hlong)
  have hbyte : ∀ o n, o + n ≤ 8 → readLe (raw.slice 0 8).mem o n = readLe raw.mem o n := by
    intro o n hend
    apply readLe_congr
    intro b hb
    rw [Bytes.mem_slice (by omega), Nat.zero_add]
  have hmagic : readLe raw.mem 0 4 = magicNumber := congrArg IrtHeader.magic hbytes.header
  have hversion : readLe raw.mem 4 4 = shmVersionV3 := congrArg IrtHeader.version hbytes.header
  rw [peekSegmentVersion, hlen, if_neg (Nat.lt_irrefl 8), hbyte 0 4 (by omega), hmagic,
    if_neg (not_not.mpr rfl), hbyte 4 4 (by omega), hversion]

/-- **What is built is never a source again.** -/
theorem Built.refused : readSourceSegment raw = .error (.versionUnsupported shmVersionV3) := by
  rw [readSourceSegment, h.peek, ok_bind, if_neg (by decide), if_neg (by decide)]

/-- What is read of it, its index and its metadata apart. -/
theorem Built.read (hok : SourceOk src) :
    ∃ slots count, TargetBytes (carried src) mode slots count raw ∧
      readV2Segment raw = .ok
        { version := shmVersionCurrent
          maxPoints := src.maxPoints
          maxSubscribers := src.maxSubscribers
          crc32 := (irtShmInitHeader src.maxPoints src.maxSubscribers 0).crc32
          indexCount := count
          points := targetPoints src mode
          index := slots
          metadata := raw.slice (offMetaV2 src.maxPoints)
            (offMetaV2 src.maxPoints + layoutMetaSize src.maxPoints) } := by
  obtain ⟨slots, count, hbytes⟩ := h.bytes
  have hcarried : SourceOk (carried src) := by
    have hpoints := h.inside.points
    rw [carried_points, carried_maxPoints] at hpoints
    unfold carried
    split
    · exact ⟨hok.maxPoints, hok.maxSubscribers, .inl ⟨rfl, hpoints, rfl⟩⟩
    · exact hok
  have hread := hbytes.read (by rw [carried_maxPoints]; exact h.fits) hcarried
  rw [carried_maxPoints, carried_maxSubscribers, targetPoints_carried] at hread
  exact ⟨slots, count, hbytes, hread⟩

end Opened

/-! ## What validation tells -/

theorem of_collect_nil {α β : Type} {f : α → Except Raised (Option β)} :
    ∀ {l : List α}, collect f l = .ok [] → ∀ a ∈ l, f a = .ok none := by
  intro l
  induction l with
  | nil =>
      intro _ a ha
      exact absurd ha List.not_mem_nil
  | cons a rest ih =>
      intro h
      obtain ⟨found, hfound, h⟩ := exists_of_bind h
      obtain ⟨others, hothers, h⟩ := exists_of_bind h
      obtain ⟨hnone, hnil⟩ := List.append_eq_nil_iff.mp (Except.ok.inj h)
      rw [hnil] at hothers
      rw [Option.toList_eq_nil_iff.mp hnone] at hfound
      intro b hb
      rcases List.mem_cons.mp hb with rfl | hrest
      · exact hfound
      · exact ih hothers b hrest

/-- An id without a mismatch is what its name is looked up as. -/
theorem indexProbe_of_indexMismatch {src : Source} {dst : Target} {pid : Nat}
    (h : indexMismatch src dst pid = .ok none) (hname : readPointName src.points pid ≠ []) :
    indexProbe dst.index (layoutBuckets src.maxPoints) dst.points
      (readPointName src.points pid) 0 = .ok (some pid) := by
  unfold indexMismatch at h
  dsimp only at h
  split at h
  next hempty => exact absurd (List.isEmpty_iff.mp hempty) hname
  obtain ⟨got, hprobe, h⟩ := exists_of_bind h
  have hgot := Except.ok.inj h
  split at hgot
  · cases hgot
  next hfound => rw [hprobe, not_not.mp hfound]

section Told

variable {src : Source} {mode : SourceTsMode} {file raw : Bytes} {report : Report}

/-- **A target that validates in full has a source that can be migrated**: its regions lie
inside the segment, and no name is there twice. -/
theorem Built.of_validate (h : Built src mode raw) (hread : readSourceSegment file = .ok src)
    (hvalid : validate file raw mode 0 = .ok report) :
    RegionsInside src ∧ ∀ i j, i < src.maxPoints → j < src.maxPoints →
      readPointName src.points i ≠ [] →
        readPointName src.points j = readPointName src.points i → j = i := by
  have hok := readSourceSegment_ok hread
  obtain ⟨slots, count, hbytes, hdst⟩ := h.read hok
  obtain ⟨source, hsource, hvalid⟩ := exists_of_bind hvalid
  obtain rfl : src = source := Except.ok.inj (hread.symm.trans hsource)
  rw [hdst, ok_bind] at hvalid
  dsimp only at hvalid
  rw [if_neg (not_not.mpr rfl), if_neg (not_not.mpr rfl), if_neg (not_not.mpr rfl)] at hvalid
  split at hvalid
  · cases hvalid
  obtain ⟨badPartition, -, hvalid⟩ := exists_of_bind hvalid
  split at hvalid
  · cases hvalid
  obtain ⟨idxMismatch, hindex, hvalid⟩ := exists_of_bind hvalid
  split at hvalid
  · cases hvalid
  next hkept =>
  split at hvalid
  · cases hvalid
  next hmatch =>
  refine ⟨?_, ?_⟩
  · have hsame : carried src = src := by
      unfold carried
      split
      next hempty =>
        -- an empty region would have to be the whole one of the target
        have hversion : src.version = shmVersionV2 := by
          rcases hok.version with ⟨-, -, hnone⟩ | ⟨hversion, -⟩
          · rw [hnone] at hempty
            cases hempty
          · exact hversion
        have hkept : src.metadata = some _ := not_not.mp fun hlost => hkept ⟨hversion, hlost⟩
        rw [hempty] at hkept
        have hlen := congrArg List.length (Option.some.inj hkept)
        rw [Bytes.length_slice] at hlen
        · have hpos := hok.maxPoints
          simp only [List.length_nil, layoutMetaSize, metaSizePerPoint] at hlen
          omega
        · rw [hbytes.length, carried_maxPoints, carried_maxSubscribers]
          exact Nat.le_add_right _ _
      next => rfl
    rw [← hsame]
    exact h.inside
  · intro i j hi hj hname hsame
    have hnil : idxMismatch = [] := not_not.mp fun hsome => hmatch (.inr hsome)
    rw [hnil] at hindex
    have hids : ∀ id, id < src.maxPoints → id ∈ sampledIds src.maxPoints 0 :=
      fun id hid => List.mem_range.mpr hid
    have hi' := indexProbe_of_indexMismatch (of_collect_nil hindex i (hids i hi)) hname
    have hj' := indexProbe_of_indexMismatch (of_collect_nil hindex j (hids j hj))
      (by rw [hsame]; exact hname)
    rw [hsame] at hj'
    exact Option.some.inj (Except.ok.inj (hj'.symm.trans hi'))

end Told

/-! ## One migration -/

/-- A migration that can be carried out. -/
structure Migratable (segments : Segments) (srcId dstId : String) (force : Bool) (file : Bytes)
    (src : Source) : Prop where
  source : segments srcId = some file
  read : readSourceSegment file = .ok src
  inside : RegionsInside src
  distinct : ∀ i j, i < src.maxPoints → j < src.maxPoints → readPointName src.points i ≠ [] →
    readPointName src.points j = readPointName src.points i → j = i
  fits : offSubsV2 src.maxPoints < 2 ^ 32
  free : force = true ∨ segments dstId = none

/-- The names of a segment end inside their fields, as the library keeps them. -/
def NamesEnd (segments : Segments) (srcId : String) : Prop :=
  ∀ file src id, segments srcId = some file → readSourceSegment file = .ok src →
    id < src.maxPoints → (readPointName src.points id).length ≤ nameMax

section Migration

variable {segments : Segments} {srcId dstId : String} {mode : SourceTsMode} {force : Bool}

/-- A migration that is carried out has read a source, built a target and found room. -/
structure Migrated (segments : Segments) (srcId dstId : String) (mode : SourceTsMode)
    (force : Bool) (file : Bytes) (src : Source) (raw : Bytes) : Prop where
  source : segments srcId = some file
  read : readSourceSegment file = .ok src
  built : buildTargetSegment src mode = .ok raw
  free : force = true ∨ segments dstId = none

theorem Migrated.migrate {file raw : Bytes} {src : Source}
    (h : Migrated segments srcId dstId mode force file src raw) :
    ∃ stat, migrate segments srcId dstId mode force =
      .ok (Function.update segments dstId (some raw), stat) := by
  have hfree : ((segments dstId).isSome && !force) = false := by
    rcases h.free with hforce | hnone
    · rw [hforce, Bool.not_true, Bool.and_false]
    · rw [hnone, Option.isSome_none, Bool.false_and]
  have hopen : openSegment segments srcId readSourceSegment = .ok src := by
    rw [openSegment, h.source]
    dsimp only
    rw [h.read]
    rfl
  have hwrite : writeSegment segments dstId raw force =
      .ok (Function.update segments dstId (some raw), (segments dstId).isSome) := by
    rw [writeSegment, hfree]
    rfl
  simp only [Migrate.migrate, hopen, h.built, hwrite, Except.mapError, bind, Except.bind]
  exact ⟨_, rfl⟩

theorem migrate_ok {segments' : Segments} {stat : Stat}
    (h : migrate segments srcId dstId mode force = .ok (segments', stat)) :
    ∃ file src raw, Migrated segments srcId dstId mode force file src raw ∧
      segments' = Function.update segments dstId (some raw) := by
  unfold migrate openSegment at h
  cases hsource : segments srcId with
  | none =>
      rw [hsource] at h
      cases h
  | some file =>
  rw [hsource] at h
  dsimp only at h
  cases hread : readSourceSegment file with
  | error raised =>
      rw [hread] at h
      cases h
  | ok src =>
  rw [hread] at h
  cases hbuilt : buildTargetSegment src mode with
  | error raised =>
      simp only [Except.mapError, hbuilt, bind, Except.bind] at h
      cases h
  | ok raw =>
  simp only [Except.mapError, hbuilt, bind, Except.bind, writeSegment] at h
  cases hexists : (segments dstId).isSome && !force with
  | true =>
      rw [hexists] at h
      cases h
  | false =>
  rw [hexists] at h
  cases h
  refine ⟨file, src, raw, ⟨hsource, hread, hbuilt, ?_⟩, rfl⟩
  rcases Bool.and_eq_false_iff.mp hexists with hnone | hforce
  · exact .inr (Option.isSome_eq_false_iff.mp hnone |> Option.isNone_iff_eq_none.mp)
  · exact .inl (by simpa using hforce)

/-- **The command either stops before it writes anything, or writes the target whole** and
then validates it. -/
theorem cmdMigrate_cases (segments : Segments) (srcId dstId : String) (mode : SourceTsMode)
    (force : Bool) (sample : Int) :
    ((cmdMigrate segments srcId dstId mode force sample).segments = segments ∧
      (cmdMigrate segments srcId dstId mode force sample).printed = [] ∧
        ∀ status, (cmdMigrate segments srcId dstId mode force sample).ending = .returns status →
          status = 2) ∨
    ∃ file src raw stat, Migrated segments srcId dstId mode force file src raw ∧
      cmdMigrate segments srcId dstId mode force sample =
        let segments := Function.update segments dstId (some raw)
        let validated := cmdValidate segments srcId dstId mode sample
        { validated with printed := .migrate stat :: validated.printed } := by
  unfold cmdMigrate
  cases hdone : migrate segments srcId dstId mode force with
  | error failed =>
      refine .inl ?_
      cases failed with
      | fileExists id => exact ⟨rfl, rfl, fun status h => (Ending.returns.inj h).symm⟩
      | fileNotFound id => exact ⟨rfl, rfl, fun status h => by cases h⟩
      | raised raised =>
          refine ⟨rfl, rfl, fun status h => ?_⟩
          dsimp only at h
          unfold Failed.ending at h
          split at h
          · exact (Ending.returns.inj h).symm
          · cases h
  | ok written =>
      obtain ⟨file, src, raw, hmigrated, hwritten⟩ := migrate_ok hdone
      exact .inr ⟨file, src, raw, written.2, hmigrated, by rw [← hwritten]⟩

theorem Migrated.bytes {file raw : Bytes} {src : Source}
    (h : Migrated segments srcId dstId mode force file src raw) : Built src mode raw :=
  buildTargetSegment_ok (readSourceSegment_ok h.read).maxPoints h.built

/-- A source with distinct names has its target, and nothing is lost. -/
theorem Migratable.lossless {file : Bytes} {src : Source}
    (h : Migratable segments srcId dstId force file src) (hnames : NamesEnd segments srcId) :
    ∃ raw, Migrated segments srcId dstId mode force file src raw ∧
      Lossless file src mode raw := by
  have hok := readSourceSegment_ok h.read
  have hdistinct : NamesDistinct src :=
    ⟨fun id hid => hnames file src id h.source h.read hid, h.distinct⟩
  obtain ⟨slots, count, hindex⟩ := targetIndex mode h.inside hdistinct h.fits
  obtain ⟨-, hn, -, -, hmeta, -⟩ := offsets_eq h.fits
  have hcounted := hindex.counted
  obtain ⟨raw, hbuilt, hbytes⟩ := buildTargetSegment_eq hok.maxSubscribers h.fits hok.maxPoints
    h.inside.points h.inside.metadata hindex.built hindex.length (by omega)
  have hunowned : (decodeHeader raw.mem).ownerPid = 0 ∧ (decodeHeader raw.mem).writeSeq = 0 := by
    rw [hbytes.header]
    exact ⟨rfl, rfl⟩
  have hrecords : ∀ id, id < src.maxPoints →
      (segmentAt raw).points id = migratedPoint mode (recordsOf src.points id) :=
    fun id hid => (hbytes.record hid).trans (targetPoints_record mode h.inside hid)
  have hoff : (decodeHeader raw.mem).offMeta = offMetaV2 src.maxPoints := by
    rw [hbytes.header, hmeta]
    rfl
  have hkept : ∀ area, src.metadata = some area → raw.slice (decodeHeader raw.mem).offMeta
      ((decodeHeader raw.mem).offMeta + area.length) = area := by
    intro area harea
    rw [hoff, h.inside.metadata area harea]
    exact hbytes.metadata area harea
  exact ⟨raw, ⟨h.source, h.read, hbuilt, h.free⟩,
    hbytes.validate h.fits hok h.read h.inside hindex, hbytes.attach, hunowned, hrecords, hkept,
    fun id name => hbytes.lookup h.fits h.inside hdistinct hindex⟩

/-- A validation writes nothing. -/
theorem cmdValidate_segments (sample : Int) :
    (cmdValidate segments srcId dstId mode sample).segments = segments := by
  unfold cmdValidate
  split <;> rfl

theorem cmdValidate_returns {sample : Int} {status : Nat}
    (h : (cmdValidate segments srcId dstId mode sample).ending = .returns status) :
    status = 0 ∧ (∃ report, validateSegments segments srcId dstId mode sample = .ok report) ∨
      status = 1 := by
  unfold cmdValidate at h
  split at h
  next failed _ =>
    dsimp only at h
    unfold Failed.ending at h
    split at h
    · exact .inr (Ending.returns.inj h).symm
    · cases h
  next report hreport => exact .inl ⟨(Ending.returns.inj h).symm, report, hreport⟩

/-- Away from the source, the files that were written are the ones validated. -/
theorem validateSegments_update {file raw : Bytes} (hsource : segments srcId = some file)
    (hapart : srcId ≠ dstId) (sample : Int) :
    validateSegments (Function.update segments dstId (some raw)) srcId dstId mode sample =
      (validate file raw mode sample).mapError .raised := by
  rw [validateSegments, Function.update_of_ne hapart, Function.update_self, hsource]

/-- In place, the source is gone. -/
theorem validateSegments_inPlace {raw : Bytes}
    (hrefused : readSourceSegment raw = .error (.versionUnsupported shmVersionV3)) (id : String)
    (sample : Int) :
    validateSegments (Function.update segments id (some raw)) id id mode sample =
      .error (.raised (.versionUnsupported shmVersionV3)) := by
  rw [validateSegments, Function.update_self]
  dsimp only
  rw [validate, hrefused]
  rfl

/-- A target is refused as a source. -/
theorem cmdMigrate_refused {raw : Bytes} (hsource : segments srcId = some raw)
    (hrefused : readSourceSegment raw = .error (.versionUnsupported shmVersionV3))
    (dstId : String) (mode : SourceTsMode) (force : Bool) (sample : Int) :
    cmdMigrate segments srcId dstId mode force sample = ⟨segments, [], .returns 2⟩ := by
  have hmigrate : migrate segments srcId dstId mode force =
      .error (.raised (.versionUnsupported shmVersionV3)) := by
    rw [migrate, openSegment, hsource]
    dsimp only
    rw [hrefused]
    rfl
  rw [cmdMigrate, hmigrate]
  rfl

/-- What a migration leaves: the target holds all of the source and is never a source itself,
and every other segment is as it was. -/
structure Certified (segments : Segments) (dstId : String) (mode : SourceTsMode) (file : Bytes)
    (src : Source) (after : Segments) : Prop where
  target : ∃ raw, after = Function.update segments dstId (some raw) ∧ Lossless file src mode raw
  info : ∃ count crc, cmdInfo after dstId = ⟨after, [.info ⟨dstId, shmVersionV3, src.maxPoints,
    src.maxSubscribers, some (layoutBuckets src.maxPoints), some count,
    some (layoutMetaSize src.maxPoints), totalSizeV2 src.maxPoints src.maxSubscribers, some crc,
    "v3"⟩], .returns 0⟩
  refused : ∀ id mode force sample,
    cmdMigrate after dstId id mode force sample = ⟨after, [], .returns 2⟩

theorem Migrated.certified {file raw : Bytes} {src : Source}
    (h : Migrated segments srcId dstId mode force file src raw)
    (hlossless : Lossless file src mode raw) :
    Certified segments dstId mode file src (Function.update segments dstId (some raw)) := by
  obtain ⟨slots, count, hbytes, hread⟩ := h.bytes.read (readSourceSegment_ok h.read)
  have hself : Function.update segments dstId (some raw) dstId = some raw :=
    Function.update_self ..
  refine ⟨⟨raw, rfl, hlossless⟩,
    ⟨count, (irtShmInitHeader src.maxPoints src.maxSubscribers 0).crc32, ?_⟩,
    cmdMigrate_refused hself h.bytes.refused⟩
  rw [cmdInfo, hself]
  dsimp only
  rw [readInfo, h.bytes.peek, ok_bind, if_neg (by decide), if_neg (by decide), if_pos rfl, hread,
    ok_bind]
  rfl

/-- Status 0 is left only for a source that can be migrated to another place. -/
theorem cmdMigrate_zero (hzero : (cmdMigrate segments srcId dstId mode force 0).ending =
    .returns 0) : srcId ≠ dstId ∧ ∃ file src, Migratable segments srcId dstId force file src := by
  rcases cmdMigrate_cases segments srcId dstId mode force 0 with
    ⟨-, -, hstopped⟩ | ⟨file, src, raw, stat, hmigrated, hdone⟩
  · exact absurd (hstopped 0 hzero) (by decide)
  · rw [hdone] at hzero
    obtain ⟨-, report, hreport⟩ := (cmdValidate_returns hzero).resolve_right (by decide)
    rcases eq_or_ne srcId dstId with rfl | hapart
    · rw [validateSegments_inPlace hmigrated.bytes.refused] at hreport
      cases hreport
    · rw [validateSegments_update hmigrated.source hapart] at hreport
      cases hvalid : validate file raw mode 0 with
      | error raised =>
          rw [hvalid] at hreport
          cases hreport
      | ok report =>
          obtain ⟨hinside, hdistinct⟩ := hmigrated.bytes.of_validate hmigrated.read hvalid
          exact ⟨hapart, file, src, hmigrated.source, hmigrated.read, hinside, hdistinct,
            hmigrated.bytes.fits, hmigrated.free⟩

/-- With status 2 nothing was written. -/
theorem cmdMigrate_two {sample : Int}
    (htwo : (cmdMigrate segments srcId dstId mode force sample).ending = .returns 2) :
    (cmdMigrate segments srcId dstId mode force sample).segments = segments := by
  rcases cmdMigrate_cases segments srcId dstId mode force sample with
    ⟨hsame, -, -⟩ | ⟨file, src, raw, stat, -, hdone⟩
  · exact hsame
  · rw [hdone] at htwo
    rcases cmdValidate_returns htwo with ⟨hstatus, -⟩ | hstatus
    · cases hstatus
    · cases hstatus

/-- **The exit status of a migration certifies it**: with status 0 the source is there, away
from the target, inside its regions and without a name that is there twice; with status 2
nothing was written.  And where the names end inside their fields such a source is migrated
without loss: away from the target the status is 0; a migration in place leaves the same
target, but the validation behind it finds no source and the status is 1. -/
theorem cmdMigrate_certifies (segments : Segments) (srcId dstId : String) (mode : SourceTsMode)
    (force : Bool) :
    ((cmdMigrate segments srcId dstId mode force 0).ending = .returns 0 →
      srcId ≠ dstId ∧ ∃ file src, Migratable segments srcId dstId force file src) ∧
    (∀ sample, (cmdMigrate segments srcId dstId mode force sample).ending = .returns 2 →
      (cmdMigrate segments srcId dstId mode force sample).segments = segments) ∧
    (NamesEnd segments srcId → ∀ file src, Migratable segments srcId dstId force file src →
      ∀ sample,
        Certified segments dstId mode file src
          (cmdMigrate segments srcId dstId mode force sample).segments ∧
        (cmdMigrate segments srcId dstId mode force sample).ending =
          .returns (if srcId = dstId then 1 else 0)) := by
  refine ⟨cmdMigrate_zero, fun _ => cmdMigrate_two, fun hnames file src h sample => ?_⟩
  obtain ⟨raw, hmigrated, hlossless⟩ : ∃ raw, Migrated segments srcId dstId mode force file src
      raw ∧ Lossless file src mode raw := h.lossless hnames
  obtain ⟨stat, hmigrate⟩ := hmigrated.migrate
  have hcertified := hmigrated.certified hlossless
  rw [cmdMigrate, hmigrate]
  dsimp only
  rcases eq_or_ne srcId dstId with rfl | hapart
  · rw [cmdValidate, validateSegments_inPlace hmigrated.bytes.refused, if_pos rfl]
    exact ⟨hcertified, rfl⟩
  · obtain ⟨report, hreport⟩ := hlossless.validates sample
    rw [cmdValidate, validateSegments_update h.source hapart, hreport, if_neg hapart]
    exact ⟨hcertified, rfl⟩

end Migration

/-- A segment of version 2 with a name that is there twice. -/
def twiceFile : Bytes := fourFile.store 557 558 [97]

/-- A machine with the two segments. -/
def twoSegments (id : String) : Option Bytes :=
  if id = "old" then some fourFile else if id = "twice" then some twiceFile else none

theorem fourFile_read : readSourceSegment fourFile = .ok fourSource := by decide +kernel

theorem twoSegments_names : NamesEnd twoSegments "old" := by
  intro file src id hsource hread hid
  obtain rfl : fourFile = file := Option.some.inj hsource
  obtain rfl := Except.ok.inj (fourFile_read.symm.trans hread)
  exact fourSource_distinct.fit id hid

/-- The one is migrated to another place and in place; the other never is with status 0. -/
theorem cmdMigrate_certifies_twoSegments :
    (cmdMigrate twoSegments "old" "new" .zero false 0).ending = .returns 0 ∧
      (cmdMigrate twoSegments "old" "old" .keep true 0).ending = .returns 1 ∧
      (cmdMigrate twoSegments "twice" "new" .zero false 0).ending ≠ .returns 0 := by
  have hfour : ∀ dstId force, (force = true ∨ twoSegments dstId = none) →
      Migratable twoSegments "old" dstId force fourFile fourSource := fun dstId force hfree =>
    ⟨rfl, fourFile_read, fourSource_inside, fourSource_distinct.distinct, by decide +kernel, hfree⟩
  refine ⟨?_, ?_, fun hzero => ?_⟩
  · exact ((cmdMigrate_certifies twoSegments "old" "new" .zero false).2.2 twoSegments_names _ _
      (hfour "new" false (.inr rfl)) 0).2
  · exact ((cmdMigrate_certifies twoSegments "old" "old" .keep true).2.2 twoSegments_names _ _
      (hfour "old" true (.inl rfl)) 0).2
  · obtain ⟨-, file, src, h⟩ :=
      (cmdMigrate_certifies twoSegments "twice" "new" .zero false).1 hzero
    obtain rfl : twiceFile = file := Option.some.inj h.source
    have hread : readSourceSegment twiceFile =
        .ok { fourSource with points := fourPoints.store 429 430 [97] } := by decide +kernel
    obtain rfl := Except.ok.inj (hread.symm.trans h.read)
    exact absurd (h.distinct 0 3 (by decide) (by decide) (by decide +kernel) (by decide +kernel))
      (by decide)

/-! ## Runs of the tool -/

/-- A target that one of the commands built straight from a segment of the beginning. -/
structure BuiltFrom (before : Segments) (commands : List Command) (id : String) (raw : Bytes)
    (srcId : String) (mode : SourceTsMode) (force : Bool) (sample : Int) (file : Bytes)
    (src : Source) : Prop where
  command : .migrate srcId id mode force sample ∈ commands
  /-- a segment that was there is replaced only by force -/
  free : force = true ∨ before id = none
  source : before srcId = some file
  read : readSourceSegment file = .ok src
  built : buildTargetSegment src mode = .ok raw

/-- A segment is the one of the beginning, or a target built from one of the beginning. -/
def Accounted (before : Segments) (commands : List Command) (after : Segments) : Prop :=
  ∀ id, after id = before id ∨ ∃ raw srcId mode force sample file src,
    after id = some raw ∧ BuiltFrom before commands id raw srcId mode force sample file src

section Runs

variable {before after : Segments} {commands : List Command}

theorem Command.run_segments (segments : Segments) (command : Command) :
    (command.run segments).segments = segments ∨
    ∃ srcId dstId mode force sample file src raw,
      command = .migrate srcId dstId mode force sample ∧
      Migrated segments srcId dstId mode force file src raw ∧
      (command.run segments).segments = Function.update segments dstId (some raw) := by
  cases command with
  | migrate srcId dstId mode force sample =>
      rcases cmdMigrate_cases segments srcId dstId mode force sample with
        ⟨hsame, -, -⟩ | ⟨file, src, raw, stat, hmigrated, hdone⟩
      · exact .inl hsame
      · refine .inr ⟨srcId, dstId, mode, force, sample, file, src, raw, rfl, hmigrated, ?_⟩
        rw [Command.run, hdone]
        exact cmdValidate_segments sample
  | validate srcId dstId mode sample => exact .inl (cmdValidate_segments sample)
  | info id =>
      refine .inl ?_
      rw [Command.run]
      unfold cmdInfo
      split
      · rfl
      · split <;> rfl

theorem Accounted.mono (h : Accounted before commands after) (command : Command) :
    Accounted before (commands ++ [command]) after := by
  intro id
  refine (h id).imp_right ?_
  rintro ⟨raw, srcId, mode, force, sample, file, src, hraw, hbuilt⟩
  exact ⟨raw, srcId, mode, force, sample, file, src, hraw,
    { hbuilt with command := List.mem_append_left _ hbuilt.command }⟩

/-- One command: a target is refused as a source, so that what is read is from the beginning. -/
theorem Accounted.run (h : Accounted before commands after) (command : Command) :
    Accounted before (commands ++ [command]) (command.run after).segments := by
  rcases command.run_segments after with
    hsame | ⟨srcId, dstId, mode, force, sample, file, src, raw, hcommand, hmigrated, hdone⟩
  · rw [hsame]
    exact h.mono command
  · rw [hdone]
    intro id
    rcases eq_or_ne id dstId with rfl | hother
    · refine .inr ⟨raw, srcId, mode, force, sample, file, src, Function.update_self .., ?_⟩
      refine ⟨?_, ?_, ?_, hmigrated.read, hmigrated.built⟩
      · rw [hcommand]
        exact List.mem_append_right _ List.mem_cons_self
      · refine hmigrated.free.imp_right fun hnone => ?_
        rcases h id with hsame | ⟨raw', _, _, _, _, _, _, hraw', -⟩
        · rw [← hsame, hnone]
        · rw [hnone] at hraw'
          cases hraw'
      · rcases h srcId with hsame | ⟨raw', _, _, _, _, file', src', hraw', hbuilt⟩
        · rw [← hsame, hmigrated.source]
        · have hrefused := (buildTargetSegment_ok (readSourceSegment_ok hbuilt.read).maxPoints
            hbuilt.built).refused
          obtain rfl : file = raw' := Option.some.inj (hmigrated.source.symm.trans hraw')
          rw [hmigrated.read] at hrefused
          cases hrefused
    · rw [Function.update_of_ne hother]
      exact h.mono command id

/-- **Nothing is migrated twice**: after any commands, every segment is as it was, or it is a
target built straight from a segment that was there at the beginning, by a command that names
it and was forced if a segment stood there; and such a target is refused as a source. -/
theorem runCommands_accounted (before : Segments) (commands : List Command) (id : String) :
    runCommands before commands id = before id ∨
    ∃ raw srcId mode force sample file src,
      runCommands before commands id = some raw ∧
      BuiltFrom before commands id raw srcId mode force sample file src ∧
      ∀ dstId mode force sample,
        cmdMigrate (runCommands before commands) id dstId mode force sample =
          ⟨runCommands before commands, [], .returns 2⟩ := by
  have haccounted : Accounted before commands (runCommands before commands) := by
    induction commands using List.reverseRecOn with
    | nil => exact fun id => .inl rfl
    | append_singleton rest command ih =>
        rw [runCommands, List.foldl_append, List.foldl_cons, List.foldl_nil]
        exact ih.run command
  refine (haccounted id).imp_right ?_
  rintro ⟨raw, srcId, mode, force, sample, file, src, hraw, hbuilt⟩
  exact ⟨raw, srcId, mode, force, sample, file, src, hraw, hbuilt, cmdMigrate_refused hraw
    (buildTargetSegment_ok (readSourceSegment_ok hbuilt.read).maxPoints hbuilt.built).refused⟩

end Runs

end InduRtdb.Migrate
