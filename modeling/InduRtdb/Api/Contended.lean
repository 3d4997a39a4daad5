/-
  Api/Contended.lean --- the calls of a handle that take or check the lock word, among
  other processes.

  Source: `src/api/indurtdb.c` (`h_translate_write_rc`, the `indurtdb_h_write_` family,
  `indurtdb_h_set_quality`, `indurtdb_h_set_meta`, `indurtdb_h_get_meta`,
  `indurtdb_h_find_by_name_in`, `indurtdb_h_create_point_in`, `indurtdb_h_delete_point_in`,
  `indurtdb_h_rename_point_in`, `indurtdb_h_load_config`), `pm_write_impl_q` and
  `irt_pm_set_quality` of `src/core/irt_point_manager.c`, `irt_meta_set` and `irt_meta_get`
  of `src/core/irt_shm.c`.

  The other processes are those of `Api/Atomicity`.  A call returns its code, and on its way
  it keeps what it meets: the segments it gets hold of, and each retry loop that it gives
  up.  Messages and callbacks are left out.
-/
import InduRtdb.Api.Atomicity
import InduRtdb.Api.Values

set_option autoImplicit false

namespace InduRtdb.Api

open InduRtdb.Core InduRtdb.Lib

/-! ## Calls on their way -/

/-- What a call meets. -/
inductive Met where
  /-- the segment under the lock that it has taken -/
  | held (seg : Segment)
  /-- the segment that it has read without the lock, and found unchanged -/
  | read (seg : Segment)
  /-- the last try of a retry loop, in vain -/
  | gaveUp

/-- A call on its way: what it works on, what the others do next, and what it has met. -/
structure CallState where
  h : IndurtdbH
  others : Others
  met : List Met

namespace CallState

/-- A call that begins. -/
def start (h : IndurtdbH) (others : Others) : CallState := ⟨h, others, []⟩

/-- A section that keeps the segment it finds under the lock. -/
def witnessed {ρ : Type} (body : Segment → ρ × Segment) (seg : Segment) :
    (ρ × Segment) × Segment :=
  (((body seg).1, seg), (body seg).2)

/-- `n` tries to take the lock for a section. -/
def tries {ρ : Type} (n : Nat) (body : Segment → ρ × Segment) (c : CallState) :
    Option ρ × CallState :=
  match sectionAmong (witnessed body) n c.others c.h.seg with
  | (none, seg, others) => (none, { c with h := { c.h with seg := seg }, others := others })
  | (some (r, held), seg, others) =>
      (some r, ⟨{ c.h with seg := seg }, others, c.met ++ [.held held]⟩)

def giveUp (c : CallState) : CallState := { c with met := c.met ++ [.gaveUp] }

/-- A retry loop around a section. -/
def locked {ρ : Type} (n : Nat) (body : Segment → ρ × Segment) (c : CallState) :
    Option ρ × CallState :=
  match c.tries n body with
  | (none, c) => (none, c.giveUp)
  | (some r, c) => (some r, c)

/-- What a lookup meets. -/
def metByLookup (found : Except Rc Nat) (seg : Segment) : List Met :=
  match found with
  | .ok _ => [.read seg]
  | .error .errNotFound => [.read seg]
  | .error .errBusy => [.gaveUp]
  | .error _ => []

/-- `irt_index_lookup`. -/
def lookup (partition : UInt32) (name : CStr) (c : CallState) : Except Rc Nat × CallState :=
  let looked := lookupAmong c.h.shm partition name c.others c.h.seg
  (looked.1, ⟨{ c.h with seg := looked.2.1 }, looked.2.2,
    c.met ++ metByLookup looked.1 looked.2.1⟩)

/-- `delta_log`. -/
def log (op id : Nat) (type access : UInt8) (name : CStr) (c : CallState) : CallState :=
  { c with h := deltaLog c.h op id type access name }

end CallState

/-! ## Values and quality -/

/-- `h_translate_write_rc`. -/
def hTranslateWriteRc (rc : Int) : Int :=
  if rc = 0 then Rc.ok.code
  else if rc = -1 then Rc.errArg.code
  else if rc = -2 then Rc.errBusy.code
  else if rc = -3 then Rc.errReadOnly.code
  else rc

/-- `stats.writes` is counted behind the section. -/
def countWrite (seg : Segment) : Segment :=
  { seg with hdr := { seg.hdr with statsWrites := u64 (seg.hdr.statsWrites + 1) } }

/-- `pm_write_impl_q`, with the codes of the point manager. -/
def pmWriteImplQ (id : Nat) (type : UInt8) (value : List UInt8) (sourceTsNs : Nat)
    (quality : UInt8) (now : Nat) (c : CallState) : Int × CallState :=
  if ¬ pmValidateId c.h.seg id then (-1, c)
  else
    match c.locked irtSeqlockMaxRetry fun seg =>
      pmWriteLocked seg id type value sourceTsNs quality now with
    | (none, c) => (-2, c)
    | (some .errReadOnly, c) => (-3, c)
    | (some _, c) => (0, { c with h := { c.h with seg := countWrite c.h.seg } })

/-- `irt_pm_set_quality`, with the codes of the point manager. -/
def irtPmSetQuality (id : Nat) (quality : UInt8) (c : CallState) : Int × CallState :=
  if ¬ pmValidateId c.h.seg id then (-1, c)
  else
    match c.locked 1 fun seg =>
      ((), seg.setPoint id { seg.points id with quality := quality }) with
    | (none, c) => (-2, c)
    | (some (), c) => (0, c)

/-- The values of the write functions; floating point numbers by their bits. -/
inductive WriteValue where
  | bool (value : Bool)
  | int32 (value : UInt32)
  | double (bits : UInt64)
  | string (value : CStr)
  | int64 (value : UInt64)
  | uint32 (value : UInt32)
  | float (bits : UInt32)

def WriteValue.type : WriteValue → UInt8
  | .bool _ => .ofNat indurtdbTypeBool
  | .int32 _ => .ofNat indurtdbTypeInt32
  | .double _ => .ofNat indurtdbTypeDouble
  | .string _ => .ofNat indurtdbTypeString
  | .int64 _ => .ofNat indurtdbTypeInt64
  | .uint32 _ => .ofNat indurtdbTypeUint32
  | .float _ => .ofNat indurtdbTypeFloat

/-- The memory that holds the value. -/
def WriteValue.bytes : WriteValue → List UInt8
  | .bool value => [if value then 1 else 0]
  | .int32 value => le32 value.toNat
  | .double bits => le32 bits.toNat ++ le32 (bits.toNat / 2 ^ 32)
  | .string value => value.bytes ++ [0]
  | .int64 value => le32 value.toNat ++ le32 (value.toNat / 2 ^ 32)
  | .uint32 value => le32 value.toNat
  | .float bits => le32 bits.toNat

/-- `indurtdb_h_write_quality_ts`. -/
def writeQualityTsAmong (id : Nat) (type : UInt8) (value : List UInt8) (sourceTsNs : Nat)
    (quality : UInt8) (now : Nat) (c : CallState) : Int × CallState :=
  let done := pmWriteImplQ id type value sourceTsNs quality now c
  (hTranslateWriteRc done.1, done.2)

/-- `indurtdb_h_write_bool_ts` and its siblings for the other types. -/
def writeTsAmong (id : Nat) (value : WriteValue) (sourceTsNs now : Nat) (c : CallState) :
    Int × CallState :=
  writeQualityTsAmong id value.type value.bytes sourceTsNs indurtdbQualityGood now c

/-- `indurtdb_h_write_bool` and its siblings for the other types. -/
def writeAmong (id : Nat) (value : WriteValue) (now : Nat) (c : CallState) : Int × CallState :=
  writeTsAmong id value 0 now c

/-- `indurtdb_h_set_quality`: the code of the point manager is passed on. -/
def setQualityAmong (id : Nat) (quality : UInt8) (c : CallState) : Int × CallState :=
  irtPmSetQuality id quality c

/-! ## Metadata and names -/

/-- `irt_meta_set`. -/
def metaSetAmong (id : Nat) (m : IndurtdbMeta) (c : CallState) : Rc × CallState :=
  if c.h.shm.maxPoints ≤ id then (.errArg, c)
  else if c.h.seg.hdr.offMeta = 0 then (.errArg, c)
  else
    match c.locked 1 fun seg => ((), seg.setMeta id m) with
    | (none, c) => (.errBusy, c)
    | (some (), c) => (.ok, c)

/-- `indurtdb_h_set_meta`. -/
def setMetaAmong (id : Nat) (m : IndurtdbMeta) (c : CallState) : Rc × CallState :=
  match indurtdbValidatePointMeta m with
  | some _ => (.errArg, c)
  | none => metaSetAmong id m c

/-- The attempts of `irt_meta_get`: a word that is odd, or changes under the copy, costs
one. -/
def metaGetAttemptsAmong (id : Nat) : Nat → CallState → Except Rc IndurtdbMeta × CallState
  | 0, c => (.error .errBusy, c.giveUp)
  | n + 1, c =>
      let seg := c.others.headD (fun seg => seg) c.h.seg
      let c : CallState := { c with h := { c.h with seg := seg }, others := c.others.tail }
      if seg.hdr.writeSeq % 2 = 1 then metaGetAttemptsAmong id n c
      else (.ok (seg.metas id), { c with met := c.met ++ [.read seg] })

/-- `indurtdb_h_get_meta`. -/
def getMetaAmong (id : Nat) (c : CallState) : Except Rc IndurtdbMeta × CallState :=
  if c.h.shm.maxPoints ≤ id then (.error .errArg, c)
  else if c.h.seg.hdr.offMeta = 0 then (.error .errArg, c)
  else metaGetAttemptsAmong id 16 c

/-- `indurtdb_h_find_by_name_in`. -/
def findByNameInAmong (partition : UInt32) (name : CStr) (c : CallState) :
    Except Rc Nat × CallState :=
  if name.isEmpty then (.error .errArg, c) else c.lookup partition name

/-! ## Points -/

/-- The section that `irt_index_insert` runs. -/
def insertSection (s : IrtShm) (partition : UInt32) (name : CStr) (id : Nat) (seg : Segment) :
    Rc × Segment :=
  irtIndexInsertLocked s seg partition name id

/-- The checks of `indurtdb_h_create_point_in` on its arguments. -/
def CreateArgs (s : IrtShm) (id : Nat) (name : CStr) (type access : Int) : Prop :=
  name.isEmpty = false ∧ 0 ≤ type ∧ type ≤ indurtdbTypeFloat ∧
    (access = indurtdbAccessReadOnly.toNat ∨ access = indurtdbAccessReadWrite.toNat) ∧
    id < s.maxPoints

instance (s : IrtShm) (id : Nat) (name : CStr) (type access : Int) :
    Decidable (CreateArgs s id name type access) :=
  inferInstanceAs (Decidable (_ ∧ _ ∧ _ ∧ _ ∧ _))

/-- The section of a creation that registers the point. -/
def registerSection (partition : UInt32) (id : Nat) (name : CStr) (type access : Int)
    (seg : Segment) : Rc × Segment :=
  registerLocked seg partition id name (.ofNat type.toNat) (.ofNat access.toNat)

/-- The end of `indurtdb_h_create_point_in`, behind the registration. -/
def indexPointAmong (partition : UInt32) (id : Nat) (name : CStr) (type access : Int)
    (c : CallState) : Rc × CallState :=
  match c.locked 1 (insertSection c.h.shm partition name id) with
  | (some .ok, c) =>
      (.ok, c.log irtDeltaOpCreate id (.ofNat type.toNat) (.ofNat access.toNat) name)
  | (inserted, c) =>
      (inserted.getD .errBusy,
        (c.locked irtSeqlockMaxRetry fun seg => unregisterLocked seg id).2)

/-- `indurtdb_h_create_point_in`. -/
def createAmong (partition : UInt32) (id : Nat) (name : CStr) (type access : Int)
    (c : CallState) : Rc × CallState :=
  if ¬ CreateArgs c.h.shm id name type access then (.errArg, c)
  else
    match c.lookup partition name with
    | (found, c) =>
        if foundOther found id then (.errArg, c)
        else
          match c.locked irtSeqlockMaxRetry (registerSection partition id name type access) with
          | (none, c) => (.errBusy, c)
          | (some .ok, c) => indexPointAmong partition id name type access c
          | (some rc, c) => (rc, c)

/-- `indurtdb_h_delete_point_in`. -/
def deleteAmong (partition : UInt32) (id : Nat) (c : CallState) : Rc × CallState :=
  if c.h.shm.maxPoints ≤ id then (.errArg, c)
  else
    match c.locked irtSeqlockMaxRetry fun seg => deleteLocked c.h.shm seg partition id with
    | (none, c) => (.errBusy, c)
    | (some .ok, c) => (.ok, c.log irtDeltaOpDelete id 0 0 CStr.empty)
    | (some rc, c) => (rc, c)

/-- `indurtdb_h_rename_point_in`. -/
def renameAmong (partition : UInt32) (id : Nat) (name : CStr) (c : CallState) : Rc × CallState :=
  if name.isEmpty then (.errArg, c)
  else if c.h.shm.maxPoints ≤ id then (.errArg, c)
  else
    match c.lookup partition name with
    | (found, c) =>
        if foundOther found id then (.errArg, c)
        else
          match c.locked irtSeqlockMaxRetry fun seg =>
            renameLocked c.h.shm seg partition id name with
          | (none, c) => (.errBusy, c)
          | (some (.failed rc), c) => (rc, c)
          | (some .same, c) => (.ok, c)
          | (some .changed, c) =>
              (.ok, c.log irtDeltaOpRename id (c.h.seg.points id).type
                (c.h.seg.points id).access name)

/-! ## The base configuration -/

/-- What `indurtdb_h_load_config` stores of a point. -/
def storeConfigured (pm : IrtPointMeta) (seg : Segment) : Unit × Segment :=
  ((), seg.setPoint pm.id
    { seg.points pm.id with
      type := pm.type
      unit := pm.unit
      access := pm.access
      partition := 0
      name := pm.name.strncpy nameMax })

/-- The attempts for one point: each takes the lock twice, once for the record and once for
the index.  `irt_index_insert` reads the name where it stands, in the record. -/
def configureAttempts (pm : IrtPointMeta) : Nat → CallState → Option Rc × CallState
  | 0, c => (none, c.giveUp)
  | n + 1, c =>
      match c.tries 1 (storeConfigured pm) with
      | (none, c) => configureAttempts pm n c
      | (some (), c) =>
          match c.tries 1 fun seg => insertSection c.h.shm 0 (seg.points pm.id).name pm.id seg with
          | (none, c) => configureAttempts pm n c
          | (some rc, c) => (some rc, c)

/-- The metadata of a point of the configuration, and `overall_rc` behind it. -/
def configureMeta (pm : IrtPointMeta) (overall : Rc) (c : CallState) : Rc × CallState :=
  if pm.hasMeta then
    match metaSetAmong pm.id pm.pointMeta c with
    | (.ok, c) => (overall, c)
    | (_, c) => (.errBusy, c)
  else (overall, c)

/-- The loop over the points. -/
def loadLoopAmong : List IrtPointMeta → Rc → CallState → Rc × CallState
  | [], overall, c => (overall, c)
  | pm :: rest, overall, c =>
      if c.h.shm.maxPoints ≤ pm.id ∨ indurtdbTypeFloat < pm.type.toNat then
        loadLoopAmong rest overall c
      else if pm.badValue then (.errArg, c)
      else
        match configureAttempts pm irtSeqlockMaxRetry c with
        | (some .errFull, c) => (.errFull, c)
        | (configured, c) =>
            let stored := configureMeta pm (if configured = none then .errBusy else overall) c
            loadLoopAmong rest stored.1 stored.2

/-- `indurtdb_h_load_config`; `parsed` is what `irt_point_config_parse_yaml` makes of the
file. -/
def loadConfigAmong (parsed : Option (List IrtPointMeta)) (c : CallState) : Rc × CallState :=
  match parsed with
  | none => (.errArg, c)
  | some batch =>
      if c.h.seg.hdr.offPoints = 0 ∨ c.h.shm.maxPoints = 0 then (.errArg, c)
      else loadLoopAmong batch .ok c

/-! ## The calls of `Api/Atomicity` -/

/-- Where a section gets the lock depends on the others alone. -/
theorem sectionAmong_at (n : Nat) (others : Others) (seg : Segment) :
    (HeldThroughout n others seg ∧ ∃ seg₁ left, ∀ {ρ : Type} (body : Segment → ρ × Segment),
      sectionAmong body n others seg = (none, seg₁, left)) ∨
    (¬ HeldThroughout n others seg ∧ ∃ held w left, ∀ {ρ : Type} (body : Segment → ρ × Segment),
      sectionAmong body n others seg =
        (some (body held).1, (body held).2.setWriteSeq w, left)) := by
  induction n generalizing others seg with
  | zero => exact .inl ⟨trivial, seg, others, fun _ => rfl⟩
  | succ n ih =>
      rcases Nat.mod_two_eq_zero_or_one (others.headD id seg).hdr.writeSeq with heven | hodd
      · have hnot : ¬ (others.headD id seg).hdr.writeSeq % 2 = 1 := by omega
        refine .inr ⟨fun hheld => hnot hheld.1, (others.headD id seg).setWriteSeq
          (u64 ((others.headD id seg).hdr.writeSeq + 1)),
          irtSeqlockWriteEnd (others.headD id seg).hdr.writeSeq, others.tail, fun body => ?_⟩
        simp only [sectionAmong, irtSeqlockWriteBegin, if_pos heven, if_neg hnot]
      · have hnot : ¬ (others.headD id seg).hdr.writeSeq % 2 = 0 := by omega
        have hlater : ∀ {ρ : Type} (body : Segment → ρ × Segment),
            sectionAmong body (n + 1) others seg =
              sectionAmong body n others.tail (others.headD id seg) := by
          intro ρ body
          simp only [sectionAmong, irtSeqlockWriteBegin, if_neg hnot, if_pos hodd]
        rcases ih others.tail (others.headD id seg) with
          ⟨hheld, seg₁, left, hrun⟩ | ⟨hfree, held, w, left, hrun⟩
        · exact .inl ⟨⟨hodd, hheld⟩, seg₁, left, fun body => (hlater body).trans (hrun body)⟩
        · exact .inr ⟨fun hheld => hfree hheld.2, held, w, left,
            fun body => (hlater body).trans (hrun body)⟩

section Same

variable {ρ : Type} {c : CallState}

/-- A retry loop around a section is the section, and what it meets. -/
theorem locked_eq (n : Nat) (body : Segment → ρ × Segment) (c : CallState) :
    ∃ met, c.locked n body = ((sectionAmong body n c.others c.h.seg).1,
      ⟨{ c.h with seg := (sectionAmong body n c.others c.h.seg).2.1 },
        (sectionAmong body n c.others c.h.seg).2.2, met⟩) := by
  rw [CallState.locked, CallState.tries]
  rcases sectionAmong_at n c.others c.h.seg with ⟨-, seg₁, left, hrun⟩ | ⟨-, held, w, left, hrun⟩
  · rw [hrun, hrun]
    exact ⟨_, rfl⟩
  · rw [hrun, hrun]
    exact ⟨_, rfl⟩

variable (partition : UInt32) (id : Nat) (name : CStr) (type access : Int) (c)

theorem deleteAmong_eq :
    ((deleteAmong partition id c).1, (deleteAmong partition id c).2.h) =
      deletePointInAmong c.h c.others partition id := by
  rw [deleteAmong, deletePointInAmong]
  split
  next => rfl
  next =>
    obtain ⟨met, hlocked⟩ := locked_eq irtSeqlockMaxRetry
      (fun seg => deleteLocked c.h.shm seg partition id) c
    rw [hlocked]
    generalize sectionAmong (fun seg => deleteLocked c.h.shm seg partition id) irtSeqlockMaxRetry
      c.others c.h.seg = done
    obtain ⟨outcome, seg, left⟩ := done
    cases outcome with
    | none => rfl
    | some rc =>
        cases rc with
        | _ => rfl

theorem renameAmong_eq :
    ((renameAmong partition id name c).1, (renameAmong partition id name c).2.h) =
      renamePointInAmong c.h c.others partition id name := by
  rw [renameAmong, renamePointInAmong]
  split
  next => rfl
  split
  next => rfl
  next =>
    rw [CallState.lookup]
    dsimp only
    split
    next => rfl
    next =>
      generalize lookupAmong c.h.shm partition name c.others c.h.seg = looked
      obtain ⟨found, seg₀, left₀⟩ := looked
      obtain ⟨met, hlocked⟩ := locked_eq irtSeqlockMaxRetry
        (fun seg => renameLocked c.h.shm seg partition id name)
        ⟨{ c.h with seg := seg₀ }, left₀, c.met ++ CallState.metByLookup found seg₀⟩
      dsimp only at hlocked ⊢
      rw [hlocked]
      generalize sectionAmong (fun seg => renameLocked c.h.shm seg partition id name)
        irtSeqlockMaxRetry left₀ seg₀ = done
      obtain ⟨outcome, seg, left⟩ := done
      cases outcome with
      | none => rfl
      | some renamed =>
          cases renamed with
          | failed rc => rfl
          | same => rfl
          | changed => rfl

theorem indexPointAmong_eq :
    ((indexPointAmong partition id name type access c).1,
        (indexPointAmong partition id name type access c).2.h) =
      indexRegistered c.h c.others partition id name type access c.h.seg := by
  have hbody : (fun seg => irtIndexInsertLocked c.h.shm seg partition name id) =
      insertSection c.h.shm partition name id := rfl
  rw [indexPointAmong, indexRegistered, hbody]
  obtain ⟨met, hlocked⟩ := locked_eq 1 (insertSection c.h.shm partition name id) c
  rw [hlocked]
  generalize sectionAmong (insertSection c.h.shm partition name id) 1 c.others c.h.seg = done
  obtain ⟨outcome, seg, left⟩ := done
  obtain ⟨met', hrolled⟩ := locked_eq irtSeqlockMaxRetry (fun seg => unregisterLocked seg id)
    ⟨{ c.h with seg := seg }, left, met⟩
  have hfailed : ((⟨{ c.h with seg := seg }, left, met⟩ : CallState).locked irtSeqlockMaxRetry
      fun seg => unregisterLocked seg id).2.h =
        { c.h with seg := (sectionAmong (fun seg => unregisterLocked seg id) irtSeqlockMaxRetry
          left seg).2.1 } := by
    rw [hrolled]
  cases outcome with
  | none => exact Prod.ext rfl hfailed
  | some rc =>
      cases rc with
      | ok => rfl
      | _ => exact Prod.ext rfl hfailed

theorem createAmong_eq :
    ((createAmong partition id name type access c).1,
        (createAmong partition id name type access c).2.h) =
      createPointInAmong c.h c.others partition id name type access := by
  unfold createAmong createPointInAmong
  rcases Decidable.em (CreateArgs c.h.shm id name type access) with hargs | hargs
  · obtain ⟨hname, hlow, hhigh, haccess, hid⟩ := hargs
    have htype : ¬ (type < 0 ∨ indurtdbTypeFloat < type) := by omega
    have haccess' : ¬ (access ≠ indurtdbAccessReadOnly.toNat ∧
        access ≠ indurtdbAccessReadWrite.toNat) := by tauto
    rw [registerAmong, if_neg (not_not.mpr ⟨hname, hlow, hhigh, haccess, hid⟩),
      if_neg (Bool.eq_false_iff.mp hname), if_neg htype, if_neg haccess',
      if_neg (Nat.not_le.mpr hid), CallState.lookup]
    generalize lookupAmong c.h.shm partition name c.others c.h.seg = looked
    obtain ⟨found, seg₀, left₀⟩ := looked
    dsimp only
    split
    next => rfl
    next =>
      obtain ⟨met, hlocked⟩ := locked_eq irtSeqlockMaxRetry
        (registerSection partition id name type access)
        ⟨{ c.h with seg := seg₀ }, left₀, c.met ++ CallState.metByLookup found seg₀⟩
      have hbody : (fun seg => registerLocked seg partition id name (.ofNat type.toNat)
          (.ofNat access.toNat)) = registerSection partition id name type access := rfl
      rw [hlocked, hbody]
      dsimp only
      generalize sectionAmong (registerSection partition id name type access) irtSeqlockMaxRetry
        left₀ seg₀ = done
      obtain ⟨outcome, seg, left⟩ := done
      cases outcome with
      | none => rfl
      | some rc =>
          cases rc with
          | ok => exact indexPointAmong_eq ⟨_, left, met⟩ partition id name type access
          | _ => rfl
  · have hrejected : registerAmong c.h c.others partition id name type access =
        .error (.errArg, c.h.seg) := by
      rw [registerAmong]
      split_ifs with hname htype haccess hid
      · rfl
      · rfl
      · rfl
      · rfl
      all_goals
        refine absurd ⟨Bool.eq_false_iff.mpr hname, ?_, ?_, ?_, Nat.not_le.mp hid⟩ hargs
        · omega
        · omega
        · tauto
    rw [if_pos hargs, hrejected]

end Same

/-! ## With nobody else there

The calls are then those of `Api/Registry` and `Api/Values`. -/

/-- The segment behind a section that has run, with the lock word even before it. -/
def afterSection {ρ : Type} (seg : Segment) (body : Segment → ρ × Segment) : Segment :=
  (body (seg.setWriteSeq (u64 (seg.hdr.writeSeq + 1)))).2.setWriteSeq
    (irtSeqlockWriteEnd seg.hdr.writeSeq)

theorem pmWriteLocked_cases (seg : Segment) (id : Nat) (type : UInt8) (value : List UInt8)
    (sourceTsNs : Nat) (quality : UInt8) (now : Nat) :
    (pmWriteLocked seg id type value sourceTsNs quality now).1 = .ok ∨
      (pmWriteLocked seg id type value sourceTsNs quality now).1 = .errReadOnly ∧
        (seg.points id).access = indurtdbAccessReadOnly := by
  unfold pmWriteLocked pmWriteBody
  rw [Prog.run_load]
  split_ifs with haccess
  · exact .inr ⟨rfl, haccess⟩
  · rw [storePoint_run]
    exact .inl rfl

/-- An insertion under the lock does not wait. -/
theorem insertSection_ne_busy (s : IrtShm) (partition : UInt32) (name : CStr) (id : Nat)
    (seg : Segment) : (insertSection s partition name id seg).1 ≠ .errBusy := by
  unfold insertSection irtIndexInsertLocked
  split
  · nofun
  cases irtIndexBind s seg.hdr with
  | none => nofun
  | some ix =>
      dsimp only
      split
      · nofun
      split <;> nofun

section Alone

variable {ρ : Type} {c : CallState} (halone : c.others = [])
include halone

theorem tries_even (n : Nat) (body : Segment → ρ × Segment)
    (heven : c.h.seg.hdr.writeSeq % 2 = 0) :
    ∃ met, c.tries (n + 1) body =
      (some (body (c.h.seg.setWriteSeq (u64 (c.h.seg.hdr.writeSeq + 1)))).1,
        ⟨{ c.h with seg := afterSection c.h.seg body }, [], met⟩) := by
  rw [CallState.tries, halone, sectionAmong_nil_even _ n heven]
  exact ⟨_, rfl⟩

theorem tries_odd (n : Nat) (body : Segment → ρ × Segment)
    (hodd : c.h.seg.hdr.writeSeq % 2 = 1) : c.tries n body = (none, c) := by
  rw [CallState.tries, halone, sectionAmong_nil_odd _ n hodd]
  obtain ⟨h, others, met⟩ := c
  obtain rfl : others = [] := halone
  rfl

theorem locked_even (n : Nat) (body : Segment → ρ × Segment)
    (heven : c.h.seg.hdr.writeSeq % 2 = 0) :
    ∃ met, c.locked (n + 1) body =
      (some (body (c.h.seg.setWriteSeq (u64 (c.h.seg.hdr.writeSeq + 1)))).1,
        ⟨{ c.h with seg := afterSection c.h.seg body }, [], met⟩) := by
  obtain ⟨met, hrun⟩ := tries_even halone n body heven
  rw [CallState.locked, hrun]
  exact ⟨met, rfl⟩

theorem locked_odd (n : Nat) (body : Segment → ρ × Segment)
    (hodd : c.h.seg.hdr.writeSeq % 2 = 1) : c.locked n body = (none, c.giveUp) := by
  rw [CallState.locked, tries_odd halone n body hodd]

theorem writeQualityTs_alone (id : Nat) (type : UInt8) (value : List UInt8) (sourceTsNs : Nat)
    (quality : UInt8) (now : Nat) :
    ((writeQualityTsAmong id type value sourceTsNs quality now c).1,
        (writeQualityTsAmong id type value sourceTsNs quality now c).2.h) =
      ((indurtdbHWriteQualityTs c.h id type value sourceTsNs quality now).1.code,
        (indurtdbHWriteQualityTs c.h id type value sourceTsNs quality now).2) := by
  rw [writeQualityTsAmong, pmWriteImplQ, indurtdbHWriteQualityTs]
  rcases Decidable.em (pmValidateId c.h.seg id) with hid | hid
  · rw [if_neg (not_not.mpr hid), if_pos hid]
    rcases Nat.mod_two_eq_zero_or_one c.h.seg.hdr.writeSeq with heven | hodd
    · obtain ⟨met, hrun⟩ := locked_even halone 2 (fun seg =>
        pmWriteLocked seg id type value sourceTsNs quality now) heven
      rw [hrun, withWriteLock_of_even heven]
      dsimp only [afterSection]
      rcases pmWriteLocked_cases (c.h.seg.setWriteSeq (u64 (c.h.seg.hdr.writeSeq + 1))) id type
        value sourceTsNs quality now with hok | ⟨hreadOnly, -⟩
      · rw [hok]
        rfl
      · rw [hreadOnly]
        rfl
    · rw [locked_odd halone _ _ hodd, withWriteLock_of_odd _ hodd]
      rfl
  · rw [if_pos hid, if_neg hid]
    rfl

theorem metaSet_alone (id : Nat) (m : IndurtdbMeta) :
    ∃ met, metaSetAmong id m c = ((irtMetaSet c.h.shm c.h.seg id m).1,
      ⟨{ c.h with seg := (irtMetaSet c.h.shm c.h.seg id m).2 }, [], met⟩) := by
  have hsame : c = ⟨c.h, [], c.met⟩ := by
    rw [← halone]
  rw [metaSetAmong, irtMetaSet]
  split
  next => exact ⟨c.met, congrArg (Prod.mk _) hsame⟩
  split
  next => exact ⟨c.met, congrArg (Prod.mk _) hsame⟩
  next =>
    rcases Nat.mod_two_eq_zero_or_one c.h.seg.hdr.writeSeq with heven | hodd
    · obtain ⟨met, hrun⟩ := locked_even halone 0 (fun seg => ((), seg.setMeta id m)) heven
      rw [hrun, withWriteLock_of_even heven]
      exact ⟨met, rfl⟩
    · rw [locked_odd halone _ _ hodd, withWriteLock_of_odd _ hodd]
      exact ⟨c.giveUp.met, by rw [CallState.giveUp, halone]⟩

theorem setMeta_alone (id : Nat) (m : IndurtdbMeta) :
    ((setMetaAmong id m c).1, (setMetaAmong id m c).2.h) = indurtdbHSetMeta c.h id m := by
  rw [setMetaAmong, indurtdbHSetMeta]
  cases indurtdbValidatePointMeta m with
  | some _ => rfl
  | none =>
      obtain ⟨met, hrun⟩ := metaSet_alone halone id m
      dsimp only
      rw [hrun]

theorem getMeta_alone (id : Nat) : (getMetaAmong id c).1 = indurtdbHGetMeta c.h id := by
  obtain ⟨h, others, met⟩ := c
  obtain rfl : others = [] := halone
  have hodd_attempts : ∀ n : Nat, h.seg.hdr.writeSeq % 2 = 1 →
      (metaGetAttemptsAmong id n ⟨h, [], met⟩).1 = .error .errBusy := by
    intro n hodd
    induction n with
    | zero => rfl
    | succ n ih => exact (congrArg Prod.fst (if_pos hodd)).trans ih
  rw [getMetaAmong, indurtdbHGetMeta]
  split
  next => rfl
  split
  next => rfl
  split
  next hodd => exact hodd_attempts 16 hodd
  next heven => exact congrArg Prod.fst (if_neg heven)

theorem findByNameIn_alone (partition : UInt32) (name : CStr) :
    (findByNameInAmong partition name c).1 = indurtdbHFindByNameIn c.h partition name := by
  rw [findByNameInAmong, indurtdbHFindByNameIn]
  split
  next => rfl
  next => rw [CallState.lookup, halone, lookupAmong_nil]

/-- One attempt is enough, or all of them are in vain. -/
theorem configureAttempts_alone (pm : IrtPointMeta) (n : Nat) :
    ∃ met, configureAttempts pm (n + 1) c =
      (if (configurePoint c.h.shm c.h.seg pm).1 = .errBusy then none
        else some (configurePoint c.h.shm c.h.seg pm).1,
        ⟨{ c.h with seg := (configurePoint c.h.shm c.h.seg pm).2 }, [], met⟩) := by
  rcases Nat.mod_two_eq_zero_or_one c.h.seg.hdr.writeSeq with heven | hodd
  · obtain ⟨met, hstored⟩ := tries_even halone 0 (storeConfigured pm) heven
    have heven₁ : (afterSection c.h.seg (storeConfigured pm)).hdr.writeSeq % 2 = 0 :=
      irtSeqlockWriteEnd_even heven
    obtain ⟨met', hinserted⟩ := tries_even (c := ⟨{ c.h with
      seg := afterSection c.h.seg (storeConfigured pm) }, [], met⟩) rfl 0
      (fun seg => insertSection c.h.shm 0 (seg.points pm.id).name pm.id seg) heven₁
    have hpoint : configurePoint c.h.shm c.h.seg pm =
        ((insertSection c.h.shm 0
            ((afterSection c.h.seg (storeConfigured pm)).points pm.id).name pm.id
            ((afterSection c.h.seg (storeConfigured pm)).setWriteSeq
              (u64 ((afterSection c.h.seg (storeConfigured pm)).hdr.writeSeq + 1)))).1,
          afterSection (afterSection c.h.seg (storeConfigured pm))
            (fun seg => insertSection c.h.shm 0 (seg.points pm.id).name pm.id seg)) := by
      rw [configurePoint, withWriteLock_of_even heven]
      exact withWriteLock_of_even heven₁
    rw [configureAttempts, hstored]
    dsimp only
    rw [hinserted, hpoint, if_neg (insertSection_ne_busy _ _ _ _ _)]
    exact ⟨met', rfl⟩
  · have hvain : ∀ n, configureAttempts pm n c = (none, c.giveUp) := by
      intro n
      induction n with
      | zero => rfl
      | succ n ih =>
          rw [configureAttempts, tries_odd halone _ _ hodd]
          exact ih
    have hpoint : configurePoint c.h.shm c.h.seg pm = (.errBusy, c.h.seg) := by
      rw [configurePoint, withWriteLock_of_odd _ hodd]
    rw [hvain, hpoint, if_pos rfl]
    exact ⟨c.giveUp.met, by rw [CallState.giveUp, halone]⟩

/-- The metadata of a point, and `overall_rc` behind it. -/
theorem configureMeta_alone (pm : IrtPointMeta) (overall : Rc) :
    ∃ met, configureMeta pm overall c =
      if pm.hasMeta then
        (if (irtMetaSet c.h.shm c.h.seg pm.id pm.pointMeta).1 = .ok then overall else .errBusy,
          ⟨{ c.h with seg := (irtMetaSet c.h.shm c.h.seg pm.id pm.pointMeta).2 }, [], met⟩)
      else (overall, ⟨c.h, [], met⟩) := by
  rw [configureMeta]
  split
  next =>
    obtain ⟨met, hrun⟩ := metaSet_alone halone pm.id pm.pointMeta
    rw [hrun]
    generalize irtMetaSet c.h.shm c.h.seg pm.id pm.pointMeta = stored
    obtain ⟨rc, seg⟩ := stored
    cases rc with
    | _ => exact ⟨met, rfl⟩
  next =>
    refine ⟨c.met, ?_⟩
    rw [← halone]

omit halone in
theorem loadLoop_alone (batch : List IrtPointMeta) (overall : Rc) (c : CallState)
    (halone : c.others = []) :
    ((loadLoopAmong batch overall c).1, (loadLoopAmong batch overall c).2.h) =
      ((loadConfigLoop c.h.shm batch overall c.h.seg).1,
        { c.h with seg := (loadConfigLoop c.h.shm batch overall c.h.seg).2 }) := by
  induction batch generalizing overall c with
  | nil => rfl
  | cons pm rest ih =>
      rw [loadLoopAmong, loadConfigLoop]
      rcases Decidable.em (c.h.shm.maxPoints ≤ pm.id) with hid | hid
      · rw [if_pos (.inl hid), if_pos hid]
        exact ih overall c halone
      rw [if_neg hid]
      rcases Decidable.em (indurtdbTypeFloat < pm.type.toNat) with htype | htype
      · rw [if_pos (.inr htype), if_pos htype]
        exact ih overall c halone
      rw [if_neg (not_or.mpr ⟨hid, htype⟩), if_neg htype]
      split
      next => rfl
      next =>
        obtain ⟨met, hrun⟩ := configureAttempts_alone halone pm 2
        rw [hrun]
        generalize configurePoint c.h.shm c.h.seg pm = configured
        obtain ⟨rc, seg⟩ := configured
        have hrest : ∀ overall',
            let next := configureMeta pm overall' ⟨{ c.h with seg := seg }, [], met⟩
            let stored := irtMetaSet c.h.shm seg pm.id pm.pointMeta
            let alone := if pm.hasMeta then
              loadConfigLoop c.h.shm rest (if stored.1 = .ok then overall' else .errBusy) stored.2
              else loadConfigLoop c.h.shm rest overall' seg
            ((loadLoopAmong rest next.1 next.2).1, (loadLoopAmong rest next.1 next.2).2.h) =
              (alone.1, { c.h with seg := alone.2 }) := by
          intro overall'
          dsimp only
          obtain ⟨met', hmeta⟩ := configureMeta_alone (c := ⟨{ c.h with seg := seg }, [], met⟩)
            rfl pm overall'
          rw [hmeta]
          split
          next => exact ih _ _ rfl
          next => exact ih _ _ rfl
        cases rc with
        | errFull => rfl
        | errBusy => exact hrest .errBusy
        | _ => exact hrest overall

theorem loadConfig_alone (batch : List IrtPointMeta) :
    ((loadConfigAmong (some batch) c).1, (loadConfigAmong (some batch) c).2.h) =
      indurtdbHLoadConfig c.h batch := by
  rw [loadConfigAmong.eq_def, indurtdbHLoadConfig]
  dsimp only
  split
  next => rfl
  next => exact loadLoop_alone batch .ok c halone

end Alone

end InduRtdb.Api
