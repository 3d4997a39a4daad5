/-
  Daemon/Validation.lean --- what the daemon may do to a configuration it accepted.

  Source: `rtdbd_validate_config`, `do_write` and the registry handlers of
  `rtdbd/src/rtdbd.c`; `indurtdb_validate_point_meta`, `indurtdb_h_set_meta` and
  `indurtdb_h_create_point_in` of `src/api/indurtdb.c`.

  Validation looks at the points that carry a name.  Metadata is kept by slot, named or
  not: what a base configuration has stored for an entry without a name is looked at
  when a point is created there, and only by the next start.
-/
import InduRtdb.Daemon.Authority
import InduRtdb.Api.ConfigFile
import InduRtdb.Api.Frames
import InduRtdb.Api.RegistryRun

set_option autoImplicit false

namespace InduRtdb.Daemon

open InduRtdb.Core InduRtdb.Api InduRtdb.Lib

/-! ## Validation -/

/-- `INDURTDB_CFG_FLD_*`, as far as a point is looked at. -/
inductive CfgField where
  | eurMin
  | eurMax
  | deadband
  | flags
  | type
  | access
  deriving DecidableEq, Repr

/-- The field `indurtdb_validate_point_meta` names with an error. -/
def errField (m : IndurtdbMeta) : CfgError → CfgField
  | .flags => .flags
  | .eurRange =>
      if Float.ofBits m.eurMax ≤ Float.ofBits m.eurMin then .eurMin else .eurMax
  | .deadband => .deadband
  | .deadbandPct => .deadband

/-- `INDURTDB_CFG_ERR_*` for a point. -/
inductive PointError where
  | type
  | access
  | semantics (error : CfgError)
  deriving DecidableEq, Repr

/-- `indurtdb_cfg_error_reason`. -/
def PointError.reason : PointError → String
  | .type => "point type out of range"
  | .access => "point access is neither read-only nor read-write"
  | .semantics .eurRange => "EUR enabled but eur_min >= eur_max"
  | .semantics .deadband => "deadband is negative"
  | .semantics .deadbandPct => "percent deadband not in [0,100]"
  | .semantics .flags => "meta flags contains unknown bits"

/-- What `rtdbd_validate_config` reports: `bad_id`, the code and `err_field`. -/
structure ConfigFault where
  badId : Nat
  error : PointError
  field : CfgField
  deriving DecidableEq, Repr

/-- The metadata validation looks at: zero where it cannot be read. -/
def checkedMeta (h : IndurtdbH) (id : Nat) : IndurtdbMeta :=
  (indurtdbHGetMeta h id).toOption.getD IndurtdbMeta.zero

/-- One turn of the loop of `rtdbd_validate_config`. -/
def validatePoint (h : IndurtdbH) (id : Nat) : Option ConfigFault :=
  match indurtdbHReadPoint h id with
  | none => none
  | some pt =>
      if pt.name.isEmpty then none
      else if indurtdbTypeFloat < pt.type.toNat then some ⟨id, .type, .type⟩
      else if pt.access ≠ indurtdbAccessReadOnly ∧ pt.access ≠ indurtdbAccessReadWrite then
        some ⟨id, .access, .access⟩
      else
        (indurtdbValidatePointMeta (checkedMeta h id)).map fun error =>
          ⟨id, .semantics error, errField (checkedMeta h id) error⟩

/-- `rtdbd_validate_config`: the first fault among the ids below `g_max_points`. -/
def rtdbdValidateConfig (h : IndurtdbH) (maxPoints : Nat) : Option ConfigFault :=
  (List.range maxPoints).findSome? (validatePoint h)

theorem rtdbdValidateConfig_eq_none_iff (h : IndurtdbH) (maxPoints : Nat) :
    rtdbdValidateConfig h maxPoints = none ↔
      ∀ id, id < maxPoints → validatePoint h id = none := by
  simp [rtdbdValidateConfig]

/-- The type and the access of a record are those of a point. -/
structure Typed (p : IndurtdbPoint) : Prop where
  type : p.type.toNat ≤ indurtdbTypeFloat
  access : p.access = indurtdbAccessReadOnly ∨ p.access = indurtdbAccessReadWrite

theorem validatePoint_eq_none_iff (h : IndurtdbH) (id : Nat) :
    validatePoint h id = none ↔ (pmValidateId h.seg id → (h.seg.points id).name ≠ CStr.empty →
      Typed (h.seg.points id) ∧ indurtdbValidatePointMeta (checkedMeta h id) = none) := by
  unfold validatePoint indurtdbHReadPoint
  rcases Decidable.em (pmValidateId h.seg id) with hid | hid
  · rw [if_pos hid]
    dsimp only
    split
    next hempty =>
      have hname := CStr.isEmpty_iff.mp hempty
      simp [hname]
    next hnamed =>
      have hname : (h.seg.points id).name ≠ CStr.empty :=
        fun heq => hnamed (CStr.isEmpty_iff.mpr heq)
      split
      next htype =>
        simp only [reduceCtorEq, false_iff, not_forall]
        exact ⟨hid, hname, fun hgood => absurd hgood.1.type (by omega)⟩
      next htype =>
        split
        next haccess =>
          simp only [reduceCtorEq, false_iff, not_forall]
          exact ⟨hid, hname, fun hgood => not_or.mpr haccess hgood.1.access⟩
        next haccess =>
          rw [Option.map_eq_none_iff]
          have htyped : Typed (h.seg.points id) :=
            ⟨by omega, by rwa [not_and_or, not_not, not_not] at haccess⟩
          exact ⟨fun hvalid _ _ => ⟨htyped, hvalid⟩, fun hgood => (hgood hid hname).2⟩
  · rw [if_neg hid]
    exact ⟨fun _ hin => absurd hin hid, fun _ => rfl⟩

/-- Metadata that cannot be read counts as valid. -/
theorem validatePointMeta_zero : indurtdbValidatePointMeta IndurtdbMeta.zero = none := by
  decide +kernel

/-! ## What the calls do to it -/

section Calls

variable {h : IndurtdbH} {id : Nat} {p : IndurtdbPoint} {r : Rc × IndurtdbH}

/-- The metadata validation looks at depends on the table, the layout and the lock. -/
theorem checkedMeta_congr {h h' : IndurtdbH} {id : Nat} (hshm : h'.shm = h.shm)
    (hparity : h'.seg.hdr.writeSeq % 2 = h.seg.hdr.writeSeq % 2)
    (hoff : h'.seg.hdr.offMeta = h.seg.hdr.offMeta)
    (hmeta : h'.seg.metas id = h.seg.metas id) : checkedMeta h' id = checkedMeta h id := by
  unfold checkedMeta indurtdbHGetMeta
  rw [hshm, hparity, hoff, hmeta]

theorem pmValidateId_congr {seg seg' : Segment} {id : Nat}
    (hmax : seg'.hdr.maxPoints = seg.hdr.maxPoints)
    (hoff : seg'.hdr.offPoints = seg.hdr.offPoints) :
    pmValidateId seg' id ↔ pmValidateId seg id := by
  unfold pmValidateId
  rw [hmax, hoff]

/-- A call that stores one record leaves the other points to validation as they were. -/
theorem validate_other (hs : NameStores h id p r) {j : Nat} (hne : j ≠ id) :
    validatePoint r.2 j = none ↔ validatePoint h j = none := by
  rw [validatePoint_eq_none_iff, validatePoint_eq_none_iff,
    pmValidateId_congr hs.stores.maxPoints hs.stores.offPoints, hs.stores.at_other hne,
    checkedMeta_congr hs.shm hs.parity hs.stores.offMeta (by rw [hs.stores.metas])]

/-- Of its own point, validation looks at the record that was stored. -/
theorem validate_own (hs : NameStores h id p r) :
    validatePoint r.2 id = none ↔ (pmValidateId h.seg id → p.name ≠ CStr.empty →
      Typed p ∧ indurtdbValidatePointMeta (checkedMeta h id) = none) := by
  rw [validatePoint_eq_none_iff, pmValidateId_congr hs.stores.maxPoints hs.stores.offPoints,
    hs.stores.at_id, checkedMeta_congr hs.shm hs.parity hs.stores.offMeta (by rw [hs.stores.metas])]

/-- A stored record that is no point, or as good a point as the one before. -/
theorem validate_stored (hs : NameStores h id p r)
    (hp : p.name ≠ CStr.empty → (h.seg.points id).name ≠ CStr.empty ∧
      (Typed (h.seg.points id) → Typed p)) {j : Nat} (hvalid : validatePoint h j = none) :
    validatePoint r.2 j = none := by
  rcases Decidable.em (j = id) with rfl | hne
  · rw [validate_own hs]
    intro hid hnamed
    obtain ⟨hbefore, htyped⟩ := hp hnamed
    obtain ⟨hold, hmeta⟩ := (validatePoint_eq_none_iff h j).mp hvalid hid hbefore
    exact ⟨htyped hold, hmeta⟩
  · exact (validate_other hs hne).mpr hvalid

/-- Deletions keep every point valid. -/
theorem validate_delete (h : IndurtdbH) (partition : UInt32) (id : Nat) {j : Nat}
    (hvalid : validatePoint h j = none) :
    validatePoint (indurtdbHDeletePointIn h partition id).2 j = none := by
  obtain ⟨p, hs, hp⟩ := delete_stores h partition id
  refine validate_stored hs (fun hnamed => ?_) hvalid
  rcases hp with rfl | rfl
  · exact ⟨hnamed, fun htyped => htyped⟩
  · exact absurd rfl hnamed

/-- So do renamings. -/
theorem validate_rename (h : IndurtdbH) (partition : UInt32) (id : Nat) (name : CStr) {j : Nat}
    (hvalid : validatePoint h j = none) :
    validatePoint (indurtdbHRenamePointIn h partition id name).2 j = none := by
  obtain ⟨p, hs, hp⟩ := rename_stores h partition id name
  refine validate_stored hs (fun hnamed => ?_) hvalid
  rcases hp with rfl | ⟨hbefore, rfl⟩
  · exact ⟨hnamed, fun htyped => htyped⟩
  · exact ⟨hbefore, fun htyped => ⟨htyped.type, htyped.access⟩⟩

/-- A write keeps every point valid, for the types `do_write` lets through. -/
theorem validate_write (h : IndurtdbH) (w : RtdbdWriteReq) (wall : Nat) {j : Nat}
    (hvalid : validatePoint h j = none) : validatePoint (doWrite h w wall).2 j = none := by
  unfold doWrite
  split
  next => exact hvalid
  next htype =>
    dsimp only
    generalize indurtdbQualityMake indurtdbQualityGood _ = quality
    obtain ⟨p, hs, hp⟩ := write_stores h w.pointId w.type (le64 w.valueBits.toNat) w.sourceTsNs
      quality wall
    have hafter : validatePoint (indurtdbHWriteQualityTs h w.pointId w.type
        (le64 w.valueBits.toNat) w.sourceTsNs quality wall).2 j = none := by
      refine validate_stored hs (fun hnamed => ?_) hvalid
      rcases hp with rfl | ⟨hstored, hname, haccess⟩
      · exact ⟨hnamed, fun htyped => htyped⟩
      · rw [hname] at hnamed
        refine ⟨hnamed, fun htyped => ⟨?_, ?_⟩⟩
        · rw [hstored]
          omega
        · rw [haccess]
          exact htyped.access
    generalize indurtdbHWriteQualityTs h w.pointId w.type (le64 w.valueBits.toNat) w.sourceTsNs
      quality wall = written at hafter ⊢
    obtain ⟨rc, h'⟩ := written
    cases rc with
    | ok => exact hafter
    | _ => exact hafter

/-- Metadata that a request stores has been validated. -/
theorem validate_setMeta (h : IndurtdbH) (id : Nat) (m : IndurtdbMeta) {j : Nat}
    (hvalid : validatePoint h j = none) : validatePoint (indurtdbHSetMeta h id m).2 j = none := by
  rcases setMeta_stores h id m with heq | ⟨hm, heven, w, hw, heq⟩
  · rw [heq]
    exact hvalid
  · rw [heq]
    rcases Decidable.em (j = id) with rfl | hne
    · rw [validatePoint_eq_none_iff] at hvalid ⊢
      intro hid hnamed
      refine ⟨(hvalid hid hnamed).1, ?_⟩
      unfold checkedMeta indurtdbHGetMeta
      split
      · exact validatePointMeta_zero
      · split
        · exact validatePointMeta_zero
        · split
          · exact validatePointMeta_zero
          · simp only [Segment.setWriteSeq, Segment.setMeta, Function.update_self,
              Except.toOption, Option.getD_some]
            exact hm
    · have hsame : checkedMeta { h with seg := (h.seg.setMeta id m).setWriteSeq w } j = checkedMeta h j :=
        checkedMeta_congr rfl (hw.trans heven.symm) rfl (Function.update_of_ne hne _ _)
      rw [validatePoint_eq_none_iff] at hvalid ⊢
      rw [hsame]
      exact hvalid

/-- A creation that fails keeps every point valid. -/
theorem validate_create_failed {partition : UInt32} {name : CStr} {type access : Int}
    (hfail : (indurtdbHCreatePointIn h partition id name type access).1 ≠ .ok) {j : Nat}
    (hvalid : validatePoint h j = none) :
    validatePoint (indurtdbHCreatePointIn h partition id name type access).2 j = none := by
  have hcreate := create_stores h partition id name type access
  rcases hcreate.failed hfail with hstores | ⟨-, p, hname, hstores⟩
  · have hs : NameStores h id _ _ := ⟨hcreate.shm, hcreate.parity, hstores⟩
    exact validate_stored hs (fun hnamed => ⟨hnamed, fun htyped => htyped⟩) hvalid
  · have hs : NameStores h id _ _ := ⟨hcreate.shm, hcreate.parity, hstores⟩
    exact validate_stored hs (fun hnamed => absurd hname hnamed) hvalid

/-- A creation that succeeds leaves its point valid exactly when the metadata of the slot
is. -/
theorem validate_create {partition : UInt32} {name : CStr} {type access : Int}
    (hok : (indurtdbHCreatePointIn h partition id name type access).1 = .ok) :
    (validatePoint (indurtdbHCreatePointIn h partition id name type access).2 id = none ↔
      (pmValidateId h.seg id → indurtdbValidatePointMeta (checkedMeta h id) = none)) ∧
    ∀ j, j ≠ id → (validatePoint (indurtdbHCreatePointIn h partition id name type access).2 j =
      none ↔ validatePoint h j = none) := by
  have hcreate := create_stores h partition id name type access
  obtain ⟨hnonempty, htype, haccess, -, -, -, hstores⟩ := hcreate.done hok
  have hs : NameStores h id _ _ := ⟨hcreate.shm, hcreate.parity, hstores⟩
  have hnamed : (registered (h.seg.points id) partition name (.ofNat type.toNat)
      (.ofNat access.toNat)).name ≠ CStr.empty := by
    rw [Ne, ← CStr.isEmpty_iff]
    have hkept := CStr.strncpy_isEmpty (s := name) (n := nameMax) (by decide)
    rw [← CStr.isEmpty_eq_false_iff, ← hkept, ← Bool.not_eq_true] at hnonempty
    exact hnonempty
  have htyped : Typed (registered (h.seg.points id) partition name (.ofNat type.toNat)
      (.ofNat access.toNat)) := by
    constructor
    · have hfloat : (indurtdbTypeFloat : Int) = 6 := rfl
      have hsmall : type.toNat ≤ 6 := by omega
      simp only [registered, UInt8.toNat_ofNat']
      omega
    · rcases haccess with heq | heq
      · exact .inl (by rw [registered, heq]; rfl)
      · exact .inr (by rw [registered, heq]; rfl)
  refine ⟨?_, fun j hne => validate_other hs hne⟩
  rw [validate_own hs]
  exact ⟨fun hgood hid => (hgood hid hnamed).2, fun hmeta hid _ => ⟨htyped, hmeta hid⟩⟩

end Calls

/-! ## What a request does to it -/

namespace RtdbdCtx

/-- The creation a request asks for. -/
def createReq (cx : RtdbdCtx) : RtdbdCreateReq := RtdbdCreateReq.ofBytes cx.payload

/-- A `CREATE_POINT` is carried out in a slot that validation looks at and that holds
metadata which is not valid. -/
structure CreatesOverInvalid (cx : RtdbdCtx) : Prop where
  opcode : cx.req.opcode = rtdbdOpCreatePoint
  carried : cx.Carried
  checked : cx.createReq.pointId < cx.d.maxPoints ∧ pmValidateId cx.d.h.seg cx.createReq.pointId
  invalid : indurtdbValidatePointMeta (checkedMeta cx.d.h cx.createReq.pointId) ≠ none

end RtdbdCtx

/-- Every point the daemon looks at is valid. -/
def Rtdbd.Valid (d : Rtdbd) : Prop := rtdbdValidateConfig d.h d.maxPoints = none

theorem Rtdbd.valid_iff (d : Rtdbd) :
    d.Valid ↔ ∀ id, id < d.maxPoints → validatePoint d.h id = none :=
  rtdbdValidateConfig_eq_none_iff d.h d.maxPoints

/-- Of the requests of the family, only a creation that succeeds can spoil a point. -/
theorem managed_validate {opcode : Nat} {op : Managed} (hop : managedOf opcode = some op)
    (bytes : List UInt8) (h : IndurtdbH)
    (hother : opcode = rtdbdOpCreatePoint → (op.change bytes h).1 ≠ .ok) {j : Nat}
    (hvalid : validatePoint h j = none) : validatePoint (op.change bytes h).2 j = none := by
  unfold managedOf at hop
  split at hop
  · obtain rfl := Option.some.inj hop
    exact validate_setMeta h _ _ hvalid
  · split at hop
    next hcode =>
      obtain rfl := Option.some.inj hop
      exact validate_create_failed (hother hcode) hvalid
    · split at hop
      · obtain rfl := Option.some.inj hop
        exact validate_delete h _ _ hvalid
      · split at hop
        · obtain rfl := Option.some.inj hop
          exact validate_rename h _ _ _ hvalid
        · cases hop

section Requests

variable {cx : RtdbdCtx} {reply : Reply}

theorem maxPoints_logged (cx : RtdbdCtx) (text : Option (List UInt8)) :
    (cx.logged text).d.maxPoints = cx.d.maxPoints := by
  cases text with
  | none => rfl
  | some text => rfl

theorem h_logged (cx : RtdbdCtx) (text : Option (List UInt8)) :
    (cx.logged text).d.h = cx.d.h := by
  cases text with
  | none => rfl
  | some text => rfl

/-- The bound of validation stays. -/
theorem Decided.maxPoints_kept (decided : Decided cx reply) :
    reply.d.maxPoints = cx.d.maxPoints := by
  cases decided with
  | changed => exact maxPoints_logged _ _
  | _ => rfl

/-- A decision that leaves the instance alone leaves validation alone, and carries no
creation out. -/
theorem valid_of_same (hvalid : cx.d.Valid) (hh : reply.d.h = cx.d.h)
    (hmax : reply.d.maxPoints = cx.d.maxPoints) (hnot : ¬ cx.CreatesOverInvalid) :
    reply.d.Valid ↔ ¬ cx.CreatesOverInvalid := by
  rw [Rtdbd.Valid, hh, hmax]
  exact ⟨fun _ => hnot, fun _ => hvalid⟩

/-- A creation that is carried out is the one its handler makes. -/
theorem RtdbdCtx.CreatesOverInvalid.change_eq (h : cx.CreatesOverInvalid) {op : Managed}
    (hop : managedOf cx.req.opcode = some op) : (op.change cx.payload cx.d.h).1 = .ok := by
  obtain ⟨pid, uid, -, h', hchange⟩ := h.carried.of_managed hop
  rw [hchange]

/-- A creation that is carried out leaves every point valid, unless it is one over invalid
metadata. -/
theorem create_valid_iff (hvalid : cx.d.Valid) (hop : cx.req.opcode = rtdbdOpCreatePoint)
    (hcarried : cx.Carried)
    (hok : (indurtdbHCreatePointIn cx.d.h cx.createReq.partition cx.createReq.pointId
      cx.createReq.name cx.createReq.type.toNat cx.createReq.access.toNat).1 = .ok) :
    (∀ id, id < cx.d.maxPoints → validatePoint (indurtdbHCreatePointIn cx.d.h
        cx.createReq.partition cx.createReq.pointId cx.createReq.name cx.createReq.type.toNat
        cx.createReq.access.toNat).2 id = none) ↔ ¬ cx.CreatesOverInvalid := by
  obtain ⟨hown, hothers⟩ := validate_create hok
  constructor
  · intro hafter hover
    obtain ⟨hin, hid⟩ := hover.checked
    exact hover.invalid (hown.mp (hafter _ hin) hid)
  · intro hnot id hid
    rcases Decidable.em (id = cx.createReq.pointId) with rfl | hne
    · refine hown.mpr fun hpoint => ?_
      by_contra hinvalid
      exact hnot ⟨hop, hcarried, ⟨hid, hpoint⟩, hinvalid⟩
    · exact (hothers id hne).mpr ((Rtdbd.valid_iff _).mp hvalid id hid)

/-- A request leaves every point valid, unless it creates one over invalid metadata. -/
theorem Decided.valid_iff (decided : Decided cx reply) (hvalid : cx.d.Valid) :
    reply.d.Valid ↔ ¬ cx.CreatesOverInvalid := by
  have hmax := decided.maxPoints_kept
  cases decided with
  | refused _ _ _ _ _ undone => exact valid_of_same hvalid rfl rfl fun h => undone h.carried
  | ignoring opcode =>
      refine valid_of_same hvalid rfl rfl fun h => ?_
      rcases opcode with heq | heq
      · cases heq.symm.trans h.opcode
      · cases heq.symm.trans h.opcode
  | answered _ _ _ _ _ _ _ _ undone => exact valid_of_same hvalid rfl rfl fun h => undone h.carried
  | subscribed _ opcode =>
      refine valid_of_same hvalid rfl rfl fun h => ?_
      rcases opcode with heq | heq
      · cases heq.symm.trans h.opcode
      · cases heq.symm.trans h.opcode
  | selected _ _ opcode =>
      exact valid_of_same hvalid rfl rfl fun h => by cases opcode.symm.trans h.opcode
  | wrote _ _ opcode _ m h stores =>
      have hnot : ¬ cx.CreatesOverInvalid := fun h => by cases opcode.symm.trans h.opcode
      refine ⟨fun _ => hnot, fun _ => (Rtdbd.valid_iff _).mpr fun id hid => ?_⟩
      have hafter := validate_write cx.d.h cx.writeReq cx.env.wall
        ((Rtdbd.valid_iff _).mp hvalid id hid)
      rw [stores] at hafter
      exact hafter
  | writeFailed _ opcode _ _ _ _ _ _ _ leaves =>
      have hnot : ¬ cx.CreatesOverInvalid := fun h => by cases opcode.symm.trans h.opcode
      refine ⟨fun _ => hnot, fun _ => (Rtdbd.valid_iff _).mpr fun id hid => ?_⟩
      have hafter := validate_write cx.d.h cx.writeReq cx.env.wall
        ((Rtdbd.valid_iff _).mp hvalid id hid)
      rw [leaves] at hafter
      exact hafter
  | changed arrived op size opcode permitted h changes =>
      rw [Rtdbd.valid_iff, hmax]
      dsimp only
      rw [h_logged]
      have hh : (op.change cx.payload cx.d.h).2 = h := by rw [changes]
      rcases Decidable.em (cx.req.opcode = rtdbdOpCreatePoint) with hcreate | hother
      · have hop : op = createPoint := by
          rw [hcreate] at opcode
          exact (Option.some.inj opcode).symm
        subst hop
        have hok : (indurtdbHCreatePointIn cx.d.h cx.createReq.partition cx.createReq.pointId
            cx.createReq.name cx.createReq.type.toNat cx.createReq.access.toNat).1 = .ok :=
          congrArg Prod.fst changes
        have hcarried : cx.Carried := .changed arrived createPoint size opcode permitted h changes
        have hh : (indurtdbHCreatePointIn cx.d.h cx.createReq.partition cx.createReq.pointId
            cx.createReq.name cx.createReq.type.toNat cx.createReq.access.toNat).2 = h := hh
        rw [← hh]
        exact create_valid_iff hvalid hcreate hcarried hok
      · have hnot : ¬ cx.CreatesOverInvalid := fun h => hother h.opcode
        refine ⟨fun _ => hnot, fun _ id hid => ?_⟩
        have hafter := managed_validate opcode cx.payload cx.d.h (fun h => absurd h hother)
          ((Rtdbd.valid_iff _).mp hvalid id hid)
        rw [hh] at hafter
        exact hafter
  | changeFailed _ op opcode _ rc h changes fails =>
      have hfail : (op.change cx.payload cx.d.h).1 ≠ .ok := by
        rw [changes]
        exact fails
      have hh : (op.change cx.payload cx.d.h).2 = h := by rw [changes]
      have hnot : ¬ cx.CreatesOverInvalid := fun h => hfail (h.change_eq opcode)
      refine ⟨fun _ => hnot, fun _ => (Rtdbd.valid_iff _).mpr fun id hid => ?_⟩
      have hafter := managed_validate opcode cx.payload cx.d.h (fun _ => hfail)
        ((Rtdbd.valid_iff _).mp hvalid id hid)
      rw [hh] at hafter
      exact hafter

/-- What is sent and announced behind a decision is nothing to validation. -/
theorem Decided.sent_valid (decided : Decided cx reply) :
    (reply.send cx).2.d.Valid ↔ reply.d.Valid := by
  have hh := decided.sent.h
  have hmax : (reply.send cx).2.d.maxPoints = reply.d.maxPoints := by
    obtain ⟨k, room, -, -, hd⟩ := reply.send_eq cx
    rw [hd]
    split
    · cases decided with
      | wrote => rfl
      | _ => rfl
    · rfl
  rw [Rtdbd.Valid, Rtdbd.Valid, hh, hmax]

end Requests

/-! ## Whole runs -/

namespace EventLoop

/-- The event is no request that creates a point over invalid metadata. -/
def CreationMet (s : EventLoop) : LoopEvent → Prop
  | .request slot input room env =>
      HeaderArrives input → ¬ (s.ctx slot input room env).CreatesOverInvalid
  | .accept _ _ => True
  | .flush _ _ _ => True

/-- A request leaves the daemon as its handler does, whether the connection stays or not. -/
theorem after_request_valid (s : EventLoop) (slot : Nat) (input : List UInt8)
    (room : Option Nat) (env : Env) :
    (s.after (.request slot input room env)).d.Valid ↔
      (s.handled slot input room env).d.Valid := by
  unfold after
  dsimp only
  split
  · rfl
  · rfl

/-- One event leaves every point valid exactly when it meets the condition. -/
theorem after_valid_iff {s : EventLoop} (hvalid : s.d.Valid) (e : LoopEvent) :
    (s.after e).d.Valid ↔ s.CreationMet e := by
  cases e with
  | accept slot fd => exact iff_of_true hvalid trivial
  | flush slot results now => exact iff_of_true hvalid trivial
  | request slot input room env =>
      rw [after_request_valid]
      rcases Decidable.em (HeaderArrives input) with harrives | hnot
      · obtain ⟨reply, decided, hhandled⟩ :=
          @handleRequest_of_header s.d slot ⟨input, room, s.wire slot⟩ env harrives
        rw [handled, hhandled]
        dsimp only
        rw [decided.sent_valid, decided.valid_iff hvalid]
        exact ⟨fun h _ => h, fun h => h harrives⟩
      · obtain ⟨st, rest, -, hhandled⟩ :=
          @handleRequest_of_not_header s.d slot ⟨input, room, s.wire slot⟩ env hnot
        rw [handled, hhandled]
        exact iff_of_true hvalid fun harrives => absurd harrives hnot

end EventLoop

/-- Validation finds no fault in any state of a run. -/
structure StaysValid (past : List (EventLoop × LoopEvent)) (s : EventLoop) : Prop where
  passed : ∀ p ∈ past, p.1.d.Valid
  reached : s.d.Valid

/-- **What the daemon accepted stays acceptable.**  Behind a start that was validated,
every state of a run is valid exactly when no `CREATE_POINT` was carried out in a slot
that holds invalid metadata. -/
theorem staysValid_iff {d : Rtdbd} (hvalid : rtdbdValidateConfig d.h d.maxPoints = none)
    {past : List (EventLoop × LoopEvent)} {s : EventLoop}
    (hrun : EventLoop.Runs (.start d) past s) :
    StaysValid past s ↔ ∀ p ∈ past, p.1.CreationMet p.2 := by
  induction hrun with
  | start =>
      refine iff_of_true ⟨fun p hp => ?_, hvalid⟩ fun p hp => ?_
      · cases hp
      · cases hp
  | @next past s hrun e hcan ih =>
      constructor
      · intro hstays p hp
        have hhere := hstays.passed (s, e) List.mem_cons_self
        have hbefore : StaysValid past s :=
          ⟨fun q hq => hstays.passed q (List.mem_cons_of_mem _ hq), hhere⟩
        rcases List.mem_cons.mp hp with rfl | hp
        · exact (EventLoop.after_valid_iff hhere e).mp hstays.reached
        · exact ih.mp hbefore p hp
      · intro hmet
        have hbefore := ih.mpr fun p hp => hmet p (List.mem_cons_of_mem _ hp)
        refine ⟨fun p hp => ?_, ?_⟩
        · rcases List.mem_cons.mp hp with rfl | hp
          · exact hbefore.reached
          · exact hbefore.passed p hp
        · exact (EventLoop.after_valid_iff hbefore.reached e).mpr (hmet (s, e) List.mem_cons_self)

theorem staysValid_iff_writing :
    StaysValid (Trace.passed EventLoop.after writing (.start entered) [])
        (writing.foldl EventLoop.after (.start entered)) ↔
      ∀ p ∈ Trace.passed EventLoop.after writing (.start entered) [], p.1.CreationMet p.2 := by
  have hstart : EventLoop.Runs (.start entered) [] (.start entered) := .start
  exact staysValid_iff (by decide +kernel) (hstart.follow writing (by decide +kernel))

/-- The daemon with the base configuration of a file loaded. -/
def Rtdbd.configured (d : Rtdbd) (libc : Libc) (file : List UInt8) : Rtdbd :=
  { d with h := (indurtdbHLoadConfig d.h (irtPointConfigParseYaml libc file)).2 }

/-- A base configuration of one entry, with an id and no name: its flag supervises a range
that it does not give. -/
def nameless : List UInt8 := ascii "points:\n- id: 1\n  flags: 1\n"

/-- A client connects and creates point 1, of an integer type and writable, as `a`. -/
def creating : List LoopEvent :=
  [.accept 0 5, .request 0 (hdrBytes rtdbdOpCreatePoint sizeofCreateReq ++
    (le32 1 ++ [1, 3, 0, 0] ++ (97 :: List.replicate 63 0) ++ le32 0)) none operator]

/-- The daemon takes a base configuration that its next start rejects. -/
theorem not_staysValid :
    ¬ ∀ (d : Rtdbd) (libc : Libc) (file : List UInt8) (past : List (EventLoop × LoopEvent))
      (s : EventLoop), rtdbdValidateConfig (d.configured libc file).h d.maxPoints = none →
      EventLoop.Runs (.start (d.configured libc file)) past s → StaysValid past s := by
  intro hall
  have hstart : EventLoop.Runs (.start (entered.configured wordsLibc nameless)) []
      (.start (entered.configured wordsLibc nameless)) := .start
  have hstays := hall entered wordsLibc nameless _ _ (by decide +kernel)
    (hstart.follow creating (by decide +kernel))
  have hreached : rtdbdValidateConfig (creating.foldl EventLoop.after
      (.start (entered.configured wordsLibc nameless))).d.h 16 = none :=
    hstays.reached
  revert hreached
  decide +kernel

end InduRtdb.Daemon
