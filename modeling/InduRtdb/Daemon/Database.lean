/-
  Daemon/Database.lean --- what the daemon serves: one database of points, shared by all
  connections.

  Source: `rtdbd/src/rtdbd.c` (`op_write`, `op_get`, `op_find_by_name`, `op_get_meta`,
  `op_set_meta`, `op_create_point`, `op_delete_point`, `op_rename_point`, `op_select`) over
  `src/api/indurtdb.c`.

  The database knows of ids, keys, values, access and metadata, and nothing of segments,
  locks and buckets.  A request is handled whole, so the order of the handling is an order
  of the requests of all connections, and what each of them is answered is what the
  database answers in that order.
-/
import InduRtdb.Api.RegistryRun
import InduRtdb.Api.TypedValues
import InduRtdb.Daemon.Authority
import InduRtdb.Daemon.Counters
import InduRtdb.Daemon.Validation

set_option autoImplicit false

namespace InduRtdb.Daemon

open InduRtdb.Core InduRtdb.Api InduRtdb.Spec InduRtdb.Lib

/-! ## The database -/

/-- The database of `n` ids: who holds which key, what is told of each point, whether it
may be written, and the metadata of each id.  Access and metadata outlive a point. -/
structure Database (n : Nat) where
  keys : PointRegistry n
  cells : Nat → Api.Cell
  access : Nat → UInt8
  metas : Nat → IndurtdbMeta

/-- The requests for the database, as their payloads spell them. -/
inductive Query where
  | write (w : RtdbdWriteReq)
  | get (id : Nat)
  | findByName (f : RtdbdFindReq)
  | getMeta (id : Nat)
  | setMeta (s : RtdbdSetMetaReq)
  | create (c : RtdbdCreateReq)
  | delete (d : RtdbdDeleteReq)
  | rename (r : RtdbdRenameReq)
  | select (partition : UInt32)

/-- What the daemon was started with: who may change what, and the partitions there are. -/
structure Rules where
  policy : IrtPolicy
  conf : RtdbdConf

def Rules.allow (rules : Rules) (uid : Nat) (partition : UInt32) (id : Nat) : Bool :=
  irtPolicyAllows rules.policy uid partition id && rtdbdConfPartitionAllowed rules.conf partition

namespace Database

variable {n : Nat}

/-- A change is made by a known peer that may change the point. -/
def guarded (db : Database n) (rules : Rules) (env : Env) (partition : UInt32) (id : Nat)
    (change : Nat × Database n) : Nat × Database n :=
  match env.peer with
  | none => (rtdbdStInternal, db)
  | some (_, uid) => if rules.allow uid partition id then change else (rtdbdStDenied, db)

/-- The quality of a written value tells whether it is in the range of the point. -/
def quality (m : IndurtdbMeta) (w : RtdbdWriteReq) : UInt8 :=
  indurtdbQualityMake indurtdbQualityGood
    (indurtdbEurangeLimit (m.has indurtdbMetaFlagEur) (Float.ofBits m.eurMin)
      (Float.ofBits m.eurMax) (indurtdbValueToDouble w.type w.valueBits))

/-- A value of a number type is written over the former one. -/
def write (db : Database n) (w : RtdbdWriteReq) (wall : Nat) : Nat × Database n :=
  if w.type.toNat = indurtdbTypeString ∨ indurtdbTypeFloat < w.type.toNat then
    (rtdbdStBadRequest, db)
  else if w.pointId < n ∧ db.access w.pointId ≠ indurtdbAccessReadOnly then
    (rtdbdStOk,
      { db with
        cells := Function.update db.cells w.pointId
          ((db.cells w.pointId).written w.type (le64 w.valueBits.toNat)
            ⟨quality (db.metas w.pointId) w, wall, w.sourceTsNs⟩) })
  else (rtdbdStInternal, db)

def setMeta (db : Database n) (s : RtdbdSetMetaReq) : Nat × Database n :=
  if indurtdbValidatePointMeta s.pointMeta = none ∧ s.pointId < n then
    (rtdbdStOk, { db with metas := Function.update db.metas s.pointId s.pointMeta })
  else (rtdbdStBadRequest, db)

noncomputable def create (db : Database n) (c : RtdbdCreateReq) : Nat × Database n :=
  if c.name = CStr.empty then (rtdbdStBadRequest, db)
  else
    let made := db.keys.create c.partition c.pointId c.name
      (WellFormed c.type.toNat c.access.toNat)
    if made.1 = .ok then
      (rtdbdStOk,
        { db with
          keys := made.2
          cells := Function.update db.cells c.pointId (.created c.type)
          access := Function.update db.access c.pointId c.access })
    else (statusOfNaming made.1, db)

noncomputable def delete (db : Database n) (d : RtdbdDeleteReq) : Nat × Database n :=
  let made := db.keys.delete d.partition d.pointId
  (statusOfChange made.1, { db with keys := made.2 })

noncomputable def rename (db : Database n) (r : RtdbdRenameReq) : Nat × Database n :=
  if r.name = CStr.empty then (rtdbdStBadRequest, db)
  else
    let made := db.keys.rename r.partition r.pointId r.name
    (statusOfNaming made.1, { db with keys := made.2 })

/-- The status of a search for a name. -/
noncomputable def findStatus (db : Database n) (rules : Rules) (f : RtdbdFindReq) : Nat :=
  if rtdbdConfPartitionAllowed rules.conf f.partition then
    if f.name = CStr.empty then rtdbdStInternal
    else
      match db.keys.find f.partition f.name with
      | .ok _ => rtdbdStOk
      | .error _ => rtdbdStNotFound
  else rtdbdStNotFound

/-- The status of a request on a connection where `selected` is selected, and the database
behind it. -/
noncomputable def serve (db : Database n) (rules : Rules) (selected : UInt32) (env : Env) :
    Query → Nat × Database n
  | .write w => db.guarded rules env selected w.pointId (db.write w env.wall)
  | .get id => (if (db.keys.holds id).isSome then rtdbdStOk else rtdbdStNotFound, db)
  | .findByName f => (db.findStatus rules f, db)
  | .getMeta id => (if id < n then rtdbdStOk else rtdbdStBadRequest, db)
  | .setMeta s => db.guarded rules env selected s.pointId (db.setMeta s)
  | .create c => db.guarded rules env c.partition c.pointId (db.create c)
  | .delete d => db.guarded rules env d.partition d.pointId (db.delete d)
  | .rename r => db.guarded rules env r.partition r.pointId (db.rename r)
  | .select partition =>
      (if rtdbdConfPartitionAllowed rules.conf partition then rtdbdStOk else rtdbdStDenied, db)

/-- What the answer of a request that succeeds says. -/
def Tells (db : Database n) (payload : List UInt8) : Query → Prop
  | .get id => ∃ p, payload = getRespBytes id p ∧ Shows p (db.cells id)
  | .findByName f => ∃ id, payload = le32 id ∧ db.keys.holds id = some (f.partition, f.name)
  | .getMeta id => payload = metaBytes (db.metas id)
  | _ => payload = []

/-- The answer of a request: its status, and what it says if it succeeds. -/
structure Answers (db : Database n) (rules : Rules) (selected : UInt32) (env : Env) (q : Query)
    (status : Nat) (payload : List UInt8) : Prop where
  code : status = (db.serve rules selected env q).1
  tells : status = rtdbdStOk → db.Tells payload q
  silent : status ≠ rtdbdStOk → payload = []

end Database

/-! ## The segment it is kept in -/

/-- The segment behind the handle keeps the database. -/
structure Stands {n : Nat} (h : IndurtdbH) (db : Database n) : Prop where
  size : h.shm.maxPoints = n
  capacity : h.seg.hdr.maxPoints = n
  below : n < irtIndexTombstone
  roomy : 2 * n ≤ irtLayoutBuckets n
  keys : Api.Refines n h.seg db.keys
  tight : TightFor n h.seg db.keys
  agrees : Api.Agrees h db.cells
  access : ∀ id, id < n → (h.seg.points id).access = db.access id
  metas : ∀ id, id < n → h.seg.metas id = db.metas id
  offMeta : h.seg.hdr.offMeta ≠ 0

/-- Two point tables with the same keys. -/
def KeysKept (seg seg' : Segment) : Prop :=
  ∀ id, (seg'.points id).name = (seg.points id).name ∧
    (seg'.points id).partition = (seg.points id).partition

/-- The index and where the tables are stay as they are. -/
structure TablesKept (seg seg' : Segment) : Prop where
  slots : seg'.slots = seg.slots
  offIndex : seg'.hdr.offIndex = seg.hdr.offIndex
  indexCount : seg'.hdr.indexCount = seg.hdr.indexCount

section

variable {n : Nat} {seg seg' : Segment} {r : PointRegistry n}

/-- The registry does not look at anything but the keys. -/
theorem refines_of_keysKept (href : Api.Refines n seg r) (hkeys : KeysKept seg seg')
    (htables : TablesKept seg seg') (hoff : seg'.hdr.offPoints = seg.hdr.offPoints)
    (heven : seg'.hdr.writeSeq % 2 = 0) : Api.Refines n seg' r := by
  have hhash : ∀ id, (seg'.points id).keyHash = (seg.points id).keyHash := by
    intro id
    rw [IndurtdbPoint.keyHash, IndurtdbPoint.keyHash, (hkeys id).1, (hkeys id).2]
  refine ⟨heven, ⟨?_, ?_, ?_, ?_, ?_⟩, ?_⟩
  · rw [htables.offIndex]
    exact href.covers.offIndex
  · rw [hoff]
    exact href.covers.offPoints
  · intro id hid
    rw [(hkeys id).1]
    exact href.covers.names id hid
  · rw [htables.slots]
    exact href.covers.below
  · intro id hid hvisible hnamed
    rw [(hkeys id).1] at hnamed
    rw [htables.slots, hhash]
    exact href.covers.slotted id hid hvisible hnamed
  · intro id hid
    rw [href.holds id hid, pointKey, pointKey, (hkeys id).1, (hkeys id).2]

theorem tight_of_keysKept (htight : TightFor n seg r) (hkeys : KeysKept seg seg')
    (htables : TablesKept seg seg') : TightFor n seg' r := by
  refine ⟨⟨?_, ?_⟩, htables.indexCount.trans htight.count⟩
  · intro i hi hlive
    rw [htables.slots] at hlive ⊢
    rw [(hkeys _).1, IndurtdbPoint.keyHash, (hkeys _).1, (hkeys _).2]
    exact htight.tight.current i hi hlive
  · rw [htables.slots]
    exact htight.tight.distinct

theorem KeysKept.of_stores {id : Nat} {p : IndurtdbPoint} (hstores : Stores id p seg seg')
    (hname : p.name = (seg.points id).name) (hpart : p.partition = (seg.points id).partition) :
    KeysKept seg seg' := by
  intro j
  rcases eq_or_ne j id with rfl | hne
  · rw [hstores.at_id]
    exact ⟨hname, hpart⟩
  · rw [hstores.at_other hne]
    exact ⟨rfl, rfl⟩

end

/-! ## Writing -/

/-- A write does not move the index. -/
theorem write_tables (h : IndurtdbH) (id : Nat) (type : UInt8) (value : List UInt8)
    (sourceTsNs : Nat) (quality : UInt8) (now : Nat) :
    TablesKept h.seg (indurtdbHWriteQualityTs h id type value sourceTsNs quality now).2.seg := by
  have hsame : TablesKept h.seg h.seg := ⟨rfl, rfl, rfl⟩
  unfold indurtdbHWriteQualityTs
  split
  next =>
    rcases withWriteLock_cases h.seg fun seg =>
        pmWriteLocked seg id type value sourceTsNs quality now with
      ⟨-, hbusy⟩ | ⟨-, w, w', -, hlocked⟩
    · rw [hbusy]
      exact hsame
    · rw [hlocked, pmWriteLocked_eq]
      split_ifs
      · exact ⟨rfl, rfl, rfl⟩
      · exact ⟨rfl, rfl, rfl⟩
  next => exact hsame

/-- With the lock free, a write succeeds on a point that may be written. -/
theorem write_ok_iff {h : IndurtdbH} (heven : h.seg.hdr.writeSeq % 2 = 0) (id : Nat) (type : UInt8)
    (value : List UInt8) (sourceTsNs : Nat) (quality : UInt8) (now : Nat) :
    (indurtdbHWriteQualityTs h id type value sourceTsNs quality now).1 = .ok ↔
      pmValidateId h.seg id ∧ (h.seg.points id).access ≠ indurtdbAccessReadOnly := by
  unfold indurtdbHWriteQualityTs
  split
  next hid =>
    rcases withWriteLock_cases h.seg fun seg =>
        pmWriteLocked seg id type value sourceTsNs quality now with
      ⟨hodd, -⟩ | ⟨-, w, w', -, hlocked⟩
    · omega
    · rw [hlocked, pmWriteLocked_eq]
      have hpoint : (h.seg.setWriteSeq w).points id = h.seg.points id := rfl
      rw [hpoint]
      split_ifs with hreadOnly
      · exact iff_of_false (by decide) fun hboth => hboth.2 hreadOnly
      · exact iff_of_true rfl ⟨hid, hreadOnly⟩
  next hid => exact iff_of_false (fun hfail => by cases hfail) fun hboth => hid hboth.1

namespace Stands

variable {n : Nat} {h : IndurtdbH} {db : Database n}

theorem valid_iff (hstands : Stands h db) {id : Nat} : pmValidateId h.seg id ↔ id < n := by
  rw [pmValidateId, hstands.capacity]
  exact and_iff_left hstands.keys.covers.offPoints

/-- `indurtdb_h_write_quality_ts`. -/
theorem writeQuality (hstands : Stands h db) (id : Nat) (type : UInt8) (value : List UInt8)
    (sourceTsNs : Nat) (quality : UInt8) (now : Nat) :
    ((indurtdbHWriteQualityTs h id type value sourceTsNs quality now).1 = .ok ↔
        id < n ∧ db.access id ≠ indurtdbAccessReadOnly) ∧
      Stands (indurtdbHWriteQualityTs h id type value sourceTsNs quality now).2
        (if id < n ∧ db.access id ≠ indurtdbAccessReadOnly then
          { db with
            cells := Function.update db.cells id
              ((db.cells id).written type value ⟨quality, now, sourceTsNs⟩) }
        else db) := by
  have hok : (indurtdbHWriteQualityTs h id type value sourceTsNs quality now).1 = .ok ↔
      id < n ∧ db.access id ≠ indurtdbAccessReadOnly := by
    rw [write_ok_iff hstands.keys.even, hstands.valid_iff]
    refine and_congr_right fun hid => ?_
    rw [hstands.access id hid]
  have hagrees := hstands.agrees.writeQuality id type value sourceTsNs quality now
  have htables := write_tables h id type value sourceTsNs quality now
  obtain ⟨p, hstores, hp⟩ := writeQuality_stores h id type value sourceTsNs quality now
  -- a write leaves the key and the access of the record, whether it is made or not
  have hrecord : p.name = (h.seg.points id).name ∧ p.partition = (h.seg.points id).partition ∧
      p.access = (h.seg.points id).access := by
    split at hp
    · obtain ⟨-, rfl⟩ := hp
      exact ⟨rfl, rfl, rfl⟩
    · subst hp
      exact ⟨rfl, rfl, rfl⟩
  refine ⟨hok, ?_⟩
  generalize indurtdbHWriteQualityTs h id type value sourceTsNs quality now = done at *
  have hkeys := KeysKept.of_stores hstores.stores hrecord.1 hrecord.2.1
  have heven := hstores.parity.trans hstands.keys.even
  have haccess : ∀ j, (done.2.seg.points j).access = (h.seg.points j).access := by
    intro j
    rcases eq_or_ne j id with rfl | hne
    · rw [hstores.stores.at_id, hrecord.2.2]
    · rw [hstores.stores.at_other hne]
  have hkept : ∀ cells, Api.Agrees done.2 cells → Stands done.2 { db with cells := cells } :=
    fun cells hcells =>
      ⟨(congrArg IrtShm.maxPoints hstores.shm).trans hstands.size,
        hstores.stores.maxPoints.trans hstands.capacity, hstands.below, hstands.roomy,
        refines_of_keysKept hstands.keys hkeys htables hstores.stores.offPoints heven,
        tight_of_keysKept hstands.tight hkeys htables, hcells,
        fun j hj => (haccess j).trans (hstands.access j hj),
        fun j hj => (congrFun hstores.stores.metas j).trans (hstands.metas j hj),
        hstores.stores.offMeta ▸ hstands.offMeta⟩
  split
  next hwritten =>
    rw [if_pos (hok.mpr hwritten)] at hagrees
    exact hkept _ hagrees
  next hnot =>
    rw [if_neg fun h => hnot (hok.mp h)] at hagrees
    exact hkept _ hagrees

/-- `indurtdb_h_get_meta`. -/
theorem getMeta (hstands : Stands h db) (id : Nat) :
    indurtdbHGetMeta h id = if id < n then .ok (db.metas id) else .error .errArg := by
  have heven : ¬ h.seg.hdr.writeSeq % 2 = 1 := by
    rw [hstands.keys.even]
    decide
  unfold indurtdbHGetMeta
  rw [hstands.size, if_neg hstands.offMeta, if_neg heven]
  rcases Nat.lt_or_ge id n with hid | hid
  · rw [if_neg (Nat.not_le.mpr hid), if_pos hid, hstands.metas id hid]
  · rw [if_pos hid, if_neg (Nat.not_lt.mpr hid)]

end Stands

/-- The status a write is answered with. -/
def Written.status : Written → Nat
  | .unsupported => rtdbdStBadRequest
  | .stored _ => rtdbdStOk
  | .failed _ => rtdbdStInternal

namespace Stands

variable {n : Nat} {h : IndurtdbH} {db : Database n}

/-- `do_write`. -/
theorem doWrite (hstands : Stands h db) (w : RtdbdWriteReq) (wall : Nat) :
    (Daemon.doWrite h w wall).1.status = (db.write w wall).1 ∧
      Stands (Daemon.doWrite h w wall).2 (db.write w wall).2 := by
  unfold Daemon.doWrite Database.write
  split
  · exact ⟨rfl, hstands⟩
  · rw [hstands.getMeta]
    rcases Nat.lt_or_ge w.pointId n with hid | hid
    · rw [if_pos hid]
      dsimp only [Except.toOption]
      obtain ⟨hok, hafter⟩ := hstands.writeQuality w.pointId w.type (le64 w.valueBits.toNat)
        w.sourceTsNs (Database.quality (db.metas w.pointId) w) wall
      unfold Database.quality at hok hafter ⊢
      generalize indurtdbHWriteQualityTs h w.pointId w.type (le64 w.valueBits.toNat) w.sourceTsNs _
        wall = done at hok hafter ⊢
      obtain ⟨rc, h'⟩ := done
      cases rc with
      | ok =>
          rw [if_pos (hok.mp rfl)] at hafter ⊢
          exact ⟨rfl, hafter⟩
      | _ =>
          rw [if_neg fun hwritten => by cases hok.mpr hwritten] at hafter ⊢
          exact ⟨rfl, hafter⟩
    · rw [if_neg (Nat.not_lt.mpr hid), if_neg fun hwritten => Nat.not_lt.mpr hid hwritten.1]
      dsimp only [Except.toOption]
      obtain ⟨hok, hafter⟩ := hstands.writeQuality w.pointId w.type (le64 w.valueBits.toNat)
        w.sourceTsNs (indurtdbQualityMake indurtdbQualityGood indurtdbLimitNone) wall
      rw [if_neg fun hwritten => Nat.not_lt.mpr hid hwritten.1] at hafter
      generalize indurtdbHWriteQualityTs h w.pointId w.type (le64 w.valueBits.toNat) w.sourceTsNs _
        wall = done at hok hafter ⊢
      obtain ⟨rc, h'⟩ := done
      cases rc with
      | ok => exact absurd (hok.mp rfl).1 (Nat.not_lt.mpr hid)
      | _ => exact ⟨rfl, hafter⟩

/-- `op_set_meta` under its checks. -/
theorem setMeta (hstands : Stands h db) (s : RtdbdSetMetaReq) :
    statusOfChange (indurtdbHSetMeta h s.pointId s.pointMeta).1 = (db.setMeta s).1 ∧
      Stands (indurtdbHSetMeta h s.pointId s.pointMeta).2 (db.setMeta s).2 := by
  unfold indurtdbHSetMeta Database.setMeta irtMetaSet
  cases hvalid : indurtdbValidatePointMeta s.pointMeta with
  | some error => exact ⟨rfl, hstands⟩
  | none =>
      dsimp only
      rw [hstands.size, if_neg hstands.offMeta]
      rcases Nat.lt_or_ge s.pointId n with hid | hid
      · rw [if_neg (Nat.not_le.mpr hid), if_pos ⟨rfl, hid⟩,
          withWriteLock_of_even hstands.keys.even]
        have heven := irtSeqlockWriteEnd_even hstands.keys.even
        generalize irtSeqlockWriteEnd h.seg.hdr.writeSeq = w at heven ⊢
        refine ⟨rfl, hstands.size, hstands.capacity, hstands.below, hstands.roomy, ?_, ?_,
          ⟨heven, hstands.agrees.bound, hstands.agrees.shows⟩, hstands.access, ?_,
          hstands.offMeta⟩
        · exact refines_of_keysKept hstands.keys (fun _ => ⟨rfl, rfl⟩) ⟨rfl, rfl, rfl⟩ rfl heven
        · exact tight_of_keysKept hstands.tight (fun _ => ⟨rfl, rfl⟩) ⟨rfl, rfl, rfl⟩
        · intro id hlt
          rcases eq_or_ne id s.pointId with rfl | hne
          · simp only [Segment.setMeta, Segment.setWriteSeq, Function.update_self]
          · simp only [Segment.setMeta, Segment.setWriteSeq, Function.update_of_ne hne]
            exact hstands.metas id hlt
      · rw [if_pos hid, if_neg fun hboth => Nat.not_lt.mpr hid hboth.2]
        exact ⟨rfl, hstands⟩

end Stands

/-! ## Names -/

section

variable {Zone Name : Type} {capacity : Nat} {r : Registry Zone Name capacity}

/-- A registration that is refused leaves the registry as it is. -/
theorem registry_create_refused {zone : Zone} {id : Nat} {name : Name} {wellFormed : Prop}
    (hrefused : (r.create zone id name wellFormed).1 ≠ .ok) :
    (r.create zone id name wellFormed).2 = r := by
  unfold Registry.create at hrefused ⊢
  split_ifs at hrefused ⊢
  · exact absurd rfl hrefused
  · rfl
  · rfl

end

/-- A creation that is refused leaves the records as they are. -/
theorem create_refused {h : IndurtdbH} {r : PointRegistry h.shm.maxPoints} {partition : UInt32}
    {id : Nat} {type access : Int} (href : Api.Refines h.shm.maxPoints h.seg r)
    (hn : h.shm.maxPoints < irtIndexTombstone) (name : PointName)
    (hrefused : (r.create partition id name.str (WellFormed type access)).1 ≠ .ok)
    (hfailed : (indurtdbHCreatePointIn h partition id name.str type access).1 ≠ .ok) :
    Stores id (h.seg.points id) h.seg
      (indurtdbHCreatePointIn h partition id name.str type access).2.seg := by
  rcases (create_stores h partition id name.str type access).failed hfailed with
    hstores | ⟨hempty, -⟩
  · exact hstores
  · -- the place is free, so a check has failed before anything was stored
    have hnot : ¬ (WellFormed type access ∧ id < h.shm.maxPoints ∧
        ¬ r.Taken (partition, name.str) id) := by
      rintro hok
      have hnone : r.holds id = none := by
        rw [href.holds id hok.2.1, pointKey_eq_none_iff, hempty]
      rw [Registry.create, dif_pos hok, if_pos hnone] at hrefused
      exact hrefused rfl
    unfold indurtdbHCreatePointIn
    split_ifs with hname htype haccess hid htaken
    · exact .refl id h.seg
    · exact .refl id h.seg
    · exact .refl id h.seg
    · exact .refl id h.seg
    · exact .refl id h.seg
    · rw [nameTaken_iff href hn name] at htaken
      refine absurd ⟨⟨by omega, ?_⟩, by omega, htaken⟩ hnot
      rcases eq_or_ne access indurtdbAccessReadOnly.toNat with heq | hne
      · exact .inl heq
      · exact .inr (Decidable.of_not_not fun hne' => haccess ⟨hne, hne'⟩)

namespace Stands

section

variable {h : IndurtdbH} {db : Database h.shm.maxPoints}

/-- A call on the registry that stores into one record. -/
theorem step (hstands : Stands h db) {res : Rc × IndurtdbH}
    {spec : Rc × PointRegistry h.shm.maxPoints} (hstep : StepRefines h db.keys res spec)
    {id : Nat} {p : IndurtdbPoint} (hstores : Stores id p h.seg res.2.seg)
    {cells : Nat → Api.Cell} (hagrees : Api.Agrees res.2 cells) {access : Nat → UInt8}
    (hother : ∀ j, j ≠ id → access j = db.access j)
    (hat : id < h.shm.maxPoints → p.access = access id) :
    Stands res.2 { keys := spec.2, cells := cells, access := access, metas := db.metas } where
  size := congrArg IrtShm.maxPoints hstep.shm
  capacity := hstores.maxPoints.trans hstands.capacity
  below := hstands.below
  roomy := hstands.roomy
  keys := hstep.refines
  tight := hstep.tight hstands.tight
  agrees := hagrees
  access := by
    intro j hj
    rcases eq_or_ne j id with rfl | hne
    · rw [hstores.at_id, hat hj]
    · rw [hstores.at_other hne, hstands.access j hj]
      exact (hother j hne).symm
  metas := fun j hj => (congrFun hstores.metas j).trans (hstands.metas j hj)
  offMeta := hstores.offMeta ▸ hstands.offMeta

theorem room (hstands : Stands h db) : IndexRoom h.shm.maxPoints h.seg :=
  hstands.tight.tight.room hstands.keys.covers.below hstands.roomy

end

variable {n : Nat} {h : IndurtdbH} {db : Database n}

/-- `op_create_point` under its checks. -/
theorem create (hstands : Stands h db) {c : RtdbdCreateReq}
    (hfits : c.name.bytes.length ≤ nameMax) :
    statusOfNaming (indurtdbHCreatePointIn h c.partition c.pointId c.name c.type.toNat
        c.access.toNat).1 = (db.create c).1 ∧
      Stands (indurtdbHCreatePointIn h c.partition c.pointId c.name c.type.toNat
        c.access.toNat).2 (db.create c).2 := by
  unfold Database.create
  rcases eq_or_ne c.name CStr.empty with hempty | hnamed
  · rw [if_pos hempty, indurtdbHCreatePointIn, if_pos (CStr.isEmpty_iff.mpr hempty)]
    exact ⟨rfl, hstands⟩
  · rw [if_neg hnamed]
    dsimp only
    obtain rfl := hstands.size
    have hstep : StepRefines h db.keys (indurtdbHCreatePointIn h c.partition c.pointId c.name
        c.type.toNat c.access.toNat) (db.keys.create c.partition c.pointId c.name
          (WellFormed c.type.toNat c.access.toNat)) :=
      create_refines hstands.keys hstands.below ⟨c.name, hnamed, hfits⟩ c.type.toNat
        c.access.toNat fun _ _ => hstands.room.roomFor _ _ _
    have hagrees := hstands.agrees.create c.partition c.pointId c.name c.type.toNat c.access.toNat
    have hdone := (create_stores h c.partition c.pointId c.name c.type.toNat c.access.toNat).done
    have hfailed := @create_refused h db.keys c.partition c.pointId c.type.toNat c.access.toNat
      hstands.keys hstands.below ⟨c.name, hnamed, hfits⟩
    have hrefused := @registry_create_refused _ _ _ db.keys c.partition c.pointId c.name
      (WellFormed c.type.toNat c.access.toNat)
    have hcode := hstep.code
    generalize indurtdbHCreatePointIn h c.partition c.pointId c.name c.type.toNat
      c.access.toNat = done at *
    generalize db.keys.create c.partition c.pointId c.name
      (WellFormed c.type.toNat c.access.toNat) = made at *
    obtain ⟨rc, h'⟩ := done
    obtain ⟨rc', keys⟩ := made
    obtain rfl : rc = rc' := hcode
    have hbyte : ∀ b : UInt8, UInt8.ofNat (b.toNat : Int).toNat = b := fun b => by simp
    rcases eq_or_ne rc .ok with rfl | hfail
    · rw [if_pos rfl] at hagrees ⊢
      obtain ⟨-, -, -, -, -, -, hstores⟩ := hdone rfl
      rw [hbyte] at hagrees
      refine ⟨rfl, hstands.step hstep hstores hagrees (fun j hne => Function.update_of_ne hne ..)
        fun _ => ?_⟩
      rw [Function.update_self]
      exact hbyte c.access
    · rw [if_neg hfail] at hagrees ⊢
      obtain rfl : keys = db.keys := hrefused hfail
      exact ⟨rfl, hstands.step hstep (hfailed hfail hfail) hagrees (fun _ _ => rfl)
        fun hid => hstands.access c.pointId hid⟩

/-- `op_delete_point` under its checks. -/
theorem delete (hstands : Stands h db) (d : RtdbdDeleteReq) :
    statusOfChange (indurtdbHDeletePointIn h d.partition d.pointId).1 = (db.delete d).1 ∧
      Stands (indurtdbHDeletePointIn h d.partition d.pointId).2 (db.delete d).2 := by
  unfold Database.delete
  obtain rfl := hstands.size
  have hstep : StepRefines h db.keys (indurtdbHDeletePointIn h d.partition d.pointId)
      (db.keys.delete d.partition d.pointId) := delete_refines hstands.keys hstands.below
  obtain ⟨p, hstores, hp⟩ := delete_stores h d.partition d.pointId
  refine ⟨congrArg statusOfChange hstep.code, hstands.step hstep hstores.stores
    (hstands.agrees.delete d.partition d.pointId) (fun _ _ => rfl) fun hid => ?_⟩
  rw [← hstands.access d.pointId hid]
  rcases hp with rfl | rfl
  · rfl
  · rfl

/-- `op_rename_point` under its checks. -/
theorem rename (hstands : Stands h db) {r : RtdbdRenameReq}
    (hfits : r.name.bytes.length ≤ nameMax) :
    statusOfNaming (indurtdbHRenamePointIn h r.partition r.pointId r.name).1 = (db.rename r).1 ∧
      Stands (indurtdbHRenamePointIn h r.partition r.pointId r.name).2 (db.rename r).2 := by
  unfold Database.rename
  rcases eq_or_ne r.name CStr.empty with hempty | hnamed
  · rw [if_pos hempty, indurtdbHRenamePointIn, if_pos (CStr.isEmpty_iff.mpr hempty)]
    exact ⟨rfl, hstands⟩
  · rw [if_neg hnamed]
    dsimp only
    obtain rfl := hstands.size
    have hstep : StepRefines h db.keys (indurtdbHRenamePointIn h r.partition r.pointId r.name)
        (db.keys.rename r.partition r.pointId r.name) :=
      rename_refines hstands.keys hstands.below ⟨r.name, hnamed, hfits⟩
        fun _ _ _ _ => hstands.room
    obtain ⟨p, hstores, hp⟩ := rename_stores h r.partition r.pointId r.name
    refine ⟨congrArg statusOfNaming hstep.code, hstands.step hstep hstores.stores
      (hstands.agrees.rename r.partition r.pointId r.name) (fun _ _ => rfl) fun hid => ?_⟩
    rw [← hstands.access r.pointId hid]
    rcases hp with rfl | ⟨-, rfl⟩
    · rfl
    · rfl

/-- `indurtdb_h_find_by_name_in`. -/
theorem findByName (hstands : Stands h db) (partition : UInt32) (name : PointName) :
    indurtdbHFindByNameIn h partition name.str = db.keys.find partition name.str := by
  obtain rfl := hstands.size
  exact find_refines hstands.keys hstands.below name

/-- `do_get`. -/
theorem doGet (hstands : Stands h db) (id : Nat) :
    (Daemon.doGet h id = none ↔ db.keys.holds id = none) ∧
      ∀ payload, Daemon.doGet h id = some payload → db.Tells payload (.get id) := by
  unfold Daemon.doGet indurtdbHReadPoint
  rcases Nat.lt_or_ge id n with hid | hid
  · rw [if_pos (hstands.valid_iff.mpr hid)]
    dsimp only
    rw [hstands.keys.holds id hid, pointKey_eq_none_iff]
    rcases eq_or_ne (h.seg.points id).name CStr.empty with hempty | hnamed
    · rw [if_pos (CStr.isEmpty_iff.mpr hempty)]
      exact ⟨iff_of_true rfl hempty, fun payload hsome => by cases hsome⟩
    · rw [if_neg fun hempty => hnamed (CStr.isEmpty_iff.mp hempty)]
      refine ⟨iff_of_false (fun hnone => by cases hnone) hnamed, fun payload hsome => ?_⟩
      obtain rfl := Option.some.inj hsome
      exact ⟨_, rfl, hstands.agrees.shows id (hstands.valid_iff.mpr hid) hnamed⟩
  · rw [if_neg fun hvalid => Nat.not_lt.mpr hid (hstands.valid_iff.mp hvalid)]
    refine ⟨iff_of_true rfl ?_, fun payload hsome => by cases hsome⟩
    rw [Option.eq_none_iff_forall_ne_some]
    exact fun key hkey => Nat.not_lt.mpr hid (db.keys.inRange id key hkey)

end Stands

/-! ## Requests -/

/-- The opcodes of the requests for the database, the sizes of their payloads, and what
the payloads spell. -/
def queries : List (Nat × Nat × (List UInt8 → Query)) :=
  [(rtdbdOpWrite, sizeofWriteReq, fun bytes => .write (.ofBytes bytes)),
    (rtdbdOpFindByName, sizeofFindReq, fun bytes => .findByName (.ofBytes bytes)),
    (rtdbdOpGetMeta, sizeofWord, fun bytes => .getMeta (fieldAt bytes 0 4)),
    (rtdbdOpSetMeta, sizeofSetMetaReq, fun bytes => .setMeta (.ofBytes bytes)),
    (rtdbdOpGet, sizeofWord, fun bytes => .get (fieldAt bytes 0 4)),
    (rtdbdOpCreatePoint, sizeofCreateReq, fun bytes => .create (.ofBytes bytes)),
    (rtdbdOpDeletePoint, sizeofDeleteReq, fun bytes => .delete (.ofBytes bytes)),
    (rtdbdOpRenamePoint, sizeofRenameReq, fun bytes => .rename (.ofBytes bytes)),
    (rtdbdOpSelect, sizeofWord, fun bytes => .select (.ofNat (fieldAt bytes 0 4)))]

/-- What a payload asks for. -/
def Query.read (opcode : Nat) (payload : List UInt8) : Option Query :=
  (queries.find? fun entry => entry.1 == opcode && entry.2.1 == payload.length).map
    fun entry => entry.2.2 payload

/-- What the bytes on a connection ask for, if they are a whole request. -/
def queryOf (input : List UInt8) : Option Query :=
  if HeaderArrives input ∧ (headerOf input).payloadLen ≤ (input.drop sizeofHdr).length then
    Query.read (headerOf input).opcode (EventLoop.payloadOf input)
  else none

namespace RtdbdCtx

variable {cx : RtdbdCtx}

/-- A payload of the right size is handed on. -/
theorem withPayload_arrived {size : Nat} (hsize : cx.req.payloadLen = size) (harrived : cx.Arrived)
    (k : List UInt8 → Handler) :
    cx.withPayload size k =
      k cx.payload { cx with sock := { cx.sock with input := cx.left } } := by
  subst hsize
  have hlong : cx.req.payloadLen ≤ cx.sock.input.length := harrived
  simp only [withPayload, Socket.recvAll, ne_eq, not_true_eq_false, if_false, if_pos hlong]
  rfl

/-- Any other payload leaves the daemon as it is. -/
theorem withPayload_refused {size : Nat} (hnot : ¬ (cx.req.payloadLen = size ∧ cx.Arrived))
    (k : List UInt8 → Handler) : (cx.withPayload size k).2.d = cx.d := by
  unfold withPayload refuse
  split
  next => exact respond_d cx _ _
  next hsize =>
    have hsize : cx.req.payloadLen = size := Decidable.of_not_not hsize
    have hshort : ¬ size ≤ cx.sock.input.length := by
      intro hlong
      refine hnot ⟨hsize, ?_⟩
      rw [Arrived, hsize]
      exact hlong
    rw [Socket.recvAll, if_neg hshort]
    exact respond_d _ _ _

/-- A response is sent whole if the socket takes it. -/
theorem respond_sends (cx : RtdbdCtx) (status : Nat) (payload : List UInt8) :
    ∃ k, (cx.respond status payload).2.sock.output =
        cx.sock.output ++ (frameBytes status payload).take k ∧
      (cx.sock.Takes (frameBytes status payload).length →
        k = (frameBytes status payload).length) := by
  obtain ⟨k, room, heq, hkeep⟩ := respond_eq cx status payload
  refine ⟨k, by rw [heq], fun htakes => hkeep ?_⟩
  exact (respond_keep_iff cx status payload).mpr htakes

end RtdbdCtx

/-- A handler serves a request from the database. -/
structure Served {n : Nat} (db : Database n) (rules : Rules) (cx : RtdbdCtx) (q : Query)
    (done : Fate × RtdbdCtx) : Prop where
  answered : ∃ status payload k, db.Answers rules cx.conn.partition cx.env q status payload ∧
    done.2.sock.output = cx.sock.output ++ (frameBytes status payload).take k ∧
      (cx.sock.Takes (frameBytes status payload).length → k = (frameBytes status payload).length)
  stands : Stands done.2.d.h (db.serve rules cx.conn.partition cx.env q).2

namespace Served

variable {n : Nat} {db : Database n} {rules : Rules} {cx : RtdbdCtx} {q : Query}
  {done : Fate × RtdbdCtx}

/-- What a response serves. -/
theorem of_respond {cx' : RtdbdCtx} {status : Nat} {payload : List UInt8}
    (hsent : done.2.sock = (cx'.respond status payload).2.sock)
    (houtput : cx'.sock.output = cx.sock.output) (hroom : cx'.sock.room = cx.sock.room)
    (hanswers : db.Answers rules cx.conn.partition cx.env q status payload)
    (hstands : Stands done.2.d.h (db.serve rules cx.conn.partition cx.env q).2) :
    Served db rules cx q done := by
  obtain ⟨k, hout, hall⟩ := cx'.respond_sends status payload
  refine ⟨⟨status, payload, k, hanswers, ?_, fun htakes => hall fun r hr => ?_⟩, hstands⟩
  · rw [hsent, hout, houtput]
  · exact htakes r (hroom ▸ hr)

/-- A request for information is served by its answer. -/
theorem of_reading {cx' : RtdbdCtx} {status : Nat} {payload : List UInt8}
    (hdone : done = cx'.respond status payload) (houtput : cx'.sock.output = cx.sock.output)
    (hroom : cx'.sock.room = cx.sock.room)
    (hanswers : db.Answers rules cx.conn.partition cx.env q status payload)
    (hsame : (db.serve rules cx.conn.partition cx.env q).2 = db) (hstands : Stands cx'.d.h db) :
    Served db rules cx q done := by
  subst hdone
  refine of_respond rfl houtput hroom hanswers ?_
  rw [hsame, respond_d]
  exact hstands

end Served

/-! ## The handlers -/

/-- The rules the daemon goes by. -/
def Rtdbd.rules (d : Rtdbd) : Rules := ⟨d.policy, d.conf⟩

/-- A handler serves the requests of an opcode from whatever database stands. -/
def Serving (opcode size : Nat) (ask : List UInt8 → Query) : Prop :=
  ∀ {n : Nat} {db : Database n} {cx : RtdbdCtx}, cx.req.opcode = opcode →
    cx.req.payloadLen = size → cx.Arrived → Stands cx.d.h db →
      Served db cx.d.rules cx (ask cx.payload) (dispatch cx)

section

variable {n : Nat} {db : Database n} {cx : RtdbdCtx}

theorem opGet_serving : Serving rtdbdOpGet sizeofWord fun bytes => .get (fieldAt bytes 0 4) := by
  intro n db cx hop hsize harrived hstands
  obtain ⟨hnone, htells⟩ := hstands.doGet (fieldAt cx.payload 0 4)
  rw [dispatch_of_entry rfl hop, opGet, RtdbdCtx.withPayload_arrived hsize harrived]
  dsimp only
  cases hget : doGet cx.d.h (fieldAt cx.payload 0 4) with
  | none =>
      refine .of_reading rfl rfl rfl ⟨?_, (fun hok => by cases hok), fun _ => rfl⟩ rfl hstands
      rw [Database.serve, hnone.mp hget]
      rfl
  | some payload =>
      have hheld : (db.keys.holds (fieldAt cx.payload 0 4)).isSome = true := by
        rw [Option.isSome_iff_ne_none]
        intro hfree
        rw [hnone.mpr hfree] at hget
        cases hget
      refine .of_reading rfl rfl rfl ⟨?_, fun _ => htells payload hget, fun hfail => ?_⟩ rfl hstands
      · rw [Database.serve, if_pos hheld]
      · exact absurd rfl hfail

theorem opGetMeta_serving :
    Serving rtdbdOpGetMeta sizeofWord fun bytes => .getMeta (fieldAt bytes 0 4) := by
  intro n db cx hop hsize harrived hstands
  rw [dispatch_of_entry rfl hop, opGetMeta, RtdbdCtx.withPayload_arrived hsize harrived]
  dsimp only
  rw [hstands.getMeta]
  rcases Nat.lt_or_ge (fieldAt cx.payload 0 4) n with hid | hid
  · rw [if_pos hid]
    refine .of_reading rfl rfl rfl ⟨?_, fun _ => rfl, fun hfail => absurd rfl hfail⟩ rfl hstands
    rw [Database.serve, if_pos hid]
  · rw [if_neg (Nat.not_lt.mpr hid)]
    refine .of_reading rfl rfl rfl ⟨?_, (fun hok => by cases hok), fun _ => rfl⟩ rfl hstands
    rw [Database.serve, if_neg (Nat.not_lt.mpr hid)]

theorem length_nameAt_le (bytes : List UInt8) (offset : Nat) :
    (nameAt bytes offset).bytes.length ≤ nameMax := by
  refine Nat.le_trans ( List.takeWhile_prefix _).length_le ?_
  rw [List.length_take]
  exact Nat.min_le_left _ _

theorem opFindByName_serving :
    Serving rtdbdOpFindByName sizeofFindReq fun bytes => .findByName (.ofBytes bytes) := by
  intro n db cx hop hsize harrived hstands
  rw [dispatch_of_entry rfl hop, opFindByName, RtdbdCtx.withPayload_arrived hsize harrived]
  dsimp only
  have hfits : (RtdbdFindReq.ofBytes cx.payload).name.bytes.length ≤ nameMax :=
    length_nameAt_le cx.payload 0
  have hserve : db.serve cx.d.rules cx.conn.partition cx.env
      (.findByName (.ofBytes cx.payload)) =
        (db.findStatus cx.d.rules (.ofBytes cx.payload), db) := rfl
  generalize RtdbdFindReq.ofBytes cx.payload = f at hfits hserve ⊢
  have hanswer : ∀ status, db.findStatus cx.d.rules f = status → status ≠ rtdbdStOk →
      Served db cx.d.rules cx (.findByName f)
        (RtdbdCtx.respond { cx with sock := { cx.sock with input := cx.left } } status []) := by
    intro status hstatus hfail
    exact .of_reading rfl rfl rfl ⟨by rw [hserve, hstatus], fun hok => absurd hok hfail,
      fun _ => rfl⟩ rfl hstands
  cases hconf : rtdbdConfPartitionAllowed cx.d.conf f.partition with
  | false =>
      rw [Bool.not_false, if_pos rfl]
      refine hanswer _ ?_ (by decide)
      rw [Database.findStatus, Rtdbd.rules, if_neg (Bool.eq_false_iff.mp hconf)]
  | true =>
      rw [Bool.not_true, if_neg Bool.false_ne_true]
      rcases eq_or_ne f.name CStr.empty with hempty | hnamed
      · rw [indurtdbHFindByNameIn, if_pos (CStr.isEmpty_iff.mpr hempty)]
        refine hanswer _ ?_ (by decide)
        rw [Database.findStatus, Rtdbd.rules, if_pos hconf, if_pos hempty]
      · have hfind := hstands.findByName f.partition ⟨f.name, hnamed, hfits⟩
        dsimp only at hfind
        have hstatus : db.findStatus cx.d.rules f =
            match db.keys.find f.partition f.name with
            | .ok _ => rtdbdStOk
            | .error _ => rtdbdStNotFound := by
          rw [Database.findStatus, Rtdbd.rules, if_pos hconf, if_neg hnamed]
        rw [hfind]
        cases hheld : db.keys.find f.partition f.name with
        | ok id =>
            rw [hheld] at hstatus
            refine .of_reading rfl rfl rfl ⟨by rw [hserve, hstatus], fun _ => ⟨id, rfl, ?_⟩,
              fun hfail => absurd rfl hfail⟩ rfl hstands
            exact Registry.find_eq_ok_iff.mp hheld
        | error rc =>
            have hrc : rc = .errNotFound := by
              unfold Registry.find at hheld
              split at hheld
              · cases hheld
              · exact (Except.error.inj hheld).symm
            subst hrc
            rw [hheld] at hstatus
            exact hanswer _ hstatus (by decide)

theorem opSelect_serving :
    Serving rtdbdOpSelect sizeofWord fun bytes => .select (.ofNat (fieldAt bytes 0 4)) := by
  intro n db cx hop hsize harrived hstands
  rw [dispatch_of_entry rfl hop, opSelect, RtdbdCtx.withPayload_arrived hsize harrived]
  dsimp only
  generalize UInt32.ofNat (fieldAt cx.payload 0 4) = partition
  cases hconf : rtdbdConfPartitionAllowed cx.d.conf partition with
  | false =>
      rw [Bool.not_false, if_pos rfl]
      refine .of_reading rfl rfl rfl ⟨?_, (fun hok => by cases hok), fun _ => rfl⟩ rfl hstands
      rw [Database.serve, Rtdbd.rules, if_neg (Bool.eq_false_iff.mp hconf)]
  | true =>
      rw [Bool.not_true, if_neg Bool.false_ne_true]
      refine .of_respond rfl rfl rfl ⟨?_, fun _ => rfl, fun hfail => absurd rfl hfail⟩ ?_
      · rw [Database.serve, Rtdbd.rules, if_pos hconf]
      · rw [respond_d]
        exact hstands

end

/-! ## The handlers that change something -/

/-- A change that was asked for is answered by its status alone. -/
theorem Database.Answers.plain {n : Nat} {db : Database n} {rules : Rules} {selected : UInt32}
    {env : Env} {q : Query} {status : Nat} (hplain : db.Tells [] q)
    (hstatus : status = (db.serve rules selected env q).1) :
    db.Answers rules selected env q status [] := ⟨hstatus, fun _ => hplain, fun _ => rfl⟩

/-- The checks of a change are those of the database, and behind them stands what it
does. -/
structure Checked {n : Nat} (db : Database n) (cx : RtdbdCtx) (partition : UInt32) (id : Nat)
    (change : Nat × Database n) (q : Query) : Prop where
  plain : db.Tells [] q
  serve : db.serve cx.d.rules cx.conn.partition cx.env q =
    db.guarded cx.d.rules cx.env partition id change

namespace Checked

variable {n : Nat} {db : Database n} {cx : RtdbdCtx} {partition : UInt32} {id : Nat}
  {change : Nat × Database n} {q : Query} {done : Fate × RtdbdCtx}

/-- Nobody knows the peer. -/
theorem unknown (h : Checked db cx partition id change q) (hpeer : cx.env.peer = none)
    {cx' : RtdbdCtx} (hsent : done.2 = (cx'.respond rtdbdStInternal []).2)
    (houtput : cx'.sock.output = cx.sock.output) (hroom : cx'.sock.room = cx.sock.room)
    (hstands : Stands cx'.d.h db) : Served db cx.d.rules cx q done := by
  have hserve := h.serve
  rw [Database.guarded, hpeer] at hserve
  refine .of_respond (congrArg RtdbdCtx.sock hsent) houtput hroom
    (.plain h.plain (by rw [hserve])) ?_
  rw [hserve, hsent, respond_d]
  exact hstands

/-- The peer may not make the change. -/
theorem denied (h : Checked db cx partition id change q) {pid uid : Nat}
    (hpeer : cx.env.peer = some (pid, uid)) (hnot : ¬ cx.d.rules.allow uid partition id = true)
    {cx' : RtdbdCtx} (hsent : done.2 = (cx'.respond rtdbdStDenied []).2)
    (houtput : cx'.sock.output = cx.sock.output) (hroom : cx'.sock.room = cx.sock.room)
    (hstands : Stands cx'.d.h db) : Served db cx.d.rules cx q done := by
  have hserve := h.serve
  rw [Database.guarded, hpeer] at hserve
  dsimp only at hserve
  rw [if_neg hnot] at hserve
  refine .of_respond (congrArg RtdbdCtx.sock hsent) houtput hroom
    (.plain h.plain (by rw [hserve])) ?_
  rw [hserve, hsent, respond_d]
  exact hstands

/-- The change is tried. -/
theorem tried (h : Checked db cx partition id change q) {pid uid : Nat}
    (hpeer : cx.env.peer = some (pid, uid)) (hallow : cx.d.rules.allow uid partition id = true)
    {cx' : RtdbdCtx} {status : Nat} (hsent : done.2.sock = (cx'.respond status []).2.sock)
    (houtput : cx'.sock.output = cx.sock.output) (hroom : cx'.sock.room = cx.sock.room)
    (hstatus : status = change.1) (hstands : Stands done.2.d.h change.2) :
    Served db cx.d.rules cx q done := by
  have hserve := h.serve
  rw [Database.guarded, hpeer] at hserve
  dsimp only at hserve
  rw [if_pos hallow] at hserve
  refine .of_respond hsent houtput hroom (.plain h.plain (by rw [hserve, hstatus])) ?_
  rw [hserve]
  exact hstands

end Checked

/-- The broadcast behind a response leaves the segment. -/
theorem respondAndBroadcast_sent (cx : RtdbdCtx) (w : RtdbdWriteReq) (m : IndurtdbMeta) :
    (cx.respondAndBroadcast w m).2.sock = (cx.respond rtdbdStOk []).2.sock ∧
      (cx.respondAndBroadcast w m).2.d.h = cx.d.h := by
  have hd := respond_d cx rtdbdStOk []
  unfold RtdbdCtx.respondAndBroadcast
  split
  next cx' heq =>
    rw [heq] at hd ⊢
    exact ⟨rfl, congrArg Rtdbd.h hd⟩
  next cx' heq =>
    rw [heq] at hd ⊢
    have hh : cx'.d.h = cx.d.h := congrArg Rtdbd.h hd
    exact ⟨rfl, hh⟩

theorem opWrite_serving :
    Serving rtdbdOpWrite sizeofWriteReq fun bytes => .write (.ofBytes bytes) := by
  intro n db cx hop hsize harrived hstands
  rw [dispatch_of_entry rfl hop, opWrite, RtdbdCtx.withPayload_arrived hsize harrived]
  obtain ⟨hstatus, hafter⟩ := hstands.doWrite (.ofBytes cx.payload) cx.env.wall
  have hchecked : Checked db cx cx.conn.partition (RtdbdWriteReq.ofBytes cx.payload).pointId
      (db.write (.ofBytes cx.payload) cx.env.wall) (.write (.ofBytes cx.payload)) := ⟨rfl, rfl⟩
  dsimp only
  generalize RtdbdWriteReq.ofBytes cx.payload = w at hstatus hafter hchecked ⊢
  unfold RtdbdCtx.withPeer
  dsimp only
  cases hpeer : cx.env.peer with
  | none => exact hchecked.unknown hpeer rfl rfl rfl hstands
  | some peer =>
      obtain ⟨pid, uid⟩ := peer
      dsimp only
      have hrejected : ¬ cx.d.rules.allow uid cx.conn.partition w.pointId = true →
          Served db cx.d.rules cx (.write w)
            (RtdbdCtx.rejectWrite { cx with sock := { cx.sock with input := cx.left } }) :=
        fun hnot => hchecked.denied hpeer hnot rfl rfl rfl hstands
      split
      next hpolicy =>
        refine hrejected fun hallow => not_of_bnot hpolicy ?_
        exact (Bool.and_eq_true_iff.mp hallow).1
      next hpolicy =>
        split
        next hconf =>
          refine hrejected fun hallow => not_of_bnot hconf ?_
          exact (Bool.and_eq_true_iff.mp hallow).2
        next hconf =>
          have hallow : cx.d.rules.allow uid cx.conn.partition w.pointId = true :=
            Bool.and_eq_true_iff.mpr ⟨of_not_bnot hpolicy, of_not_bnot hconf⟩
          split
          next h hwrite =>
            rw [hwrite] at hstatus hafter
            refine hchecked.tried hpeer hallow rfl rfl rfl hstatus ?_
            rw [respond_d]
            exact hafter
          next rc h hwrite =>
            rw [hwrite] at hstatus hafter
            refine hchecked.tried hpeer hallow rfl rfl rfl hstatus ?_
            rw [respond_d]
            exact hafter
          next m h hwrite =>
            rw [hwrite] at hstatus hafter
            obtain ⟨hsent, hh⟩ := respondAndBroadcast_sent
              (RtdbdCtx.wrote { cx with
                d := { cx.d with h := h }, sock := { cx.sock with input := cx.left } } pid uid
                cx.conn.partition w.pointId) w m
            refine hchecked.tried hpeer hallow hsent rfl rfl hstatus ?_
            exact hh ▸ hafter

/-- The four handlers of one course. -/
theorem opManaged_serving {opcode : Nat} {op : Managed} {ask : List UInt8 → Query}
    (hentry : kOps.find? (fun entry => entry.1 == opcode) = some (opcode, opManaged op))
    (hok : op.status .ok = rtdbdStOk)
    (hask : ∀ {n : Nat} {db : Database n} {cx : RtdbdCtx}, Stands cx.d.h db →
      ∃ change, Checked db cx (op.partition cx.conn cx.payload) (op.pointId cx.payload) change
          (ask cx.payload) ∧ op.status (op.change cx.payload cx.d.h).1 = change.1 ∧
        Stands (op.change cx.payload cx.d.h).2 change.2) :
    Serving opcode op.size ask := by
  intro n db cx hop hsize harrived hstands
  rw [dispatch_of_entry hentry hop, opManaged, RtdbdCtx.withPayload_arrived hsize harrived]
  obtain ⟨change, hchecked, hstatus, hafter⟩ := hask hstands
  unfold RtdbdCtx.withPeer
  dsimp only
  cases hpeer : cx.env.peer with
  | none => exact hchecked.unknown hpeer rfl rfl rfl hstands
  | some peer =>
      obtain ⟨pid, uid⟩ := peer
      dsimp only
      split
      next hpolicy =>
        refine hchecked.denied hpeer (fun hallow => not_of_bnot hpolicy ?_) rfl rfl rfl hstands
        exact (Bool.and_eq_true_iff.mp hallow).1
      next hpolicy =>
        split
        next hconf =>
          refine hchecked.denied hpeer (fun hallow => not_of_bnot hconf ?_) rfl rfl rfl hstands
          exact (Bool.and_eq_true_iff.mp hallow).2
        next hconf =>
          have hallow : cx.d.rules.allow uid (op.partition cx.conn cx.payload)
              (op.pointId cx.payload) = true :=
            Bool.and_eq_true_iff.mpr ⟨of_not_bnot hpolicy, of_not_bnot hconf⟩
          split
          next h hchange =>
            rw [hchange] at hstatus hafter
            rw [hok] at hstatus
            cases hlog : op.log cx.payload uid with
            | none =>
                refine hchecked.tried hpeer hallow rfl rfl rfl hstatus ?_
                rw [respond_d]
                exact hafter
            | some text =>
                refine hchecked.tried hpeer hallow rfl rfl rfl hstatus ?_
                rw [respond_d]
                exact hafter
          next rc h hfail hchange =>
            rw [hchange] at hstatus hafter
            refine hchecked.tried hpeer hallow rfl rfl rfl hstatus ?_
            rw [respond_d]
            exact hafter

/-- Every request for the database is served from it. -/
theorem queries_serving : ∀ entry ∈ queries, Serving entry.1 entry.2.1 entry.2.2 := by
  unfold queries
  simp only [List.forall_mem_cons]
  refine ⟨opWrite_serving, opFindByName_serving, opGetMeta_serving, ?_, opGet_serving, ?_, ?_, ?_,
    opSelect_serving, fun _ hentry => absurd hentry List.not_mem_nil⟩
  · exact @opManaged_serving rtdbdOpSetMeta setMeta _ rfl rfl fun hstands =>
      ⟨_, ⟨rfl, rfl⟩, hstands.setMeta _⟩
  · exact @opManaged_serving rtdbdOpCreatePoint createPoint _ rfl rfl fun hstands =>
      ⟨_, ⟨rfl, rfl⟩, hstands.create (length_nameAt_le _ 8)⟩
  · exact @opManaged_serving rtdbdOpDeletePoint deletePoint _ rfl rfl fun hstands =>
      ⟨_, ⟨rfl, rfl⟩, hstands.delete _⟩
  · exact @opManaged_serving rtdbdOpRenamePoint renamePoint _ rfl rfl fun hstands =>
      ⟨_, ⟨rfl, rfl⟩, hstands.rename (length_nameAt_le _ 4)⟩

/-! ## Runs -/

/-- The service of the daemon: the database, and the partition selected on each
connection. -/
structure Service (n : Nat) where
  db : Database n
  selected : Nat → UInt32

/-- What is selected behind a request that succeeds. -/
def Query.selects (slot : Nat) (selected : Nat → UInt32) : Query → Nat → UInt32
  | .select partition => Function.update selected slot partition
  | _ => selected

/-- What an event makes of the service.  Nothing is selected on a new connection, and
anything but a whole request for the database leaves it alone. -/
noncomputable def Service.after {n : Nat} (v : Service n) (rules : Rules) : LoopEvent → Service n
  | .accept slot _ => { v with selected := Function.update v.selected slot 0 }
  | .request slot input _ env =>
      match queryOf input with
      | none => v
      | some q =>
          let served := v.db.serve rules (v.selected slot) env q
          { db := served.2
            selected := if served.1 = rtdbdStOk then q.selects slot v.selected else v.selected }
  | .flush _ _ _ => v

/-- The service behind a run. -/
noncomputable def serviceOf {n : Nat} (db : Database n) (rules : Rules) :
    List (EventLoop × LoopEvent) → Service n
  | [] => ⟨db, fun _ => 0⟩
  | (_, e) :: past => (serviceOf db rules past).after rules e

/-- The daemon provides the service. -/
structure Provides {n : Nat} (rules : Rules) (v : Service n) (s : EventLoop) : Prop where
  rules : s.d.rules = rules
  stands : Stands s.d.h v.db
  selected : ∀ slot, 0 ≤ (s.d.conns slot).fd → (s.d.conns slot).partition = v.selected slot

section

variable {cx : RtdbdCtx} {reply : Reply}

theorem rules_logged (cx : RtdbdCtx) (text : Option (List UInt8)) :
    (cx.logged text).d.rules = cx.d.rules := by
  cases text with
  | none => rfl
  | some text => rfl

/-- No request changes the rules. -/
theorem Decided.rules_kept (decided : Decided cx reply) :
    (reply.send cx).2.d.rules = cx.d.rules := by
  have hreply : reply.d.rules = cx.d.rules := by
    cases decided with
    | changed => exact rules_logged _ _
    | _ => rfl
  obtain ⟨k, room, -, -, hd⟩ := reply.send_eq cx
  rw [hd, ← hreply]
  split
  next =>
    cases decided with
    | _ => rfl
  next => rfl

end

/-- A payload of the right size is a request. -/
theorem read_of_mem : ∀ entry ∈ queries, ∀ payload : List UInt8, payload.length = entry.2.1 →
    Query.read entry.1 payload = some (entry.2.2 payload) := by
  unfold queries
  simp only [List.forall_mem_cons]
  refine ⟨?_, ?_, ?_, ?_, ?_, ?_, ?_, ?_, ?_, fun _ hentry => absurd hentry List.not_mem_nil⟩ <;>
    intro payload hlength <;> simp [Query.read, queries, hlength]

/-- What is read is a request of the table. -/
theorem mem_of_read {opcode : Nat} {payload : List UInt8} {q : Query}
    (hread : Query.read opcode payload = some q) :
    ∃ entry ∈ queries, entry.1 = opcode ∧ entry.2.1 = payload.length ∧ entry.2.2 payload = q := by
  obtain ⟨entry, hfind, rfl⟩ := Option.map_eq_some_iff.mp hread
  have hboth := List.find?_some hfind
  simp only [Bool.and_eq_true, beq_iff_eq] at hboth
  exact ⟨entry, List.mem_of_find?_eq_some hfind, hboth.1, hboth.2, rfl⟩

/-- The four handlers of one course look at their payloads first. -/
theorem dispatch_managed {opcode : Nat} {op : Managed}
    (hentry : kOps.find? (fun entry => entry.1 == opcode) = some (opcode, opManaged op)) :
    ∃ k, ∀ cx : RtdbdCtx, cx.req.opcode = opcode → dispatch cx = cx.withPayload op.size k :=
  ⟨_, fun _ hop => dispatch_of_entry hentry hop⟩

/-- The requests that change something are in the table, and look at their payloads first. -/
theorem dispatch_changing {opcode : Nat} (hop : Changing opcode) :
    ∃ size ask k, (opcode, size, ask) ∈ queries ∧ ∀ cx : RtdbdCtx, cx.req.opcode = opcode →
      dispatch cx = cx.withPayload size k := by
  rcases hop with rfl | hmanaged
  · exact ⟨_, _, _, .head _, fun cx hop => dispatch_of_entry rfl hop⟩
  · unfold managedOf at hmanaged
    split at hmanaged
    next hcode =>
      subst hcode
      obtain ⟨k, hk⟩ := @dispatch_managed rtdbdOpSetMeta setMeta rfl
      exact ⟨_, _, k, .tail _ (.tail _ (.tail _ (.head _))), hk⟩
    next =>
      split at hmanaged
      next hcode =>
        subst hcode
        obtain ⟨k, hk⟩ := @dispatch_managed rtdbdOpCreatePoint createPoint rfl
        exact ⟨_, _, k, .tail _ (.tail _ (.tail _ (.tail _ (.tail _ (.head _))))), hk⟩
      next =>
        split at hmanaged
        next hcode =>
          subst hcode
          obtain ⟨k, hk⟩ := @dispatch_managed rtdbdOpDeletePoint deletePoint rfl
          exact ⟨_, _, k, .tail _ (.tail _ (.tail _ (.tail _ (.tail _ (.tail _ (.head _)))))), hk⟩
        next =>
          split at hmanaged
          next hcode =>
            subst hcode
            obtain ⟨k, hk⟩ := @dispatch_managed rtdbdOpRenamePoint renamePoint rfl
            exact ⟨_, _, k,
              .tail _ (.tail _ (.tail _ (.tail _ (.tail _ (.tail _ (.tail _ (.head _))))))), hk⟩
          next => cases hmanaged

namespace EventLoop

variable (s : EventLoop) (slot : Nat) (input : List UInt8) (room : Option Nat) (env : Env)

theorem handled_rules : (s.handled slot input room env).d.rules = s.d.rules := by
  rcases Decidable.em (HeaderArrives input) with harrives | hnot
  · obtain ⟨reply, decided, hhandled⟩ :=
      @handleRequest_of_header s.d slot ⟨input, room, s.wire slot⟩ env harrives
    rw [handled, hhandled]
    exact decided.rules_kept
  · obtain ⟨st, input', -, hhandled⟩ :=
      @handleRequest_of_not_header s.d slot ⟨input, room, s.wire slot⟩ env hnot
    rw [handled, hhandled]
    rfl

variable {s slot input room env}

/-- A payload that arrives whole has the length that was declared. -/
theorem length_payloadOf (harrived : (s.ctx slot input room env).Arrived) :
    (payloadOf input).length = (s.ctx slot input room env).req.payloadLen :=
  List.length_take_of_le harrived

/-- What is no whole request for the database leaves the instance as it is. -/
theorem handled_of_noQuery (hnone : queryOf input = none) :
    (s.handled slot input room env).d.h = s.d.h := by
  rcases (requestAccount s slot input room env).h with hsame | ⟨hchanging, -⟩
  · exact hsame
  · rcases Decidable.em (HeaderArrives input) with harrives | hnot
    · obtain ⟨size, ask, k, hmem, hdispatch⟩ := dispatch_changing hchanging
      have hrefused : ¬ ((s.ctx slot input room env).req.payloadLen = size ∧
          (s.ctx slot input room env).Arrived) := by
        rintro ⟨hsize, harrived⟩
        have hread := read_of_mem _ hmem (payloadOf input)
          ((length_payloadOf harrived).trans hsize)
        rw [queryOf, if_pos ⟨harrives, harrived⟩] at hnone
        cases hnone.symm.trans hread
      rw [handled, handleRequest_eq harrives]
      change (dispatch (s.ctx slot input room env)).2.d.h = _
      rw [hdispatch _ rfl, RtdbdCtx.withPayload_refused hrefused]
      rfl
    · obtain ⟨st, input', -, hhandled⟩ :=
        @handleRequest_of_not_header s.d slot ⟨input, room, s.wire slot⟩ env hnot
      rw [handled, hhandled]

/-- A whole request for the database is served from it. -/
theorem handled_of_query {n : Nat} {db : Database n} {q : Query} (hquery : queryOf input = some q)
    (hstands : Stands s.d.h db) :
    ∃ done, Served db s.d.rules (s.ctx slot input room env) q done ∧
      (s.handled slot input room env).sock = done.2.sock ∧
      (s.handled slot input room env).d = done.2.d := by
  unfold queryOf at hquery
  split at hquery
  next hwhole =>
    obtain ⟨harrives, harrived⟩ := hwhole
    obtain ⟨entry, hmem, hcode, hsize, rfl⟩ := mem_of_read hquery
    refine ⟨dispatch (s.ctx slot input room env), ?_, ?_⟩
    · have hlength := @length_payloadOf s slot input room env harrived
      exact queries_serving entry hmem hcode.symm (hsize.trans hlength).symm harrived hstands
    · rw [handled, handleRequest_eq harrives]
      exact ⟨rfl, rfl⟩
  next => cases hquery

end EventLoop

/-! ## What is selected -/

theorem Query.selects_of_ne {slot j : Nat} {selected : Nat → UInt32} {q : Query} (hne : j ≠ slot) :
    q.selects slot selected j = selected j := by
  cases q with
  | select partition => exact Function.update_of_ne hne ..
  | _ => rfl

namespace EventLoop

variable {s : EventLoop} {slot : Nat} {input : List UInt8} {room : Option Nat} {env : Env}

/-- A `SELECT` that is carried out asks for the partition, and may. -/
theorem query_of_selects (hselects : HeaderArrives input ∧ (s.ctx slot input room env).Selects) :
    queryOf input = some (.select (.ofNat (fieldAt (payloadOf input) 0 4))) ∧
      rtdbdConfPartitionAllowed s.d.conf (.ofNat (fieldAt (payloadOf input) 0 4)) = true := by
  obtain ⟨harrives, hop, hcarried⟩ := hselects
  refine ⟨?_, hcarried.of_select hop⟩
  have hsize := hcarried.size
  rw [hop] at hsize
  have hlength : (payloadOf input).length = sizeofWord :=
    (length_payloadOf hcarried.arrived).trans (Option.some.inj hsize).symm
  have hopcode : (headerOf input).opcode = rtdbdOpSelect := hop
  rw [queryOf, if_pos ⟨harrives, hcarried.arrived⟩, hopcode]
  exact read_of_mem (rtdbdOpSelect, sizeofWord, _) (.tail _ (.tail _ (.tail _ (.tail _ (.tail _
    (.tail _ (.tail _ (.tail _ (.head _))))))))) (payloadOf input) hlength

/-- A whole `SELECT` of a partition there is is carried out. -/
theorem selects_of_query {partition : UInt32} (hquery : queryOf input = some (.select partition))
    (hconf : rtdbdConfPartitionAllowed s.d.conf partition = true) :
    HeaderArrives input ∧ (s.ctx slot input room env).Selects := by
  unfold queryOf at hquery
  split at hquery
  next hwhole =>
    obtain ⟨harrives, harrived⟩ := hwhole
    obtain ⟨entry, hmem, hcode, hsize, hask⟩ := mem_of_read hquery
    have hentry : entry.1 = rtdbdOpSelect ∧ entry.2.1 = sizeofWord ∧
        partition = .ofNat (fieldAt (payloadOf input) 0 4) := by
      simp only [queries, List.mem_cons, List.not_mem_nil, or_false] at hmem
      rcases hmem with rfl | rfl | rfl | rfl | rfl | rfl | rfl | rfl | rfl
      · cases hask
      · cases hask
      · cases hask
      · cases hask
      · cases hask
      · cases hask
      · cases hask
      · cases hask
      · exact ⟨rfl, rfl, (Query.select.inj hask).symm⟩
    obtain ⟨hselect, hword, rfl⟩ := hentry
    have hop : (s.ctx slot input room env).req.opcode = rtdbdOpSelect := hcode.symm.trans hselect
    have hlength := @length_payloadOf s slot input room env harrived
    refine ⟨harrives, hop, .selected harrived ?_ hop hconf⟩
    exact hlength.symm.trans (hsize.symm.trans hword)
  next => cases hquery

end EventLoop

section

variable {n : Nat} {rules : Rules} {v : Service n} {s : EventLoop} {slot : Nat}
  {input : List UInt8} {room : Option Nat} {env : Env}

theorem Service.after_noQuery (hnone : queryOf input = none) :
    v.after rules (.request slot input room env) = v := by
  simp only [Service.after, hnone]

theorem Service.after_query {q : Query} (hquery : queryOf input = some q) :
    v.after rules (.request slot input room env) =
      { db := (v.db.serve rules (v.selected slot) env q).2
        selected :=
          if (v.db.serve rules (v.selected slot) env q).1 = rtdbdStOk then
            q.selects slot v.selected
          else v.selected } := by
  simp only [Service.after, hquery]

/-- A request selects for its own connection. -/
theorem Service.selected_of_ne {j : Nat} (hne : j ≠ slot) :
    (v.after rules (.request slot input room env)).selected j = v.selected j := by
  cases hquery : queryOf input with
  | none => rw [Service.after_noQuery hquery]
  | some q =>
      rw [Service.after_query hquery]
      dsimp only
      split
      · exact Query.selects_of_ne hne
      · rfl

end

namespace Provides

variable {n : Nat} {rules : Rules} {v : Service n} {s : EventLoop}

/-- What is selected behind a request. -/
theorem selected_request (h : Provides rules v s) {slot : Nat} {input : List UInt8}
    {room : Option Nat} {env : Env} (hlive : s.Live slot) {j : Nat}
    (hfd : 0 ≤ ((s.after (.request slot input room env)).d.conns j).fd) :
    ((s.after (.request slot input room env)).d.conns j).partition =
      (v.after rules (.request slot input room env)).selected j := by
  have haccount := requestAccount s slot input room env
  rw [(after_request_account s slot input room env).2.2 j hfd]
  rcases eq_or_ne j slot with rfl | hne
  · rcases haccount.partition with ⟨hsame, hnot⟩ | ⟨hselects, hpartition⟩
    · rw [hsame, h.selected j hlive.2]
      cases hquery : queryOf input with
      | none => rw [Service.after_noQuery hquery]
      | some q =>
          rw [Service.after_query hquery]
          dsimp only
          cases q with
          | select partition =>
              have hconf : ¬ rtdbdConfPartitionAllowed rules.conf partition = true := by
                intro hconf
                rw [← h.rules] at hconf
                exact hnot (EventLoop.selects_of_query hquery hconf)
              have hdenied : (v.db.serve rules (v.selected j) env (.select partition)).1 =
                  rtdbdStDenied := if_neg hconf
              rw [hdenied, if_neg (by decide)]
          | _ => simp only [Query.selects, ite_self]
    · obtain ⟨hquery, hconf⟩ := EventLoop.query_of_selects hselects
      rw [Service.after_query hquery, hpartition]
      have hdone : (v.db.serve rules (v.selected j) env
          (.select (.ofNat (fieldAt (EventLoop.payloadOf input) 0 4)))).1 = rtdbdStOk := by
        refine if_pos ?_
        rw [← h.rules]
        exact hconf
      rw [hdone, if_pos rfl]
      exact (Function.update_self (f := v.selected) j _).symm
  · have hkept := s.after_conn_of_ne (e := .request slot input room env) hne
    rw [haccount.others j hne, h.selected j (hkept.fd ▸ hfd), Service.selected_of_ne hne]

/-- Every step of the loop keeps the service. -/
theorem after (h : Provides rules v s) {e : LoopEvent} (hcan : s.Enabled e) :
    Provides rules (v.after rules e) (s.after e) := by
  cases e with
  | accept slot fd =>
      refine ⟨h.rules, h.stands, fun j hfd => ?_⟩
      rcases eq_or_ne j slot with rfl | hne
      · rw [EventLoop.after_accept_conn]
        exact (Function.update_self (f := v.selected) j 0).symm
      · simp only [EventLoop.after, Service.after, Function.update_of_ne hne] at hfd ⊢
        exact h.selected j hfd
  | flush slot results now =>
      refine ⟨h.rules, h.stands, fun j hfd => ?_⟩
      rcases eq_or_ne j slot with rfl | hne
      · rw [(s.after_flush j results now).2] at hfd ⊢
        split at hfd
        next hsent =>
          rw [if_pos hsent]
          exact h.selected j hfd
        next => exact absurd hfd connInit_closed
      · simp only [EventLoop.after, Service.after, Function.update_of_ne hne] at hfd ⊢
        exact h.selected j hfd
  | request slot input room env =>
      refine ⟨?_, ?_, fun j hfd => h.selected_request hcan hfd⟩
      · have hrules : (s.after (.request slot input room env)).d.rules =
            (s.handled slot input room env).d.rules := by
          unfold EventLoop.after
          dsimp only
          split
          · rfl
          · rfl
        rw [hrules, EventLoop.handled_rules, h.rules]
      · rw [(after_request_account s slot input room env).1]
        cases hquery : queryOf input with
        | none =>
            rw [EventLoop.handled_of_noQuery hquery, Service.after_noQuery hquery]
            exact h.stands
        | some q =>
            obtain ⟨done, hserved, -, hd⟩ :=
              @EventLoop.handled_of_query s slot input room env n v.db q hquery h.stands
            have hstands := hserved.stands
            have hconn : (s.ctx slot input room env).conn.partition = v.selected slot :=
              h.selected slot hcan.2
            rw [hconn, h.rules] at hstands
            rw [hd, Service.after_query hquery]
            exact hstands

end Provides

/-- The daemon answers as the service of its run does. -/
structure AnswersAs {n : Nat} (rules : Rules) (v : Service n) (s : EventLoop) : Prop where
  stands : Stands s.d.h v.db
  answered : ∀ slot input room env q, s.Live slot → queryOf input = some q →
    ∃ status payload k, v.db.Answers rules (v.selected slot) env q status payload ∧
      (s.handled slot input room env).sock.output =
        s.wire slot ++ (frameBytes status payload).take k ∧
      ((∀ r, room = some r → (frameBytes status payload).length ≤ r) →
        k = (frameBytes status payload).length)

/-- A request that is handled now is answered from the service. -/
theorem Provides.answersAs {n : Nat} {rules : Rules} {v : Service n} {s : EventLoop}
    (h : Provides rules v s) : AnswersAs rules v s := by
  refine ⟨h.stands, fun slot input room env q hlive hquery => ?_⟩
  obtain ⟨done, hserved, hsock, -⟩ :=
    @EventLoop.handled_of_query s slot input room env n _ q hquery h.stands
  obtain ⟨status, payload, k, hanswers, houtput, hall⟩ := hserved.answered
  have hconn : (s.ctx slot input room env).conn.partition = v.selected slot :=
    h.selected slot hlive.2
  rw [hconn, h.rules] at hanswers
  exact ⟨status, payload, k, hanswers, by rw [hsock]; exact houtput, hall⟩

/-- **The daemon is a database.**  Over every run, from any segment that keeps a database,
whatever the connections ask, in whatever order they are handled, and however they come and
go, the segment keeps the database that the whole requests for it make in that order; and
the next request of any connection is answered as this database answers it. -/
theorem answersAs_of_run {n : Nat} {d : Rtdbd} {db : Database n}
    (hclosed : ∀ slot, (d.conns slot).fd < 0) (hstands : Stands d.h db)
    {past : List (EventLoop × LoopEvent)} {s : EventLoop}
    (hrun : EventLoop.Runs (.start d) past s) :
    AnswersAs d.rules (serviceOf db d.rules past) s := by
  have hprovides : Provides d.rules (serviceOf db d.rules past) s := by
    refine hrun.invariant (P := fun past s => Provides d.rules (serviceOf db d.rules past) s) ?_ ?_
    · exact ⟨rfl, hstands, fun slot hfd => absurd hfd (Int.not_le.mpr (hclosed slot))⟩
    · exact fun past s e h hcan => h.after hcan
  exact hprovides.answersAs

/-! ## Where it starts -/

/-- The database in a segment. -/
def Database.of {n : Nat} (h : IndurtdbH) (keys : PointRegistry n) : Database n where
  keys := keys
  cells := fun id => .ofPoint (h.seg.points id)
  access := fun id => (h.seg.points id).access
  metas := h.seg.metas

/-- A segment that stands for a registry keeps a database. -/
theorem Stands.of_refines {n : Nat} {h : IndurtdbH} {keys : PointRegistry n}
    (hsize : h.shm.maxPoints = n) (hcapacity : h.seg.hdr.maxPoints = n)
    (hbelow : n < irtIndexTombstone) (hroomy : 2 * n ≤ irtLayoutBuckets n)
    (hkeys : Api.Refines n h.seg keys) (htight : TightFor n h.seg keys)
    (hmeta : h.seg.hdr.offMeta ≠ 0) : Stands h (.of h keys) where
  size := hsize
  capacity := hcapacity
  below := hbelow
  roomy := hroomy
  keys := hkeys
  tight := htight
  agrees :=
    { free := hkeys.even
      bound := by
        rw [hcapacity]
        exact Nat.lt_trans hbelow (by decide)
      shows := fun id _ _ => by
        refine ⟨rfl, List.prefix_refl _, fun t ht => ?_⟩
        obtain rfl := Option.some.inj ht
        exact ⟨rfl, rfl, rfl⟩ }
  access := fun _ _ => rfl
  metas := fun _ _ => rfl
  offMeta := hmeta

/-- A fresh segment keeps an empty database. -/
theorem stands_fresh {N M : Nat} (hfits : IndexOffsetFits N) (pid : Nat)
    (hmax : (irtShmInitOwner N M pid).hdr.maxPoints = N)
    (hmeta : (irtShmInitOwner N M pid).hdr.offMeta ≠ 0) :
    Stands (freshHandle N M pid)
      (.of (freshHandle N M pid) (Registry.empty : PointRegistry N)) := by
  obtain ⟨hkeys, htight⟩ := irtShmInitOwner_refines hfits M pid
  have hlt := indexOffsetFits_iff.mp hfits
  have hbelow : N < irtIndexTombstone := by
    simp only [irtIndexTombstone]
    omega
  exact .of_refines rfl hmax hbelow hfits.two_mul_le hkeys htight hmeta

/-- A client creates point 0 and writes it, and another one asks for it. -/
def shared : List LoopEvent :=
  [.accept 0 5,
    .request 0 (frameBytes rtdbdOpCreatePoint
      (le32 0 ++ [indurtdbTypeInt32.toUInt8, indurtdbAccessReadWrite, 0, 0] ++
        byteArray 64 abc.bytes ++ le32 0)) none operator,
    .accept 1 6, .request 0 writeZero none operator,
    .request 1 (frameBytes rtdbdOpGet (le32 0)) none operator]

theorem answersAs_of_run_shared :
    AnswersAs entered.rules
      (serviceOf (.of entered.h (Registry.empty : PointRegistry 16)) entered.rules
        (Trace.passed EventLoop.after shared (.start entered) []))
      (shared.foldl EventLoop.after (.start entered)) := by
  have hstart : EventLoop.Runs (.start entered) [] (.start entered) := .start
  exact answersAs_of_run entered_closed
    (stands_fresh (by decide +kernel) 1 (by decide +kernel) (by decide +kernel))
    (hstart.follow shared (by decide +kernel))

end InduRtdb.Daemon
