/-
  Daemon/Startup.lean --- the start of a worker: its files, its segment, and what it
  serves from then on.

  Source: `rtdbd/src/rtdbd.c` (`main`, up to the loop), `src/core/irt_shm.c`
  (`irt_shm_init`) and `src/api/indurtdb.c` (`indurtdb_h_load_config`).

  A worker creates its segment or finds the one of its predecessor, frees the lock that
  a dead writer has left held, and loads its configuration over what is there.  No call
  of a worker touches what the header says of the layout, so the next worker accepts the
  segment as well.
-/
import InduRtdb.Api.ConfigFile
import InduRtdb.Api.LoadAny
import InduRtdb.Api.MalformedIds
import InduRtdb.Api.Respawn
import InduRtdb.Core.Mapping
import InduRtdb.Daemon.ConfFile
import InduRtdb.Daemon.Database
import InduRtdb.Daemon.PolicyFile
import InduRtdb.Daemon.Supervisor
import InduRtdb.Daemon.Workers

set_option autoImplicit false

namespace InduRtdb.Daemon

open InduRtdb.Core InduRtdb.Api InduRtdb.Spec InduRtdb.Lib

/-! ## The layout outlives every call -/

section

variable {seg seg' : Segment}

theorem withWriteLock_layout (seg : Segment) {body : Segment → Rc × Segment}
    (hbody : ∀ seg, SameLayout seg.hdr (body seg).2.hdr) :
    SameLayout seg.hdr (withWriteLock seg body).2.hdr := by
  rcases withWriteLock_cases seg body with ⟨-, hbusy⟩ | ⟨-, w, w', -, hlocked⟩
  · rw [hbusy]
    rfl
  · rw [hlocked]
    have hbegun : SameLayout seg.hdr (seg.setWriteSeq w).hdr := rfl
    exact (hbegun.trans (hbody _)).trans rfl

theorem irtIndexInsert_layout (s : IrtShm) (seg : Segment) (partition : UInt32) (name : CStr)
    (id : Nat) : SameLayout seg.hdr (irtIndexInsert s seg partition name id).2.hdr :=
  withWriteLock_layout seg fun seg => (Core.irtIndexInsertLocked_slots s seg partition name id).1

theorem irtMetaSet_layout (s : IrtShm) (seg : Segment) (id : Nat) (m : IndurtdbMeta) :
    SameLayout seg.hdr (irtMetaSet s seg id m).2.hdr := by
  unfold irtMetaSet
  split
  · rfl
  · split
    · rfl
    · exact withWriteLock_layout seg fun _ => rfl

variable (h : IndurtdbH)

theorem createPoint_layout (partition : UInt32) (id : Nat) (name : CStr) (type access : Int) :
    SameLayout h.seg.hdr
      (indurtdbHCreatePointIn h partition id name type access).2.seg.hdr := by
  have hregister : SameLayout h.seg.hdr (withWriteLock h.seg fun seg => registerLocked seg
      partition id name (.ofNat type.toNat) (.ofNat access.toNat)).2.hdr := by
    refine withWriteLock_layout h.seg fun seg => ?_
    unfold registerLocked
    split
    · rfl
    · rfl
  unfold indurtdbHCreatePointIn
  split_ifs
  · rfl
  · rfl
  · rfl
  · rfl
  · rfl
  · generalize withWriteLock h.seg _ = registered at hregister ⊢
    obtain ⟨rc, seg⟩ := registered
    split
    next heq =>
      cases heq
      have hinsert := irtIndexInsert_layout h.shm seg partition name id
      generalize irtIndexInsert h.shm seg partition name id = inserted at hinsert ⊢
      obtain ⟨rc', seg'⟩ := inserted
      split
      next heq =>
        cases heq
        rw [deltaLog_seg]
        exact hregister.trans hinsert
      next heq =>
        cases heq
        exact (hregister.trans hinsert).trans (withWriteLock_layout seg' fun _ => rfl)
    next heq =>
      cases heq
      exact hregister

theorem deletePoint_layout (partition : UInt32) (id : Nat) :
    SameLayout h.seg.hdr (indurtdbHDeletePointIn h partition id).2.seg.hdr := by
  have hlocked : SameLayout h.seg.hdr
      (withWriteLock h.seg fun seg => deleteLocked h.shm seg partition id).2.hdr := by
    refine withWriteLock_layout h.seg fun seg => ?_
    unfold deleteLocked
    split_ifs
    · rfl
    · rfl
    · exact (Core.irtIndexRemoveLocked_slots h.shm seg _ _).1.trans rfl
  unfold indurtdbHDeletePointIn
  split_ifs
  · rfl
  · generalize withWriteLock h.seg _ = deleted at hlocked ⊢
    obtain ⟨rc, seg⟩ := deleted
    split
    next heq =>
      cases heq
      rw [deltaLog_seg]
      exact hlocked
    next heq =>
      cases heq
      exact hlocked

theorem renameLocked_layout (s : IrtShm) (seg : Segment) (partition : UInt32) (id : Nat)
    (name : CStr) : SameLayout seg.hdr (renameLocked s seg partition id name).2.hdr := by
  unfold renameLocked
  split_ifs
  · rfl
  · rfl
  · have hinsert := (Core.irtIndexInsertLocked_slots s seg partition name id).1
    generalize irtIndexInsertLocked s seg partition name id = inserted at hinsert ⊢
    obtain ⟨rc, seg'⟩ := inserted
    split
    next heq =>
      cases heq
      exact (hinsert.trans (Core.irtIndexRemoveLocked_slots s seg' _ _).1).trans rfl
    next heq =>
      cases heq
      exact hinsert

theorem renamePoint_layout (partition : UInt32) (id : Nat) (name : CStr) :
    SameLayout h.seg.hdr (indurtdbHRenamePointIn h partition id name).2.seg.hdr := by
  unfold indurtdbHRenamePointIn
  split_ifs
  · rfl
  · rfl
  · rfl
  · dsimp only
    split_ifs
    · rfl
    · generalize hbegun : irtSeqlockWriteBegin h.seg.hdr.writeSeq = begun
      have hbegin : SameLayout h.seg.hdr (h.seg.setWriteSeq begun.2).hdr := rfl
      have hlocked := hbegin.trans
        (renameLocked_layout h.shm (h.seg.setWriteSeq begun.2) partition id name)
      generalize renameLocked h.shm (h.seg.setWriteSeq begun.2) partition id name = renamed
        at hlocked ⊢
      split
      · exact hlocked.trans rfl
      · exact hlocked.trans rfl
      · rw [deltaLog_seg]
        exact hlocked.trans rfl

theorem setMeta_layout (id : Nat) (m : IndurtdbMeta) :
    SameLayout h.seg.hdr (indurtdbHSetMeta h id m).2.seg.hdr := by
  unfold indurtdbHSetMeta
  split
  · rfl
  · exact irtMetaSet_layout h.shm h.seg id m

theorem writeQuality_layout (id : Nat) (type : UInt8) (value : List UInt8) (sourceTsNs : Nat)
    (quality : UInt8) (now : Nat) :
    SameLayout h.seg.hdr
      (indurtdbHWriteQualityTs h id type value sourceTsNs quality now).2.seg.hdr := by
  have hlocked : SameLayout h.seg.hdr (withWriteLock h.seg fun seg =>
      pmWriteLocked seg id type value sourceTsNs quality now).2.hdr := by
    refine withWriteLock_layout h.seg fun seg => ?_
    rw [pmWriteLocked_eq]
    split_ifs
    · rfl
    · rfl
  unfold indurtdbHWriteQualityTs
  split
  · generalize withWriteLock h.seg _ = written at hlocked ⊢
    obtain ⟨rc, seg⟩ := written
    split
    next heq =>
      cases heq
      exact hlocked.trans rfl
    next heq =>
      cases heq
      exact hlocked
  · rfl

theorem doWrite_layout (w : RtdbdWriteReq) (wall : Nat) :
    SameLayout h.seg.hdr (doWrite h w wall).2.seg.hdr := by
  unfold doWrite
  split
  · rfl
  · dsimp only
    generalize indurtdbQualityMake _ _ = quality
    have hwrite := writeQuality_layout h w.pointId w.type (le64 w.valueBits.toNat) w.sourceTsNs
      quality wall
    generalize indurtdbHWriteQualityTs h w.pointId w.type _ _ quality wall = written at hwrite ⊢
    obtain ⟨rc, h'⟩ := written
    split
    next heq =>
      cases heq
      exact hwrite
    next heq =>
      cases heq
      exact hwrite

end

/-- The four handlers of one course change no layout. -/
theorem managed_layout {opcode : Nat} {op : Managed} (hop : managedOf opcode = some op)
    (bytes : List UInt8) (h : IndurtdbH) :
    SameLayout h.seg.hdr (op.change bytes h).2.seg.hdr := by
  unfold managedOf at hop
  split at hop
  next =>
    cases hop
    exact setMeta_layout h _ _
  next =>
    split at hop
    next =>
      cases hop
      exact createPoint_layout h _ _ _ _ _
    next =>
      split at hop
      next =>
        cases hop
        exact deletePoint_layout h _ _
      next =>
        split at hop
        next =>
          cases hop
          exact renamePoint_layout h _ _ _
        next => cases hop

/-- A decision changes no layout. -/
theorem Decided.layout {cx : RtdbdCtx} {reply : Reply} (decided : Decided cx reply) :
    SameLayout cx.d.h.seg.hdr reply.d.h.seg.hdr := by
  cases decided with
  | wrote arrived size opcode permitted m h stores =>
      have hlayout := doWrite_layout cx.d.h cx.writeReq cx.env.wall
      rw [stores] at hlayout
      exact hlayout
  | writeFailed arrived opcode permitted h st writes status failure fails leaves =>
      rw [← leaves]
      exact doWrite_layout cx.d.h cx.writeReq cx.env.wall
  | changed arrived op size opcode permitted h changes =>
      have hlayout := managed_layout opcode cx.payload cx.d.h
      rw [changes] at hlayout
      rw [h_logged]
      exact hlayout
  | changeFailed arrived op opcode permitted rc h changes fails failure =>
      have hlayout := managed_layout opcode cx.payload cx.d.h
      rw [changes] at hlayout
      exact hlayout
  | _ => rfl

/-- No step of the loop changes the layout. -/
theorem EventLoop.after_layout (s : EventLoop) (e : LoopEvent) :
    SameLayout s.d.h.seg.hdr (s.after e).d.h.seg.hdr := by
  cases e with
  | accept slot fd => rfl
  | flush slot results now => rfl
  | request slot input room env =>
      rw [(after_request_account s slot input room env).1]
      rcases Decidable.em (HeaderArrives input) with harrives | hnot
      · obtain ⟨reply, decided, hhandled⟩ :=
          @handleRequest_of_header s.d slot ⟨input, room, s.wire slot⟩ env harrives
        have hsent : (reply.send (s.ctx slot input room env)).2.d.h = reply.d.h := decided.sent.h
        have hlayout := decided.layout
        rw [← hsent] at hlayout
        rw [handled, hhandled]
        exact hlayout
      · obtain ⟨st, input', -, hhandled⟩ :=
          @handleRequest_of_not_header s.d slot ⟨input, room, s.wire slot⟩ env hnot
        rw [handled, hhandled]
        rfl

/-! ## A configuration is loaded over a database -/

namespace Database

variable {n : Nat}

open Classical in
/-- The id of an entry gets its key, its type and its access, and its metadata where it has
some.  The value stays; what the place of a former point holds is not told. -/
noncomputable def configure (db : Database n) (pm : IrtPointMeta) : Database n where
  keys :=
    if h : pm.id < n ∧ pm.stored ≠ CStr.empty ∧ ¬ db.keys.Taken (0, pm.stored) pm.id then
      db.keys.assign pm.id (0, pm.stored) h.1 h.2.2
    else db.keys
  cells := Function.update db.cells pm.id
    (if (db.keys.holds pm.id).isSome then { db.cells pm.id with type := pm.type }
    else ⟨pm.type, [], none⟩)
  access := Function.update db.access pm.id pm.access
  metas := if pm.hasMeta then Function.update db.metas pm.id pm.pointMeta else db.metas

/-- The entries of a configuration one after another, up to one with a value that cannot be
read. -/
noncomputable def load : List IrtPointMeta → Database n → Database n
  | [], db => db
  | pm :: rest, db =>
      if pm.id < n ∧ pm.type.toNat ≤ indurtdbTypeFloat then
        if pm.badValue then db else load rest (db.configure pm)
      else load rest db

end Database

section Load

variable {h : IndurtdbH} {pm : IrtPointMeta}

/-- The records behind one entry. -/
theorem configurePoint_stores (s : IrtShm) {seg : Segment} (heven : seg.hdr.writeSeq % 2 = 0) :
    Stores pm.id (pm.record (seg.points pm.id)) seg (configurePoint s seg pm).2 ∧
      (configurePoint s seg pm).2.hdr.writeSeq % 2 = 0 := by
  have hend := irtSeqlockWriteEnd_even heven
  have hself := overwritten_self seg pm
  have hover : Stores pm.id (pm.record (seg.points pm.id)) seg (overwritten seg pm) :=
    (Stores.setPoint seg pm.id (pm.record (seg.points pm.id))).locked _
  have hinsert := @irtIndexInsert_stores s (overwritten seg pm) _ pm.stored pm.id hend hself.1
  rw [hover.at_id] at hinsert
  rw [configurePoint_eq heven]
  exact ⟨hover.trans hinsert.1, hinsert.2⟩

/-- With the lock free and a bucket free, one entry is not given up. -/
theorem configurePoint_done (s : IrtShm) {seg : Segment} (heven : seg.hdr.writeSeq % 2 = 0)
    (hroom : IndexRoom s.maxPoints seg) :
    (configurePoint s seg pm).1 ≠ .errFull ∧ (configurePoint s seg pm).1 ≠ .errBusy := by
  have hend : (overwritten seg pm).hdr.writeSeq % 2 = 0 := irtSeqlockWriteEnd_even heven
  have hroom' : ∀ w, IndexRoom s.maxPoints ((overwritten seg pm).setWriteSeq w) := fun _ => hroom
  rw [configurePoint_eq heven, irtIndexInsert, withWriteLock_of_even hend]
  refine ⟨insertLocked_ne_full (hroom' _) 0 pm.stored pm.id, ?_⟩
  unfold irtIndexInsertLocked
  split
  · exact fun hrc => by cases hrc
  · split
    · exact fun hrc => by cases hrc
    · split
      · exact fun hrc => by cases hrc
      · dsimp only
        split
        · exact fun hrc => by cases hrc
        · exact fun hrc => by cases hrc
        · exact fun hrc => by cases hrc

theorem irtMetaSet_ok {s : IrtShm} {seg : Segment} {id : Nat} (hid : id < s.maxPoints)
    (hmeta : seg.hdr.offMeta ≠ 0) (heven : seg.hdr.writeSeq % 2 = 0) (m : IndurtdbMeta) :
    ∃ w, w % 2 = 0 ∧
      irtMetaSet s seg id m = (.ok, (seg.setMeta id m).setWriteSeq w) := by
  refine ⟨_, irtSeqlockWriteEnd_even heven, ?_⟩
  rw [irtMetaSet, if_neg (Nat.not_le.mpr hid), if_neg hmeta, withWriteLock_of_even heven]
  rfl

/-- The records and the metadata behind one entry. -/
theorem applyEntry_stores (s : IrtShm) {seg : Segment} (heven : seg.hdr.writeSeq % 2 = 0)
    (hid : pm.id < s.maxPoints) (hmeta : seg.hdr.offMeta ≠ 0) :
    (applyEntry s seg pm).points =
        Function.update seg.points pm.id (pm.record (seg.points pm.id)) ∧
      (applyEntry s seg pm).metas =
        (if pm.hasMeta then Function.update seg.metas pm.id pm.pointMeta else seg.metas) ∧
      (applyEntry s seg pm).hdr.maxPoints = seg.hdr.maxPoints ∧
      (applyEntry s seg pm).hdr.offPoints = seg.hdr.offPoints ∧
      (applyEntry s seg pm).hdr.offMeta = seg.hdr.offMeta := by
  obtain ⟨hstores, heven'⟩ := @configurePoint_stores pm s seg heven
  have hmeta' : (configurePoint s seg pm).2.hdr.offMeta ≠ 0 := by
    rw [hstores.offMeta]
    exact hmeta
  obtain ⟨w, -, hset⟩ := irtMetaSet_ok hid hmeta' heven' pm.pointMeta
  unfold applyEntry
  dsimp only
  split_ifs
  · rw [hset]
    refine ⟨hstores.points, ?_, hstores.maxPoints, hstores.offPoints, hstores.offMeta⟩
    exact congrArg (Function.update · pm.id pm.pointMeta) hstores.metas
  · exact ⟨hstores.points, hstores.metas, hstores.maxPoints, hstores.offPoints,
      hstores.offMeta⟩

/-- The turn of the loop for an entry that is accepted. -/
theorem loadConfigLoop_accepted {s : IrtShm} {seg : Segment} (rest : List IrtPointMeta)
    (heven : seg.hdr.writeSeq % 2 = 0) (hmeta : seg.hdr.offMeta ≠ 0)
    (hroom : IndexRoom s.maxPoints seg) (haccepted : pm.Accepted s) (hbad : pm.badValue = false) :
    loadConfigLoop s (pm :: rest) .ok seg = loadConfigLoop s rest .ok (applyEntry s seg pm) := by
  obtain ⟨hfull, hbusy⟩ := @configurePoint_done pm s seg heven hroom
  obtain ⟨hstores, heven'⟩ := @configurePoint_stores pm s seg heven
  have hmeta' : (configurePoint s seg pm).2.hdr.offMeta ≠ 0 := by
    rw [hstores.offMeta]
    exact hmeta
  obtain ⟨w, -, hset⟩ := irtMetaSet_ok haccepted.1 hmeta' heven' pm.pointMeta
  have hbad' : ¬ pm.badValue = true := Bool.eq_false_iff.mp hbad
  conv_lhs => unfold loadConfigLoop
  rw [if_neg (Nat.not_le.mpr haccepted.1), if_neg (Nat.not_lt.mpr haccepted.2), if_neg hbad']
  unfold applyEntry
  dsimp only
  rw [if_neg hfull, if_neg hbusy, hset, if_pos rfl]
  split_ifs
  · rfl
  · rfl

/-- The keys behind one entry are those of the table. -/
theorem configure_holds {n : Nat} {seg seg' : Segment} {db : Database n}
    (hkeys : Api.Refines n seg db.keys) (hid : pm.id < n) (hmet : EntryMet n seg pm)
    (hpoints : seg'.points = Function.update seg.points pm.id (pm.record (seg.points pm.id)))
    {id : Nat} (hlt : id < n) : (db.configure pm).keys.holds id = pointKey (seg'.points id) := by
  have htaken : pm.stored ≠ CStr.empty → ¬ db.keys.Taken (0, pm.stored) pm.id := by
    rintro hname ⟨k, hne, hk⟩
    have hk' := hkeys.holds k (db.keys.inRange k _ hk)
    rw [hk] at hk'
    obtain ⟨-, hkey⟩ := pointKey_eq_some_iff.mp hk'.symm
    rw [EntryMet, if_neg fun h => hname (CStr.isEmpty_iff.mp h)] at hmet
    exact hmet.2 k (db.keys.inRange k _ hk) hne hkey
  rw [hpoints]
  unfold Database.configure
  dsimp only
  rcases eq_or_ne pm.stored CStr.empty with hempty | hname
  · rw [dif_neg fun h => h.2.1 hempty]
    rw [EntryMet, if_pos (CStr.isEmpty_iff.mpr hempty)] at hmet
    rcases eq_or_ne id pm.id with rfl | hne
    · rw [Function.update_self, hkeys.holds pm.id hid, pointKey_eq_none_iff.mpr hmet]
      exact (pointKey_eq_none_iff.mpr hempty).symm
    · rw [Function.update_of_ne hne]
      exact hkeys.holds id hlt
  · rw [dif_pos ⟨hid, hname, htaken hname⟩]
    have hself : pointKey (pm.record (seg.points pm.id)) = some (0, pm.stored) :=
      pointKey_eq_some_iff.mpr ⟨hname, rfl, rfl⟩
    rcases eq_or_ne id pm.id with rfl | hne
    · rw [Function.update_self, hself]
      exact Function.update_self (f := db.keys.holds) pm.id _
    · rw [Function.update_of_ne hne]
      exact (Function.update_of_ne (f := db.keys.holds) hne _).trans (hkeys.holds id hlt)

/-- One entry of a configuration, loaded over a database. -/
theorem Stands.configure {n : Nat} {db : Database n} (hstands : Stands h db) (hid : pm.id < n)
    (hmet : EntryMet n h.seg pm) :
    Stands { h with seg := applyEntry h.shm h.seg pm } (db.configure pm) := by
  obtain rfl := hstands.size
  have hsound : Api.Sound h.shm.maxPoints h.seg := ⟨db.keys, hstands.keys, hstands.tight⟩
  obtain ⟨r, hrefines, htight⟩ := (hsound.applyEntry hstands.below hstands.roomy hid hmet).2
  obtain ⟨hpoints, hmetas, hmax, hoff, hoffMeta⟩ :=
    applyEntry_stores h.shm hstands.keys.even hid hstands.offMeta
  generalize applyEntry h.shm h.seg pm = seg' at *
  -- the registry behind the entry is the one of the database
  have hr : r = (db.configure pm).keys := by
    refine Registry.ext (funext fun id => ?_)
    rcases Nat.lt_or_ge id h.shm.maxPoints with hlt | hge
    · rw [hrefines.holds id hlt]
      exact (configure_holds hstands.keys hid hmet hpoints hlt).symm
    · have hnone : ∀ r : PointRegistry h.shm.maxPoints, r.holds id = none := by
        intro r
        refine Option.eq_none_iff_forall_ne_some.mpr fun key hkey => ?_
        exact absurd (r.inRange id key hkey) (Nat.not_lt.mpr hge)
      rw [hnone, hnone]
  subst hr
  refine
    { size := rfl
      capacity := hmax.trans hstands.capacity
      below := hstands.below
      roomy := hstands.roomy
      keys := hrefines
      tight := htight
      agrees := ⟨hrefines.even, ?_, ?_⟩
      access := ?_
      metas := ?_
      offMeta := ?_ }
  · rw [hmax]
    exact hstands.agrees.bound
  · intro id hvalid hnamed
    dsimp only at hnamed ⊢
    rw [hpoints] at hnamed ⊢
    rcases eq_or_ne id pm.id with rfl | hne
    · rw [Function.update_self]
      unfold Database.configure
      dsimp only
      rw [Function.update_self, hstands.keys.holds pm.id hid]
      rcases eq_or_ne (h.seg.points pm.id).name CStr.empty with hfree | hold
      · rw [pointKey_eq_none_iff.mpr hfree, if_neg (by decide)]
        exact ⟨rfl, List.nil_prefix, fun t ht => by cases ht⟩
      · obtain ⟨-, hvalue, htold⟩ :=
          hstands.agrees.shows pm.id (hstands.valid_iff.mpr hid) hold
        rw [pointKey_eq_some_iff.mpr ⟨hold, rfl, rfl⟩, Option.isSome_some, if_pos rfl]
        exact ⟨rfl, hvalue, htold⟩
    · rw [Function.update_of_ne hne] at hnamed ⊢
      unfold Database.configure
      dsimp only
      rw [Function.update_of_ne hne]
      have hlt : id < h.shm.maxPoints := by
        rw [← hstands.capacity, ← hmax]
        exact hvalid.1
      exact hstands.agrees.shows id (hstands.valid_iff.mpr hlt) hnamed
  · intro id hlt
    dsimp only
    rw [hpoints]
    unfold Database.configure
    dsimp only
    rcases eq_or_ne id pm.id with rfl | hne
    · rw [Function.update_self, Function.update_self]
      rfl
    · rw [Function.update_of_ne hne, Function.update_of_ne hne]
      exact hstands.access id hlt
  · intro id hlt
    dsimp only
    rw [hmetas]
    unfold Database.configure
    dsimp only
    split_ifs
    · rcases eq_or_ne id pm.id with rfl | hne
      · rw [Function.update_self, Function.update_self]
      · rw [Function.update_of_ne hne, Function.update_of_ne hne]
        exact hstands.metas id hlt
    · exact hstands.metas id hlt
  · dsimp only
    rw [hoffMeta]
    exact hstands.offMeta

end Load

/-- An entry that is not accepted is passed over. -/
theorem Database.load_skip {n : Nat} {db : Database n} {s : IrtShm} {pm : IrtPointMeta}
    {rest : List IrtPointMeta} (hsize : s.maxPoints = n) (hskip : ¬ pm.Accepted s) :
    db.load (pm :: rest) = db.load rest := by
  rw [Database.load, if_neg fun h => hskip ⟨hsize ▸ h.1, h.2⟩]

/-- A load over a database is one of the database, also where it is given up. -/
theorem Stands.loadLoop {n : Nat} (batch : List IrtPointMeta) :
    ∀ {h : IndurtdbH} {db : Database n}, Stands h db → LoadMet h.shm batch h.seg →
      ((loadConfigLoop h.shm batch .ok h.seg).1 = .ok ↔ Readable h.shm batch) ∧
        Stands { h with seg := (loadConfigLoop h.shm batch .ok h.seg).2 } (db.load batch) := by
  induction batch with
  | nil =>
      intro h db hstands _
      exact ⟨iff_of_true rfl fun pm hpm => absurd hpm List.not_mem_nil, hstands⟩
  | cons pm rest ih =>
      intro h db hstands hmet
      unfold LoadMet at hmet
      rcases Decidable.em (pm.Accepted h.shm) with haccepted | hskip
      · rw [if_pos haccepted] at hmet
        obtain ⟨hid, htype⟩ := haccepted
        have hload : db.load (pm :: rest) =
            if pm.badValue then db else (db.configure pm).load rest := by
          rw [Database.load, if_pos ⟨hstands.size ▸ hid, htype⟩]
        rw [hload]
        cases hbad : pm.badValue with
        | true =>
            unfold loadConfigLoop
            rw [if_neg (Nat.not_le.mpr hid), if_neg (Nat.not_lt.mpr htype), hbad, if_pos rfl,
              if_pos rfl]
            refine ⟨iff_of_false (fun hrc => by cases hrc) fun hread => ?_, hstands⟩
            have hfine := hread pm List.mem_cons_self ⟨hid, htype⟩
            rw [hbad] at hfine
            cases hfine
        | false =>
            obtain ⟨hentry, hrest⟩ := hmet hbad
            obtain rfl := hstands.size
            rw [loadConfigLoop_accepted rest hstands.keys.even hstands.offMeta hstands.room
              ⟨hid, htype⟩ hbad, if_neg (by decide)]
            obtain ⟨hrc, hloaded⟩ := ih (hstands.configure hid hentry) hrest
            refine ⟨hrc.trans ⟨fun hread p hp haccepted => ?_, fun hread p hp =>
              hread p (List.mem_cons_of_mem _ hp)⟩, hloaded⟩
            rcases List.mem_cons.mp hp with rfl | hp
            · exact hbad
            · exact hread p hp haccepted
      · rw [if_neg hskip] at hmet
        rw [loadConfigLoop_skip hskip, Database.load_skip hstands.size hskip]
        obtain ⟨hrc, hloaded⟩ := ih hstands hmet
        refine ⟨hrc.trans ⟨fun hread p hp haccepted => ?_, fun hread p hp =>
          hread p (List.mem_cons_of_mem _ hp)⟩, hloaded⟩
        rcases List.mem_cons.mp hp with rfl | hp
        · exact absurd haccepted hskip
        · exact hread p hp haccepted

/-! ## The segment is opened -/

/-- The repairs of `irt_shm_init` in a process that found the segment: a dead owner is
replaced, and a lock that was left held is freed.  It tells whether this process is the
owner now; `dead` is that `kill` finds nobody under the stored pid. -/
def irtShmRecover (hdr : IrtHeader) (pid : Nat) (dead : Bool) : Bool × IrtHeader :=
  let claims := decide (0 < hdr.ownerPid ∧ hdr.ownerPid ≠ pid) && dead
  let hdr := if claims then { hdr with ownerPid := pid } else hdr
  (claims,
    if hdr.writeSeq % 2 = 1 then { hdr with writeSeq := u64 (hdr.writeSeq + 1) } else hdr)

/-- `irt_shm_init`, from the mapping on: whether this process is the owner, its view and the
segment. -/
def irtShmInit (found : Option Segment) (maxPoints maxSubscribers pid : Nat) (dead : Bool) :
    Except ShmErr (Bool × IrtShm × Segment) :=
  match found with
  | none =>
      if maxPoints = 0 then .error .arg
      else .ok (true, irtShmRequest maxPoints maxSubscribers,
        irtShmInitOwner maxPoints maxSubscribers pid)
  | some seg =>
      (irtShmAttach seg.hdr maxPoints maxSubscribers).map fun shm =>
        let recovered := irtShmRecover seg.hdr pid dead
        (recovered.1, shm, { seg with hdr := recovered.2 })

/-- The prefix of the name of every segment, `IRT_SHM_PREFIX`. -/
abbrev irtShmPrefix : Getopt.Word := ascii "/indurtdb_"

/-- The room for the name of a segment in `irt_shm_os_t`. -/
abbrev irtShmNameSize : Nat := 64

/-! ## The start -/

/-- What a start finds on its machine. -/
structure Surroundings where
  pid : Nat
  /-- `kill` finds nobody under the pid in the header -/
  dead : Bool
  /-- `shm_open`, `ftruncate` and `mmap` succeed -/
  maps : Bool
  /-- the bytes of a file that can be opened -/
  file : Getopt.Word → Option (List UInt8)
  /-- the file can be opened for appending -/
  appends : Getopt.Word → Bool
  /-- `socket`, `bind` and `listen` succeed -/
  listens : Bool
  startNs : Nat
  /-- what has been logged until the loop is entered -/
  logbuf : IrtLogbuf

/-- The size of `sun_path`. -/
abbrev sunPathSize : Nat := 108

/-- The bytes of the name of an instance. -/
def isInstanceByte (c : UInt8) : Bool :=
  (97 ≤ c && c ≤ 122) || (65 ≤ c && c ≤ 90) || isDigit c || c = 95 || c = 45

/-- The arguments pass the checks of `main`. -/
def RtdbdOptions.Passes (o : RtdbdOptions) : Prop :=
  o.instanceId ≠ [] ∧ (∀ c ∈ o.instanceId, isInstanceByte c = true) ∧
    0 < o.maxPoints.toNat ∧ o.maxPoints.toNat ≤ rtdbdMaxPointsLimit ∧
    0 < o.maxSubs.toNat ∧ o.maxSubs.toNat ≤ rtdbdSubMax ∧
    o.sockPath ≠ [] ∧ o.sockPath.length < sunPathSize

instance (o : RtdbdOptions) : Decidable o.Passes := inferInstanceAs (Decidable (_ ∧ _))

namespace Surroundings

variable (m : Surroundings) (libc : Libc) (o : RtdbdOptions)

/-- The policy: no rule without a file, and nothing where the file is refused. -/
def policy : Option IrtPolicy :=
  match o.policyPath with
  | none => some ⟨[]⟩
  | some path =>
      (m.file path).bind fun file =>
        if (irtPolicyLoad file).rc = .ok then some (irtPolicyLoad file).policy else none

/-- The partitions: no list without a file, and nothing where the file is refused. -/
def conf : Option RtdbdConf :=
  match o.configPath with
  | none => some ⟨[]⟩
  | some path =>
      (m.file path).bind fun file =>
        if (rtdbdConfLoad file).rc = 0 then some (rtdbdConfLoad file).conf else none

/-- The points of the configuration. -/
def batch : List IrtPointMeta :=
  match o.configPath.bind m.file with
  | none => []
  | some file => irtPointConfigParseYaml libc file

end Surroundings

/-- The segment can be mapped under its name. -/
def Surroundings.Opens (m : Surroundings) (o : RtdbdOptions) : Prop :=
  m.maps = true ∧ irtShmPrefix.length + o.instanceId.length < irtShmNameSize

instance (m : Surroundings) (o : RtdbdOptions) : Decidable (m.Opens o) :=
  inferInstanceAs (Decidable (_ ∧ _))

/-- `indurtdb_h_open` of the only instance of a worker: its segment.  The code does not tell why
it failed. -/
def openInstance (m : Surroundings) (o : RtdbdOptions) (found : Option Segment) :
    Option (Bool × IndurtdbH) :=
  if m.Opens o then
    match irtShmInit found o.maxPoints.toNat o.maxSubs.toNat m.pid m.dead with
    | .ok (owner, shm, seg) => some (owner, ⟨shm, seg, none⟩)
    | .error _ => none
  else none

/-- The log of changes is replayed, and appended to from then on. -/
def startDelta (m : Surroundings) (o : RtdbdOptions) (h : IndurtdbH) : Bool × IndurtdbH :=
  match o.deltaPath with
  | none => (true, h)
  | some path =>
      let file := (m.file path).getD []
      let h := (indurtdbHDeltaReplay h file).2
      if m.appends path then (true, { h with delta := some file }) else (false, h)

/-- `main` between the opening of the segment and the loop: the code it exits with, or
nothing, and the handle it leaves. -/
def prepare (libc : Libc) (m : Surroundings) (o : RtdbdOptions) (h : IndurtdbH) :
    Option Nat × IndurtdbH :=
  let loaded := if o.configPath.isSome then indurtdbHLoadConfig h (m.batch libc o) else (.ok, h)
  if loaded.1 ≠ .ok then (some rtdbdExitConfig, loaded.2)
  else
    let logged := startDelta m o loaded.2
    if logged.1 = false then (some rtdbdExitConfig, logged.2)
    else if o.configPath.isSome ∧
        (rtdbdValidateConfig logged.2 o.maxPoints.toNat).isSome then
      (some rtdbdExitConfig, logged.2)
    else if indurtdbHSelfCheck logged.2 = false then (some rtdbdExitSelfcheck, logged.2)
    else if m.listens = false then (some rtdbdExitError, logged.2)
    else (none, logged.2)

/-- What a start leaves: the segment, and the worker in its loop or the code it exits with. -/
structure Started where
  segment : Option Segment
  owner : Bool
  worker : Except Nat Rtdbd

/-- `main` of a worker, up to the loop.  A worker that gives up keeps the segment. -/
def startWorker (libc : Libc) (m : Surroundings) (o : RtdbdOptions) (found : Option Segment) :
    Started :=
  if ¬ o.Passes then ⟨found, false, .error rtdbdExitError⟩
  else
    match m.policy o, m.conf o with
    | some policy, some conf =>
        match openInstance m o found with
        | none => ⟨found, false, .error rtdbdExitShm⟩
        | some (owner, h) =>
            match prepare libc m o h with
            | (some code, h) => ⟨some h.seg, owner, .error code⟩
            | (none, h) =>
                ⟨some h.seg, owner,
                  .ok (.start h policy conf m.logbuf o.maxPoints.toNat m.startNs)⟩
    | _, _ => ⟨found, false, .error rtdbdExitConfig⟩

/-! ## What a start makes of a database -/

/-- The database in a segment that has just been created. -/
def Database.fresh (n : Nat) : Database n where
  keys := Registry.empty
  cells := fun _ => ⟨0, [], none⟩
  access := fun _ => 0
  metas := fun _ => IndurtdbMeta.zero

/-- The header is one of `N` points and `M` subscribers. -/
def OfLayout (N M : Nat) (seg : Segment) : Prop :=
  ∃ pid, SameLayout (irtShmInitHeader N M pid) seg.hdr

/-- A worker left the segment behind, perhaps with the lock held. -/
structure Kept {N : Nat} (M : Nat) (seg : Segment) (db : Database N) : Prop where
  stands : ∃ w, Stands ⟨irtShmRequest N M, seg.setWriteSeq w, none⟩ db
  layout : OfLayout N M seg

theorem OfLayout.trans {N M : Nat} {seg seg' : Segment} (h : OfLayout N M seg)
    (hsame : SameLayout seg.hdr seg'.hdr) : OfLayout N M seg' := by
  obtain ⟨pid, hpid⟩ := h
  exact ⟨pid, hpid.trans hsame⟩

/-- What the segment keeps depends on neither the lock, as long as it is free, nor the
owner, nor who looks. -/
theorem Stands.rehead {n : Nat} {h h' : IndurtdbH} {db : Database n} (hstands : Stands h db)
    (hsize : h'.shm.maxPoints = h.shm.maxPoints) (hpoints : h'.seg.points = h.seg.points)
    (hslots : h'.seg.slots = h.seg.slots) (hmetas : h'.seg.metas = h.seg.metas)
    (hlayout : SameLayout h.seg.hdr h'.seg.hdr)
    (hcount : h'.seg.hdr.indexCount = h.seg.hdr.indexCount)
    (heven : h'.seg.hdr.writeSeq % 2 = 0) : Stands h' db := by
  have hmax : h'.seg.hdr.maxPoints = h.seg.hdr.maxPoints := by rw [hlayout]
  have hoff : h'.seg.hdr.offPoints = h.seg.hdr.offPoints := by rw [hlayout]
  have hkeys : KeysKept h.seg h'.seg := fun id => by
    rw [hpoints]
    exact ⟨rfl, rfl⟩
  have htables : TablesKept h.seg h'.seg := ⟨hslots, by rw [hlayout], hcount⟩
  refine
    { size := hsize.trans hstands.size
      capacity := hmax.trans hstands.capacity
      below := hstands.below
      roomy := hstands.roomy
      keys := refines_of_keysKept hstands.keys hkeys htables hoff heven
      tight := tight_of_keysKept hstands.tight hkeys htables
      agrees := ⟨heven, ?_, fun id hvalid hnamed => ?_⟩
      access := fun id hid => ?_
      metas := fun id hid => ?_
      offMeta := ?_ }
  · rw [hmax]
    exact hstands.agrees.bound
  · rw [hpoints] at hnamed ⊢
    rw [pmValidateId, hmax, hoff] at hvalid
    exact hstands.agrees.shows id hvalid hnamed
  · rw [hpoints]
    exact hstands.access id hid
  · rw [hmetas]
    exact hstands.metas id hid
  · rw [hlayout]
    exact hstands.offMeta

/-- The metadata of a segment that has just been created is zero. -/
theorem irtShmInitOwner_metas {N : Nat} (hfits : LayoutFits N) (M pid : Nat) {id : Nat}
    (hid : id < N) : (irtShmInitOwner N M pid).metas id = IndurtdbMeta.zero := by
  have hoff := hfits.offMeta
  have hbytes : ∀ b, b < 32 →
      irtShmInitBytes N (irtLayoutOffMeta N + 32 * id + b) = filled 0 (0 + b) := by
    intro b hb
    have hsize : irtLayoutMetaSize N = 32 * N := Nat.mul_comm ..
    rw [irtShmInitBytes, if_pos ⟨by omega, by omega, by omega⟩]
    rfl
  change decodeMeta (irtShmInitBytes N) (irtLayoutOffMeta N + 32 * id) = IndurtdbMeta.zero
  rw [decodeMeta_congr hbytes]
  rfl

theorem stands_created {N : Nat} (hlimit : N ≤ rtdbdMaxPointsLimit) (M pid : Nat) :
    Stands (freshHandle N M pid) (Database.fresh N) := by
  have hfits := layoutFits_of_limit hlimit
  have hmeta : (irtShmInitOwner N M pid).hdr.offMeta ≠ 0 := by
    change irtLayoutOffMeta N ≠ 0
    rw [hfits.offMeta]
    omega
  have hstands := stands_fresh (N := N) (M := M) hfits.indexOffsetFits pid rfl hmeta
  have hzero : ∀ id, id < N → (irtShmInitOwner N M pid).points id = IndurtdbPoint.zero :=
    fun id hid => irtShmInitOwner_points hfits.indexOffsetFits hid
  refine { hstands with
    agrees := ⟨hstands.agrees.free, hstands.agrees.bound, fun id hvalid hnamed => ?_⟩
    access := fun id hid => ?_
    metas := fun id hid => irtShmInitOwner_metas hfits M pid hid }
  · refine absurd ?_ hnamed
    change ((irtShmInitOwner N M pid).points id).name = CStr.empty
    rw [hzero id hvalid.1]
    rfl
  · change ((irtShmInitOwner N M pid).points id).access = 0
    rw [hzero id hid]
    rfl

/-! ## What a start leaves of it -/

/-- A process that asks for as much as the creator did is accepted. -/
theorem OfLayout.attach {N M : Nat} {seg : Segment} (h : OfLayout N M seg) (hpos : 0 < N) :
    irtShmAttach seg.hdr N M = .ok (irtShmRequest N M) := by
  obtain ⟨pid, hpid⟩ := h
  rw [irtShmAttach_congr hpid]
  exact irtShmAttach_created_iff.mpr ⟨⟨hpos, le_rfl, le_rfl⟩, rfl⟩

theorem OfLayout.healthy {N M : Nat} {h : IndurtdbH} (hlayout : OfLayout N M h.seg) :
    indurtdbHSelfCheck h = true := by
  obtain ⟨pid, hpid⟩ := hlayout
  rw [indurtdbHSelfCheck, hpid]
  rfl

/-- The repairs leave the layout alone and the lock free. -/
theorem irtShmRecover_spec (hdr : IrtHeader) (pid : Nat) (dead : Bool) :
    SameLayout hdr (irtShmRecover hdr pid dead).2 ∧
      (irtShmRecover hdr pid dead).2.indexCount = hdr.indexCount ∧
      (irtShmRecover hdr pid dead).2.writeSeq % 2 = 0 := by
  have hfreed : ∀ hdr' : IrtHeader, SameLayout hdr hdr' → hdr'.indexCount = hdr.indexCount →
      SameLayout hdr (if hdr'.writeSeq % 2 = 1 then
          { hdr' with writeSeq := u64 (hdr'.writeSeq + 1) } else hdr') ∧
        (if hdr'.writeSeq % 2 = 1 then
          { hdr' with writeSeq := u64 (hdr'.writeSeq + 1) } else hdr').indexCount =
          hdr.indexCount ∧
        (if hdr'.writeSeq % 2 = 1 then
          { hdr' with writeSeq := u64 (hdr'.writeSeq + 1) } else hdr').writeSeq % 2 = 0 := by
    intro hdr' hsame hcount
    split_ifs with hodd
    · refine ⟨hsame.trans rfl, hcount, ?_⟩
      dsimp only
      rw [u64]
      omega
    · exact ⟨hsame, hcount, by omega⟩
  unfold irtShmRecover
  dsimp only
  split
  · exact hfreed _ rfl rfl
  · exact hfreed _ rfl rfl

section Start

variable {o : RtdbdOptions}

/-- What there is before a start: no segment, or one that keeps the database. -/
def Rests (o : RtdbdOptions) (db : Database o.maxPoints.toNat) : Option Segment → Prop
  | none => db = .fresh o.maxPoints.toNat
  | some seg => Kept o.maxSubs.toNat seg db

variable {m : Surroundings} {found : Option Segment} {db : Database o.maxPoints.toNat}

/-- The worker that opens the segment finds the database in it. -/
theorem Rests.opened (hrests : Rests o db found) (hpasses : o.Passes) (hopens : m.Opens o) :
    ∃ owner h, openInstance m o found = some (owner, h) ∧ Stands h db ∧
      OfLayout o.maxPoints.toNat o.maxSubs.toNat h.seg ∧ h.delta = none := by
  have hpos := hpasses.2.2.1
  unfold openInstance
  rw [if_pos hopens]
  cases found with
  | none =>
      obtain rfl : db = _ := hrests
      refine ⟨true, freshHandle o.maxPoints.toNat o.maxSubs.toNat m.pid, ?_,
        stands_created hpasses.2.2.2.1 _ _, ⟨m.pid, rfl⟩, rfl⟩
      rw [irtShmInit, if_neg (Nat.ne_of_gt hpos)]
      rfl
  | some seg =>
      obtain ⟨⟨w, hstands⟩, hlayout⟩ : Kept o.maxSubs.toNat seg db := hrests
      obtain ⟨hsame, hcount, heven⟩ := irtShmRecover_spec seg.hdr m.pid m.dead
      refine ⟨(irtShmRecover seg.hdr m.pid m.dead).1, ⟨irtShmRequest o.maxPoints.toNat
        o.maxSubs.toNat, { seg with hdr := (irtShmRecover seg.hdr m.pid m.dead).2 }, none⟩, ?_,
        hstands.rehead rfl rfl rfl rfl ?_ hcount heven, hlayout.trans hsame, rfl⟩
      · rw [irtShmInit, hlayout.attach hpos]
        rfl
      · have hback : SameLayout (seg.setWriteSeq w).hdr seg.hdr := rfl
        exact hback.trans hsame

theorem loadConfigLoop_layout (s : IrtShm) (batch : List IrtPointMeta) :
    ∀ (overall : Rc) (seg : Segment),
      SameLayout seg.hdr (loadConfigLoop s batch overall seg).2.hdr := by
  induction batch with
  | nil => exact fun _ _ => rfl
  | cons pm rest ih =>
      intro overall seg
      have hconfigured : SameLayout seg.hdr (configurePoint s seg pm).2.hdr := by
        rcases Nat.mod_two_eq_zero_or_one seg.hdr.writeSeq with heven | hodd
        · rw [configurePoint_eq heven]
          have hstored : SameLayout seg.hdr (overwritten seg pm).hdr := rfl
          exact hstored.trans (irtIndexInsert_layout s (overwritten seg pm) _ _ _)
        · rw [configurePoint_odd hodd]
          rfl
      have hset := hconfigured.trans
        (irtMetaSet_layout s (configurePoint s seg pm).2 pm.id pm.pointMeta)
      unfold loadConfigLoop
      split
      · exact ih _ _
      · split
        · exact ih _ _
        · split
          · rfl
          · dsimp only
            split
            · exact hconfigured
            · split
              · exact hset.trans (ih _ _)
              · exact hconfigured.trans (ih _ _)

/-- Up to the loop, nothing happens to the database but the load of the configuration, and
the worker does not give up over the segment. -/
theorem prepare_keeps (libc : Libc) (hpasses : o.Passes) (hdelta : o.deltaPath = none)
    {h : IndurtdbH} (hstands : Stands h db)
    (hlayout : OfLayout o.maxPoints.toNat o.maxSubs.toNat h.seg)
    (hmet : LoadMet h.shm (m.batch libc o) h.seg) :
    Stands (prepare libc m o h).2 (db.load (m.batch libc o)) ∧
      OfLayout o.maxPoints.toNat o.maxSubs.toNat (prepare libc m o h).2.seg ∧
      ∀ code, (prepare libc m o h).1 = some code →
        code = rtdbdExitConfig ∨ code = rtdbdExitError := by
  have hloaded : Stands (if o.configPath.isSome then indurtdbHLoadConfig h (m.batch libc o)
        else (.ok, h)).2 (db.load (m.batch libc o)) ∧
      OfLayout o.maxPoints.toNat o.maxSubs.toNat (if o.configPath.isSome then
        indurtdbHLoadConfig h (m.batch libc o) else (.ok, h)).2.seg := by
    split_ifs with hconfig
    · have hguard : ¬ (h.seg.hdr.offPoints = 0 ∨ h.shm.maxPoints = 0) := by
        rw [hstands.size]
        exact not_or.mpr ⟨hstands.keys.covers.offPoints, Nat.ne_of_gt hpasses.2.2.1⟩
      rw [indurtdbHLoadConfig, if_neg hguard]
      exact ⟨(hstands.loadLoop (m.batch libc o) hmet).2,
        hlayout.trans (loadConfigLoop_layout h.shm _ _ _)⟩
    · have hnone : m.batch libc o = [] := by
        rw [Surroundings.batch, Option.not_isSome_iff_eq_none.mp hconfig]
        rfl
      rw [hnone]
      exact ⟨hstands, hlayout⟩
  unfold prepare
  generalize (if o.configPath.isSome then indurtdbHLoadConfig h (m.batch libc o)
    else (.ok, h)) = loaded at hloaded ⊢
  obtain ⟨hstands', hlayout'⟩ := hloaded
  have hlog : startDelta m o loaded.2 = (true, loaded.2) := by
    rw [startDelta, hdelta]
  dsimp only
  rw [hlog, hlayout'.healthy, if_neg (by decide : ¬ true = false),
    if_neg (by decide : ¬ true = false)]
  split_ifs
  · exact ⟨hstands', hlayout', fun code hcode => .inl (Option.some.inj hcode).symm⟩
  · exact ⟨hstands', hlayout', fun code hcode => .inl (Option.some.inj hcode).symm⟩
  · exact ⟨hstands', hlayout', fun code hcode => .inr (Option.some.inj hcode).symm⟩
  · exact ⟨hstands', hlayout', fun code hcode => by cases hcode⟩

end Start

end InduRtdb.Daemon
