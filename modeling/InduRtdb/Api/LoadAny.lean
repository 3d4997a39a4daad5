/-
  Api/LoadAny.lean --- loading a configuration into a registry that is in use.

  Source: `src/api/indurtdb.c` (`indurtdb_h_load_config`) and `src/core/irt_index.c`
  (`irt_index_insert_locked`).

  An entry of the configuration overwrites the record of its point and then inserts the
  name into the index.  The index reads names from the records, so an entry of another
  name that the point had is lost to it, and so is the point that already carries the
  name.  Where neither happens, the registry stays sound.
-/
import InduRtdb.Api.Reload
import InduRtdb.Api.TwoHandles

set_option autoImplicit false

namespace InduRtdb.Api

open InduRtdb.Core InduRtdb.Spec

/-! ## What is wanted -/

/-- Every registered point is found, no two share a key, the entries of the index are
one for each registered point and carry its hash, and the count is right. -/
structure InStep (s : IrtShm) (seg : Segment) : Prop where
  found : ∀ id, id < s.maxPoints → (seg.points id).name ≠ CStr.empty →
    irtIndexLookup s seg (seg.points id).partition (seg.points id).name = .ok id
  distinct : ∀ id id', id < s.maxPoints → id' < s.maxPoints →
    (seg.points id).name ≠ CStr.empty → (seg.points id').partition = (seg.points id).partition →
    (seg.points id').name = (seg.points id).name → id = id'
  entries : ∀ i, i < irtLayoutBuckets s.maxPoints → (seg.slots i).Live →
    (seg.slots i).pointId < s.maxPoints ∧
      (seg.points (seg.slots i).pointId).name ≠ CStr.empty ∧
      (seg.slots i).hash = (seg.points (seg.slots i).pointId).keyHash
  entered : ∀ id, id < s.maxPoints → (seg.points id).name ≠ CStr.empty →
    ∃! i, i < irtLayoutBuckets s.maxPoints ∧ (seg.slots i).Live ∧ (seg.slots i).pointId = id
  count : seg.hdr.indexCount =
    ((Finset.range s.maxPoints).filter fun id => (seg.points id).name ≠ CStr.empty).card

/-! ## Calls on a registry -/

/-- A call that may change the registry. -/
inductive RegistryCall where
  | naming (op : NamingOp)
  | load (batch : List IrtPointMeta)

namespace RegistryCall

/-- Make the call through a handle. -/
def run (h : IndurtdbH) : RegistryCall → Rc × IndurtdbH
  | naming op => op.run h
  | load batch => indurtdbHLoadConfig h batch

/-- Calls one after another. -/
def runAll (h : IndurtdbH) (calls : List RegistryCall) : IndurtdbH :=
  calls.foldl (fun h call => (call.run h).2) h

end RegistryCall

/-! ## When a load keeps the registry sound -/

/-- The name an entry leaves in the record of its point. -/
def IrtPointMeta.stored (pm : IrtPointMeta) : CStr := pm.name.strncpy nameMax

/-- The record an entry makes of its point. -/
def IrtPointMeta.record (pm : IrtPointMeta) (old : IndurtdbPoint) : IndurtdbPoint :=
  { old with
    type := pm.type
    unit := pm.unit
    access := pm.access
    partition := 0
    name := pm.stored }

/-- The segment after one entry of the configuration. -/
def applyEntry (s : IrtShm) (seg : Segment) (pm : IrtPointMeta) : Segment :=
  let configured := (configurePoint s seg pm).2
  if pm.hasMeta then (irtMetaSet s configured pm.id pm.pointMeta).2 else configured

/-- The point is not registered, or its key has the hash of the new one; and no other
point carries the new key.  An entry without a name is for an unregistered point. -/
def EntryMet (n : Nat) (seg : Segment) (pm : IrtPointMeta) : Prop :=
  if pm.stored.isEmpty then (seg.points pm.id).name = CStr.empty
  else
    ((seg.points pm.id).name = CStr.empty ∨
      (seg.points pm.id).keyHash = irtIndexComposeHash 0 pm.stored) ∧
    ∀ k, k < n → k ≠ pm.id → ¬ (seg.points k).HasKey 0 pm.stored

instance (p : IndurtdbPoint) (partition : UInt32) (name : CStr) :
    Decidable (p.HasKey partition name) := inferInstanceAs (Decidable (_ ∧ _))

instance (n : Nat) (seg : Segment) (pm : IrtPointMeta) : Decidable (EntryMet n seg pm) :=
  inferInstanceAs (Decidable (if pm.stored.isEmpty then _ else _))

/-- Every entry the load gets to finds the points as they have to be. -/
def LoadMet (s : IrtShm) : List IrtPointMeta → Segment → Prop
  | [], _ => True
  | pm :: rest, seg =>
      if pm.Accepted s then
        pm.badValue = false → EntryMet s.maxPoints seg pm ∧ LoadMet s rest (applyEntry s seg pm)
      else LoadMet s rest seg

/-- The names a call passes fit, and so does every entry of a configuration. -/
def RegistryCall.Met (h : IndurtdbH) : RegistryCall → Prop
  | .naming op => op.NameFits
  | .load batch => LoadMet h.shm batch h.seg

/-- Every call of a run is made on a registry it fits. -/
def CallsMet : IndurtdbH → List RegistryCall → Prop
  | _, [] => True
  | h, call :: calls => call.Met h ∧ CallsMet (call.run h).2 calls

/-! ## One entry -/

section Entry

variable {s : IrtShm} {seg seg' : Segment} {pm : IrtPointMeta}

/-- A change of neither the points nor the index keeps the registry sound. -/
theorem Sound.of_same {n : Nat} (h : Sound n seg) (hsame : SameTables seg seg') : Sound n seg' := by
  obtain ⟨r, href, htight⟩ := h
  refine ⟨r, ⟨hsame.even, ?_, ?_⟩, ⟨⟨?_, ?_⟩, ?_⟩⟩
  · exact href.covers.of_tables hsame.offIndex hsame.offPoints hsame.points hsame.slots
  · rw [hsame.points]
    exact href.holds
  · rw [hsame.points, hsame.slots]
    exact htight.tight.current
  · rw [hsame.slots]
    exact htight.tight.distinct
  · rw [hsame.indexCount]
    exact htight.count

theorem Sound.even {n : Nat} (h : Sound n seg) : seg.hdr.writeSeq % 2 = 0 := by
  obtain ⟨r, href, -⟩ := h
  exact href.even

theorem Sound.metaSet {n : Nat} (h : Sound n seg) (id : Nat) (m : IndurtdbMeta) :
    Sound n (irtMetaSet s seg id m).2 := by
  unfold irtMetaSet
  split
  · exact h
  · split
    · exact h
    · rw [withWriteLock_of_even h.even]
      exact h.of_same ⟨irtSeqlockWriteEnd_even h.even, rfl, rfl, rfl, rfl, rfl, rfl⟩

/-- The segment in which a point has been overwritten. -/
def overwritten (seg : Segment) (pm : IrtPointMeta) : Segment :=
  (seg.setPoint pm.id (pm.record (seg.points pm.id))).setWriteSeq
    (irtSeqlockWriteEnd seg.hdr.writeSeq)

theorem overwritten_points (seg : Segment) (pm : IrtPointMeta) :
    (overwritten seg pm).points =
      Function.update seg.points pm.id (pm.record (seg.points pm.id)) := rfl

theorem overwritten_self (seg : Segment) (pm : IrtPointMeta) :
    ((overwritten seg pm).points pm.id).HasKey 0 pm.stored := by
  rw [overwritten_points, Function.update_self]
  exact ⟨rfl, rfl⟩

/-- The record is overwritten, and then an entry is inserted. -/
theorem configurePoint_eq (heven : seg.hdr.writeSeq % 2 = 0) :
    configurePoint s seg pm = irtIndexInsert s (overwritten seg pm) 0 pm.stored pm.id := by
  have hname : ((overwritten seg pm).points pm.id).name = pm.stored := (overwritten_self seg pm).2
  unfold configurePoint
  rw [withWriteLock_of_even heven]
  change irtIndexInsert s (overwritten seg pm) 0 ((overwritten seg pm).points pm.id).name pm.id = _
  rw [hname]

theorem stored_length (pm : IrtPointMeta) : pm.stored.bytes.length ≤ nameMax :=
  CStr.length_strncpy_le _ _

/-- An entry without a name inserts nothing. -/
theorem configurePoint_unnamed (hsound : Sound s.maxPoints seg)
    (hempty : pm.stored = CStr.empty) (hfree : (seg.points pm.id).name = CStr.empty) :
    Sound s.maxPoints (configurePoint s seg pm).2 := by
  have heven := hsound.even
  have hend := irtSeqlockWriteEnd_even heven
  obtain ⟨r, href, htight⟩ := hsound
  have hinsert : irtIndexInsert s (overwritten seg pm) 0 pm.stored pm.id =
      (.errArg, (overwritten seg pm).setWriteSeq
        (irtSeqlockWriteEnd (irtSeqlockWriteEnd seg.hdr.writeSeq))) := by
    rw [irtIndexInsert, withWriteLock_of_even (show (overwritten seg pm).hdr.writeSeq % 2 = 0
      from hend), hempty]
    rfl
  have hsame : SameTables (seg.setPoint pm.id (pm.record (seg.points pm.id)))
      ((overwritten seg pm).setWriteSeq
        (irtSeqlockWriteEnd (irtSeqlockWriteEnd seg.hdr.writeSeq))) :=
    ⟨irtSeqlockWriteEnd_even hend, rfl, rfl, rfl, rfl, rfl, rfl⟩
  rw [configurePoint_eq heven, hinsert]
  exact ⟨r, href.unnamed hfree hempty hsame, htight.unnamed hfree hsame⟩

/-- An entry for a point that was not registered adds it. -/
theorem configurePoint_new (hn : s.maxPoints < irtIndexTombstone)
    (htwo : 2 * s.maxPoints ≤ irtLayoutBuckets s.maxPoints) (hsound : Sound s.maxPoints seg)
    (hid : pm.id < s.maxPoints) (hname : pm.stored ≠ CStr.empty)
    (hfree : (seg.points pm.id).name = CStr.empty)
    (hothers : ∀ k, k < s.maxPoints → k ≠ pm.id → ¬ (seg.points k).HasKey 0 pm.stored) :
    Sound s.maxPoints (configurePoint s seg pm).2 := by
  have heven := hsound.even
  obtain ⟨r, href, htight⟩ := hsound
  let name : PointName := ⟨pm.stored, hname, stored_length pm⟩
  have htaken : ¬ r.Taken (0, name.str) pm.id := by
    rintro ⟨k, hne, hk⟩
    obtain ⟨hlt, -, hkey⟩ := href.holds_iff.mp hk
    exact hothers k hlt hne hkey
  have hcovers : IndexCovers s.maxPoints (· = pm.id) (overwritten seg pm) :=
    IndexCovers.overwrite (href.covers.mono fun k h => h.elim) rfl (stored_length pm)
      (overwritten_points seg pm) rfl rfl rfl
  have hroom : IndexRoom s.maxPoints (overwritten seg pm) :=
    htight.tight.room href.covers.below htwo
  obtain ⟨seg', i, hinsert, hstored⟩ := irtIndexInsert_stored hcovers (irtSeqlockWriteEnd_even heven)
    hid name (overwritten_self seg pm) (hroom.roomFor _ _ _)
  obtain ⟨href', htight'⟩ := stored_refines (h := ⟨s, seg, none⟩) hn href name
    (p := pm.record (seg.points pm.id)) ⟨rfl, rfl⟩ hid hfree htaken
    (overwritten_points seg pm) hstored rfl rfl rfl rfl
  rw [configurePoint_eq heven, hinsert]
  exact ⟨_, href', htight' htight⟩

/-- The insertion of a key that its point has an entry for finds that entry. -/
theorem irtIndexInsertLocked_again (hn : s.maxPoints < irtIndexTombstone)
    (hoff : seg.hdr.offIndex ≠ 0) (hpts : seg.hdr.offPoints ≠ 0)
    (hnames : NamesFit s.maxPoints seg.points) (hbelow : EntriesBelow s.maxPoints seg.slots)
    {partition : UInt32} {id : Nat} (name : PointName) (hid : id < s.maxPoints)
    (hslotted : Slotted s.maxPoints seg.slots (irtIndexComposeHash partition name.str) id)
    (hkey : (seg.points id).HasKey partition name.str)
    (hothers : ∀ k, k < s.maxPoints → k ≠ id → ¬ (seg.points k).HasKey partition name.str) :
    irtIndexInsertLocked s seg partition name.str id = (.ok, seg) := by
  obtain ⟨i, hprobe⟩ := probeLoop_isSome hnames name.fits hn hid hslotted hkey
  obtain ⟨-, -, -, hlt, hkey'⟩ := probeLoop_some hnames name.fits hbelow hprobe
  have hself : (seg.slots i).pointId = id := by
    by_contra hne
    exact hothers _ hlt hne hkey'
  have hloop : irtIndexInsertLoop (indexView s.maxPoints) seg
      (irtIndexComposeHash partition name.str) partition name.str (irtLayoutBuckets s.maxPoints) 0
      none = .hit i := by
    rw [irtIndexInsertLoop_eq_place, Probe.place_hit_iff_find, ← irtIndexProbeLoop_eq_find]
    exact hprobe
  have hguard : ¬ (seg.hdr.offPoints = 0 ∨ s.maxPoints ≤ id) := by
    rintro (h | h)
    · exact hpts h
    · omega
  have hpoint : seg.setPoint id { seg.points id with partition := partition } = seg := by
    rw [← hkey.1]
    simp only [Segment.setPoint, Function.update_eq_self]
  have hslot : seg.setSlot i { seg.slots i with pointId := id } = seg := by
    rw [← hself]
    simp only [Segment.setSlot, Function.update_eq_self]
  simp only [irtIndexInsertLocked, CStr.isEmpty_eq_false_iff.mpr name.nonempty, irtIndexBind_eq hoff,
    if_neg hguard, Bool.false_eq_true, if_false, hpoint, hloop, hslot]

/-- An entry for a point whose key has the same hash keeps the point's index entry. -/
theorem configurePoint_again (hn : s.maxPoints < irtIndexTombstone) (hsound : Sound s.maxPoints seg)
    (hid : pm.id < s.maxPoints) (hname : pm.stored ≠ CStr.empty)
    (hnamed : (seg.points pm.id).name ≠ CStr.empty)
    (hhash : (seg.points pm.id).keyHash = irtIndexComposeHash 0 pm.stored)
    (hothers : ∀ k, k < s.maxPoints → k ≠ pm.id → ¬ (seg.points k).HasKey 0 pm.stored) :
    Sound s.maxPoints (configurePoint s seg pm).2 := by
  have heven := hsound.even
  have hend := irtSeqlockWriteEnd_even heven
  obtain ⟨r, href, htight⟩ := hsound
  let name : PointName := ⟨pm.stored, hname, stored_length pm⟩
  have hpoints := overwritten_points seg pm
  have hself : (pm.record (seg.points pm.id)).keyHash = irtIndexComposeHash 0 pm.stored := rfl
  have htaken : ¬ r.Taken (0, pm.stored) pm.id := by
    rintro ⟨k, hne, hk⟩
    obtain ⟨hlt, -, hkey⟩ := href.holds_iff.mp hk
    exact hothers k hlt hne hkey
  have hnames : NamesFit s.maxPoints (overwritten seg pm).points :=
    href.covers.names.update (stored_length pm)
  have hslotted : Slotted s.maxPoints seg.slots (irtIndexComposeHash 0 pm.stored) pm.id := by
    rw [← hhash]
    exact href.covers.slotted pm.id hid id hnamed
  -- the insertion leaves the index as it was
  have hinsert : irtIndexInsert s (overwritten seg pm) 0 pm.stored pm.id =
      (.ok, ((overwritten seg pm).setWriteSeq
        (u64 (irtSeqlockWriteEnd seg.hdr.writeSeq + 1))).setWriteSeq
          (irtSeqlockWriteEnd (irtSeqlockWriteEnd seg.hdr.writeSeq))) := by
    have hothers' : ∀ k, k < s.maxPoints → k ≠ pm.id →
        ¬ ((overwritten seg pm).points k).HasKey 0 pm.stored := by
      intro k hk hne
      rw [hpoints, Function.update_of_ne hne]
      exact hothers k hk hne
    have hoff : ((overwritten seg pm).setWriteSeq
        (u64 (irtSeqlockWriteEnd seg.hdr.writeSeq + 1))).hdr.offIndex ≠ 0 := href.covers.offIndex
    have hlocked := irtIndexInsertLocked_again hn hoff href.covers.offPoints hnames
      href.covers.below name hid hslotted (overwritten_self seg pm) hothers'
    rw [irtIndexInsert, withWriteLock_of_even (show (overwritten seg pm).hdr.writeSeq % 2 = 0
      from hend)]
    exact congrArg (fun res : Rc × Segment => (res.1, res.2.setWriteSeq _)) hlocked
  rw [configurePoint_eq heven, hinsert]
  refine ⟨r.assign pm.id (0, pm.stored) hid htaken,
    ⟨irtSeqlockWriteEnd_even hend, ?_, ?_⟩, ⟨⟨?_, htight.tight.distinct⟩, ?_⟩⟩
  · refine ⟨href.covers.offIndex, href.covers.offPoints, hnames, href.covers.below, ?_⟩
    intro k hk _ hknamed
    change (Function.update seg.points pm.id _ k).name ≠ CStr.empty at hknamed
    change Slotted s.maxPoints seg.slots (Function.update seg.points pm.id _ k).keyHash k
    rcases eq_or_ne k pm.id with rfl | hne
    · rw [Function.update_self, hself]
      exact hslotted
    · rw [Function.update_of_ne hne] at hknamed ⊢
      exact href.covers.slotted k hk not_false hknamed
  · exact href.holds_assign (h := ⟨s, seg, none⟩) hid htaken
      (pointKey_eq_some_iff.mpr ⟨hname, rfl, rfl⟩)
  · intro i hi hlive
    have hcurrent := htight.tight.current i hi hlive
    change (Function.update seg.points pm.id _ (seg.slots i).pointId).name ≠ CStr.empty ∧
      (seg.slots i).hash = (Function.update seg.points pm.id _ (seg.slots i).pointId).keyHash
    rcases eq_or_ne (seg.slots i).pointId pm.id with heq | hne
    · rw [heq, Function.update_self, hself, ← hhash, ← heq]
      exact ⟨hname, hcurrent.2⟩
    · rw [Function.update_of_ne hne]
      exact hcurrent
  · have hsome : ∃ old, r.holds pm.id = some old := by
      rw [href.holds pm.id hid]
      exact ⟨_, pointKey_eq_some_iff.mpr ⟨hnamed, rfl, rfl⟩⟩
    obtain ⟨old, hold⟩ := hsome
    rw [Registry.size_assign_of_some hold hid htaken]
    exact htight.count

/-- One entry keeps the registry sound. -/
theorem Sound.applyEntry (hn : s.maxPoints < irtIndexTombstone)
    (htwo : 2 * s.maxPoints ≤ irtLayoutBuckets s.maxPoints) (hsound : Sound s.maxPoints seg)
    (hid : pm.id < s.maxPoints) (hmet : EntryMet s.maxPoints seg pm) :
    Sound s.maxPoints (configurePoint s seg pm).2 ∧ Sound s.maxPoints (applyEntry s seg pm) := by
  have hconfigured : Sound s.maxPoints (configurePoint s seg pm).2 := by
    unfold EntryMet at hmet
    split at hmet
    · rename_i hempty
      exact configurePoint_unnamed hsound (CStr.isEmpty_iff.mp hempty) hmet
    · rename_i hname
      have hname : pm.stored ≠ CStr.empty := fun h => hname (CStr.isEmpty_iff.mpr h)
      obtain ⟨hown, hothers⟩ := hmet
      by_cases hfree : (seg.points pm.id).name = CStr.empty
      · exact configurePoint_new hn htwo hsound hid hname hfree hothers
      · exact configurePoint_again hn hsound hid hname hfree (hown.resolve_left hfree) hothers
  refine ⟨hconfigured, ?_⟩
  unfold Api.applyEntry
  dsimp only
  split
  · exact hconfigured.metaSet _ _
  · exact hconfigured

/-- A whole load keeps the registry sound, also one that is given up. -/
theorem Sound.loadConfigLoop (hn : s.maxPoints < irtIndexTombstone)
    (htwo : 2 * s.maxPoints ≤ irtLayoutBuckets s.maxPoints) :
    ∀ (batch : List IrtPointMeta) (overall : Rc) (seg : Segment), Sound s.maxPoints seg →
      LoadMet s batch seg → Sound s.maxPoints (loadConfigLoop s batch overall seg).2 := by
  intro batch
  induction batch with
  | nil => exact fun _ _ h _ => h
  | cons pm batch ih =>
      intro overall seg hsound hmet
      unfold LoadMet at hmet
      unfold Api.loadConfigLoop
      by_cases haccepted : pm.Accepted s
      · rw [if_pos haccepted] at hmet
        obtain ⟨hid, htype⟩ := haccepted
        rw [if_neg (by omega), if_neg (by omega)]
        by_cases hbad : pm.badValue = true
        · rw [if_pos hbad]
          exact hsound
        · obtain ⟨hentry, hrest⟩ := hmet (by simpa using hbad)
          obtain ⟨hconfigured, happlied⟩ := hsound.applyEntry hn htwo hid hentry
          rw [if_neg hbad]
          dsimp only
          unfold Api.applyEntry at happlied hrest
          dsimp only at happlied hrest
          split
          · exact hconfigured
          · split
            · rename_i hmeta
              rw [if_pos hmeta] at happlied hrest
              exact ih _ _ happlied hrest
            · rename_i hmeta
              rw [if_neg hmeta] at happlied hrest
              exact ih _ _ happlied hrest
      · rw [if_neg haccepted] at hmet
        by_cases hid : s.maxPoints ≤ pm.id
        · rw [if_pos hid]
          exact ih _ _ hsound hmet
        · have htype : indurtdbTypeFloat < pm.type.toNat := by
            by_contra htype
            exact haccepted ⟨by omega, by omega⟩
          rw [if_neg hid, if_pos htype]
          exact ih _ _ hsound hmet

/-- What soundness means for the points and the index. -/
theorem Sound.inStep (hn : s.maxPoints < irtIndexTombstone) (hsound : Sound s.maxPoints seg) :
    InStep s seg := by
  obtain ⟨r, href, htight⟩ := hsound
  have hholds : ∀ id, id < s.maxPoints → (seg.points id).name ≠ CStr.empty →
      r.holds id = some ((seg.points id).partition, (seg.points id).name) := by
    intro id hid hname
    rw [href.holds id hid, pointKey_eq_some_iff]
    exact ⟨hname, rfl, rfl⟩
  refine ⟨fun id hid hname => ?_, fun id id' hid hid' hname hpart hsame => ?_,
    fun i hi hlive => ⟨href.covers.below i hi hlive, htight.tight.current i hi hlive⟩,
    fun id hid hname => ?_, ?_⟩
  · let name : PointName := ⟨(seg.points id).name, hname, href.covers.names id hid⟩
    have hlookup : irtIndexLookup s seg (seg.points id).partition name.str = _ :=
      href.lookup hn name
    exact hlookup.trans (Registry.find_of_holds (hholds id hid hname))
  · have hname' : (seg.points id').name ≠ CStr.empty := hsame ▸ hname
    refine r.unique id id' _ (hholds id hid hname) ?_
    rw [hholds id' hid' hname', hpart, hsame]
  · obtain ⟨i, hslot, hreach⟩ := href.covers.slotted id hid not_false hname
    have hpid : (seg.slots i).pointId = id := by rw [hslot]
    have hlive : (seg.slots i).Live := IrtIndexSlot.live_of_lt hn (by rw [hpid]; exact hid)
    refine ⟨i, ⟨hreach.lt, hlive, hpid⟩, ?_⟩
    rintro j ⟨hj, hlivej, hpidj⟩
    exact htight.tight.distinct j i hj hreach.lt hlivej hlive (hpidj.trans hpid.symm)
  · rw [htight.count, Registry.size]
    refine congrArg Finset.card (Finset.filter_congr fun id hid => ?_)
    rw [href.holds id (Finset.mem_range.mp hid)]
    by_cases hname : (seg.points id).name = CStr.empty
    · simp [pointKey_eq_none_iff.mpr hname, hname]
    · have hsome := pointKey_eq_some_iff.mpr
        (show (seg.points id).name ≠ CStr.empty ∧ (seg.points id).HasKey _ _ from ⟨hname, rfl, rfl⟩)
      simp [hsome, hname]

end Entry

/-! ## Runs -/

section Calls

variable {s : IrtShm} (hn : s.maxPoints < irtIndexTombstone)
  (htwo : 2 * s.maxPoints ≤ irtLayoutBuckets s.maxPoints)
include hn htwo

/-- A call leaves the handle's view alone and keeps the registry sound. -/
theorem RegistryCall.run_sound {h : IndurtdbH} {call : RegistryCall} (hshm : h.shm = s)
    (hsound : Sound s.maxPoints h.seg) (hmet : call.Met h) :
    (call.run h).2.shm = s ∧ Sound s.maxPoints (call.run h).2.seg := by
  obtain ⟨shm, seg, delta⟩ := h
  obtain rfl : shm = s := hshm
  cases call with
  | naming op => exact hsound.run hn htwo hmet delta
  | load batch =>
      simp only [RegistryCall.run, indurtdbHLoadConfig]
      split
      · exact ⟨rfl, hsound⟩
      · exact ⟨rfl, hsound.loadConfigLoop hn htwo batch .ok seg hmet⟩

/-- A run leaves the handle's view alone and keeps the registry sound. -/
theorem runAll_sound :
    ∀ (calls : List RegistryCall) (h : IndurtdbH), h.shm = s → Sound s.maxPoints h.seg →
      CallsMet h calls → Sound s.maxPoints (RegistryCall.runAll h calls).seg := by
  intro calls
  induction calls with
  | nil => exact fun _ _ hsound _ => hsound
  | cons call calls ih =>
      intro h hshm hsound hmet
      obtain ⟨hshm', hsound'⟩ := RegistryCall.run_sound hn htwo hshm hsound hmet.1
      exact ih _ hshm' hsound' hmet.2

end Calls

/-- On a fresh segment whose layout does not wrap, after every run whose names fit and
whose loads find their points as they have to be, points and index are in step. -/
theorem inStep_of_callsMet {N M pid : Nat} (hfits : LayoutFits N) (calls : List RegistryCall)
    (hmet : CallsMet (freshHandle N M pid) calls) :
    InStep (irtShmRequest N M) (RegistryCall.runAll (freshHandle N M pid) calls).seg := by
  have hlt := indexOffsetFits_iff.mp hfits.indexOffsetFits
  have hn : (irtShmRequest N M).maxPoints < irtIndexTombstone := by
    simp only [irtShmRequest, irtIndexTombstone]
    omega
  have htwo : 2 * (irtShmRequest N M).maxPoints ≤ irtLayoutBuckets (irtShmRequest N M).maxPoints :=
    hfits.indexOffsetFits.two_mul_le
  have hfresh : Sound (irtShmRequest N M).maxPoints (freshHandle N M pid).seg :=
    ⟨_, irtShmInitOwner_refines hfits.indexOffsetFits M pid⟩
  exact (runAll_sound hn htwo calls _ rfl hfresh hmet).inStep hn

/-- An entry of a configuration without metadata. -/
def plainEntry (id : Nat) (name : CStr) : IrtPointMeta where
  id := id
  type := 6
  unit := 0
  access := 3
  name := name
  pointMeta := IndurtdbMeta.zero
  hasMeta := false
  badValue := false

/-- The same configuration may be loaded twice, with a creation in between. -/
theorem inStep_of_callsMet_twice :
    InStep (irtShmRequest 4 1) (RegistryCall.runAll (freshHandle 4 1 1)
      [.load [plainEntry 0 ⟨[65], by decide⟩], .naming (.create 7 1 ⟨[65], by decide⟩ 6 3),
        .load [plainEntry 0 ⟨[65], by decide⟩]]).seg := by
  have hload : ∀ h : IndurtdbH, EntryMet h.shm.maxPoints h.seg (plainEntry 0 ⟨[65], by decide⟩) →
      (plainEntry 0 ⟨[65], by decide⟩).Accepted h.shm →
      (RegistryCall.load [plainEntry 0 ⟨[65], by decide⟩]).Met h := by
    intro h hmet haccepted
    change LoadMet _ [_] _
    rw [LoadMet, if_pos haccepted]
    exact fun _ => ⟨hmet, trivial⟩
  refine inStep_of_callsMet (by decide) _ ⟨hload _ ?_ ?_, ?_, hload _ ?_ ?_, trivial⟩
  · decide +kernel
  · decide
  · change [65].length ≤ nameMax
    decide
  · decide +kernel
  · decide +kernel

/-- A load under a new name leaves the old index entry behind. -/
theorem not_inStep :
    ¬ ∀ (N M pid : Nat) (calls : List RegistryCall) (batch : List IrtPointMeta),
      (indurtdbHLoadConfig (RegistryCall.runAll (freshHandle N M pid) calls) batch).1 = .ok →
      InStep (irtShmRequest N M)
        (indurtdbHLoadConfig (RegistryCall.runAll (freshHandle N M pid) calls) batch).2.seg := by
  intro hall
  have hstep := hall 4 1 1 [.load [plainEntry 0 ⟨[65], by decide⟩]] [plainEntry 0 ⟨[66], by decide⟩]
    (by decide +kernel)
  exact absurd hstep.count (by decide +kernel)

end InduRtdb.Api
