/-
  Api/Reload.lean --- loading a base configuration into a fresh segment and into
  one that outlived its writer.

  Source: `src/api/indurtdb.c` (`indurtdb_h_load_config`).

  A load overwrites the record of every configured point and inserts its name.
  It removes no index entry.  On a segment that survived, a configured point may
  still have an entry under another name; that entry is left behind, and it may
  be taken over by the point that now gets the name.
-/
import InduRtdb.Api.DeltaReplay

set_option autoImplicit false

namespace InduRtdb.Api

open InduRtdb.Core InduRtdb.Spec

/-! ## Configurations -/

/-- The points of a configuration have distinct ids and names, and the names fit
their arrays. -/
structure BaseConfig (batch : List IrtPointMeta) : Prop where
  ids : (batch.map IrtPointMeta.id).Nodup
  names : (batch.map IrtPointMeta.name).Nodup
  fits : ∀ pm ∈ batch, pm.name.bytes.length ≤ nameMax

theorem BaseConfig.tail {pm : IrtPointMeta} {batch : List IrtPointMeta}
    (h : BaseConfig (pm :: batch)) : BaseConfig batch where
  ids := (List.nodup_cons.mp h.ids).2
  names := (List.nodup_cons.mp h.names).2
  fits p hp := h.fits p (List.mem_cons_of_mem _ hp)

theorem BaseConfig.id_ne {pm pm' : IrtPointMeta} {batch : List IrtPointMeta}
    (h : BaseConfig (pm :: batch)) (hmem : pm' ∈ batch) : pm'.id ≠ pm.id := by
  intro heq
  refine (List.nodup_cons.mp h.ids).1 ?_
  rw [← heq]
  exact List.mem_map_of_mem hmem

theorem BaseConfig.name_ne {pm pm' : IrtPointMeta} {batch : List IrtPointMeta}
    (h : BaseConfig (pm :: batch)) (hmem : pm' ∈ batch) : pm'.name ≠ pm.name := by
  intro heq
  refine (List.nodup_cons.mp h.names).1 ?_
  rw [← heq]
  exact List.mem_map_of_mem hmem

/-- The load does not skip the point. -/
def IrtPointMeta.Accepted (s : IrtShm) (pm : IrtPointMeta) : Prop :=
  pm.id < s.maxPoints ∧ pm.type.toNat ≤ indurtdbTypeFloat

instance (s : IrtShm) (pm : IrtPointMeta) : Decidable (pm.Accepted s) :=
  inferInstanceAs (Decidable (_ ∧ _))

/-- The configuration takes the id over. -/
def Configures (s : IrtShm) (batch : List IrtPointMeta) (id : Nat) : Prop :=
  ∃ pm ∈ batch, pm.Accepted s ∧ pm.id = id

theorem Configures.tail {s : IrtShm} {pm : IrtPointMeta} {batch : List IrtPointMeta} {id : Nat}
    (h : Configures s (pm :: batch) id) (hne : pm.Accepted s → id ≠ pm.id) :
    Configures s batch id := by
  obtain ⟨pm', hmem, haccepted, rfl⟩ := h
  rcases List.mem_cons.mp hmem with rfl | hmem
  · exact absurd rfl (hne haccepted)
  · exact ⟨pm', hmem, haccepted, rfl⟩

theorem Configures.cons {s : IrtShm} (pm : IrtPointMeta) {batch : List IrtPointMeta} {id : Nat}
    (h : Configures s batch id) : Configures s (pm :: batch) id := by
  obtain ⟨pm', hmem, hpm'⟩ := h
  exact ⟨pm', List.mem_cons_of_mem _ hmem, hpm'⟩

/-- No point that the load looks at has an unreadable value. -/
def Readable (s : IrtShm) (batch : List IrtPointMeta) : Prop :=
  ∀ pm ∈ batch, pm.Accepted s → pm.badValue = false

/-- A load that succeeds has met no unreadable value. -/
theorem readable_of_load {s : IrtShm} :
    ∀ (batch : List IrtPointMeta) (overall : Rc) (seg : Segment),
      (loadConfigLoop s batch overall seg).1 = .ok → Readable s batch := by
  intro batch
  induction batch with
  | nil =>
      intro _ _ _ pm hmem
      cases hmem
  | cons pm batch ih =>
      intro overall seg hload
      unfold loadConfigLoop at hload
      have hrest : Readable s batch ∧ (pm.Accepted s → pm.badValue = false) := by
        split at hload
        · rename_i hid
          exact ⟨ih _ _ hload, fun h => absurd h.1 (by omega)⟩
        · split at hload
          · rename_i htype
            exact ⟨ih _ _ hload, fun h => absurd h.2 (by omega)⟩
          · split at hload
            · cases hload
            · rename_i hbad
              refine ⟨?_, fun _ => Bool.eq_false_iff.mpr hbad⟩
              dsimp only at hload
              split at hload
              · cases hload
              · split at hload
                · exact ih _ _ hload
                · exact ih _ _ hload
      intro p hmem haccepted
      rcases List.mem_cons.mp hmem with rfl | hmem
      · exact hrest.2 haccepted
      · exact hrest.1 p hmem haccepted

/-! ## One turn of the loop -/

/-- Two segments with the same points, index and regions. -/
structure SameTables (seg seg' : Segment) : Prop where
  even : seg'.hdr.writeSeq % 2 = 0
  points : seg'.points = seg.points
  slots : seg'.slots = seg.slots
  offIndex : seg'.hdr.offIndex = seg.hdr.offIndex
  offPoints : seg'.hdr.offPoints = seg.hdr.offPoints
  offMeta : seg'.hdr.offMeta = seg.hdr.offMeta
  indexCount : seg'.hdr.indexCount = seg.hdr.indexCount

theorem EntryStored.of_same {n : Nat} {seg seg₁ seg₂ : Segment} {partition : UInt32}
    {name : CStr} {id i : Nat} (h : EntryStored n seg seg₁ partition name id i)
    (hsame : SameTables seg₁ seg₂) : EntryStored n seg seg₂ partition name id i where
  even := hsame.even
  offIndex := hsame.offIndex.trans h.offIndex
  offPoints := hsame.offPoints.trans h.offPoints
  offMeta := hsame.offMeta.trans h.offMeta
  points := hsame.points.trans h.points
  reach := h.reach
  slots := hsame.slots.trans h.slots
  owner := by
    rw [hsame.indexCount]
    exact h.owner

section Turn

variable {s : IrtShm} {seg : Segment} {pm : IrtPointMeta} {batch : List IrtPointMeta}

/-- A point that is skipped. -/
theorem loadConfigLoop_skip (hskip : ¬ pm.Accepted s) (overall : Rc) :
    loadConfigLoop s (pm :: batch) overall seg = loadConfigLoop s batch overall seg := by
  conv_lhs => unfold loadConfigLoop
  by_cases hid : s.maxPoints ≤ pm.id
  · rw [if_pos hid]
  · rw [if_neg hid, if_pos]
    by_contra htype
    exact hskip ⟨by omega, by omega⟩

variable (batch) in
/-- What follows once a point has been configured: its metadata is stored, and
the loop goes on. -/
theorem loadConfigLoop_accept (haccepted : pm.Accepted s) (hread : pm.badValue = false) {rc : Rc}
    {seg₁ : Segment} (hpoint : configurePoint s seg pm = (rc, seg₁)) (hfull : rc ≠ .errFull)
    (hbusy : rc ≠ .errBusy) (heven : seg₁.hdr.writeSeq % 2 = 0) (hmeta : seg₁.hdr.offMeta ≠ 0) :
    ∃ seg₂, loadConfigLoop s (pm :: batch) .ok seg = loadConfigLoop s batch .ok seg₂ ∧
      SameTables seg₁ seg₂ := by
  obtain ⟨hid, htype⟩ := haccepted
  have hturn : loadConfigLoop s (pm :: batch) .ok seg =
      if pm.hasMeta then
        loadConfigLoop s batch
          (if (irtMetaSet s seg₁ pm.id pm.pointMeta).1 = .ok then .ok else .errBusy)
          (irtMetaSet s seg₁ pm.id pm.pointMeta).2
      else loadConfigLoop s batch .ok seg₁ := by
    conv_lhs => unfold loadConfigLoop
    rw [if_neg (by omega), if_neg (by omega), if_neg (by rw [hread]; decide)]
    simp only [hpoint, if_neg hfull, if_neg hbusy]
  rw [hturn]
  cases pm.hasMeta with
  | true =>
      have hstored : irtMetaSet s seg₁ pm.id pm.pointMeta =
          (.ok, ((seg₁.setWriteSeq (u64 (seg₁.hdr.writeSeq + 1))).setMeta pm.id
            pm.pointMeta).setWriteSeq (irtSeqlockWriteEnd seg₁.hdr.writeSeq)) := by
        rw [irtMetaSet, if_neg (by omega), if_neg hmeta, withWriteLock_of_even heven]
      rw [if_pos rfl, hstored]
      exact ⟨_, rfl, irtSeqlockWriteEnd_even heven, rfl, rfl, rfl, rfl, rfl, rfl⟩
  | false =>
      rw [if_neg (by decide)]
      exact ⟨seg₁, rfl, heven, rfl, rfl, rfl, rfl, rfl, rfl⟩

variable (batch) {hidden : Nat → Prop} (hcov : IndexCovers s.maxPoints hidden seg)
  (heven : seg.hdr.writeSeq % 2 = 0) (hmeta : seg.hdr.offMeta ≠ 0) (haccepted : pm.Accepted s)
  (hread : pm.badValue = false) (hhidden : hidden pm.id)
include hcov heven hmeta haccepted hread hhidden

/-- The turn for a point with a name: the point is overwritten, and an entry of
its name is stored. -/
theorem loadConfigLoop_named (name : PointName) (hname : pm.name = name.str)
    (hroom : IndexRoom s.maxPoints seg) :
    ∃ seg' p i, loadConfigLoop s (pm :: batch) .ok seg = loadConfigLoop s batch .ok seg' ∧
      p.HasKey 0 name.str ∧ seg'.hdr.offMeta = seg.hdr.offMeta ∧
      EntryStored s.maxPoints (seg.setPoint pm.id p) seg' 0 name.str pm.id i := by
  obtain ⟨p, hstore, hkey⟩ : ∃ p : IndurtdbPoint,
      (withWriteLock seg fun seg => (.ok, seg.setPoint pm.id
        { seg.points pm.id with
          type := pm.type
          unit := pm.unit
          access := pm.access
          partition := 0
          name := pm.name.strncpy nameMax })) =
        (.ok, (seg.setPoint pm.id p).setWriteSeq (irtSeqlockWriteEnd seg.hdr.writeSeq)) ∧
      p.HasKey 0 name.str := by
    rw [withWriteLock_of_even heven]
    exact ⟨_, rfl, rfl, by rw [hname]; exact name.stored⟩
  have hp : p.name.bytes.length ≤ nameMax := by
    rw [hkey.2]
    exact name.fits
  have hcov₁ : IndexCovers s.maxPoints hidden
      ((seg.setPoint pm.id p).setWriteSeq (irtSeqlockWriteEnd seg.hdr.writeSeq)) :=
    hcov.overwrite hhidden hp rfl rfl rfl rfl
  have hpoint : ((seg.setPoint pm.id p).setWriteSeq
      (irtSeqlockWriteEnd seg.hdr.writeSeq)).points pm.id = p := Function.update_self ..
  have hpointKey : (((seg.setPoint pm.id p).setWriteSeq
      (irtSeqlockWriteEnd seg.hdr.writeSeq)).points pm.id).HasKey 0 name.str := by
    rw [hpoint]
    exact hkey
  obtain ⟨seg₁, i, hinsert, hstored⟩ := irtIndexInsert_stored hcov₁
    (irtSeqlockWriteEnd_even heven) haccepted.1 name hpointKey (hroom.roomFor _ _ _)
  have hconfigure : configurePoint s seg pm = (.ok, seg₁) := by
    simp only [configurePoint, hstore, hpoint, hkey.2, hinsert]
  obtain ⟨seg', hloop, hsame⟩ := loadConfigLoop_accept batch haccepted hread hconfigure
    (by decide) (by decide) hstored.even (by rw [hstored.offMeta]; exact hmeta)
  have hentry := hstored.of_same hsame
  exact ⟨seg', p, i, hloop, hkey, hentry.offMeta, hentry.even, hentry.offIndex, hentry.offPoints,
    hentry.offMeta, hentry.points, hentry.reach, hentry.slots, hentry.owner⟩

omit hcov hhidden in
/-- The turn for a point without a name. -/
theorem loadConfigLoop_unnamed (hname : pm.name = CStr.empty) :
    ∃ seg' p, loadConfigLoop s (pm :: batch) .ok seg = loadConfigLoop s batch .ok seg' ∧
      p.HasKey 0 CStr.empty ∧ SameTables (seg.setPoint pm.id p) seg' := by
  obtain ⟨p, hstore, hkey⟩ : ∃ p : IndurtdbPoint,
      (withWriteLock seg fun seg => (.ok, seg.setPoint pm.id
        { seg.points pm.id with
          type := pm.type
          unit := pm.unit
          access := pm.access
          partition := 0
          name := pm.name.strncpy nameMax })) =
        (.ok, (seg.setPoint pm.id p).setWriteSeq (irtSeqlockWriteEnd seg.hdr.writeSeq)) ∧
      p.HasKey 0 CStr.empty := by
    rw [withWriteLock_of_even heven]
    exact ⟨_, rfl, rfl, by rw [hname]; rfl⟩
  have hend := irtSeqlockWriteEnd_even heven
  have hpoint : ((seg.setPoint pm.id p).setWriteSeq
      (irtSeqlockWriteEnd seg.hdr.writeSeq)).points pm.id = p := Function.update_self ..
  have hconfigure : configurePoint s seg pm = (.errArg,
      ((seg.setPoint pm.id p).setWriteSeq
        (irtSeqlockWriteEnd (irtSeqlockWriteEnd seg.hdr.writeSeq)))) := by
    simp only [configurePoint, hstore, hpoint, hkey.2, irtIndexInsert, withWriteLock_of_even
      (show ((seg.setPoint pm.id p).setWriteSeq
        (irtSeqlockWriteEnd seg.hdr.writeSeq)).hdr.writeSeq % 2 = 0 from hend),
      irtIndexInsertLocked, CStr.isEmpty_empty, if_true]
    rfl
  obtain ⟨seg', hloop, hsame⟩ := loadConfigLoop_accept batch haccepted hread hconfigure
    (by decide) (by decide) (irtSeqlockWriteEnd_even hend) hmeta
  exact ⟨seg', p, hloop, hkey, hsame.even, hsame.points, hsame.slots, hsame.offIndex,
    hsame.offPoints, hsame.offMeta, hsame.indexCount⟩

end Turn

/-! ## The points after a load -/

/-- The configured points carry their configured keys, the others are as they
were. -/
structure Loaded (s : IrtShm) (batch : List IrtPointMeta) (seg seg' : Segment) : Prop where
  configured : ∀ pm ∈ batch, pm.Accepted s → (seg'.points pm.id).HasKey 0 pm.name
  others : ∀ k, ¬ Configures s batch k → seg'.points k = seg.points k

section Loaded

variable {s : IrtShm} {pm : IrtPointMeta} {batch : List IrtPointMeta} {seg seg₁ seg' : Segment}

theorem Loaded.nil : Loaded s [] seg seg where
  configured _ hmem := by cases hmem
  others _ _ := rfl

theorem Loaded.skip (h : Loaded s batch seg seg') (hskip : ¬ pm.Accepted s) :
    Loaded s (pm :: batch) seg seg' where
  configured pm' hmem haccepted := by
    rcases List.mem_cons.mp hmem with rfl | hmem
    · exact absurd haccepted hskip
    · exact h.configured pm' hmem haccepted
  others k hnot := h.others k fun hconf => hnot (hconf.cons pm)

theorem Loaded.cons (h : Loaded s batch seg₁ seg') (hbase : BaseConfig (pm :: batch))
    (haccepted : pm.Accepted s) {p : IndurtdbPoint} (hkey : p.HasKey 0 pm.name)
    (hpoints : seg₁.points = Function.update seg.points pm.id p) :
    Loaded s (pm :: batch) seg seg' where
  configured pm' hmem haccepted' := by
    rcases List.mem_cons.mp hmem with rfl | hmem
    · have hnot : ¬ Configures s batch pm'.id := by
        rintro ⟨pm'', hmem'', _, heq⟩
        exact hbase.id_ne hmem'' heq
      rw [h.others pm'.id hnot, hpoints, Function.update_self]
      exact hkey
    · exact h.configured pm' hmem haccepted'
  others k hnot := by
    have hne : k ≠ pm.id := by
      rintro rfl
      exact hnot ⟨pm, List.mem_cons_self .., haccepted, rfl⟩
    rw [h.others k fun hconf => hnot (hconf.cons pm), hpoints, Function.update_of_ne hne]

end Loaded

/-- A point that has lost its name needs no entry. -/
theorem covers_unnamed {n id : Nat} {hidden : Nat → Prop} {seg seg' : Segment} {p : IndurtdbPoint}
    (hcov : IndexCovers n hidden seg) (hp : p.name = CStr.empty)
    (hsame : SameTables (seg.setPoint id p) seg') :
    IndexCovers n (fun k => hidden k ∧ k ≠ id) seg' where
  offIndex := by rw [hsame.offIndex]; exact hcov.offIndex
  offPoints := by rw [hsame.offPoints]; exact hcov.offPoints
  names := by
    rw [hsame.points]
    refine hcov.names.update ?_
    rw [hp]
    exact Nat.zero_le _
  below := by rw [hsame.slots]; exact hcov.below
  slotted := by
    intro k hk hvis hname
    rw [hsame.points, Segment.setPoint_points] at hname ⊢
    rw [hsame.slots]
    rcases eq_or_ne k id with rfl | hne
    · rw [Function.update_self] at hname
      exact absurd hp hname
    · rw [Function.update_of_ne hne] at hname ⊢
      exact hcov.slotted k hk (fun hhid => hvis ⟨hhid, hne⟩) hname

/-! ## A fresh segment -/

section Unnamed

variable {n id : Nat} {seg seg' : Segment} {r : PointRegistry n} {p : IndurtdbPoint}
  (hfree : (seg.points id).name = CStr.empty) (hp : p.name = CStr.empty)
  (hsame : SameTables (seg.setPoint id p) seg')
include hfree hsame

include hp in
/-- Overwriting a free point with another free one changes nothing. -/
theorem Refines.unnamed (href : Refines n seg r) : Refines n seg' r where
  even := hsame.even
  covers := (covers_unnamed href.covers hp hsame).mono fun _ h => h.1
  holds := by
    intro k hk
    rw [hsame.points, Segment.setPoint_points]
    rcases eq_or_ne k id with rfl | hne
    · rw [Function.update_self, href.holds k hk, pointKey_eq_none_iff.mpr hfree,
        pointKey_eq_none_iff.mpr hp]
    · rw [Function.update_of_ne hne]
      exact href.holds k hk

theorem TightFor.unnamed (htight : TightFor n seg r) : TightFor n seg' r where
  tight := by
    constructor
    · intro i hi hlive
      rw [hsame.slots] at hlive ⊢
      have hcurrent := htight.tight.current i hi hlive
      have hne : (seg.slots i).pointId ≠ id := by
        rintro rfl
        exact hcurrent.1 hfree
      rw [hsame.points, Segment.setPoint_points, Segment.setPoint_slots, Function.update_of_ne hne]
      exact hcurrent
    · intro i j hi hj hlivei hlivej hpid
      rw [hsame.slots] at hlivei hlivej hpid
      exact htight.tight.distinct i j hi hj hlivei hlivej hpid
  count := by
    rw [hsame.indexCount]
    exact htight.count

end Unnamed

/-- A load on a segment in which no configured id and no configured name is
registered yet: the index stays tight. -/
theorem loadConfigLoop_fresh {s : IrtShm} (hn : s.maxPoints < irtIndexTombstone)
    (htwo : 2 * s.maxPoints ≤ irtLayoutBuckets s.maxPoints) :
    ∀ (batch : List IrtPointMeta) (seg : Segment) (r : PointRegistry s.maxPoints),
      BaseConfig batch → Readable s batch → Refines s.maxPoints seg r →
      TightFor s.maxPoints seg r → seg.hdr.offMeta ≠ 0 →
      (∀ pm ∈ batch, r.holds pm.id = none) →
      (∀ pm ∈ batch, ∀ id, r.holds id ≠ some (0, pm.name)) →
      ∃ seg' r', loadConfigLoop s batch .ok seg = (.ok, seg') ∧ Refines s.maxPoints seg' r' ∧
        TightFor s.maxPoints seg' r' ∧ seg'.hdr.offMeta ≠ 0 ∧ Loaded s batch seg seg' := by
  intro batch
  induction batch with
  | nil =>
      intro seg r _ _ href htight hmeta _ _
      exact ⟨seg, r, rfl, href, htight, hmeta, .nil⟩
  | cons pm batch ih =>
      intro seg r hbase hread href htight hmeta hids hnames
      have hread' : Readable s batch := fun p hp => hread p (List.mem_cons_of_mem _ hp)
      have hids' : ∀ p ∈ batch, r.holds p.id = none :=
        fun p hp => hids p (List.mem_cons_of_mem _ hp)
      have hnames' : ∀ p ∈ batch, ∀ id, r.holds id ≠ some (0, p.name) :=
        fun p hp => hnames p (List.mem_cons_of_mem _ hp)
      by_cases haccepted : pm.Accepted s
      · have hbad := hread pm (List.mem_cons_self ..) haccepted
        have hfree : (seg.points pm.id).name = CStr.empty := by
          rw [← pointKey_eq_none_iff, ← href.holds pm.id haccepted.1]
          exact hids pm (List.mem_cons_self ..)
        by_cases hname : pm.name = CStr.empty
        · obtain ⟨seg₁, p, hloop, hkey, hsame⟩ :=
            loadConfigLoop_unnamed batch href.even hmeta haccepted hbad hname
          obtain ⟨seg', r', hrest, href', htight', hmeta', hloaded⟩ := ih seg₁ r hbase.tail hread'
            (href.unnamed hfree hkey.2 hsame) (htight.unnamed hfree hsame)
            (by rw [hsame.offMeta]; exact hmeta) hids' hnames'
          refine ⟨seg', r', hloop.trans hrest, href', htight', hmeta', ?_⟩
          exact hloaded.cons hbase haccepted (hname ▸ hkey) hsame.points
        · obtain ⟨name, hstr⟩ : ∃ name : PointName, name.str = pm.name :=
            ⟨⟨pm.name, hname, hbase.fits pm (List.mem_cons_self ..)⟩, rfl⟩
          have htaken : ¬ r.Taken (0, name.str) pm.id := by
            rintro ⟨k, _, hk⟩
            rw [hstr] at hk
            exact hnames pm (List.mem_cons_self ..) k hk
          obtain ⟨seg₁, p, i, hloop, hkey, hmeta₁, hstored⟩ :=
            loadConfigLoop_named batch
              (href.covers.mono (fun k h => h.elim) : IndexCovers _ (· = pm.id) seg) href.even hmeta
              haccepted hbad rfl name hstr.symm (htight.tight.room href.covers.below htwo)
          obtain ⟨href₁, htight₁⟩ := stored_refines (h := ⟨s, seg, none⟩) hn href name hkey
            (show pm.id < s.maxPoints from haccepted.1) hfree htaken rfl hstored rfl rfl rfl rfl
          obtain ⟨seg', r', hrest, href', htight', hmeta', hloaded⟩ := ih seg₁ _ hbase.tail hread'
            href₁ (htight₁ htight) (by rw [hmeta₁]; exact hmeta)
            (fun p hp => (Function.update_of_ne (hbase.id_ne hp) ..).trans (hids' p hp)) (by
              intro p hp id hid
              rcases eq_or_ne id pm.id with rfl | hne
              · have hself := (Function.update_self ..).symm.trans hid
                rw [hstr] at hself
                exact hbase.name_ne hp (congrArg Prod.snd (Option.some.inj hself)).symm
              · exact hnames' p hp id ((Function.update_of_ne hne ..).symm.trans hid))
          refine ⟨seg', r', hloop.trans hrest, href', htight', hmeta', ?_⟩
          exact hloaded.cons hbase haccepted (hstr ▸ hkey) hstored.points
      · obtain ⟨seg', r', hrest, href', htight', hmeta', hloaded⟩ :=
          ih seg r hbase.tail hread' href htight hmeta hids' hnames'
        exact ⟨seg', r', (loadConfigLoop_skip haccepted _).trans hrest, href', htight', hmeta',
          hloaded.skip haccepted⟩

/-! ## A surviving segment -/

/-- The number of entries in the index. -/
def liveEntries (n : Nat) (seg : Segment) : Nat :=
  ((Finset.range (irtLayoutBuckets n)).filter fun i => (seg.slots i).Live).card

theorem indexRoom_of_liveEntries {n : Nat} {seg : Segment}
    (h : liveEntries n seg < irtLayoutBuckets n) : IndexRoom n seg := by
  by_contra hfull
  refine absurd h ?_
  rw [liveEntries, Finset.filter_true_of_mem, Finset.card_range]
  · exact lt_irrefl _
  · intro i hi
    by_contra hnot
    exact hfull ⟨i, Finset.mem_range.mp hi, hnot⟩

/-- One store adds at most one entry. -/
theorem liveEntries_update_le {n i : Nat} {seg seg' : Segment} {slot : IrtIndexSlot}
    (h : seg'.slots = Function.update seg.slots i slot) :
    liveEntries n seg' ≤ liveEntries n seg + 1 := by
  have hsub : ((Finset.range (irtLayoutBuckets n)).filter fun k => (seg'.slots k).Live) ⊆
      insert i ((Finset.range (irtLayoutBuckets n)).filter fun k => (seg.slots k).Live) := by
    intro k hk
    obtain ⟨hlt, hlive⟩ := Finset.mem_filter.mp hk
    rcases eq_or_ne k i with rfl | hne
    · exact Finset.mem_insert_self ..
    · rw [h, Function.update_of_ne hne] at hlive
      exact Finset.mem_insert_of_mem (Finset.mem_filter.mpr ⟨hlt, hlive⟩)
  exact (Finset.card_le_card hsub).trans (Finset.card_insert_le ..)

/-- A tight index has at most one entry for each point. -/
theorem liveEntries_le {n : Nat} {seg : Segment} (htight : IndexTight n seg)
    (hbelow : EntriesBelow n seg.slots) : liveEntries n seg ≤ n := by
  have hmaps : ∀ i ∈ (Finset.range (irtLayoutBuckets n)).filter fun i => (seg.slots i).Live,
      (seg.slots i).pointId ∈ Finset.range n := by
    intro i hi
    obtain ⟨hlt, hlive⟩ := Finset.mem_filter.mp hi
    exact Finset.mem_range.mpr (hbelow i (Finset.mem_range.mp hlt) hlive)
  have hinj : Set.InjOn (fun i => (seg.slots i).pointId)
      ((Finset.range (irtLayoutBuckets n)).filter fun i => (seg.slots i).Live) := by
    intro i hi j hj hpid
    obtain ⟨hlti, hlivei⟩ := Finset.mem_filter.mp (Finset.mem_coe.mp hi)
    obtain ⟨hltj, hlivej⟩ := Finset.mem_filter.mp (Finset.mem_coe.mp hj)
    exact htight.distinct i j (Finset.mem_range.mp hlti) (Finset.mem_range.mp hltj) hlivei hlivej
      hpid
  have hcard := Finset.card_le_card_of_injOn _ hmaps hinj
  rwa [Finset.card_range] at hcard

/-- The points a load does not skip have different ids, so there are at most as
many as ids. -/
theorem accepted_length_le {s : IrtShm} {batch : List IrtPointMeta} (hbase : BaseConfig batch) :
    (batch.filter fun pm => decide (pm.Accepted s)).length ≤ s.maxPoints := by
  have hnodup : ((batch.filter fun pm => decide (pm.Accepted s)).map IrtPointMeta.id).Nodup :=
    hbase.ids.sublist (List.filter_sublist.map _)
  have hsub : ((batch.filter fun pm => decide (pm.Accepted s)).map IrtPointMeta.id) ⊆
      List.range s.maxPoints := by
    intro id hid
    obtain ⟨pm, hpm, rfl⟩ := List.mem_map.mp hid
    exact List.mem_range.mpr (of_decide_eq_true (List.mem_filter.mp hpm).2).1
  have hle := (hnodup.subperm hsub).length_le
  rwa [List.length_map, List.length_range] at hle

/-- No point outside the configuration holds a name of the configuration. -/
def NamesFree (s : IrtShm) (batch : List IrtPointMeta) (seg : Segment) : Prop :=
  ∀ pm ∈ batch, pm.Accepted s → pm.name ≠ CStr.empty →
    ∀ k, k < s.maxPoints → ¬ Configures s batch k → ¬ (seg.points k).HasKey 0 pm.name

instance (s : IrtShm) (batch : List IrtPointMeta) (seg : Segment) :
    Decidable (NamesFree s batch seg) :=
  inferInstanceAs (Decidable (∀ pm ∈ batch, pm.Accepted s → pm.name ≠ CStr.empty →
    ∀ k, k < s.maxPoints → (¬ ∃ pm ∈ batch, pm.Accepted s ∧ pm.id = k) →
      ¬ ((seg.points k).partition = 0 ∧ (seg.points k).name = pm.name)))

/-- A load on any segment in which the names of the configuration are free: it
succeeds, and every registered point is found. -/
theorem loadConfigLoop_covers {s : IrtShm} (hn : s.maxPoints < irtIndexTombstone) :
    ∀ (batch : List IrtPointMeta) (seg : Segment), BaseConfig batch → Readable s batch →
      IndexCovers s.maxPoints (Configures s batch) seg → seg.hdr.writeSeq % 2 = 0 →
      seg.hdr.offMeta ≠ 0 → NamesFree s batch seg →
      liveEntries s.maxPoints seg + (batch.filter fun pm => decide (pm.Accepted s)).length ≤
        irtLayoutBuckets s.maxPoints →
      ∃ seg', loadConfigLoop s batch .ok seg = (.ok, seg') ∧ seg'.hdr.writeSeq % 2 = 0 ∧
        IndexCovers s.maxPoints (fun _ => False) seg' ∧ Loaded s batch seg seg' := by
  intro batch
  induction batch with
  | nil =>
      intro seg _ _ hcov heven _ _ _
      refine ⟨seg, rfl, heven, hcov.mono ?_, .nil⟩
      rintro id ⟨pm, hmem, _⟩
      cases hmem
  | cons pm batch ih =>
      intro seg hbase hread hcov heven hmeta hfree hroom
      have hread' : Readable s batch := fun p hp => hread p (List.mem_cons_of_mem _ hp)
      by_cases haccepted : pm.Accepted s
      · have hself : Configures s (pm :: batch) pm.id :=
          ⟨pm, List.mem_cons_self .., haccepted, rfl⟩
        have hbad := hread pm (List.mem_cons_self ..) haccepted
        rw [List.filter_cons, if_pos (decide_eq_true haccepted), List.length_cons] at hroom
        -- a point that is still to come is hidden until its own turn
        have hhidden : ∀ k, Configures s (pm :: batch) k ∧ k ≠ pm.id → Configures s batch k :=
          fun k h => h.1.tail fun _ => h.2
        have hfree' : ∀ {seg₁ : Segment} {p : IndurtdbPoint}, p.HasKey 0 pm.name →
            seg₁.points = Function.update seg.points pm.id p → NamesFree s batch seg₁ := by
          intro seg₁ p hkey hpoints pm' hmem haccepted' hname' k hk hnot hkey'
          rw [hpoints] at hkey'
          rcases eq_or_ne k pm.id with rfl | hne
          · rw [Function.update_self] at hkey'
            exact hbase.name_ne hmem (hkey'.2.symm.trans hkey.2)
          · rw [Function.update_of_ne hne] at hkey'
            exact hfree pm' (List.mem_cons_of_mem _ hmem) haccepted' hname' k hk
              (fun hconf => hnot (hconf.tail fun _ => hne)) hkey'
        by_cases hname : pm.name = CStr.empty
        · obtain ⟨seg₁, p, hloop, hkey, hsame⟩ :=
            loadConfigLoop_unnamed batch heven hmeta haccepted hbad hname
          have hkey' : p.HasKey 0 pm.name := hname ▸ hkey
          have hlive : liveEntries s.maxPoints seg₁ = liveEntries s.maxPoints seg := by
            rw [liveEntries, hsame.slots]
            rfl
          obtain ⟨seg', hrest, heven', hcov', hloaded⟩ := ih seg₁ hbase.tail hread'
            ((covers_unnamed hcov hkey.2 hsame).mono hhidden) hsame.even
            (by rw [hsame.offMeta]; exact hmeta) (hfree' hkey' hsame.points) (by omega)
          exact ⟨seg', hloop.trans hrest, heven', hcov',
            hloaded.cons hbase haccepted hkey' hsame.points⟩
        · obtain ⟨name, hstr⟩ : ∃ name : PointName, name.str = pm.name :=
            ⟨⟨pm.name, hname, hbase.fits pm (List.mem_cons_self ..)⟩, rfl⟩
          obtain ⟨seg₁, p, i, hloop, hkey, hmeta₁, hstored⟩ :=
            loadConfigLoop_named batch hcov heven hmeta haccepted hbad hself name hstr.symm
              (indexRoom_of_liveEntries (by omega))
          have hhash : irtIndexComposeHash 0 name.str = p.keyHash := hkey.keyHash.symm
          have hkey' : p.HasKey 0 pm.name := hstr ▸ hkey
          have hcov₁ : IndexCovers s.maxPoints (Configures s batch) seg₁ := by
            refine (hcov.assign (i := i) (p := p) hn haccepted.1 ?_ ?_ ?_ hstored.offIndex
              hstored.offPoints hstored.points ?_).mono hhidden
            · rw [hkey.2]
              exact name.fits
            · rw [← hhash]
              exact hstored.reach
            · -- an entry that is taken over belonged to this point or to one still to come
              intro hlive
              rcases hstored.owner with ⟨hnot, _⟩ | ⟨hlt, howner, _⟩
              · exact absurd hlive hnot
              · by_cases hpid : (seg.slots i).pointId = pm.id
                · exact Or.inl hpid
                · refine Or.inr ?_
                  by_contra hnot
                  rw [Segment.setPoint_slots, Segment.setPoint_points,
                    Function.update_of_ne hpid, hstr] at howner
                  exact hfree pm (List.mem_cons_self ..) haccepted hname _ hlt hnot howner
            · rw [← hhash]
              exact hstored.slots
          have hlive := liveEntries_update_le (n := s.maxPoints) hstored.slots
          obtain ⟨seg', hrest, heven', hcov', hloaded⟩ := ih seg₁ hbase.tail hread' hcov₁
            hstored.even (by rw [hmeta₁]; exact hmeta) (hfree' hkey' hstored.points) (by
              have hsame : liveEntries s.maxPoints (seg.setPoint pm.id p) =
                  liveEntries s.maxPoints seg := rfl
              omega)
          exact ⟨seg', hloop.trans hrest, heven', hcov',
            hloaded.cons hbase haccepted hkey' hstored.points⟩
      · have hiff : ∀ k, Configures s (pm :: batch) k → Configures s batch k :=
          fun k h => h.tail fun haccepted' => absurd haccepted' haccepted
        rw [List.filter_cons, if_neg (by simpa using haccepted)] at hroom
        obtain ⟨seg', hrest, heven', hcov', hloaded⟩ := ih seg hbase.tail hread'
          (hcov.mono hiff) heven hmeta (by
            intro pm' hmem haccepted' hname' k hk hnot
            exact hfree pm' (List.mem_cons_of_mem _ hmem) haccepted' hname' k hk
              fun hconf => hnot (hiff k hconf)) hroom
        exact ⟨seg', (loadConfigLoop_skip haccepted _).trans hrest, heven', hcov',
          hloaded.skip haccepted⟩

end InduRtdb.Api
