/-
  Api/Frames.lean --- what each call leaves of the records and of the metadata.

  Source: `src/api/indurtdb.c` (`indurtdb_h_create_point_in`,
  `indurtdb_h_delete_point_in`, `indurtdb_h_rename_point_in`,
  `indurtdb_h_set_meta`, `indurtdb_h_write_quality_ts`).

  A call is about one id.  Apart from the index, the lock and the counters, it stores
  into the record of that id, or into its metadata, and into nothing else.
-/
import InduRtdb.Api.RegistrySpec
import InduRtdb.Api.Values

set_option autoImplicit false

namespace InduRtdb.Api

open InduRtdb.Core InduRtdb.Lib

/-! ## Stores into one record -/

/-- The record of `id` is `p` afterwards; the other records, the metadata and the layout
are as they were. -/
structure Stores (id : Nat) (p : IndurtdbPoint) (seg seg' : Segment) : Prop where
  points : seg'.points = Function.update seg.points id p
  metas : seg'.metas = seg.metas
  maxPoints : seg'.hdr.maxPoints = seg.hdr.maxPoints
  offPoints : seg'.hdr.offPoints = seg.hdr.offPoints
  offMeta : seg'.hdr.offMeta = seg.hdr.offMeta

namespace Stores

variable {id : Nat} {p q : IndurtdbPoint} {seg seg' seg'' : Segment}

theorem refl (id : Nat) (seg : Segment) : Stores id (seg.points id) seg seg :=
  ⟨(Function.update_eq_self id seg.points).symm, rfl, rfl, rfl, rfl⟩

/-- The last store counts. -/
theorem trans (h : Stores id p seg seg') (h' : Stores id q seg' seg'') :
    Stores id q seg seg'' where
  points := by rw [h'.points, h.points, Function.update_idem]
  metas := h'.metas.trans h.metas
  maxPoints := h'.maxPoints.trans h.maxPoints
  offPoints := h'.offPoints.trans h.offPoints
  offMeta := h'.offMeta.trans h.offMeta

theorem at_id (h : Stores id p seg seg') : seg'.points id = p := by
  rw [h.points, Function.update_self]

theorem at_other (h : Stores id p seg seg') {j : Nat} (hne : j ≠ id) :
    seg'.points j = seg.points j := by
  rw [h.points, Function.update_of_ne hne]

theorem setPoint (seg : Segment) (id : Nat) (p : IndurtdbPoint) :
    Stores id p seg (seg.setPoint id p) := ⟨rfl, rfl, rfl, rfl, rfl⟩

/-- The lock word does not count. -/
theorem locked {w : Nat} (h : Stores id p (seg.setWriteSeq w) seg') (w' : Nat) :
    Stores id p seg (seg'.setWriteSeq w') :=
  ⟨h.points, h.metas, h.maxPoints, h.offPoints, h.offMeta⟩

end Stores

/-- Under the lock, a body runs at once; held by somebody else, the lock keeps it from
running. -/
theorem withWriteLock_cases (seg : Segment) (body : Segment → Rc × Segment) :
    (seg.hdr.writeSeq % 2 = 1 ∧ withWriteLock seg body = (.errBusy, seg)) ∨
      (seg.hdr.writeSeq % 2 = 0 ∧ ∃ w w', w' % 2 = 0 ∧ withWriteLock seg body =
        ((body (seg.setWriteSeq w)).1, (body (seg.setWriteSeq w)).2.setWriteSeq w')) := by
  rcases Nat.mod_two_eq_zero_or_one seg.hdr.writeSeq with heven | hodd
  · exact .inr ⟨heven, _, _, irtSeqlockWriteEnd_even heven, withWriteLock_of_even heven⟩
  · refine .inl ⟨hodd, ?_⟩
    have hnot : ¬ seg.hdr.writeSeq % 2 = 0 := by omega
    simp only [withWriteLock, irtSeqlockWriteBegin, if_neg hnot, if_pos hodd]

/-! ## The index -/

/-- An insertion stores the partition of its point. -/
theorem irtIndexInsertLocked_stores (s : IrtShm) (seg : Segment) (partition : UInt32)
    (name : CStr) (id : Nat) (hpart : (seg.points id).partition = partition) :
    Stores id (seg.points id) seg (irtIndexInsertLocked s seg partition name id).2 := by
  have hstored : seg.setPoint id { seg.points id with partition := partition } = seg := by
    rw [← hpart]
    simp only [Segment.setPoint, Function.update_eq_self]
  unfold irtIndexInsertLocked
  rw [hstored]
  split
  next => exact .refl id seg
  next =>
    split
    next => exact .refl id seg
    next =>
      split
      next => exact .refl id seg
      next =>
        dsimp only
        split
        · exact ⟨(Function.update_eq_self id seg.points).symm, rfl, rfl, rfl, rfl⟩
        · exact ⟨(Function.update_eq_self id seg.points).symm, rfl, rfl, rfl, rfl⟩
        · exact .refl id seg

/-- A removal stores into no record. -/
theorem irtIndexRemoveLocked_stores (s : IrtShm) (seg : Segment) (partition : UInt32)
    (name : CStr) (id : Nat) :
    Stores id (seg.points id) seg (irtIndexRemoveLocked s seg partition name).2 := by
  unfold irtIndexRemoveLocked
  split
  next => exact .refl id seg
  next =>
    split
    next => exact .refl id seg
    next =>
      split
      next => exact .refl id seg
      next =>
        split
        · exact .refl id seg
        · exact ⟨(Function.update_eq_self id seg.points).symm, rfl, rfl, rfl, rfl⟩

/-! ## Creation -/

/-- The record `h_point_register` leaves. -/
def registered (old : IndurtdbPoint) (partition : UInt32) (name : CStr) (type access : UInt8) :
    IndurtdbPoint :=
  { old with
    type := type
    access := access
    unit := 0
    partition := partition
    quality := indurtdbQualityGood
    value := List.replicate 32 0
    name := name.strncpy nameMax }

theorem hPointRegister_stores (seg : Segment) (partition : UInt32) (id : Nat) (name : CStr)
    (type access : UInt8) :
    Stores id (registered (seg.points id) partition name type access) seg
      (hPointRegister seg partition id name type access) := .setPoint _ _ _

/-- What a creation does: it registers the point in an empty slot, or leaves the slot as
empty as it was. -/
structure CreateStores (h : IndurtdbH) (partition : UInt32) (id : Nat) (name : CStr)
    (type access : Int) (r : Rc × IndurtdbH) : Prop where
  shm : r.2.shm = h.shm
  parity : r.2.seg.hdr.writeSeq % 2 = h.seg.hdr.writeSeq % 2
  done : r.1 = .ok → name ≠ CStr.empty ∧ (0 ≤ type ∧ type ≤ indurtdbTypeFloat) ∧
    (access = indurtdbAccessReadOnly.toNat ∨ access = indurtdbAccessReadWrite.toNat) ∧
    id < h.shm.maxPoints ∧ h.seg.hdr.writeSeq % 2 = 0 ∧ (h.seg.points id).name = CStr.empty ∧
    Stores id (registered (h.seg.points id) partition name (.ofNat type.toNat)
      (.ofNat access.toNat)) h.seg r.2.seg
  failed : r.1 ≠ .ok → Stores id (h.seg.points id) h.seg r.2.seg ∨
    (h.seg.points id).name = CStr.empty ∧
      ∃ p : IndurtdbPoint, p.name = CStr.empty ∧ Stores id p h.seg r.2.seg

theorem irtIndexInsert_stores (s : IrtShm) {seg : Segment} {partition : UInt32} (name : CStr)
    {id : Nat} (heven : seg.hdr.writeSeq % 2 = 0)
    (hpart : (seg.points id).partition = partition) :
    Stores id (seg.points id) seg (irtIndexInsert s seg partition name id).2 ∧
      (irtIndexInsert s seg partition name id).2.hdr.writeSeq % 2 = 0 := by
  rcases withWriteLock_cases seg fun seg => irtIndexInsertLocked s seg partition name id with
    ⟨hodd, -⟩ | ⟨-, w, w', hw', hlocked⟩
  · omega
  · rw [irtIndexInsert, hlocked]
    exact ⟨(irtIndexInsertLocked_stores s (seg.setWriteSeq w) partition name id hpart).locked w',
      hw'⟩

/-- The rollback of a creation takes the name away. -/
theorem unregister_stores {seg : Segment} (id : Nat) (heven : seg.hdr.writeSeq % 2 = 0) :
    Stores id { seg.points id with name := CStr.empty } seg (unregister seg id) ∧
      (unregister seg id).hdr.writeSeq % 2 = 0 := by
  rcases withWriteLock_cases seg fun seg =>
      (.ok, seg.setPoint id { seg.points id with name := CStr.empty }) with
    ⟨hodd, -⟩ | ⟨-, w, w', hw', hlocked⟩
  · omega
  · rw [unregister, hlocked]
    exact ⟨(Stores.setPoint (seg.setWriteSeq w) id _).locked w', hw'⟩

/-- A rejected call. -/
theorem CreateStores.rejected {h : IndurtdbH} {partition : UInt32} {id : Nat} {name : CStr}
    {type access : Int} {rc : Rc} (hrc : rc ≠ .ok) :
    CreateStores h partition id name type access (rc, h) where
  shm := rfl
  parity := rfl
  done := fun hok => absurd hok hrc
  failed := fun _ => .inl (.refl id h.seg)

theorem create_stores (h : IndurtdbH) (partition : UInt32) (id : Nat) (name : CStr)
    (type access : Int) :
    CreateStores h partition id name type access
      (indurtdbHCreatePointIn h partition id name type access) := by
  unfold indurtdbHCreatePointIn
  split
  next => exact .rejected (by decide)
  next hname =>
  split
  next => exact .rejected (by decide)
  next htype =>
  split
  next => exact .rejected (by decide)
  next haccess =>
  split
  next => exact .rejected (by decide)
  next hid =>
  split
  next => exact .rejected (by decide)
  next =>
  rcases withWriteLock_cases h.seg fun seg => registerLocked seg partition id name
      (.ofNat type.toNat) (.ofNat access.toNat) with ⟨-, hbusy⟩ | ⟨heven, w, w', hw', hlocked⟩
  · rw [hbusy]
    exact .rejected (by decide)
  · rw [hlocked]
    rcases Decidable.em ((h.seg.points id).name.isEmpty = true) with hempty | hnamed
    · -- the record is registered; its index entry comes next
      have hregister : registerLocked (h.seg.setWriteSeq w) partition id name
          (.ofNat type.toNat) (.ofNat access.toNat) =
            (.ok, hPointRegister (h.seg.setWriteSeq w) partition id name (.ofNat type.toNat)
              (.ofNat access.toNat)) := if_pos hempty
      have hstored := (hPointRegister_stores (h.seg.setWriteSeq w) partition id name
        (.ofNat type.toNat) (.ofNat access.toNat)).locked w'
      have heven₁ : ((hPointRegister (h.seg.setWriteSeq w) partition id name (.ofNat type.toNat)
        (.ofNat access.toNat)).setWriteSeq w').hdr.writeSeq % 2 = 0 := hw'
      rw [hregister]
      dsimp only
      generalize (hPointRegister (h.seg.setWriteSeq w) partition id name (.ofNat type.toNat)
        (.ofNat access.toNat)).setWriteSeq w' = seg₁ at hstored heven₁ ⊢
      have hpart : (seg₁.points id).partition = partition := by
        rw [hstored.at_id]
        rfl
      obtain ⟨hinsert, heven₂⟩ := irtIndexInsert_stores h.shm name heven₁ hpart
      generalize irtIndexInsert h.shm seg₁ partition name id = inserted at hinsert heven₂ ⊢
      obtain ⟨rc, seg₂⟩ := inserted
      rw [hstored.at_id] at hinsert
      have hall := hstored.trans hinsert
      obtain ⟨hrolled, heven₃⟩ := unregister_stores id heven₂
      have hfailed : ∀ rc, rc ≠ .ok → CreateStores h partition id name type access
          (rc, { h with seg := unregister seg₂ id }) := by
        intro rc hrc
        refine ⟨rfl, by rw [heven]; exact heven₃, fun hok => absurd hok hrc, fun _ => .inr ?_⟩
        exact ⟨CStr.isEmpty_iff.mp hempty, _, rfl, hall.trans hrolled⟩
      cases rc with
      | ok =>
          refine ⟨deltaLog_shm .., ?_, fun _ => ?_, fun hfail => absurd rfl hfail⟩
          · rw [deltaLog_seg, heven]
            exact heven₂
          · rw [deltaLog_seg]
            have hnonempty : name ≠ CStr.empty := fun heq => hname (CStr.isEmpty_iff.mpr heq)
            exact ⟨hnonempty, by omega, by omega, by omega, heven, CStr.isEmpty_iff.mp hempty, hall⟩
      | errArg => exact hfailed _ (by decide)
      | errNotFound => exact hfailed _ (by decide)
      | errFull => exact hfailed _ (by decide)
      | errNotInit => exact hfailed _ (by decide)
      | errBusy => exact hfailed _ (by decide)
      | errReadOnly => exact hfailed _ (by decide)
    · have hregister : registerLocked (h.seg.setWriteSeq w) partition id name
          (.ofNat type.toNat) (.ofNat access.toNat) = (.errFull, h.seg.setWriteSeq w) :=
        if_neg hnamed
      rw [hregister]
      refine ⟨rfl, ?_, fun hok => by (cases hok), fun _ => .inl ?_⟩
      · rw [heven]
        exact hw'
      · exact (Stores.refl id (h.seg.setWriteSeq w)).locked w'

/-! ## Deletion and renaming -/

/-- What a call on a registered point does: it may give the record another name. -/
structure NameStores (h : IndurtdbH) (id : Nat) (p : IndurtdbPoint) (r : Rc × IndurtdbH) :
    Prop where
  shm : r.2.shm = h.shm
  parity : r.2.seg.hdr.writeSeq % 2 = h.seg.hdr.writeSeq % 2
  stores : Stores id p h.seg r.2.seg

/-- A rejected call. -/
theorem NameStores.rejected (h : IndurtdbH) (id : Nat) (rc : Rc) :
    NameStores h id (h.seg.points id) (rc, h) := ⟨rfl, rfl, .refl id h.seg⟩

/-- A deletion takes the name away, or leaves the record as it is. -/
theorem delete_stores (h : IndurtdbH) (partition : UInt32) (id : Nat) :
    ∃ p, NameStores h id p (indurtdbHDeletePointIn h partition id) ∧
      (p = h.seg.points id ∨ p = { h.seg.points id with name := CStr.empty }) := by
  unfold indurtdbHDeletePointIn
  split
  next => exact ⟨_, .rejected h id _, .inl rfl⟩
  next =>
  rcases withWriteLock_cases h.seg fun seg => deleteLocked h.shm seg partition id with
    ⟨-, hbusy⟩ | ⟨heven, w, w', hw', hlocked⟩
  · rw [hbusy]
    exact ⟨_, .rejected h id _, .inl rfl⟩
  · rw [hlocked]
    have hkept : ∀ rc, NameStores h id (h.seg.points id)
        (rc, { h with seg := (h.seg.setWriteSeq w).setWriteSeq w' }) :=
      fun rc => ⟨rfl, hw'.trans heven.symm, (Stores.refl id (h.seg.setWriteSeq w)).locked w'⟩
    rcases Decidable.em ((h.seg.points id).name.isEmpty = true) with hempty | hnamed
    · have hdelete : deleteLocked h.shm (h.seg.setWriteSeq w) partition id =
          (.errNotFound, h.seg.setWriteSeq w) := if_pos hempty
      rw [hdelete]
      exact ⟨_, hkept _, .inl rfl⟩
    · rcases Decidable.em ((h.seg.points id).partition = partition) with hpart | hother
      · have hdelete : deleteLocked h.shm (h.seg.setWriteSeq w) partition id = _ :=
          (if_neg hnamed).trans (if_neg fun hne => hne hpart)
        rw [hdelete]
        have hremoved := irtIndexRemoveLocked_stores h.shm (h.seg.setWriteSeq w)
          (h.seg.points id).partition (h.seg.points id).name id
        have hpoint := hremoved.at_id
        refine ⟨_, ⟨deltaLog_shm .., ?_, ?_⟩, .inr rfl⟩
        · rw [deltaLog_seg, heven]
          exact hw'
        · rw [deltaLog_seg]
          have hcleared := hremoved.trans (.setPoint _ id
            { h.seg.points id with name := CStr.empty })
          have hall := hcleared.locked w'
          simp only [Segment.setWriteSeq_points] at hpoint ⊢
          rw [hpoint]
          exact hall
      · have hdelete : deleteLocked h.shm (h.seg.setWriteSeq w) partition id =
            (.errNotFound, h.seg.setWriteSeq w) := (if_neg hnamed).trans (if_pos hother)
        rw [hdelete]
        exact ⟨_, hkept _, .inl rfl⟩

/-- The record a renaming leaves: that of a registered point gets another name. -/
def RenamedTo (old p : IndurtdbPoint) (name : CStr) : Prop :=
  p = old ∨ old.name ≠ CStr.empty ∧ p = { old with name := name.strncpy nameMax }

theorem renameLocked_stores (s : IrtShm) (seg : Segment) (partition : UInt32) (id : Nat)
    (name : CStr) :
    ∃ p, Stores id p seg (renameLocked s seg partition id name).2 ∧
      RenamedTo (seg.points id) p name := by
  unfold renameLocked
  split
  next => exact ⟨_, .refl id seg, .inl rfl⟩
  next hheld =>
  split
  next => exact ⟨_, .refl id seg, .inl rfl⟩
  next =>
  have hpart : (seg.points id).partition = partition :=
    Decidable.of_not_not fun hne => hheld (.inr hne)
  have hnamed : (seg.points id).name ≠ CStr.empty :=
    fun heq => hheld (.inl (CStr.isEmpty_iff.mpr heq))
  have hinserted := irtIndexInsertLocked_stores s seg partition name id hpart
  generalize irtIndexInsertLocked s seg partition name id = inserted at hinserted ⊢
  obtain ⟨rc, seg₁⟩ := inserted
  cases rc with
  | ok =>
      have hremoved := irtIndexRemoveLocked_stores s seg₁ partition (seg₁.points id).name id
      have hpoint := hremoved.at_id.trans hinserted.at_id
      have hall := (hinserted.trans hremoved).trans (.setPoint _ id
        { seg.points id with name := name.strncpy nameMax })
      refine ⟨_, ?_, .inr ⟨hnamed, rfl⟩⟩
      dsimp only
      rw [hpoint]
      exact hall
  | _ => exact ⟨_, hinserted, .inl rfl⟩

/-- A renaming gives a registered point another name, or leaves the record as it is. -/
theorem rename_stores (h : IndurtdbH) (partition : UInt32) (id : Nat) (name : CStr) :
    ∃ p, NameStores h id p (indurtdbHRenamePointIn h partition id name) ∧
      RenamedTo (h.seg.points id) p name := by
  unfold indurtdbHRenamePointIn
  split
  next => exact ⟨_, .rejected h id _, .inl rfl⟩
  next =>
  split
  next => exact ⟨_, .rejected h id _, .inl rfl⟩
  next =>
  split
  next => exact ⟨_, .rejected h id _, .inl rfl⟩
  next =>
  dsimp only
  split
  next => exact ⟨_, .rejected h id _, .inl rfl⟩
  next hfree =>
    have heven : h.seg.hdr.writeSeq % 2 = 0 := by
      unfold irtSeqlockWriteBegin at hfree
      split at hfree
      next heven => exact heven
      next => omega
    have hend : irtSeqlockWriteEnd (irtSeqlockWriteBegin h.seg.hdr.writeSeq).1 % 2 = 0 := by
      simp only [irtSeqlockWriteBegin, if_pos heven]
      exact irtSeqlockWriteEnd_even heven
    obtain ⟨p, hstores, hrenamed⟩ := renameLocked_stores h.shm
      (h.seg.setWriteSeq (irtSeqlockWriteBegin h.seg.hdr.writeSeq).2) partition id name
    refine ⟨p, ?_, hrenamed⟩
    have hall := hstores.locked (irtSeqlockWriteEnd (irtSeqlockWriteBegin h.seg.hdr.writeSeq).1)
    split
    · exact ⟨rfl, hend.trans heven.symm, hall⟩
    · exact ⟨rfl, hend.trans heven.symm, hall⟩
    · refine ⟨deltaLog_shm .., ?_, ?_⟩
      · rw [deltaLog_seg]
        exact hend.trans heven.symm
      · rw [deltaLog_seg]
        exact hall

/-! ## Values and metadata -/

/-- Stores to one record, one after the other. -/
theorem storePoint_run (id : Nat) (fs : List (IndurtdbPoint → IndurtdbPoint))
    (result : SectionResult) : ∀ seg : Segment,
      (storePoint id fs (.ret result)).run seg =
        (result, seg.setPoint id (fs.foldl (fun p f => f p) (seg.points id))) := by
  induction fs with
  | nil =>
      intro seg
      simp [storePoint, Segment.setPoint]
  | cons f fs ih =>
      intro seg
      have hrest := ih (seg.setPoint id (f (seg.points id)))
      simp only [Segment.setPoint, Function.update_self, Function.update_idem] at hrest
      exact hrest

/-- What every store keeps, all of them keep. -/
theorem foldl_kept {α : Type} (get : IndurtdbPoint → α) (fs : List (IndurtdbPoint → IndurtdbPoint))
    (hkeep : ∀ f ∈ fs, ∀ p, get (f p) = get p) : ∀ p, get (fs.foldl (fun p f => f p) p) = get p := by
  induction fs with
  | nil => exact fun _ => rfl
  | cons f fs ih =>
      intro p
      have hrest := ih (fun g hg => hkeep g (List.mem_cons_of_mem _ hg)) (f p)
      exact hrest.trans (hkeep f List.mem_cons_self p)

/-- The stores of a value touch the value only. -/
theorem pmValueStores_kept {α : Type} (get : IndurtdbPoint → α)
    (hkeep : ∀ offset bytes p, get (storeValue offset bytes p) = get p) (type : UInt8)
    (value : List UInt8) : ∀ f ∈ pmValueStores type value, ∀ p, get (f p) = get p := by
  intro f hf p
  unfold pmValueStores at hf
  have hone : ∀ offset bytes, f ∈ [storeValue offset bytes] → get (f p) = get p := by
    intro offset bytes hmem
    rw [List.mem_singleton.mp hmem]
    exact hkeep _ _ p
  split_ifs at hf
  · exact hone _ _ hf
  · exact hone _ _ hf
  · exact hone _ _ hf
  · exact hone _ _ hf
  · exact hone _ _ hf
  · exact hone _ _ hf
  · rcases List.mem_append.mp hf with hmem | hmem
    · obtain ⟨i, -, rfl⟩ := List.mem_map.mp hmem
      exact hkeep _ _ p
    · exact hone _ _ hmem
  · cases hf

/-- The section of a write stores the type, and keeps the name and the access. -/
theorem pmWriteLocked_stores (seg : Segment) (id : Nat) (type : UInt8) (value : List UInt8)
    (sourceTsNs : Nat) (quality : UInt8) (now : Nat) :
    ∃ p, Stores id p seg (pmWriteLocked seg id type value sourceTsNs quality now).2 ∧
      (p = seg.points id ∨ p.type = type ∧ p.name = (seg.points id).name ∧
        p.access = (seg.points id).access) := by
  unfold pmWriteLocked pmWriteBody
  rw [Prog.run_load]
  split_ifs
  · exact ⟨_, .refl id seg, .inl rfl⟩
  · rw [storePoint_run]
    refine ⟨_, .setPoint _ _ _, .inr ?_⟩
    rw [List.append_assoc, List.singleton_append, List.foldl_cons, List.foldl_append]
    simp only [List.foldl_cons, List.foldl_nil]
    refine ⟨?_, ?_, ?_⟩
    · exact foldl_kept IndurtdbPoint.type _
        (pmValueStores_kept _ (fun _ _ _ => rfl) type value) _
    · exact foldl_kept IndurtdbPoint.name _
        (pmValueStores_kept _ (fun _ _ _ => rfl) type value) _
    · exact foldl_kept IndurtdbPoint.access _
        (pmValueStores_kept _ (fun _ _ _ => rfl) type value) _

/-- A write stores the type, and keeps the name and the access. -/
theorem write_stores (h : IndurtdbH) (id : Nat) (type : UInt8) (value : List UInt8)
    (sourceTsNs : Nat) (quality : UInt8) (now : Nat) :
    ∃ p, NameStores h id p (indurtdbHWriteQualityTs h id type value sourceTsNs quality now) ∧
      (p = h.seg.points id ∨ p.type = type ∧ p.name = (h.seg.points id).name ∧
        p.access = (h.seg.points id).access) := by
  unfold indurtdbHWriteQualityTs
  split
  next =>
    rcases withWriteLock_cases h.seg fun seg =>
        pmWriteLocked seg id type value sourceTsNs quality now with
      ⟨-, hbusy⟩ | ⟨heven, w, w', hw', hlocked⟩
    · rw [hbusy]
      exact ⟨_, .rejected h id _, .inl rfl⟩
    · obtain ⟨p, hstores, hp⟩ := pmWriteLocked_stores (h.seg.setWriteSeq w) id type value
        sourceTsNs quality now
      have hall := hstores.locked w'
      refine ⟨p, ?_, hp⟩
      rw [hlocked]
      split
      next seg heq =>
        obtain ⟨-, rfl⟩ := Prod.mk.inj heq
        exact ⟨rfl, hw'.trans heven.symm,
          ⟨hall.points, hall.metas, hall.maxPoints, hall.offPoints, hall.offMeta⟩⟩
      next rc seg _ heq =>
        obtain ⟨-, rfl⟩ := Prod.mk.inj heq
        exact ⟨rfl, hw'.trans heven.symm, hall⟩
  next => exact ⟨_, .rejected h id _, .inl rfl⟩

/-- Metadata is stored as it was validated, or not at all. -/
theorem setMeta_stores (h : IndurtdbH) (id : Nat) (m : IndurtdbMeta) :
    (indurtdbHSetMeta h id m).2 = h ∨
      indurtdbValidatePointMeta m = none ∧ h.seg.hdr.writeSeq % 2 = 0 ∧ ∃ w, w % 2 = 0 ∧
        (indurtdbHSetMeta h id m).2 = { h with seg := (h.seg.setMeta id m).setWriteSeq w } := by
  unfold indurtdbHSetMeta
  cases hvalid : indurtdbValidatePointMeta m with
  | some error => exact .inl rfl
  | none =>
      simp only [irtMetaSet]
      split
      next => exact .inl rfl
      next =>
      split
      next => exact .inl rfl
      next =>
        rcases withWriteLock_cases h.seg fun seg => (.ok, seg.setMeta id m) with
          ⟨-, hbusy⟩ | ⟨heven, w, w', hw', hlocked⟩
        · rw [hbusy]
          exact .inl rfl
        · rw [hlocked]
          exact .inr ⟨trivial, heven, w', hw', rfl⟩

end InduRtdb.Api
