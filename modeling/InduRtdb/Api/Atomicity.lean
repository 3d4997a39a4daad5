/-
  Api/Atomicity.lean --- what a registry call that fails leaves behind, among other
  processes.

  Source: `h_point_register`, `indurtdb_h_create_point_in`,
  `indurtdb_h_delete_point_in` and `indurtdb_h_rename_point_in` of
  `src/api/indurtdb.c`; `irt_index_insert` and `irt_index_lookup` of
  `src/core/irt_index.c`.

  A call gets at the segment a number of times: it looks a name up, and it takes the
  lock once or more.  Before each try the other processes may have changed anything, and
  may hold the lock.  The sections themselves are those of `Api/Registry`.
-/
import InduRtdb.Api.Frames
import InduRtdb.Api.RegistryRun

set_option autoImplicit false

namespace InduRtdb.Api

open InduRtdb.Core InduRtdb.Lib

/-! ## Calls among other processes -/

/-- What other processes do to the segment: one entry before each try of the call. -/
abbrev Others : Type := List (Segment → Segment)

/-- A section under the lock, with `n` tries; `none` when the lock was held each time. -/
def sectionAmong {ρ : Type} (body : Segment → ρ × Segment) :
    Nat → Others → Segment → Option ρ × Segment × Others
  | 0, others, seg => (none, seg, others)
  | n + 1, others, seg =>
      let seg := others.headD id seg
      let begun := irtSeqlockWriteBegin seg.hdr.writeSeq
      if begun.1 % 2 = 1 then sectionAmong body n others.tail seg
      else
        let done := body (seg.setWriteSeq begun.2)
        (some done.1, done.2.setWriteSeq (irtSeqlockWriteEnd begun.1), others.tail)

/-- The attempts of `irt_index_lookup`: a word that is odd, or changes under the probe,
costs one. -/
def lookupAttemptsAmong (ix : IrtIndex) (partition : UInt32) (name : CStr) :
    Nat → Others → Segment → Except Rc Nat × Segment × Others
  | 0, others, seg => (.error .errBusy, seg, others)
  | n + 1, others, seg =>
      let seg := others.headD id seg
      if seg.hdr.writeSeq % 2 = 1 then lookupAttemptsAmong ix partition name n others.tail seg
      else (irtIndexProbe ix seg partition name, seg, others.tail)

/-- `irt_index_lookup`. -/
def lookupAmong (s : IrtShm) (partition : UInt32) (name : CStr) (others : Others)
    (seg : Segment) : Except Rc Nat × Segment × Others :=
  if name.isEmpty then (.error .errArg, seg, others)
  else match irtIndexBind s seg.hdr with
  | none => (.error .errArg, seg, others)
  | some ix =>
      if seg.hdr.offPoints = 0 then (.error .errArg, seg, others)
      else lookupAttemptsAmong ix partition name irtIndexMaxRetry others seg

/-- The lookup has found another id. -/
def foundOther (found : Except Rc Nat) (id : Nat) : Bool :=
  match found with
  | .ok exist => exist != id
  | .error _ => false

/-- The rollback of `indurtdb_h_create_point_in`, under the lock. -/
def unregisterLocked (seg : Segment) (id : Nat) : Unit × Segment :=
  ((), seg.setPoint id { seg.points id with name := CStr.empty })

/-- The end of `indurtdb_h_create_point_in`: the point is registered, and its name goes into
the index.  That is tried once, and a failure rolls the registration back. -/
def indexRegistered (h : IndurtdbH) (others : Others) (partition : UInt32) (id : Nat)
    (name : CStr) (type access : Int) (seg : Segment) : Rc × IndurtdbH :=
  match sectionAmong (fun seg => irtIndexInsertLocked h.shm seg partition name id) 1 others seg with
  | (some .ok, seg, _) =>
      (.ok, deltaLog { h with seg := seg } irtDeltaOpCreate id (.ofNat type.toNat)
        (.ofNat access.toNat) name)
  | (inserted, seg, others) =>
      let rolled := sectionAmong (fun seg => unregisterLocked seg id) irtSeqlockMaxRetry others seg
      (inserted.getD .errBusy, { h with seg := rolled.2.1 })

/-- The first part of `indurtdb_h_create_point_in`, up to the registration: the segment after
it and what the others do next, or how the call ends before. -/
def registerAmong (h : IndurtdbH) (others : Others) (partition : UInt32) (id : Nat)
    (name : CStr) (type access : Int) : Except (Rc × Segment) (Segment × Others) :=
  if name.isEmpty then .error (.errArg, h.seg)
  else if type < 0 ∨ indurtdbTypeFloat < type then .error (.errArg, h.seg)
  else if access ≠ indurtdbAccessReadOnly.toNat ∧ access ≠ indurtdbAccessReadWrite.toNat then
    .error (.errArg, h.seg)
  else if h.shm.maxPoints ≤ id then .error (.errArg, h.seg)
  else
    let looked := lookupAmong h.shm partition name others h.seg
    if foundOther looked.1 id then .error (.errArg, looked.2.1)
    else
      match sectionAmong
          (fun seg =>
            registerLocked seg partition id name (.ofNat type.toNat) (.ofNat access.toNat))
          irtSeqlockMaxRetry looked.2.2 looked.2.1 with
      | (none, seg, _) => .error (.errBusy, seg)
      | (some .ok, seg, others) => .ok (seg, others)
      | (some rc, seg, _) => .error (rc, seg)

/-- `indurtdb_h_create_point_in`. -/
def createPointInAmong (h : IndurtdbH) (others : Others) (partition : UInt32) (id : Nat)
    (name : CStr) (type access : Int) : Rc × IndurtdbH :=
  match registerAmong h others partition id name type access with
  | .error (rc, seg) => (rc, { h with seg := seg })
  | .ok (seg, others) => indexRegistered h others partition id name type access seg

/-- `indurtdb_h_delete_point_in`. -/
def deletePointInAmong (h : IndurtdbH) (others : Others) (partition : UInt32) (id : Nat) :
    Rc × IndurtdbH :=
  if h.shm.maxPoints ≤ id then (.errArg, h)
  else
    match sectionAmong (fun seg => deleteLocked h.shm seg partition id) irtSeqlockMaxRetry others
        h.seg with
    | (none, seg, _) => (.errBusy, { h with seg := seg })
    | (some .ok, seg, _) =>
        (.ok, deltaLog { h with seg := seg } irtDeltaOpDelete id 0 0 CStr.empty)
    | (some rc, seg, _) => (rc, { h with seg := seg })

/-- `indurtdb_h_rename_point_in`. -/
def renamePointInAmong (h : IndurtdbH) (others : Others) (partition : UInt32) (id : Nat)
    (name : CStr) : Rc × IndurtdbH :=
  if name.isEmpty then (.errArg, h)
  else if h.shm.maxPoints ≤ id then (.errArg, h)
  else
    let looked := lookupAmong h.shm partition name others h.seg
    if foundOther looked.1 id then (.errArg, { h with seg := looked.2.1 })
    else
      match sectionAmong (fun seg => renameLocked h.shm seg partition id name) irtSeqlockMaxRetry
          looked.2.2 looked.2.1 with
      | (none, seg, _) => (.errBusy, { h with seg := seg })
      | (some (.failed rc), seg, _) => (rc, { h with seg := seg })
      | (some .same, seg, _) => (.ok, { h with seg := seg })
      | (some .changed, seg, _) =>
          (.ok, deltaLog { h with seg := seg } irtDeltaOpRename id (seg.points id).type
            (seg.points id).access name)

/-! ## With nobody else there

The calls are then those of `Api/Registry`. -/

theorem sectionAmong_nil_odd {ρ : Type} (body : Segment → ρ × Segment) (n : Nat)
    {seg : Segment} (hodd : seg.hdr.writeSeq % 2 = 1) :
    sectionAmong body n [] seg = (none, seg, []) := by
  induction n with
  | zero => rfl
  | succ n ih =>
      rw [sectionAmong]
      simpa [irtSeqlockWriteBegin, hodd] using ih

theorem sectionAmong_nil_even {ρ : Type} (body : Segment → ρ × Segment) (n : Nat)
    {seg : Segment} (heven : seg.hdr.writeSeq % 2 = 0) :
    sectionAmong body (n + 1) [] seg =
      (some (body (seg.setWriteSeq (u64 (seg.hdr.writeSeq + 1)))).1,
        (body (seg.setWriteSeq (u64 (seg.hdr.writeSeq + 1)))).2.setWriteSeq
          (irtSeqlockWriteEnd seg.hdr.writeSeq), []) := by
  simp [sectionAmong, irtSeqlockWriteBegin, heven]

theorem withWriteLock_of_odd {seg : Segment} (body : Segment → Rc × Segment)
    (hodd : seg.hdr.writeSeq % 2 = 1) : withWriteLock seg body = (.errBusy, seg) := by
  simp [withWriteLock, irtSeqlockWriteBegin, hodd]

theorem lookupAmong_nil (s : IrtShm) (partition : UInt32) (name : CStr) (seg : Segment) :
    lookupAmong s partition name [] seg = (irtIndexLookup s seg partition name, seg, []) := by
  have hattempts : ∀ (ix : IrtIndex) (n : Nat), lookupAttemptsAmong ix partition name n [] seg =
      (irtIndexLookupAttempts ix seg partition name n, seg, []) := by
    intro ix n
    induction n with
    | zero => rfl
    | succ n ih =>
        rcases Decidable.em (seg.hdr.writeSeq % 2 = 1) with hodd | heven
        · simpa [lookupAttemptsAmong, irtIndexLookupAttempts, hodd] using ih
        · simp [lookupAttemptsAmong, irtIndexLookupAttempts, heven]
  unfold lookupAmong irtIndexLookup
  cases irtIndexBind s seg.hdr with
  | none => split_ifs <;> rfl
  | some ix =>
      dsimp only
      split_ifs
      · rfl
      · rfl
      · exact hattempts ix _

theorem rename_alone (h : IndurtdbH) (partition : UInt32) (id : Nat) (name : CStr) :
    renamePointInAmong h [] partition id name = indurtdbHRenamePointIn h partition id name := by
  unfold renamePointInAmong indurtdbHRenamePointIn
  rw [lookupAmong_nil]
  split
  · rfl
  split
  · rfl
  dsimp only
  have htaken : foundOther (irtIndexLookup h.shm h.seg partition name) id =
      nameTaken h partition name id := rfl
  rw [htaken]
  split
  · rfl
  rcases Nat.mod_two_eq_zero_or_one h.seg.hdr.writeSeq with heven | hodd
  · have hnot : ¬ h.seg.hdr.writeSeq % 2 = 1 := by omega
    rw [sectionAmong_nil_even _ 2 heven]
    simp only [irtSeqlockWriteBegin, if_pos heven, if_neg hnot]
    generalize renameLocked h.shm _ partition id name = renamed
    obtain ⟨outcome, seg⟩ := renamed
    cases outcome with
    | failed rc => rfl
    | same => rfl
    | changed => rfl
  · have hnot : ¬ h.seg.hdr.writeSeq % 2 = 0 := by omega
    rw [sectionAmong_nil_odd _ _ hodd]
    simp only [irtSeqlockWriteBegin, if_neg hnot, if_pos hodd]

theorem delete_alone (h : IndurtdbH) (partition : UInt32) (id : Nat) :
    deletePointInAmong h [] partition id = indurtdbHDeletePointIn h partition id := by
  unfold deletePointInAmong indurtdbHDeletePointIn
  split
  · rfl
  rcases Nat.mod_two_eq_zero_or_one h.seg.hdr.writeSeq with heven | hodd
  · rw [sectionAmong_nil_even _ 2 heven, withWriteLock_of_even heven]
    generalize deleteLocked h.shm _ partition id = deleted
    obtain ⟨rc, seg⟩ := deleted
    cases rc with
    | _ => rfl
  · rw [sectionAmong_nil_odd _ _ hodd, withWriteLock_of_odd _ hodd]

theorem create_alone (h : IndurtdbH) (partition : UInt32) (id : Nat) (name : CStr)
    (type access : Int) :
    createPointInAmong h [] partition id name type access =
      indurtdbHCreatePointIn h partition id name type access := by
  unfold createPointInAmong registerAmong indurtdbHCreatePointIn
  rw [lookupAmong_nil]
  have hfound : foundOther (irtIndexLookup h.shm h.seg partition name) id =
      nameTaken h partition name id := rfl
  dsimp only
  rw [hfound]
  split_ifs with hname htype haccess hid htaken
  · rfl
  · rfl
  · rfl
  · rfl
  · rfl
  rcases Nat.mod_two_eq_zero_or_one h.seg.hdr.writeSeq with heven | hodd
  · rw [sectionAmong_nil_even _ 2 heven, withWriteLock_of_even heven]
    generalize registerLocked _ partition id name _ _ = registered
    obtain ⟨rc, seg⟩ := registered
    cases rc with
    | ok =>
        dsimp only
        rw [indexRegistered]
        generalize hseg₁ : seg.setWriteSeq (irtSeqlockWriteEnd h.seg.hdr.writeSeq) = seg₁
        have heven₁ : seg₁.hdr.writeSeq % 2 = 0 := by
          rw [← hseg₁]
          exact irtSeqlockWriteEnd_even heven
        rw [sectionAmong_nil_even _ 0 heven₁, irtIndexInsert, withWriteLock_of_even heven₁]
        generalize irtIndexInsertLocked h.shm _ partition name id = inserted
        obtain ⟨rc, seg⟩ := inserted
        have heven₂ : (seg.setWriteSeq (irtSeqlockWriteEnd seg₁.hdr.writeSeq)).hdr.writeSeq % 2 =
            0 := irtSeqlockWriteEnd_even heven₁
        cases rc with
        | ok => rfl
        | _ =>
            dsimp only
            rw [sectionAmong_nil_even _ 2 heven₂, unregister, withWriteLock_of_even heven₂]
            rfl
    | _ => rfl
  · rw [sectionAmong_nil_odd _ _ hodd, withWriteLock_of_odd _ hodd]

/-! ## What a call is compared on -/

/-- The fields of a point record. -/
inductive PointField : {α : Type} → (IndurtdbPoint → α) → Prop where
  | name : PointField IndurtdbPoint.name
  | partition : PointField IndurtdbPoint.partition
  | type : PointField IndurtdbPoint.type
  | access : PointField IndurtdbPoint.access
  | unit : PointField IndurtdbPoint.unit
  | value : PointField IndurtdbPoint.value
  | quality : PointField IndurtdbPoint.quality
  | timestampNs : PointField IndurtdbPoint.timestampNs
  | sourceTimestampNs : PointField IndurtdbPoint.sourceTimestampNs

/-- What a failed call must leave alone: the records, the index and the metadata. -/
inductive Tracked : {α : Type} → (Segment → α) → Prop where
  | point {α : Type} {field : IndurtdbPoint → α} (id : Nat) (hfield : PointField field) :
      Tracked fun seg => field (seg.points id)
  | slot (i : Nat) : Tracked fun seg => seg.slots i
  | indexCount : Tracked fun seg => seg.hdr.indexCount
  | metas (id : Nat) : Tracked fun seg => seg.metas id

/-- No other process changes it. -/
def LeftAlone {α : Type} (others : Others) (get : Segment → α) : Prop :=
  ∀ f ∈ others, ∀ seg, get (f seg) = get seg

/-- What differs is what the other processes changed. -/
structure OnlyOthers (others : Others) (seg seg' : Segment) : Prop where
  kept : ∀ {α : Type} (get : Segment → α), Tracked get → LeftAlone others get →
    get seg' = get seg

namespace OnlyOthers

variable {others left : Others} {seg seg' seg'' : Segment}

theorem refl (others : Others) (seg : Segment) : OnlyOthers others seg seg :=
  ⟨fun _ _ _ => rfl⟩

theorem trans (h : OnlyOthers others seg seg') (h' : OnlyOthers others seg' seg'') :
    OnlyOthers others seg seg'' :=
  ⟨fun get htracked hleft => (h'.kept get htracked hleft).trans (h.kept get htracked hleft)⟩

/-- Fewer others change less. -/
theorem mono (h : OnlyOthers left seg seg') (hsub : left ⊆ others) :
    OnlyOthers others seg seg' :=
  ⟨fun get htracked hleft => h.kept get htracked fun f hf => hleft f (hsub hf)⟩

/-- The lock word is not compared. -/
theorem locked (others : Others) (seg : Segment) (w : Nat) :
    OnlyOthers others seg (seg.setWriteSeq w) := by
  refine ⟨fun get htracked _ => ?_⟩
  cases htracked with
  | _ => rfl

end OnlyOthers

/-! ## Up to the lock -/

/-- Other processes alone led from `seg` to `seg'`; `left` is what they do next. -/
structure OthersLed (others : Others) (seg seg' : Segment) (left : Others) : Prop where
  only : OnlyOthers others seg seg'
  subset : left ⊆ others

namespace OthersLed

variable {others left left' : Others} {seg seg' seg'' : Segment}

theorem refl (others : Others) (seg : Segment) : OthersLed others seg seg others :=
  ⟨.refl others seg, fun _ hf => hf⟩

theorem trans (h : OthersLed others seg seg' left) (h' : OthersLed left seg' seg'' left') :
    OthersLed others seg seg'' left' :=
  ⟨h.only.trans (h'.only.mono h.subset), fun _ hf => h.subset (h'.subset hf)⟩

/-- They did what comes next. -/
theorem next (others : Others) (seg : Segment) :
    OthersLed others seg (others.headD id seg) others.tail := by
  cases others with
  | nil => exact .refl [] seg
  | cons f rest =>
      refine ⟨⟨fun get _ hleft => ?_⟩, fun g hg => List.mem_cons_of_mem f hg⟩
      exact hleft f List.mem_cons_self seg

end OthersLed

/-- Somebody holds the lock at each of `n` tries. -/
def HeldThroughout : Nat → Others → Segment → Prop
  | 0, _, _ => True
  | n + 1, others, seg =>
      (others.headD id seg).hdr.writeSeq % 2 = 1 ∧
        HeldThroughout n others.tail (others.headD id seg)

/-- A section is given up when the lock is held at each try, and else it is run once, where
the others led. -/
theorem sectionAmong_cases {ρ : Type} (body : Segment → ρ × Segment) (n : Nat) :
    ∀ (others : Others) (seg : Segment), ∃ seg₁ left, OthersLed others seg seg₁ left ∧
      (HeldThroughout n others seg ∧ sectionAmong body n others seg = (none, seg₁, left) ∨
        ¬ HeldThroughout n others seg ∧ ∃ w w', sectionAmong body n others seg =
          (some (body (seg₁.setWriteSeq w)).1, (body (seg₁.setWriteSeq w)).2.setWriteSeq w',
            left)) := by
  induction n with
  | zero => exact fun others seg => ⟨seg, others, .refl others seg, .inl ⟨trivial, rfl⟩⟩
  | succ n ih =>
      intro others seg
      rcases Nat.mod_two_eq_zero_or_one (others.headD id seg).hdr.writeSeq with heven | hodd
      · have hnot : ¬ (others.headD id seg).hdr.writeSeq % 2 = 1 := by omega
        refine ⟨_, _, .next others seg, .inr ⟨fun hheld => hnot hheld.1, ?_⟩⟩
        exact ⟨u64 ((others.headD id seg).hdr.writeSeq + 1),
          irtSeqlockWriteEnd (others.headD id seg).hdr.writeSeq,
          by simp only [sectionAmong, irtSeqlockWriteBegin, if_pos heven, if_neg hnot]⟩
      · have hnot : ¬ (others.headD id seg).hdr.writeSeq % 2 = 0 := by omega
        have hlater : sectionAmong body (n + 1) others seg =
            sectionAmong body n others.tail (others.headD id seg) := by
          simp only [sectionAmong, irtSeqlockWriteBegin, if_neg hnot, if_pos hodd]
        obtain ⟨seg₁, left, hled, hrun⟩ := ih others.tail (others.headD id seg)
        rw [hlater]
        refine ⟨seg₁, left, (OthersLed.next others seg).trans hled, ?_⟩
        rcases hrun with ⟨hheld, hnone⟩ | ⟨hfree, hsome⟩
        · exact .inl ⟨⟨hodd, hheld⟩, hnone⟩
        · exact .inr ⟨fun hheld => hfree hheld.2, hsome⟩

/-- Looking a name up changes nothing. -/
theorem lookupAmong_led (s : IrtShm) (partition : UInt32) (name : CStr) (others : Others)
    (seg : Segment) :
    OthersLed others seg (lookupAmong s partition name others seg).2.1
      (lookupAmong s partition name others seg).2.2 := by
  have hattempts : ∀ (ix : IrtIndex) (n : Nat) (others : Others) (seg : Segment),
      OthersLed others seg (lookupAttemptsAmong ix partition name n others seg).2.1
        (lookupAttemptsAmong ix partition name n others seg).2.2 := by
    intro ix n
    induction n with
    | zero => exact fun others seg => .refl others seg
    | succ n ih =>
        intro others seg
        rw [lookupAttemptsAmong]
        split
        · exact (OthersLed.next others seg).trans (ih _ _)
        · exact .next others seg
  unfold lookupAmong
  split
  · exact .refl others seg
  split
  · exact .refl others seg
  split
  · exact .refl others seg
  · exact hattempts _ _ others seg


/-! ## Deletion and renaming -/

/-- A call that fails leaves everything the others left alone as it was. -/
def AtomicOnError (others : Others) (h : IndurtdbH) (done : Rc × IndurtdbH) : Prop :=
  done.1 ≠ .ok → OnlyOthers others h.seg done.2.seg

/-- A store of the record that is there changes nothing. -/
theorem setPoint_self {seg : Segment} {id : Nat} {p : IndurtdbPoint} (hp : p = seg.points id) :
    seg.setPoint id p = seg := by
  rw [hp, Segment.setPoint, Function.update_eq_self]

/-- An insertion that fails has stored the partition of the point at most. -/
theorem irtIndexInsertLocked_failed {s : IrtShm} {seg : Segment} {partition : UInt32}
    {name : CStr} {id : Nat} (hfail : (irtIndexInsertLocked s seg partition name id).1 ≠ .ok) :
    (irtIndexInsertLocked s seg partition name id).2 = seg ∨
      (irtIndexInsertLocked s seg partition name id).2 =
        seg.setPoint id { seg.points id with partition := partition } := by
  unfold irtIndexInsertLocked at hfail ⊢
  split
  · exact .inl rfl
  next hname =>
  rw [if_neg hname] at hfail
  cases hbind : irtIndexBind s seg.hdr with
  | none => exact .inl rfl
  | some ix =>
      rw [hbind] at hfail
      dsimp only at hfail ⊢
      split
      · exact .inl rfl
      next hpoints =>
      rw [if_neg hpoints] at hfail
      split
      next hplace =>
        rw [hplace] at hfail
        exact absurd rfl hfail
      next hplace =>
        rw [hplace] at hfail
        exact absurd rfl hfail
      next => exact .inr rfl

theorem deleteLocked_failed {s : IrtShm} {seg : Segment} {partition : UInt32} {id : Nat}
    (hfail : (deleteLocked s seg partition id).1 ≠ .ok) :
    (deleteLocked s seg partition id).2 = seg := by
  unfold deleteLocked at hfail ⊢
  split
  · rfl
  next hnamed =>
  split
  · rfl
  next hpart =>
    rw [if_neg hnamed, if_neg hpart] at hfail
    exact absurd rfl hfail

/-- A point that is renamed is in the partition already. -/
theorem renameLocked_failed {s : IrtShm} {seg : Segment} {partition : UInt32} {id : Nat}
    {name : CStr} {rc : Rc} (hfail : (renameLocked s seg partition id name).1 = .failed rc) :
    (renameLocked s seg partition id name).2 = seg := by
  unfold renameLocked at hfail ⊢
  split
  · rfl
  next hheld =>
  split
  · rfl
  next hother =>
  rw [if_neg hheld, if_neg hother] at hfail
  have hpart : (seg.points id).partition = partition :=
    Decidable.of_not_not fun hne => hheld (.inr hne)
  have hinsert := @irtIndexInsertLocked_failed s seg partition name id
  generalize irtIndexInsertLocked s seg partition name id = inserted at hfail hinsert ⊢
  obtain ⟨rc', seg'⟩ := inserted
  cases rc' with
  | ok => cases hfail
  | _ =>
      rcases hinsert nofun with hsame | hstored
      · exact hsame
      · exact hstored.trans (setPoint_self (by rw [← hpart]))

theorem delete_atomic (others : Others) (h : IndurtdbH) (partition : UInt32) (id : Nat) :
    AtomicOnError others h (deletePointInAmong h others partition id) := by
  unfold deletePointInAmong
  split
  · exact fun _ => .refl others h.seg
  obtain ⟨seg₁, left, hled, ⟨-, hrun⟩ | ⟨-, w, w', hrun⟩⟩ := sectionAmong_cases
    (fun seg => deleteLocked h.shm seg partition id) irtSeqlockMaxRetry others h.seg
  · rw [hrun]
    exact fun _ => hled.only
  · rw [hrun]
    have hdelete := @deleteLocked_failed h.shm (seg₁.setWriteSeq w) partition id
    generalize deleteLocked h.shm (seg₁.setWriteSeq w) partition id = deleted at hdelete ⊢
    obtain ⟨rc, seg₂⟩ := deleted
    cases rc with
    | ok => exact fun hfail => absurd rfl hfail
    | _ =>
        intro _
        have hsame : seg₂ = seg₁.setWriteSeq w := hdelete nofun
        rw [hsame]
        have hcall := hled.only.trans (.locked others seg₁ w')
        exact hcall

theorem rename_atomic (others : Others) (h : IndurtdbH) (partition : UInt32) (id : Nat)
    (name : CStr) : AtomicOnError others h (renamePointInAmong h others partition id name) := by
  unfold renamePointInAmong
  split
  · exact fun _ => .refl others h.seg
  split
  · exact fun _ => .refl others h.seg
  have hlooked := lookupAmong_led h.shm partition name others h.seg
  generalize lookupAmong h.shm partition name others h.seg = looked at hlooked ⊢
  dsimp only
  split
  · exact fun _ => hlooked.only
  obtain ⟨seg₁, left, hled, ⟨-, hrun⟩ | ⟨-, w, w', hrun⟩⟩ := sectionAmong_cases
    (fun seg => renameLocked h.shm seg partition id name) irtSeqlockMaxRetry looked.2.2 looked.2.1
  · rw [hrun]
    exact fun _ => (hlooked.trans hled).only
  · rw [hrun]
    have hrename := @renameLocked_failed h.shm (seg₁.setWriteSeq w) partition id name
    generalize renameLocked h.shm (seg₁.setWriteSeq w) partition id name = renamed at hrename ⊢
    obtain ⟨outcome, seg₂⟩ := renamed
    cases outcome with
    | failed rc =>
        intro _
        have hsame : seg₂ = seg₁.setWriteSeq w := hrename rfl
        rw [hsame]
        have hcall := (hlooked.trans hled).only.trans (.locked others seg₁ w')
        exact hcall
    | same => exact fun hfail => absurd rfl hfail
    | changed => exact fun hfail => absurd rfl hfail

/-! ## Creation

The record and the index are written in two sections, each under its own lock, and the
rollback is a third.  It takes the name away again, and only the name. -/

/-- What `h_point_register` stores. -/
def recordRegistered (partition : UInt32) (name : CStr) (type access : Int) : IndurtdbPoint :=
  { IndurtdbPoint.zero with
    type := .ofNat type.toNat
    access := .ofNat access.toNat
    unit := 0
    partition := partition
    quality := indurtdbQualityGood
    value := List.replicate 32 0
    name := name.strncpy nameMax }

/-- The fields that a registration stores, and the rollback does not restore. -/
inductive Overwritten : {α : Type} → (IndurtdbPoint → α) → Prop where
  | partition : Overwritten IndurtdbPoint.partition
  | type : Overwritten IndurtdbPoint.type
  | access : Overwritten IndurtdbPoint.access
  | unit : Overwritten IndurtdbPoint.unit
  | value : Overwritten IndurtdbPoint.value
  | quality : Overwritten IndurtdbPoint.quality

/-- What is compared, as the registration of `id` sees it. -/
inductive Seen (id : Nat) : {α : Type} → (Segment → α) → Prop where
  /-- a store into these fields of the record does not show -/
  | apart {α : Type} {get : Segment → α}
      (hblind : ∀ seg p, p.timestampNs = (seg.points id).timestampNs →
        p.sourceTimestampNs = (seg.points id).sourceTimestampNs →
        get (seg.setPoint id p) = get seg) : Seen id get
  | overwritten {α : Type} {field : IndurtdbPoint → α} (hfield : Overwritten field) :
      Seen id fun seg => field (seg.points id)
  | name : Seen id fun seg => (seg.points id).name

theorem Tracked.seen {α : Type} {get : Segment → α} (htracked : Tracked get) (id : Nat) :
    Seen id get := by
  cases htracked with
  | @point _ field j hfield =>
      rcases eq_or_ne j id with rfl | hne
      · cases hfield with
        | name => exact .name
        | partition => exact .overwritten .partition
        | type => exact .overwritten .type
        | access => exact .overwritten .access
        | unit => exact .overwritten .unit
        | value => exact .overwritten .value
        | quality => exact .overwritten .quality
        | timestampNs =>
            refine .apart fun seg p htimestamp _ => ?_
            rw [Segment.setPoint_points, Function.update_self, htimestamp]
        | sourceTimestampNs =>
            refine .apart fun seg p _ hsource => ?_
            rw [Segment.setPoint_points, Function.update_self, hsource]
      · refine .apart fun seg p _ _ => ?_
        rw [Segment.setPoint_points, Function.update_of_ne hne]
  | slot i => exact .apart fun _ _ _ _ => rfl
  | indexCount => exact .apart fun _ _ _ _ => rfl
  | metas j => exact .apart fun _ _ _ _ => rfl

theorem Overwritten.pointField {α : Type} {field : IndurtdbPoint → α}
    (hfield : Overwritten field) : PointField field := by
  cases hfield with
  | partition => exact .partition
  | type => exact .type
  | access => exact .access
  | unit => exact .unit
  | value => exact .value
  | quality => exact .quality

/-- The rollback restores what the call found: nothing that the registration overwrote was
different, and a rollback that finds the lock free takes the name away. -/
structure Restored (h : IndurtdbH) (others : Others) (partition : UInt32) (id : Nat)
    (name : CStr) (type access : Int) (left : Others) (seg : Segment) : Prop where
  overwritten : ∀ {α : Type} (field : IndurtdbPoint → α), Overwritten field →
    LeftAlone others (fun seg => field (seg.points id)) →
    field (recordRegistered partition name type access) = field (h.seg.points id)
  named : LeftAlone others (fun seg => (seg.points id).name) →
    ¬ HeldThroughout irtSeqlockMaxRetry left seg

/-- When the call that creates a point meets its purpose: it does not register the point, or
its name goes into the index, or the rollback restores what it found. -/
def CreateMet (h : IndurtdbH) (others : Others) (partition : UInt32) (id : Nat) (name : CStr)
    (type access : Int) : Prop :=
  ∀ seg left, registerAmong h others partition id name type access = .ok (seg, left) →
    let inserted :=
      sectionAmong (fun seg => irtIndexInsertLocked h.shm seg partition name id) 1 left seg
    inserted.1 ≠ some .ok →
      Restored h others partition id name type access inserted.2.2 inserted.2.1

/-- What a section does not store stays as the others left it. -/
theorem sectionAmong_kept {ρ α : Type} {body : Segment → ρ × Segment} {get : Segment → α}
    {n : Nat} {others : Others} {seg : Segment} (htracked : Tracked get)
    (hleft : LeftAlone others get) (hbody : ∀ seg, get (body seg).2 = get seg) :
    get (sectionAmong body n others seg).2.1 = get seg := by
  have hlock : ∀ (seg : Segment) (w : Nat), get (seg.setWriteSeq w) = get seg :=
    fun seg w => (OnlyOthers.locked others seg w).kept get htracked hleft
  obtain ⟨seg₁, left, hled, ⟨-, hrun⟩ | ⟨-, w, w', hrun⟩⟩ := sectionAmong_cases body n others seg
  · rw [hrun]
    exact hled.only.kept get htracked hleft
  · rw [hrun]
    calc get ((body (seg₁.setWriteSeq w)).2.setWriteSeq w')
        = get (body (seg₁.setWriteSeq w)).2 := hlock _ _
      _ = get (seg₁.setWriteSeq w) := hbody _
      _ = get seg₁ := hlock _ _
      _ = get seg := hled.only.kept get htracked hleft

/-- What the others do next is among what they do. -/
theorem sectionAmong_subset {ρ : Type} (body : Segment → ρ × Segment) (n : Nat)
    (others : Others) (seg : Segment) : (sectionAmong body n others seg).2.2 ⊆ others := by
  obtain ⟨seg₁, left, hled, ⟨-, hrun⟩ | ⟨-, w, w', hrun⟩⟩ := sectionAmong_cases body n others seg
  · rw [hrun]
    exact hled.subset
  · rw [hrun]
    exact hled.subset

theorem LeftAlone.mono {α : Type} {others left : Others} {get : Segment → α}
    (h : LeftAlone others get) (hsub : left ⊆ others) : LeftAlone left get :=
  fun f hf => h f (hsub hf)

/-! ### The rollback -/

section Rollback

variable {others : Others} {id : Nat} {seg : Segment}

/-- The rollback takes nothing but the name. -/
theorem rollback_kept {α : Type} {get : Segment → α} {n : Nat} (htracked : Tracked get)
    (hleft : LeftAlone others get)
    (hblind : ∀ (seg : Segment) (name : CStr),
      get (seg.setPoint id { seg.points id with name := name }) = get seg) :
    get (sectionAmong (fun seg => unregisterLocked seg id) n others seg).2.1 = get seg :=
  sectionAmong_kept htracked hleft fun seg => hblind seg CStr.empty

/-- The rollback takes the name away when it gets the lock. -/
theorem rollback_name {n : Nat} (hleft : LeftAlone others fun seg => (seg.points id).name) :
    (HeldThroughout n others seg →
      ((sectionAmong (fun seg => unregisterLocked seg id) n others seg).2.1.points id).name =
        (seg.points id).name) ∧
    (¬ HeldThroughout n others seg →
      ((sectionAmong (fun seg => unregisterLocked seg id) n others seg).2.1.points id).name =
        CStr.empty) := by
  obtain ⟨seg₁, left, hled, ⟨hheld, hrun⟩ | ⟨hfree, w, w', hrun⟩⟩ :=
    sectionAmong_cases (fun seg => unregisterLocked seg id) n others seg
  · rw [hrun]
    exact ⟨fun _ => hled.only.kept _ (.point id .name) hleft, fun hfree => absurd hheld hfree⟩
  · rw [hrun]
    refine ⟨fun hheld => absurd hheld hfree, fun _ => ?_⟩
    simp only [unregisterLocked, Segment.setWriteSeq_points, Segment.setPoint_points,
      Function.update_self]

end Rollback

/-! ### The insertion -/

/-- An insertion that fails changes nothing of a point that carries its partition. -/
theorem insertion_failed (s : IrtShm) {others : Others} {seg : Segment} {partition : UInt32}
    (name : CStr) {id : Nat} (hpart : (seg.points id).partition = partition)
    (hfail : (sectionAmong (fun seg => irtIndexInsertLocked s seg partition name id) 1 others
      seg).1 ≠ some .ok) :
    OnlyOthers others seg (sectionAmong (fun seg => irtIndexInsertLocked s seg partition name id) 1
      others seg).2.1 := by
  obtain ⟨seg₁, left, hled, ⟨-, hrun⟩ | ⟨-, w, w', hrun⟩⟩ := sectionAmong_cases
    (fun seg => irtIndexInsertLocked s seg partition name id) 1 others seg
  · rw [hrun]
    exact hled.only
  · rw [hrun] at hfail ⊢
    have hlocked := hled.only.trans (.locked others seg₁ w)
    have hrc : (irtIndexInsertLocked s (seg₁.setWriteSeq w) partition name id).1 ≠ .ok :=
      fun hok => hfail (congrArg some hok)
    refine OnlyOthers.trans ?_ (.locked others _ w')
    rcases irtIndexInsertLocked_failed hrc with hsame | hstored
    · rw [hsame]
      exact hlocked
    · rw [hstored]
      refine ⟨fun get htracked hleft => ?_⟩
      cases htracked.seen id with
      | apart hblind =>
          have hsame := hblind (seg₁.setWriteSeq w)
            { (seg₁.setWriteSeq w).points id with partition := partition } rfl rfl
          exact hsame.trans (hlocked.kept get htracked hleft)
      | name =>
          simp only [Segment.setPoint_points, Function.update_self]
          exact hlocked.kept _ htracked hleft
      | overwritten hfield =>
          simp only [Segment.setPoint_points, Function.update_self]
          cases hfield with
          | partition => exact hpart.symm
          | type => exact hlocked.kept _ htracked hleft
          | access => exact hlocked.kept _ htracked hleft
          | unit => exact hlocked.kept _ htracked hleft
          | value => exact hlocked.kept _ htracked hleft
          | quality => exact hlocked.kept _ htracked hleft

/-! ### The registration -/

/-- A registration that took effect: the slot was free, and the record is the new one. -/
structure RegisteredFrom (h : IndurtdbH) (others : Others) (partition : UInt32) (id : Nat)
    (name : CStr) (type access : Int) (seg : Segment) (left : Others) : Prop where
  subset : left ⊆ others
  named : name ≠ CStr.empty
  unnamed : LeftAlone others (fun seg => (seg.points id).name) →
    (h.seg.points id).name = CStr.empty
  stored : ∃ timestampNs sourceTimestampNs, seg.points id =
    { recordRegistered partition name type access with
      timestampNs := timestampNs
      sourceTimestampNs := sourceTimestampNs }
  apart : ∀ {α : Type} (get : Segment → α), Tracked get → LeftAlone others get →
    (∀ seg p, p.timestampNs = (seg.points id).timestampNs →
      p.sourceTimestampNs = (seg.points id).sourceTimestampNs →
      get (seg.setPoint id p) = get seg) → get seg = get h.seg

/-- How the first part of a creation ends. -/
def RegisterEnds (h : IndurtdbH) (others : Others) (partition : UInt32) (id : Nat)
    (name : CStr) (type access : Int) : Except (Rc × Segment) (Segment × Others) → Prop
  | .error (rc, seg) => rc ≠ .ok ∧ OnlyOthers others h.seg seg
  | .ok (seg, left) => RegisteredFrom h others partition id name type access seg left

theorem registerAmong_ends (h : IndurtdbH) (others : Others) (partition : UInt32) (id : Nat)
    (name : CStr) (type access : Int) :
    RegisterEnds h others partition id name type access
      (registerAmong h others partition id name type access) := by
  unfold registerAmong
  have hrejected : RegisterEnds h others partition id name type access
      (.error (.errArg, h.seg)) := ⟨nofun, .refl others h.seg⟩
  split
  next => exact hrejected
  next hname =>
  split
  next => exact hrejected
  next =>
  split
  next => exact hrejected
  next =>
  split
  next => exact hrejected
  next =>
  have hlooked := lookupAmong_led h.shm partition name others h.seg
  generalize lookupAmong h.shm partition name others h.seg = looked at hlooked ⊢
  dsimp only
  split
  next => exact ⟨nofun, hlooked.only⟩
  next =>
  obtain ⟨seg₁, left, hled, ⟨-, hrun⟩ | ⟨-, w, w', hrun⟩⟩ := sectionAmong_cases
    (fun seg => registerLocked seg partition id name (.ofNat type.toNat) (.ofNat access.toNat))
    irtSeqlockMaxRetry looked.2.2 looked.2.1
  · rw [hrun]
    exact ⟨nofun, (hlooked.trans hled).only⟩
  · have hall := hlooked.trans hled
    rw [hrun]
    rcases Decidable.em ((seg₁.points id).name.isEmpty = true) with hempty | hnamed
    · -- the slot is free
      have hregister : registerLocked (seg₁.setWriteSeq w) partition id name
          (.ofNat type.toNat) (.ofNat access.toNat) =
            (.ok, hPointRegister (seg₁.setWriteSeq w) partition id name (.ofNat type.toNat)
              (.ofNat access.toNat)) := if_pos hempty
      rw [hregister]
      refine ⟨hall.subset, fun heq => hname (CStr.isEmpty_iff.mpr heq), ?_, ?_, ?_⟩
      · intro hleft
        have hkept := hall.only.kept _ (.point id .name) hleft
        exact hkept.symm.trans (CStr.isEmpty_iff.mp hempty)
      · exact ⟨_, _, Function.update_self ..⟩
      · intro α get htracked hleft hblind
        calc get ((hPointRegister (seg₁.setWriteSeq w) partition id name (.ofNat type.toNat)
                (.ofNat access.toNat)).setWriteSeq w')
            = get (hPointRegister (seg₁.setWriteSeq w) partition id name (.ofNat type.toNat)
                (.ofNat access.toNat)) :=
              (OnlyOthers.locked others _ w').kept get htracked hleft
          _ = get (seg₁.setWriteSeq w) := hblind _ _ rfl rfl
          _ = get seg₁ := (OnlyOthers.locked others seg₁ w).kept get htracked hleft
          _ = get h.seg := hall.only.kept get htracked hleft
    · have hregister : registerLocked (seg₁.setWriteSeq w) partition id name
          (.ofNat type.toNat) (.ofNat access.toNat) = (.errFull, seg₁.setWriteSeq w) :=
        if_neg hnamed
      rw [hregister]
      exact ⟨nofun, (hall.only.trans (.locked others seg₁ w)).trans (.locked others _ w')⟩

/-- What a registration overwrote holds what was registered. -/
theorem RegisteredFrom.overwritten {h : IndurtdbH} {others left : Others} {partition : UInt32}
    {id : Nat} {name : CStr} {type access : Int} {seg : Segment}
    (hreg : RegisteredFrom h others partition id name type access seg left) {α : Type}
    {field : IndurtdbPoint → α} (hfield : Overwritten field) :
    field (seg.points id) = field (recordRegistered partition name type access) := by
  obtain ⟨timestampNs, sourceTimestampNs, hstored⟩ := hreg.stored
  rw [hstored]
  cases hfield with
  | _ => rfl

theorem RegisteredFrom.name {h : IndurtdbH} {others left : Others} {partition : UInt32}
    {id : Nat} {name : CStr} {type access : Int} {seg : Segment}
    (hreg : RegisteredFrom h others partition id name type access seg left) :
    (seg.points id).name = name.strncpy nameMax := by
  obtain ⟨timestampNs, sourceTimestampNs, hstored⟩ := hreg.stored
  rw [hstored]
  rfl

/-! ### The failed insertion behind it -/

theorem indexRegistered_ok {h : IndurtdbH} {left : Others} {partition : UInt32} {id : Nat}
    {name : CStr} {type access : Int} {seg : Segment}
    (hinsert : (sectionAmong (fun seg => irtIndexInsertLocked h.shm seg partition name id) 1 left
      seg).1 = some .ok) :
    (indexRegistered h left partition id name type access seg).1 = .ok := by
  unfold indexRegistered
  generalize sectionAmong _ 1 left seg = inserted at hinsert ⊢
  obtain ⟨outcome, seg₂, left₂⟩ := inserted
  cases hinsert
  rfl

theorem indexRegistered_failed {h : IndurtdbH} {left : Others} {partition : UInt32} {id : Nat}
    {name : CStr} (type access : Int) {seg : Segment}
    (hinsert : (sectionAmong (fun seg => irtIndexInsertLocked h.shm seg partition name id) 1 left
      seg).1 ≠ some .ok) :
    (indexRegistered h left partition id name type access seg).1 ≠ .ok ∧
      (indexRegistered h left partition id name type access seg).2.seg =
        (sectionAmong (fun seg => unregisterLocked seg id) irtSeqlockMaxRetry
          (sectionAmong (fun seg => irtIndexInsertLocked h.shm seg partition name id) 1 left
            seg).2.2
          (sectionAmong (fun seg => irtIndexInsertLocked h.shm seg partition name id) 1 left
            seg).2.1).2.1 := by
  unfold indexRegistered
  generalize sectionAmong _ 1 left seg = inserted at hinsert ⊢
  obtain ⟨outcome, seg₂, left₂⟩ := inserted
  cases outcome with
  | none => exact ⟨nofun, rfl⟩
  | some rc =>
      cases rc with
      | ok => exact absurd rfl hinsert
      | _ => exact ⟨nofun, rfl⟩

/-- After a registration and an insertion that fails, the call leaves what it found exactly
when that is restored. -/
theorem failed_restores_iff {h : IndurtdbH} {others left : Others} {partition : UInt32}
    {id : Nat} {name : CStr} {type access : Int} {seg : Segment}
    (hreg : RegisteredFrom h others partition id name type access seg left)
    {inserted : Option Rc × Segment × Others} (hsub : inserted.2.2 ⊆ others)
    (honly : OnlyOthers others seg inserted.2.1) :
    OnlyOthers others h.seg (sectionAmong (fun seg => unregisterLocked seg id)
        irtSeqlockMaxRetry inserted.2.2 inserted.2.1).2.1 ↔
      Restored h others partition id name type access inserted.2.2 inserted.2.1 := by
  have hoverwritten : ∀ {α : Type} {field : IndurtdbPoint → α}, Overwritten field →
      LeftAlone others (fun seg => field (seg.points id)) →
      field ((sectionAmong (fun seg => unregisterLocked seg id) irtSeqlockMaxRetry inserted.2.2
        inserted.2.1).2.1.points id) = field (recordRegistered partition name type access) := by
    intro α field hfield hleft
    have hrolled : field ((sectionAmong (fun seg => unregisterLocked seg id) irtSeqlockMaxRetry
        inserted.2.2 inserted.2.1).2.1.points id) = field (inserted.2.1.points id) := by
      apply rollback_kept (.point id hfield.pointField) (hleft.mono hsub)
      intro seg name
      simp only [Segment.setPoint_points, Function.update_self]
      cases hfield with
      | _ => rfl
    exact (hrolled.trans (honly.kept _ (.point id hfield.pointField) hleft)).trans
      (hreg.overwritten hfield)
  constructor
  · intro hcall
    refine ⟨fun field hfield hleft => ?_, fun hleft hheld => ?_⟩
    · exact (hoverwritten hfield hleft).symm.trans
        (hcall.kept _ (.point id hfield.pointField) hleft)
    · -- the name stays registered
      have hname := (rollback_name (hleft.mono hsub)).1 hheld
      have hregistered := honly.kept _ (.point id .name) hleft
      have hrestored := hcall.kept _ (.point id .name) hleft
      have hempty : name.strncpy nameMax = CStr.empty :=
        hreg.name.symm.trans (hregistered.symm.trans (hname.symm.trans
          (hrestored.trans (hreg.unnamed hleft))))
      have hstored : (name.strncpy nameMax).isEmpty = false := by
        rw [CStr.strncpy_isEmpty (by decide), CStr.isEmpty_eq_false_iff]
        exact hreg.named
      exact CStr.isEmpty_eq_false_iff.mp hstored hempty
  · intro hrestored
    refine ⟨fun get htracked hleft => ?_⟩
    cases htracked.seen id with
    | apart hblind =>
        have hrolled : get (sectionAmong (fun seg => unregisterLocked seg id) irtSeqlockMaxRetry
            inserted.2.2 inserted.2.1).2.1 = get inserted.2.1 :=
          rollback_kept htracked (hleft.mono hsub) fun seg name => hblind seg _ rfl rfl
        exact (hrolled.trans (honly.kept get htracked hleft)).trans
          (hreg.apart get htracked hleft hblind)
    | overwritten hfield =>
        exact (hoverwritten hfield hleft).trans (hrestored.overwritten _ hfield hleft)
    | name =>
        have hname := (rollback_name (hleft.mono hsub)).2 (hrestored.named hleft)
        exact hname.trans (hreg.unnamed hleft).symm

theorem create_atomic_iff (others : Others) (h : IndurtdbH) (partition : UInt32) (id : Nat)
    (name : CStr) (type access : Int) :
    AtomicOnError others h (createPointInAmong h others partition id name type access) ↔
      CreateMet h others partition id name type access := by
  have hends := registerAmong_ends h others partition id name type access
  unfold createPointInAmong CreateMet
  generalize registerAmong h others partition id name type access = registered at hends ⊢
  cases registered with
  | error ended => exact ⟨nofun, fun _ _ => hends.2⟩
  | ok done =>
      obtain ⟨seg, left⟩ := done
      have hreg : RegisteredFrom h others partition id name type access seg left := hends
      have hsub := List.Subset.trans (sectionAmong_subset
        (fun seg => irtIndexInsertLocked h.shm seg partition name id) 1 left seg) hreg.subset
      have hpart : (seg.points id).partition = partition := hreg.overwritten .partition
      have hiff := fun hfail => failed_restores_iff hreg hsub
        ((insertion_failed h.shm name hpart hfail).mono hreg.subset)
      constructor
      · rintro hatomic seg left ⟨⟩ inserted hfail
        obtain ⟨hrc, hseg⟩ := indexRegistered_failed type access hfail
        have hcall := hatomic hrc
        rw [hseg] at hcall
        exact (hiff hfail).mp hcall
      · intro hmet hrc
        have hfail : (sectionAmong (fun seg => irtIndexInsertLocked h.shm seg partition name id) 1
            left seg).1 ≠ some .ok := fun hok => hrc (indexRegistered_ok hok)
        rw [(indexRegistered_failed type access hfail).2]
        exact (hiff hfail).mpr (hmet seg left rfl hfail)

/-! ## Every call -/

/-- The calls that change the registry. -/
inductive WriterCall where
  | create (partition : UInt32) (id : Nat) (name : CStr) (type access : Int)
  | delete (partition : UInt32) (id : Nat)
  | rename (partition : UInt32) (id : Nat) (name : CStr)

/-- The call, among others. -/
def WriterCall.among (h : IndurtdbH) (others : Others) : WriterCall → Rc × IndurtdbH
  | .create partition id name type access =>
      createPointInAmong h others partition id name type access
  | .delete partition id => deletePointInAmong h others partition id
  | .rename partition id name => renamePointInAmong h others partition id name

/-- When a call that fails leaves what it found: a deletion and a renaming always. -/
def WriterCall.Met (h : IndurtdbH) (others : Others) : WriterCall → Prop
  | .create partition id name type access => CreateMet h others partition id name type access
  | .delete .. => True
  | .rename .. => True

/-- A call that fails leaves the registry as the others left it exactly when it is not a
creation whose index entry fails and whose rollback restores less than was overwritten. -/
theorem atomicOnError_iff (h : IndurtdbH) (others : Others) (call : WriterCall) :
    AtomicOnError others h (call.among h others) ↔ call.Met h others := by
  cases call with
  | create partition id name type access =>
      exact create_atomic_iff others h partition id name type access
  | delete partition id => exact ⟨fun _ => trivial, fun _ => delete_atomic others h partition id⟩
  | rename partition id name =>
      exact ⟨fun _ => trivial, fun _ => rename_atomic others h partition id name⟩

/-- The name `t`. -/
def letterT : CStr := ⟨[116], by decide⟩

/-- The lock is free for the lookup and for the registration, and then it is held. -/
def heldFromTheInsertion : Others := [id, id, fun seg => seg.setWriteSeq 3]

/-- A point whose index entry finds the lock held stays registered when the rollback finds it
held as well. -/
theorem not_atomicOnError :
    ¬ AtomicOnError heldFromTheInsertion (freshHandle 2 1 7)
      ((WriterCall.create 0 0 letterT 1 3).among (freshHandle 2 1 7) heldFromTheInsertion) := by
  intro hatomic
  have honly := hatomic (by decide +kernel)
  have hleft : LeftAlone heldFromTheInsertion fun seg => (seg.points 0).name := by
    intro f hf seg
    simp only [heldFromTheInsertion, List.mem_cons, List.not_mem_nil, or_false] at hf
    rcases hf with rfl | rfl | rfl
    · rfl
    · rfl
    · rfl
  have hname := honly.kept _ (.point 0 .name) hleft
  revert hname
  decide +kernel

end InduRtdb.Api
