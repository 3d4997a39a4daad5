/-
  Api/Changes.lean --- histories of registry changes and the records they log.

  Source: `src/api/indurtdb.c`.

  The result of a change does not depend on the value of the sequence word, as
  long as nobody is writing.  That is what lets a replay be compared with the
  live run: a renaming to the name a point already has moves the word and leaves
  no record.
-/
import InduRtdb.Api.RegistrySpec

set_option autoImplicit false

namespace InduRtdb.Api

open InduRtdb.Core

/-! ## Changes -/

/-- One changing call on the registry. -/
inductive ChangeOp where
  | create (partition : UInt32) (id : Nat) (name : CStr) (type access : Int)
  | delete (partition : UInt32) (id : Nat)
  | rename (partition : UInt32) (id : Nat) (name : CStr)

namespace ChangeOp

/-- Make the call. -/
def run (h : IndurtdbH) : ChangeOp → Rc × IndurtdbH
  | create partition id name type access =>
      indurtdbHCreatePointIn h partition id name type access
  | delete partition id => indurtdbHDeletePointIn h partition id
  | rename partition id name => indurtdbHRenamePointIn h partition id name

/-- A renaming to the name the point already has. -/
def isNoop (h : IndurtdbH) : ChangeOp → Bool
  | rename _ id name => (h.seg.points id).name.strncmpEq name 64
  | _ => false

/-- A change made in partition 0 with a name that fits its array. -/
def Plain : ChangeOp → Prop
  | create partition _ name _ _ => partition = 0 ∧ name.bytes.length ≤ nameMax
  | delete partition _ => partition = 0
  | rename partition _ name => partition = 0 ∧ name.bytes.length ≤ nameMax

instance (op : ChangeOp) : Decidable op.Plain :=
  match op with
  | create _ _ _ _ _ => inferInstanceAs (Decidable (_ ∧ _))
  | delete _ _ => inferInstanceAs (Decidable (_ = _))
  | rename _ _ _ => inferInstanceAs (Decidable (_ ∧ _))

end ChangeOp

/-- A history all of whose calls succeed. -/
def runChanges (h : IndurtdbH) : List ChangeOp → Option IndurtdbH
  | [] => some h
  | op :: ops =>
      match op.run h with
      | (.ok, h) => runChanges h ops
      | _ => none

/-- The calls of a history that change something. -/
def loggedOps (h : IndurtdbH) : List ChangeOp → List ChangeOp
  | [] => []
  | op :: ops =>
      if op.isNoop h then loggedOps (op.run h).2 ops else op :: loggedOps (op.run h).2 ops

/-! ## The sequence word does not matter -/

/-- The body reads and writes everything but the sequence word. -/
def SeqBlind {α : Type} (body : Segment → α × Segment) : Prop :=
  ∀ seg w, body (seg.setWriteSeq w) = ((body seg).1, (body seg).2.setWriteSeq w)

theorem withWriteLock_blind {body : Segment → Rc × Segment} (hbody : SeqBlind body)
    (seg : Segment) {w : Nat} (hw : w % 2 = 0) :
    withWriteLock (seg.setWriteSeq w) body =
      ((body seg).1, (body seg).2.setWriteSeq (irtSeqlockWriteEnd w)) := by
  have heven : (seg.setWriteSeq w).hdr.writeSeq % 2 = 0 := hw
  rw [withWriteLock_of_even heven]
  change ((body (seg.setWriteSeq (u64 (w + 1)))).1,
    (body (seg.setWriteSeq (u64 (w + 1)))).2.setWriteSeq _) = _
  rw [hbody]
  rfl

theorem SeqBlind.ite {α : Type} {c : Segment → Prop} [∀ seg, Decidable (c seg)]
    {a b : Segment → α × Segment} (hc : ∀ seg w, c (seg.setWriteSeq w) ↔ c seg) (ha : SeqBlind a)
    (hb : SeqBlind b) : SeqBlind fun seg => if c seg then a seg else b seg := by
  intro seg w
  dsimp only
  by_cases h : c seg
  · rw [if_pos ((hc seg w).mpr h), if_pos h]
    exact ha seg w
  · rw [if_neg (fun h' => h ((hc seg w).mp h')), if_neg h]
    exact hb seg w

theorem irtIndexInsertLocked_blind (s : IrtShm) (partition : UInt32) (name : CStr) (id : Nat) :
    SeqBlind fun seg => irtIndexInsertLocked s seg partition name id := by
  intro seg w
  have hbind : irtIndexBind s (seg.setWriteSeq w).hdr = irtIndexBind s seg.hdr := rfl
  have hoff : (seg.setWriteSeq w).hdr.offPoints = seg.hdr.offPoints := rfl
  have hloop : ∀ (ix : IrtIndex) (p : IndurtdbPoint) (hash : UInt32) (n d : Nat) (t : Option Nat),
      irtIndexInsertLoop ix ((seg.setWriteSeq w).setPoint id p) hash partition name n d t =
        irtIndexInsertLoop ix (seg.setPoint id p) hash partition name n d t := by
    intro ix p hash n d t
    rw [irtIndexInsertLoop_eq_place, irtIndexInsertLoop_eq_place]
    rfl
  simp only [irtIndexInsertLocked, hbind, hoff, Segment.setWriteSeq_points, hloop]
  split
  · rfl
  · split
    · rfl
    · split
      · rfl
      · split <;> rfl

theorem irtIndexRemoveLocked_blind (s : IrtShm) (partition : UInt32) (name : CStr) :
    SeqBlind fun seg => irtIndexRemoveLocked s seg partition name := by
  intro seg w
  have hbind : irtIndexBind s (seg.setWriteSeq w).hdr = irtIndexBind s seg.hdr := rfl
  have hoff : (seg.setWriteSeq w).hdr.offPoints = seg.hdr.offPoints := rfl
  have hloop : ∀ (ix : IrtIndex) (hash : UInt32) (n d : Nat),
      irtIndexProbeLoop ix (seg.setWriteSeq w) hash partition name n d =
        irtIndexProbeLoop ix seg hash partition name n d := by
    intro ix hash n d
    rw [irtIndexProbeLoop_eq_find, irtIndexProbeLoop_eq_find]
    rfl
  simp only [irtIndexRemoveLocked, hbind, hoff, hloop]
  split
  · rfl
  · split
    · rfl
    · split
      · rfl
      · split <;> rfl

theorem irtIndexLookup_blind (s : IrtShm) (seg : Segment) (partition : UInt32) (name : CStr)
    {w w' : Nat} (hw : w % 2 = 0) (hw' : w' % 2 = 0) :
    irtIndexLookup s (seg.setWriteSeq w) partition name =
      irtIndexLookup s (seg.setWriteSeq w') partition name := by
  have hattempts : ∀ (ix : IrtIndex) (v : Nat), v % 2 = 0 →
      irtIndexLookupAttempts ix (seg.setWriteSeq v) partition name irtIndexMaxRetry =
        irtIndexProbe ix (seg.setWriteSeq v) partition name := by
    intro ix v hv
    have hnot : ¬ (seg.setWriteSeq v).hdr.writeSeq % 2 = 1 := by
      rw [Segment.setWriteSeq_writeSeq]
      omega
    rw [irtIndexLookupAttempts, if_neg hnot]
  have hprobe : ∀ (ix : IrtIndex) (v : Nat),
      irtIndexProbe ix (seg.setWriteSeq v) partition name = irtIndexProbe ix seg partition name := by
    intro ix v
    unfold irtIndexProbe
    rw [irtIndexProbeLoop_eq_find, irtIndexProbeLoop_eq_find]
    rfl
  have hbind : ∀ v, irtIndexBind s (seg.setWriteSeq v).hdr = irtIndexBind s seg.hdr := fun _ => rfl
  have hoff : ∀ v, (seg.setWriteSeq v).hdr.offPoints = seg.hdr.offPoints := fun _ => rfl
  simp only [irtIndexLookup, hbind, hoff, hattempts _ w hw, hattempts _ w' hw', hprobe]

/-! ## One change

Every change has one outcome for all even values of the sequence word: a code, a
segment up to that word, and a record if it changed something. -/

/-- The file of a handle after a record has been logged, or not. -/
def appendRec (delta : Option (List UInt8)) : Option IrtDeltaRec → Option (List UInt8)
  | none => delta
  | some rec => delta.map (· ++ rec.toBytes)

/-- The outcome `rc, seg', rec` of a call on the tables of `seg`. -/
def Outcome (call : IndurtdbH → Rc × IndurtdbH) (s : IrtShm) (seg : Segment) (rc : Rc)
    (seg' : Segment) (rec : Option IrtDeltaRec) : Prop :=
  ∀ (w : Nat) (delta : Option (List UInt8)), w % 2 = 0 → ∃ w', w' % 2 = 0 ∧
    call ⟨s, seg.setWriteSeq w, delta⟩ = (rc, ⟨s, seg'.setWriteSeq w', appendRec delta rec⟩)

theorem deltaRec_toBytes_length (op id : Nat) (type access : UInt8) (name : CStr) :
    (deltaRec op id type access name).toBytes.length = sizeofDeltaRec :=
  IrtDeltaRec.length_toBytes (CStr.length_strncpy_le name nameMax)

theorem deltaLog_eq (s : IrtShm) (seg : Segment) (delta : Option (List UInt8)) (op id : Nat)
    (type access : UInt8) (name : CStr) :
    deltaLog ⟨s, seg, delta⟩ op id type access name =
      ⟨s, seg, appendRec delta (some (deltaRec op id type access name))⟩ := by
  cases delta with
  | none => rfl
  | some file =>
      have hlen := deltaRec_toBytes_length op id type access name
      simp only [deltaLog, irtDeltaAppend, ← hlen, List.take_length]
      rfl

/-- A call that leaves the tables and the log alone. -/
theorem Outcome.unchanged {call : IndurtdbH → Rc × IndurtdbH} {s : IrtShm} {seg : Segment}
    {rc : Rc} (h : ∀ w delta, w % 2 = 0 →
      call ⟨s, seg.setWriteSeq w, delta⟩ = (rc, ⟨s, seg.setWriteSeq w, delta⟩)) :
    Outcome call s seg rc seg none :=
  fun w delta hw => ⟨w, hw, h w delta hw⟩

section Outcomes

variable (s : IrtShm) (seg : Segment) (partition : UInt32) (id : Nat)

theorem nameTaken_blind (name : CStr) {w w' : Nat} (hw : w % 2 = 0) (hw' : w' % 2 = 0)
    (delta delta' : Option (List UInt8)) :
    nameTaken ⟨s, seg.setWriteSeq w, delta⟩ partition name id =
      nameTaken ⟨s, seg.setWriteSeq w', delta'⟩ partition name id := by
  unfold nameTaken
  rw [irtIndexLookup_blind s seg partition name hw hw']

/-- What a creation that succeeded tells about its arguments and its record. -/
def CreateLogs (s : IrtShm) (id : Nat) (name : CStr) (type access : Int)
    (rec : Option IrtDeltaRec) : Prop :=
  WellFormed type access ∧ id < s.maxPoints ∧
    rec = some (deltaRec irtDeltaOpCreate id (.ofNat type.toNat) (.ofNat access.toNat) name)

theorem registerLocked_blind (name : CStr) (type access : UInt8) :
    SeqBlind fun seg => registerLocked seg partition id name type access :=
  SeqBlind.ite (fun _ _ => Iff.rfl) (fun _ _ => rfl) fun _ _ => rfl

theorem create_outcome (name : CStr) (type access : Int) :
    ∃ rc seg' rec, Outcome (indurtdbHCreatePointIn · partition id name type access) s seg rc seg'
        rec ∧
      (rc = .ok → CreateLogs s id name type access rec) := by
  have hrefused : ∀ rc seg', rc ≠ .ok →
      Outcome (indurtdbHCreatePointIn · partition id name type access) s seg rc seg' none →
      ∃ rc seg' rec, Outcome (indurtdbHCreatePointIn · partition id name type access) s seg rc
          seg' rec ∧ (rc = .ok → CreateLogs s id name type access rec) :=
    fun rc seg' hrc h => ⟨rc, seg', none, h, fun hok => absurd hok hrc⟩
  by_cases hempty : name.isEmpty = true
  · refine hrefused .errArg seg (by decide) (Outcome.unchanged fun w delta _ => ?_)
    rw [indurtdbHCreatePointIn, if_pos hempty]
  by_cases htype : type < 0 ∨ (indurtdbTypeFloat : Int) < type
  · refine hrefused .errArg seg (by decide) (Outcome.unchanged fun w delta _ => ?_)
    rw [indurtdbHCreatePointIn, if_neg hempty, if_pos htype]
  by_cases haccess : access ≠ indurtdbAccessReadOnly.toNat ∧
      access ≠ indurtdbAccessReadWrite.toNat
  · refine hrefused .errArg seg (by decide) (Outcome.unchanged fun w delta _ => ?_)
    rw [indurtdbHCreatePointIn, if_neg hempty, if_neg htype, if_pos haccess]
  by_cases hid : s.maxPoints ≤ id
  · refine hrefused .errArg seg (by decide) (Outcome.unchanged fun w delta _ => ?_)
    rw [indurtdbHCreatePointIn, if_neg hempty, if_neg htype, if_neg haccess, if_pos hid]
  by_cases htaken : nameTaken ⟨s, seg.setWriteSeq 0, none⟩ partition name id = true
  · refine hrefused .errArg seg (by decide) (Outcome.unchanged fun w delta hw => ?_)
    rw [indurtdbHCreatePointIn, if_neg hempty, if_neg htype, if_neg haccess, if_neg hid,
      nameTaken_blind s seg partition id name hw (Nat.zero_mod 2) delta none, if_pos htaken]
  -- past the guards the call depends on the tables only
  have hbody := registerLocked_blind partition id name (.ofNat type.toNat) (.ofNat access.toNat)
  have hwf : WellFormed type access := by
    refine ⟨by omega, ?_⟩
    by_contra hboth
    exact haccess (not_or.mp hboth)
  by_cases hfree : (seg.points id).name.isEmpty = true
  · obtain ⟨reg, hreg⟩ : ∃ reg, reg =
        hPointRegister seg partition id name (.ofNat type.toNat) (.ofNat access.toNat) := ⟨_, rfl⟩
    have hinsert := irtIndexInsertLocked_blind s partition name id
    cases hins : irtIndexInsertLocked s reg partition name id with
    | mk rc seg' =>
        by_cases hrc : rc = .ok
        · subst hrc
          refine ⟨.ok, seg', some (deltaRec irtDeltaOpCreate id (.ofNat type.toNat)
            (.ofNat access.toNat) name), ?_, fun _ => ⟨hwf, by omega, rfl⟩⟩
          intro w delta hw
          have hend := irtSeqlockWriteEnd_even hw
          refine ⟨_, irtSeqlockWriteEnd_even hend, ?_⟩
          dsimp only
          rw [indurtdbHCreatePointIn, if_neg hempty, if_neg htype, if_neg haccess, if_neg hid,
            nameTaken_blind s seg partition id name hw (Nat.zero_mod 2) delta none,
            if_neg htaken, withWriteLock_blind hbody seg hw]
          simp only [registerLocked, if_pos hfree, ← hreg, irtIndexInsert,
            withWriteLock_blind hinsert reg hend, hins, deltaLog_eq]
        · refine hrefused rc (seg'.setPoint id { seg'.points id with name := CStr.empty }) hrc ?_
          intro w delta hw
          have hend := irtSeqlockWriteEnd_even hw
          have hend' := irtSeqlockWriteEnd_even hend
          refine ⟨_, irtSeqlockWriteEnd_even hend', ?_⟩
          have hclear : SeqBlind fun seg : Segment =>
              (Rc.ok, seg.setPoint id { seg.points id with name := CStr.empty }) :=
            fun _ _ => rfl
          dsimp only
          rw [indurtdbHCreatePointIn, if_neg hempty, if_neg htype, if_neg haccess, if_neg hid,
            nameTaken_blind s seg partition id name hw (Nat.zero_mod 2) delta none,
            if_neg htaken, withWriteLock_blind hbody seg hw]
          simp only [registerLocked, if_pos hfree, ← hreg, irtIndexInsert,
            withWriteLock_blind hinsert reg hend, hins]
          simp only [unregister, withWriteLock_blind hclear seg' hend']
          cases rc <;> rfl
  · refine hrefused .errFull seg (by decide) ?_
    intro w delta hw
    refine ⟨_, irtSeqlockWriteEnd_even hw, ?_⟩
    dsimp only
    rw [indurtdbHCreatePointIn, if_neg hempty, if_neg htype, if_neg haccess, if_neg hid,
      nameTaken_blind s seg partition id name hw (Nat.zero_mod 2) delta none, if_neg htaken,
      withWriteLock_blind hbody seg hw]
    simp only [registerLocked, if_neg hfree]
    rfl

theorem deleteLocked_blind : SeqBlind fun seg => deleteLocked s seg partition id := by
  refine SeqBlind.ite (fun _ _ => Iff.rfl) (fun _ _ => rfl) ?_
  refine SeqBlind.ite (fun _ _ => Iff.rfl) (fun _ _ => rfl) fun seg w => ?_
  have hremove := irtIndexRemoveLocked_blind s (seg.points id).partition (seg.points id).name seg w
  dsimp only at hremove
  simp only [Segment.setWriteSeq_points, hremove]
  rfl

/-- What a deletion does, for what its part under the lock gives. -/
theorem delete_call (hid : ¬ s.maxPoints ≤ id) {rc : Rc} {seg' : Segment}
    (hres : deleteLocked s seg partition id = (rc, seg')) {w : Nat} (hw : w % 2 = 0)
    (delta : Option (List UInt8)) :
    indurtdbHDeletePointIn ⟨s, seg.setWriteSeq w, delta⟩ partition id =
      match (rc, seg'.setWriteSeq (irtSeqlockWriteEnd w)) with
      | (.ok, seg) => (.ok, deltaLog ⟨s, seg, delta⟩ irtDeltaOpDelete id 0 0 CStr.empty)
      | (rc, seg) => (rc, ⟨s, seg, delta⟩) := by
  rewrite [indurtdbHDeletePointIn, if_neg hid,
    withWriteLock_blind (deleteLocked_blind s partition id) seg hw, hres]
  rfl

theorem delete_outcome :
    ∃ rc seg' rec, Outcome (indurtdbHDeletePointIn · partition id) s seg rc seg' rec ∧
      (rc = .ok → id < s.maxPoints ∧
        rec = some (deltaRec irtDeltaOpDelete id 0 0 CStr.empty)) := by
  by_cases hid : s.maxPoints ≤ id
  · refine ⟨.errArg, seg, none, Outcome.unchanged fun w delta _ => ?_, fun h => by cases h⟩
    rw [indurtdbHDeletePointIn, if_pos hid]
  cases hres : deleteLocked s seg partition id with
  | mk rc seg' =>
      by_cases hrc : rc = .ok
      · subst hrc
        refine ⟨.ok, seg', some (deltaRec irtDeltaOpDelete id 0 0 CStr.empty), ?_,
          fun _ => ⟨by omega, rfl⟩⟩
        intro w delta hw
        refine ⟨_, irtSeqlockWriteEnd_even hw, ?_⟩
        dsimp only
        rw [delete_call s seg partition id hid hres hw]
        simp only [deltaLog_eq]
      · refine ⟨rc, seg', none, ?_, fun hok => absurd hok hrc⟩
        intro w delta hw
        refine ⟨_, irtSeqlockWriteEnd_even hw, ?_⟩
        dsimp only
        rw [delete_call s seg partition id hid hres hw]
        cases rc <;> first | rfl | exact absurd rfl hrc

theorem renameLocked_blind (name : CStr) :
    SeqBlind fun seg => renameLocked s seg partition id name := by
  intro seg w
  have hinsert := irtIndexInsertLocked_blind s partition name id seg w
  dsimp only at hinsert
  simp only [renameLocked, Segment.setWriteSeq_points, hinsert]
  split
  · rfl
  · split
    · rfl
    · cases hins : irtIndexInsertLocked s seg partition name id with
      | mk rc seg' =>
          have hremove := irtIndexRemoveLocked_blind s partition (seg'.points id).name seg' w
          dsimp only at hremove
          cases rc with
          | ok =>
              simp only [Segment.setWriteSeq_points, hremove]
              rfl
          | _ => rfl

/-- What the locked part of a renaming can do. -/
theorem renameLocked_cases (name : CStr) :
    (∃ rc, rc ≠ .ok ∧ (renameLocked s seg partition id name).1 = .failed rc) ∨
      (renameLocked s seg partition id name = (.same, seg) ∧
        (seg.points id).name.strncmpEq name 64 = true) ∨
      ((renameLocked s seg partition id name).1 = .changed ∧
        ¬ (seg.points id).name.strncmpEq name 64 = true) := by
  unfold renameLocked
  split
  · exact Or.inl ⟨_, by decide, rfl⟩
  · split
    · rename_i hsame
      exact Or.inr (Or.inl ⟨rfl, hsame⟩)
    · rename_i hsame
      split
      · exact Or.inr (Or.inr ⟨rfl, hsame⟩)
      · exact Or.inl ⟨_, by decide, rfl⟩

/-- What a renaming does, for what its part under the lock gives. -/
theorem rename_call (name : CStr) (hempty : ¬ name.isEmpty = true) (hid : ¬ s.maxPoints ≤ id)
    (htaken : ¬ nameTaken ⟨s, seg.setWriteSeq 0, none⟩ partition name id = true) {done : Renamed}
    {seg' : Segment} (hres : renameLocked s seg partition id name = (done, seg')) {w : Nat}
    (hw : w % 2 = 0) (delta : Option (List UInt8)) :
    indurtdbHRenamePointIn ⟨s, seg.setWriteSeq w, delta⟩ partition id name =
      match done with
      | .failed rc => (rc, ⟨s, seg'.setWriteSeq (irtSeqlockWriteEnd w), delta⟩)
      | .same => (.ok, ⟨s, seg'.setWriteSeq (irtSeqlockWriteEnd w), delta⟩)
      | .changed => (.ok, deltaLog ⟨s, seg'.setWriteSeq (irtSeqlockWriteEnd w), delta⟩
          irtDeltaOpRename id (seg'.points id).type (seg'.points id).access name) := by
  have hnot : ¬ w % 2 = 1 := by omega
  have hlocked := renameLocked_blind s partition id name seg (u64 (w + 1))
  dsimp only at hlocked
  rw [hres] at hlocked
  rw [indurtdbHRenamePointIn, if_neg hempty, if_neg hid,
    nameTaken_blind s seg partition id name hw (Nat.zero_mod 2) delta none, if_neg htaken]
  have hbegin : irtSeqlockWriteBegin w = (w, u64 (w + 1)) := if_pos hw
  have hset : (seg.setWriteSeq w).setWriteSeq (u64 (w + 1)) = seg.setWriteSeq (u64 (w + 1)) := rfl
  simp only [Segment.setWriteSeq_writeSeq, hbegin, if_neg hnot, hset, hlocked]
  cases done <;> rfl

theorem rename_outcome (name : CStr) :
    ∃ rc seg' rec, Outcome (indurtdbHRenamePointIn · partition id name) s seg rc seg' rec ∧
      (rc = .ok → id < s.maxPoints ∧
        ((seg.points id).name.strncmpEq name 64 = true → seg' = seg ∧ rec = none) ∧
        (¬ (seg.points id).name.strncmpEq name 64 = true →
          ∃ type access, rec = some (deltaRec irtDeltaOpRename id type access name))) := by
  by_cases hempty : name.isEmpty = true
  · refine ⟨.errArg, seg, none, Outcome.unchanged fun w delta _ => ?_, fun h => by cases h⟩
    rw [indurtdbHRenamePointIn, if_pos hempty]
  by_cases hid : s.maxPoints ≤ id
  · refine ⟨.errArg, seg, none, Outcome.unchanged fun w delta _ => ?_, fun h => by cases h⟩
    rw [indurtdbHRenamePointIn, if_neg hempty, if_pos hid]
  by_cases htaken : nameTaken ⟨s, seg.setWriteSeq 0, none⟩ partition name id = true
  · refine ⟨.errArg, seg, none, Outcome.unchanged fun w delta hw => ?_, fun h => by cases h⟩
    rw [indurtdbHRenamePointIn, if_neg hempty, if_neg hid,
      nameTaken_blind s seg partition id name hw (Nat.zero_mod 2) delta none, if_pos htaken]
  cases hres : renameLocked s seg partition id name with
  | mk done seg' =>
      rcases renameLocked_cases s seg partition id name with
        ⟨rc, hrc, hdone⟩ | ⟨hsame, hname⟩ | ⟨hdone, hname⟩
      · obtain rfl : done = .failed rc := by rw [hres] at hdone; exact hdone
        refine ⟨rc, seg', none, ?_, fun hok => absurd hok hrc⟩
        intro w delta hw
        exact ⟨_, irtSeqlockWriteEnd_even hw, rename_call s _ partition id name hempty hid htaken hres hw delta⟩
      · obtain ⟨rfl, rfl⟩ : done = .same ∧ seg' = seg := by
          rw [hres] at hsame
          exact Prod.mk.inj hsame
        refine ⟨.ok, seg', none, ?_, fun _ => ⟨by omega, fun _ => ⟨rfl, rfl⟩,
          fun hne => absurd hname hne⟩⟩
        intro w delta hw
        exact ⟨_, irtSeqlockWriteEnd_even hw, rename_call s _ partition id name hempty hid htaken hres hw delta⟩
      · obtain rfl : done = .changed := by rw [hres] at hdone; exact hdone
        refine ⟨.ok, seg', some (deltaRec irtDeltaOpRename id (seg'.points id).type
          (seg'.points id).access name), ?_, fun _ => ⟨by omega, fun heq => absurd heq hname,
          fun _ => ⟨_, _, rfl⟩⟩⟩
        intro w delta hw
        refine ⟨_, irtSeqlockWriteEnd_even hw, (rename_call s _ partition id name hempty hid htaken hres hw delta).trans ?_⟩
        rw [deltaLog_eq]

end Outcomes

/-! ## Records and replays -/

/-- Replaying the record does what the call did. -/
structure Records (op : ChangeOp) (rec : IrtDeltaRec) : Prop where
  fits : rec.Fits
  recognised : rec.Recognised
  apply : ∀ h, deltaApply rec h = (true, (op.run h).2)

/-- A record `delta_log` builds for a recognised operation fits the file. -/
theorem deltaRec_fits {op id : Nat} (hop : op < 2 ^ 16) (hid : id < 2 ^ 32) (type access : UInt8)
    (name : CStr) : (deltaRec op id type access name).Fits where
  magic := by simp [deltaRec, irtDeltaMagic]
  version := by simp [deltaRec, irtDeltaVersion]
  op := hop
  pointId := hid
  name := CStr.length_strncpy_le name nameMax

theorem records_create {s : IrtShm} {id : Nat} {name : CStr} {type access : Int}
    {rec : Option IrtDeltaRec} (hsize : s.maxPoints ≤ 2 ^ 32)
    (hlogs : CreateLogs s id name type access rec) (hname : name.bytes.length ≤ nameMax) :
    ∃ r, rec = some r ∧ Records (.create 0 id name type access) r := by
  obtain ⟨⟨htype, haccess⟩, hid, hrec⟩ := hlogs
  refine ⟨_, hrec, ⟨deltaRec_fits (by decide) (by omega) _ _ _, ⟨rfl, rfl, Or.inl rfl⟩, ?_⟩⟩
  have htype' : (((UInt8.ofNat type.toNat).toNat : Nat) : Int) = type := by
    simp only [indurtdbTypeFloat] at htype
    rw [UInt8.toNat_ofNat', Nat.mod_eq_of_lt] <;> omega
  have haccess' : (((UInt8.ofNat access.toNat).toNat : Nat) : Int) = access := by
    rcases haccess with rfl | rfl <;> rfl
  intro h
  simp only [deltaApply, deltaRec, if_pos, CStr.strncpy_of_length_le hname, htype', haccess',
    ChangeOp.run]

theorem records_delete {s : IrtShm} {id : Nat} (hsize : s.maxPoints ≤ 2 ^ 32)
    (hid : id < s.maxPoints) :
    Records (.delete 0 id) (deltaRec irtDeltaOpDelete id 0 0 CStr.empty) where
  fits := deltaRec_fits (by decide) (by omega) _ _ _
  recognised := ⟨rfl, rfl, Or.inr (Or.inl rfl)⟩
  apply _ := rfl

theorem records_rename {s : IrtShm} {id : Nat} {name : CStr} {type access : UInt8}
    (hsize : s.maxPoints ≤ 2 ^ 32) (hid : id < s.maxPoints)
    (hname : name.bytes.length ≤ nameMax) :
    Records (.rename 0 id name) (deltaRec irtDeltaOpRename id type access name) where
  fits := deltaRec_fits (by decide) (by omega) _ _ _
  recognised := ⟨rfl, rfl, Or.inr (Or.inr rfl)⟩
  apply h := by
    have hcreate : irtDeltaOpRename ≠ irtDeltaOpCreate := by decide
    have hdelete : irtDeltaOpRename ≠ irtDeltaOpDelete := by decide
    simp only [deltaApply, deltaRec, if_neg hcreate, if_neg hdelete, if_pos,
      CStr.strncpy_of_length_le hname, ChangeOp.run]

/-- The outcome of a change that is replayed as it was made. -/
theorem ChangeOp.outcome {s : IrtShm} (seg : Segment) {op : ChangeOp} (hplain : op.Plain)
    (hsize : s.maxPoints ≤ 2 ^ 32) :
    ∃ rc seg' rec, Outcome (op.run ·) s seg rc seg' rec ∧
      (rc = .ok → ∀ w delta,
        (op.isNoop ⟨s, seg.setWriteSeq w, delta⟩ = true → seg' = seg ∧ rec = none) ∧
        (op.isNoop ⟨s, seg.setWriteSeq w, delta⟩ = false → ∃ r, rec = some r ∧ Records op r)) := by
  cases op with
  | create partition id name type access =>
      obtain ⟨rfl, hname⟩ := hplain
      obtain ⟨rc, seg', rec, hout, hlogs⟩ := create_outcome s seg 0 id name type access
      exact ⟨rc, seg', rec, hout, fun hok w delta =>
        ⟨fun h => absurd h Bool.false_ne_true, fun _ => records_create hsize (hlogs hok) hname⟩⟩
  | delete partition id =>
      obtain rfl : partition = 0 := hplain
      obtain ⟨rc, seg', rec, hout, hlogs⟩ := delete_outcome s seg 0 id
      refine ⟨rc, seg', rec, hout, fun hok w delta =>
        ⟨fun h => absurd h Bool.false_ne_true, fun _ => ?_⟩⟩
      obtain ⟨hid, hrec⟩ := hlogs hok
      exact ⟨_, hrec, records_delete hsize hid⟩
  | rename partition id name =>
      obtain ⟨rfl, hname⟩ := hplain
      obtain ⟨rc, seg', rec, hout, hlogs⟩ := rename_outcome s seg 0 id name
      refine ⟨rc, seg', rec, hout, fun hok w delta => ?_⟩
      obtain ⟨hid, hnoop, hlog⟩ := hlogs hok
      refine ⟨hnoop, fun hdiff => ?_⟩
      obtain ⟨type, access, hrec⟩ := hlog (Bool.eq_false_iff.mp hdiff)
      exact ⟨_, hrec, records_rename hsize hid hname⟩

/-- Make calls whatever they answer, as a replay does. -/
def replayOps (h : IndurtdbH) (ops : List ChangeOp) : IndurtdbH :=
  ops.foldl (fun h op => (op.run h).2) h

/-- A replay of the records of some calls makes these calls. -/
theorem indurtdbHDeltaReplay_records {ops : List ChangeOp} {recs : List IrtDeltaRec}
    (hrecs : List.Forall₂ Records ops recs) (h : IndurtdbH) :
    indurtdbHDeltaReplay h (recs.flatMap IrtDeltaRec.toBytes) =
      (recs.length, { replayOps { h with delta := none } ops with delta := h.delta }) := by
  have hreplay : ∀ h : IndurtdbH,
      irtDeltaReplay deltaApply (recs.flatMap IrtDeltaRec.toBytes) h =
        (recs.length, replayOps h ops) := by
    induction hrecs with
    | nil => exact fun h => irtDeltaReplay_short (by decide)
    | cons hrec _ ih =>
        intro h
        rw [List.flatMap_cons, irtDeltaReplay_cons hrec.fits hrec.recognised (hrec.apply h), ih]
        rfl
  simp only [indurtdbHDeltaReplay, hreplay]

/-- What a successful history leaves in the log, and that making the logged
calls again from the same tables leads to the same tables. -/
theorem runChanges_logged {s : IrtShm} (hsize : s.maxPoints ≤ 2 ^ 32) :
    ∀ (ops : List ChangeOp) (seg : Segment) (w : Nat) (file : List UInt8) (live : IndurtdbH),
      w % 2 = 0 → (∀ op ∈ ops, op.Plain) →
      runChanges ⟨s, seg.setWriteSeq w, some file⟩ ops = some live →
      ∃ (seg' : Segment) (w' : Nat) (recs : List IrtDeltaRec), w' % 2 = 0 ∧
        live = ⟨s, seg'.setWriteSeq w', some (file ++ recs.flatMap IrtDeltaRec.toBytes)⟩ ∧
        List.Forall₂ Records (loggedOps ⟨s, seg.setWriteSeq w, some file⟩ ops) recs ∧
        ∀ v, v % 2 = 0 → ∃ v', v' % 2 = 0 ∧
          replayOps ⟨s, seg.setWriteSeq v, none⟩ (loggedOps ⟨s, seg.setWriteSeq w, some file⟩ ops) =
            ⟨s, seg'.setWriteSeq v', none⟩ := by
  intro ops
  induction ops with
  | nil =>
      intro seg w file live hw _ hrun
      obtain rfl := Option.some.inj hrun
      exact ⟨seg, w, [], hw, by simp, .nil, fun v hv => ⟨v, hv, rfl⟩⟩
  | cons op ops ih =>
      intro seg w file live hw hplain hrun
      obtain ⟨rc, seg₁, rec, hout, hlogs⟩ :=
        op.outcome seg (hplain op (List.mem_cons_self ..)) hsize
      obtain ⟨w₁, hw₁, hcall⟩ := hout w (some file) hw
      dsimp only at hcall
      rw [runChanges, hcall] at hrun
      obtain rfl : rc = .ok := by
        cases rc <;> first | rfl | cases hrun
      have hrest := fun op' hop' => hplain op' (List.mem_cons_of_mem _ hop')
      cases hnoop : op.isNoop ⟨s, seg.setWriteSeq w, some file⟩ with
      | true =>
          obtain ⟨rfl, rfl⟩ := (hlogs rfl w (some file)).1 hnoop
          obtain ⟨seg', w', recs, hw', hlive, hrecs, hreplay⟩ :=
            ih seg₁ w₁ file live hw₁ hrest hrun
          rw [loggedOps, if_pos hnoop, hcall]
          exact ⟨seg', w', recs, hw', hlive, hrecs, hreplay⟩
      | false =>
          obtain ⟨r, rfl, hr⟩ := (hlogs rfl w (some file)).2 hnoop
          obtain ⟨seg', w', recs, hw', hlive, hrecs, hreplay⟩ :=
            ih seg₁ w₁ (file ++ r.toBytes) live hw₁ hrest hrun
          rw [loggedOps, if_neg (by rw [hnoop]; decide), hcall]
          refine ⟨seg', w', r :: recs, hw', ?_, .cons hr hrecs, ?_⟩
          · rw [hlive, List.flatMap_cons, List.append_assoc]
          · intro v hv
            obtain ⟨v₁, hv₁, hcallv⟩ := hout v none hv
            dsimp only at hcallv
            obtain ⟨v', hv', heq⟩ := hreplay v₁ hv₁
            refine ⟨v', hv', ?_⟩
            rw [← heq, replayOps, List.foldl_cons, hcallv]
            rfl

end InduRtdb.Api
