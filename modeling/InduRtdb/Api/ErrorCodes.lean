/-
  Api/ErrorCodes.lean --- the code of a call tells contention from absence.

  Source: the calls of `Api/Contended`; the codes are those of `include/indurtdb/indurtdb.h`.

  A retry loop that runs out is to be answered by `INDURTDB_ERR_BUSY`, and each of the
  codes for a missing point, a full table and a read-only point by what the call has seen.
  `indurtdb_h_set_quality` passes on a code of the point manager, and some loops run out
  without being answered for.
-/
import InduRtdb.Api.Contended

set_option autoImplicit false

namespace InduRtdb.Api

open InduRtdb.Core InduRtdb.Lib

/-! ## The law -/

/-- The calls of a handle that take or check the lock word. -/
inductive HandleOp where
  | write (id : Nat) (value : WriteValue) (now : Nat)
  | writeTs (id : Nat) (value : WriteValue) (sourceTsNs now : Nat)
  | writeQualityTs (id : Nat) (type : UInt8) (value : List UInt8) (sourceTsNs : Nat)
      (quality : UInt8) (now : Nat)
  | setQuality (id : Nat) (quality : UInt8)
  | setMeta (id : Nat) (m : IndurtdbMeta)
  | getMeta (id : Nat)
  | findByNameIn (partition : UInt32) (name : CStr)
  | createPointIn (partition : UInt32) (id : Nat) (name : CStr) (type access : Int)
  | deletePointIn (partition : UInt32) (id : Nat)
  | renamePointIn (partition : UInt32) (id : Nat) (name : CStr)
  | loadConfig (parsed : Option (List IrtPointMeta))

/-- The code of a call that hands something out. -/
def codeOf {α : Type} : Except Rc α → Int
  | .ok _ => Rc.ok.code
  | .error rc => rc.code

/-- The call, with its code. -/
def HandleOp.run (c : CallState) : HandleOp → Int × CallState
  | .write id value now => writeAmong id value now c
  | .writeTs id value sourceTsNs now => writeTsAmong id value sourceTsNs now c
  | .writeQualityTs id type value sourceTsNs quality now =>
      writeQualityTsAmong id type value sourceTsNs quality now c
  | .setQuality id quality => setQualityAmong id quality c
  | .setMeta id m => ((setMetaAmong id m c).1.code, (setMetaAmong id m c).2)
  | .getMeta id => (codeOf (getMetaAmong id c).1, (getMetaAmong id c).2)
  | .findByNameIn partition name =>
      (codeOf (findByNameInAmong partition name c).1, (findByNameInAmong partition name c).2)
  | .createPointIn partition id name type access =>
      ((createAmong partition id name type access c).1.code,
        (createAmong partition id name type access c).2)
  | .deletePointIn partition id =>
      ((deleteAmong partition id c).1.code, (deleteAmong partition id c).2)
  | .renamePointIn partition id name =>
      ((renameAmong partition id name c).1.code, (renameAmong partition id name c).2)
  | .loadConfig parsed => ((loadConfigAmong parsed c).1.code, (loadConfigAmong parsed c).2)

/-- No entry of the index that a search for the name comes to is one of the name. -/
def NameAbsent (s : IrtShm) (seg : Segment) (partition : UInt32) (name : CStr) : Prop :=
  ∀ i, SlotReach s.maxPoints seg.slots (irtIndexComposeHash partition name) i →
    irtIndexSlotMatches seg.points (irtIndexComposeHash partition name) partition name
      (seg.slots i) = false

/-- Every slot of the index has an entry. -/
def IndexFull (s : IrtShm) (seg : Segment) : Prop :=
  ∀ i, i < irtLayoutBuckets s.maxPoints → (seg.slots i).Live

/-- What the call asks for is not there. -/
def HandleOp.Absent (s : IrtShm) (seg : Segment) : HandleOp → Prop
  | .write id _ _ => (seg.points id).name.isEmpty = true
  | .writeTs id _ _ _ => (seg.points id).name.isEmpty = true
  | .writeQualityTs id _ _ _ _ _ => (seg.points id).name.isEmpty = true
  | .setQuality id _ => (seg.points id).name.isEmpty = true
  | .setMeta id _ => (seg.points id).name.isEmpty = true
  | .getMeta id => (seg.points id).name.isEmpty = true
  | .findByNameIn partition name => NameAbsent s seg partition name
  | .createPointIn .. => False
  | .deletePointIn partition id =>
      (seg.points id).name.isEmpty = true ∨ (seg.points id).partition ≠ partition
  | .renamePointIn partition id _ =>
      (seg.points id).name.isEmpty = true ∨ (seg.points id).partition ≠ partition
  | .loadConfig _ => False

/-- The id that the call wants to give out is taken. -/
def HandleOp.Taken (seg : Segment) : HandleOp → Prop
  | .createPointIn _ id _ _ _ => (seg.points id).name.isEmpty = false
  | _ => False

/-- The point that the call writes is read-only. -/
def HandleOp.ReadOnly (seg : Segment) : HandleOp → Prop
  | .write id _ _ => (seg.points id).access = indurtdbAccessReadOnly
  | .writeTs id _ _ _ => (seg.points id).access = indurtdbAccessReadOnly
  | .writeQualityTs id _ _ _ _ _ => (seg.points id).access = indurtdbAccessReadOnly
  | _ => False

/-- The code says what the call has met. -/
structure TellsApart (s : IrtShm) (op : HandleOp) (done : Int × CallState) : Prop where
  busy : .gaveUp ∈ done.2.met → done.1 = Rc.errBusy.code
  notFound : done.1 = Rc.errNotFound.code →
    ∃ seg, (.held seg ∈ done.2.met ∨ .read seg ∈ done.2.met) ∧ op.Absent s seg
  full : done.1 = Rc.errFull.code →
    ∃ seg, .held seg ∈ done.2.met ∧ (op.Taken seg ∨ IndexFull s seg)
  readOnly : done.1 = Rc.errReadOnly.code →
    ∃ seg, .held seg ∈ done.2.met ∧ op.ReadOnly seg

/-! ## When it holds -/

/-- The lock is held at each of `n` tries. -/
def LockGivesUp (n : Nat) (c : CallState) : Prop := HeldThroughout n c.others c.h.seg

/-- The lookup of a creation or a renaming runs out of attempts. -/
def LookupGivesUp (c : CallState) : Prop :=
  c.h.seg.hdr.offIndex ≠ 0 ∧ c.h.seg.hdr.offPoints ≠ 0 ∧ LockGivesUp irtIndexMaxRetry c

/-- The segment that the call finds under the lock, if it gets it in `n` tries. -/
def CallState.heldAt (n : Nat) (c : CallState) : Option Segment :=
  (c.tries n fun seg => (seg, seg)).1

/-- From the registration on, a creation answers for every loop that runs out: for the lookup
when the registration or the insertion runs out as well, and for the rollback never. -/
structure CreationAnswers (partition : UInt32) (id : Nat) (name : CStr) (type access : Int)
    (c : CallState) : Prop where
  lookup : LookupGivesUp c → LockGivesUp irtSeqlockMaxRetry (c.lookup partition name).2 ∨
    ∃ registered, (c.lookup partition name).2.locked irtSeqlockMaxRetry
        (registerSection partition id name type access) = (some .ok, registered) ∧
      LockGivesUp 1 registered
  rollback : ∀ registered inserted rc,
    (c.lookup partition name).2.locked irtSeqlockMaxRetry
        (registerSection partition id name type access) = (some .ok, registered) →
    registered.locked 1 (insertSection registered.h.shm partition name id) =
        (some rc, inserted) →
    rc ≠ .ok → ¬ LockGivesUp irtSeqlockMaxRetry inserted

/-- A renaming answers for its lookup when its section runs out as well; and where it comes to
its insertion, the segment has an index. -/
structure RenamingAnswers (partition : UInt32) (id : Nat) (name : CStr) (c : CallState) :
    Prop where
  lookup : LookupGivesUp c → LockGivesUp irtSeqlockMaxRetry (c.lookup partition name).2
  index : ∀ held, (c.lookup partition name).2.heldAt irtSeqlockMaxRetry = some held →
    (held.points id).name.isEmpty = false → (held.points id).partition = partition →
    (held.points id).name.strncmpEq name 64 = false →
    held.hdr.offIndex ≠ 0 ∧ held.hdr.offPoints ≠ 0 ∨ IndexFull c.h.shm held

/-- No entry that ends the load stands behind one with a retry loop that ran out. -/
def LoadAnswers : List IrtPointMeta → CallState → Prop
  | [], _ => True
  | pm :: rest, c =>
      if c.h.shm.maxPoints ≤ pm.id ∨ indurtdbTypeFloat < pm.type.toNat then LoadAnswers rest c
      else if pm.badValue then .gaveUp ∉ c.met
      else
        match configureAttempts pm irtSeqlockMaxRetry c with
        | (some .errFull, c) => .gaveUp ∉ c.met
        | (_, c) => LoadAnswers rest (configureMeta pm .ok c).2

/-- The call answers for every retry loop that it gives up. -/
def HandleOp.Answers (c : CallState) : HandleOp → Prop
  | .setQuality id _ => ¬ (pmValidateId c.h.seg id ∧ LockGivesUp 1 c)
  | .createPointIn partition id name type access =>
      CreateArgs c.h.shm id name type access → foundOther (c.lookup partition name).1 id = false →
        CreationAnswers partition id name type access c
  | .renamePointIn partition id name =>
      name.isEmpty = false → id < c.h.shm.maxPoints →
        foundOther (c.lookup partition name).1 id = false → RenamingAnswers partition id name c
  | .loadConfig (some batch) =>
      c.h.seg.hdr.offPoints ≠ 0 → c.h.shm.maxPoints ≠ 0 → LoadAnswers batch c
  | _ => True

/-! ## What loops and sections meet -/

section Loops

variable {ρ : Type}

theorem tries_cases (n : Nat) (body : Segment → ρ × Segment) (c : CallState) :
    (LockGivesUp n c ∧ ∃ left, c.tries n body = (none, left) ∧ left.met = c.met ∧
      left.h.shm = c.h.shm ∧ c.heldAt n = none) ∨
    (¬ LockGivesUp n c ∧ ∃ held left, c.tries n body = (some (body held).1, left) ∧
      left.met = c.met ++ [.held held] ∧ left.h.shm = c.h.shm ∧ c.heldAt n = some held) := by
  rw [CallState.heldAt, CallState.tries, CallState.tries]
  rcases sectionAmong_at n c.others c.h.seg with
    ⟨hheld, seg₁, left, hrun⟩ | ⟨hfree, held, w, left, hrun⟩
  · rw [hrun, hrun]
    exact .inl ⟨hheld, _, rfl, rfl, rfl, rfl⟩
  · rw [hrun, hrun]
    exact .inr ⟨hfree, held, _, rfl, rfl, rfl, rfl⟩

theorem locked_cases (n : Nat) (body : Segment → ρ × Segment) (c : CallState) :
    (LockGivesUp n c ∧ ∃ left, c.locked n body = (none, left) ∧ left.met = c.met ++ [.gaveUp] ∧
      left.h.shm = c.h.shm ∧ c.heldAt n = none) ∨
    (¬ LockGivesUp n c ∧ ∃ held left, c.locked n body = (some (body held).1, left) ∧
      left.met = c.met ++ [.held held] ∧ left.h.shm = c.h.shm ∧ c.heldAt n = some held) := by
  rw [CallState.locked]
  rcases tries_cases n body c with
    ⟨hheld, left, hrun, hmet, hshm, hnone⟩ | ⟨hfree, held, left, hrun, hmet, hshm, hsome⟩
  · rw [hrun]
    exact .inl ⟨hheld, left.giveUp, rfl, by rw [← hmet]; rfl, hshm, hnone⟩
  · rw [hrun]
    exact .inr ⟨hfree, held, left, rfl, hmet, hshm, hsome⟩

/-- A loop gives up when the lock is held at each of its tries. -/
theorem gaveUp_locked_iff (n : Nat) (body : Segment → ρ × Segment) (c : CallState) :
    .gaveUp ∈ (c.locked n body).2.met ↔ .gaveUp ∈ c.met ∨ LockGivesUp n c := by
  rcases locked_cases n body c with
    ⟨hheld, left, hrun, hmet, -⟩ | ⟨hfree, held, left, hrun, hmet, -⟩
  · rw [hrun, hmet]
    exact ⟨fun _ => .inr hheld, fun _ => List.mem_append_right _ List.mem_cons_self⟩
  · rw [hrun, hmet]
    exact ⟨fun h => .inl (by simpa using h),
      fun h => List.mem_append_left _ (h.resolve_right hfree)⟩

/-- What has been met stays met. -/
theorem met_locked {m : Met} (n : Nat) (body : Segment → ρ × Segment) {c : CallState}
    (h : m ∈ c.met) : m ∈ (c.locked n body).2.met := by
  rcases locked_cases n body c with ⟨-, left, hrun, hmet, -⟩ | ⟨-, held, left, hrun, hmet, -⟩
  · rw [hrun, hmet]
    exact List.mem_append_left _ h
  · rw [hrun, hmet]
    exact List.mem_append_left _ h

end Loops

/-! ## What a lookup meets -/

/-- A search that ends without an entry: none of those it comes to is one of the name. -/
theorem nameAbsent_of_probe {s : IrtShm} {seg : Segment} {partition : UInt32} {name : CStr}
    (h : irtIndexProbe (indexView s.maxPoints) seg partition name = .error .errNotFound) :
    NameAbsent s seg partition name := by
  intro i hreach
  refine Bool.eq_false_iff.mpr fun hmatch => ?_
  have hlive : (seg.slots i).Live := by
    simp only [irtIndexSlotMatches, Bool.and_eq_true, bne_iff_ne] at hmatch
    exact ⟨hmatch.1.1.1.2, hmatch.1.1.2⟩
  obtain ⟨k, hk⟩ := Probe.find_isSome hreach (IrtIndexSlot.cell_live hlive) hmatch
  rw [← irtIndexProbeLoop_eq_find] at hk
  rw [irtIndexProbe, hk] at h
  cases h

/-- Where the index has an entry for every registered point but the hidden ones, a name that
is absent is that of no other registered point. -/
theorem NameAbsent.not_registered {s : IrtShm} {seg : Segment} {partition : UInt32}
    {name : CStr} {hidden : Nat → Prop} (h : NameAbsent s seg partition name)
    (hcovers : IndexCovers s.maxPoints hidden seg) (hmax : s.maxPoints < irtIndexTombstone)
    (hname : name ≠ CStr.empty) (hfits : name.bytes.length ≤ nameMax) {id : Nat}
    (hid : id < s.maxPoints) (hshown : ¬ hidden id) :
    ¬ (seg.points id).HasKey partition name := by
  intro hkey
  have hnamed : (seg.points id).name ≠ CStr.empty := hkey.2 ▸ hname
  obtain ⟨i, hslot, hreach⟩ := hcovers.slotted id hid hshown hnamed
  rw [hkey.keyHash] at hslot hreach
  have hmatch : irtIndexSlotMatches seg.points (irtIndexComposeHash partition name) partition
      name (seg.slots i) = true := by
    rw [hslot, irtIndexSlotMatches_iff (hcovers.names id hid) hfits]
    exact ⟨rfl, IrtIndexSlot.live_mk _ hmax hid, hkey⟩
  exact Bool.false_ne_true ((h i hreach).symm.trans hmatch)

theorem lookupAttemptsAmong_cases (ix : IrtIndex) (partition : UInt32) (name : CStr) (n : Nat)
    (others : Others) (seg : Segment) :
    (HeldThroughout n others seg ∧
      (lookupAttemptsAmong ix partition name n others seg).1 = .error .errBusy) ∨
    (¬ HeldThroughout n others seg ∧
      (lookupAttemptsAmong ix partition name n others seg).1 =
        irtIndexProbe ix (lookupAttemptsAmong ix partition name n others seg).2.1 partition
          name) := by
  induction n generalizing others seg with
  | zero => exact .inl ⟨trivial, rfl⟩
  | succ n ih =>
      rw [lookupAttemptsAmong]
      split
      next hodd =>
        exact (ih others.tail (others.headD id seg)).imp (fun h => ⟨⟨hodd, h.1⟩, h.2⟩)
          fun h => ⟨fun hheld => h.1 hheld.2, h.2⟩
      next heven => exact .inr ⟨fun hheld => heven hheld.1, rfl⟩

/-- How a lookup ends. -/
theorem lookup_cases (partition : UInt32) {name : CStr} (c : CallState)
    (hname : name.isEmpty = false) :
    (LookupGivesUp c ∧ (c.lookup partition name).1 = .error .errBusy ∧
      (c.lookup partition name).2.met = c.met ++ [.gaveUp]) ∨
    (¬ LookupGivesUp c ∧ (c.lookup partition name).1 = .error .errArg ∧
      (c.lookup partition name).2.met = c.met) ∨
    (¬ LookupGivesUp c ∧ ∃ seg, (c.lookup partition name).2.met = c.met ++ [.read seg] ∧
      ((∃ found, (c.lookup partition name).1 = .ok found) ∨
        (c.lookup partition name).1 = .error .errNotFound ∧
          NameAbsent c.h.shm seg partition name)) := by
  unfold CallState.lookup lookupAmong
  rw [if_neg (Bool.eq_false_iff.mp hname)]
  rcases Decidable.em (c.h.seg.hdr.offIndex = 0) with hindex | hindex
  · rw [irtIndexBind, if_pos hindex]
    exact .inr (.inl ⟨fun h => h.1 hindex, rfl, List.append_nil _⟩)
  rw [irtIndexBind_eq hindex]
  dsimp only
  split
  next hpoints => exact .inr (.inl ⟨fun h => h.2.1 hpoints, rfl, List.append_nil _⟩)
  next hpoints =>
    rcases lookupAttemptsAmong_cases (indexView c.h.shm.maxPoints) partition name
        irtIndexMaxRetry c.others c.h.seg with ⟨hheld, hbusy⟩ | ⟨hfree, hprobe⟩
    · rw [hbusy]
      exact .inl ⟨⟨hindex, hpoints, hheld⟩, rfl, rfl⟩
    · refine .inr (.inr ⟨fun h => hfree h.2.2, ?_⟩)
      generalize lookupAttemptsAmong _ partition name irtIndexMaxRetry c.others c.h.seg =
        looked at hprobe ⊢
      obtain ⟨found, seg, left⟩ := looked
      dsimp only at hprobe ⊢
      subst hprobe
      refine ⟨seg, ?_⟩
      cases hprobe : irtIndexProbe (indexView c.h.shm.maxPoints) seg partition name with
      | ok found => exact ⟨rfl, .inl ⟨found, rfl⟩⟩
      | error rc =>
          have hrc : rc = .errNotFound := by
            unfold irtIndexProbe at hprobe
            split at hprobe
            · cases hprobe
            · exact (Except.error.inj hprobe).symm
          subst hrc
          exact ⟨rfl, .inr ⟨rfl, nameAbsent_of_probe hprobe⟩⟩

/-! ## The codes of the sections -/

theorem insertSection_cases (s : IrtShm) (partition : UInt32) (name : CStr) (id : Nat)
    (seg : Segment) :
    (insertSection s partition name id seg).1 = .ok ∨
      (insertSection s partition name id seg).1 = .errArg ∨
      (insertSection s partition name id seg).1 = .errFull ∧ IndexFull s seg := by
  unfold insertSection irtIndexInsertLocked
  split
  · exact .inr (.inl rfl)
  rcases Decidable.em (seg.hdr.offIndex = 0) with hindex | hindex
  · rw [irtIndexBind, if_pos hindex]
    exact .inr (.inl rfl)
  rw [irtIndexBind_eq hindex]
  dsimp only
  split
  · exact .inr (.inl rfl)
  split
  next => exact .inl rfl
  next => exact .inl rfl
  next hplace =>
    refine .inr (.inr ⟨rfl, fun i hi => ?_⟩)
    rw [irtIndexInsertLoop_eq_place] at hplace
    obtain ⟨d, hd, rfl⟩ := slotIndex_surj (irtIndexComposeHash partition name) hi
    obtain ⟨entry, hcell, -⟩ := (Probe.place_full _ 0 none hplace).2 d (Nat.zero_le _) (by omega)
    exact (IrtIndexSlot.cell_eq_live_iff.mp hcell).1

theorem registerSection_cases (partition : UInt32) (id : Nat) (name : CStr) (type access : Int)
    (seg : Segment) :
    (registerSection partition id name type access seg).1 = .ok ∨
      (registerSection partition id name type access seg).1 = .errFull ∧
        (seg.points id).name.isEmpty = false := by
  unfold registerSection registerLocked
  split
  next => exact .inl rfl
  next htaken => exact .inr ⟨rfl, Bool.eq_false_iff.mpr htaken⟩

theorem deleteLocked_ends (s : IrtShm) (seg : Segment) (partition : UInt32) (id : Nat) :
    (deleteLocked s seg partition id).1 = .ok ∨
      (deleteLocked s seg partition id).1 = .errNotFound ∧
        ((seg.points id).name.isEmpty = true ∨ (seg.points id).partition ≠ partition) := by
  unfold deleteLocked
  split
  next hname => exact .inr ⟨rfl, .inl hname⟩
  split
  next hpart => exact .inr ⟨rfl, .inr hpart⟩
  next => exact .inl rfl

/-- The point is there, and the name is another one: a renaming comes to its insertion. -/
def ComesToInsert (seg : Segment) (partition : UInt32) (id : Nat) (name : CStr) : Prop :=
  (seg.points id).name.isEmpty = false ∧ (seg.points id).partition = partition ∧
    (seg.points id).name.strncmpEq name 64 = false

theorem renameLocked_ends (s : IrtShm) (seg : Segment) (partition : UInt32) (id : Nat)
    (name : CStr) :
    (((renameLocked s seg partition id name).1 = .same ∨
        (renameLocked s seg partition id name).1 = .changed) ∧
      (ComesToInsert seg partition id name → (insertSection s partition name id seg).1 = .ok)) ∨
    ((renameLocked s seg partition id name).1 = .failed .errNotFound ∧
      ((seg.points id).name.isEmpty = true ∨ (seg.points id).partition ≠ partition)) ∨
    ((renameLocked s seg partition id name).1 = .failed .errFull ∧
      ComesToInsert seg partition id name ∧ (insertSection s partition name id seg).1 ≠ .ok) := by
  unfold renameLocked
  split
  next habsent => exact .inr (.inl ⟨rfl, habsent⟩)
  next hpresent =>
  obtain ⟨hname, hpart⟩ := not_or.mp hpresent
  split
  next hsame => exact .inl ⟨.inl rfl, fun h => absurd (h.2.2.symm.trans hsame) (by decide)⟩
  next hother =>
    have hcomes : ComesToInsert seg partition id name :=
      ⟨Bool.eq_false_iff.mpr hname, not_not.mp hpart, Bool.eq_false_iff.mpr hother⟩
    rw [insertSection]
    generalize irtIndexInsertLocked s seg partition name id = inserted
    obtain ⟨rc, seg'⟩ := inserted
    cases rc with
    | ok => exact .inl ⟨.inr rfl, fun _ => rfl⟩
    | _ => exact .inr (.inr ⟨rfl, hcomes, nofun⟩)

/-! ## Codes -/

theorem Rc.code_injective {rc rc' : Rc} (h : rc.code = rc'.code) : rc = rc' := by
  cases rc with
  | _ =>
      cases rc' with
      | _ => first | rfl | cases h

section Codes

variable {s : IrtShm} {op : HandleOp} {c : CallState}

/-- `INDURTDB_ERR_BUSY` is always right. -/
theorem tellsApart_busy (c : CallState) : TellsApart s op (Rc.errBusy.code, c) :=
  ⟨fun _ => rfl, nofun, nofun, nofun⟩

/-- Another code than `INDURTDB_ERR_BUSY` says that nothing was given up. -/
theorem TellsApart.nothing_given_up {rc : Rc} (h : TellsApart s op (rc.code, c))
    (hrc : rc ≠ .errBusy) : .gaveUp ∉ c.met := by
  intro hgave
  have hcode : rc.code = Rc.errBusy.code := h.busy hgave
  exact hrc (Rc.code_injective hcode)

/-- Success, or a wrong argument, is right when nothing was given up. -/
theorem tellsApart_plain {rc : Rc} (hrc : rc = .ok ∨ rc = .errArg) :
    TellsApart s op (rc.code, c) ↔ .gaveUp ∉ c.met := by
  rcases hrc with rfl | rfl
  · exact ⟨fun h => h.nothing_given_up (by decide),
      fun hnone => ⟨fun hgave => absurd hgave hnone, nofun, nofun, nofun⟩⟩
  · exact ⟨fun h => h.nothing_given_up (by decide),
      fun hnone => ⟨fun hgave => absurd hgave hnone, nofun, nofun, nofun⟩⟩

theorem tellsApart_notFound (op : HandleOp) {seg : Segment}
    (hseen : .held seg ∈ c.met ∨ .read seg ∈ c.met) (habsent : op.Absent s seg) :
    TellsApart s op (Rc.errNotFound.code, c) ↔ .gaveUp ∉ c.met :=
  ⟨fun h => h.nothing_given_up (by decide),
    fun hnone => ⟨fun hgave => absurd hgave hnone, fun _ => ⟨seg, hseen, habsent⟩, nofun, nofun⟩⟩

theorem tellsApart_full (op : HandleOp) {seg : Segment} (hseen : .held seg ∈ c.met)
    (hfull : op.Taken seg ∨ IndexFull s seg) :
    TellsApart s op (Rc.errFull.code, c) ↔ .gaveUp ∉ c.met :=
  ⟨fun h => h.nothing_given_up (by decide),
    fun hnone => ⟨fun hgave => absurd hgave hnone, nofun, fun _ => ⟨seg, hseen, hfull⟩, nofun⟩⟩

theorem tellsApart_readOnly {seg : Segment} (hseen : .held seg ∈ c.met)
    (haccess : op.ReadOnly seg) (hnone : .gaveUp ∉ c.met) :
    TellsApart s op (Rc.errReadOnly.code, c) :=
  ⟨fun hgave => absurd hgave hnone, nofun, nofun, fun _ => ⟨seg, hseen, haccess⟩⟩

end Codes

/-! ## The calls that always tell -/

section Always

variable {s : IrtShm} {op : HandleOp} {c : CallState}

/-- All the write functions: the codes of the point manager are translated. -/
theorem writeQualityTsAmong_tells {id : Nat} (type : UInt8) (value : List UInt8)
    (sourceTsNs : Nat) (quality : UInt8) (now : Nat) (hnone : .gaveUp ∉ c.met)
    (hop : ∀ seg, (seg.points id).access = indurtdbAccessReadOnly → op.ReadOnly seg) :
    TellsApart s op (writeQualityTsAmong id type value sourceTsNs quality now c) := by
  unfold writeQualityTsAmong pmWriteImplQ
  split
  next => exact (tellsApart_plain (.inr rfl)).mpr hnone
  next =>
    rcases locked_cases irtSeqlockMaxRetry (fun seg =>
        pmWriteLocked seg id type value sourceTsNs quality now) c with
      ⟨-, left, hrun, -⟩ | ⟨-, held, left, hrun, hmet, -⟩
    · rw [hrun]
      exact tellsApart_busy left
    · rw [hrun]
      have hleft : .gaveUp ∉ left.met := by
        rw [hmet]
        simpa using hnone
      rcases pmWriteLocked_cases held id type value sourceTsNs quality now with hok | ⟨hro, haccess⟩
      · rw [hok]
        exact (tellsApart_plain (.inl rfl)).mpr hleft
      · rw [hro]
        refine tellsApart_readOnly ?_ (hop held haccess) hleft
        rw [hmet]
        exact List.mem_append_right _ List.mem_cons_self

theorem metaSetAmong_shm (id : Nat) (m : IndurtdbMeta) (c : CallState) :
    (metaSetAmong id m c).2.h.shm = c.h.shm := by
  unfold metaSetAmong
  split
  next => rfl
  split
  next => rfl
  next =>
    rcases locked_cases 1 (fun seg => ((), seg.setMeta id m)) c with
      ⟨-, left, hrun, -, hshm, -⟩ | ⟨-, held, left, hrun, -, hshm, -⟩
    · rw [hrun]
      exact hshm
    · rw [hrun]
      exact hshm

theorem metaSetAmong_cases (id : Nat) (m : IndurtdbMeta) (c : CallState) :
    (metaSetAmong id m c).1 = .errBusy ∨
      ((metaSetAmong id m c).1 = .ok ∨ (metaSetAmong id m c).1 = .errArg) ∧
        (.gaveUp ∈ (metaSetAmong id m c).2.met → .gaveUp ∈ c.met) := by
  unfold metaSetAmong
  split
  next => exact .inr ⟨.inr rfl, fun h => h⟩
  split
  next => exact .inr ⟨.inr rfl, fun h => h⟩
  next =>
    rcases locked_cases 1 (fun seg => ((), seg.setMeta id m)) c with
      ⟨-, left, hrun, -⟩ | ⟨-, held, left, hrun, hmet, -⟩
    · rw [hrun]
      exact .inl rfl
    · rw [hrun]
      refine .inr ⟨.inl rfl, fun hgave => ?_⟩
      dsimp only at hgave
      rw [hmet] at hgave
      simpa using hgave

theorem setMetaAmong_tells (id : Nat) (m : IndurtdbMeta) (hnone : .gaveUp ∉ c.met) :
    TellsApart s op ((setMetaAmong id m c).1.code, (setMetaAmong id m c).2) := by
  unfold setMetaAmong
  split
  next => exact (tellsApart_plain (.inr rfl)).mpr hnone
  next =>
    rcases metaSetAmong_cases id m c with hbusy | ⟨hrc, hmet⟩
    · rw [hbusy]
      exact tellsApart_busy _
    · exact (tellsApart_plain hrc).mpr fun hgave => hnone (hmet hgave)

theorem getMetaAmong_tells (id : Nat) (hnone : .gaveUp ∉ c.met) :
    TellsApart s op (codeOf (getMetaAmong id c).1, (getMetaAmong id c).2) := by
  have hattempts : ∀ (n : Nat) (c : CallState), .gaveUp ∉ c.met →
      TellsApart s op
        (codeOf (metaGetAttemptsAmong id n c).1, (metaGetAttemptsAmong id n c).2) := by
    intro n
    induction n with
    | zero => exact fun c _ => tellsApart_busy _
    | succ n ih =>
        intro c hnone
        rw [metaGetAttemptsAmong]
        dsimp only
        split
        next => exact ih _ hnone
        next => exact (tellsApart_plain (.inl rfl)).mpr (by simpa using hnone)
  unfold getMetaAmong
  split
  next => exact (tellsApart_plain (.inr rfl)).mpr hnone
  split
  next => exact (tellsApart_plain (.inr rfl)).mpr hnone
  next => exact hattempts 16 c hnone

theorem findByNameInAmong_tells (partition : UInt32) (name : CStr) (hnone : .gaveUp ∉ c.met) :
    TellsApart c.h.shm (.findByNameIn partition name)
      (HandleOp.run c (.findByNameIn partition name)) := by
  rw [HandleOp.run, findByNameInAmong]
  split
  next => exact (tellsApart_plain (.inr rfl)).mpr hnone
  next hname =>
    rcases lookup_cases partition c (Bool.eq_false_iff.mpr hname) with
      ⟨-, hbusy, -⟩ | ⟨-, harg, hmet⟩ | ⟨-, seg, hmet, ⟨found, hfound⟩ | ⟨hmissing, habsent⟩⟩
    · rw [hbusy]
      exact tellsApart_busy _
    · rw [harg]
      exact (tellsApart_plain (.inr rfl)).mpr (hmet ▸ hnone)
    · rw [hfound]
      refine (tellsApart_plain (.inl rfl)).mpr ?_
      rw [hmet]
      simpa using hnone
    · rw [hmissing]
      have hseen : .read seg ∈ (c.lookup partition name).2.met := by
        rw [hmet]
        exact List.mem_append_right _ List.mem_cons_self
      refine (tellsApart_notFound (.findByNameIn partition name) (.inr hseen) habsent).mpr ?_
      rw [hmet]
      simpa using hnone

theorem deleteAmong_tells (partition : UInt32) (id : Nat) (hnone : .gaveUp ∉ c.met) :
    TellsApart c.h.shm (.deletePointIn partition id)
      (HandleOp.run c (.deletePointIn partition id)) := by
  rw [HandleOp.run, deleteAmong]
  split
  next => exact (tellsApart_plain (.inr rfl)).mpr hnone
  next =>
    rcases locked_cases irtSeqlockMaxRetry (fun seg => deleteLocked c.h.shm seg partition id) c with
      ⟨-, left, hrun, -⟩ | ⟨-, held, left, hrun, hmet, -⟩
    · rw [hrun]
      exact tellsApart_busy left
    · rw [hrun]
      have hleft : .gaveUp ∉ left.met := by
        rw [hmet]
        simpa using hnone
      rcases deleteLocked_ends c.h.shm held partition id with hok | ⟨hmissing, habsent⟩
      · rw [hok]
        exact (tellsApart_plain (.inl rfl)).mpr hleft
      · rw [hmissing]
        have hseen : .held held ∈ left.met := by
          rw [hmet]
          exact List.mem_append_right _ List.mem_cons_self
        exact (tellsApart_notFound (.deletePointIn partition id) (.inl hseen) habsent).mpr hleft

end Always

/-! ## Quality -/

/-- The code of the point manager for a conflict is that of a missing point. -/
theorem setQualityAmong_tells_iff {c : CallState} (id : Nat) (quality : UInt8)
    (hnone : .gaveUp ∉ c.met) :
    TellsApart c.h.shm (.setQuality id quality) (setQualityAmong id quality c) ↔
      ¬ (pmValidateId c.h.seg id ∧ LockGivesUp 1 c) := by
  unfold setQualityAmong irtPmSetQuality
  split
  next hid =>
    exact ⟨fun _ h => hid h.1, fun _ => (tellsApart_plain (.inr rfl)).mpr hnone⟩
  next hid =>
    rcases locked_cases 1 (fun seg =>
        ((), seg.setPoint id { seg.points id with quality := quality })) c with
      ⟨hheld, left, hrun, hmet, -⟩ | ⟨hfree, held, left, hrun, hmet, -⟩
    · rw [hrun]
      refine ⟨fun h => ?_, fun h => absurd ⟨not_not.mp hid, hheld⟩ h⟩
      have hgave : .gaveUp ∈ left.met := by
        rw [hmet]
        exact List.mem_append_right _ List.mem_cons_self
      exact absurd (h.busy hgave) (show ¬ (-2 : Int) = Rc.errBusy.code by decide)
    · rw [hrun]
      have hleft : .gaveUp ∉ left.met := by
        rw [hmet]
        simpa using hnone
      exact ⟨fun _ h => hfree h.2, fun _ => (tellsApart_plain (.inl rfl)).mpr hleft⟩

/-! ## Creation -/

section Creation

variable {c : CallState} (partition : UInt32) (id : Nat) (name : CStr) (type access : Int)

/-- What a lookup gives up is given up by the call. -/
theorem gaveUp_lookup_iff (hname : name.isEmpty = false) (hnone : .gaveUp ∉ c.met) :
    .gaveUp ∈ (c.lookup partition name).2.met ↔ LookupGivesUp c := by
  rcases lookup_cases partition c hname with
    ⟨hgives, -, hmet⟩ | ⟨hnot, -, hmet⟩ | ⟨hnot, seg, hmet, -⟩
  · rw [hmet]
    exact ⟨fun _ => hgives, fun _ => List.mem_append_right _ List.mem_cons_self⟩
  · rw [hmet]
    exact ⟨fun h => absurd h hnone, fun h => absurd h hnot⟩
  · rw [hmet]
    exact ⟨fun h => absurd (by simpa using h) hnone, fun h => absurd h hnot⟩

/-- A lookup that has found another id has not given up. -/
theorem not_lookupGivesUp_of_found (hname : name.isEmpty = false)
    (hfound : foundOther (c.lookup partition name).1 id = true) : ¬ LookupGivesUp c := by
  intro hgives
  rcases lookup_cases partition c hname with
    ⟨-, hbusy, -⟩ | ⟨hnot, -⟩ | ⟨hnot, -⟩
  · rw [hbusy] at hfound
    cases hfound
  · exact hnot hgives
  · exact hnot hgives

theorem indexPointAmong_tells_iff :
    TellsApart c.h.shm (.createPointIn partition id name type access)
        ((indexPointAmong partition id name type access c).1.code,
          (indexPointAmong partition id name type access c).2) ↔
      (.gaveUp ∈ c.met → LockGivesUp 1 c) ∧
        ∀ inserted rc, c.locked 1 (insertSection c.h.shm partition name id) =
          (some rc, inserted) → rc ≠ .ok → ¬ LockGivesUp irtSeqlockMaxRetry inserted := by
  rw [indexPointAmong]
  rcases locked_cases 1 (insertSection c.h.shm partition name id) c with
    ⟨hheld, left, hrun, -⟩ | ⟨hfree, held, left, hrun, hmet, -⟩
  · rw [hrun]
    refine ⟨fun _ => ⟨fun _ => hheld, ?_⟩, fun _ => tellsApart_busy _⟩
    intro inserted rc heq
    cases heq
  · rw [hrun]
    have hgave : .gaveUp ∈ left.met ↔ .gaveUp ∈ c.met := by
      rw [hmet]
      simp
    have hseen : .held held ∈ left.met := by
      rw [hmet]
      exact List.mem_append_right _ List.mem_cons_self
    have hcond : (.gaveUp ∈ c.met → LockGivesUp 1 c) ↔ .gaveUp ∉ left.met :=
      ⟨fun h hmem => hfree (h (hgave.mp hmem)), fun h hmem => absurd (hgave.mpr hmem) h⟩
    rw [hcond]
    rcases insertSection_cases c.h.shm partition name id held with hok | hfailed
    · rw [hok]
      refine (tellsApart_plain (.inl rfl)).trans ⟨fun h => ⟨h, ?_⟩, fun h => h.1⟩
      rintro inserted rc heq hrc
      exact absurd (Option.some.inj (Prod.mk.inj heq).1).symm hrc
    · -- the registration is rolled back
      have hrolled : .gaveUp ∉ (left.locked irtSeqlockMaxRetry
          fun seg => unregisterLocked seg id).2.met ↔
          .gaveUp ∉ left.met ∧ ¬ LockGivesUp irtSeqlockMaxRetry left :=
        (not_congr (gaveUp_locked_iff _ _ _)).trans not_or
      have hseen' := met_locked irtSeqlockMaxRetry (fun seg => unregisterLocked seg id) hseen
      have hclause : ∀ {rc : Rc}, rc ≠ .ok →
          ((∀ inserted rc', (some rc, left) = (some rc', inserted) → rc' ≠ Rc.ok →
            ¬ LockGivesUp irtSeqlockMaxRetry inserted) ↔
              ¬ LockGivesUp irtSeqlockMaxRetry left) := by
        refine fun hne => ⟨fun h => h left _ rfl hne, ?_⟩
        rintro h inserted rc' heq -
        exact (Prod.mk.inj heq).2 ▸ h
      rcases hfailed with harg | ⟨hfull, hall⟩
      · rw [harg, hclause (by decide), ← hrolled]
        exact tellsApart_plain (.inr rfl)
      · rw [hfull, hclause (by decide), ← hrolled]
        exact tellsApart_full (.createPointIn partition id name type access) hseen' (.inr hall)

/-- A creation tells what it has met exactly when it answers for each loop. -/
theorem createAmong_tells_iff (hnone : .gaveUp ∉ c.met) :
    TellsApart c.h.shm (.createPointIn partition id name type access)
        (HandleOp.run c (.createPointIn partition id name type access)) ↔
      HandleOp.Answers c (.createPointIn partition id name type access) := by
  rw [HandleOp.run, createAmong, HandleOp.Answers]
  split
  next hargs =>
    exact ⟨fun _ h => absurd h hargs, fun _ => (tellsApart_plain (.inr rfl)).mpr hnone⟩
  next hargs =>
    have hargs' := not_not.mp hargs
    have hlooked := gaveUp_lookup_iff (c := c) partition name hargs'.1 hnone
    dsimp only
    split
    next hfound =>
      refine ⟨fun _ _ h => absurd (h.symm.trans hfound) (by decide), fun _ => ?_⟩
      refine (tellsApart_plain (.inr rfl)).mpr fun hgave => ?_
      exact not_lookupGivesUp_of_found partition id name hargs'.1 hfound (hlooked.mp hgave)
    next hfound =>
      rw [forall_prop_of_true hargs', forall_prop_of_true (Bool.eq_false_iff.mpr hfound)]
      have hsame : (c.lookup partition name).2.h.shm = c.h.shm := rfl
      rcases locked_cases irtSeqlockMaxRetry (registerSection partition id name type access)
          (c.lookup partition name).2 with
        ⟨hheld, left, hrun, -⟩ | ⟨hfree, held, left, hrun, hmet, hshm, -⟩
      · rw [hrun]
        refine ⟨fun _ => ⟨fun _ => .inl hheld, fun _ _ _ heq => ?_⟩, fun _ => tellsApart_busy _⟩
        rw [hrun] at heq
        cases heq
      · rw [hrun]
        have hgave : .gaveUp ∈ left.met ↔ LookupGivesUp c := by
          rw [← hlooked, hmet]
          simp
        rcases registerSection_cases partition id name type access held with
          hok | ⟨htaken, hname⟩
        · rw [hok] at hrun ⊢
          rw [hsame] at hshm
          have hindexed := indexPointAmong_tells_iff (c := left) partition id name type access
          rw [hshm, hgave] at hindexed
          refine hindexed.trans ⟨fun h => ⟨fun hgives => ?_, ?_⟩, fun h => ⟨fun hgives => ?_, ?_⟩⟩
          · exact .inr ⟨left, hrun, h.1 hgives⟩
          · intro registered inserted rc heq
            obtain ⟨-, rfl⟩ := Prod.mk.inj (hrun.symm.trans heq)
            rw [hshm]
            exact h.2 inserted rc
          · rcases h.lookup hgives with hheld | ⟨registered, heq, hheld⟩
            · exact absurd hheld hfree
            · obtain ⟨-, rfl⟩ := Prod.mk.inj (hrun.symm.trans heq)
              exact hheld
          · intro inserted rc heq
            exact h.rollback left inserted rc hrun (hshm.symm ▸ heq)
        · rw [htaken] at hrun ⊢
          have hseen : .held held ∈ left.met := by
            rw [hmet]
            exact List.mem_append_right _ List.mem_cons_self
          refine (tellsApart_full (.createPointIn partition id name type access) hseen
            (.inl hname)).trans ((not_congr hgave).trans ⟨fun hnot => ⟨fun h => absurd h hnot, ?_⟩,
              fun h hgives => ?_⟩)
          · intro registered inserted rc heq
            cases hrun.symm.trans heq
          · rcases h.lookup hgives with hheld | ⟨registered, heq, -⟩
            · exact hfree hheld
            · cases hrun.symm.trans heq

end Creation

/-! ## Renaming -/

section Renaming

variable {c : CallState} (partition : UInt32) (id : Nat) (name : CStr)

/-- An insertion into a segment with an index fails for want of a slot only. -/
theorem insertSection_failed {s : IrtShm} {seg : Segment} (hname : name.isEmpty = false)
    (hid : id < s.maxPoints) (hindex : seg.hdr.offIndex ≠ 0) (hpoints : seg.hdr.offPoints ≠ 0)
    (hfailed : (insertSection s partition name id seg).1 ≠ .ok) : IndexFull s seg := by
  rcases insertSection_cases s partition name id seg with hok | harg | ⟨-, hfull⟩
  · exact absurd hok hfailed
  · have hbound : ¬ (seg.hdr.offPoints = 0 ∨ s.maxPoints ≤ id) :=
      not_or.mpr ⟨hpoints, Nat.not_le.mpr hid⟩
    unfold insertSection irtIndexInsertLocked at harg
    rw [if_neg (Bool.eq_false_iff.mp hname), irtIndexBind_eq hindex] at harg
    dsimp only at harg
    rw [if_neg hbound] at harg
    split at harg
    next => cases harg
    next => cases harg
    next => cases harg
  · exact hfull

/-- Without an index an insertion fails. -/
theorem insertSection_unbound {s : IrtShm} {seg : Segment}
    (h : ¬ (seg.hdr.offIndex ≠ 0 ∧ seg.hdr.offPoints ≠ 0)) :
    (insertSection s partition name id seg).1 ≠ .ok := by
  unfold insertSection irtIndexInsertLocked
  have hrefused : Rc.errArg ≠ .ok := by decide
  split
  · exact hrefused
  rcases Decidable.em (seg.hdr.offIndex = 0) with hindex | hindex
  · rw [irtIndexBind, if_pos hindex]
    exact hrefused
  have hpoints : seg.hdr.offPoints = 0 ∨ s.maxPoints ≤ id :=
    .inl (not_not.mp fun hpoints => h ⟨hindex, hpoints⟩)
  rw [irtIndexBind_eq hindex]
  dsimp only
  rw [if_pos hpoints]
  exact hrefused

/-- A lookup takes no lock. -/
theorem only_held (hname : name.isEmpty = false) (hstart : c.met = []) {seg held : Segment}
    (h : .held seg ∈ (c.lookup partition name).2.met ++ [.held held]) : seg = held := by
  rcases List.mem_append.mp h with hmem | hmem
  · rcases lookup_cases partition c hname with
      ⟨-, -, hmet⟩ | ⟨-, -, hmet⟩ | ⟨-, seen, hmet, -⟩
    · rw [hmet, hstart] at hmem
      simp at hmem
    · rw [hmet, hstart] at hmem
      simp at hmem
    · rw [hmet, hstart] at hmem
      simp at hmem
  · simpa using hmem

/-- What a renaming tells of what it has met, once it has run its part under the lock. -/
theorem renameLocked_tells_iff {held : Segment} {left : CallState} (hnamed : name.isEmpty = false)
    (hbelow : id < c.h.shm.maxPoints) (hstart : c.met = [])
    (hmet : left.met = (c.lookup partition name).2.met ++ [.held held]) (logged : CallState)
    (hlogged : logged.met = left.met) (rc : Rc) (after : CallState)
    (hafter : (rc, after) = match (renameLocked c.h.shm held partition id name).1 with
      | .failed rc => (rc, left)
      | .same => (.ok, left)
      | .changed => (.ok, logged)) :
    TellsApart c.h.shm (.renamePointIn partition id name) (rc.code, after) ↔
      .gaveUp ∉ left.met ∧ (ComesToInsert held partition id name →
        held.hdr.offIndex ≠ 0 ∧ held.hdr.offPoints ≠ 0 ∨ IndexFull c.h.shm held) := by
  have hseen : .held held ∈ left.met := by
    rw [hmet]
    exact List.mem_append_right _ List.mem_cons_self
  rcases renameLocked_ends c.h.shm held partition id name with
    ⟨hdone, hinserts⟩ | ⟨hmissing, habsent⟩ | ⟨hfull, hcomes, hfailed⟩
  · have hbound : ComesToInsert held partition id name →
        held.hdr.offIndex ≠ 0 ∧ held.hdr.offPoints ≠ 0 ∨ IndexFull c.h.shm held :=
      fun hcomes => .inl (not_not.mp fun hunbound =>
        insertSection_unbound partition id name hunbound (hinserts hcomes))
    rw [and_iff_left hbound]
    rcases hdone with hsame | hchanged
    · rw [hsame] at hafter
      cases hafter
      exact tellsApart_plain (.inl rfl)
    · rw [hchanged] at hafter
      cases hafter
      rw [← hlogged]
      exact tellsApart_plain (.inl rfl)
  · have hstays : ¬ ComesToInsert held partition id name := by
      rintro ⟨hname, hpart, -⟩
      rcases habsent with hempty | hother
      · exact absurd (hname.symm.trans hempty) (by decide)
      · exact hother hpart
    rw [hmissing] at hafter
    cases hafter
    rw [and_iff_left fun hcomes => absurd hcomes hstays]
    exact tellsApart_notFound (.renamePointIn partition id name) (.inl hseen) habsent
  · rw [hfull] at hafter
    cases hafter
    rw [forall_prop_of_true hcomes]
    constructor
    · intro h
      refine ⟨h.nothing_given_up (by decide), .inr ?_⟩
      obtain ⟨seg, hmem, hnever | hall⟩ := h.full rfl
      · exact False.elim hnever
      · rw [hmet] at hmem
        obtain rfl := only_held partition name hnamed hstart hmem
        exact hall
    · rintro ⟨hnone, hbound⟩
      have hall : IndexFull c.h.shm held := by
        rcases hbound with ⟨hindex, hpoints⟩ | hall
        · exact insertSection_failed partition id name hnamed hbelow hindex hpoints hfailed
        · exact hall
      exact (tellsApart_full (.renamePointIn partition id name) hseen (.inr hall)).mpr hnone

/-- A renaming tells what it has met exactly when it answers for its lookup, and has an index
where it comes to its insertion. -/
theorem renameAmong_tells_iff (hstart : c.met = []) :
    TellsApart c.h.shm (.renamePointIn partition id name)
        (HandleOp.run c (.renamePointIn partition id name)) ↔
      HandleOp.Answers c (.renamePointIn partition id name) := by
  have hnone : .gaveUp ∉ c.met := by
    rw [hstart]
    exact List.not_mem_nil
  rw [HandleOp.run, renameAmong, HandleOp.Answers]
  split
  next hname =>
    exact ⟨fun _ h => absurd (h.symm.trans hname) (by decide),
      fun _ => (tellsApart_plain (.inr rfl)).mpr hnone⟩
  next hname =>
  have hnamed := Bool.eq_false_iff.mpr hname
  split
  next hid =>
    exact ⟨fun _ _ h => absurd h (Nat.not_lt.mpr hid),
      fun _ => (tellsApart_plain (.inr rfl)).mpr hnone⟩
  next hid =>
  have hbelow := Nat.not_le.mp hid
  have hlooked := gaveUp_lookup_iff (c := c) partition name hnamed hnone
  dsimp only
  split
  next hfound =>
    refine ⟨fun _ _ _ h => absurd (h.symm.trans hfound) (by decide), fun _ => ?_⟩
    refine (tellsApart_plain (.inr rfl)).mpr fun hgave => ?_
    exact not_lookupGivesUp_of_found partition id name hnamed hfound (hlooked.mp hgave)
  next hfound =>
    rw [forall_prop_of_true hnamed, forall_prop_of_true hbelow,
      forall_prop_of_true (Bool.eq_false_iff.mpr hfound)]
    rcases locked_cases irtSeqlockMaxRetry (fun seg => renameLocked c.h.shm seg partition id name)
        (c.lookup partition name).2 with
      ⟨hheld, left, hrun, -, -, hat⟩ | ⟨hfree, held, left, hrun, hmet, -, hat⟩
    · have hrun' : (c.lookup partition name).2.locked irtSeqlockMaxRetry (fun seg =>
          renameLocked (c.lookup partition name).2.h.shm seg partition id name) =
          (none, left) := hrun
      rw [hrun']
      refine ⟨fun _ => ⟨fun _ => hheld, fun held heq => ?_⟩, fun _ => tellsApart_busy left⟩
      cases hat.symm.trans heq
    · have hrun' : (c.lookup partition name).2.locked irtSeqlockMaxRetry (fun seg =>
          renameLocked (c.lookup partition name).2.h.shm seg partition id name) =
          (some (renameLocked c.h.shm held partition id name).1, left) := hrun
      rw [hrun']
      have hgave : .gaveUp ∈ left.met ↔ LookupGivesUp c := by
        rw [← hlooked, hmet]
        simp
      have hanswers : RenamingAnswers partition id name c ↔ .gaveUp ∉ left.met ∧
          (ComesToInsert held partition id name →
            held.hdr.offIndex ≠ 0 ∧ held.hdr.offPoints ≠ 0 ∨ IndexFull c.h.shm held) := by
        rw [hgave]
        constructor
        · exact fun h => ⟨fun hgives => hfree (h.lookup hgives),
            fun hcomes => h.index held hat hcomes.1 hcomes.2.1 hcomes.2.2⟩
        · refine fun h => ⟨fun hgives => absurd hgives h.1, fun seg heq hname hpart hother => ?_⟩
          obtain rfl := Option.some.inj (hat.symm.trans heq)
          exact h.2 ⟨hname, hpart, hother⟩
      rw [hanswers]
      refine renameLocked_tells_iff partition id name hnamed hbelow hstart hmet
        (left.log irtDeltaOpRename id (left.h.seg.points id).type
          (left.h.seg.points id).access name) rfl _ _ ?_
      cases (renameLocked c.h.shm held partition id name).1 with
      | failed rc => rfl
      | same => rfl
      | changed => rfl

end Renaming

/-! ## The base configuration -/

section Loading

/-- How the attempts for a point end. -/
theorem configureAttempts_cases (pm : IrtPointMeta) (n : Nat) (c : CallState) :
    (configureAttempts pm n c).2.h.shm = c.h.shm ∧
      ((configureAttempts pm n c).1 = none ∨
        (.gaveUp ∈ (configureAttempts pm n c).2.met ↔ .gaveUp ∈ c.met) ∧
          ((configureAttempts pm n c).1 = some .errFull →
            ∃ held, .held held ∈ (configureAttempts pm n c).2.met ∧ IndexFull c.h.shm held)) := by
  induction n generalizing c with
  | zero => exact ⟨rfl, .inl rfl⟩
  | succ n ih =>
      rw [configureAttempts]
      rcases tries_cases 1 (storeConfigured pm) c with
        ⟨-, left, hrun, hmet, hshm, -⟩ | ⟨-, held, left, hrun, hmet, hshm, -⟩
      · rw [hrun]
        have hrest := ih left
        rw [hmet, hshm] at hrest
        exact hrest
      · rw [hrun]
        dsimp only
        rcases tries_cases 1 (fun seg =>
            insertSection left.h.shm 0 (seg.points pm.id).name pm.id seg) left with
          ⟨-, left', hrun', hmet', hshm', -⟩ | ⟨-, held', left', hrun', hmet', hshm', -⟩
        · rw [hrun']
          have hrest := ih left'
          rw [hmet', hshm', hmet, hshm] at hrest
          simpa using hrest
        · rw [hrun']
          dsimp only
          refine ⟨hshm'.trans hshm, .inr ⟨by rw [hmet', hmet]; simp, fun hfull => ?_⟩⟩
          rcases insertSection_cases left.h.shm 0 (held'.points pm.id).name pm.id held' with
            hok | harg | ⟨-, hall⟩
          · rw [hok] at hfull
            cases hfull
          · rw [harg] at hfull
            cases hfull
          · rw [hshm] at hall
            refine ⟨held', ?_, hall⟩
            rw [hmet']
            exact List.mem_append_right _ List.mem_cons_self

/-- What the metadata of a point does to `overall_rc`. -/
theorem configureMeta_cases (pm : IrtPointMeta) (overall : Rc) (c : CallState) :
    (configureMeta pm overall c).2.h.shm = c.h.shm ∧
      ((configureMeta pm overall c).1 = .errBusy ∨
        (configureMeta pm overall c).1 = overall ∧
          (.gaveUp ∈ (configureMeta pm overall c).2.met → .gaveUp ∈ c.met)) := by
  unfold configureMeta
  split
  next =>
    have hshm := metaSetAmong_shm pm.id pm.pointMeta c
    have hstored := metaSetAmong_cases pm.id pm.pointMeta c
    generalize metaSetAmong pm.id pm.pointMeta c = stored at hshm hstored ⊢
    obtain ⟨rc, left⟩ := stored
    cases rc with
    | ok => exact ⟨hshm, .inr ⟨rfl, (hstored.resolve_left nofun).2⟩⟩
    | _ => exact ⟨hshm, .inl rfl⟩
  next => exact ⟨rfl, .inr ⟨rfl, fun h => h⟩⟩

theorem configureMeta_state (pm : IrtPointMeta) (overall overall' : Rc) (c : CallState) :
    (configureMeta pm overall c).2 = (configureMeta pm overall' c).2 := by
  unfold configureMeta
  split
  next =>
    generalize metaSetAmong pm.id pm.pointMeta c = stored
    obtain ⟨rc, left⟩ := stored
    cases rc with
    | _ => rfl
  next => rfl

/-- The loop over the points, while each loop that has given up is in `overall_rc`. -/
theorem loadLoopAmong_tells_iff (parsed : Option (List IrtPointMeta)) (batch : List IrtPointMeta)
    (overall : Rc) (c : CallState) (hoverall : overall = .ok ∨ overall = .errBusy)
    (hgave : .gaveUp ∈ c.met → overall = .errBusy) :
    TellsApart c.h.shm (.loadConfig parsed)
        ((loadLoopAmong batch overall c).1.code, (loadLoopAmong batch overall c).2) ↔
      LoadAnswers batch c := by
  induction batch generalizing overall c with
  | nil =>
      refine ⟨fun _ => trivial, fun _ => ?_⟩
      rw [loadLoopAmong]
      rcases hoverall with rfl | rfl
      · exact (tellsApart_plain (.inl rfl)).mpr fun hmem => Rc.noConfusion (hgave hmem)
      · exact tellsApart_busy c
  | cons pm rest ih =>
      rw [loadLoopAmong, LoadAnswers]
      split
      next => exact ih overall c hoverall hgave
      split
      next => exact tellsApart_plain (.inr rfl)
      next =>
        obtain ⟨hshm, hends⟩ := configureAttempts_cases pm irtSeqlockMaxRetry c
        generalize configureAttempts pm irtSeqlockMaxRetry c = configured at hshm hends ⊢
        obtain ⟨outcome, left⟩ := configured
        have hrest : ∀ overall', (overall' = .ok ∨ overall' = .errBusy) →
            (.gaveUp ∈ left.met → overall' = .errBusy) →
            (TellsApart c.h.shm (.loadConfig parsed)
                ((loadLoopAmong rest (configureMeta pm overall' left).1
                  (configureMeta pm overall' left).2).1.code,
                (loadLoopAmong rest (configureMeta pm overall' left).1
                  (configureMeta pm overall' left).2).2) ↔
              LoadAnswers rest (configureMeta pm .ok left).2) := by
          intro overall' hok hgave'
          obtain ⟨hshm', hstored⟩ := configureMeta_cases pm overall' left
          rw [configureMeta_state pm .ok overall' left, ← hshm, ← hshm']
          rcases hstored with hbusy | ⟨hsame, hmet⟩
          · exact ih _ _ (.inr hbusy) fun _ => hbusy
          · rw [hsame]
            exact ih _ _ hok fun hmem => hgave' (hmet hmem)
        cases outcome with
        | none => exact hrest .errBusy (.inr rfl) fun _ => rfl
        | some rc =>
            obtain ⟨hmet, hfull⟩ := hends.resolve_left (Option.some_ne_none rc)
            have hgave' : .gaveUp ∈ left.met → overall = .errBusy := fun h => hgave (hmet.mp h)
            cases rc with
            | errFull =>
                obtain ⟨held, hseen, hall⟩ := hfull rfl
                exact tellsApart_full (.loadConfig parsed) hseen (.inr hall)
            | _ => exact hrest overall hoverall hgave'

end Loading

/-! ## Every call -/

/-- The code of a call says what it has met exactly when the call answers for every retry loop
that it gives up. -/
theorem tellsApart_iff (h : IndurtdbH) (others : Others) (op : HandleOp) :
    TellsApart h.shm op (op.run (.start h others)) ↔ op.Answers (.start h others) := by
  have hnone : .gaveUp ∉ (CallState.start h others).met := List.not_mem_nil
  cases op with
  | write id value now =>
      exact iff_of_true (writeQualityTsAmong_tells _ _ _ _ _ hnone fun _ h => h) trivial
  | writeTs id value sourceTsNs now =>
      exact iff_of_true (writeQualityTsAmong_tells _ _ _ _ _ hnone fun _ h => h) trivial
  | writeQualityTs id type value sourceTsNs quality now =>
      exact iff_of_true (writeQualityTsAmong_tells _ _ _ _ _ hnone fun _ h => h) trivial
  | setQuality id quality => exact setQualityAmong_tells_iff id quality hnone
  | setMeta id m => exact iff_of_true (setMetaAmong_tells id m hnone) trivial
  | getMeta id => exact iff_of_true (getMetaAmong_tells id hnone) trivial
  | findByNameIn partition name =>
      exact iff_of_true (findByNameInAmong_tells partition name hnone) trivial
  | createPointIn partition id name type access =>
      exact createAmong_tells_iff partition id name type access hnone
  | deletePointIn partition id => exact iff_of_true (deleteAmong_tells partition id hnone) trivial
  | renamePointIn partition id name =>
      exact renameAmong_tells_iff (c := .start h others) partition id name rfl
  | loadConfig parsed =>
      rw [HandleOp.run, loadConfigAmong.eq_def]
      cases parsed with
      | none => exact iff_of_true ((tellsApart_plain (.inr rfl)).mpr hnone) trivial
      | some batch =>
          rw [HandleOp.Answers]
          dsimp only
          split
          next hempty =>
            refine iff_of_true ((tellsApart_plain (.inr rfl)).mpr hnone) fun hpoints hmax => ?_
            exact absurd hempty (not_or.mpr ⟨hpoints, hmax⟩)
          next hthere =>
            obtain ⟨hpoints, hmax⟩ := not_or.mp hthere
            rw [forall_prop_of_true hpoints, forall_prop_of_true hmax]
            exact loadLoopAmong_tells_iff (some batch) batch .ok _ (.inl rfl)
              fun hgave => absurd hgave hnone

/-- Point 0 is registered as `t`. -/
def handleOfT : IndurtdbH := (indurtdbHCreatePointIn (freshHandle 2 1 7) 0 0 letterT 1 3).2

/-- Somebody has taken the lock. -/
def heldByOther : Others := [fun seg => seg.setWriteSeq 5]

/-- Somebody holds the lock while a quality is set: the call answers that there is no such
point. -/
theorem not_tellsApart :
    (handleOfT.seg.points 0).name = letterT ∧
      ((HandleOp.setQuality 0 2).run (.start handleOfT heldByOther)).1 = Rc.errNotFound.code ∧
      ¬ TellsApart handleOfT.shm (.setQuality 0 2)
        ((HandleOp.setQuality 0 2).run (.start handleOfT heldByOther)) := by
  refine ⟨by decide +kernel, by decide +kernel, fun htells => ?_⟩
  have hnone : .gaveUp ∉ (CallState.start handleOfT heldByOther).met := List.not_mem_nil
  refine (setQualityAmong_tells_iff 0 2 hnone).mp htells ⟨by decide +kernel, ?_, trivial⟩
  decide +kernel

end InduRtdb.Api
