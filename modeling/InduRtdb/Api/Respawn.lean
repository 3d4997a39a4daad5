/-
  Api/Respawn.lean --- a worker that starts again on the segment its predecessor
  left behind.

  Source: `rtdbd/src/rtdbd.c` (`main`: open, load the configuration, replay the
  delta log), `src/api/indurtdb.c`.

  The surviving segment already holds what the log leads to.  The load first puts
  the configured points back to their configured names, and the replay then runs
  the whole history again over names that are partly those of the beginning and
  partly those of the end.  A creation or a renaming may meet a name that another
  point holds only at the end; it is then refused, and nobody is told.
-/
import InduRtdb.Api.Reload
import InduRtdb.Spec.Replay

set_option autoImplicit false

namespace InduRtdb.Api

open InduRtdb.Core InduRtdb.Spec

/-! ## Names of a registry -/

/-- The name an id is registered under. -/
def namesOf {n : Nat} (r : PointRegistry n) (id : Nat) : Option CStr := (r.holds id).map Prod.snd

/-- Everything is registered in partition 0. -/
def InPartitionZero {n : Nat} (r : PointRegistry n) : Prop :=
  ∀ id key, r.holds id = some key → key.1 = 0

section Names

variable {n : Nat} {r : PointRegistry n} {id : Nat} {name : CStr}

theorem namesOf_eq_none_iff : namesOf r id = none ↔ r.holds id = none := by
  rw [namesOf, Option.map_eq_none_iff]

theorem InPartitionZero.namesOf_eq_some_iff (h : InPartitionZero r) :
    namesOf r id = some name ↔ r.holds id = some (0, name) := by
  rw [namesOf, Option.map_eq_some_iff]
  constructor
  · rintro ⟨⟨partition, name'⟩, hkey, rfl⟩
    obtain rfl : partition = 0 := h id _ hkey
    exact hkey
  · intro hkey
    exact ⟨_, hkey, rfl⟩

theorem namesOf_assign (hid : id < n) (hfree : ¬ r.Taken (0, name) id) :
    namesOf (r.assign id (0, name) hid hfree) = Function.update (namesOf r) id (some name) := by
  funext k
  rcases eq_or_ne k id with rfl | hne
  · simp only [namesOf, Registry.assign, Function.update_self, Option.map_some]
  · simp only [namesOf, Registry.assign, Function.update_of_ne hne]

theorem namesOf_clear : namesOf (r.clear id) = Function.update (namesOf r) id none := by
  funext k
  rcases eq_or_ne k id with rfl | hne
  · simp only [namesOf, Registry.clear, Function.update_self, Option.map_none]
  · simp only [namesOf, Registry.clear, Function.update_of_ne hne]

theorem InPartitionZero.assign (h : InPartitionZero r) (hid : id < n)
    (hfree : ¬ r.Taken (0, name) id) : InPartitionZero (r.assign id (0, name) hid hfree) := by
  intro k key hkey
  rcases eq_or_ne k id with rfl | hne
  · simp only [Registry.assign, Function.update_self, Option.some.injEq] at hkey
    rw [← hkey]
  · simp only [Registry.assign, Function.update_of_ne hne] at hkey
    exact h k key hkey

theorem InPartitionZero.clear (h : InPartitionZero r) : InPartitionZero (r.clear id) := by
  intro k key hkey
  rcases eq_or_ne k id with rfl | hne
  · simp only [Registry.clear, Function.update_self, reduceCtorEq] at hkey
  · simp only [Registry.clear, Function.update_of_ne hne] at hkey
    exact h k key hkey

theorem Refines.namesOf_eq_none_iff {seg : Segment} (href : Refines n seg r) (hid : id < n) :
    namesOf r id = none ↔ (seg.points id).name = CStr.empty := by
  rw [Api.namesOf_eq_none_iff, href.holds id hid, pointKey_eq_none_iff]

end Names

/-! ## Calls as changes of names -/

namespace ChangeOp

/-- The id a call is about. -/
def id : ChangeOp → Nat
  | create _ id _ _ _ => id
  | delete _ id => id
  | rename _ id _ => id

/-- The change of names a call stands for. -/
def change : ChangeOp → Change CStr
  | create _ id name _ _ => .create id name
  | delete _ id => .delete id
  | rename _ id name => .rename id name

theorem change_id (op : ChangeOp) : op.change.id = op.id := by
  cases op <;> rfl

/-- A call in partition 0 whose arguments are legal. -/
def Ready (n : Nat) : ChangeOp → Prop
  | create partition id name type access =>
      partition = 0 ∧ id < n ∧ (∃ pn : PointName, pn.str = name) ∧ WellFormed type access
  | delete partition id => partition = 0 ∧ id < n
  | rename partition id name => partition = 0 ∧ id < n ∧ ∃ pn : PointName, pn.str = name

theorem Ready.id_lt {n : Nat} {op : ChangeOp} (h : op.Ready n) : op.id < n := by
  cases op with
  | create => exact h.2.1
  | delete => exact h.2
  | rename => exact h.2.1

end ChangeOp

/-! ## The live history -/

section Live

variable {s : IrtShm} (hn : s.maxPoints < irtIndexTombstone)
  (htwo : 2 * s.maxPoints ≤ irtLayoutBuckets s.maxPoints)
include hn htwo

/-- A successful call either changes the names as it says, or is a renaming to
the name the point already has. -/
theorem ChangeOp.run_live {seg : Segment} {r : PointRegistry s.maxPoints}
    (href : Refines s.maxPoints seg r) (htight : TightFor s.maxPoints seg r)
    (hzero : InPartitionZero r) {op : ChangeOp} (hplain : op.Plain) {delta : Option (List UInt8)}
    (hok : (op.run ⟨s, seg, delta⟩).1 = .ok) :
    ∃ seg' delta' r', (op.run ⟨s, seg, delta⟩) = (.ok, ⟨s, seg', delta'⟩) ∧
      seg'.hdr.offMeta = seg.hdr.offMeta ∧ Refines s.maxPoints seg' r' ∧
      TightFor s.maxPoints seg' r' ∧ InPartitionZero r' ∧
      (op.isNoop ⟨s, seg, delta⟩ = true → namesOf r' = namesOf r) ∧
      (op.isNoop ⟨s, seg, delta⟩ = false → op.Ready s.maxPoints ∧ op.change.Legal (namesOf r) ∧
        namesOf r' = op.change.apply (namesOf r)) := by
  have hroom : IndexRoom s.maxPoints seg := htight.tight.room href.covers.below htwo
  have hstep : ∀ {res : Rc × IndurtdbH} {spec : Rc × PointRegistry s.maxPoints},
      StepRefines ⟨s, seg, delta⟩ r res spec → res.1 = .ok →
      ∃ seg' delta', res = (.ok, ⟨s, seg', delta'⟩) ∧ spec.1 = .ok ∧
        seg'.hdr.offMeta = seg.hdr.offMeta ∧ Refines s.maxPoints seg' spec.2 ∧
        TightFor s.maxPoints seg' spec.2 := by
    rintro ⟨rc, shm, seg', delta'⟩ spec hres hrc
    obtain rfl : shm = s := hres.shm
    obtain rfl : rc = .ok := hrc
    exact ⟨seg', delta', rfl, hres.code.symm, hres.offMeta, hres.refines, hres.tight htight⟩
  cases op with
  | create partition id name type access =>
      obtain ⟨rfl, hfits⟩ := hplain
      have hne : name ≠ CStr.empty := by
        rintro rfl
        simp [ChangeOp.run, indurtdbHCreatePointIn] at hok
      obtain ⟨seg', delta', hrun, hspec, hmeta, href', htight'⟩ := hstep
        (create_refines (h := ⟨s, seg, delta⟩) href hn
          ⟨name, hne, hfits⟩ type access fun _ _ => hroom.roomFor _ _ _) hok
      obtain ⟨hwf, hnone, hid, hfree, hassign⟩ := Registry.create_of_ok hspec
      rw [hassign] at href' htight'
      refine ⟨seg', delta', _, hrun, hmeta, href', htight', hzero.assign hid hfree, fun h => ?_,
        fun _ => ?_⟩
      · cases h
      · exact ⟨⟨rfl, hid, ⟨⟨name, hne, hfits⟩, rfl⟩, hwf⟩, Api.namesOf_eq_none_iff.mpr hnone,
          namesOf_assign hid hfree⟩
  | delete partition id =>
      obtain rfl : partition = 0 := hplain
      obtain ⟨seg', delta', hrun, hspec, hmeta, href', htight'⟩ := hstep
        (delete_refines (h := ⟨s, seg, delta⟩) href hn) hok
      obtain ⟨hid, ⟨old, hold⟩, hclear⟩ := Registry.delete_of_ok hspec
      rw [hclear] at href' htight'
      refine ⟨seg', delta', _, hrun, hmeta, href', htight', hzero.clear, fun h => ?_, fun _ => ?_⟩
      · cases h
      · refine ⟨⟨rfl, hid⟩, ?_, namesOf_clear⟩
        rw [ChangeOp.change, Change.Legal, Ne, Api.namesOf_eq_none_iff, hold]
        exact Option.some_ne_none _
  | rename partition id name =>
      obtain ⟨rfl, hfits⟩ := hplain
      have hne : name ≠ CStr.empty := by
        rintro rfl
        simp [ChangeOp.run, indurtdbHRenamePointIn] at hok
      obtain ⟨seg', delta', hrun, hspec, hmeta, href', htight'⟩ := hstep
        (rename_refines (h := ⟨s, seg, delta⟩) href hn
          ⟨name, hne, hfits⟩ fun _ _ _ _ => hroom) hok
      obtain ⟨⟨old, hold⟩, hid, hfree, hassign⟩ := Registry.rename_of_ok hspec
      rw [hassign] at href' htight'
      refine ⟨seg', delta', _, hrun, hmeta, href', htight', hzero.assign hid hfree, fun h => ?_,
        fun _ => ?_⟩
      · -- the point already carries the name
        have h64 : ∀ {c : CStr}, c.bytes.length ≤ nameMax → c.bytes.length ≤ 64 := by
          intro c hc
          simp only [nameMax] at hc
          omega
        have hsame : (seg.points id).name = name :=
          (CStr.strncmpEq_iff (h64 (href.covers.names id hid)) (h64 hfits)).mp h
        obtain rfl : old = name := (href.holds_iff.mp hold).2.2.2.symm.trans hsame
        rw [Registry.assign_of_holds hold]
      · refine ⟨⟨rfl, hid, ⟨name, hne, hfits⟩, rfl⟩, ?_, namesOf_assign hid hfree⟩
        rw [ChangeOp.change, Change.Legal, Ne, Api.namesOf_eq_none_iff, hold]
        exact Option.some_ne_none _

/-- A successful history makes legal changes of names, namely those it logs. -/
theorem runChanges_live :
    ∀ (history : List ChangeOp) (seg : Segment) (r : PointRegistry s.maxPoints)
      (delta : Option (List UInt8)) (live : IndurtdbH), Refines s.maxPoints seg r →
      TightFor s.maxPoints seg r → InPartitionZero r → (∀ op ∈ history, op.Plain) →
      runChanges ⟨s, seg, delta⟩ history = some live →
      ∃ seg' delta' r', live = ⟨s, seg', delta'⟩ ∧ seg'.hdr.offMeta = seg.hdr.offMeta ∧
        Refines s.maxPoints seg' r' ∧ TightFor s.maxPoints seg' r' ∧ InPartitionZero r' ∧
        (∀ op ∈ loggedOps ⟨s, seg, delta⟩ history, op.Ready s.maxPoints) ∧
        LegalRun (namesOf r) ((loggedOps ⟨s, seg, delta⟩ history).map ChangeOp.change) ∧
        afterChanges (namesOf r) ((loggedOps ⟨s, seg, delta⟩ history).map ChangeOp.change) =
          namesOf r' := by
  intro history
  induction history with
  | nil =>
      intro seg r delta live href htight hzero _ hrun
      obtain rfl := Option.some.inj hrun
      exact ⟨seg, delta, r, rfl, rfl, href, htight, hzero, by simp [loggedOps], trivial, rfl⟩
  | cons op history ih =>
      intro seg r delta live href htight hzero hplain hrun
      have hok : (op.run ⟨s, seg, delta⟩).1 = .ok := by
        rw [runChanges] at hrun
        split at hrun
        · rename_i heq
          rw [heq]
        · cases hrun
      obtain ⟨seg₁, delta₁, r₁, hcall, hmeta₁, href₁, htight₁, hzero₁, hsame, hchange⟩ :=
        op.run_live hn htwo href htight hzero (hplain op (List.mem_cons_self ..)) hok
      rw [runChanges, hcall] at hrun
      obtain ⟨seg', delta', r', hlive, hmeta', href', htight', hzero', hready, hlegal, hafter⟩ :=
        ih seg₁ r₁ delta₁ live href₁ htight₁ hzero₁
          (fun op hop => hplain op (List.mem_cons_of_mem _ hop)) hrun
      refine ⟨seg', delta', r', hlive, hmeta'.trans hmeta₁, href', htight', hzero', ?_⟩
      rw [loggedOps, hcall]
      cases hnoop : op.isNoop ⟨s, seg, delta⟩ with
      | true =>
          rw [if_pos rfl, ← hsame hnoop]
          exact ⟨hready, hlegal, hafter⟩
      | false =>
          obtain ⟨hop, hlegalop, happly⟩ := hchange hnoop
          rw [if_neg Bool.false_ne_true]
          refine ⟨?_, ⟨hlegalop, ?_⟩, ?_⟩
          · intro op' hop'
            rcases List.mem_cons.mp hop' with rfl | hop'
            · exact hop
            · exact hready op' hop'
          · rw [← happly]
            exact hlegal
          · rw [List.map_cons, afterChanges, List.foldl_cons, ← happly]
            exact hafter

end Live

/-! ## A full index -/

section Full

variable {h : IndurtdbH} {r : PointRegistry h.shm.maxPoints} {partition : UInt32} {id : Nat}
  (href : Refines h.shm.maxPoints h.seg r) (hn : h.shm.maxPoints < irtIndexTombstone)
include href hn

/-- A creation that finds no bucket for its entry is undone. -/
theorem create_full (name : PointName) {type access : Int} (hwf : WellFormed type access)
    (hid : id < h.shm.maxPoints) (hnone : r.holds id = none)
    (hfree : ¬ r.Taken (partition, name.str) id)
    (hfull : ¬ RoomFor h.shm.maxPoints h.seg partition name.str id) :
    ∃ seg' delta', (indurtdbHCreatePointIn h partition id name.str type access).2 =
        ⟨h.shm, seg', delta'⟩ ∧ Refines h.shm.maxPoints seg' r := by
  have htaken : nameTaken h partition name.str id = true ↔ r.Taken (partition, name.str) id :=
    nameTaken_iff href hn name
  have htype : ¬ (type < 0 ∨ (indurtdbTypeFloat : Int) < type) := by
    have := hwf.1
    omega
  have haccess : ¬ (access ≠ indurtdbAccessReadOnly.toNat ∧
      access ≠ indurtdbAccessReadWrite.toNat) := by
    rintro ⟨hro, hrw⟩
    rcases hwf.2 with hacc | hacc
    · exact hro hacc
    · exact hrw hacc
  have hnamed : (h.seg.points id).name = CStr.empty := by
    rw [← pointKey_eq_none_iff, ← href.holds id hid, hnone]
  have hcond : (((h.seg.setWriteSeq (u64 (h.seg.hdr.writeSeq + 1))).points id).name.isEmpty)
      = true := CStr.isEmpty_iff.mpr hnamed
  have hend := irtSeqlockWriteEnd_even href.even
  unfold indurtdbHCreatePointIn
  rw [if_neg (by simp [CStr.isEmpty_eq_false_iff.mpr name.nonempty]), if_neg htype,
    if_neg haccess, if_neg (by omega), if_neg (by rwa [htaken]), withWriteLock_of_even href.even,
    registerLocked, if_pos hcond]
  obtain ⟨reg, hreg⟩ : ∃ reg, reg =
      (hPointRegister (h.seg.setWriteSeq (u64 (h.seg.hdr.writeSeq + 1))) partition id name.str
        (.ofNat type.toNat) (.ofNat access.toNat)).setWriteSeq
          (irtSeqlockWriteEnd h.seg.hdr.writeSeq) := ⟨_, rfl⟩
  obtain ⟨p, hp, hkey⟩ : ∃ p : IndurtdbPoint,
      reg.points = Function.update h.seg.points id p ∧ p.HasKey partition name.str := by
    rw [hreg]
    exact ⟨_, rfl, rfl, name.stored⟩
  have hregEven : reg.hdr.writeSeq % 2 = 0 := by
    rw [hreg]
    exact hend
  have hslots : reg.slots = h.seg.slots := by rw [hreg]; rfl
  have hoffIndex : reg.hdr.offIndex = h.seg.hdr.offIndex := by rw [hreg]; rfl
  have hoffPoints : reg.hdr.offPoints = h.seg.hdr.offPoints := by rw [hreg]; rfl
  have hoffMeta : reg.hdr.offMeta = h.seg.hdr.offMeta := by rw [hreg]; rfl
  have hcount : reg.hdr.indexCount = h.seg.hdr.indexCount := by rw [hreg]; rfl
  have hcov : IndexCovers h.shm.maxPoints (· = id) reg :=
    (href.covers.mono fun _ h => h.elim).overwrite rfl (by rw [hkey.2]; exact name.fits) hp
      hslots hoffIndex hoffPoints
  have hinsert : irtIndexInsert h.shm reg partition name.str id =
      (.errFull, (withPartition reg id partition).setWriteSeq
        (irtSeqlockWriteEnd reg.hdr.writeSeq)) := by
    have hpart : (reg.points id).partition = partition := by
      rw [hp, Function.update_self, hkey.1]
    have hsame : ∀ w, (withPartition (reg.setWriteSeq w) id partition).points = reg.points := by
      intro w
      simp only [withPartition, Segment.setPoint, Segment.setWriteSeq, ← hpart,
        Function.update_eq_self]
    rw [irtIndexInsert, withWriteLock_of_even hregEven]
    rcases irtIndexInsertLocked_cases (s := h.shm) partition id
        (show (reg.setWriteSeq (u64 (reg.hdr.writeSeq + 1))).hdr.offIndex ≠ 0 from hcov.offIndex)
        hcov.offPoints hcov.names name.nonempty name.fits hcov.below hid with
      ⟨i, _, hreach, hhash, _, hlt, howner⟩ | ⟨i, _, hreach, hdead⟩ | ⟨heq, _⟩
    · exfalso
      rw [hsame, hp] at howner
      rw [Segment.setWriteSeq_slots, hslots] at howner hhash hlt
      by_cases hpid : (h.seg.slots i).pointId = id
      · refine hfull ⟨i, hreach.lt, Or.inr ?_⟩
        rw [← hhash, ← hpid]
      · rw [Function.update_of_ne hpid] at howner
        refine hfree ⟨_, hpid, href.holds_iff.mpr ⟨hlt, ?_, howner⟩⟩
        rw [howner.2]
        exact name.nonempty
    · rw [Segment.setWriteSeq_slots, hslots] at hdead
      exact absurd ⟨i, hreach.lt, Or.inl hdead⟩ hfull
    · rw [heq]
      rfl
  rw [← hreg]
  simp only [hinsert]
  have heven' := irtSeqlockWriteEnd_even hregEven
  refine ⟨_, h.delta, rfl, ?_⟩
  refine href.unnamed (p := { ((withPartition reg id partition).points id) with
    name := CStr.empty }) hnamed rfl ?_
  rw [unregister, withWriteLock_of_even (show ((withPartition reg id partition).setWriteSeq
    (irtSeqlockWriteEnd reg.hdr.writeSeq)).hdr.writeSeq % 2 = 0 from heven')]
  refine ⟨irtSeqlockWriteEnd_even heven', ?_, hslots, hoffIndex, hoffPoints, hoffMeta, hcount⟩
  simp only [Segment.setWriteSeq, Segment.setPoint, withPartition, hp, Function.update_idem]

/-- A renaming that finds no bucket for its new entry changes nothing. -/
theorem rename_full (name : PointName) {old : CStr} (hheld : r.holds id = some (partition, old))
    (hne : old ≠ name.str) (hfree : ¬ r.Taken (partition, name.str) id)
    (hfull : ¬ IndexRoom h.shm.maxPoints h.seg) :
    ∃ seg' delta', (indurtdbHRenamePointIn h partition id name.str).2 = ⟨h.shm, seg', delta'⟩ ∧
      Refines h.shm.maxPoints seg' r := by
  obtain ⟨hid, hnamed, hpart, hname⟩ := href.holds_iff.mp hheld
  have htaken : nameTaken h partition name.str id = true ↔ r.Taken (partition, name.str) id :=
    nameTaken_iff href hn name
  have hnot : ¬ h.seg.hdr.writeSeq % 2 = 1 := by
    have := href.even
    omega
  unfold indurtdbHRenamePointIn
  rw [if_neg (by simp [CStr.isEmpty_eq_false_iff.mpr name.nonempty]), if_neg (by omega),
    if_neg (by rwa [htaken])]
  simp only [irtSeqlockWriteBegin, if_pos href.even, if_neg hnot]
  generalize u64 (h.seg.hdr.writeSeq + 1) = seq
  have hsame : (withPartition (h.seg.setWriteSeq seq) id partition).points = h.seg.points := by
    simp only [withPartition, Segment.setPoint, Segment.setWriteSeq, ← hpart,
      Function.update_eq_self]
  have hlocked : renameLocked h.shm (h.seg.setWriteSeq seq) partition id name.str =
      (.failed .errFull, withPartition (h.seg.setWriteSeq seq) id partition) := by
    have h64 : ∀ {c : CStr}, c.bytes.length ≤ nameMax → c.bytes.length ≤ 64 := by
      intro c hc
      simp only [nameMax] at hc
      omega
    unfold renameLocked
    rw [if_neg, if_neg]
    · rcases irtIndexInsertLocked_cases (s := h.shm) partition id
          (show (h.seg.setWriteSeq seq).hdr.offIndex ≠ 0 from href.covers.offIndex)
          href.covers.offPoints href.covers.names name.nonempty name.fits href.covers.below hid with
        ⟨i, _, _, _, _, hlt, howner⟩ | ⟨i, _, hreach, hdead⟩ | ⟨heq, _⟩
      · exfalso
        rw [hsame] at howner
        rw [Segment.setWriteSeq_slots] at howner hlt
        by_cases hpid : (h.seg.slots i).pointId = id
        · rw [hpid] at howner
          exact hne (hname.symm.trans howner.2)
        · refine hfree ⟨_, hpid, href.holds_iff.mpr ⟨hlt, ?_, howner⟩⟩
          rw [howner.2]
          exact name.nonempty
      · exact absurd ⟨i, hreach.lt, hdead⟩ hfull
      · rw [heq]
    · rw [Segment.setWriteSeq_points, CStr.strncmpEq_iff (h64 (href.covers.names id hid))
        (h64 name.fits), hname]
      exact hne
    · rintro (hempty | hother)
      · exact hnamed (CStr.isEmpty_iff.mp hempty)
      · exact hother hpart
  rw [hlocked]
  refine ⟨_, h.delta, rfl, irtSeqlockWriteEnd_even href.even, ?_, ?_⟩
  · exact href.covers.of_tables rfl rfl hsame rfl
  · intro k hk
    rw [Segment.setWriteSeq_points, hsame]
    exact href.holds k hk

end Full

/-! ## The replay -/

/-- A replayed call would change something, but meets a name that another point
holds, or a full index. -/
def Refused (h : IndurtdbH) : ChangeOp → Prop
  | .create partition id name _ _ => (h.seg.points id).name = CStr.empty ∧
      (nameTaken h partition name id = true ∨
        ¬ RoomFor h.shm.maxPoints h.seg partition name id)
  | .delete _ _ => False
  | .rename partition id name => (h.seg.points id).name ≠ CStr.empty ∧
      (nameTaken h partition name id = true ∨
        ((h.seg.points id).name ≠ name ∧ ¬ IndexRoom h.shm.maxPoints h.seg))

/-- A later call puts the point right again: its deletion, or its renaming if it
is registered. -/
def MendedBy (h : IndurtdbH) (id : Nat) : ChangeOp → Prop
  | .create _ _ _ _ _ => False
  | .delete _ id' => id' = id
  | .rename _ id' _ => id' = id ∧ (h.seg.points id).name ≠ CStr.empty

/-- Every call that is refused while these calls are replayed is followed by one
that puts its point right again. -/
def RefusalsMended (h : IndurtdbH) : List ChangeOp → Prop
  | [] => True
  | op :: ops =>
      (Refused h op → ∃ later ∈ ops, MendedBy h op.id later) ∧ RefusalsMended (op.run h).2 ops

instance (h : IndurtdbH) (op : ChangeOp) : Decidable (Refused h op) :=
  match op with
  | .create _ _ _ _ _ => inferInstanceAs (Decidable (_ ∧ (_ ∨ ¬ ∃ i, i < _ ∧ _)))
  | .delete _ _ => inferInstanceAs (Decidable False)
  | .rename _ _ _ => inferInstanceAs (Decidable (_ ∧ (_ ∨ (_ ∧ ¬ ∃ i, i < _ ∧ _))))

instance (h : IndurtdbH) (id : Nat) (op : ChangeOp) : Decidable (MendedBy h id op) :=
  match op with
  | .create _ _ _ _ _ => inferInstanceAs (Decidable False)
  | .delete _ _ => inferInstanceAs (Decidable (_ = _))
  | .rename _ _ _ => inferInstanceAs (Decidable (_ ∧ _))

instance instDecidableRefusalsMended :
    ∀ (h : IndurtdbH) (ops : List ChangeOp), Decidable (RefusalsMended h ops)
  | _, [] => .isTrue trivial
  | h, op :: ops =>
      have := instDecidableRefusalsMended (op.run h).2 ops
      inferInstanceAs (Decidable ((Refused h op → _) ∧ _))

section Replay

variable {s : IrtShm} (hn : s.maxPoints < irtIndexTombstone)
include hn

omit hn in
theorem mends_change_iff {seg : Segment} {r : PointRegistry s.maxPoints}
    (href : Refines s.maxPoints seg r) (delta : Option (List UInt8)) {id : Nat}
    (hid : id < s.maxPoints) (later : ChangeOp) :
    later.change.Mends (namesOf r id) id ↔ MendedBy ⟨s, seg, delta⟩ id later := by
  cases later with
  | create => simp [ChangeOp.change, Change.Mends, MendedBy]
  | delete => simp [ChangeOp.change, Change.Mends, MendedBy, Change.id]
  | rename =>
      simp only [ChangeOp.change, Change.Mends, MendedBy, Change.id, Ne,
        href.namesOf_eq_none_iff hid]

/-- What the replay of a call may do: the call is refused, does not apply, or
changes the names as it says. -/
def ReplaysAs (s : IrtShm) (seg : Segment) (r : PointRegistry s.maxPoints)
    (delta : Option (List UInt8)) (op : ChangeOp) : Prop :=
  ∃ seg' delta' r', (op.run ⟨s, seg, delta⟩).2 = ⟨s, seg', delta'⟩ ∧
    Refines s.maxPoints seg' r' ∧ InPartitionZero r' ∧
    ReplayStep (namesOf r) op.change (Refused ⟨s, seg, delta⟩ op) (namesOf r')

section Step

variable {seg : Segment} {r : PointRegistry s.maxPoints} (href : Refines s.maxPoints seg r)
  (hzero : InPartitionZero r) (delta : Option (List UInt8)) {id : Nat}

omit hn in
theorem replayed_eq {res : Rc × IndurtdbH} {spec : Rc × PointRegistry s.maxPoints}
    (hres : StepRefines ⟨s, seg, delta⟩ r res spec) :
    ∃ seg' delta', res.2 = ⟨s, seg', delta'⟩ ∧ Refines s.maxPoints seg' spec.2 := by
  obtain ⟨rc, shm, seg', delta'⟩ := res
  obtain rfl : shm = s := hres.shm
  exact ⟨seg', delta', rfl, hres.refines⟩

include href hzero

theorem create_replaysAs (hid : id < s.maxPoints) (pn : PointName) {type access : Int}
    (hwf : WellFormed type access) :
    ReplaysAs s seg r delta (.create 0 id pn.str type access) := by
  have htaken : nameTaken ⟨s, seg, delta⟩ 0 pn.str id = true ↔ r.Taken (0, pn.str) id :=
    nameTaken_iff (h := ⟨s, seg, delta⟩) href hn pn
  have hfree : (seg.points id).name = CStr.empty ↔ r.holds id = none := by
    rw [← href.namesOf_eq_none_iff hid, Api.namesOf_eq_none_iff]
  have hrefused : Refused ⟨s, seg, delta⟩ (.create 0 id pn.str type access) ↔
      r.holds id = none ∧
        (r.Taken (0, pn.str) id ∨ ¬ RoomFor s.maxPoints seg 0 pn.str id) := by
    rw [Refused, hfree, htaken]
  rw [ReplaysAs, hrefused]
  by_cases hfull : r.holds id = none ∧ ¬ r.Taken (0, pn.str) id ∧
      ¬ RoomFor s.maxPoints seg 0 pn.str id
  · obtain ⟨hnone, hnot, hroom⟩ := hfull
    obtain ⟨seg', delta', hcall, href'⟩ := create_full (h := ⟨s, seg, delta⟩)
      href hn pn hwf hid hnone hnot hroom
    refine ⟨seg', delta', r, hcall, href', hzero, ⟨fun _ => rfl, ?_, fun _ => ⟨?_, ?_⟩⟩⟩
    · exact fun hnot' _ => absurd ⟨hnone, Or.inr hroom⟩ hnot'
    · exact Option.some_ne_none _
    · change namesOf r id ≠ some pn.str
      rw [Api.namesOf_eq_none_iff.mpr hnone]
      exact (Option.some_ne_none _).symm
  · obtain ⟨seg', delta', hcall, href'⟩ := replayed_eq delta (create_refines (h := ⟨s, seg, delta⟩)
      href hn pn type access fun hnone hnot => by
        by_contra hroom
        exact hfull ⟨hnone, hnot, hroom⟩)
    by_cases hmade : r.holds id = none ∧ ¬ r.Taken (0, pn.str) id
    · obtain ⟨hnone, hnot⟩ := hmade
      rw [Registry.create_eq_assign hwf hid hnot hnone] at href'
      have haccepted : ¬ (r.holds id = none ∧
          (r.Taken (0, pn.str) id ∨ ¬ RoomFor s.maxPoints seg 0 pn.str id)) := by
        rintro ⟨_, htakes | hroom⟩
        · exact hnot htakes
        · exact hfull ⟨hnone, hnot, hroom⟩
      refine ⟨seg', delta', _, hcall, href', hzero.assign hid hnot, ⟨?_, ?_, ?_⟩⟩
      · rintro (hrefuse | hskip)
        · exact absurd hrefuse haccepted
        · exact absurd (Api.namesOf_eq_none_iff.mpr hnone) hskip
      · exact fun _ _ => namesOf_assign hid hnot
      · exact fun hrefuse => absurd hrefuse haccepted
    · have htakes : r.holds id = none → r.Taken (0, pn.str) id := by
        intro hnone
        by_contra hnot
        exact hmade ⟨hnone, hnot⟩
      rw [Registry.create_eq_self htakes] at href'
      refine ⟨seg', delta', r, hcall, href', hzero, ⟨fun _ => rfl, ?_, ?_⟩⟩
      · intro haccepted happlies
        have hnone : r.holds id = none := Api.namesOf_eq_none_iff.mp happlies
        exact absurd ⟨hnone, Or.inl (htakes hnone)⟩ haccepted
      · rintro ⟨hnone, _⟩
        refine ⟨Option.some_ne_none _, ?_⟩
        change namesOf r id ≠ some pn.str
        rw [Api.namesOf_eq_none_iff.mpr hnone]
        exact (Option.some_ne_none _).symm

theorem delete_replaysAs (hid : id < s.maxPoints) : ReplaysAs s seg r delta (.delete 0 id) := by
  obtain ⟨seg', delta', hcall, href'⟩ := replayed_eq delta
    (delete_refines (h := ⟨s, seg, delta⟩) href hn)
  by_cases hheld : ∃ old, r.holds id = some (0, old)
  · rw [Registry.delete_eq_clear hid hheld] at href'
    refine ⟨seg', delta', _, hcall, href', hzero.clear, ⟨?_, fun _ _ => namesOf_clear, ?_⟩⟩
    · rintro (hrefuse | hskip)
      · exact hrefuse.elim
      · exact absurd trivial hskip
    · exact fun hrefuse => hrefuse.elim
  · rw [Registry.delete_eq_self hheld] at href'
    have hnone : namesOf r id = none := by
      cases hname : namesOf r id with
      | none => rfl
      | some old => exact absurd ⟨old, hzero.namesOf_eq_some_iff.mp hname⟩ hheld
    refine ⟨seg', delta', r, hcall, href', hzero, ⟨fun _ => rfl, fun _ _ => ?_, ?_⟩⟩
    · exact (Function.update_eq_self_iff.mpr hnone.symm).symm
    · exact fun hrefuse => hrefuse.elim

theorem rename_replaysAs (hid : id < s.maxPoints) (pn : PointName) :
    ReplaysAs s seg r delta (.rename 0 id pn.str) := by
  have htaken : nameTaken ⟨s, seg, delta⟩ 0 pn.str id = true ↔ r.Taken (0, pn.str) id :=
    nameTaken_iff (h := ⟨s, seg, delta⟩) href hn pn
  cases hname : namesOf r id with
  | none =>
      have hnone := Api.namesOf_eq_none_iff.mp hname
      have hheld : ¬ ∃ old, r.holds id = some (0, old) := by
        rintro ⟨old, hold⟩
        rw [hnone] at hold
        cases hold
      obtain ⟨seg', delta', hcall, href'⟩ := replayed_eq delta (rename_refines
        (h := ⟨s, seg, delta⟩) href hn pn
        fun old hold => absurd ⟨old, hold⟩ hheld)
      rw [Registry.rename_eq_self fun h => absurd h hheld] at href'
      refine ⟨seg', delta', r, hcall, href', hzero, fun _ => rfl, ?_, ?_⟩
      · exact fun _ happlies => absurd hname happlies
      · exact fun hrefuse => absurd ((href.namesOf_eq_none_iff hid).mp hname) hrefuse.1
  | some old =>
      have hold := hzero.namesOf_eq_some_iff.mp hname
      obtain ⟨_, hnamed, _, hstored⟩ := href.holds_iff.mp hold
      have hrefused : Refused ⟨s, seg, delta⟩ (.rename 0 id pn.str) ↔
          r.Taken (0, pn.str) id ∨ (old ≠ pn.str ∧ ¬ IndexRoom s.maxPoints seg) := by
        rw [Refused, htaken, and_iff_right hnamed, hstored]
      have hdiff : Refused ⟨s, seg, delta⟩ (.rename 0 id pn.str) →
          (Change.rename id pn.str).result ≠ none ∧
            namesOf r id ≠ (Change.rename id pn.str).result := by
        intro hrefuse
        refine ⟨Option.some_ne_none _, ?_⟩
        rw [hname]
        intro heq
        obtain rfl : old = pn.str := Option.some.inj heq
        rcases hrefused.mp hrefuse with ⟨k, hne, hk⟩ | ⟨hne, _⟩
        · exact hne (r.unique k id _ hk hold)
        · exact hne rfl
      by_cases hfull : old ≠ pn.str ∧ ¬ r.Taken (0, pn.str) id ∧ ¬ IndexRoom s.maxPoints seg
      · obtain ⟨hne, hnot, hroom⟩ := hfull
        obtain ⟨seg', delta', hcall, href'⟩ := rename_full (h := ⟨s, seg, delta⟩) href hn pn hold
          hne hnot hroom
        refine ⟨seg', delta', r, hcall, href', hzero, fun _ => rfl, ?_, hdiff⟩
        exact fun haccepted _ => absurd (hrefused.mpr (Or.inr ⟨hne, hroom⟩)) haccepted
      · obtain ⟨seg', delta', hcall, href'⟩ := replayed_eq delta (rename_refines
          (h := ⟨s, seg, delta⟩) href hn pn fun old' hold' hne hnot => by
            obtain rfl : old' = old :=
              congrArg Prod.snd (Option.some.inj (hold'.symm.trans hold))
            by_contra hroom
            exact hfull ⟨hne, hnot, hroom⟩)
        by_cases htakes : r.Taken (0, pn.str) id
        · rw [Registry.rename_eq_self fun _ => htakes] at href'
          refine ⟨seg', delta', r, hcall, href', hzero, fun _ => rfl, ?_, hdiff⟩
          exact fun haccepted _ => absurd (hrefused.mpr (Or.inl htakes)) haccepted
        · rw [Registry.rename_eq_assign hid htakes ⟨old, hold⟩] at href'
          refine ⟨seg', delta', _, hcall, href', hzero.assign hid htakes, ?_, ?_, hdiff⟩
          · rintro (hrefuse | hskip)
            · rcases hrefused.mp hrefuse with htakes' | ⟨hne, hroom⟩
              · exact absurd htakes' htakes
              · exact absurd ⟨hne, htakes, hroom⟩ hfull
            · refine absurd ?_ hskip
              change namesOf r id ≠ none
              rw [hname]
              exact Option.some_ne_none _
          · exact fun _ _ => namesOf_assign hid htakes

/-- A replayed call is refused, does not apply, or changes the names as it
says. -/
theorem ChangeOp.run_replayed {op : ChangeOp} (hready : op.Ready s.maxPoints) :
    ReplaysAs s seg r delta op := by
  cases op with
  | create partition id name type access =>
      obtain ⟨rfl, hid, ⟨pn, rfl⟩, hwf⟩ := hready
      exact create_replaysAs hn href hzero delta hid pn hwf
  | delete partition id =>
      obtain ⟨rfl, hid⟩ := hready
      exact delete_replaysAs hn href hzero delta hid
  | rename partition id name =>
      obtain ⟨rfl, hid, pn, rfl⟩ := hready
      exact rename_replaysAs hn href hzero delta hid pn

end Step

/-- The replay of some calls as a replay of changes of names. -/
theorem replayOps_run :
    ∀ (ops : List ChangeOp) (seg : Segment) (r : PointRegistry s.maxPoints)
      (delta : Option (List UInt8)), Refines s.maxPoints seg r → InPartitionZero r →
      (∀ op ∈ ops, op.Ready s.maxPoints) →
      ∃ seg' delta' r' mended, replayOps ⟨s, seg, delta⟩ ops = ⟨s, seg', delta'⟩ ∧
        Refines s.maxPoints seg' r' ∧ InPartitionZero r' ∧
        ReplayRun (namesOf r) (ops.map ChangeOp.change) mended (namesOf r') ∧
        (mended ↔ RefusalsMended ⟨s, seg, delta⟩ ops) := by
  intro ops
  induction ops with
  | nil =>
      intro seg r delta href hzero _
      exact ⟨seg, delta, r, True, rfl, href, hzero, .nil _, Iff.rfl⟩
  | cons op ops ih =>
      intro seg r delta href hzero hready
      have hop := hready op (List.mem_cons_self ..)
      obtain ⟨seg₁, delta₁, r₁, hcall, href₁, hzero₁, hstep⟩ :=
        op.run_replayed hn href hzero delta hop
      obtain ⟨seg', delta', r', mended, hrun, href', hzero', hrest, hmended⟩ :=
        ih seg₁ r₁ delta₁ href₁ hzero₁ fun op hop => hready op (List.mem_cons_of_mem _ hop)
      refine ⟨seg', delta', r', _, ?_, href', hzero', .cons hstep hrest, ?_⟩
      · rw [replayOps, List.foldl_cons, hcall]
        exact hrun
      · rw [RefusalsMended, hcall, hmended, op.change_id]
        simp only [List.mem_map, exists_exists_and_eq_and, mends_change_iff href delta hop.id_lt]

end Replay

/-! ## The worker -/

/-- `RTDBD_MAX_POINTS_LIMIT`. -/
abbrev rtdbdMaxPointsLimit : Nat := 1000000

/-- The start of a worker on a surviving segment: load, replay, and leave if the
load fails.  Opening changes nothing but the owner. -/
def respawn (h : IndurtdbH) (batch : List IrtPointMeta) (file : List UInt8) : Rc × IndurtdbH :=
  match indurtdbHLoadConfig { h with delta := none } batch with
  | (.ok, h) => (.ok, (indurtdbHDeltaReplay h file).2)
  | (rc, h) => (rc, h)

/-- Two handles show the same names, and every name that fits is found alike. -/
structure SameNames (a b : IndurtdbH) : Prop where
  names : ∀ id, id < a.shm.maxPoints → (a.seg.points id).name = (b.seg.points id).name
  found : ∀ (partition : UInt32) (name : CStr), name.bytes.length ≤ nameMax →
    indurtdbHFindByNameIn a partition name = indurtdbHFindByNameIn b partition name

/-- A worker started on the segment left behind gets through its start and shows
what was left behind. -/
def Restores (live : IndurtdbH) (batch : List IrtPointMeta) (file : List UInt8) : Prop :=
  (respawn live batch file).1 = .ok ∧ SameNames live (respawn live batch file).2

/-- What a worker leaves behind that creates a segment, loads its configuration
and makes a history of successful calls with the log enabled. -/
def leftBehind (maxPoints maxSubscribers pid : Nat) (batch : List IrtPointMeta)
    (history : List ChangeOp) : Option (IndurtdbH × List UInt8) :=
  (runChanges { baseHandle maxPoints maxSubscribers pid batch with delta := some [] }
    history).bind fun live => live.delta.map fun file => (live, file)

/-- A worker left the segment of `live` and the log behind. -/
structure WorkerRun (maxPoints maxSubscribers pid : Nat) (batch : List IrtPointMeta)
    (history : List ChangeOp) (live : IndurtdbH) (file : List UInt8) : Prop where
  limit : maxPoints ≤ rtdbdMaxPointsLimit
  base : BaseConfig batch
  loads : (indurtdbHLoadConfig (freshHandle maxPoints maxSubscribers pid) batch).1 = .ok
  plain : ∀ op ∈ history, op.Plain
  left : leftBehind maxPoints maxSubscribers pid batch history = some (live, file)

/-- A respawn is a no-op for every history on this configuration. -/
def RespawnIsNoop (batch : List IrtPointMeta) : Prop :=
  ∀ (maxPoints maxSubscribers pid : Nat) (history : List ChangeOp) (live : IndurtdbH)
    (file : List UInt8),
    WorkerRun maxPoints maxSubscribers pid batch history live file → Restores live batch file

/-! ### What the worker leaves behind -/

theorem layoutFits_of_limit {N : Nat} (h : N ≤ rtdbdMaxPointsLimit) : LayoutFits N := by
  have hbuckets : irtLayoutBuckets N ≤ 2 ^ 21 := by
    calc irtLayoutBuckets N ≤ irtLayoutBuckets rtdbdMaxPointsLimit := irtLayoutBuckets_mono h
      _ = 2 ^ 21 := by decide
  rw [layoutFits_iff]
  simp only [rtdbdMaxPointsLimit] at h
  omega

/-- The name a point of a configuration is registered under. -/
def IrtPointMeta.baseName (pm : IrtPointMeta) : Option CStr :=
  if pm.name = CStr.empty then none else some pm.name

section Load

variable {s : IrtShm} {batch : List IrtPointMeta} {seg seg' : Segment}
  {r : PointRegistry s.maxPoints}

theorem Refines.namesOf_eq (href : Refines s.maxPoints seg r) {id : Nat} (hid : id < s.maxPoints) :
    namesOf r id = if (seg.points id).name = CStr.empty then none
      else some (seg.points id).name := by
  rw [namesOf, href.holds id hid, pointKey]
  split
  · rename_i hempty
    rw [if_pos (CStr.isEmpty_iff.mp hempty)]
    rfl
  · rename_i hempty
    rw [if_neg fun hname => hempty (CStr.isEmpty_iff.mpr hname)]
    rfl

/-- After a load a configured id has its configured name. -/
theorem Loaded.namesOf_configured (hloaded : Loaded s batch seg seg')
    (href : Refines s.maxPoints seg' r) {pm : IrtPointMeta} (hmem : pm ∈ batch)
    (haccepted : pm.Accepted s) : namesOf r pm.id = pm.baseName := by
  rw [href.namesOf_eq haccepted.1, (hloaded.configured pm hmem haccepted).2,
    IrtPointMeta.baseName]

/-- After a load everything is in partition 0, if it was before. -/
theorem Loaded.inPartitionZero (hloaded : Loaded s batch seg seg')
    (href : Refines s.maxPoints seg' r)
    (hothers : ∀ id, id < s.maxPoints → ¬ Configures s batch id →
      (seg.points id).name ≠ CStr.empty → (seg.points id).partition = 0) :
    InPartitionZero r := by
  rintro id ⟨partition, name⟩ hkey
  obtain ⟨hid, hnamed, hpart, _⟩ := href.holds_iff.mp hkey
  by_cases hconf : Configures s batch id
  · obtain ⟨pm, hmem, haccepted, rfl⟩ := hconf
    exact hpart.symm.trans (hloaded.configured pm hmem haccepted).1
  · rw [hloaded.others id hconf] at hnamed hpart
    exact hpart.symm.trans (hothers id hid hconf hnamed)

end Load

/-- The base registry a worker starts its history on. -/
theorem baseHandle_refines {N M pid : Nat} {batch : List IrtPointMeta}
    (hlimit : N ≤ rtdbdMaxPointsLimit) (hbase : BaseConfig batch)
    (hload : (indurtdbHLoadConfig (freshHandle N M pid) batch).1 = .ok) :
    ∃ (seg : Segment) (r : PointRegistry N),
      baseHandle N M pid batch = ⟨irtShmRequest N M, seg, none⟩ ∧ Refines N seg r ∧
        TightFor N seg r ∧ InPartitionZero r ∧ seg.hdr.offMeta ≠ 0 ∧
        Readable (irtShmRequest N M) batch ∧ N ≠ 0 ∧
        ∀ pm ∈ batch, pm.Accepted (irtShmRequest N M) → namesOf r pm.id = pm.baseName := by
  have hfits := layoutFits_of_limit hlimit
  have hindex := hfits.indexOffsetFits
  have hlt := indexOffsetFits_iff.mp hindex
  have hn : (irtShmRequest N M).maxPoints < irtIndexTombstone := by
    simp only [irtShmRequest, irtIndexTombstone]
    omega
  have hmeta : (freshHandle N M pid).seg.hdr.offMeta ≠ 0 := by
    change irtLayoutOffMeta N ≠ 0
    rw [hfits.offMeta]
    omega
  have hguard : ¬ ((freshHandle N M pid).seg.hdr.offPoints = 0 ∨
      (freshHandle N M pid).shm.maxPoints = 0) := by
    intro hguard
    rw [indurtdbHLoadConfig, if_pos hguard] at hload
    cases hload
  have hload' := hload
  rw [indurtdbHLoadConfig, if_neg hguard] at hload'
  have hread := readable_of_load batch .ok _ hload'
  obtain ⟨href, htight⟩ := irtShmInitOwner_refines hindex M pid
  obtain ⟨seg, r, hloop, href', htight', hmeta', hloaded⟩ :=
    loadConfigLoop_fresh (s := irtShmRequest N M) hn hindex.two_mul_le batch _ _ hbase hread href
      htight hmeta (fun _ _ => rfl) (fun _ _ _ => (Option.some_ne_none _).symm)
  refine ⟨seg, r, ?_, href', htight', ?_, hmeta', hread, fun hzero => hguard (Or.inr hzero), ?_⟩
  · rw [baseHandle, indurtdbHLoadConfig, if_neg hguard]
    simp only [freshHandle] at hloop ⊢
    rw [hloop]
  · refine hloaded.inPartitionZero href' fun id hid _ hnamed => absurd ?_ hnamed
    rw [irtShmInitOwner_points hindex hid]
    rfl
  · exact fun pm hmem haccepted => hloaded.namesOf_configured href' hmem haccepted

/-- A surviving segment after the load stands for a registry again, in which the
configured ids have their configured names and the others are as they were. -/
theorem reload_refines {s : IrtShm} {batch : List IrtPointMeta} {seg : Segment}
    {r : PointRegistry s.maxPoints} (hn : s.maxPoints < irtIndexTombstone)
    (htwo : 2 * s.maxPoints ≤ irtLayoutBuckets s.maxPoints) (hpos : s.maxPoints ≠ 0)
    (hbase : BaseConfig batch) (hread : Readable s batch) (href : Refines s.maxPoints seg r)
    (htight : TightFor s.maxPoints seg r) (hzero : InPartitionZero r)
    (hmeta : seg.hdr.offMeta ≠ 0) (hfree : NamesFree s batch seg) :
    ∃ (seg' : Segment) (r' : PointRegistry s.maxPoints),
      indurtdbHLoadConfig ⟨s, seg, none⟩ batch = (.ok, ⟨s, seg', none⟩) ∧
        Refines s.maxPoints seg' r' ∧ InPartitionZero r' ∧
        (∀ pm ∈ batch, pm.Accepted s → namesOf r' pm.id = pm.baseName) ∧
        ∀ id, ¬ Configures s batch id → namesOf r' id = namesOf r id := by
  have hroom : liveEntries s.maxPoints seg +
      (batch.filter fun pm => decide (pm.Accepted s)).length ≤ irtLayoutBuckets s.maxPoints := by
    have hlive := liveEntries_le htight.tight href.covers.below
    have hlen := accepted_length_le (s := s) hbase
    omega
  obtain ⟨seg', hloop, heven', hcov', hloaded⟩ := loadConfigLoop_covers hn batch seg hbase hread
    (href.covers.mono fun _ h => h.elim) href.even hmeta hfree hroom
  have hkey : ∀ {id : Nat} {key : UInt32 × CStr}, pointKey (seg'.points id) = some key →
      (seg'.points id).name ≠ CStr.empty ∧ (seg'.points id).HasKey key.1 key.2 :=
    fun h => pointKey_eq_some_iff.mp h
  -- two points of one key: both configured, or both from before, or a configured name taken
  have hclash : ∀ pm ∈ batch, pm.Accepted s → ∀ id key, id < s.maxPoints →
      ¬ Configures s batch id → pointKey (seg'.points pm.id) = some key →
      pointKey (seg'.points id) = some key → False := by
    intro pm hmem haccepted id key hid hconf hpm hidkey
    obtain ⟨hnamed, hpmkey⟩ := hkey hpm
    have hstored := hloaded.configured pm hmem haccepted
    refine hfree pm hmem haccepted (hstored.2 ▸ hnamed) id hid hconf ?_
    rw [← hloaded.others id hconf]
    obtain ⟨_, hidkey'⟩ := hkey hidkey
    exact ⟨hidkey'.1.trans (hpmkey.1.symm.trans hstored.1),
      hidkey'.2.trans (hpmkey.2.symm.trans hstored.2)⟩
  obtain ⟨r', hr'⟩ : ∃ r' : PointRegistry s.maxPoints, ∀ id, id < s.maxPoints →
      r'.holds id = pointKey (seg'.points id) := by
    refine ⟨⟨fun id => if id < s.maxPoints then pointKey (seg'.points id) else none, ?_, ?_⟩,
      fun id hid => if_pos hid⟩
    · intro id key h
      by_contra hid
      rw [if_neg hid] at h
      cases h
    · intro id id' key h h'
      have hid : id < s.maxPoints := by
        by_contra hid
        rw [if_neg hid] at h
        cases h
      have hid' : id' < s.maxPoints := by
        by_contra hid'
        rw [if_neg hid'] at h'
        cases h'
      rw [if_pos hid] at h
      rw [if_pos hid'] at h'
      by_cases hconf : Configures s batch id
      · obtain ⟨pm, hmem, haccepted, rfl⟩ := hconf
        by_cases hconf' : Configures s batch id'
        · obtain ⟨pm', hmem', haccepted', rfl⟩ := hconf'
          have hnames : pm.name = pm'.name := by
            rw [← (hloaded.configured pm hmem haccepted).2, (hkey h).2.2, ← (hkey h').2.2,
              (hloaded.configured pm' hmem' haccepted').2]
          rw [List.inj_on_of_nodup_map hbase.names hmem hmem' hnames]
        · exact (hclash pm hmem haccepted id' key hid' hconf' h h').elim
      · by_cases hconf' : Configures s batch id'
        · obtain ⟨pm', hmem', haccepted', rfl⟩ := hconf'
          exact (hclash pm' hmem' haccepted' id key hid hconf h' h).elim
        · rw [hloaded.others id hconf, ← href.holds id hid] at h
          rw [hloaded.others id' hconf', ← href.holds id' hid'] at h'
          exact r.unique id id' key h h'
  have href' : Refines s.maxPoints seg' r' := ⟨heven', hcov', hr'⟩
  refine ⟨seg', r', ?_, href', ?_, ?_, ?_⟩
  · rw [indurtdbHLoadConfig, if_neg (not_or.mpr ⟨href.covers.offPoints, hpos⟩)]
    simp only [hloop]
  · refine hloaded.inPartitionZero href' fun id hid _ hnamed => ?_
    exact hzero id _ (href.holds_iff.mpr ⟨hid, hnamed, rfl, rfl⟩)
  · exact fun pm hmem haccepted => hloaded.namesOf_configured href' hmem haccepted
  · intro id hconf
    by_cases hid : id < s.maxPoints
    · rw [href'.namesOf_eq hid, href.namesOf_eq hid, hloaded.others id hconf]
    · have hnone : ∀ r : PointRegistry s.maxPoints, r.holds id = none := by
        intro r
        cases hkey : r.holds id with
        | none => rfl
        | some key => exact absurd (r.inRange id key hkey) hid
      rw [Api.namesOf_eq_none_iff.mpr (hnone r'), Api.namesOf_eq_none_iff.mpr (hnone r)]

/-! ### What the next worker makes of it -/

/-- Segments that stand for registries with the same names, all in partition 0,
show the same names and find them alike. -/
theorem sameNames_iff {s : IrtShm} (hn : s.maxPoints < irtIndexTombstone) {seg seg' : Segment}
    {r r' : PointRegistry s.maxPoints} (href : Refines s.maxPoints seg r)
    (href' : Refines s.maxPoints seg' r') (hzero : InPartitionZero r) (hzero' : InPartitionZero r')
    (delta delta' : Option (List UInt8)) :
    SameNames ⟨s, seg, delta⟩ ⟨s, seg', delta'⟩ ↔ namesOf r' = namesOf r := by
  constructor
  · intro hsame
    funext id
    by_cases hid : id < s.maxPoints
    · rw [href.namesOf_eq hid, href'.namesOf_eq hid, hsame.names id hid]
    · have hnone : ∀ r : PointRegistry s.maxPoints, r.holds id = none := by
        intro r
        cases hkey : r.holds id with
        | none => rfl
        | some key => exact absurd (r.inRange id key hkey) hid
      rw [Api.namesOf_eq_none_iff.mpr (hnone r'), Api.namesOf_eq_none_iff.mpr (hnone r)]
  · intro hnames
    have hholds : r' = r := by
      refine Registry.ext (funext fun id => ?_)
      cases hname : namesOf r id with
      | none =>
          rw [Api.namesOf_eq_none_iff.mp hname,
            Api.namesOf_eq_none_iff.mp ((congrFun hnames id).trans hname)]
      | some name =>
          rw [hzero.namesOf_eq_some_iff.mp hname,
            hzero'.namesOf_eq_some_iff.mp ((congrFun hnames id).trans hname)]
    subst hholds
    constructor
    · intro id hid
      have hkeys := (href.holds id hid).symm.trans (href'.holds id hid)
      by_cases hempty : (seg'.points id).name = CStr.empty
      · rw [pointKey_eq_none_iff.mpr hempty, pointKey_eq_none_iff] at hkeys
        rw [hkeys, hempty]
      · rw [pointKey_eq_some_iff.mpr ⟨hempty, rfl, rfl⟩, pointKey_eq_some_iff] at hkeys
        exact hkeys.2.2
    · intro partition name hfits
      by_cases hempty : name = CStr.empty
      · subst hempty
        rfl
      · rw [find_refines (h := ⟨s, seg, delta⟩) href hn ⟨name, hempty, hfits⟩,
          find_refines (h := ⟨s, seg', delta'⟩) href' hn ⟨name, hempty, hfits⟩]

/-- Unless a point outside the configuration holds a configured name, a respawn is
a no-op if and only if every call that the replay refuses is followed by one that
puts its point right again. -/
theorem restores_iff {maxPoints maxSubscribers pid : Nat} {batch : List IrtPointMeta}
    {history : List ChangeOp} {live : IndurtdbH} {file : List UInt8}
    (hworker : WorkerRun maxPoints maxSubscribers pid batch history live file)
    (hfree : NamesFree live.shm batch live.seg) :
    Restores live batch file ↔
      RefusalsMended (indurtdbHLoadConfig { live with delta := none } batch).2
        (loggedOps { baseHandle maxPoints maxSubscribers pid batch with delta := some [] }
          history) := by
  obtain ⟨hlimit, hbase, hload, hplain, hleft⟩ := hworker
  obtain ⟨hrun, hlog⟩ : runChanges
      { baseHandle maxPoints maxSubscribers pid batch with delta := some [] } history =
        some live ∧ live.delta = some file := by
    obtain ⟨live', hrun, hmap⟩ := Option.bind_eq_some_iff.mp hleft
    obtain ⟨file', hlog, hpair⟩ := Option.map_eq_some_iff.mp hmap
    obtain ⟨rfl, rfl⟩ := Prod.mk.inj hpair
    exact ⟨hrun, hlog⟩
  have hfits := layoutFits_of_limit hlimit
  have hlt := hfits.lt
  have hn : (irtShmRequest maxPoints maxSubscribers).maxPoints < irtIndexTombstone := by
    simp only [irtShmRequest, irtIndexTombstone]
    omega
  have htwo : 2 * (irtShmRequest maxPoints maxSubscribers).maxPoints ≤
      irtLayoutBuckets (irtShmRequest maxPoints maxSubscribers).maxPoints :=
    hfits.indexOffsetFits.two_mul_le
  obtain ⟨seg, r, hhandle, href, htight, hzero, hmeta, hread, hpos, hconf⟩ :=
    baseHandle_refines (M := maxSubscribers) hlimit hbase hload
  rw [hhandle] at hrun ⊢
  -- the live history
  obtain ⟨seg₁, delta₁, r₁, rfl, hmeta₁, href₁, htight₁, hzero₁, hready, hlegal, hafter⟩ :=
    runChanges_live (s := irtShmRequest maxPoints maxSubscribers) hn htwo history seg r (some [])
      live href htight hzero hplain hrun
  obtain rfl : delta₁ = some file := hlog
  obtain ⟨_, _, recs, _, hlive, hrecs, _⟩ := runChanges_logged
    (show (irtShmRequest maxPoints maxSubscribers).maxPoints ≤ 2 ^ 32 by
      simp only [irtShmRequest]
      omega) history seg seg.hdr.writeSeq [] _ href.even hplain hrun
  obtain rfl : file = recs.flatMap IrtDeltaRec.toBytes :=
    Option.some.inj (congrArg IndurtdbH.delta hlive)
  -- the load on what it left behind
  obtain ⟨seg₂, r₂, hreload, href₂, hzero₂, hconf₂, hothers₂⟩ :=
    reload_refines hn htwo hpos hbase hread href₁ htight₁ hzero₁ (by rw [hmeta₁]; exact hmeta) hfree
  -- the replay
  obtain ⟨seg₃, delta₃, r₃, mended, hreplay, href₃, hzero₃, hrun₃, hmended⟩ :=
    replayOps_run hn _ seg₂ r₂ none href₂ hzero₂ hready
  have hreplay' : replayOps ⟨irtShmRequest maxPoints maxSubscribers, seg₂, none⟩
      (loggedOps ⟨irtShmRequest maxPoints maxSubscribers, seg.setWriteSeq seg.hdr.writeSeq,
        some []⟩ history) =
      ⟨irtShmRequest maxPoints maxSubscribers, seg₃, delta₃⟩ := hreplay
  have hrespawn : respawn ⟨irtShmRequest maxPoints maxSubscribers, seg₁,
      some (recs.flatMap IrtDeltaRec.toBytes)⟩ batch (recs.flatMap IrtDeltaRec.toBytes) =
        (.ok, ⟨irtShmRequest maxPoints maxSubscribers, seg₃, none⟩) := by
    simp only [respawn, hreload, indurtdbHDeltaReplay_records hrecs, hreplay']
  have hstart : ∀ id, namesOf r₂ id = namesOf r id ∨
      namesOf r₂ id = afterChanges (namesOf r) ((loggedOps
        ⟨irtShmRequest maxPoints maxSubscribers, seg, some []⟩ history).map ChangeOp.change) id := by
    intro id
    by_cases hid : Configures (irtShmRequest maxPoints maxSubscribers) batch id
    · obtain ⟨pm, hmem, haccepted, rfl⟩ := hid
      exact Or.inl ((hconf₂ pm hmem haccepted).trans (hconf pm hmem haccepted).symm)
    · exact Or.inr ((hothers₂ id hid).trans (congrFun hafter id).symm)
  rw [Restores, hrespawn, and_iff_right rfl, sameNames_iff hn href₁ href₃ hzero₁ hzero₃, ← hafter,
    hrun₃.eq_iff hlegal hstart, hmended, hreload]

/-! ### Two runs -/

/-- A point "A" at id 0, and nothing else. -/
def oneConfigured : List IrtPointMeta :=
  [{ id := 0, type := 6, unit := 0, access := 1, name := ⟨[65], by decide⟩
     pointMeta := { eurMin := 0, eurMax := 0, deadband := 0, flags := 0, reserved := 0 }
     hasMeta := false, badValue := false }]

theorem oneConfigured_base : BaseConfig oneConfigured where
  ids := by decide
  names := by decide
  fits := by decide

/-- A configured point is renamed and another one created: no call is refused. -/
theorem restores_renamed :
    ∃ live file, WorkerRun 2 1 1 oneConfigured
        [.create 0 1 ⟨[66], by decide⟩ 6 1, .rename 0 0 ⟨[67], by decide⟩] live file ∧
      Restores live oneConfigured file := by
  obtain ⟨⟨live, file⟩, hleft, hcheck⟩ := Option.map_eq_some_iff.mp
    (show (leftBehind 2 1 1 oneConfigured
        [.create 0 1 ⟨[66], by decide⟩ 6 1, .rename 0 0 ⟨[67], by decide⟩]).map (fun left =>
          decide (NamesFree left.1.shm oneConfigured left.1.seg ∧
            RefusalsMended (indurtdbHLoadConfig { left.1 with delta := none } oneConfigured).2
              (loggedOps { baseHandle 2 1 1 oneConfigured with delta := some [] }
                [.create 0 1 ⟨[66], by decide⟩ 6 1, .rename 0 0 ⟨[67], by decide⟩]))) =
        some true by decide +kernel)
  obtain ⟨hfree, hmended⟩ := of_decide_eq_true hcheck
  have hworker : WorkerRun 2 1 1 oneConfigured
      [.create 0 1 ⟨[66], by decide⟩ 6 1, .rename 0 0 ⟨[67], by decide⟩] live file :=
    ⟨by decide, oneConfigured_base, by decide +kernel, by decide, hleft⟩
  exact ⟨live, file, hworker, (restores_iff hworker hfree).mpr hmended⟩

/-- A search evaluated before the crash and after the respawn. -/
theorem RespawnIsNoop.same_find {batch : List IrtPointMeta} (h : RespawnIsNoop batch)
    (hbase : BaseConfig batch) (history : List ChangeOp) (hplain : ∀ op ∈ history, op.Plain)
    (hload : (indurtdbHLoadConfig (freshHandle 4 1 1) batch).1 = .ok) (name : CStr)
    (hname : name.bytes.length ≤ nameMax) :
    (leftBehind 4 1 1 batch history).map (fun left =>
      decide ((indurtdbHFindByNameIn left.1 0 name).toOption =
        (indurtdbHFindByNameIn (respawn left.1 batch left.2).2 0 name).toOption)) ≠
      some false := by
  intro hcheck
  obtain ⟨⟨live, file⟩, hleft, hdiff⟩ := Option.map_eq_some_iff.mp hcheck
  have hrestores := h 4 1 1 history live file ⟨by decide, hbase, hload, hplain, hleft⟩
  exact of_decide_eq_false hdiff (congrArg _ (hrestores.2.found 0 name hname))

/-- Two respawns that lose a name.  Without a configuration: point 2 takes a name
that point 1 held for a while, but in the replay point 1 cannot leave it, because
point 3 already has its next one.  With point 0 configured as "A": it is renamed,
and point 1 takes the name; the load gives it back to point 0. -/
theorem not_respawnIsNoop : ¬ RespawnIsNoop [] ∧ ¬ RespawnIsNoop oneConfigured := by
  constructor
  · intro h
    refine h.same_find ⟨by decide, by decide, by decide⟩
      [.create 0 2 ⟨[122], by decide⟩ 6 1, .rename 0 2 ⟨[121], by decide⟩,
        .create 0 1 ⟨[97], by decide⟩ 6 1, .rename 0 1 ⟨[77], by decide⟩,
        .rename 0 1 ⟨[84], by decide⟩, .rename 0 2 ⟨[77], by decide⟩,
        .rename 0 1 ⟨[81], by decide⟩, .create 0 3 ⟨[84], by decide⟩ 6 1]
      (by decide) (by decide +kernel) ⟨[77], by decide⟩ (by decide) (by decide +kernel)
  · intro h
    refine h.same_find oneConfigured_base
      [.rename 0 0 ⟨[66], by decide⟩, .create 0 1 ⟨[65], by decide⟩ 6 1]
      (by decide) (by decide +kernel) ⟨[65], by decide⟩ (by decide) (by decide +kernel)

end InduRtdb.Api
