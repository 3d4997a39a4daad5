/-
  Core/Ownership.lean --- which process owns a segment, and which one unlinks it.

  Source: `irt_shm_init` and `irt_shm_shutdown` of `src/core/irt_shm.c`,
  `irt_shm_os_map`, `irt_shm_os_unmap` and `irt_shm_os_claim_ownership` of
  `src/osal/posix/irt_osal_posix.c`, and `inst_init`, `inst_shutdown`,
  `indurtdb_initialize`, `indurtdb_h_close` and `indurtdb_detach` of `src/api/indurtdb.c`.

  One name, any number of processes.  Ownership is a flag in the handle, which `fork`
  copies, and a pid in the header, which is loaded, tested with `kill` and stored again
  in separate steps.  The test and the setting of the flag are one step here: the flag
  is private to the process, so nobody can tell when it was set.
-/
import InduRtdb.Lib.Run
import Mathlib.Data.Nat.Basic

set_option autoImplicit false

namespace InduRtdb.Core.Ownership

open InduRtdb.Lib

/-! ## Handles, processes and the name -/

/-- Where `irt_shm_init` stands on a handle. -/
inductive HandlePc where
  /-- created the name, has not stored `owner_pid` yet -/
  | creating
  /-- mapped a segment that was there, still making the tests -/
  | attaching
  /-- passed the tests and loaded `owner_pid` -/
  | loaded (storedPid : Nat)
  /-- set the owner flag, has not stored `owner_pid` yet -/
  | claimed
  /-- returned, the handle is initialized -/
  | ready
  deriving DecidableEq

/-- `indurtdb_t`, as far as ownership goes: the segment that is mapped, `shm.os.owner`,
and the pid noted for the detection of forks. -/
structure Handle where
  seg : Nat
  owner : Bool
  ownerPid : Nat
  pc : HandlePc
  deriving DecidableEq

/-- What is remembered of a takeover and of a `shm_unlink`. -/
inductive Note where
  /-- `claimOwnership`, and whether the process recorded in the header existed -/
  | takeOver (pid seg : Nat) (recordedExists : Bool)
  /-- `shm_unlink` through a handle of `seg`, and the segment the name stood for -/
  | unlink (pid seg : Nat) (bound : Option Nat)

/-- The processes with their user ids, their handles, the segment the name stands for,
and the `owner_pid` in the header of each segment. -/
structure System where
  procs : Nat → Option Nat
  handles : Nat × Nat → Option Handle
  name : Option Nat
  ownerPid : Nat → Nat
  nextSeg : Nat
  notes : List Note

/-- Nothing runs and the name is free. -/
def System.start : System where
  procs _ := none
  handles _ := none
  name := none
  ownerPid _ := 0
  nextSeg := 0
  notes := []

/-- `kill(pid, 0) != 0` for a process of user `uid`: no such process, or one it may not
signal. -/
def System.killFails (s : System) (uid pid : Nat) : Prop :=
  match s.procs pid with
  | none => True
  | some other => uid ≠ 0 ∧ uid ≠ other

/-- The handle in slot `a.2` of process `a.1`. -/
def System.setHandle (s : System) (a : Nat × Nat) (h : Option Handle) : System :=
  { s with handles := Function.update s.handles a h }

/-- `irt_shm_os_unmap`: the handle is gone, and an owner has unlinked the name. -/
def System.unmap (s : System) (a : Nat × Nat) (h : Handle) : System :=
  if h.owner then
    { s.setHandle a none with
      name := none
      notes := .unlink a.1 h.seg s.name :: s.notes }
  else s.setHandle a none

/-- The handles of a process that has just been forked.  A call in progress in another
thread does not go on in the child, and its handle is not initialized there. -/
def forked (h : Option Handle) : Option Handle := h.filter fun h => h.pc = .ready

/-- Where something may go wrong. -/
inductive Event where
  | takeOver (h : Handle) (storedPid : Nat)
  | fork (pid : Nat)

/-- One step of one process.  `met` is asked at takeovers and forks. -/
inductive Step (met : System → Event → Prop) : System → System → Prop where
  | spawn {s : System} (pid uid : Nat) (unused : s.procs pid = none) (pos : pid ≠ 0) :
      Step met s { s with procs := Function.update s.procs pid (some uid) }
  | fork {s : System} (pid uid child : Nat) (parent : s.procs pid = some uid)
      (unused : s.procs child = none) (pos : child ≠ 0) (holds : met s (.fork pid)) :
      Step met s
        { s with
          procs := Function.update s.procs child (some uid)
          handles := fun a => if a.1 = child then forked (s.handles (pid, a.2)) else s.handles a }
  /-- the process ends or crashes, and is not waited for yet -/
  | exit {s : System} (pid : Nat) :
      Step met s { s with handles := fun a => if a.1 = pid then none else s.handles a }
  | reap {s : System} (pid : Nat) (ended : ∀ slot, s.handles (pid, slot) = none) :
      Step met s { s with procs := Function.update s.procs pid none }
  /-- `shm_open` with `O_CREAT | O_EXCL` succeeds -/
  | create {s : System} (pid uid slot : Nat) (runs : s.procs pid = some uid)
      (unused : s.handles (pid, slot) = none) (free : s.name = none) :
      Step met s
        { s.setHandle (pid, slot) (some ⟨s.nextSeg, true, 0, .creating⟩) with
          name := some s.nextSeg
          nextSeg := s.nextSeg + 1 }
  /-- `ftruncate` or `mmap` fails after that -/
  | createFails {s : System} (a : Nat × Nat) (h : Handle) (at' : s.handles a = some h)
      (creating : h.pc = .creating) : Step met s (s.unmap a h)
  | created {s : System} (a : Nat × Nat) (h : Handle) (at' : s.handles a = some h)
      (creating : h.pc = .creating) :
      Step met s
        { s.setHandle a (some { h with ownerPid := a.1, pc := .ready }) with
          ownerPid := Function.update s.ownerPid h.seg a.1 }
  | attach {s : System} (pid uid slot seg : Nat) (runs : s.procs pid = some uid)
      (unused : s.handles (pid, slot) = none) (bound : s.name = some seg) :
      Step met s (s.setHandle (pid, slot) (some ⟨seg, false, 0, .attaching⟩))
  | attachFails {s : System} (a : Nat × Nat) (h : Handle) (at' : s.handles a = some h)
      (attaching : h.pc = .attaching) : Step met s (s.unmap a h)
  | load {s : System} (a : Nat × Nat) (h : Handle) (at' : s.handles a = some h)
      (attaching : h.pc = .attaching) :
      Step met s (s.setHandle a (some { h with pc := .loaded (s.ownerPid h.seg) }))
  /-- no pid is recorded, or the process's own, or one that `kill` reaches -/
  | keep {s : System} (a : Nat × Nat) (h : Handle) (uid storedPid : Nat)
      (runs : s.procs a.1 = some uid) (at' : s.handles a = some h)
      (loaded : h.pc = .loaded storedPid)
      (reached : storedPid = 0 ∨ storedPid = a.1 ∨ ¬ s.killFails uid storedPid) :
      Step met s (s.setHandle a (some { h with ownerPid := a.1, pc := .ready }))
  | takeOver {s : System} (a : Nat × Nat) (h : Handle) (uid storedPid : Nat)
      (runs : s.procs a.1 = some uid) (at' : s.handles a = some h)
      (loaded : h.pc = .loaded storedPid) (recorded : storedPid ≠ 0) (other : storedPid ≠ a.1)
      (failed : s.killFails uid storedPid) (holds : met s (.takeOver h storedPid)) :
      Step met s
        { s.setHandle a (some { h with owner := true, pc := .claimed }) with
          notes := .takeOver a.1 h.seg (s.procs (s.ownerPid h.seg)).isSome :: s.notes }
  | takenOver {s : System} (a : Nat × Nat) (h : Handle) (at' : s.handles a = some h)
      (claimed : h.pc = .claimed) :
      Step met s
        { s.setHandle a (some { h with ownerPid := a.1, pc := .ready }) with
          ownerPid := Function.update s.ownerPid h.seg a.1 }
  /-- `inst_init` in a child drops the handle it has inherited -/
  | reset {s : System} (a : Nat × Nat) (h : Handle) (at' : s.handles a = some h)
      (ready : h.pc = .ready) (inherited : h.ownerPid ≠ 0 ∧ h.ownerPid ≠ a.1) :
      Step met s (s.unmap a { h with owner := false })
  /-- `indurtdb_h_close`, `indurtdb_shutdown` -/
  | close {s : System} (a : Nat × Nat) (h : Handle) (at' : s.handles a = some h)
      (ready : h.pc = .ready) : Step met s (s.unmap a h)
  /-- `indurtdb_detach` -/
  | detach {s : System} (a : Nat × Nat) (h : Handle) (at' : s.handles a = some h)
      (ready : h.pc = .ready) : Step met s (s.unmap a { h with owner := false })

/-! ## What is wanted -/

/-- A takeover found the recorded process gone; an unlink removed the name of the very
segment its handle maps. -/
def Note.Proper : Note → Prop
  | .takeOver _ _ recordedExists => recordedExists = false
  | .unlink _ seg bound => bound = some seg

/-- A process holds a handle of the segment with the owner flag set. -/
def System.Owns (s : System) (pid seg : Nat) : Prop :=
  ∃ slot h, s.handles (pid, slot) = some h ∧ h.seg = seg ∧ h.owner = true

/-- Takeovers and unlinks were proper, and at most one process owns a segment. -/
structure System.SoleOwner (s : System) : Prop where
  notes : ∀ n, n ∈ s.notes → n.Proper
  sole : ∀ p q seg, s.Owns p seg → s.Owns q seg → p = q

/-! ## When the steps stay apart -/

/-- At a takeover `kill` has failed because the process is gone, the header does not
record another that exists, the name still stands for the segment, and nobody is between
setting the flag and recording the pid; and no process forks while it owns a segment. -/
def OwnershipMet (s : System) : Event → Prop
  | .takeOver h storedPid =>
      s.procs storedPid = none ∧ s.procs (s.ownerPid h.seg) = none ∧ s.name = some h.seg ∧
        ∀ b h', s.handles b = some h' → h'.seg = h.seg → h'.pc ≠ .claimed
  | .fork pid => ∀ slot h, s.handles (pid, slot) = some h → h.pc = .ready → h.owner = false

/-! ## The invariant -/

/-- What a handle's stage says about its flag and about the header. -/
def HandlePc.Fits (recorded pid : Nat) (owner : Bool) : HandlePc → Prop
  | .creating => owner = true ∧ recorded = 0
  | .attaching => owner = false
  | .loaded storedPid => owner = false ∧ (storedPid ≠ 0 → recorded ≠ 0)
  | .claimed => owner = true
  | .ready => owner = true → recorded = pid

/-- What holds of every handle. -/
structure HandleInv (s : System) (a : Nat × Nat) (h : Handle) : Prop where
  runs : s.procs a.1 ≠ none
  seg_lt : h.seg < s.nextSeg
  bound : h.owner = true → s.name = some h.seg
  fits : h.pc.Fits (s.ownerPid h.seg) a.1 h.owner

/-- What every step keeps: in particular there is at most one handle with the owner flag
set, and it is of the segment the name stands for. -/
structure OwnInv (s : System) : Prop where
  pids : ∀ pid uid, s.procs pid = some uid → pid ≠ 0
  handles : ∀ a h, s.handles a = some h → HandleInv s a h
  name_lt : ∀ k, s.name = some k → k < s.nextSeg
  unused : ∀ k, s.nextSeg ≤ k → s.ownerPid k = 0
  unique : ∀ a b h h', s.handles a = some h → s.handles b = some h' → h.owner = true →
    h'.owner = true → a = b
  notes : ∀ n, n ∈ s.notes → n.Proper

variable {s s' : System} {a : Nat × Nat} {h new : Handle}

theorem OwnInv.start : OwnInv .start where
  pids := by rintro pid uid ⟨⟩
  handles := by rintro a h ⟨⟩
  name_lt := by rintro k ⟨⟩
  unused := fun _ _ => rfl
  unique := by rintro a b h h' ⟨⟩
  notes := fun n hn => absurd hn List.not_mem_nil

theorem OwnInv.soleOwner (hs : OwnInv s) : s.SoleOwner where
  notes := hs.notes
  sole := by
    rintro p q seg ⟨slot, h, hat, -, howner⟩ ⟨slot', h', hat', -, howner'⟩
    exact congrArg Prod.fst (hs.unique _ _ _ _ hat hat' howner howner')

/-- Some handles gone, the others as they were. -/
theorem OwnInv.drop (hs : OwnInv s) (kept : Nat × Nat → Option Handle)
    (hkept : ∀ b h', kept b = some h' → s.handles b = some h') :
    OwnInv { s with handles := kept } where
  pids := hs.pids
  handles := fun b h' hb =>
    have hold := hs.handles b h' (hkept b h' hb)
    ⟨hold.runs, hold.seg_lt, hold.bound, hold.fits⟩
  name_lt := hs.name_lt
  unused := hs.unused
  unique := fun b c h' h'' hb hc => hs.unique b c h' h'' (hkept b h' hb) (hkept c h'' hc)
  notes := hs.notes

theorem setHandle_none (b : Nat × Nat) (h' : Handle)
    (hb : (s.setHandle a none).handles b = some h') : s.handles b = some h' ∧ b ≠ a := by
  by_cases hself : b = a
  · subst hself
    simp [System.setHandle] at hb
  · exact ⟨by simpa [System.setHandle, Function.update_of_ne hself] using hb, hself⟩

/-- What a slot holds after one of them was filled. -/
theorem setHandle_some {b : Nat × Nat} {h' : Handle}
    (hb : Function.update s.handles a (some new) b = some h') :
    (b = a ∧ h' = new) ∨ (b ≠ a ∧ s.handles b = some h') := by
  by_cases hself : b = a
  · subst hself
    rw [Function.update_self] at hb
    exact Or.inl ⟨rfl, (Option.some.inj hb).symm⟩
  · rw [Function.update_of_ne hself] at hb
    exact Or.inr ⟨hself, hb⟩

/-- A handle closed through `irt_shm_os_unmap`. -/
theorem OwnInv.unmap (hs : OwnInv s) (hat : s.handles a = some h) : OwnInv (s.unmap a h) := by
  by_cases howner : h.owner = true
  · have hbound := (hs.handles a h hat).bound howner
    -- nobody else owns anything, so no flag refers to the name that goes
    have hothers : ∀ b h', b ≠ a → s.handles b = some h' → h'.owner = false := by
      intro b h' hne hb
      by_contra hflag
      exact hne (hs.unique b a h' h hb hat (by simpa using hflag) howner)
    rw [System.unmap, if_pos howner]
    refine ⟨hs.pids, fun b h' hb => ?_, ?_, hs.unused, fun b c h' h'' hb hc howner' => ?_, ?_⟩
    · obtain ⟨hb, hne⟩ := setHandle_none b h' hb
      have hold := hs.handles b h' hb
      have hflag := hothers b h' hne hb
      exact ⟨hold.runs, hold.seg_lt, fun htrue => absurd htrue (by simp [hflag]), hold.fits⟩
    · rintro k ⟨⟩
    · obtain ⟨hb, hne⟩ := setHandle_none b h' hb
      exact absurd howner' (by simp [hothers b h' hne hb])
    · intro n hn
      rcases List.mem_cons.mp hn with rfl | hn
      · exact hbound
      · exact hs.notes n hn
  · rw [System.unmap, if_neg howner]
    exact hs.drop _ fun b h' hb => (setHandle_none b h' hb).1

/-- A handle dropped without unlinking. -/
theorem OwnInv.unmap_kept (hs : OwnInv s) : OwnInv (s.unmap a { h with owner := false }) :=
  hs.drop _ fun b h' hb => (setHandle_none b h' hb).1

/-- As long as no slot gains a flag, there is at most one. -/
theorem OwnInv.unique_of (hs : OwnInv s) {handles' : Nat × Nat → Option Handle}
    (hback : ∀ b h', handles' b = some h' → h'.owner = true →
      ∃ h, s.handles b = some h ∧ h.owner = true) :
    ∀ b c h' h'', handles' b = some h' → handles' c = some h'' → h'.owner = true →
      h''.owner = true → b = c := by
  intro b c h' h'' hb hc howner howner'
  obtain ⟨_, hb, howner⟩ := hback b h' hb howner
  obtain ⟨_, hc, howner'⟩ := hback c h'' hc howner'
  exact hs.unique b c _ _ hb hc howner howner'

/-- A slot that is filled has a flag only if it had one. -/
theorem setHandle_owner (hflag : new.owner = true → ∃ h, s.handles a = some h ∧ h.owner = true) :
    ∀ b h', Function.update s.handles a (some new) b = some h' → h'.owner = true →
      ∃ h, s.handles b = some h ∧ h.owner = true := by
  intro b h' hb howner
  rcases setHandle_some hb with ⟨rfl, rfl⟩ | ⟨-, hb⟩
  · exact hflag howner
  · exact ⟨h', hb, howner⟩

/-- A handle that is not an owner's, new or moved on. -/
theorem OwnInv.set (hs : OwnInv s) (hnew : HandleInv s a new) (hflag : new.owner = true →
      ∃ h, s.handles a = some h ∧ h.owner = true) :
    OwnInv (s.setHandle a (some new)) where
  pids := hs.pids
  handles := by
    intro b h' hb
    rcases setHandle_some hb with ⟨rfl, rfl⟩ | ⟨-, hb⟩
    · exact ⟨hnew.runs, hnew.seg_lt, hnew.bound, hnew.fits⟩
    · have hold := hs.handles b h' hb
      exact ⟨hold.runs, hold.seg_lt, hold.bound, hold.fits⟩
  name_lt := hs.name_lt
  unused := hs.unused
  unique := hs.unique_of (setHandle_owner hflag)
  notes := hs.notes

/-- The owner stores its pid into the header. -/
theorem OwnInv.record (hs : OwnInv s) (hat : s.handles a = some h) (howner : h.owner = true) :
    OwnInv
      { s.setHandle a (some { h with ownerPid := a.1, pc := .ready }) with
        ownerPid := Function.update s.ownerPid h.seg a.1 } where
  pids := hs.pids
  handles := by
    have hself := hs.handles a h hat
    obtain ⟨uid, huid⟩ := Option.ne_none_iff_exists'.mp hself.runs
    have hpid := hs.pids a.1 uid huid
    intro b h' hb
    rcases setHandle_some hb with ⟨rfl, rfl⟩ | ⟨hne, hb⟩
    · exact ⟨hself.runs, hself.seg_lt, hself.bound, fun _ => Function.update_self ..⟩
    · have hold := hs.handles b h' hb
      have hflag : h'.owner = false := by
        by_contra hflag
        exact hne (hs.unique b a h' h hb hat (by simpa using hflag) howner)
      refine ⟨hold.runs, hold.seg_lt, hold.bound, ?_⟩
      have hfits := hold.fits
      change h'.pc.Fits (Function.update s.ownerPid h.seg a.1 h'.seg) b.1 h'.owner
      cases hpc : h'.pc with
      | creating =>
          rw [hpc, hflag] at hfits
          exact absurd hfits.1 Bool.false_ne_true
      | attaching => exact hflag
      | loaded storedPid =>
          rw [hpc] at hfits
          refine ⟨hflag, fun hne0 => ?_⟩
          by_cases hsame : h'.seg = h.seg
          · rw [hsame, Function.update_self]
            exact hpid
          · rw [Function.update_of_ne hsame]
            exact hfits.2 hne0
      | claimed =>
          rw [hpc, hflag] at hfits
          exact absurd hfits Bool.false_ne_true
      | ready => exact fun htrue => absurd htrue (by simp [hflag])
  name_lt := hs.name_lt
  unused := by
    intro k hk
    have hlt := (hs.handles a h hat).seg_lt
    have hne : k ≠ h.seg := by
      rintro rfl
      exact absurd hlt (Nat.not_lt.mpr hk)
    exact (Function.update_of_ne hne _ _).trans (hs.unused k hk)
  unique := hs.unique_of (setHandle_owner fun _ => ⟨h, hat, howner⟩)
  notes := hs.notes

/-- Processes come and go; those with handles stay. -/
theorem OwnInv.procs (hs : OwnInv s) (procs : Nat → Option Nat)
    (hpids : ∀ pid uid, procs pid = some uid → pid ≠ 0)
    (hruns : ∀ a h, s.handles a = some h → procs a.1 ≠ none) :
    OwnInv { s with procs := procs } where
  pids := hpids
  handles := fun b h' hb =>
    have hold := hs.handles b h' hb
    ⟨hruns b h' hb, hold.seg_lt, hold.bound, hold.fits⟩
  name_lt := hs.name_lt
  unused := hs.unused
  unique := hs.unique
  notes := hs.notes

theorem OwnInv.spawn (hs : OwnInv s) {pid uid : Nat} (hpos : pid ≠ 0) :
    OwnInv { s with procs := Function.update s.procs pid (some uid) } := by
  refine hs.procs _ (fun p u hp => ?_) fun b h' hb => ?_
  · by_cases hself : p = pid
    · exact hself ▸ hpos
    · rw [Function.update_of_ne hself] at hp
      exact hs.pids p u hp
  · by_cases hself : b.1 = pid
    · rw [hself, Function.update_self]
      exact Option.some_ne_none uid
    · rw [Function.update_of_ne hself]
      exact (hs.handles b h' hb).runs

theorem OwnInv.reap (hs : OwnInv s) {pid : Nat} (hended : ∀ slot, s.handles (pid, slot) = none) :
    OwnInv { s with procs := Function.update s.procs pid none } := by
  refine hs.procs _ (fun p u hp => ?_) fun b h' hb => ?_
  · by_cases hself : p = pid
    · rw [hself, Function.update_self] at hp
      cases hp
    · rw [Function.update_of_ne hself] at hp
      exact hs.pids p u hp
  · have hne : b.1 ≠ pid := by
      rintro rfl
      rw [hended b.2] at hb
      cases hb
    rw [Function.update_of_ne hne]
    exact (hs.handles b h' hb).runs

/-- A child inherits initialized handles, none of them an owner's. -/
theorem OwnInv.fork (hs : OwnInv s) {pid uid child : Nat} (hpos : child ≠ 0)
    (hmet : ∀ slot h, s.handles (pid, slot) = some h → h.pc = .ready → h.owner = false) :
    OwnInv
      { s with
        procs := Function.update s.procs child (some uid)
        handles := fun a => if a.1 = child then forked (s.handles (pid, a.2)) else s.handles a } := by
  -- what the child has, the parent has, without a flag
  have hchild : ∀ slot h, forked (s.handles (pid, slot)) = some h →
      s.handles (pid, slot) = some h ∧ h.pc = .ready ∧ h.owner = false := by
    intro slot h hforked
    obtain ⟨hparent, hready⟩ := Option.filter_eq_some_iff.mp hforked
    have hready : h.pc = .ready := of_decide_eq_true hready
    exact ⟨hparent, hready, hmet slot h hparent hready⟩
  have hspawned : OwnInv { s with procs := Function.update s.procs child (some uid) } :=
    hs.spawn hpos
  refine ⟨hspawned.pids, fun b h' hb => ?_, hs.name_lt, hs.unused,
    hs.unique_of fun b h' hb howner => ?_, hs.notes⟩
  · change (if b.1 = child then forked (s.handles (pid, b.2)) else s.handles b) = some h' at hb
    by_cases hself : b.1 = child
    · rw [if_pos hself] at hb
      obtain ⟨hparent, hready, hflag⟩ := hchild b.2 h' hb
      have hold := hs.handles _ h' hparent
      refine ⟨?_, hold.seg_lt, hold.bound, ?_⟩
      · simp [hself]
      · rw [hready, hflag]
        exact fun htrue => absurd htrue Bool.false_ne_true
    · rw [if_neg hself] at hb
      have hold := hspawned.handles b h' hb
      exact ⟨hold.runs, hold.seg_lt, hold.bound, hold.fits⟩
  · change (if b.1 = child then forked (s.handles (pid, b.2)) else s.handles b) = some h' at hb
    by_cases hself : b.1 = child
    · rw [if_pos hself] at hb
      exact absurd howner (by simp [(hchild b.2 h' hb).2.2])
    · rw [if_neg hself] at hb
      exact ⟨h', hb, howner⟩

/-- The name was free, so nobody owned anything. -/
theorem OwnInv.create (hs : OwnInv s) {pid uid slot : Nat} (hruns : s.procs pid = some uid)
    (hfree : s.name = none) :
    OwnInv
      { s.setHandle (pid, slot) (some ⟨s.nextSeg, true, 0, .creating⟩) with
        name := some s.nextSeg
        nextSeg := s.nextSeg + 1 } := by
  have hnobody : ∀ b h', s.handles b = some h' → h'.owner = false := by
    intro b h' hb
    by_contra hflag
    have hbound := (hs.handles b h' hb).bound (by simpa using hflag)
    rw [hfree] at hbound
    cases hbound
  refine ⟨hs.pids, fun b h' hb => ?_, ?_, ?_, fun b c h' h'' hb hc howner howner' => ?_, hs.notes⟩
  · rcases setHandle_some hb with ⟨rfl, rfl⟩ | ⟨-, hb⟩
    · have hexists : s.procs pid ≠ none := by simp [hruns]
      exact ⟨hexists, Nat.lt_succ_self _, fun _ => rfl, rfl, hs.unused _ le_rfl⟩
    · have hold := hs.handles b h' hb
      have hflag := hnobody b h' hb
      exact ⟨hold.runs, Nat.lt_succ_of_lt hold.seg_lt, fun htrue => absurd htrue (by simp [hflag]),
        hold.fits⟩
  · rintro k ⟨⟩
    exact Nat.lt_succ_self _
  · exact fun k hk => hs.unused k (Nat.le_of_succ_le hk)
  · rcases setHandle_some hb with ⟨rfl, -⟩ | ⟨-, hb⟩
    · rcases setHandle_some hc with ⟨rfl, -⟩ | ⟨-, hc⟩
      · rfl
      · exact absurd howner' (by simp [hnobody c h'' hc])
    · exact absurd howner (by simp [hnobody b h' hb])

/-- A takeover when nobody owns the segment any more. -/
theorem OwnInv.takeOver (hs : OwnInv s) {storedPid : Nat} (hat : s.handles a = some h)
    (hloaded : h.pc = .loaded storedPid) (hrecorded : storedPid ≠ 0)
    (hmet : OwnershipMet s (.takeOver h storedPid)) :
    OwnInv
      { s.setHandle a (some { h with owner := true, pc := .claimed }) with
        notes := .takeOver a.1 h.seg (s.procs (s.ownerPid h.seg)).isSome :: s.notes } := by
  obtain ⟨-, hgone, hname, hbetween⟩ := hmet
  have hself := hs.handles a h hat
  have hfits := hself.fits
  rw [hloaded] at hfits
  have hnobody : ∀ b h', s.handles b = some h' → h'.owner = false := by
    intro b h' hb
    by_contra hflag
    have hflag : h'.owner = true := by simpa using hflag
    have hold := hs.handles b h' hb
    -- an owner's handle is of the segment the name stands for
    have hseg : h'.seg = h.seg := Option.some.inj ((hold.bound hflag).symm.trans hname)
    have hfits' := hold.fits
    rw [hseg] at hfits'
    cases hpc : h'.pc with
    | creating =>
        rw [hpc] at hfits'
        exact hfits.2 hrecorded hfits'.2
    | attaching =>
        rw [hpc, hflag] at hfits'
        exact Bool.noConfusion hfits'
    | loaded t =>
        rw [hpc, hflag] at hfits'
        exact Bool.noConfusion hfits'.1
    | claimed => exact hbetween b h' hb hseg hpc
    | ready =>
        rw [hpc] at hfits'
        rw [hfits' hflag] at hgone
        exact hold.runs hgone
  refine ⟨hs.pids, fun b h' hb => ?_, hs.name_lt, hs.unused,
    fun b c h' h'' hb hc howner howner' => ?_, fun n hn => ?_⟩
  · rcases setHandle_some hb with ⟨rfl, rfl⟩ | ⟨-, hb⟩
    · exact ⟨hself.runs, hself.seg_lt, fun _ => hname, rfl⟩
    · have hold := hs.handles b h' hb
      exact ⟨hold.runs, hold.seg_lt, hold.bound, hold.fits⟩
  · rcases setHandle_some hb with ⟨rfl, -⟩ | ⟨-, hb⟩
    · rcases setHandle_some hc with ⟨rfl, -⟩ | ⟨-, hc⟩
      · rfl
      · exact absurd howner' (by simp [hnobody c h'' hc])
    · exact absurd howner (by simp [hnobody b h' hb])
  · rcases List.mem_cons.mp hn with rfl | hn
    · change (s.procs (s.ownerPid h.seg)).isSome = false
      rw [hgone]
      rfl
    · exact hs.notes n hn

theorem OwnInv.step (hs : OwnInv s) (hstep : Step OwnershipMet s s') : OwnInv s' := by
  cases hstep with
  | spawn pid uid hunused hpos => exact hs.spawn hpos
  | fork pid uid child hparent hunused hpos hmet => exact hs.fork hpos hmet
  | exit pid =>
      refine hs.drop _ fun b h' hb => ?_
      split at hb
      · cases hb
      · exact hb
  | reap pid hended => exact hs.reap hended
  | create pid uid slot hruns hunused hfree => exact hs.create hruns hfree
  | createFails a h hat hpc => exact hs.unmap hat
  | created a h hat hpc =>
      have hfits := (hs.handles a h hat).fits
      rw [hpc] at hfits
      exact hs.record hat hfits.1
  | attach pid uid slot seg hruns hunused hbound =>
      have hexists : s.procs pid ≠ none := by simp [hruns]
      exact hs.set ⟨hexists, hs.name_lt seg hbound, Bool.noConfusion, rfl⟩ Bool.noConfusion
  | attachFails a h hat hpc => exact hs.unmap hat
  | load a h hat hpc =>
      have hold := hs.handles a h hat
      have hfits := hold.fits
      rw [hpc] at hfits
      exact hs.set ⟨hold.runs, hold.seg_lt, hold.bound, hfits, id⟩ fun howner => ⟨h, hat, howner⟩
  | keep a h uid storedPid hruns hat hpc hreached =>
      have hold := hs.handles a h hat
      have hfits := hold.fits
      rw [hpc] at hfits
      refine hs.set ⟨hold.runs, hold.seg_lt, hold.bound, fun howner => ?_⟩
        fun howner => ⟨h, hat, howner⟩
      exact absurd howner (by simp [hfits.1])
  | takeOver a h uid storedPid hruns hat hpc hrecorded hother hfailed hmet =>
      exact hs.takeOver hat hpc hrecorded hmet
  | takenOver a h hat hpc =>
      have hfits := (hs.handles a h hat).fits
      rw [hpc] at hfits
      exact hs.record hat hfits
  | reset a h hat hpc hinherited => exact hs.unmap_kept
  | close a h hat hpc => exact hs.unmap hat
  | detach a h hat hpc => exact hs.unmap_kept

/-- In every run in which takeovers find the owner gone and nobody else at it, and no
owner forks, there is at most one owner, and only the owner unlinks. -/
theorem soleOwner_of_ownershipMet {past : List System}
    (hrun : Run (Step OwnershipMet) .start past s) : s.SoleOwner := by
  refine OwnInv.soleOwner ?_
  exact hrun.invariant_state .start fun _ _ h hmove => h.step hmove

/-! ## A takeover that goes well and a fork that does not -/

/-- Process `1` creates the segment and ends, process `2` has attached before, takes over
and closes. -/
theorem soleOwner_of_ownershipMet_takeover :
    ∃ past s, Run (Step OwnershipMet) .start past s ∧
      s.notes = [.unlink 2 0 (some 0), .takeOver 2 0 false] ∧ s.SoleOwner := by
  have hstart : Run (Step OwnershipMet) .start _ _ := .start
  have hspawn := hstart.next (.spawn 1 0 rfl (by decide))
  have hcreate := hspawn.next (.create 1 0 0 rfl rfl rfl)
  have hcreated := hcreate.next (.created (1, 0) ⟨0, true, 0, .creating⟩ rfl rfl)
  have hspawn' := hcreated.next (.spawn 2 0 rfl (by decide))
  have hattach := hspawn'.next (.attach 2 0 0 0 rfl rfl rfl)
  have hload := hattach.next (.load (2, 0) ⟨0, false, 0, .attaching⟩ rfl rfl)
  have hexit := hload.next (.exit 1)
  have hreap := hexit.next (.reap 1 fun _ => rfl)
  have htake := hreap.next (.takeOver (2, 0) ⟨0, false, 0, .loaded 1⟩ 0 1 rfl rfl rfl (by decide)
    (by decide) trivial ⟨rfl, rfl, rfl, fun b h' hb _ => ?_⟩)
  · have htaken := htake.next (.takenOver (2, 0) ⟨0, true, 0, .claimed⟩ rfl rfl)
    have hclose := htaken.next (.close (2, 0) ⟨0, true, 2, .ready⟩ rfl rfl)
    exact ⟨_, _, hclose, rfl, soleOwner_of_ownershipMet hclose⟩
  · -- the only handle left is the one that takes over
    simp only [System.setHandle, System.start, Function.update_apply] at hb
    split_ifs at hb <;> cases hb <;> exact HandlePc.noConfusion

/-- A process that forks shares the owner flag with its child. -/
theorem not_soleOwner :
    ¬ ∀ (past : List System) (s : System), Run (Step fun _ _ => True) .start past s →
      s.SoleOwner := by
  intro hall
  have hstart : Run (Step fun _ _ => True) .start _ _ := .start
  have hspawn := hstart.next (.spawn 1 0 rfl (by decide))
  have hcreate := hspawn.next (.create 1 0 0 rfl rfl rfl)
  have hcreated := hcreate.next (.created (1, 0) ⟨0, true, 0, .creating⟩ rfl rfl)
  have hfork := hcreated.next (.fork 1 0 2 rfl rfl (by decide) trivial)
  have hsole := (hall _ _ hfork).sole 1 2 0 ⟨0, ⟨0, true, 1, .ready⟩, rfl, rfl, rfl⟩
    ⟨0, ⟨0, true, 1, .ready⟩, rfl, rfl, rfl⟩
  exact absurd hsole (by decide)

end InduRtdb.Core.Ownership
