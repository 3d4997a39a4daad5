/-
  Api/Instances.lean --- the handles of a process and the slots they stand for.

  Source: `src/api/indurtdb.c`.

  The table has 64 slots and the bitmap of those in use 32 bits.  Opening a handle
  while 32 are live shifts past the bitmap.
-/
import Mathlib.Data.List.Perm.Subperm
import Mathlib.Data.List.Induction
import Mathlib.Logic.Function.Basic
import InduRtdb.Core.Types

set_option autoImplicit false

namespace InduRtdb.Api

open InduRtdb.Core

/-! ## The table of instances -/

/-- `IRT_MAX_INSTANCES`. -/
abbrev irtMaxInstances : Nat := 64

/-- Bits of `g_used_mask`. -/
abbrev usedMaskBits : Nat := 32

/-- `struct indurtdb`.  `mapped` stands for `shm`, `pm` and `sub` as `irt_shm_init`,
`irt_pm_init` and `irt_sub_init` leave them, less `shm.os.owner`. -/
structure Indurtdb (σ : Type) where
  mapped : Option σ
  /-- `shm.os.owner` -/
  owner : Bool
  initialized : Bool
  ownerPid : Int
  deltaFd : Int
  defaultPartition : Nat

/-- An instance after `memset`. -/
def Indurtdb.zero {σ : Type} : Indurtdb σ := ⟨none, false, false, 0, 0, 0⟩

/-- What `irt_shm_init` answers and leaves behind. -/
structure ShmInit (σ : Type) where
  rc : Int
  mapped : Option σ
  owner : Bool

/-- The globals `g_registry`, `g_used_mask` and `g_default`; a pointer into
`g_registry` is its index.  `opened`, which the code does not have, lists the handles
`indurtdb_h_open` has given out and nobody has closed. -/
structure Instances (σ : Type) where
  registry : Nat → Indurtdb σ
  usedMask : BitVec usedMaskBits
  default : Option Nat
  opened : List Nat

/-- The globals when a process starts. -/
def Instances.start {σ : Type} : Instances σ := ⟨fun _ => .zero, 0, none, []⟩

section

variable {σ : Type}

/-- The handles live: those given out, and the default one. -/
def Instances.live (s : Instances σ) : List Nat := s.opened ++ s.default.toList

/-- `1u << i`; nothing is said of a shift by the width or more. -/
def shiftedOne (i : Nat) : Option (BitVec usedMaskBits) :=
  if i < usedMaskBits then some (BitVec.ofNat usedMaskBits 1 <<< i) else none

/-- The loop of `inst_alloc`, with `n` slots ahead: the first one not in use. -/
def instAllocLoop (mask : BitVec usedMaskBits) : Nat → Nat → Option (Option Nat)
  | 0, _ => some none
  | n + 1, i => do
      let bit ← shiftedOne i
      if mask &&& bit = 0 then some (some i) else instAllocLoop mask n (i + 1)

/-- `inst_alloc`. -/
def instAlloc (s : Instances σ) : Option (Instances σ × Option Nat) := do
  match ← instAllocLoop s.usedMask irtMaxInstances 0 with
  | none => some (s, none)
  | some i =>
      let bit ← shiftedOne i
      some ({ s with
        usedMask := s.usedMask ||| bit
        registry := Function.update s.registry i { Indurtdb.zero with deltaFd := -1 } }, some i)

/-- `inst_free`. -/
def instFree (s : Instances σ) (h : Nat) : Option (Instances σ) :=
  if h < irtMaxInstances then do
    let bit ← shiftedOne h
    some { s with usedMask := s.usedMask &&& ~~~ bit }
  else some s

/-- `inst_shutdown`. -/
def instShutdown (inst : Indurtdb σ) : Indurtdb σ :=
  if inst.initialized then .zero else inst

/-- Whether `instance_id` is a name. -/
def isInstanceId (instanceId : Option CStr) : Bool :=
  match instanceId with
  | none => false
  | some name => !name.bytes.isEmpty

/-- `inst_init`, in the process `pid`. -/
def instInit (inst : Indurtdb σ) (instanceId : Option CStr) (maxPoints : Nat) (pid : Int)
    (shm : ShmInit σ) : Indurtdb σ × Rc :=
  let inst := if inst.initialized ∧ inst.ownerPid ≠ 0 ∧ inst.ownerPid ≠ pid then
    instShutdown { inst with owner := false } else inst
  if inst.initialized then (inst, .errArg)
  else if ¬ isInstanceId instanceId ∨ maxPoints = 0 then (inst, .errArg)
  else
    let inst : Indurtdb σ := { (Indurtdb.zero : Indurtdb σ) with
      deltaFd := -1, defaultPartition := 0, mapped := shm.mapped, owner := shm.owner }
    if shm.rc ≠ 0 then (inst, .errArg)
    else ({ inst with initialized := true, ownerPid := pid }, .ok)

/-- An update of one instance. -/
def Instances.setInst (s : Instances σ) (h : Nat) (inst : Indurtdb σ) : Instances σ :=
  { s with registry := Function.update s.registry h inst }

/-- `indurtdb_h_open`; `cfg` is `max_points` of the configuration, if there is one. -/
def indurtdbHOpen (s : Instances σ) (hasOut : Bool) (instanceId : Option CStr)
    (cfg : Option Nat) (pid : Int) (shm : ShmInit σ) : Option (Instances σ × Rc) :=
  if ¬ hasOut ∨ ¬ isInstanceId instanceId then some (s, .errArg)
  else
    let mp := cfg.getD 0
    if mp = 0 then some (s, .errArg)
    else do
      match ← instAlloc s with
      | (s, none) => some (s, .errFull)
      | (s, some h) =>
          let (inst, rc) := instInit (s.registry h) instanceId mp pid shm
          let s := s.setInst h inst
          if rc ≠ .ok then
            let s ← instFree s h
            some (s, rc)
          else some ({ s with opened := s.opened ++ [h] }, .ok)

/-- `indurtdb_h_close`. -/
def indurtdbHClose (s : Instances σ) (h : Option Nat) : Option (Instances σ) :=
  match h with
  | none => some s
  | some h =>
      let s := s.setInst h (instShutdown (s.registry h))
      let s := if s.default = some h then { s with default := none } else s
      instFree { s with opened := s.opened.erase h } h

/-- `indurtdb_initialize`, from where there is a default handle. -/
def initializeDefault (s : Instances σ) (h : Nat) (instanceId : Option CStr) (maxPoints : Nat)
    (pid : Int) (shm : ShmInit σ) : Option (Instances σ × Rc) :=
  let (inst, rc) := instInit (s.registry h) instanceId maxPoints pid shm
  let s := s.setInst h inst
  if rc ≠ .ok then do
    let s ← instFree s h
    some ({ s with default := none }, rc)
  else some (s, rc)

/-- `indurtdb_initialize`. -/
def indurtdbInitialize (s : Instances σ) (instanceId : Option CStr) (maxPoints : Nat)
    (pid : Int) (shm : ShmInit σ) : Option (Instances σ × Rc) :=
  match s.default with
  | some h =>
      let inst := s.registry h
      if inst.initialized then
        if inst.ownerPid ≠ 0 ∧ inst.ownerPid ≠ pid then
          initializeDefault (s.setInst h (instShutdown { inst with owner := false })) h instanceId
            maxPoints pid shm
        else some (s, .errArg)
      else initializeDefault s h instanceId maxPoints pid shm
  | none => do
      match ← instAlloc s with
      | (s, none) => some (s, .errFull)
      | (s, some h) => initializeDefault { s with default := some h } h instanceId maxPoints pid shm

/-- `indurtdb_shutdown`. -/
def indurtdbShutdown (s : Instances σ) : Option (Instances σ) :=
  match s.default with
  | none => some s
  | some h => indurtdbHClose s (some h)

/-- `indurtdb_detach`. -/
def indurtdbDetach (s : Instances σ) : Option (Instances σ) :=
  match s.default with
  | none => some s
  | some h => indurtdbHClose (s.setInst h { s.registry h with owner := false }) (some h)

end

/-! ## Calls -/

/-- A call of the interface, with the process it is made in and what
`irt_shm_init` does if it is reached. -/
inductive InstanceCall (σ : Type) where
  | hOpen (hasOut : Bool) (instanceId : Option CStr) (cfg : Option Nat) (pid : Int)
      (shm : ShmInit σ)
  | hClose (h : Option Nat)
  | v1Initialize (instanceId : Option CStr) (maxPoints : Nat) (pid : Int) (shm : ShmInit σ)
  | v1Shutdown
  | v1Detach

namespace InstanceCall

variable {σ : Type}

/-- What a call does; `none` is a shift by too much. -/
def run (s : Instances σ) : InstanceCall σ → Option (Instances σ × Rc)
  | .hOpen hasOut instanceId cfg pid shm => indurtdbHOpen s hasOut instanceId cfg pid shm
  | .hClose h => (indurtdbHClose s h).map fun s => (s, .ok)
  | .v1Initialize instanceId maxPoints pid shm =>
      indurtdbInitialize s instanceId maxPoints pid shm
  | .v1Shutdown => (indurtdbShutdown s).map fun s => (s, .ok)
  | .v1Detach => (indurtdbDetach s).map fun s => (s, .ok)

/-- Only live handles are closed. -/
def Lawful (s : Instances σ) : InstanceCall σ → Prop
  | .hClose (some h) => h ∈ s.live
  | _ => True

instance (s : Instances σ) : ∀ call, Decidable (Lawful s call)
  | .hClose (some h) => inferInstanceAs (Decidable (h ∈ s.live))
  | .hClose none | .hOpen .. | .v1Initialize .. | .v1Shutdown | .v1Detach =>
      inferInstanceAs (Decidable True)

/-- The handle a call is about. -/
def target (s : Instances σ) : InstanceCall σ → Option Nat
  | .hOpen .. => none
  | .hClose h => h
  | .v1Initialize .. | .v1Shutdown | .v1Detach => s.default

/-- The call goes as far as `inst_alloc`. -/
def Allocates (s : Instances σ) : InstanceCall σ → Prop
  | .hOpen hasOut instanceId cfg _ _ => hasOut ∧ isInstanceId instanceId ∧ cfg.getD 0 ≠ 0
  | .v1Initialize .. => s.default = none
  | _ => False

end InstanceCall

/-- The globals after some calls. -/
def instancesAfter {σ : Type} (calls : List (InstanceCall σ)) : Option (Instances σ) :=
  calls.foldlM (fun s call => (call.run s).map Prod.fst) .start

/-! ## The bitmap -/

/-- A bitmap tells the members of a list of distinct slots. -/
structure Told (mask : BitVec usedMaskBits) (live : List Nat) : Prop where
  nodup : live.Nodup
  bit_iff : ∀ h, mask.getLsbD h = true ↔ h ∈ live

namespace Told

variable {mask : BitVec usedMaskBits} {live live' : List Nat} {h : Nat}

theorem lt (ht : Told mask live) (hmem : h ∈ live) : h < usedMaskBits :=
  BitVec.lt_of_getLsbD ((ht.bit_iff h).mpr hmem)

theorem perm (ht : Told mask live) (hperm : live'.Perm live) : Told mask live' :=
  ⟨hperm.nodup_iff.mpr ht.nodup, fun h => by rw [ht.bit_iff, hperm.mem_iff]⟩

/-- Setting a bit that is clear. -/
theorem set (ht : Told mask live) (hlt : h < usedMaskBits) (hnot : h ∉ live) :
    Told (mask ||| BitVec.twoPow usedMaskBits h) (h :: live) := by
  refine ⟨List.nodup_cons.mpr ⟨hnot, ht.nodup⟩, fun k => ?_⟩
  rw [BitVec.getLsbD_or, BitVec.getLsbD_twoPow, Bool.or_eq_true, ht.bit_iff, List.mem_cons,
    or_comm]
  simp [hlt, eq_comm]

/-- Clearing a bit. -/
theorem clear (ht : Told mask live) :
    Told (mask &&& ~~~ BitVec.twoPow usedMaskBits h) (live.erase h) := by
  refine ⟨ht.nodup.erase h, fun k => ?_⟩
  rw [BitVec.getLsbD_and, BitVec.getLsbD_not, BitVec.getLsbD_twoPow, Bool.and_eq_true,
    ht.bit_iff, ht.nodup.mem_erase_iff]
  constructor
  · rintro ⟨hmem, hbit⟩
    have hlt := ht.lt hmem
    exact ⟨fun heq => by simp [heq, heq ▸ hlt] at hbit, hmem⟩
  · rintro ⟨hne, hmem⟩
    have hlt := ht.lt hmem
    exact ⟨hmem, by simp [hlt, Ne.symm hne]⟩

/-- With fewer members than bits, some bit is clear. -/
theorem exists_clear (ht : Told mask live) (hroom : live.length < usedMaskBits) :
    ∃ h, h < usedMaskBits ∧ mask.getLsbD h = false := by
  by_contra hfull
  have hsub : List.range usedMaskBits ⊆ live := fun h hmem => by
    refine (ht.bit_iff h).mp (Bool.of_not_eq_false fun hclear => hfull ⟨h, ?_, hclear⟩)
    exact List.mem_range.mp hmem
  have hlength := (List.nodup_range.subperm hsub).length_le
  rw [List.length_range] at hlength
  omega

/-- With as many members as bits, no bit is clear. -/
theorem all_set (ht : Told mask live) (hfull : usedMaskBits ≤ live.length)
    (hlt : h < usedMaskBits) : mask.getLsbD h = true := by
  rw [ht.bit_iff]
  by_contra hnot
  have hsub : h :: live ⊆ List.range usedMaskBits := fun k hmem => by
    rcases List.mem_cons.mp hmem with rfl | hmem
    · exact List.mem_range.mpr hlt
    · exact List.mem_range.mpr (ht.lt hmem)
  have hlength := ((List.nodup_cons.mpr ⟨hnot, ht.nodup⟩).subperm hsub).length_le
  rw [List.length_range, List.length_cons] at hlength
  omega

end Told

theorem shiftedOne_eq {i : Nat} (h : i < usedMaskBits) :
    shiftedOne i = some (BitVec.twoPow usedMaskBits i) := if_pos h

theorem and_twoPow_eq_zero_iff {mask : BitVec usedMaskBits} {i : Nat} (h : i < usedMaskBits) :
    mask &&& BitVec.twoPow usedMaskBits i = 0 ↔ mask.getLsbD i = false := by
  rw [BitVec.and_twoPow]
  split
  case isTrue hset =>
    have hbit : (BitVec.twoPow usedMaskBits i).getLsbD i = true := by
      rw [BitVec.getLsbD_twoPow, decide_eq_true h, decide_eq_true rfl]
      rfl
    refine iff_of_false (fun hzero => ?_) (by rw [hset]; decide)
    rw [hzero] at hbit
    simp at hbit
  case isFalse hclear => exact iff_of_true rfl (Bool.of_not_eq_true hclear)

/-- The loop finds the first clear bit. -/
theorem instAllocLoop_of_clear {mask : BitVec usedMaskBits} {h : Nat} (hlt : h < usedMaskBits)
    (hclear : mask.getLsbD h = false) (n i : Nat) (hi : i ≤ h) (hn : h - i < n) :
    ∃ k, instAllocLoop mask n i = some (some k) ∧ k < usedMaskBits ∧ mask.getLsbD k = false := by
  induction n generalizing i with
  | zero => omega
  | succ n ih =>
      have hwidth : i < usedMaskBits := by omega
      simp only [instAllocLoop, shiftedOne_eq hwidth, Option.bind_eq_bind, Option.bind_some,
        and_twoPow_eq_zero_iff hwidth]
      split
      case isTrue hfree => exact ⟨i, rfl, hwidth, hfree⟩
      case isFalse hused =>
        have hne : i ≠ h := fun heq => hused (heq ▸ hclear)
        exact ih (i + 1) (by omega) (by omega)

/-- With no clear bit the loop shifts by too much. -/
theorem instAllocLoop_of_set {mask : BitVec usedMaskBits}
    (hset : ∀ h, h < usedMaskBits → mask.getLsbD h = true) (n i : Nat) (hi : i ≤ usedMaskBits)
    (hn : usedMaskBits - i < n) : instAllocLoop mask n i = none := by
  induction n generalizing i with
  | zero => omega
  | succ n ih =>
      rcases Nat.lt_or_eq_of_le hi with hlt | rfl
      · have hused : ¬ mask.getLsbD i = false := by rw [hset i hlt]; decide
        simp only [instAllocLoop, shiftedOne_eq hlt, Option.bind_eq_bind, Option.bind_some,
          and_twoPow_eq_zero_iff hlt, if_neg hused]
        exact ih (i + 1) (by omega) (by omega)
      · rfl

/-! ## What the calls do to the table -/

section

variable {σ : Type} {s : Instances σ} {h : Nat}

/-- The bitmap tells the live handles. -/
def SlotsTold (s : Instances σ) : Prop := Told s.usedMask s.live

/-- What `inst_alloc` leaves when it finds slot `k`. -/
structure Allocated (s : Instances σ) (k : Nat) (s' : Instances σ) : Prop where
  lt : k < usedMaskBits
  fresh : k ∉ s.live
  told : Told s'.usedMask (k :: s.live)
  default_eq : s'.default = s.default
  opened_eq : s'.opened = s.opened
  others : ∀ j ∈ s.live, s'.registry j = s.registry j

theorem instAlloc_of_room (ht : SlotsTold s) (hroom : s.live.length < usedMaskBits) :
    ∃ s' k, instAlloc s = some (s', some k) ∧ Allocated s k s' := by
  obtain ⟨h, hlt, hclear⟩ := Told.exists_clear ht hroom
  have hslots : h - 0 < irtMaxInstances := Nat.lt_trans hlt (by decide)
  obtain ⟨k, hloop, hk, hfree⟩ := instAllocLoop_of_clear hlt hclear irtMaxInstances 0
    (Nat.zero_le h) hslots
  have hfresh : k ∉ s.live := fun hmem => by
    rw [(ht.bit_iff k).mpr hmem] at hfree
    exact Bool.noConfusion hfree
  refine ⟨{ s with
      usedMask := s.usedMask ||| BitVec.twoPow usedMaskBits k
      registry := Function.update s.registry k { Indurtdb.zero with deltaFd := -1 } },
    k, ?_, hk, hfresh, Told.set ht hk hfresh, rfl, rfl, fun j hj => ?_⟩
  · simp only [instAlloc, hloop, Option.bind_eq_bind, Option.bind_some, shiftedOne_eq hk]
  · have hne : j ≠ k := fun heq => hfresh (heq ▸ hj)
    exact Function.update_of_ne hne _ _

theorem instAlloc_of_full (ht : SlotsTold s) (hfull : usedMaskBits ≤ s.live.length) :
    instAlloc s = none := by
  have hloop := instAllocLoop_of_set (fun h hlt => Told.all_set ht hfull hlt) irtMaxInstances 0
    (Nat.zero_le _) (by decide)
  rw [instAlloc, hloop]
  rfl

theorem instFree_of_lt (hlt : h < usedMaskBits) :
    instFree s h =
      some { s with usedMask := s.usedMask &&& ~~~ BitVec.twoPow usedMaskBits h } := by
  have hslot : h < irtMaxInstances := Nat.lt_trans hlt (by decide)
  rw [instFree, if_pos hslot, shiftedOne_eq hlt]
  rfl

theorem instInit_rc (inst : Indurtdb σ) (instanceId : Option CStr) (maxPoints : Nat) (pid : Int)
    (shm : ShmInit σ) : (instInit inst instanceId maxPoints pid shm).2 ≠ .errFull := by
  dsimp only [instInit]
  split
  · split
    · exact Rc.noConfusion
    · split
      · exact Rc.noConfusion
      · split <;> exact Rc.noConfusion
  · split
    · exact Rc.noConfusion
    · split
      · exact Rc.noConfusion
      · split <;> exact Rc.noConfusion

/-- What a call leaves: the bitmap tells the live handles, and only the instance the
call is about has changed. -/
structure Leaves (s : Instances σ) (target : Option Nat) (s' : Instances σ) : Prop where
  told : SlotsTold s'
  others : ∀ k ∈ s.live, some k ≠ target → s'.registry k = s.registry k

theorem setInst_registry_ne {k : Nat} (hne : k ≠ h) (inst : Indurtdb σ) :
    (s.setInst h inst).registry k = s.registry k := Function.update_of_ne hne _ _

theorem not_mem_opened_of_default (ht : SlotsTold s) (hdefault : s.default = some h) :
    h ∉ s.opened := by
  intro hopened
  obtain ⟨-, -, hdisjoint⟩ := List.nodup_append.mp ht.nodup
  exact hdisjoint h hopened h (Option.mem_toList.mpr hdefault) rfl

theorem erase_live_of_default (ht : SlotsTold s) (hdefault : s.default = some h) :
    s.live.erase h = s.opened := by
  rw [Instances.live, hdefault, Option.toList_some,
    List.erase_append_right _ (not_mem_opened_of_default ht hdefault), List.erase_cons_head,
    List.append_nil]

theorem indurtdbHClose_leaves (ht : SlotsTold s) (hmem : h ∈ s.live) :
    ∃ s', indurtdbHClose s (some h) = some s' ∧ Leaves s (some h) s' := by
  have hlt := ht.lt hmem
  have hothers : ∀ k ∈ s.live, some k ≠ some h →
      (s.setInst h (instShutdown (s.registry h))).registry k = s.registry k :=
    fun k _ hne => setInst_registry_ne (fun heq => hne (congrArg some heq)) _
  simp only [indurtdbHClose, instFree_of_lt hlt]
  refine ⟨_, rfl, ?_⟩
  by_cases hdefault : (s.setInst h (instShutdown (s.registry h))).default = some h
  · simp only [if_pos hdefault]
    refine ⟨(Told.clear ht (h := h)).perm (.of_eq ?_), hothers⟩
    rw [erase_live_of_default ht hdefault, Instances.live, Option.toList_none, List.append_nil]
    exact List.erase_of_not_mem (not_mem_opened_of_default ht hdefault)
  · simp only [if_neg hdefault]
    refine ⟨(Told.clear ht (h := h)).perm (.of_eq ?_), hothers⟩
    have hopened : h ∈ s.opened := (List.mem_append.mp hmem).resolve_right
      fun hin => hdefault (Option.mem_toList.mp hin)
    exact (List.erase_append_left _ hopened).symm

/-- The default handle is tried: it stays, or it is given up. -/
theorem initializeDefault_leaves (ht : SlotsTold s) (hdefault : s.default = some h)
    (instanceId : Option CStr) (maxPoints : Nat) (pid : Int) (shm : ShmInit σ) :
    ∃ s' rc, initializeDefault s h instanceId maxPoints pid shm = some (s', rc) ∧
      rc ≠ .errFull ∧ SlotsTold s' ∧ ∀ k, k ≠ h → s'.registry k = s.registry k := by
  have hmem : h ∈ s.live := List.mem_append_right _ (Option.mem_toList.mpr hdefault)
  have hrc := instInit_rc (s.registry h) instanceId maxPoints pid shm
  simp only [initializeDefault, instFree_of_lt (ht.lt hmem), Option.bind_eq_bind,
    Option.bind_some]
  generalize instInit (s.registry h) instanceId maxPoints pid shm = tried at hrc ⊢
  obtain ⟨inst, rc⟩ := tried
  have hothers : ∀ k, k ≠ h → (s.setInst h inst).registry k = s.registry k :=
    fun k hne => setInst_registry_ne hne inst
  split
  case isTrue =>
    refine ⟨_, _, rfl, hrc, ?_, hothers⟩
    refine (Told.clear ht (h := h)).perm (.of_eq ?_)
    rw [erase_live_of_default ht hdefault, Instances.live, Option.toList_none, List.append_nil]
    rfl
  case isFalse => exact ⟨_, _, rfl, hrc, ht, hothers⟩

/-- The step lemma: with room for one more handle, or without taking one, a call keeps
the bitmap and the other instances. -/
theorem InstanceCall.run_leaves (ht : SlotsTold s) (call : InstanceCall σ)
    (hlawful : call.Lawful s) (hroom : call.Allocates s → s.live.length < usedMaskBits) :
    ∃ s' rc, call.run s = some (s', rc) ∧ rc ≠ .errFull ∧ Leaves s (call.target s) s' := by
  cases call with
  | hOpen hasOut instanceId cfg pid shm =>
      simp only [run, indurtdbHOpen]
      split
      case isTrue => exact ⟨_, _, rfl, Rc.noConfusion, ht, fun _ _ _ => rfl⟩
      case isFalse hargs =>
      split
      case isTrue => exact ⟨_, _, rfl, Rc.noConfusion, ht, fun _ _ _ => rfl⟩
      case isFalse hmp =>
      obtain ⟨hout, hid⟩ := not_or.mp hargs
      obtain ⟨s₁, k, halloc, hnew⟩ :=
        instAlloc_of_room ht (hroom ⟨not_not.mp hout, not_not.mp hid, hmp⟩)
      simp only [halloc, Option.bind_eq_bind, Option.bind_some, instFree_of_lt hnew.lt]
      have hrc := instInit_rc (s₁.registry k) instanceId (cfg.getD 0) pid shm
      generalize instInit (s₁.registry k) instanceId (cfg.getD 0) pid shm = tried at hrc ⊢
      obtain ⟨inst, rc⟩ := tried
      have hothers : ∀ j ∈ s.live, (s₁.setInst k inst).registry j = s.registry j := fun j hj => by
        have hne : j ≠ k := fun heq => hnew.fresh (heq ▸ hj)
        rw [setInst_registry_ne hne, hnew.others j hj]
      split
      case isTrue =>
        refine ⟨_, _, rfl, hrc, ?_, fun j hj _ => hothers j hj⟩
        refine (Told.clear hnew.told (h := k)).perm (.of_eq ?_)
        rw [List.erase_cons_head]
        exact congrArg₂ (· ++ ·.toList) hnew.opened_eq hnew.default_eq
      case isFalse =>
        refine ⟨_, _, rfl, Rc.noConfusion, hnew.told.perm ?_, fun j hj _ => hothers j hj⟩
        have hlive : (s₁.opened ++ [k]) ++ s₁.default.toList =
            s.opened ++ k :: s.default.toList := by
          rw [hnew.opened_eq, hnew.default_eq, List.append_assoc, List.singleton_append]
        exact (List.Perm.of_eq hlive).trans List.perm_middle
  | v1Initialize instanceId maxPoints pid shm =>
      simp only [run, indurtdbInitialize, target]
      cases hdefault : s.default with
      | none =>
          obtain ⟨s₁, k, halloc, hnew⟩ := instAlloc_of_room ht (hroom hdefault)
          simp only [halloc, Option.bind_eq_bind, Option.bind_some]
          have hlive : s₁.opened ++ [k] = s.live ++ [k] := by
            rw [hnew.opened_eq, Instances.live, hdefault, Option.toList_none, List.append_nil]
          have ht₁ : SlotsTold { s₁ with default := some k } :=
            hnew.told.perm ((List.Perm.of_eq hlive).trans (List.perm_append_singleton k s.live))
          obtain ⟨s', rc, htried, hrc, ht', hothers⟩ :=
            initializeDefault_leaves ht₁ rfl instanceId maxPoints pid shm
          refine ⟨s', rc, htried, hrc, ht', fun j hj _ => ?_⟩
          rw [hothers j (fun heq => hnew.fresh (heq ▸ hj))]
          exact hnew.others j hj
      | some h =>
          dsimp only
          split
          case isTrue =>
            split
            case isTrue =>
              obtain ⟨s', rc, htried, hrc, ht', hothers⟩ := initializeDefault_leaves
                (s := s.setInst h (instShutdown { s.registry h with owner := false })) ht hdefault
                instanceId maxPoints pid shm
              refine ⟨s', rc, htried, hrc, ht', fun j _ hne => ?_⟩
              have hne' : j ≠ h := fun heq => hne (congrArg some heq)
              rw [hothers j hne', setInst_registry_ne hne']
            case isFalse => exact ⟨_, _, rfl, Rc.noConfusion, ht, fun _ _ _ => rfl⟩
          case isFalse =>
            obtain ⟨s', rc, htried, hrc, ht', hothers⟩ :=
              initializeDefault_leaves ht hdefault instanceId maxPoints pid shm
            exact ⟨s', rc, htried, hrc, ht', fun j _ hne =>
              hothers j fun heq => hne (congrArg some heq)⟩
  | hClose h =>
      cases h with
      | none => exact ⟨s, .ok, rfl, Rc.noConfusion, ht, fun _ _ _ => rfl⟩
      | some h =>
          obtain ⟨s', hclose, hleaves⟩ := indurtdbHClose_leaves ht hlawful
          exact ⟨s', .ok, by rw [run, hclose]; rfl, Rc.noConfusion, hleaves⟩
  | v1Shutdown =>
      cases hdefault : s.default with
      | none =>
          exact ⟨s, .ok, by rw [run, indurtdbShutdown, hdefault]; rfl, Rc.noConfusion, ht,
            fun _ _ _ => rfl⟩
      | some h =>
          have hmem : h ∈ s.live := List.mem_append_right _ (Option.mem_toList.mpr hdefault)
          obtain ⟨s', hclose, hleaves⟩ := indurtdbHClose_leaves ht hmem
          refine ⟨s', .ok, ?_, Rc.noConfusion, ?_⟩
          · rw [run, indurtdbShutdown, hdefault]
            simp only [hclose, Option.map_some]
          · rw [target, hdefault]
            exact hleaves
  | v1Detach =>
      cases hdefault : s.default with
      | none =>
          exact ⟨s, .ok, by rw [run, indurtdbDetach, hdefault]; rfl, Rc.noConfusion, ht,
            fun _ _ _ => rfl⟩
      | some h =>
          have hmem : h ∈ s.live := List.mem_append_right _ (Option.mem_toList.mpr hdefault)
          obtain ⟨s', hclose, hleaves⟩ := indurtdbHClose_leaves
            (s := s.setInst h { s.registry h with owner := false }) ht hmem
          refine ⟨s', .ok, ?_, Rc.noConfusion, hleaves.told, fun k hk hne => ?_⟩
          · rw [run, indurtdbDetach, hdefault]
            simp only [hclose, Option.map_some]
          · rw [target, hdefault] at hne
            rw [hleaves.others k hk hne,
              setInst_registry_ne (fun heq => hne (congrArg some heq))]

/-- Without room, a call that takes a handle shifts by too much. -/
theorem InstanceCall.run_full (ht : SlotsTold s) {call : InstanceCall σ}
    (hallocates : call.Allocates s) (hfull : usedMaskBits ≤ s.live.length) :
    call.run s = none := by
  have halloc := instAlloc_of_full ht hfull
  cases call with
  | hOpen hasOut instanceId cfg pid shm =>
      obtain ⟨hout, hid, hmp⟩ := hallocates
      have hargs : ¬ (¬ hasOut = true ∨ ¬ isInstanceId instanceId = true) := by
        rintro (hnot | hnot)
        · exact hnot hout
        · exact hnot hid
      rw [run, indurtdbHOpen, if_neg hargs]
      simp only [if_neg hmp, halloc]
      rfl
  | v1Initialize instanceId maxPoints pid shm =>
      have hdefault : s.default = none := hallocates
      rw [run, indurtdbInitialize, hdefault]
      simp only [halloc]
      rfl
  | hClose h => exact hallocates.elim
  | v1Shutdown => exact hallocates.elim
  | v1Detach => exact hallocates.elim

end

/-! ## Runs -/

section

variable {σ : Type} {calls : List (InstanceCall σ)}

/-- Every call shifts by less than the width of the bitmap, which tells the live handles
before and after it; a handle is refused only when all slots are taken; and a call leaves
the instances of the other live handles alone. -/
def SlotsNeverShared (calls : List (InstanceCall σ)) : Prop :=
  ∀ before call, before ++ [call] <+: calls →
    ∃ s s' rc, instancesAfter before = some s ∧ call.run s = some (s', rc) ∧ SlotsTold s ∧
      (rc = .errFull → irtMaxInstances ≤ s.live.length) ∧ Leaves s (call.target s) s'

/-- Every close is of a live handle. -/
def ClosesLive (calls : List (InstanceCall σ)) : Prop :=
  ∀ before call, before ++ [call] <+: calls → ∀ s, instancesAfter before = some s →
    call.Lawful s

/-- A call that takes a handle finds fewer than 32 live. -/
def LeavesRoom (calls : List (InstanceCall σ)) : Prop :=
  ∀ before call, before ++ [call] <+: calls → ∀ s, instancesAfter before = some s →
    call.Allocates s → s.live.length < usedMaskBits

theorem instancesAfter_append (before : List (InstanceCall σ)) (call : InstanceCall σ) :
    instancesAfter (before ++ [call]) =
      (instancesAfter before).bind fun s => (call.run s).map Prod.fst := by
  simp [instancesAfter, List.foldlM_append]

theorem slotsTold_start : SlotsTold (Instances.start : Instances σ) :=
  ⟨List.nodup_nil, fun h => by simp [Instances.start, Instances.live]⟩

/-- With room at every call that needs it, a run goes through. -/
theorem LeavesRoom.told (hlawful : ClosesLive calls) (hroom : LeavesRoom calls)
    (before : List (InstanceCall σ)) (hbefore : before <+: calls) :
    ∃ s, instancesAfter before = some s ∧ SlotsTold s := by
  induction before using List.reverseRecOn with
  | nil => exact ⟨_, rfl, slotsTold_start⟩
  | append_singleton before call ih =>
      obtain ⟨s, hs, ht⟩ := ih ((List.prefix_append before [call]).trans hbefore)
      obtain ⟨s', rc, hrun, -, hleaves⟩ := call.run_leaves ht (hlawful before call hbefore s hs)
        (hroom before call hbefore s hs)
      refine ⟨s', ?_, hleaves.told⟩
      rw [instancesAfter_append, hs, Option.bind_some, hrun]
      rfl

/-- Slots are never shared exactly when no handle is taken while 32 are live. -/
theorem slotsNeverShared_iff (hlawful : ClosesLive calls) :
    SlotsNeverShared calls ↔ LeavesRoom calls := by
  constructor
  · intro hnever before call hbefore s hs hallocates
    obtain ⟨s₁, s', rc, hs₁, hrun, ht, -⟩ := hnever before call hbefore
    obtain rfl : s₁ = s := Option.some.inj (hs₁.symm.trans hs)
    by_contra hfull
    rw [InstanceCall.run_full ht hallocates (Nat.not_lt.mp hfull)] at hrun
    cases hrun
  · intro hroom before call hbefore
    obtain ⟨s, hs, ht⟩ :=
      hroom.told hlawful before ((List.prefix_append before [call]).trans hbefore)
    obtain ⟨s', rc, hrun, hrc, hleaves⟩ := call.run_leaves ht (hlawful before call hbefore s hs)
      (hroom before call hbefore s hs)
    exact ⟨s, s', rc, hs, hrun, ht, fun hfull => absurd hfull hrc, hleaves⟩

end

/-- An open that is given all it needs. -/
def plainOpen : InstanceCall Unit :=
  .hOpen true (some ⟨[112], by decide⟩) (some 1) 1 ⟨0, some (), true⟩

/-- Two handles are opened and the first is closed, its slot is given out again, and the
default handle is initialized beside them, kept, and shut down. -/
def manyHandles : List (InstanceCall Unit) :=
  [plainOpen, plainOpen, .hClose (some 0), plainOpen,
    .v1Initialize (some ⟨[112], by decide⟩) 1 1 ⟨0, some (), true⟩, .hClose (some 1), .v1Shutdown]

theorem take_of_prefix {α : Type} {before calls : List α} {x : α}
    (h : before ++ [x] <+: calls) : ∃ i, calls.take i = before ∧ calls[i]? = some x := by
  obtain ⟨rest, rfl⟩ := h
  exact ⟨before.length, by simp, by simp⟩

theorem slotsNeverShared_manyHandles :
    SlotsNeverShared manyHandles ∧
      (manyHandles.inits.map fun before => (instancesAfter before).map Instances.live) =
        [some [], some [0], some [0, 1], some [1], some [1, 0], some [1, 0, 2], some [0, 2],
          some [0]] := by
  have hcalls : ∀ before call, before ++ [call] <+: manyHandles →
      ∀ s, instancesAfter before = some s → call.Lawful s ∧ s.live.length < usedMaskBits := by
    intro before call hbefore s hs
    obtain ⟨i, rfl, hcall⟩ := take_of_prefix hbefore
    have hall : ∀ i < 7, (instancesAfter (manyHandles.take i)).all (fun s =>
        manyHandles[i]?.all fun call =>
          decide (call.Lawful s ∧ s.live.length < usedMaskBits)) = true := by
      decide +kernel
    have hi := hall i (List.getElem?_eq_some_iff.mp hcall).1
    rw [hs, hcall] at hi
    exact of_decide_eq_true hi
  refine ⟨(slotsNeverShared_iff fun before call hbefore s hs => ?_).mpr
    fun before call hbefore s hs _ => ?_, by decide +kernel⟩
  · exact (hcalls before call hbefore s hs).1
  · exact (hcalls before call hbefore s hs).2

/-- The thirty-third open shifts by 32. -/
theorem not_slotsNeverShared : ¬ SlotsNeverShared (List.replicate 33 plainOpen) := by
  intro hnever
  obtain ⟨s, s', rc, hs, hrun, -⟩ :=
    hnever (List.replicate 32 plainOpen) plainOpen (List.prefix_refl _)
  have hafter : instancesAfter (List.replicate 32 plainOpen ++ [plainOpen]) = some s' := by
    rw [instancesAfter_append, hs, Option.bind_some, hrun]
    rfl
  have hfault : (instancesAfter (List.replicate 32 plainOpen ++ [plainOpen])).isNone = true := by
    decide +kernel
  rw [hafter] at hfault
  exact Bool.noConfusion hfault

end InduRtdb.Api
