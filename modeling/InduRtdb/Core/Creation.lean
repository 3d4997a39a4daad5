/-
  Core/Creation.lean --- the creating process against those that attach.

  Source: `irt_shm_init`, `irt_header_seal` and `irt_header_verify` of
  `src/core/irt_shm.c`, `irt_index_clear` of `src/core/irt_index.c` and
  `irt_shm_os_map` of `src/osal/posix/irt_osal_posix.c`.

  The creating process fills the segment one store at a time; the two `memset`s over
  tables may go through their records in any order.  A process that finds the name
  taken maps the segment, reads header words one at a time, and once its acceptance
  test has passed it stores into the tables whatever its calls make it store.  A
  process that touches the mapping before `ftruncate` is killed by `SIGBUS`.
-/
import InduRtdb.Core.Index
import InduRtdb.Lib.Reads
import InduRtdb.Lib.Run

set_option autoImplicit false

namespace InduRtdb.Core

open InduRtdb.Lib

/-! ## The memory, cell by cell -/

/-- The words of `irt_header_t`. -/
inductive HdrWord where
  | magic
  | version
  | maxPoints
  | maxSubscribers
  | writeSeq
  | ownerPid
  | statsWrites
  | statsTimeouts
  | crc32
  | flags
  | reservedScan
  | offPoints
  | offIndex
  | offMeta
  | offSubs
  | indexCount
  | scanSkipped
  deriving DecidableEq

/-- What a header word holds. -/
abbrev HdrWord.Val : HdrWord → Type
  | .crc32 => UInt32
  | _ => Nat

/-- What is loaded and stored as a whole. -/
inductive Cell where
  | hdr (w : HdrWord)
  | point (i : Nat)
  | slot (i : Nat)
  | metaOf (i : Nat)
  deriving DecidableEq

abbrev Cell.Val : Cell → Type
  | .hdr w => w.Val
  | .point _ => IndurtdbPoint
  | .slot _ => IrtIndexSlot
  | .metaOf _ => IndurtdbMeta

/-- The contents of the segment. -/
abbrev Mem : Type := (c : Cell) → c.Val

/-- A header word of all zero bytes. -/
def HdrWord.zero : (w : HdrWord) → w.Val
  | .crc32 => (0 : UInt32)
  | .magic | .version | .maxPoints | .maxSubscribers | .writeSeq | .ownerPid | .statsWrites
  | .statsTimeouts | .flags | .reservedScan | .offPoints | .offIndex | .offMeta | .offSubs
  | .indexCount | .scanSkipped => (0 : Nat)

/-- A cell of all zero bytes, as `ftruncate` makes it. -/
def Cell.zero : (c : Cell) → c.Val
  | .hdr w => w.zero
  | .point _ => IndurtdbPoint.zero
  | .slot _ => ⟨0, 0⟩
  | .metaOf _ => IndurtdbMeta.zero

/-- An index slot of all `0xFF` bytes. -/
def IrtIndexSlot.empty : IrtIndexSlot := ⟨0xFFFFFFFF, irtIndexEmpty⟩

/-- What a cell holds in a segment nobody has used yet. -/
def Cell.fresh : (c : Cell) → c.Val
  | .slot _ => IrtIndexSlot.empty
  | c => c.zero

/-- The header as one record. -/
def Mem.header (mem : Mem) : IrtHeader where
  magic := mem (.hdr .magic)
  version := mem (.hdr .version)
  maxPoints := mem (.hdr .maxPoints)
  maxSubscribers := mem (.hdr .maxSubscribers)
  writeSeq := mem (.hdr .writeSeq)
  ownerPid := mem (.hdr .ownerPid)
  statsWrites := mem (.hdr .statsWrites)
  statsTimeouts := mem (.hdr .statsTimeouts)
  crc32 := mem (.hdr .crc32)
  flags := mem (.hdr .flags)
  reservedScan := mem (.hdr .reservedScan)
  offPoints := mem (.hdr .offPoints)
  offIndex := mem (.hdr .offIndex)
  offMeta := mem (.hdr .offMeta)
  offSubs := mem (.hdr .offSubs)
  indexCount := mem (.hdr .indexCount)
  scanSkipped := mem (.hdr .scanSkipped)

/-- The segment as the other modules see it. -/
def Mem.segment (mem : Mem) : Segment where
  hdr := mem.header
  points i := mem (.point i)
  slots i := mem (.slot i)
  metas i := mem (.metaOf i)

@[simp] theorem Mem.segment_points (mem : Mem) (i : Nat) :
    mem.segment.points i = mem (.point i) := rfl
@[simp] theorem Mem.segment_slots (mem : Mem) (i : Nat) :
    mem.segment.slots i = mem (.slot i) := rfl
@[simp] theorem Mem.segment_metas (mem : Mem) (i : Nat) :
    mem.segment.metas i = mem (.metaOf i) := rfl

/-! ## The creating process -/

/-- One action of the creating process. -/
inductive Act where
  | ftruncate
  | store (c : Cell) (v : c.Val)
  /-- `h->crc32 = irt_header_crc32_of(h)` -/
  | storeCrc

/-- The memory after an action. -/
def Act.run : Act → Mem → Mem
  | .ftruncate, mem => mem
  | .store c v, mem => Function.update mem c v
  | .storeCrc, mem => Function.update mem (.hdr .crc32) (irtHeaderCrc32Of mem.header)

def Act.isTruncate : Act → Bool
  | .ftruncate => true
  | _ => false

/-- The words of the header, as `memset` zeroes them. -/
def HdrWord.all : List HdrWord :=
  [.magic, .version, .maxPoints, .maxSubscribers, .writeSeq, .ownerPid, .statsWrites,
    .statsTimeouts, .crc32, .flags, .reservedScan, .offPoints, .offIndex, .offMeta, .offSubs,
    .indexCount, .scanSkipped]

/-- `irt_shm_init` in the process whose `shm_open` created the name: what it was asked
for, and the order in which its `memset`s visit the index and the metadata.  The
layout is the one its offsets describe. -/
structure Creator where
  maxPoints : Nat
  maxSubscribers : Nat
  pid : Nat
  slotOrder : List Nat
  metaOrder : List Nat
  pos : 0 < maxPoints
  fits : LayoutFits maxPoints
  slots_perm : slotOrder.Perm (List.range (irtLayoutBuckets maxPoints))
  metas_perm : metaOrder.Perm (List.range maxPoints)

namespace Creator

/-- `memset(hdr, 0, …)` and the header stores, up to the sealing one. -/
def headerActs (c : Creator) : List Act :=
  HdrWord.all.map (fun w => .store (.hdr w) w.zero) ++
    [.store (.hdr .magic) irtMagic,
      .store (.hdr .version) irtShmVersion,
      .store (.hdr .maxPoints) c.maxPoints,
      .store (.hdr .maxSubscribers) c.maxSubscribers,
      .store (.hdr .ownerPid) c.pid,
      .store (.hdr .offPoints) irtLayoutOffPoints,
      .store (.hdr .offIndex) (irtLayoutOffIndex c.maxPoints),
      .store (.hdr .offMeta) (irtLayoutOffMeta c.maxPoints),
      .store (.hdr .offSubs) (irtLayoutOffSubs c.maxPoints),
      .store (.hdr .crc32) (0 : UInt32),
      .storeCrc]

/-- `irt_index_clear`, then the `memset` over the metadata. -/
def clearActs (c : Creator) : List Act :=
  c.slotOrder.map (fun i => .store (.slot i) IrtIndexSlot.empty) ++
    .store (.hdr .indexCount) (0 : Nat) ::
      c.metaOrder.map (fun i => .store (.metaOf i) IndurtdbMeta.zero)

/-- Everything after `shm_open`. -/
def acts (c : Creator) : List Act := .ftruncate :: (c.headerActs ++ c.clearActs)

end Creator

/-! ## The attaching processes -/

/-- The fields `irt_header_crc32_of` reads, one load each. -/
def crcReads {α : Type} (k : UInt32 → Reads HdrWord HdrWord.Val α) :
    Reads HdrWord HdrWord.Val α :=
  .get .magic fun magic => .get .version fun version =>
  .get .maxPoints fun maxPoints => .get .maxSubscribers fun maxSubscribers =>
  .get .flags fun flags => .get .reservedScan fun reservedScan =>
  .get .offPoints fun offPoints => .get .offIndex fun offIndex =>
  .get .offMeta fun offMeta => .get .offSubs fun offSubs =>
  k <| irtHeaderCrc32Of
    { magic := magic
      version := version
      maxPoints := maxPoints
      maxSubscribers := maxSubscribers
      writeSeq := 0
      ownerPid := 0
      statsWrites := 0
      statsTimeouts := 0
      crc32 := 0
      flags := flags
      reservedScan := reservedScan
      offPoints := offPoints
      offIndex := offIndex
      offMeta := offMeta
      offSubs := offSubs
      indexCount := 0
      scanSkipped := 0 }

/-- The acceptance tests of `irt_shm_init` on a mapped segment. -/
def attachReads (n m : Nat) : Reads HdrWord HdrWord.Val (Except ShmErr IrtShm) :=
  .get .magic fun magic =>
  if magic ≠ irtMagic then .ret (.error .version) else
  .get .version fun version =>
  if version ≠ irtShmVersion then .ret (.error .version) else
  .get .maxPoints fun maxPoints =>
  if maxPoints < n then .ret (.error .arg) else
  .get .maxSubscribers fun maxSubscribers =>
  if maxSubscribers < m then .ret (.error .arg) else
  .get .magic fun magic =>
  if magic ≠ irtMagic then .ret (.error .crc) else
  crcReads fun crc =>
  .get .crc32 fun stored =>
  if crc = stored then .ret (.ok (irtShmRequest n m)) else .ret (.error .crc)

/-- Nobody else storing, the loads add up to `irt_header_crc32_of`. -/
theorem crcReads_run {α : Type} (mem : Mem) (k : UInt32 → Reads HdrWord HdrWord.Val α) :
    (crcReads k).run (fun w => mem (.hdr w)) =
      (k (irtHeaderCrc32Of mem.header)).run fun w => mem (.hdr w) := rfl

/-- Nobody else storing, the tests are those of `irtShmAttach`. -/
theorem attachReads_run {n m : Nat} (hn : n ≠ 0) (mem : Mem) :
    (attachReads n m).run (fun w => mem (.hdr w)) = irtShmAttach mem.header n m := by
  change (Reads.run (fun w => mem (.hdr w)) <|
    if mem.header.magic ≠ irtMagic then _ else Reads.get .version _) = _
  by_cases hmagic : mem.header.magic = irtMagic
  case neg => simp [irtShmAttach, hn, hmagic]
  simp only [hmagic, ne_eq, not_true_eq_false, if_false]
  change (Reads.run (fun w => mem (.hdr w)) <|
    if mem.header.version ≠ irtShmVersion then _ else Reads.get .maxPoints _) = _
  by_cases hversion : mem.header.version = irtShmVersion
  case neg => simp [irtShmAttach, hn, hversion]
  simp only [hversion, ne_eq, not_true_eq_false, if_false]
  change (Reads.run (fun w => mem (.hdr w)) <|
    if mem.header.maxPoints < n then _ else Reads.get .maxSubscribers _) = _
  by_cases hpoints : mem.header.maxPoints < n
  case pos => simp [irtShmAttach, hn, hmagic, hversion, hpoints]
  simp only [hpoints, if_false]
  change (Reads.run (fun w => mem (.hdr w)) <|
    if mem.header.maxSubscribers < m then _ else Reads.get .magic _) = _
  by_cases hsubs : mem.header.maxSubscribers < m
  case pos => simp [irtShmAttach, hn, hmagic, hversion, hsubs]
  simp only [hsubs, if_false]
  change (Reads.run (fun w => mem (.hdr w)) <|
    if mem.header.magic ≠ irtMagic then _ else _) = _
  simp only [hmagic, ne_eq, not_true_eq_false, if_false, crcReads_run]
  change (Reads.run (fun w => mem (.hdr w)) <|
    if irtHeaderCrc32Of mem.header = mem.header.crc32 then _ else _) = _
  by_cases hcrc : irtHeaderCrc32Of mem.header = mem.header.crc32
  · simp [irtShmAttach, irtHeaderVerify, hn, hmagic, hversion, hpoints, hsubs, hcrc]
  · simp [irtShmAttach, irtHeaderVerify, hn, hmagic, hversion, hpoints, hsubs, hcrc]

/-! ## The race -/

/-- Where a process stands that found the name taken. -/
inductive AttachPc where
  /-- has not called `irt_shm_init` -/
  | absent
  /-- has mapped the segment and is about to make the rest of the tests -/
  | testing (rest : Reads HdrWord HdrWord.Val (Except ShmErr IrtShm))
  /-- has passed the tests -/
  | attached (s : IrtShm)
  /-- was refused and has unmapped the segment -/
  | refused (err : ShmErr)
  /-- killed by `SIGBUS` -/
  | killed

/-- The creating process and any number of others.  `stored` is not in the code: it
holds, for every cell, what an attached process stored there last. -/
structure Creation (Pid : Type) where
  mem : Mem
  truncated : Bool
  todo : List Act
  procs : Pid → AttachPc
  stored : (c : Cell) → Option c.Val

/-- The cells a process stores into once it is attached: the tables, the number of
names, and the two words `irt_shm_init` repairs. -/
def Cell.Shared : Cell → Prop
  | .hdr w => w = .indexCount ∨ w = .writeSeq ∨ w = .ownerPid
  | _ => True

/-- What the tables of `N` points consist of. -/
def Cell.InTables (N : Nat) : Cell → Prop
  | .hdr w => w = .indexCount
  | .point i => i < N
  | .slot i => i < irtLayoutBuckets N
  | .metaOf i => i < N

/-- What a process that found the name taken does next. -/
inductive AttachEvent where
  | accept
  | store (c : Cell)

variable {Pid : Type} [DecidableEq Pid]

/-- One action of the creating process or of another one.  A creating process whose
`ftruncate` fails stops there, like one that is killed.  `met` is asked where a process
passes its last test and where an attached process stores. -/
inductive Creation.Step (met : Creation Pid → AttachEvent → Prop) :
    Creation Pid → Creation Pid → Prop where
  | create {s} (a : Act) (rest : List Act) (next : s.todo = a :: rest) :
      Step met s
        { s with
          mem := a.run s.mem
          truncated := s.truncated || a.isTruncate
          todo := rest }
  | map {s} (p : Pid) (n m : Nat) (pos : n ≠ 0) (at' : s.procs p = .absent) :
      Step met s
        { s with procs := Function.update s.procs p (.testing (attachReads n m)) }
  | read {s} (p : Pid) (w : HdrWord) (k : w.Val → Reads HdrWord HdrWord.Val (Except ShmErr IrtShm))
      (at' : s.procs p = .testing (.get w k)) (mapped : s.truncated = true) :
      Step met s
        { s with procs := Function.update s.procs p (.testing (k (s.mem (.hdr w)))) }
  | killed {s} (p : Pid) (w : HdrWord)
      (k : w.Val → Reads HdrWord HdrWord.Val (Except ShmErr IrtShm))
      (at' : s.procs p = .testing (.get w k)) (mapped : s.truncated = false) :
      Step met s { s with procs := Function.update s.procs p .killed }
  | accept {s} (p : Pid) (h : IrtShm) (at' : s.procs p = .testing (.ret (.ok h)))
      (holds : met s .accept) :
      Step met s { s with procs := Function.update s.procs p (.attached h) }
  | refuse {s} (p : Pid) (err : ShmErr) (at' : s.procs p = .testing (.ret (.error err))) :
      Step met s { s with procs := Function.update s.procs p (.refused err) }
  | store {s} (p : Pid) (h : IrtShm) (c : Cell) (v : c.Val) (at' : s.procs p = .attached h)
      (shared : c.Shared) (holds : met s (.store c)) :
      Step met s
        { s with
          mem := Function.update s.mem c v
          stored := Function.update s.stored c (some v) }

/-- `shm_open` has just created the name. -/
def Creator.start (c : Creator) : Creation Pid where
  mem := Cell.zero
  truncated := false
  todo := c.acts
  procs _ := .absent
  stored _ := none

/-! ## What is wanted -/

/-- As soon as a process is attached, the tables hold what attached processes have
stored, and are fresh everywhere else: the index empty, the metadata zero. -/
def Creation.Kept (N : Nat) (s : Creation Pid) : Prop :=
  ∀ p h, s.procs p = .attached h →
    ∀ c : Cell, c.InTables N → s.mem c = (s.stored c).getD c.fresh

/-! ## When the tests keep the processes apart -/

/-- The action sets cell `c`. -/
def Act.Sets (c : Cell) : Act → Prop
  | .ftruncate => False
  | .store c' _ => c' = c
  | .storeCrc => c = .hdr .crc32

/-- No process passes its last test while an index slot has still to be emptied, and
none stores into a cell the creating process has still to set. -/
def CreationMet (s : Creation Pid) : AttachEvent → Prop
  | .accept => ∀ a, a ∈ s.todo → ∀ i, ¬ a.Sets (.slot i)
  | .store c => ∀ a, a ∈ s.todo → ¬ a.Sets c

/-- An action still to come sets the cell. -/
def Clearing (s : Creation Pid) (x : Cell) : Prop := ∃ a, a ∈ s.todo ∧ a.Sets x

section Runs

variable {N : Nat} {past : List (Creation Pid)} {s s' : Creation Pid}

/-- What every action keeps.  An index slot is the only cell whose first value differs
from the zero it starts with. -/
structure CreationInv (N : Nat) (s : Creation Pid) : Prop where
  todo : ∀ x : Cell, x.InTables N → ∀ v, .store x v ∈ s.todo → v = x.fresh
  pending : ∀ x, Clearing s x → s.stored x = none
  cells : ∀ x : Cell, x.InTables N → (∀ i, x = .slot i → ¬ Clearing s x) →
    s.mem x = (s.stored x).getD x.fresh
  accepted : ∀ p h, s.procs p = .attached h → ∀ i, ¬ Clearing s (.slot i)

omit [DecidableEq Pid] in
theorem CreationInv.kept (h : CreationInv N s) : s.Kept N := by
  intro p view hp x hx
  refine h.cells x hx ?_
  rintro i rfl
  exact h.accepted p view hp i

/-- A process that moves without becoming attached leaves the invariant alone. -/
theorem CreationInv.proc (h : CreationInv N s) (p : Pid) (pc : AttachPc)
    (hpc : ∀ view, pc = .attached view → ∀ i, ¬ Clearing s (.slot i)) :
    CreationInv N { s with procs := Function.update s.procs p pc } where
  todo := h.todo
  pending := h.pending
  cells := h.cells
  accepted := by
    intro q view hq
    by_cases hself : q = p
    · subst hself
      exact hpc view (by simpa using hq)
    · exact h.accepted q view (by simpa [Function.update_of_ne hself] using hq)

theorem Act.run_of_not_sets {a : Act} {x : Cell} (h : ¬ a.Sets x) (mem : Mem) :
    a.run mem x = mem x := by
  cases a with
  | ftruncate => rfl
  | store y v => exact Function.update_of_ne (fun heq => h heq.symm) _ _
  | storeCrc => exact Function.update_of_ne h _ _

omit [DecidableEq Pid] in
theorem CreationInv.create {a : Act} {rest : List Act} {truncated : Bool}
    (h : CreationInv N s) (hnext : s.todo = a :: rest) :
    CreationInv N { s with mem := a.run s.mem, truncated := truncated, todo := rest } where
  todo := fun x hx v hv => h.todo x hx v (hnext ▸ List.mem_cons_of_mem _ hv)
  pending := fun x ⟨b, hb, hsets⟩ => h.pending x ⟨b, hnext ▸ List.mem_cons_of_mem _ hb, hsets⟩
  cells := by
    intro x hx hslot
    by_cases hsets : a.Sets x
    · -- the action gives the cell its first value
      have hnone : s.stored x = none :=
        h.pending x ⟨a, hnext ▸ List.mem_cons_self, hsets⟩
      change a.run s.mem x = (s.stored x).getD x.fresh
      rw [hnone]
      cases a with
      | ftruncate => exact hsets.elim
      | store y v =>
          obtain rfl : y = x := hsets
          rw [← h.todo y hx v (hnext ▸ List.mem_cons_self)]
          exact Function.update_self ..
      | storeCrc =>
          obtain rfl : x = .hdr .crc32 := hsets
          cases hx
    · change a.run s.mem x = _
      rw [Act.run_of_not_sets hsets]
      refine h.cells x hx fun i hi hclear => ?_
      obtain ⟨b, hb, hsets'⟩ := hclear
      rcases List.mem_cons.mp (hnext ▸ hb) with rfl | hb
      · exact hsets hsets'
      · exact hslot i hi ⟨b, hb, hsets'⟩
  accepted := fun p view hp i ⟨b, hb, hsets⟩ =>
    h.accepted p view hp i ⟨b, hnext ▸ List.mem_cons_of_mem _ hb, hsets⟩

omit [DecidableEq Pid] in
theorem CreationInv.store {x : Cell} {v : x.Val} (h : CreationInv N s)
    (hfree : ¬ Clearing s x) :
    CreationInv N
      { s with
        mem := Function.update s.mem x v
        stored := Function.update s.stored x (some v) } where
  todo := h.todo
  pending := by
    intro y hy
    have hne : y ≠ x := by
      rintro rfl
      exact hfree hy
    exact (Function.update_of_ne hne _ _).trans (h.pending y hy)
  cells := by
    intro y hy hslot
    by_cases hself : y = x
    · subst hself
      simp
    · simp only [Function.update_of_ne hself]
      exact h.cells y hy hslot
  accepted := h.accepted

theorem CreationInv.step (h : CreationInv N s) (hstep : Creation.Step CreationMet s s') :
    CreationInv N s' := by
  cases hstep with
  | create a rest hnext => exact h.create hnext
  | map p n m hpos hat => exact h.proc p _ (by rintro view ⟨⟩)
  | read p w k hat hmapped => exact h.proc p _ (by rintro view ⟨⟩)
  | killed p w k hat hmapped => exact h.proc p _ (by rintro view ⟨⟩)
  | accept p view hat hmet =>
      exact h.proc p _ fun _ _ i ⟨a, ha, hsets⟩ => hmet a ha i hsets
  | refuse p err hat => exact h.proc p _ (by rintro view ⟨⟩)
  | store p view x v hat hshared hmet =>
      exact h.store fun ⟨a, ha, hsets⟩ => hmet a ha hsets

omit [DecidableEq Pid] in
theorem Creator.start_inv (c : Creator) :
    CreationInv c.maxPoints (c.start : Creation Pid) where
  todo := by
    intro x hx v hv
    have hacts : Act.store x v ∈ Act.ftruncate :: (c.headerActs ++ c.clearActs) := hv
    simp only [Creator.headerActs, Creator.clearActs, HdrWord.all] at hacts
    cases x with
    | hdr w =>
        obtain rfl : w = .indexCount := hx
        have hzero : v = HdrWord.zero .indexCount ∨ v = (0 : Nat) := by simpa using hacts
        exact hzero.elim id id
    | point i => simp at hacts
    | slot i =>
        simp only [List.map_cons, List.mem_cons, List.mem_append, List.mem_map] at hacts
        simp at hacts
        exact hacts.2.symm
    | metaOf i =>
        simp at hacts
        exact hacts.2.symm
  pending := fun _ _ => rfl
  cells := by
    intro x hx hslot
    cases x with
    | hdr w =>
        obtain rfl : w = .indexCount := hx
        rfl
    | point i => rfl
    | slot i =>
        have hi : i ∈ c.slotOrder := c.slots_perm.mem_iff.mpr (List.mem_range.mpr hx)
        refine absurd ⟨.store (.slot i) IrtIndexSlot.empty, ?_, rfl⟩ (hslot i rfl)
        exact List.mem_cons_of_mem _ (List.mem_append_right _ (List.mem_append_left _
          (List.mem_map.mpr ⟨i, hi, rfl⟩)))
    | metaOf i => rfl
  accepted := by rintro p view ⟨⟩

/-- In every run in which no process passes its tests before the index is empty, and
none stores ahead of the creating process, an attached process sees what attached
processes have stored and nothing else, to the end. -/
theorem kept_of_creationMet {c : Creator}
    (hrun : Run (Creation.Step CreationMet) (c.start : Creation Pid) past s) :
    s.Kept c.maxPoints := by
  refine CreationInv.kept ?_
  exact hrun.invariant_state c.start_inv fun _ _ h hmove => h.step hmove

end Runs

/-! ## Runs with the processes one after the other -/

/-- The actions one after the other. -/
def runActs (acts : List Act) (mem : Mem) : Mem := acts.foldl (fun mem a => a.run mem) mem

section Sequential

variable {met : Creation Pid → AttachEvent → Prop} {init s : Creation Pid}
  {past : List (Creation Pid)}

/-- The creating process may take its next actions with nobody in between. -/
theorem Creation.run_acts (acts rest : List Act)
    (hrun : Run (Creation.Step met) init past s) (htodo : s.todo = acts ++ rest) :
    ∃ past', Run (Creation.Step met) init past'
      { s with
        mem := runActs acts s.mem
        truncated := s.truncated || acts.any Act.isTruncate
        todo := rest } := by
  induction acts generalizing past s with
  | nil =>
      refine ⟨past, ?_⟩
      rw [← show s.todo = rest from htodo]
      simpa [runActs] using hrun
  | cons a acts ih =>
      obtain ⟨past', hrun'⟩ := ih (hrun.next (.create a (acts ++ rest) htodo)) rfl
      refine ⟨past', ?_⟩
      simpa [runActs, Bool.or_assoc] using hrun'

/-- A process may make its tests with nobody in between. -/
theorem Creation.run_reads (p : Pid) (r : Reads HdrWord HdrWord.Val (Except ShmErr IrtShm))
    (hrun : Run (Creation.Step met) init past s) (hat : s.procs p = .testing r)
    (hmapped : s.truncated = true) :
    ∃ past', Run (Creation.Step met) init past'
      { s with
        procs := Function.update s.procs p (.testing (.ret (r.run fun w => s.mem (.hdr w)))) } := by
  induction r generalizing past s with
  | ret result =>
      refine ⟨past, ?_⟩
      rw [Reads.run_ret, ← hat, Function.update_eq_self]
      exact hrun
  | get w k ih =>
      obtain ⟨past', hrun'⟩ :=
        ih (s.mem (.hdr w)) (hrun.next (.read p w k hat hmapped)) (Function.update_self ..) hmapped
      refine ⟨past', ?_⟩
      simpa using hrun'

/-- A process that finds a sealed header is attached, when nothing forbids it. -/
theorem Creation.run_attach (p : Pid) {n m : Nat} {view : IrtShm}
    (hrun : Run (Creation.Step met) init past s) (hat : s.procs p = .absent)
    (hmapped : s.truncated = true) (hpos : n ≠ 0)
    (hok : irtShmAttach s.mem.header n m = .ok view)
    (hmet : met { s with procs := Function.update s.procs p (.testing (.ret (.ok view))) } .accept) :
    ∃ past' s', Run (Creation.Step met) init past' s' ∧ s'.procs p = .attached view ∧
      s'.todo = s.todo := by
  have hmap := hrun.next (.map p n m hpos hat)
  obtain ⟨past', hrun'⟩ :=
    Creation.run_reads p (attachReads n m) hmap (Function.update_self ..) hmapped
  rw [attachReads_run hpos, hok] at hrun'
  simp only [Function.update_idem] at hrun'
  have hlast := hrun'.next (.accept p view (Function.update_self ..) hmet)
  exact ⟨_, _, hlast, Function.update_self .., rfl⟩

end Sequential

/-- The header stores leave the header of `irtShmInitHeader`. -/
theorem Creator.headerActs_header (c : Creator) (mem : Mem) :
    (runActs c.headerActs mem).header =
      irtShmInitHeader c.maxPoints c.maxSubscribers c.pid := by
  rfl

theorem runActs_cons (a : Act) (acts : List Act) (mem : Mem) :
    runActs (a :: acts) mem = runActs acts (a.run mem) := rfl

theorem runActs_append (acts acts' : List Act) (mem : Mem) :
    runActs (acts ++ acts') mem = runActs acts' (runActs acts mem) :=
  List.foldl_append

theorem runActs_of_not_sets {acts : List Act} {x : Cell} (h : ∀ a, a ∈ acts → ¬ a.Sets x)
    (mem : Mem) : runActs acts mem x = mem x := by
  induction acts generalizing mem with
  | nil => rfl
  | cons a acts ih =>
      have hhead : a.run mem x = mem x := Act.run_of_not_sets (h a List.mem_cons_self) mem
      exact (ih (fun b hb => h b (List.mem_cons_of_mem _ hb)) _).trans hhead

/-- What is stored into a cell, if every store into it stores the same. -/
theorem runActs_of_sets {acts : List Act} {x : Cell} {v : x.Val} (hset : .store x v ∈ acts)
    (hsame : ∀ v', .store x v' ∈ acts → v' = v) (hcrc : x ≠ .hdr .crc32) (mem : Mem) :
    runActs acts mem x = v := by
  suffices h : ∀ mem : Mem, (mem x = v ∨ .store x v ∈ acts) → runActs acts mem x = v from
    h mem (Or.inr hset)
  clear hset
  induction acts with
  | nil => exact fun mem h => h.elim id fun h => absurd h List.not_mem_nil
  | cons a acts ih =>
      intro mem h
      refine ih (fun v' hv' => hsame v' (List.mem_cons_of_mem _ hv')) (a.run mem) ?_
      by_cases hsets : a.Sets x
      · refine Or.inl ?_
        cases a with
        | ftruncate => exact hsets.elim
        | store y v' =>
            obtain rfl : y = x := hsets
            rw [← hsame v' List.mem_cons_self]
            exact Function.update_self ..
        | storeCrc => exact absurd hsets hcrc
      · rcases h with h | h
        · exact Or.inl ((Act.run_of_not_sets hsets mem).trans h)
        · rcases List.mem_cons.mp h with rfl | h
          · exact absurd rfl hsets
          · exact Or.inr h

/-- Emptying the index and zeroing the metadata leaves the other header words alone. -/
theorem Creator.clearActs_not_sets (c : Creator) {w : HdrWord} (hw : w ≠ .indexCount) :
    ∀ a, a ∈ c.clearActs → ¬ a.Sets (.hdr w) := by
  intro a ha hsets
  simp only [Creator.clearActs, List.mem_append, List.mem_map, List.mem_cons] at ha
  rcases ha with ⟨i, -, rfl⟩ | rfl | ⟨i, -, rfl⟩
  · cases hsets
  · cases hsets
    exact hw rfl
  · cases hsets

/-- Zeroing the metadata zeroes every record of it. -/
theorem Creator.clearActs_metaOf (c : Creator) {i : Nat} (hi : i < c.maxPoints) (mem : Mem) :
    runActs c.clearActs mem (.metaOf i) = IndurtdbMeta.zero := by
  have hmem : i ∈ c.metaOrder := c.metas_perm.mem_iff.mpr (List.mem_range.mpr hi)
  refine runActs_of_sets ?_ ?_ Cell.noConfusion mem
  · simp [Creator.clearActs, hmem]
  · intro v hv
    simp only [Creator.clearActs, List.mem_append, List.mem_map, List.mem_cons] at hv
    simp at hv
    exact hv.2.symm

theorem Mem.header_congr {mem mem' : Mem} (h : ∀ w, mem (.hdr w) = mem' (.hdr w)) :
    mem.header = mem'.header := by
  unfold Mem.header
  simp only [h]

/-- With nobody else around, the tables end up fresh. -/
theorem Creator.acts_tables (c : Creator) {x : Cell} (hx : x.InTables c.maxPoints) :
    runActs c.acts Cell.zero x = x.fresh := by
  have hstart : Run (Creation.Step CreationMet) (c.start : Creation Unit) _ _ := .start
  obtain ⟨past, hrun⟩ := Creation.run_acts c.acts [] hstart (List.append_nil _).symm
  have hinv := hrun.invariant_state c.start_inv fun _ _ h hmove => h.step hmove
  have hcell := hinv.cells x hx fun i _ ⟨a, ha, _⟩ => absurd ha List.not_mem_nil
  dsimp only [Creator.start, Option.getD_none] at hcell
  exact hcell

/-- With nobody else around, the header ends up as `irtShmInitHeader`. -/
theorem Creator.acts_header (c : Creator) :
    (runActs c.acts Cell.zero).header = irtShmInitHeader c.maxPoints c.maxSubscribers c.pid := by
  have hsplit : runActs c.acts Cell.zero =
      runActs c.clearActs (runActs c.headerActs Cell.zero) := by
    rw [Creator.acts, runActs_cons, runActs_append]
    rfl
  rw [← c.headerActs_header Cell.zero]
  refine Mem.header_congr fun w => ?_
  by_cases hw : w = .indexCount
  · subst hw
    exact c.acts_tables (x := .hdr .indexCount) rfl
  · rw [hsplit]
    exact runActs_of_not_sets (c.clearActs_not_sets hw) _

/-- The creating process, alone, leaves the segment of `irtShmInitOwner`. -/
theorem Creator.acts_segment (c : Creator) :
    let made := (runActs c.acts Cell.zero).segment
    let owner := irtShmInitOwner c.maxPoints c.maxSubscribers c.pid
    made.hdr = owner.hdr ∧
      (∀ i, i < c.maxPoints → made.points i = owner.points i) ∧
      (∀ i, i < irtLayoutBuckets c.maxPoints → made.slots i = owner.slots i) ∧
      ∀ i, i < c.maxPoints → made.metas i = owner.metas i := by
  have hfits := c.fits.indexOffsetFits
  dsimp only
  refine ⟨c.acts_header, fun i hi => ?_, fun i hi => ?_, fun i hi => ?_⟩
  · rw [irtShmInitOwner_points hfits hi, Mem.segment_points, c.acts_tables (x := .point i) hi]
    rfl
  · rw [Mem.segment_slots, c.acts_tables (x := .slot i) hi]
    have hbytes : ∀ b, b < 8 →
        irtShmInitBytes c.maxPoints (irtLayoutOffIndex c.maxPoints + 8 * i + b) =
          filled 0xFF (0 + b) := by
      intro b hb
      rw [hfits.offIndex]
      exact irtShmInitBytes_index hfits (by omega) (by omega)
    exact (decodeSlot_congr hbytes).symm
  · rw [Mem.segment_metas, c.acts_tables (x := .metaOf i) hi]
    have hbytes : ∀ b, b < 32 →
        irtShmInitBytes c.maxPoints (irtLayoutOffMeta c.maxPoints + 32 * i + b) =
          filled 0 (0 + b) := by
      intro b hb
      refine if_pos ?_
      simp only [irtLayoutMetaSize, sizeofMeta, c.fits.offMeta]
      omega
    exact (decodeMeta_congr hbytes).symm

/-! ## Two runs of a small segment -/

/-- A segment of one point. -/
def smallCreator : Creator where
  maxPoints := 1
  maxSubscribers := 1
  pid := 1
  slotOrder := List.range 8
  metaOrder := List.range 1
  pos := by decide
  fits := by decide
  slots_perm := List.Perm.refl _
  metas_perm := List.Perm.refl _

/-- A process attaches when the index has been emptied and the metadata has not been zeroed
yet, and enters a name; the segment is completed behind it. -/
theorem kept_of_creationMet_early :
    ∃ (past : List (Creation Unit)) (s : _) (view : IrtShm),
      Run (Creation.Step CreationMet) smallCreator.start past s ∧ s.todo = [] ∧
        s.procs () = .attached view ∧ s.mem (.slot 3) = ⟨9, 0⟩ ∧ s.Kept 1 := by
  let emptying : List Act := smallCreator.slotOrder.map fun i => .store (.slot i) .empty
  let zeroing : List Act := smallCreator.metaOrder.map fun i => .store (.metaOf i) .zero
  let first : List Act := .ftruncate :: (smallCreator.headerActs ++
    (emptying ++ [.store (.hdr .indexCount) (0 : Nat)]))
  have hlater : ∀ a, a ∈ zeroing → ∀ i, ¬ a.Sets (.slot i) := by
    intro a ha i hsets
    obtain ⟨j, -, rfl⟩ := List.mem_map.mp ha
    cases hsets
  have hstart : Run (Creation.Step CreationMet) (smallCreator.start : Creation Unit) _ _ := .start
  obtain ⟨_, hempty⟩ := Creation.run_acts first zeroing hstart rfl
  have hok : irtShmAttach (runActs first Cell.zero).header 1 1 = .ok (irtShmRequest 1 1) := by
    decide +kernel
  obtain ⟨_, s, hattached, hat, htodo⟩ :=
    Creation.run_attach () hempty rfl rfl (by decide) hok hlater
  have hstored := hattached.next (.store () _ (.slot 3) ⟨9, 0⟩ hat trivial
    fun a ha => hlater a (cast (congrArg (a ∈ ·) htodo) ha) 3)
  obtain ⟨_, hmade⟩ := Creation.run_acts zeroing [] hstored (htodo.trans (List.append_nil _).symm)
  have hkept := kept_of_creationMet hmade
  refine ⟨_, _, _, hmade, rfl, hat, ?_, hkept⟩
  rw [hkept () _ hat (.slot 3) (by decide : 3 < irtLayoutBuckets 1)]
  exact congrArg (Option.getD · IrtIndexSlot.empty)
    (Function.update_self (f := s.stored) (Cell.slot 3) (some ⟨9, 0⟩))

/-- A process that attaches between the seal and the clearing may set metadata, and the
creating process wipes it. -/
theorem Creator.wipes (c : Creator) (view : IrtShm) (record : IndurtdbMeta)
    (hok : irtShmAttach (irtShmInitHeader c.maxPoints c.maxSubscribers c.pid) view.maxPoints
      view.maxSubscribers = .ok view) (hpos : view.maxPoints ≠ 0) :
    ∃ (past : List (Creation Unit)) (s : _),
      Run (Creation.Step fun _ _ => True) c.start past s ∧ s.procs () = .attached view ∧
        s.stored (.metaOf 0) = some record ∧ s.mem (.metaOf 0) = IndurtdbMeta.zero := by
  have hstart : Run (Creation.Step fun _ _ => True) (c.start : Creation Unit) _ _ := .start
  obtain ⟨_, hsealed⟩ := Creation.run_acts (.ftruncate :: c.headerActs) c.clearActs hstart rfl
  obtain ⟨_, s, hattached, hat, htodo⟩ := Creation.run_attach () hsealed rfl rfl hpos
    ((c.headerActs_header _).symm ▸ hok) trivial
  have hstored := hattached.next (.store () view (.metaOf 0) record hat trivial trivial)
  obtain ⟨_, hwiped⟩ := Creation.run_acts c.clearActs [] hstored
    (htodo.trans (List.append_nil _).symm)
  exact ⟨_, _, hwiped, hat, Function.update_self (f := s.stored) (Cell.metaOf 0) (some record),
    c.clearActs_metaOf c.pos _⟩

/-- What an attached process has set does not always stay. -/
theorem not_kept :
    ¬ ∀ (c : Creator) (past : List (Creation Unit)) (s : Creation Unit),
      Run (Creation.Step fun _ _ => True) c.start past s → s.Kept c.maxPoints := by
  intro hall
  obtain ⟨past, s, hrun, hat, hstored, hmem⟩ :=
    smallCreator.wipes (irtShmRequest 1 1) ⟨0, 0, 1, 0, 0⟩
      (irtShmAttach_created_iff.mpr ⟨by decide, rfl⟩) (by decide)
  have hkept := hall smallCreator past s hrun () _ hat (.metaOf 0) smallCreator.pos
  rw [hstored, hmem] at hkept
  exact absurd hkept (by decide)

end InduRtdb.Core
