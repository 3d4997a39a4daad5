/-
  Core/Recovery.lean --- processes that attach to a segment, write to it and crash.

  Source: the attaching branch of `irt_shm_init` in `src/core/irt_shm.c`, and
  `src/internal/irt_seqlock.h`.

  The attacher looks at the recorded owner and may take the segment over; then it
  looks at the lock word, and if it is odd it stores the next even value.  The second
  part does not depend on the first.  A process that crashes is simply gone, wherever
  it stood; what a process does between the lock calls does not touch the two words
  and is left out.
-/
import InduRtdb.Core.Shm
import InduRtdb.Core.SeqlockSteps

set_option autoImplicit false

namespace InduRtdb.Core

open InduRtdb.Lib

/-! ## Processes -/

/-- Where a process stands. -/
inductive Proc where
  /-- not started, or gone -/
  | absent
  /-- the header was accepted; before the load of `owner_pid` -/
  | loadOwner
  /-- before `kill(stored, 0)` -/
  | checkOwner (stored : Nat)
  /-- before the store of its own pid in `owner_pid` -/
  | claim
  /-- before the load of `write_seq` -/
  | loadSeq
  /-- `write_seq` was odd; before the store of `seq + 1` -/
  | repair (seq : Nat)
  /-- attached, not writing -/
  | idle
  | begin (b : Begin)
  | inside (seq0 : Nat)

/-- The two words of the header that change, and the processes by pid. -/
structure Recovery where
  writeSeq : Nat
  ownerPid : Nat
  procs : Nat → Proc

namespace Recovery

/-- Process `p` moves to `l`. -/
def move (s : Recovery) (p : Nat) (l : Proc) : Recovery :=
  { s with procs := Function.update s.procs p l }

@[simp] theorem move_writeSeq (s : Recovery) (p : Nat) (l : Proc) :
    (s.move p l).writeSeq = s.writeSeq := rfl
@[simp] theorem move_procs (s : Recovery) (p : Nat) (l : Proc) :
    (s.move p l).procs = Function.update s.procs p l := rfl

/-- One step of one process.  `hdr` is the sealed header, whose layout fields do not
change.  A process stores the lock word on its way out of a section or of the repair
only where `met` holds. -/
inductive Step (hdr : IrtHeader) (met : Recovery → Proc → Prop) : Recovery → Recovery → Prop where
  | attach {s} (p n m : Nat) {v : IrtShm} (at' : s.procs p = .absent)
      (accepted : irtShmAttach hdr n m = .ok v) : Step hdr met s (s.move p .loadOwner)
  | loadOwner {s} (p : Nat) (at' : s.procs p = .loadOwner) :
      Step hdr met s (s.move p
        (if 0 < s.ownerPid ∧ s.ownerPid ≠ p then .checkOwner s.ownerPid else .loadSeq))
  /-- `kill` succeeds: the process exists -/
  | ownerAlive {s} (p : Nat) {stored : Nat} (at' : s.procs p = .checkOwner stored)
      (alive : s.procs stored ≠ .absent) : Step hdr met s (s.move p .loadSeq)
  /-- `kill` fails: the process is gone, or belongs to somebody else -/
  | ownerGone {s} (p : Nat) {stored : Nat} (at' : s.procs p = .checkOwner stored) :
      Step hdr met s (s.move p .claim)
  | claim {s} (p : Nat) (at' : s.procs p = .claim) :
      Step hdr met s { s.move p .loadSeq with ownerPid := p }
  | loadSeq {s} (p : Nat) (at' : s.procs p = .loadSeq) :
      Step hdr met s (s.move p (if s.writeSeq % 2 = 1 then .repair s.writeSeq else .idle))
  | repair {s} (p : Nat) {seq : Nat} (at' : s.procs p = .repair seq)
      (holds : met s (.repair seq)) :
      Step hdr met s { s.move p .idle with writeSeq := u64 (seq + 1) }
  | call {s} (p : Nat) (at' : s.procs p = .idle) : Step hdr met s (s.move p (.begin .load))
  | spin {s} (p : Nat) {b b' : Begin} (at' : s.procs p = .begin b)
      (turn : b.step s.writeSeq = (s.writeSeq, .go b')) : Step hdr met s (s.move p (.begin b'))
  | busy {s} (p : Nat) {b : Begin} {e : Nat} (at' : s.procs p = .begin b)
      (turn : b.step s.writeSeq = (s.writeSeq, .ret e)) (odd : e % 2 = 1) :
      Step hdr met s (s.move p .idle)
  | enter {s} (p : Nat) {b : Begin} {e w : Nat} (at' : s.procs p = .begin b)
      (turn : b.step s.writeSeq = (w, .ret e)) (even : e % 2 = 0) :
      Step hdr met s { s.move p (.inside e) with writeSeq := w }
  | leave {s} (p : Nat) {e : Nat} (at' : s.procs p = .inside e) (holds : met s (.inside e)) :
      Step hdr met s { s.move p .idle with writeSeq := irtSeqlockWriteEnd e }
  | crash {s} (p : Nat) : Step hdr met s (s.move p .absent)

/-- The process is inside its section. -/
def Inside (s : Recovery) (p : Nat) : Prop := ∃ e, s.procs p = .inside e

/-- A segment as its processes left it: some of them are attached and idle, the
others are gone, and the word is whatever it is. -/
structure Start (s : Recovery) : Prop where
  word : s.writeSeq < 2 ^ 64
  procs : ∀ p, s.procs p = .absent ∨ s.procs p = .idle

/-! ## What is wanted -/

/-- At most one live process is inside, and the word has not decreased. -/
structure Sound (past : List Recovery) (s : Recovery) : Prop where
  exclusive : ∀ p q, s.Inside p → s.Inside q → p = q
  monotone : ∀ t, t ∈ past → t.writeSeq ≤ s.writeSeq

/-! ## When the repair is right -/

/-- The repair finds no live process inside and the word not past its target, and no
store wraps the word. -/
def RepairMet (s : Recovery) : Proc → Prop
  | .repair seq => (∀ q, ¬ s.Inside q) ∧ s.writeSeq ≤ seq + 1 ∧ seq + 1 < 2 ^ 64
  | .inside e => e + 2 < 2 ^ 64
  | _ => True

section Runs

variable {hdr : IrtHeader} {met : Recovery → Proc → Prop} {init s s' : Recovery}
  {past : List Recovery}

/-- Whoever is inside holds the word at its own odd value; nobody else is. -/
structure LockInv (s : Recovery) : Prop where
  word : s.writeSeq < 2 ^ 64
  holder : ∀ p e, s.procs p = .inside e → s.writeSeq = e + 1 ∧ e % 2 = 0
  unique : ∀ p q, s.Inside p → s.Inside q → p = q

theorem inside_move {p q : Nat} {l : Proc} {e : Nat} (hl : ∀ e, l ≠ .inside e)
    (hat : (s.move p l).procs q = .inside e) : s.procs q = .inside e := by
  by_cases hself : q = p
  · subst hself
    rw [move_procs, Function.update_self] at hat
    exact absurd hat (hl e)
  · rwa [move_procs, Function.update_of_ne hself] at hat

/-- A process outside moves, or one inside crashes. -/
theorem LockInv.move (h : LockInv s) {p owner : Nat} {l : Proc} (hl : ∀ e, l ≠ .inside e) :
    LockInv { s.move p l with ownerPid := owner } where
  word := h.word
  holder q e hat := h.holder q e (inside_move hl hat)
  unique := by
    rintro q q' ⟨e, hat⟩ ⟨e', hat'⟩
    exact h.unique q q' ⟨e, inside_move hl hat⟩ ⟨e', inside_move hl hat'⟩

/-- The word is stored while nobody is inside, or by the only one who was. -/
theorem lockInv_store {p w : Nat} (hothers : ∀ q, q ≠ p → ¬ s.Inside q)
    (hw : w < 2 ^ 64) : LockInv { s.move p .idle with writeSeq := w } := by
  have hnobody : ∀ q e, (s.move p .idle).procs q ≠ .inside e := by
    intro q e hat
    by_cases hself : q = p
    · subst hself
      simp at hat
    · exact hothers q hself ⟨e, inside_move (by simp) hat⟩
  refine ⟨hw, fun q e hat => absurd hat (hnobody q e), ?_⟩
  rintro q q' ⟨e, hat⟩
  exact absurd hat (hnobody q e)

theorem LockInv.not_inside_of_even (h : LockInv s) (heven : s.writeSeq % 2 = 0) (p : Nat) :
    ¬ s.Inside p := by
  rintro ⟨e, hat⟩
  obtain ⟨hword, he⟩ := h.holder p e hat
  omega

theorem LockInv.enter (h : LockInv s) {p : Nat} (heven : s.writeSeq % 2 = 0) :
    LockInv { s.move p (.inside s.writeSeq) with writeSeq := u64 (s.writeSeq + 1) } := by
  have hword := h.word
  have hnext : u64 (s.writeSeq + 1) = s.writeSeq + 1 := by
    rw [u64]
    omega
  have hself : ∀ q e, (s.move p (.inside s.writeSeq)).procs q = .inside e →
      q = p ∧ e = s.writeSeq := by
    intro q e hat
    by_cases hq : q = p
    · subst hq
      rw [move_procs, Function.update_self, Proc.inside.injEq] at hat
      exact ⟨rfl, hat.symm⟩
    · rw [move_procs, Function.update_of_ne hq] at hat
      exact absurd ⟨e, hat⟩ (h.not_inside_of_even heven q)
  refine ⟨Nat.mod_lt _ (by decide), ?_, ?_⟩
  · intro q e hat
    obtain ⟨-, rfl⟩ := hself q e hat
    exact ⟨hnext, heven⟩
  · rintro q q' ⟨e, hat⟩ ⟨e', hat'⟩
    exact (hself q e hat).1.trans (hself q' e' hat').1.symm

/-- Where the repair is right, a step keeps the lock and does not turn the word
back. -/
theorem Step.lockInv (hstep : Step hdr RepairMet s s') (h : LockInv s) :
    LockInv s' ∧ s.writeSeq ≤ s'.writeSeq := by
  cases hstep with
  | attach p | ownerAlive p | ownerGone p | call p | spin p | busy p | crash p =>
      exact ⟨h.move (by simp), Nat.le_refl _⟩
  | claim p => exact ⟨h.move (by simp), Nat.le_refl _⟩
  | loadOwner p => exact ⟨h.move (by split <;> simp), Nat.le_refl _⟩
  | loadSeq p => exact ⟨h.move (by split <;> simp), Nat.le_refl _⟩
  | repair p hat hmet =>
      obtain ⟨hnobody, hle, hlt⟩ := hmet
      refine ⟨lockInv_store (fun q _ => hnobody q) (Nat.mod_lt _ (by decide)), ?_⟩
      simpa only [u64, Nat.mod_eq_of_lt hlt] using hle
  | @enter p b e w hat hturn heven =>
      obtain ⟨hseq, rfl, rfl⟩ := Begin.step_ret_even hturn heven
      refine ⟨h.enter hseq, ?_⟩
      have hword := h.word
      simp only [u64]
      omega
  | @leave p e hat hmet =>
      have hothers : ∀ q, q ≠ p → ¬ s.Inside q := fun q hne hin => hne (h.unique q p hin ⟨e, hat⟩)
      refine ⟨lockInv_store hothers (Nat.mod_lt _ (by decide)), ?_⟩
      have hword := (h.holder p e hat).1
      have hlt : e + 2 < 2 ^ 64 := hmet
      simp only [irtSeqlockWriteEnd, u64, Nat.mod_eq_of_lt hlt]
      omega

/-- In every run whose repairs are right, however many processes attach, write and
crash, the lock excludes and the word only grows. -/
theorem sound_of_repairMet (hinit : Start init) (hrun : Run (Step hdr RepairMet) init past s) :
    Sound past s := by
  have hstart : LockInv init := by
    have hnobody : ∀ p e, init.procs p ≠ .inside e := by
      intro p e hat
      rcases hinit.procs p with h | h <;> simp [h] at hat
    refine ⟨hinit.word, fun p e hat => absurd hat (hnobody p e), ?_⟩
    rintro p q ⟨e, hat⟩
    exact absurd hat (hnobody p e)
  suffices hboth : LockInv s ∧ ∀ t, t ∈ past → t.writeSeq ≤ s.writeSeq from
    ⟨hboth.1.unique, hboth.2⟩
  refine hrun.invariant (P := fun past s => LockInv s ∧ ∀ t, t ∈ past → t.writeSeq ≤ s.writeSeq)
    ⟨hstart, fun t ht => ?_⟩ fun past s s' ih hstep => ?_
  · rw [List.mem_singleton.mp ht]
  · obtain ⟨hinv, hle⟩ := hstep.lockInv ih.1
    refine ⟨hinv, fun t ht => ?_⟩
    rcases List.mem_cons.mp ht with rfl | ht
    · exact Nat.le_refl _
    · exact Nat.le_trans (ih.2 t ht) hle

end Runs

/-! ## An attach while somebody writes -/

/-- A fresh segment whose creator is process `1`. -/
def createdBy1 : Recovery where
  writeSeq := 0
  ownerPid := 1
  procs p := if p = 1 then .idle else .absent

theorem createdBy1_start : Start createdBy1 where
  word := by decide
  procs p := by
    by_cases hp : p = 1
    · exact Or.inr (if_pos hp)
    · exact Or.inl (if_neg hp)

/-- The header of the fresh segment. -/
abbrev createdHdr : IrtHeader := irtShmInitHeader 4 1 1

theorem createdHdr_accepts : irtShmAttach createdHdr 4 1 = .ok (irtShmRequest 4 1) :=
  irtShmAttach_created_iff.mpr ⟨by decide, rfl⟩

/-- The creator crashes inside its section; another process attaches, repairs the
word and writes. -/
theorem sound_of_repairMet_crash :
    ∃ past s, Run (Step createdHdr RepairMet) createdBy1 past s ∧ s.writeSeq = 3 ∧
      s.Inside 2 ∧ Sound past s := by
  have hstart : Run (Step createdHdr RepairMet) createdBy1 _ _ := .start
  have hinside := ((hstart.next (.call 1 rfl)).next (.spin 1 rfl rfl)).next (.enter 1 rfl rfl rfl)
  have hgone := hinside.next (.crash 1)
  have hattached := ((hgone.next (.attach 2 4 1 rfl createdHdr_accepts)).next
    (.loadOwner 2 rfl)).next (.ownerGone 2 rfl)
  have hodd := (hattached.next (.claim 2 rfl)).next (.loadSeq 2 rfl)
  have hrepaired := hodd.next (.repair 2 rfl ⟨?_, by decide, by decide⟩)
  · have hlast := ((hrepaired.next (.call 2 rfl)).next (.spin 2 rfl rfl)).next
      (.enter 2 rfl rfl rfl)
    exact ⟨_, _, hlast, rfl, ⟨2, rfl⟩, sound_of_repairMet createdBy1_start hlast⟩
  · rintro q ⟨e, hat⟩
    by_cases h2 : q = 2
    · subst h2
      cases hat
    · by_cases h1 : q = 1
      · subst h1
        cases hat
      · simp [createdBy1, h1, h2] at hat

/-- A process that attaches while the creator is inside makes the word even, and then
enters as well. -/
theorem not_sound :
    ¬ ∀ (hdr : IrtHeader) (init : Recovery) (past : List Recovery) (s : Recovery),
      Start init → Run (Step hdr fun _ _ => True) init past s → Sound past s := by
  intro hall
  have hstart : Run (Step createdHdr fun _ _ => True) createdBy1 _ _ := .start
  have hinside := ((hstart.next (.call 1 rfl)).next (.spin 1 rfl rfl)).next (.enter 1 rfl rfl rfl)
  have hattached := ((hinside.next (.attach 2 4 1 rfl createdHdr_accepts)).next
    (.loadOwner 2 rfl)).next (.ownerAlive 2 rfl (by rintro ⟨⟩))
  have hrepaired := (hattached.next (.loadSeq 2 rfl)).next (.repair 2 rfl trivial)
  have hlast := ((hrepaired.next (.call 2 rfl)).next (.spin 2 rfl rfl)).next
    (.enter 2 rfl rfl rfl)
  have hsame := (hall _ _ _ _ createdBy1_start hlast).exclusive 1 2 ⟨0, rfl⟩ ⟨2, rfl⟩
  exact absurd hsame (by decide)

end Recovery

end InduRtdb.Core
