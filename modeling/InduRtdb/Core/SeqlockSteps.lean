/-
  Core/SeqlockSteps.lean --- writers that interleave, one access to shared memory
  at a time.

  Source: `src/internal/irt_seqlock.h`, and the shape shared by the operations of
  `src/core/irt_point_manager.c`, `src/core/irt_index.c` and `src/core/irt_shm.c`
  that take the write lock.

  Every operation tries `irt_seqlock_write_begin` a number of times, runs its
  body, stores `seq0 + 2`, and may then count its success.  Memory is sequentially
  consistent, so fences and back-off do nothing.  Two counters that the code does
  not have record how many sections have begun, and which ones have ended.
-/
import InduRtdb.Core.Store
import InduRtdb.Spec.Sections
import Mathlib.Data.Finset.Card

set_option autoImplicit false

namespace InduRtdb.Core

open InduRtdb.Lib InduRtdb.Spec

/-! ## Taking the lock -/

/-- Where a thread stands in `irt_seqlock_write_begin`. -/
inductive Begin where
  /-- before the first load -/
  | load
  /-- at the head of the loop, with `expected` and `retry` -/
  | test (expected retry : Nat)

/-- What follows one turn. -/
inductive BeginNext where
  | go (b : Begin)
  | ret (seq0 : Nat)

/-- One turn of `irt_seqlock_write_begin` on the word `seq`: the word afterwards and
what follows.  An odd `expected` is never loaded again. -/
def Begin.step (seq : Nat) : Begin → Nat × BeginNext
  | .load => (seq, .go (.test seq 0))
  | .test expected retry =>
      if expected % 2 = 0 then
        if seq = expected then (u64 (expected + 1), .ret expected)
        else (seq, .go (.test seq 0))
      else if irtSeqlockMaxRetry < retry + 1 then (seq, .ret expected)
      else (seq, .go (.test expected (retry + 1)))

/-- A turn that returns an even value has taken the lock, at that value; any other
leaves the word alone. -/
theorem Begin.step_cases (seq : Nat) (b : Begin) :
    (∃ b', b.step seq = (seq, .go b')) ∨ (∃ e, e % 2 = 1 ∧ b.step seq = (seq, .ret e)) ∨
      (seq % 2 = 0 ∧ b.step seq = (u64 (seq + 1), .ret seq)) := by
  cases b with
  | load => exact Or.inl ⟨_, rfl⟩
  | test expected retry =>
      by_cases heven : expected % 2 = 0
      · by_cases heq : seq = expected
        · subst heq
          exact Or.inr (Or.inr ⟨heven, by simp [Begin.step, heven]⟩)
        · exact Or.inl ⟨.test seq 0, by simp [Begin.step, heven, heq]⟩
      · by_cases hlast : irtSeqlockMaxRetry < retry + 1
        · exact Or.inr (Or.inl ⟨expected, by omega, by simp [Begin.step, heven, hlast]⟩)
        · exact Or.inl ⟨.test expected (retry + 1), by simp [Begin.step, heven, hlast]⟩

/-- A turn that returns an even value took the lock at that value. -/
theorem Begin.step_ret_even {seq w e : Nat} {b : Begin} (hturn : b.step seq = (w, .ret e))
    (heven : e % 2 = 0) : seq % 2 = 0 ∧ e = seq ∧ w = u64 (seq + 1) := by
  obtain ⟨b', hgo⟩ | ⟨e', hodd, hret⟩ | ⟨hseq, htake⟩ := b.step_cases seq
  · simp [hgo] at hturn
  · simp only [hret, Prod.mk.injEq, BeginNext.ret.injEq] at hturn
    omega
  · simp only [htake, Prod.mk.injEq, BeginNext.ret.injEq] at hturn
    exact ⟨hseq, hturn.2.symm, hturn.1.symm⟩

/-! ## Operations and threads -/

/-- An operation that takes the write lock. -/
structure Job (σ ρ : Type) where
  /-- the checks made before the lock is tried; a call that fails them returns at
  once and does nothing -/
  ready : σ → Bool
  /-- how often `irt_seqlock_write_begin` is called before giving up -/
  attempts : Nat
  /-- what it does under the lock -/
  body : Prog σ ρ
  /-- whether it then increments `stats.writes` -/
  counts : ρ → Bool

/-- Where a thread stands. -/
inductive Local (Op σ ρ : Type) where
  | idle
  | begin (op : Op) (attempt : Nat) (b : Begin)
  | inside (op : Op) (seq0 : Nat) (rest : Prog σ ρ)
  /-- the lock is released, the success not yet counted -/
  | count (op : Op)

/-- The shared words, what the lock protects, and the threads. -/
structure Writers (Tid Op σ ρ : Type) where
  writeSeq : Nat
  statsWrites : Nat
  data : σ
  threads : Tid → Local Op σ ρ
  /-- sections begun so far -/
  begun : Nat
  /-- sections ended so far, with their results -/
  log : List (Op × ρ)

variable {Tid Op σ ρ : Type} [DecidableEq Tid]

namespace Writers

/-- All threads idle. -/
def start (w₀ stats : Nat) (data : σ) : Writers Tid Op σ ρ where
  writeSeq := w₀
  statsWrites := stats
  data := data
  threads _ := .idle
  begun := 0
  log := []

/-- Thread `t` moves to `l`. -/
def move (s : Writers Tid Op σ ρ) (t : Tid) (l : Local Op σ ρ) : Writers Tid Op σ ρ :=
  { s with threads := Function.update s.threads t l }

@[simp] theorem move_writeSeq (s : Writers Tid Op σ ρ) (t : Tid) (l : Local Op σ ρ) :
    (s.move t l).writeSeq = s.writeSeq := rfl
@[simp] theorem move_data (s : Writers Tid Op σ ρ) (t : Tid) (l : Local Op σ ρ) :
    (s.move t l).data = s.data := rfl
@[simp] theorem move_begun (s : Writers Tid Op σ ρ) (t : Tid) (l : Local Op σ ρ) :
    (s.move t l).begun = s.begun := rfl
@[simp] theorem move_log (s : Writers Tid Op σ ρ) (t : Tid) (l : Local Op σ ρ) :
    (s.move t l).log = s.log := rfl
@[simp] theorem move_statsWrites (s : Writers Tid Op σ ρ) (t : Tid) (l : Local Op σ ρ) :
    (s.move t l).statsWrites = s.statsWrites := rfl
@[simp] theorem move_threads (s : Writers Tid Op σ ρ) (t : Tid) (l : Local Op σ ρ) :
    (s.move t l).threads = Function.update s.threads t l := rfl

/-- One step of one thread. -/
inductive Step (jobs : Op → Job σ ρ) : Writers Tid Op σ ρ → Writers Tid Op σ ρ → Prop where
  | call {s} (t : Tid) (op : Op) (at' : s.threads t = .idle)
      (ready : (jobs op).ready s.data = true) :
      Step jobs s (s.move t (.begin op 0 .load))
  | spin {s} (t : Tid) {op : Op} {a : Nat} {b b' : Begin} (at' : s.threads t = .begin op a b)
      (turn : b.step s.writeSeq = (s.writeSeq, .go b')) :
      Step jobs s (s.move t (.begin op a b'))
  | retry {s} (t : Tid) {op : Op} {a : Nat} {b : Begin} {e : Nat}
      (at' : s.threads t = .begin op a b) (turn : b.step s.writeSeq = (s.writeSeq, .ret e))
      (odd : e % 2 = 1) (again : a + 1 < (jobs op).attempts) :
      Step jobs s (s.move t (.begin op (a + 1) .load))
  /-- the operation reports that the lock is busy -/
  | busy {s} (t : Tid) {op : Op} {a : Nat} {b : Begin} {e : Nat}
      (at' : s.threads t = .begin op a b) (turn : b.step s.writeSeq = (s.writeSeq, .ret e))
      (odd : e % 2 = 1) (last : ¬ a + 1 < (jobs op).attempts) :
      Step jobs s (s.move t .idle)
  | enter {s} (t : Tid) {op : Op} {a : Nat} {b : Begin} {e w : Nat}
      (at' : s.threads t = .begin op a b) (turn : b.step s.writeSeq = (w, .ret e))
      (even : e % 2 = 0) :
      Step jobs s
        { s.move t (.inside op e (jobs op).body) with writeSeq := w, begun := s.begun + 1 }
  | work {s} (t : Tid) {op : Op} {e : Nat} {rest : Prog σ ρ}
      (at' : s.threads t = .inside op e rest) :
      Step jobs s { s.move t (.inside op e (rest.step s.data).1) with data := (rest.step s.data).2 }
  /-- the body has ended, `irt_seqlock_write_end` -/
  | leave {s} (t : Tid) {op : Op} {e : Nat} {result : ρ}
      (at' : s.threads t = .inside op e (.ret result)) :
      Step jobs s
        { s.move t (if (jobs op).counts result then .count op else .idle) with
          writeSeq := irtSeqlockWriteEnd e
          log := s.log ++ [(op, result)] }
  | count {s} (t : Tid) {op : Op} (at' : s.threads t = .count op) :
      Step jobs s { s.move t .idle with statsWrites := u64 (s.statsWrites + 1) }

/-- A thread is inside. -/
def Inside (s : Writers Tid Op σ ρ) (t : Tid) : Prop :=
  ∃ op e rest, s.threads t = .inside op e rest

/-- Nobody is inside. -/
def Free (s : Writers Tid Op σ ρ) : Prop := ∀ t, ¬ s.Inside t

/-! ## One section after the other -/

/-- The abstract state behind a concrete one: the word counts the beginnings and
ends of sections since it stood at `w₀`, up to its width, and the holder is the one
thread inside, with the word at its own odd value. -/
structure Refines (w₀ : Nat) (s : Writers Tid Op σ ρ) (a : Sections Tid Op σ ρ) : Prop where
  data : s.data = a.data
  log : s.log = a.log
  begun : s.begun = a.begun
  word : s.writeSeq = u64 (w₀ + a.count)
  inside : ∀ t op e rest, s.threads t = .inside op e rest →
    a.holder = some (t, op, rest) ∧ s.writeSeq = e + 1 ∧ e % 2 = 0
  held : ∀ t op rest, a.holder = some (t, op, rest) → ∃ e, s.threads t = .inside op e rest

namespace Refines

variable {w₀ : Nat} {s s' : Writers Tid Op σ ρ} {a : Sections Tid Op σ ρ}

omit [DecidableEq Tid] in
/-- All threads are idle, nothing has happened. -/
theorem start {data : σ} {stats : Nat} (hw₀ : w₀ < 2 ^ 64) :
    Refines w₀ (start w₀ stats data : Writers Tid Op σ ρ) ⟨data, none, []⟩ where
  data := rfl
  log := rfl
  begun := rfl
  word := (Nat.mod_eq_of_lt hw₀).symm
  inside := by simp [Writers.start]
  held := by simp

omit [DecidableEq Tid] in
/-- Nobody is inside exactly when the abstract lock is free. -/
theorem free_iff (h : Refines w₀ s a) : s.Free ↔ a.holder = none := by
  constructor
  · intro hfree
    by_contra hheld
    obtain ⟨⟨t, op, rest⟩, hheld⟩ := Option.ne_none_iff_exists'.mp hheld
    obtain ⟨e, hat⟩ := h.held t op rest hheld
    exact hfree t ⟨op, e, rest, hat⟩
  · intro hfree t hinside
    obtain ⟨op, e, rest, hat⟩ := hinside
    have hheld := (h.inside t op e rest hat).1
    simp [hfree] at hheld

omit [DecidableEq Tid] in
/-- At most one thread is inside. -/
theorem unique (h : Refines w₀ s a) {t t' : Tid} (ht : s.Inside t) (ht' : s.Inside t') : t = t' := by
  obtain ⟨op, e, rest, hat⟩ := ht
  obtain ⟨op', e', rest', hat'⟩ := ht'
  have hheld := (h.inside t op e rest hat).1
  rw [(h.inside t' op' e' rest' hat').1] at hheld
  simp only [Option.some.injEq, Prod.mk.injEq] at hheld
  exact hheld.1.symm

omit [DecidableEq Tid] in
/-- An even word means that nobody is inside. -/
theorem free_of_even (h : Refines w₀ s a) (heven : s.writeSeq % 2 = 0) : a.holder = none := by
  cases hheld : a.holder with
  | none => rfl
  | some held =>
      obtain ⟨t, op, rest⟩ := held
      obtain ⟨e, hat⟩ := h.held t op rest hheld
      obtain ⟨-, hword, he⟩ := h.inside t op e rest hat
      omega

/-- A thread outside moves, and stays outside. -/
theorem quiet (h : Refines w₀ s a) {t : Tid} {l : Local Op σ ρ} {stats : Nat}
    (hout : ¬ s.Inside t) (hl : ∀ op e rest, l ≠ .inside op e rest) :
    Refines w₀ { s.move t l with statsWrites := stats } a where
  data := h.data
  log := h.log
  begun := h.begun
  word := h.word
  inside := by
    intro t' op e rest hat
    by_cases hself : t' = t
    · subst hself
      simp only [move, Function.update_self] at hat
      exact absurd hat (hl op e rest)
    · simp only [move, Function.update_of_ne hself] at hat
      exact h.inside t' op e rest hat
  held := by
    intro t' op rest hheld
    obtain ⟨e, hat⟩ := h.held t' op rest hheld
    have hne : t' ≠ t := by
      rintro rfl
      exact hout ⟨op, e, rest, hat⟩
    exact ⟨e, by simpa only [move, Function.update_of_ne hne] using hat⟩

/-- The only thread inside, at an odd word. -/
theorem occupied {t : Tid} {op : Op} {e : Nat} {rest : Prog σ ρ}
    (hthreads : s'.threads = Function.update s.threads t (.inside op e rest))
    (hother : ∀ t', t' ≠ t → ¬ s.Inside t') (hholder : a.holder = some (t, op, rest))
    (hodd : s'.writeSeq = e + 1 ∧ e % 2 = 0) (hdata : s'.data = a.data) (hlog : s'.log = a.log)
    (hbegun : s'.begun = a.begun) (hword : s'.writeSeq = u64 (w₀ + a.count)) :
    Refines w₀ s' a where
  data := hdata
  log := hlog
  begun := hbegun
  word := hword
  inside := by
    intro t' op' e' rest' hat
    rw [hthreads] at hat
    by_cases hself : t' = t
    · subst hself
      simp only [Function.update_self, Local.inside.injEq] at hat
      obtain ⟨rfl, rfl, rfl⟩ := hat
      exact ⟨hholder, hodd⟩
    · rw [Function.update_of_ne hself] at hat
      exact absurd ⟨op', e', rest', hat⟩ (hother t' hself)
  held := by
    intro t' op' rest' hheld
    rw [hholder] at hheld
    simp only [Option.some.injEq, Prod.mk.injEq] at hheld
    obtain ⟨rfl, rfl, rfl⟩ := hheld
    exact ⟨e, by rw [hthreads, Function.update_self]⟩

/-- Nobody inside any more. -/
theorem vacated {t : Tid} {l : Local Op σ ρ} (hthreads : s'.threads = Function.update s.threads t l)
    (hl : ∀ op e rest, l ≠ .inside op e rest) (hother : ∀ t', t' ≠ t → ¬ s.Inside t')
    (hholder : a.holder = none) (hdata : s'.data = a.data) (hlog : s'.log = a.log)
    (hbegun : s'.begun = a.begun) (hword : s'.writeSeq = u64 (w₀ + a.count)) :
    Refines w₀ s' a where
  data := hdata
  log := hlog
  begun := hbegun
  word := hword
  inside := by
    intro t' op e rest hat
    rw [hthreads] at hat
    by_cases hself : t' = t
    · subst hself
      rw [Function.update_self] at hat
      exact absurd hat (hl op e rest)
    · rw [Function.update_of_ne hself] at hat
      exact absurd ⟨op, e, rest, hat⟩ (hother t' hself)
  held := by simp [hholder]

/-- Every step of a thread is a step of the abstract lock, or changes nothing
there. -/
theorem step {jobs : Op → Job σ ρ} (h : Refines w₀ s a) (hstep : Step jobs s s') :
    Refines w₀ s' a ∨
      ∃ a', Sections.Step (fun op => (jobs op).body) a a' ∧ Refines w₀ s' a' := by
  cases hstep with
  | call t op hat => exact Or.inl (h.quiet (by simp [Inside, hat]) (by simp))
  | spin t hat => exact Or.inl (h.quiet (by simp [Inside, hat]) (by simp))
  | retry t hat => exact Or.inl (h.quiet (by simp [Inside, hat]) (by simp))
  | busy t hat => exact Or.inl (h.quiet (by simp [Inside, hat]) (by simp))
  | count t hat => exact Or.inl (h.quiet (by simp [Inside, hat]) (by simp))
  | @enter t op _ _ e w hat hturn heven =>
      obtain ⟨hseq, rfl, rfl⟩ := Begin.step_ret_even hturn heven
      have hfree := h.free_of_even hseq
      have hnext : u64 (s.writeSeq + 1) = s.writeSeq + 1 := by
        rw [h.word] at hseq ⊢
        simp only [u64] at hseq ⊢
        omega
      refine Or.inr ⟨_, .enter t op hfree, ?_⟩
      refine occupied (s := s) rfl (fun t' _ => h.free_iff.mpr hfree t') rfl ⟨hnext, heven⟩
        h.data h.log ?_ ?_
      · simp [h.begun, Sections.begun, hfree]
      · simp only [h.word, Sections.count, Sections.begun, hfree, u64]
        simp
        omega
  | @work t op e rest hat =>
      obtain ⟨hheld, hword⟩ := h.inside t op e rest hat
      refine Or.inr ⟨_, .work hheld, ?_⟩
      refine occupied (s := s) (by rw [h.data]; rfl)
        (fun t' hne hin => hne (h.unique hin ⟨op, e, rest, hat⟩)) rfl hword
        (by rw [h.data]) h.log ?_ ?_
      · simp [h.begun, Sections.begun, hheld]
      · simp [h.word, Sections.count, Sections.begun, hheld]
  | @leave t op e result hat =>
      obtain ⟨hheld, hword, he⟩ := h.inside t op e _ hat
      refine Or.inr ⟨_, .leave hheld, ?_⟩
      refine vacated (s := s) (t := t) rfl (by split <;> simp)
        (fun t' hne hin => hne (h.unique hin ⟨op, e, _, hat⟩)) rfl h.data ?_ ?_ ?_
      · simp [h.log]
      · simp [h.begun, Sections.begun, hheld]
      · have hcount : u64 (w₀ + a.count) = e + 1 := h.word.symm.trans hword
        simp only [Sections.count, Sections.begun, hheld, u64] at hcount
        simp only [irtSeqlockWriteEnd, Sections.count, Sections.begun, u64]
        simp at hcount ⊢
        omega

end Refines

/-! ## Whole runs -/

/-- A thread enters its section only where the operation is allowed. -/
def EntersAllowed (allow : Op → σ → Prop) (s s' : Writers Tid Op σ ρ) : Prop :=
  ∀ t op e rest, ¬ s.Inside t → s'.threads t = .inside op e rest → allow op s.data

/-- A step of a thread under the condition `allow`. -/
def AllowedStep (jobs : Op → Job σ ρ) (allow : Op → σ → Prop) (s s' : Writers Tid Op σ ρ) : Prop :=
  Step jobs s s' ∧ EntersAllowed allow s s'

section Runs

variable {jobs : Op → Job σ ρ} {allow : Op → σ → Prop} {w₀ stats₀ : Nat} {data₀ : σ}
  {past : List (Writers Tid Op σ ρ)} {s s' : Writers Tid Op σ ρ} {a : Sections Tid Op σ ρ}

omit [DecidableEq Tid] in
theorem Refines.entersAllowed {a' : Sections Tid Op σ ρ} (h : Refines w₀ s a)
    (h' : Refines w₀ s' a') (hallowed : EntersAllowed allow s s') :
    Sections.EntersAllowed allow a a' := by
  intro t op rest hfree hheld
  obtain ⟨e, hat⟩ := h'.held t op rest hheld
  rw [← h.data]
  exact hallowed t op e rest (h.free_iff.mpr hfree t) hat

/-- Every run of the threads is a run of the abstract lock, with its history. -/
theorem run_refines (hw₀ : w₀ < 2 ^ 64)
    (hrun : Run (AllowedStep jobs allow) (start w₀ stats₀ data₀) past s) :
    ∃ a, Refines w₀ s a ∧ Sections.SerialInv (fun op => (jobs op).body) allow data₀ a := by
  refine hrun.invariant_state (P := fun s => ∃ a, Refines w₀ s a ∧
    Sections.SerialInv (fun op => (jobs op).body) allow data₀ a) ?_ ?_
  · exact ⟨_, .start hw₀, .nil⟩
  · rintro s s' ⟨a, href, hserial⟩ ⟨hstep, hallowed⟩
    obtain hsame | ⟨a', habs, href'⟩ := href.step hstep
    · exact ⟨a, hsame, hserial⟩
    · exact ⟨a', href', habs.serialInv (href.entersAllowed href' hallowed) hserial⟩

/-- If the operations that are allowed succeed or change nothing, so does whoever
is inside. -/
theorem run_cleanInv {success : ρ → Bool} (hw₀ : w₀ < 2 ^ 64)
    (hclean : ∀ op d, allow op d → Sections.Clean success (jobs op).body d)
    (hrun : Run (AllowedStep jobs allow) (start w₀ stats₀ data₀) past s) :
    ∃ a, Refines w₀ s a ∧ Sections.CleanInv success a := by
  refine hrun.invariant_state (P := fun s => ∃ a, Refines w₀ s a ∧
    Sections.CleanInv success a) ?_ ?_
  · refine ⟨_, .start hw₀, ?_⟩
    intro t op rest hheld
    cases hheld
  · rintro s s' ⟨a, href, hinv⟩ ⟨hstep, hallowed⟩
    obtain hsame | ⟨a', habs, href'⟩ := href.step hstep
    · exact ⟨a, hsame, hinv⟩
    · exact ⟨a', href', habs.cleanInv (href.entersAllowed href' hallowed) hclean hinv⟩

/-- What changes the shared state is a section on its way to a success. -/
theorem Step.success_of_change {success : ρ → Bool} (hstep : Step jobs s s')
    (href : Refines w₀ s a) (hclean : Sections.CleanInv success a) (hchange : s'.data ≠ s.data) :
    ∃ t op e rest, s.threads t = .inside op e rest ∧ success (rest.run s.data).1 = true := by
  cases hstep with
  | call | spin | retry | busy | enter | leave | count => exact absurd rfl hchange
  | @work t op e rest hat =>
      refine ⟨t, op, e, rest, hat, ?_⟩
      by_contra hfails
      have hstill := hclean t op rest (href.inside t op e rest hat).1
        (by rw [← href.data]; exact Bool.eq_false_iff.mpr hfails)
      rw [← href.data] at hstill
      exact hchange hstill.step.1

/-- Whoever is inside still keeps `I`. -/
def KeepsInv (I : σ → Prop) (s : Writers Tid Op σ ρ) : Prop :=
  I s.data ∧ ∀ t op e rest, s.threads t = .inside op e rest → rest.Keeps I

theorem KeepsInv.step {I : σ → Prop} (hjobs : ∀ op, (jobs op).body.Keeps I)
    (hstep : Step jobs s s') (h : KeepsInv I s) : KeepsInv I s' := by
  have hmove : ∀ (t : Tid) (l : Local Op σ ρ), (∀ op e rest, l = .inside op e rest → rest.Keeps I) →
      ∀ t' op e rest, (s.move t l).threads t' = .inside op e rest → rest.Keeps I := by
    intro t l hl t' op e rest hat
    by_cases hself : t' = t
    · subst hself
      rw [move_threads, Function.update_self] at hat
      exact hl op e rest hat
    · rw [move_threads, Function.update_of_ne hself] at hat
      exact h.2 t' op e rest hat
  cases hstep with
  | call t => exact ⟨h.1, hmove t _ (by simp)⟩
  | spin t => exact ⟨h.1, hmove t _ (by simp)⟩
  | retry t => exact ⟨h.1, hmove t _ (by simp)⟩
  | busy t => exact ⟨h.1, hmove t _ (by simp)⟩
  | @enter t op =>
      refine ⟨h.1, hmove t _ ?_⟩
      rintro op e rest ⟨rfl⟩
      exact hjobs _
  | @work t op e rest hat =>
      obtain ⟨hdata, hrest⟩ := (h.2 t op e rest hat).step h.1
      refine ⟨hdata, hmove t _ ?_⟩
      rintro op e rest ⟨rfl⟩
      exact hrest
  | leave t => exact ⟨h.1, hmove t _ (by split <;> simp)⟩
  | count t => exact ⟨h.1, hmove t .idle (by simp)⟩

/-- What every body keeps holds at every instant, inside sections too. -/
theorem run_keeps {I : σ → Prop} (hjobs : ∀ op, (jobs op).body.Keeps I) (hdata : I data₀)
    (hrun : Run (AllowedStep jobs allow) (start w₀ stats₀ data₀) past s) : I s.data := by
  refine (hrun.invariant_state (P := KeepsInv I) ⟨hdata, ?_⟩ ?_).1
  · intro t op e rest hat
    cases hat
  · exact fun s s' h hmove => h.step hjobs hmove.1

/-- Beginnings and ends of sections so far. -/
def count (s : Writers Tid Op σ ρ) : Nat := s.begun + s.log.length

omit [DecidableEq Tid] in
theorem Refines.count_eq (h : Refines w₀ s a) : s.count = a.count := by
  rw [count, Sections.count, h.begun, h.log]

omit [DecidableEq Tid] in
theorem Refines.count_le (h : Refines w₀ s a) : s.count ≤ 2 * s.begun := by
  have hbegun : s.log.length ≤ s.begun := by
    rw [h.begun, h.log]
    exact Nat.le_add_right _ _
  rw [count]
  omega

theorem Step.count_le (hstep : Step jobs s s') : s.count ≤ s'.count := by
  cases hstep with
  | call | spin | retry | busy | count | work => exact Nat.le_refl _
  | enter => simp only [Writers.count, move_log]; omega
  | leave => simp only [Writers.count, move_begun, List.length_append]; omega

/-- The count never goes back. -/
theorem run_count_le (hrun : Run (AllowedStep jobs allow) (start w₀ stats₀ data₀) past s) :
    ∀ p, p ∈ past → p.count ≤ s.count := by
  refine hrun.invariant (P := fun past s => ∀ p, p ∈ past → p.count ≤ s.count) ?_ ?_
  · intro p hp
    obtain rfl := List.mem_singleton.mp hp
    exact Nat.le_refl _
  · intro past s s' ih hmove p hp
    rcases List.mem_cons.mp hp with rfl | hp
    · exact Nat.le_refl _
    · exact Nat.le_trans (ih p hp) hmove.1.count_le

/-! ## What a reader can rely on -/

/-- Without a condition every step is allowed. -/
theorem Step.allowed (hstep : Step jobs s s') : AllowedStep jobs (fun _ _ => True) s s' :=
  ⟨hstep, fun _ _ _ _ _ _ => trivial⟩

theorem Step.begun_le (hstep : Step jobs s s') : s.begun ≤ s'.begun := by
  cases hstep with
  | call | spin | retry | busy | leave | count | work => exact Nat.le_refl _
  | enter => exact Nat.le_succ _

/-- From a state in which nobody is inside, either another section begins or
nothing moves. -/
theorem Step.still_of_free (hstep : Step jobs s s') (hfree : s.Free)
    (hsame : s'.begun = s.begun) : s'.Free ∧ s'.data = s.data := by
  have hquiet : ∀ (t : Tid) (l : Local Op σ ρ), (∀ op e rest, l ≠ .inside op e rest) →
      (s.move t l).Free := by
    intro t l hl t' hin
    obtain ⟨op, e, rest, hat⟩ := hin
    by_cases hself : t' = t
    · subst hself
      rw [move_threads, Function.update_self] at hat
      exact hl op e rest hat
    · rw [move_threads, Function.update_of_ne hself] at hat
      exact hfree t' ⟨op, e, rest, hat⟩
  cases hstep with
  | call t => exact ⟨hquiet t _ (by simp), rfl⟩
  | spin t => exact ⟨hquiet t _ (by simp), rfl⟩
  | retry t => exact ⟨hquiet t _ (by simp), rfl⟩
  | busy t => exact ⟨hquiet t _ (by simp), rfl⟩
  | enter t => exact absurd hsame (Nat.succ_ne_self _)
  | work t hat => exact absurd ⟨_, _, _, hat⟩ (hfree t)
  | leave t hat => exact absurd ⟨_, _, _, hat⟩ (hfree t)
  | count t => exact ⟨hquiet t .idle (by simp), rfl⟩

theorem run_begun_le (hrun : Run (AllowedStep jobs allow) (start w₀ stats₀ data₀) past s) :
    ∀ p, p ∈ past → p.begun ≤ s.begun := by
  refine hrun.invariant (P := fun past s => ∀ p, p ∈ past → p.begun ≤ s.begun) ?_ ?_
  · intro p hp
    obtain rfl := List.mem_singleton.mp hp
    exact Nat.le_refl _
  · intro past s s' ih hmove p hp
    rcases List.mem_cons.mp hp with rfl | hp
    · exact Nat.le_refl _
    · exact Nat.le_trans (ih p hp) hmove.1.begun_le

/-- Since a state in which nobody was inside nothing has changed, unless another
section has begun. -/
theorem run_still (hrun : Run (AllowedStep jobs allow) (start w₀ stats₀ data₀) past s) :
    ∀ p, p ∈ past → p.Free → s.begun = p.begun → s.Free ∧ s.data = p.data := by
  induction hrun with
  | start =>
      intro p hp hfree _
      obtain rfl := List.mem_singleton.mp hp
      exact ⟨hfree, rfl⟩
  | @next past s s' hrun hmove ih =>
      intro p hp hfree hsame
      rcases List.mem_cons.mp hp with rfl | hp
      · exact ⟨hfree, rfl⟩
      · have hbefore := run_begun_le hrun p hp
        have hgrow := hmove.1.begun_le
        obtain ⟨hfree', hdata⟩ := ih p hp hfree (by omega)
        obtain ⟨hfree'', hdata'⟩ := hmove.1.still_of_free hfree' (by omega)
        exact ⟨hfree'', hdata'.trans hdata⟩

/-- An even word means that nobody is inside. -/
theorem run_free_of_even (hw₀ : w₀ < 2 ^ 64)
    (hrun : Run (AllowedStep jobs allow) (start w₀ stats₀ data₀) past s)
    (heven : s.writeSeq % 2 = 0) : s.Free := by
  obtain ⟨a, href, -⟩ := run_refines hw₀ hrun
  exact href.free_iff.mpr (href.free_of_even heven)

/-- A word that has come back to where it was when nobody was inside has either not
moved or gone all the way round. -/
theorem run_begun_eq (hw₀ : w₀ < 2 ^ 64)
    (hrun : Run (AllowedStep jobs allow) (start w₀ stats₀ data₀) past s)
    {p : Writers Tid Op σ ρ} (hp : p ∈ past) (hfree : p.Free)
    (hword : s.writeSeq = p.writeSeq) (hfew : s.begun < p.begun + 2 ^ 63) :
    s.begun = p.begun := by
  obtain ⟨past', hrun'⟩ := hrun.visited hp
  obtain ⟨a, href, -⟩ := run_refines hw₀ hrun
  obtain ⟨b, href', -⟩ := run_refines hw₀ hrun'
  have hle := run_begun_le hrun p hp
  have hbegun := Sections.begun_of_free (href'.free_iff.mp hfree)
  have hlog : a.log.length ≤ a.begun ∧ a.begun ≤ a.log.length + 1 := by
    rw [Sections.begun]
    split <;> omega
  rw [href.word, href'.word, Sections.count, Sections.count] at hword
  rw [href.begun] at hfew hle ⊢
  rw [href'.begun] at hfew hle ⊢
  simp only [u64] at hword
  omega

/-! ## The counter of successes -/

/-- The entries of the history that are counted. -/
def counted (jobs : Op → Job σ ρ) (log : List (Op × ρ)) : Nat :=
  log.countP fun entry => (jobs entry.1).counts entry.2

/-- Every counted section is in `stats.writes` or still with a thread on its way to
add it. -/
def CountInv (jobs : Op → Job σ ρ) (stats₀ : Nat) (s : Writers Tid Op σ ρ) : Prop :=
  s.statsWrites < 2 ^ 64 ∧
    ∃ pending : Finset Tid, (∀ t, t ∈ pending ↔ ∃ op, s.threads t = .count op) ∧
      u64 (s.statsWrites + pending.card) = u64 (stats₀ + counted jobs s.log)

omit [DecidableEq Tid] in
theorem u64_add_congr {m n : Nat} (h : u64 m = u64 n) (k : Nat) : u64 (m + k) = u64 (n + k) := by
  simp only [u64] at h ⊢
  rw [Nat.add_mod, h, ← Nat.add_mod]

/-- A thread that is not about to count moves to a place where it is not either. -/
theorem pending_same {f : Tid → Local Op σ ρ} {pending : Finset Tid} {t : Tid} {l : Local Op σ ρ}
    (hpending : ∀ t', t' ∈ pending ↔ ∃ op, f t' = .count op) (hfrom : ∀ op, f t ≠ .count op)
    (hto : ∀ op, l ≠ .count op) (t' : Tid) :
    t' ∈ pending ↔ ∃ op, Function.update f t l t' = .count op := by
  rw [hpending]
  by_cases hself : t' = t
  · subst hself
    simp [hfrom, hto]
  · rw [Function.update_of_ne hself]

theorem CountInv.quiet (h : CountInv jobs stats₀ s) {t : Tid} {l : Local Op σ ρ} {d : σ}
    {w n : Nat} (hfrom : ∀ op, s.threads t ≠ .count op) (hto : ∀ op, l ≠ .count op) :
    CountInv jobs stats₀ { s.move t l with data := d, writeSeq := w, begun := n } := by
  obtain ⟨hlt, pending, hpending, hcount⟩ := h
  exact ⟨hlt, pending, pending_same hpending hfrom hto, hcount⟩

theorem Step.countInv (hstep : Step jobs s s') (h : CountInv jobs stats₀ s) :
    CountInv jobs stats₀ s' := by
  cases hstep with
  | call t op hat => exact h.quiet (by simp [hat]) (by simp)
  | spin t hat => exact h.quiet (by simp [hat]) (by simp)
  | retry t hat => exact h.quiet (by simp [hat]) (by simp)
  | busy t hat => exact h.quiet (by simp [hat]) (by simp)
  | enter t hat => exact h.quiet (by simp [hat]) (by simp)
  | work t hat => exact h.quiet (by simp [hat]) (by simp)
  | @leave t op e result hat =>
      obtain ⟨hlt, pending, hpending, hcount⟩ := h
      have hfrom : ∀ op, s.threads t ≠ .count op := by simp [hat]
      cases hcounts : (jobs op).counts result with
      | false =>
          refine ⟨hlt, pending, pending_same hpending hfrom (by simp), ?_⟩
          simpa [counted, hcounts] using hcount
      | true =>
          have hnew : t ∉ pending := fun ht => (hpending t).mp ht |>.elim hfrom
          refine ⟨hlt, insert t pending, ?_, ?_⟩
          · intro t'
            rw [Finset.mem_insert, hpending]
            by_cases hself : t' = t
            · subst hself
              simp
            · simp [hself]
          · simp only [Finset.card_insert_of_notMem hnew, counted, List.countP_append,
              List.countP_singleton, hcounts, if_true]
            exact u64_add_congr hcount 1
  | @count t op hat =>
      obtain ⟨hlt, pending, hpending, hcount⟩ := h
      have hmem : t ∈ pending := (hpending t).mpr ⟨op, hat⟩
      refine ⟨Nat.mod_lt _ (by decide), pending.erase t, ?_, ?_⟩
      · intro t'
        rw [Finset.mem_erase, hpending]
        by_cases hself : t' = t
        · subst hself
          simp
        · simp [hself]
      · have hcard := Finset.card_erase_add_one hmem
        change u64 (u64 (s.statsWrites + 1) + (pending.erase t).card) = _
        refine Eq.trans ?_ hcount
        rw [← hcard]
        simp only [u64]
        omega

/-- Once every thread is idle, the counter has grown by the counted sections. -/
theorem run_counted (hstats : stats₀ < 2 ^ 64)
    (hrun : Run (AllowedStep jobs allow) (start w₀ stats₀ data₀) past s)
    (hidle : ∀ t, s.threads t = .idle) :
    s.statsWrites = u64 (stats₀ + counted jobs s.log) := by
  have hinv : CountInv jobs stats₀ s := by
    refine hrun.invariant_state (P := CountInv jobs stats₀) ?_ ?_
    · exact ⟨hstats, ∅, by simp [start], by simp [start, counted]⟩
    · exact fun s s' h hmove => hmove.1.countInv h
  obtain ⟨hlt, pending, hpending, hcount⟩ := hinv
  have hnone : pending = ∅ := by
    refine Finset.eq_empty_of_forall_notMem fun t ht => ?_
    obtain ⟨op, hat⟩ := (hpending t).mp ht
    rw [hidle t] at hat
    cases hat
  rw [hnone, Finset.card_empty, Nat.add_zero] at hcount
  rw [← hcount]
  exact (Nat.mod_eq_of_lt hlt).symm

/-! ## One thread at a time -/

/-- The state after thread `t` has run `op` on its own. -/
def ran (jobs : Op → Job σ ρ) (s : Writers Tid Op σ ρ) (t : Tid) (op : Op) :
    Writers Tid Op σ ρ :=
  let result := ((jobs op).body.run s.data).1
  { writeSeq := irtSeqlockWriteEnd s.writeSeq
    statsWrites := s.statsWrites
    data := ((jobs op).body.run s.data).2
    threads := Function.update s.threads t (if (jobs op).counts result then .count op else .idle)
    begun := s.begun + 1
    log := s.log ++ [(op, result)] }

/-- A step that leaves the other threads alone, by a thread that is outside or was
inside already, enters nothing that is not allowed. -/
theorem entersAllowed_of_move {t : Tid} (hothers : ∀ t', t' ≠ t → s'.threads t' = s.threads t')
    (hself : s.Inside t ∨ ∀ op e rest, s'.threads t ≠ .inside op e rest) :
    EntersAllowed allow s s' := by
  intro t' op e rest hout hat
  by_cases hsame : t' = t
  · subst hsame
    rcases hself with hin | hnot
    · exact absurd hin hout
    · exact absurd hat (hnot op e rest)
  · rw [hothers t' hsame] at hat
    exact absurd ⟨op, e, rest, hat⟩ hout

/-- A thread inside can run its section to the end. -/
theorem run_section {init : Writers Tid Op σ ρ} {t : Tid} {op : Op} {e : Nat}
    {rest : Prog σ ρ} (hrun : Run (AllowedStep jobs allow) init past s)
    (hat : s.threads t = .inside op e rest) :
    ∃ past', (∀ p, p ∈ past → p ∈ past') ∧ Run (AllowedStep jobs allow) init past'
      { s with
        data := (rest.run s.data).2
        threads := Function.update s.threads t (.inside op e (.ret (rest.run s.data).1)) } := by
  induction rest generalizing past s with
  | ret result =>
      refine ⟨past, fun _ hp => hp, ?_⟩
      have hsame : Function.update s.threads t (.inside op e (.ret result)) = s.threads := by
        rw [← hat]
        exact Function.update_eq_self t s.threads
      simpa [hsame] using hrun
  | load k ih =>
      have hnext := hrun.nextTo { s.move t (.inside op e (k s.data)) with data := s.data }
        ⟨.work t hat, entersAllowed_of_move (t := t)
          (fun t' hne => by simp [Function.update_of_ne hne]) (Or.inl ⟨op, e, _, hat⟩)⟩
      obtain ⟨past', hsub, hend⟩ := ih s.data hnext (Function.update_self t _ _)
      refine ⟨past', fun p hp => hsub p (List.mem_cons_of_mem _ hp), ?_⟩
      simpa [move] using hend
  | store f k ih =>
      have hnext := hrun.nextTo { s.move t (.inside op e k) with data := f s.data }
        ⟨.work t hat, entersAllowed_of_move (t := t)
          (fun t' hne => by simp [Function.update_of_ne hne]) (Or.inl ⟨op, e, _, hat⟩)⟩
      obtain ⟨past', hsub, hend⟩ := ih hnext (Function.update_self t _ _)
      refine ⟨past', fun p hp => hsub p (List.mem_cons_of_mem _ hp), ?_⟩
      simpa [move] using hend

/-- A thread that stays outside enters nothing. -/
theorem allowed_move {t : Tid} {l : Local Op σ ρ} (hstep : Step jobs s (s.move t l))
    (hout : ∀ op e rest, l ≠ .inside op e rest) : AllowedStep jobs allow s (s.move t l) :=
  ⟨hstep, entersAllowed_of_move (t := t)
    (fun t' hne => by simp [Function.update_of_ne hne])
    (Or.inr fun op e rest => by simpa using hout op e rest)⟩

theorem allowed_count {t : Tid} {op : Op} (hat : s.threads t = .count op) :
    AllowedStep jobs allow s { s.move t .idle with statsWrites := u64 (s.statsWrites + 1) } :=
  ⟨.count t hat, entersAllowed_of_move (t := t)
    (fun t' hne => by simp [Function.update_of_ne hne]) (Or.inr (by simp))⟩

/-- A thread whose compare-exchange succeeds can run its operation to the end. -/
theorem run_taking {init : Writers Tid Op σ ρ} (t : Tid) (op : Op) {a retry : Nat}
    (hrun : Run (AllowedStep jobs allow) init past s)
    (hat : s.threads t = .begin op a (.test s.writeSeq retry)) (heven : s.writeSeq % 2 = 0)
    (hallow : allow op s.data) :
    ∃ past', (∀ p, p ∈ past → p ∈ past') ∧
      Run (AllowedStep jobs allow) init past' (ran jobs s t op) := by
  have henter := hrun.nextTo
    { (s.move t (.inside op s.writeSeq (jobs op).body)) with
      writeSeq := u64 (s.writeSeq + 1), begun := s.begun + 1 } ⟨?_, ?_⟩
  · obtain ⟨past', hsub, hbody⟩ := run_section henter (Function.update_self t _ _)
    have hleave := hbody.nextTo (ran jobs s t op) ⟨?_, ?_⟩
    · exact ⟨_, fun p hp => List.mem_cons_of_mem _ (hsub p (List.mem_cons_of_mem _ hp)), hleave⟩
    · have hstep : Step jobs
          { s with
            data := ((jobs op).body.run s.data).2
            writeSeq := u64 (s.writeSeq + 1)
            begun := s.begun + 1
            threads := Function.update s.threads t
              (.inside op s.writeSeq (.ret ((jobs op).body.run s.data).1)) } _ :=
        .leave t (Function.update_self t _ _)
      simpa [ran, move] using hstep
    · exact entersAllowed_of_move (t := t) (fun t' hne => by simp [ran, Function.update_of_ne hne])
        (Or.inl ⟨op, _, _, Function.update_self t _ _⟩)
  · have hturn : Begin.step s.writeSeq (.test s.writeSeq retry) =
        (u64 (s.writeSeq + 1), .ret s.writeSeq) := by
      simp [Begin.step, heven]
    exact .enter t hat hturn heven
  · intro t' op' e' rest' hout hinside
    by_cases hsame : t' = t
    · subst hsame
      simp only [move, Function.update_self, Local.inside.injEq] at hinside
      obtain ⟨rfl, -, -⟩ := hinside
      exact hallow
    · simp only [move, Function.update_of_ne hsame] at hinside
      exact absurd ⟨op', e', rest', hinside⟩ hout

/-- An idle thread that finds the lock free can run a whole operation. -/
theorem run_alone {init : Writers Tid Op σ ρ} (t : Tid) (op : Op)
    (hrun : Run (AllowedStep jobs allow) init past s) (hidle : s.threads t = .idle)
    (hready : (jobs op).ready s.data = true) (heven : s.writeSeq % 2 = 0)
    (hallow : allow op s.data) :
    ∃ past', (∀ p, p ∈ past → p ∈ past') ∧
      Run (AllowedStep jobs allow) init past' (ran jobs s t op) := by
  have hcall := hrun.next (allowed_move (.call t op hidle hready) nofun)
  have hload := hcall.next (allowed_move (.spin t (Function.update_self t _ _) rfl) nofun)
  obtain ⟨past', hsub, hend⟩ := run_taking t op hload (Function.update_self t _ _) heven hallow
  refine ⟨past', fun p hp => hsub p (List.mem_cons_of_mem _ (List.mem_cons_of_mem _ hp)), ?_⟩
  simpa [ran, move] using hend

end Runs

end Writers

end InduRtdb.Core
