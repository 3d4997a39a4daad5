/-
  Core/Snapshot.lean --- a read that is tried a number of times between two loads of
  the lock word.

  Source: the loop of `irt_index_lookup` in `src/core/irt_index.c` and of
  `irt_meta_get` in `src/core/irt_shm.c`.

  What is read between the two loads is a program of single accesses; the word is
  loaded again after it, and the result counts only if both loads agree.
-/
import InduRtdb.Core.IndexReads
import InduRtdb.Core.SeqlockSteps

set_option autoImplicit false

namespace InduRtdb.Core

open InduRtdb.Lib

/-! ## The reader -/

/-- A lock-free call. -/
structure SnapshotCall (α : Type) where
  /-- the checks made before the first load; an error ends the call -/
  refuses : Segment → Option Rc
  attempts : Nat
  /-- what is read in one attempt -/
  body : Reads SegAccess SegAccess.Val (Except Rc α)

/-- Where the reader stands; `k` counts the attempts, `mark` the sections begun when
`s0` was loaded (`mark` is not in the code). -/
inductive SnapshotPc (α : Type) where
  /-- not called yet -/
  | idle
  | load (k : Nat)
  | reading (k s0 mark : Nat) (rest : Reads SegAccess SegAccess.Val (Except Rc α))
  /-- returned, by an attempt whose two loads agreed -/
  | done (result : Except Rc α)
  /-- returned `INDURTDB_ERR_BUSY` -/
  | busy
  /-- returned an error before the first load -/
  | refused (rc : Rc)

/-- Writers and one reader. -/
structure Watched (Tid Op ρ α : Type) where
  writers : Writers Tid Op Segment ρ
  reader : SnapshotPc α

variable {Tid Op ρ α : Type} [DecidableEq Tid]

/-- `continue`, or the end of the loop. -/
def SnapshotCall.next (call : SnapshotCall α) (k : Nat) : SnapshotPc α :=
  if k + 1 < call.attempts then .load (k + 1) else .busy

/-- One step of the reader. -/
inductive SnapshotStep (call : SnapshotCall α) (w : Writers Tid Op Segment ρ) :
    SnapshotPc α → SnapshotPc α → Prop where
  | call (passes : call.refuses w.data = none) : SnapshotStep call w .idle (.load 0)
  | refuse {rc : Rc} (fails : call.refuses w.data = some rc) :
      SnapshotStep call w .idle (.refused rc)
  | odd {k : Nat} (odd : w.writeSeq % 2 = 1) : SnapshotStep call w (.load k) (call.next k)
  | even {k : Nat} (even : w.writeSeq % 2 = 0) :
      SnapshotStep call w (.load k) (.reading k w.writeSeq w.begun call.body)
  | read {k s0 mark : Nat} {a : SegAccess}
      {rest : a.Val → Reads SegAccess SegAccess.Val (Except Rc α)} :
      SnapshotStep call w (.reading k s0 mark (.get a rest))
        (.reading k s0 mark (rest (w.data.look a)))
  | check {k s0 mark : Nat} {result : Except Rc α} :
      SnapshotStep call w (.reading k s0 mark (.ret result))
        (if s0 = w.writeSeq then .done result else call.next k)

/-- One step of a writer, or of the reader where `met` holds. -/
inductive Watched.Step (jobs : Op → Job Segment ρ) (call : SnapshotCall α)
    (met : Writers Tid Op Segment ρ → SnapshotPc α → Prop) :
    Watched Tid Op ρ α → Watched Tid Op ρ α → Prop where
  | writer {s w} (move : Writers.Step jobs s.writers w) :
      Step jobs call met s { s with writers := w }
  | reader {s r} (move : SnapshotStep call s.writers s.reader r)
      (holds : met s.writers s.reader) : Step jobs call met s { s with reader := r }

/-- All threads idle, the reader not called yet. -/
def Watched.start (w₀ stats₀ : Nat) (seg₀ : Segment) : Watched Tid Op ρ α where
  writers := .start w₀ stats₀ seg₀
  reader := .idle

/-- If the reader is about to find the word back at `s0`, fewer than `2^63` sections
have begun since it was loaded. -/
def FewSections (w : Writers Tid Op Segment ρ) : SnapshotPc α → Prop
  | .reading _ s0 mark (.ret _) => s0 = w.writeSeq → w.begun < mark + 2 ^ 63
  | _ => True

/-! ## What a result is -/

/-- The reader is about to load `s0`. -/
def SnapshotPc.Loading (r : SnapshotPc α) : Prop := ∃ k, r = .load k

section Runs

variable {jobs : Op → Job Segment ρ} {call : SnapshotCall α}
  {met : Writers Tid Op Segment ρ → SnapshotPc α → Prop} {w₀ stats₀ : Nat} {seg₀ : Segment}
  {past : List (Watched Tid Op ρ α)} {s s' : Watched Tid Op ρ α}

/-- The writers do not notice the reader. -/
theorem watched_writers
    (hrun : Run (Watched.Step jobs call met) (Watched.start w₀ stats₀ seg₀) past s) :
    ∃ past', Run (Writers.AllowedStep jobs fun _ _ => True) (.start w₀ stats₀ seg₀) past'
        s.writers ∧ ∀ p, p ∈ past → p.writers ∈ past' := by
  refine hrun.project (f := Watched.writers) ?_
  intro s s' hstep
  cases hstep with
  | writer hmove => exact Or.inr hmove.allowed
  | reader => exact Or.inl rfl

/-- The attempt began at `p`, and what is left of it ends as the whole read would
have ended there, unless another section has begun since. -/
structure AttemptFrom (call : SnapshotCall α) (p s : Watched Tid Op ρ α) (s0 mark : Nat)
    (rest : Reads SegAccess SegAccess.Val (Except Rc α)) : Prop where
  loading : p.reader.Loading
  even : p.writers.writeSeq % 2 = 0
  free : p.writers.Free
  s0 : s0 = p.writers.writeSeq
  mark : mark = p.writers.begun
  agrees : s.writers.begun = p.writers.begun →
    rest.run p.writers.data.look = call.body.run p.writers.data.look

/-- A result is the one of an instant at which an attempt began; during an attempt
there is such an instant. -/
def AttemptInv (call : SnapshotCall α) (past : List (Watched Tid Op ρ α))
    (s : Watched Tid Op ρ α) : Prop :=
  match s.reader with
  | .reading _ s0 mark rest => ∃ p, p ∈ past ∧ AttemptFrom call p s s0 mark rest
  | .done result => ∃ p, p ∈ past ∧ p.reader.Loading ∧ p.writers.writeSeq % 2 = 0 ∧
      p.writers.Free ∧ result = call.body.run p.writers.data.look
  | .refused rc => ∃ p, p ∈ past ∧ p.reader = .idle ∧ call.refuses p.writers.data = some rc
  | _ => True

omit [DecidableEq Tid] in
theorem attemptInv_next (k : Nat) {w : Writers Tid Op Segment ρ} :
    AttemptInv call past ⟨w, call.next k⟩ := by
  rw [SnapshotCall.next]
  split <;> trivial

theorem attemptInv_step (hw₀ : w₀ < 2 ^ 64)
    (hrun : Run (Watched.Step jobs call FewSections) (Watched.start w₀ stats₀ seg₀) past s)
    (hstep : Watched.Step jobs call FewSections s s') (hinv : AttemptInv call past s) :
    AttemptInv call (s' :: past) s' := by
  obtain ⟨wpast, hwriters, hsub⟩ := watched_writers hrun
  have hmem : s ∈ s' :: past := List.mem_cons_of_mem _ hrun.last_mem
  cases hstep with
  | @writer w hmove =>
      obtain ⟨writers, reader⟩ := s
      cases reader with
      | idle | load | busy => trivial
      | done result =>
          obtain ⟨p, hp, hrest⟩ := hinv
          exact ⟨p, List.mem_cons_of_mem _ hp, hrest⟩
      | refused rc =>
          obtain ⟨p, hp, hrest⟩ := hinv
          exact ⟨p, List.mem_cons_of_mem _ hp, hrest⟩
      | reading k s0 mark rest =>
          obtain ⟨p, hp, hfrom⟩ := hinv
          have hle := Writers.run_begun_le hwriters p.writers (hsub p hp)
          have hgrow := hmove.begun_le
          refine ⟨p, List.mem_cons_of_mem _ hp, { hfrom with agrees := fun hsame => ?_ }⟩
          have hbegun : w.begun = p.writers.begun := hsame
          exact hfrom.agrees (by
            simp only at hle hgrow ⊢
            omega)
  | @reader r hmove hmet =>
      obtain ⟨writers, reader⟩ := s
      cases hmove with
      | call => trivial
      | refuse hfails => exact ⟨_, hmem, rfl, hfails⟩
      | odd => exact attemptInv_next _
      | even heven =>
          exact ⟨_, hmem, ⟨_, rfl⟩, heven, Writers.run_free_of_even hw₀ hwriters heven, rfl, rfl,
            fun _ => rfl⟩
      | @read k s0 mark a rest =>
          obtain ⟨p, hp, hfrom⟩ := hinv
          refine ⟨p, List.mem_cons_of_mem _ hp, { hfrom with agrees := fun hsame => ?_ }⟩
          have hdata : writers.data = p.writers.data :=
            (Writers.run_still hwriters p.writers (hsub p hp) hfrom.free hsame).2
          rw [← hfrom.agrees hsame, hdata, Reads.run_get]
      | @check k s0 mark result =>
          by_cases hsame : s0 = writers.writeSeq
          · simp only [if_pos hsame]
            obtain ⟨p, hp, hfrom⟩ := hinv
            have hfew : writers.begun < mark + 2 ^ 63 := hmet hsame
            rw [hfrom.mark] at hfew
            have hbegun := Writers.run_begun_eq hw₀ hwriters (hsub p hp) hfrom.free
              (hsame.symm.trans hfrom.s0) hfew
            exact ⟨p, List.mem_cons_of_mem _ hp, hfrom.loading, hfrom.even, hfrom.free,
              hfrom.agrees hbegun⟩
          · simp only [if_neg hsame]
            exact attemptInv_next k

/-- Whatever the writers do under the lock, what the reader returns was there at one
instant. -/
theorem attemptInv_of_run (hw₀ : w₀ < 2 ^ 64)
    (hrun : Run (Watched.Step jobs call FewSections) (Watched.start w₀ stats₀ seg₀) past s) :
    AttemptInv call past s := by
  induction hrun with
  | start => trivial
  | next hrun hmove ih => exact attemptInv_step hw₀ hrun hmove ih

/-- A call that is past its checks has passed them. -/
theorem passed_of_run
    (hrun : Run (Watched.Step jobs call met) (Watched.start w₀ stats₀ seg₀) past s)
    (hidle : s.reader ≠ .idle) (hrefused : ∀ rc, s.reader ≠ .refused rc) :
    ∃ p, p ∈ past ∧ call.refuses p.writers.data = none := by
  induction hrun with
  | start => exact absurd rfl hidle
  | @next past s s' hrun hmove ih =>
      have hlift : (∃ p, p ∈ past ∧ call.refuses p.writers.data = none) →
          ∃ p, p ∈ s' :: past ∧ call.refuses p.writers.data = none := by
        rintro ⟨p, hp, hpasses⟩
        exact ⟨p, List.mem_cons_of_mem _ hp, hpasses⟩
      cases hmove with
      | writer => exact hlift (ih hidle hrefused)
      | @reader r hread =>
          obtain ⟨writers, reader⟩ := s
          cases hread with
          | call hpasses => exact ⟨_, List.mem_cons_of_mem _ hrun.last_mem, hpasses⟩
          | refuse => exact absurd rfl (hrefused _)
          | odd | even | read | check => exact hlift (ih (by simp) (by simp))

/-! ## What a reader touches -/

/-- What is left of a read stays inside the tables, if every slot is valid at every
instant. -/
theorem within_of_run {N : Nat} {hdr : IrtHeader}
    (hbody : call.body.Within (SegAccess.InRange N) (SegAccess.Yields N))
    (hvalid : ∀ p, p ∈ past → SlotsValid N hdr p.writers.data)
    (hrun : Run (Watched.Step jobs call met) (Watched.start w₀ stats₀ seg₀) past s) :
    ∀ k s0 mark rest, s.reader = .reading k s0 mark rest →
      rest.Within (SegAccess.InRange N) (SegAccess.Yields N) := by
  induction hrun with
  | start =>
      intro k s0 mark rest hat
      cases hat
  | @next past s s' hrun hmove ih =>
      have ih := ih fun p hp => hvalid p (List.mem_cons_of_mem _ hp)
      have hnow := hvalid s (List.mem_cons_of_mem _ hrun.last_mem)
      intro k s0 mark rest hat
      cases hmove with
      | writer => exact ih k s0 mark rest hat
      | @reader r hread =>
          obtain ⟨writers, reader⟩ := s
          simp only at hat
          subst hat
          generalize hto : (SnapshotPc.reading k s0 mark rest) = r at hread
          cases hread with
          | call | refuse => cases hto
          | odd =>
              rw [SnapshotCall.next] at hto
              split at hto <;> cases hto
          | even =>
              obtain ⟨rfl, rfl, rfl, rfl⟩ := SnapshotPc.reading.inj hto
              exact hbody
          | @read k' s0' mark' a rest' =>
              obtain ⟨rfl, rfl, rfl, rfl⟩ := SnapshotPc.reading.inj hto
              have hbefore := ih _ _ _ _ rfl
              exact hbefore.2 _ (hnow.yields hbefore.1)
          | check =>
              split at hto
              · cases hto
              · rw [SnapshotCall.next] at hto
                split at hto <;> cases hto

/-- While the reader stands still, the writers go on. -/
theorem watched_extend {init : Watched Tid Op ρ α} {w w' : Writers Tid Op Segment ρ}
    {wpast : List (Writers Tid Op Segment ρ)} {r : SnapshotPc α}
    (hrun : Run (Watched.Step jobs call met) init past ⟨w, r⟩)
    (hwriters : Run (Writers.Step jobs) w wpast w') :
    ∃ past', Run (Watched.Step jobs call met) init past' ⟨w', r⟩ :=
  Run.extend (fun w => (⟨w, r⟩ : Watched Tid Op ρ α)) hrun hwriters
    fun _ _ hmove => .writer hmove

end Runs

end InduRtdb.Core
