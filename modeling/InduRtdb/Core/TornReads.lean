/-
  Core/TornReads.lean --- a reader of one point among any number of writers.

  Source: `irt_pm_read` and `irt_pm_peek` of `src/core/irt_point_manager.c`.

  Both functions run the same loop; they differ in the buffer, which is the caller's
  or one of the thread.  The record is copied in pieces (`Cell`), in any order.  The
  loop is a `do ... while (s0 != s1)` whose body ends early, with `continue`, on an
  odd word: the test is then made with whatever `s1` was before.
-/
import InduRtdb.Core.Serializable
import Mathlib.Data.Finset.Piecewise
import Mathlib.Data.Fintype.Basic

set_option autoImplicit false

namespace InduRtdb.Core

open InduRtdb.Lib

/-! ## The pieces of a record -/

/-- The fields of `indurtdb_point_t`. -/
inductive PointField where
  | value
  | timestampNs
  | type
  | quality
  | unit
  | access
  | name
  | sourceTimestampNs
  | partition
  deriving DecidableEq

instance : Fintype PointField where
  elems := {.value, .timestampNs, .type, .quality, .unit, .access, .name, .sourceTimestampNs,
    .partition}
  complete f := by cases f <;> decide

/-- What a field holds. -/
abbrev PointField.Val : PointField → Type
  | .value => List UInt8
  | .timestampNs => Nat
  | .type => UInt8
  | .quality => UInt8
  | .unit => UInt16
  | .access => UInt8
  | .name => CStr
  | .sourceTimestampNs => Nat
  | .partition => UInt32

/-- One field of a record. -/
def IndurtdbPoint.field (p : IndurtdbPoint) : (f : PointField) → f.Val
  | .value => p.value
  | .timestampNs => p.timestampNs
  | .type => p.type
  | .quality => p.quality
  | .unit => p.unit
  | .access => p.access
  | .name => p.name
  | .sourceTimestampNs => p.sourceTimestampNs
  | .partition => p.partition

/-- A record is the sum of its fields. -/
theorem IndurtdbPoint.field_injective : Function.Injective IndurtdbPoint.field := by
  intro p q h
  have hfield : ∀ f, p.field f = q.field f := congrFun h
  cases p
  cases q
  simp only [IndurtdbPoint.mk.injEq]
  exact ⟨hfield .value, hfield .timestampNs, hfield .type, hfield .quality, hfield .unit,
    hfield .access, hfield .name, hfield .sourceTimestampNs, hfield .partition⟩

/-! ## The reader -/

/-- Where the reader stands. -/
inductive ReadPc where
  /-- not called yet -/
  | idle
  /-- before the load of `s0` -/
  | loadS0
  /-- in the `memcpy`, or before the load of `s1` when nothing is left to copy -/
  | copying
  /-- returned `0`, respectively the buffer -/
  | done
  /-- returned `-1`, respectively `NULL`, without reading -/
  | refused
  deriving DecidableEq

/-- The call is in progress. -/
def ReadPc.InCall (pc : ReadPc) : Prop := pc = .loadS0 ∨ pc = .copying

/-- The reader's variables.  `left` holds the pieces the last pass has not copied;
`mark` is not in the code, it records how many sections had begun at the last load
of `s0`. -/
structure Reader (Cell : Type) (Val : Cell → Type) where
  pc : ReadPc
  s0 : Nat
  s1 : Nat
  buf : (c : Cell) → Val c
  left : Finset Cell
  mark : Nat

/-- Writers and one reader. -/
structure Reading (Tid Op ρ Cell : Type) (Val : Cell → Type) where
  writers : Writers Tid Op Segment ρ
  reader : Reader Cell Val

variable {Tid Op ρ Cell : Type} {Val : Cell → Type} [DecidableEq Tid] [DecidableEq Cell]
  [Fintype Cell]

/-- One step of the reader of point `id`. -/
inductive ReadStep (view : IndurtdbPoint → (c : Cell) → Val c) (id : Nat)
    (w : Writers Tid Op Segment ρ) : Reader Cell Val → Reader Cell Val → Prop where
  | call {r} (at' : r.pc = .idle) (ready : irtPmReady id w.data = true) :
      ReadStep view id w r { r with pc := .loadS0, s0 := 0, s1 := 1, left := Finset.univ }
  | refuse {r} (at' : r.pc = .idle) (invalid : irtPmReady id w.data = false) :
      ReadStep view id w r { r with pc := .refused }
  /-- the word is odd: `continue` jumps to the test -/
  | odd {r} (at' : r.pc = .loadS0) (odd : w.writeSeq % 2 = 1) :
      ReadStep view id w r
        { r with
          s0 := w.writeSeq
          mark := w.begun
          pc := if w.writeSeq = r.s1 then .done else .loadS0 }
  | even {r} (at' : r.pc = .loadS0) (even : w.writeSeq % 2 = 0) :
      ReadStep view id w r
        { r with s0 := w.writeSeq, mark := w.begun, pc := .copying, left := Finset.univ }
  | copy {r} (c : Cell) (at' : r.pc = .copying) (todo : c ∈ r.left) :
      ReadStep view id w r
        { r with
          buf := Function.update r.buf c (view (w.data.points id) c)
          left := r.left.erase c }
  | check {r} (at' : r.pc = .copying) (copied : r.left = ∅) :
      ReadStep view id w r
        { r with s1 := w.writeSeq, pc := if r.s0 = w.writeSeq then .done else .loadS0 }

/-- One step of a writer, or of the reader where `met` holds. -/
inductive Reading.Step (jobs : Op → Job Segment ρ) (view : IndurtdbPoint → (c : Cell) → Val c)
    (id : Nat) (met : Writers Tid Op Segment ρ → Reader Cell Val → Prop) :
    Reading Tid Op ρ Cell Val → Reading Tid Op ρ Cell Val → Prop where
  | writer {s w} (move : Writers.Step jobs s.writers w) :
      Step jobs view id met s { s with writers := w }
  | reader {s r} (move : ReadStep view id s.writers s.reader r) (holds : met s.writers s.reader) :
      Step jobs view id met s { s with reader := r }

/-- All threads idle, the reader not called yet. -/
def Reading.start (w₀ stats₀ : Nat) (seg₀ : Segment) (buf : (c : Cell) → Val c) :
    Reading Tid Op ρ Cell Val where
  writers := .start w₀ stats₀ seg₀
  reader := ⟨.idle, 0, 1, buf, Finset.univ, 0⟩

/-! ## What is wanted -/

/-- A reader that has returned holds a whole copy, and it is the point as it stood at
some instant of the call at which nobody was inside. -/
def Untorn (view : IndurtdbPoint → (c : Cell) → Val c) (id : Nat)
    (past : List (Reading Tid Op ρ Cell Val)) (s : Reading Tid Op ρ Cell Val) : Prop :=
  s.reader.pc = .done →
    s.reader.left = ∅ ∧
      ∃ p, p ∈ past ∧ p.reader.pc.InCall ∧ p.writers.Free ∧
        s.reader.buf = view (p.writers.data.points id)

/-! ## When the loop keeps its promise -/

/-- The word the reader is about to load is not an odd one that equals the `s1` it
still holds; and if it is about to find the word back at `s0`, fewer than `2^63`
sections have begun since `s0` was loaded. -/
def ReadMet (w : Writers Tid Op Segment ρ) (r : Reader Cell Val) : Prop :=
  (r.pc = .loadS0 → w.writeSeq % 2 = 1 → w.writeSeq ≠ r.s1) ∧
    (r.pc = .copying → r.left = ∅ → r.s0 = w.writeSeq → w.begun < r.mark + 2 ^ 63)

section Runs

variable {jobs : Op → Job Segment ρ} {view : IndurtdbPoint → (c : Cell) → Val c} {id : Nat}
  {met : Writers Tid Op Segment ρ → Reader Cell Val → Prop} {w₀ stats₀ : Nat} {seg₀ : Segment}
  {buf : (c : Cell) → Val c} {past : List (Reading Tid Op ρ Cell Val)}
  {s s' : Reading Tid Op ρ Cell Val}

/-- The writers do not notice the reader. -/
theorem reading_writers (hrun : Run (Reading.Step jobs view id met)
      (Reading.start w₀ stats₀ seg₀ buf) past s) :
    ∃ past', Run (Writers.AllowedStep jobs fun _ _ => True) (.start w₀ stats₀ seg₀) past'
        s.writers ∧ ∀ p, p ∈ past → p.writers ∈ past' := by
  refine hrun.project (f := Reading.writers) ?_
  intro s s' hstep
  cases hstep with
  | writer hmove => exact Or.inr hmove.allowed
  | reader => exact Or.inl rfl

/-- A pass over the record began at `p`, and what it has copied so far is the record
of that instant, unless another section has begun since. -/
structure PassFrom (view : IndurtdbPoint → (c : Cell) → Val c) (id : Nat)
    (p s : Reading Tid Op ρ Cell Val) : Prop where
  inCall : p.reader.pc.InCall
  free : p.writers.Free
  s0 : s.reader.s0 = p.writers.writeSeq
  mark : s.reader.mark = p.writers.begun
  copied : s.writers.begun = p.writers.begun →
    ∀ c, c ∉ s.reader.left → s.reader.buf c = view (p.writers.data.points id) c

/-- While the reader copies, its pass began at an instant of the call. -/
def PassInv (view : IndurtdbPoint → (c : Cell) → Val c) (id : Nat)
    (past : List (Reading Tid Op ρ Cell Val)) (s : Reading Tid Op ρ Cell Val) : Prop :=
  s.reader.pc = .copying → ∃ p, p ∈ past ∧ PassFrom view id p s

omit [DecidableEq Cell] [Fintype Cell] in
theorem PassFrom.writer {p : Reading Tid Op ρ Cell Val} {w : Writers Tid Op Segment ρ}
    (h : PassFrom view id p s) (hle : p.writers.begun ≤ s.writers.begun)
    (hmove : Writers.Step jobs s.writers w) : PassFrom view id p { s with writers := w } where
  inCall := h.inCall
  free := h.free
  s0 := h.s0
  mark := h.mark
  copied := by
    intro hsame
    have hgrow := hmove.begun_le
    have hbegun : w.begun = p.writers.begun := hsame
    exact h.copied (by omega)

omit [DecidableEq Tid] [Fintype Cell] in
theorem PassFrom.copy {p : Reading Tid Op ρ Cell Val} {c : Cell} (h : PassFrom view id p s)
    (hdata : s.writers.begun = p.writers.begun → s.writers.data = p.writers.data) :
    PassFrom view id p
      { s with
        reader := { s.reader with
          buf := Function.update s.reader.buf c (view (s.writers.data.points id) c)
          left := s.reader.left.erase c } } where
  inCall := h.inCall
  free := h.free
  s0 := h.s0
  mark := h.mark
  copied := by
    intro hsame c' hc'
    by_cases hself : c' = c
    · subst hself
      simp only [Function.update_self]
      rw [hdata hsame]
    · simp only [Function.update_of_ne hself]
      exact h.copied hsame c' fun hleft => hc' (Finset.mem_erase.mpr ⟨hself, hleft⟩)

/-- One step keeps both the state of the pass and the promise. -/
theorem reading_step (hw₀ : w₀ < 2 ^ 64)
    (hrun : Run (Reading.Step jobs view id ReadMet) (Reading.start w₀ stats₀ seg₀ buf) past s)
    (hstep : Reading.Step jobs view id ReadMet s s') (hpass : PassInv view id past s)
    (huntorn : Untorn view id past s) :
    PassInv view id (s' :: past) s' ∧ Untorn view id (s' :: past) s' := by
  obtain ⟨wpast, hwriters, hsub⟩ := reading_writers hrun
  have hkeep : Untorn view id past s → ∀ t : Reading Tid Op ρ Cell Val,
      t.reader = s.reader → Untorn view id (s' :: past) t := by
    intro hu t hreader hdone
    rw [hreader] at hdone ⊢
    obtain ⟨hleft, p, hp, hrest⟩ := hu hdone
    exact ⟨hleft, p, List.mem_cons_of_mem _ hp, hrest⟩
  cases hstep with
  | @writer w hmove =>
      refine ⟨fun hcopying => ?_, hkeep huntorn _ rfl⟩
      obtain ⟨p, hp, hfrom⟩ := hpass hcopying
      have hle := Writers.run_begun_le hwriters p.writers (hsub p hp)
      exact ⟨p, List.mem_cons_of_mem _ hp, hfrom.writer hle hmove⟩
  | @reader r hmove hmet =>
      cases hmove with
      | call hat => exact ⟨by rintro ⟨⟩, by rintro ⟨⟩⟩
      | refuse hat => exact ⟨by rintro ⟨⟩, by rintro ⟨⟩⟩
      | odd hat hodd =>
          -- an odd word is not the `s1` still held, so the loop goes on
          have hother := hmet.1 hat hodd
          simp only [if_neg hother]
          exact ⟨by rintro ⟨⟩, by rintro ⟨⟩⟩
      | even hat heven =>
          refine ⟨fun _ => ?_, by rintro ⟨⟩⟩
          have hfree := Writers.run_free_of_even hw₀ hwriters heven
          exact ⟨s, List.mem_cons_of_mem _ hrun.last_mem, Or.inl hat, hfree, rfl, rfl,
            fun _ c hc => absurd (Finset.mem_univ c) hc⟩
      | copy c hat htodo =>
          refine ⟨fun _ => ?_, fun hdone => ?_⟩
          · obtain ⟨p, hp, hfrom⟩ := hpass hat
            exact ⟨p, List.mem_cons_of_mem _ hp, hfrom.copy fun hsame =>
              (Writers.run_still hwriters p.writers (hsub p hp) hfrom.free hsame).2⟩
          · rw [hat] at hdone
            cases hdone
      | check hat hcopied =>
          by_cases hsame : s.reader.s0 = s.writers.writeSeq
          · simp only [if_pos hsame]
            refine ⟨by rintro ⟨⟩, fun _ => ⟨hcopied, ?_⟩⟩
            obtain ⟨p, hp, hfrom⟩ := hpass hat
            have hfew := hmet.2 hat hcopied hsame
            rw [hfrom.mark] at hfew
            have hbegun := Writers.run_begun_eq hw₀ hwriters (hsub p hp) hfrom.free
              (hsame.symm.trans hfrom.s0) hfew
            refine ⟨p, List.mem_cons_of_mem _ hp, hfrom.inCall, hfrom.free, ?_⟩
            funext c
            exact hfrom.copied hbegun c (by rw [hcopied]; exact Finset.notMem_empty c)
          · simp only [if_neg hsame]
            exact ⟨by rintro ⟨⟩, by rintro ⟨⟩⟩

/-- In every run in which the two loads of the word never mislead the reader, what it
returns is not torn: whatever the writers do under the lock, however the pieces are
copied, and wherever the word started. -/
theorem untorn_of_readMet (hw₀ : w₀ < 2 ^ 64)
    (hrun : Run (Reading.Step jobs view id ReadMet) (Reading.start w₀ stats₀ seg₀ buf) past s) :
    Untorn view id past s := by
  suffices hboth : PassInv view id past s ∧ Untorn view id past s from hboth.2
  induction hrun with
  | start => exact ⟨by rintro ⟨⟩, by rintro ⟨⟩⟩
  | next hrun hmove ih => exact reading_step hw₀ hrun hmove ih.1 ih.2

/-- While the reader waits, the writers go on. -/
theorem reading_extend {init : Reading Tid Op ρ Cell Val} {w w' : Writers Tid Op Segment ρ}
    {wpast : List (Writers Tid Op Segment ρ)} {r : Reader Cell Val}
    (hrun : Run (Reading.Step jobs view id met) init past ⟨w, r⟩)
    (hwriters : Run (Writers.Step jobs) w wpast w') :
    ∃ past', Run (Reading.Step jobs view id met) init past' ⟨w', r⟩ :=
  Run.extend (fun w => (⟨w, r⟩ : Reading Tid Op ρ Cell Val)) hrun hwriters
    fun _ _ hmove => .writer hmove

omit [DecidableEq Tid] [DecidableEq Cell] [Fintype Cell] in
theorem readMet_copying {w : Writers Tid Op Segment ρ} {r : Reader Cell Val} {c : Cell}
    (hat : r.pc = .copying) (hleft : c ∈ r.left) : ReadMet w r := by
  refine ⟨fun hload => ?_, fun _ hcopied => ?_⟩
  · rw [hat] at hload
    cases hload
  · rw [hcopied] at hleft
    exact absurd hleft (Finset.notMem_empty c)

/-- While the writers wait, the reader copies what is left. -/
theorem reading_copied {init : Reading Tid Op ρ Cell Val} {w : Writers Tid Op Segment ρ}
    {r : Reader Cell Val} (hrun : Run (Reading.Step jobs view id ReadMet) init past ⟨w, r⟩)
    (hat : r.pc = .copying) :
    ∃ past', Run (Reading.Step jobs view id ReadMet) init past'
      ⟨w, { r with buf := r.left.piecewise (view (w.data.points id)) r.buf, left := ∅ }⟩ := by
  generalize hleft : r.left = left
  induction left using Finset.induction_on generalizing r past with
  | empty =>
      rw [Finset.piecewise_empty, ← hleft]
      exact ⟨past, hrun⟩
  | insert c left hc ih =>
      have htodo : c ∈ r.left := hleft ▸ Finset.mem_insert_self c left
      have hcopy := hrun.next (.reader (.copy c hat htodo) (readMet_copying hat htodo))
      have hrest := ih hcopy hat (by rw [hleft, Finset.erase_insert hc])
      rwa [Finset.piecewise_insert, Finset.update_piecewise_of_notMem _ _ _ hc]

end Runs

/-! ## The two runs of a fresh segment -/

/-- A reader of point `0` of a fresh segment, and one writer. -/
abbrev freshReading : Reading Unit WriterOp SectionResult PointField PointField.Val :=
  .start 0 0 (irtShmInitOwner 4 1 1) (IndurtdbPoint.zero).field

theorem irtPmReady_fresh : irtPmReady 0 (irtShmInitOwner 4 1 1) = true := by decide +kernel

/-- The first write to a fresh segment. -/
abbrev firstWrite : WriterOp := .write 0 1 [7, 0, 0, 0] 0 0 9

theorem firstWrite_runs : ∃ past, Run (Writers.Step WriterOp.job) freshReading.writers past
    (freshReading.writers.ran WriterOp.job () firstWrite) := by
  have hstart : Run (Writers.AllowedStep WriterOp.job fun _ _ => True) freshReading.writers _ _ :=
    .start
  obtain ⟨past, -, hrun⟩ :=
    Writers.run_alone () firstWrite hstart rfl (by decide +kernel) rfl trivial
  exact ⟨past, hrun.mono fun _ _ h => h.1⟩

/-- The write falls between two pieces of the copy: the check fails, and the second pass
returns the point as written. -/
theorem untorn_of_readMet_retried :
    ∃ (past : List (Reading Unit WriterOp SectionResult PointField PointField.Val)) (s : _),
      Run (Reading.Step WriterOp.job IndurtdbPoint.field 0 ReadMet) freshReading past s ∧
        s.reader.pc = .done ∧ s.reader.buf .value = 7 :: List.replicate 31 0 ∧
        s.reader.buf .timestampNs = 9 ∧ Untorn IndurtdbPoint.field 0 past s := by
  have hstart : Run (Reading.Step WriterOp.job IndurtdbPoint.field 0 ReadMet) freshReading _ _ :=
    .start
  have hcall := hstart.next (.reader (.call rfl irtPmReady_fresh) ⟨nofun, nofun⟩)
  have heven := hcall.next (.reader (.even rfl rfl) ⟨nofun, nofun⟩)
  have hpiece := heven.next (.reader (.copy .value rfl (Finset.mem_univ _))
    (readMet_copying rfl (Finset.mem_univ PointField.value)))
  obtain ⟨_, hsection⟩ := firstWrite_runs
  obtain ⟨_, hwritten⟩ := reading_extend hpiece hsection
  obtain ⟨_, hmixed⟩ := reading_copied hwritten rfl
  have hretry := hmixed.next (.reader (.check rfl rfl) ⟨nofun, fun _ _ h => absurd h (by decide)⟩)
  have hagain := hretry.next (.reader (.even rfl rfl) ⟨fun _ h => absurd h (by decide), nofun⟩)
  obtain ⟨_, hwhole⟩ := reading_copied hagain rfl
  have hdone := hwhole.next
    (.reader (.check rfl rfl) ⟨nofun, fun _ _ _ => Nat.lt_add_of_pos_right (by decide)⟩)
  exact ⟨_, _, hdone, rfl, by decide +kernel, by decide +kernel,
    untorn_of_readMet (by decide) hdone⟩

/-- A reader that meets the first write of a segment returns at once, with nothing
copied: the word is `1`, and so is the `s1` it starts from. -/
theorem not_untorn :
    ¬ ∀ (w₀ stats₀ : Nat) (seg₀ : Segment) (buf : (f : PointField) → f.Val)
        (past : List (Reading Unit WriterOp SectionResult PointField PointField.Val)) (s : _),
      w₀ < 2 ^ 64 →
      Run (Reading.Step WriterOp.job IndurtdbPoint.field 0 fun _ _ => True)
        (Reading.start w₀ stats₀ seg₀ buf) past s →
      Untorn IndurtdbPoint.field 0 past s := by
  intro hall
  have hstart : Run (Reading.Step WriterOp.job IndurtdbPoint.field 0 fun _ _ => True)
      freshReading _ _ := .start
  have hready : (WriterOp.setQuality 0 1).job.ready (irtShmInitOwner 4 1 1) = true :=
    irtPmReady_fresh
  have hcall := hstart.next (.writer (.call () (.setQuality 0 1) rfl hready))
  have hload := hcall.next (.writer (.spin () rfl rfl))
  have henter := hload.next (.writer (.enter () rfl rfl rfl))
  have hread := henter.next (.reader (.call rfl irtPmReady_fresh) trivial)
  have hodd := hread.next (.reader (.odd rfl rfl) trivial)
  obtain ⟨hcopied, -⟩ := hall 0 0 (irtShmInitOwner 4 1 1) _ _ _ (by decide) hodd rfl
  exact absurd hcopied (by decide)

end InduRtdb.Core
