/-
  Spec/Sections.lean --- critical sections, one after the other.

  What the write lock is for: a shared state that at most one operation works on
  at a time.  The holder is a single optional field, so two holders cannot be
  expressed.  Each operation runs its body to the end and leaves a result; the
  history says what the shared state must be whenever nobody holds the lock.
-/
import InduRtdb.Lib.Run

set_option autoImplicit false

namespace InduRtdb.Spec

open InduRtdb.Lib

/-- The shared state, who works on it with what is left of the body, and the
sections that have ended, in their order. -/
structure Sections (Tid Op σ ρ : Type) where
  data : σ
  holder : Option (Tid × Op × Prog σ ρ)
  log : List (Op × ρ)

namespace Sections

variable {Tid Op σ ρ : Type} {body : Op → Prog σ ρ}

/-- One step of one section. -/
inductive Step (body : Op → Prog σ ρ) : Sections Tid Op σ ρ → Sections Tid Op σ ρ → Prop where
  | enter {s} (t : Tid) (op : Op) (free : s.holder = none) :
      Step body s { s with holder := some (t, op, body op) }
  | work {s} {t : Tid} {op : Op} {rest : Prog σ ρ} (held : s.holder = some (t, op, rest)) :
      Step body s
        { s with data := (rest.step s.data).2, holder := some (t, op, (rest.step s.data).1) }
  | leave {s} {t : Tid} {op : Op} {result : ρ} (held : s.holder = some (t, op, .ret result)) :
      Step body s { s with holder := none, log := s.log ++ [(op, result)] }

/-! ## Counting sections -/

/-- Sections begun so far. -/
def begun (s : Sections Tid Op σ ρ) : Nat :=
  s.log.length + if s.holder.isSome then 1 else 0

/-- Beginnings and ends so far. -/
def count (s : Sections Tid Op σ ρ) : Nat := s.begun + s.log.length

theorem begun_of_free {s : Sections Tid Op σ ρ} (h : s.holder = none) :
    s.begun = s.log.length := by
  simp [begun, h]

theorem begun_of_held {s : Sections Tid Op σ ρ} {h : Tid × Op × Prog σ ρ}
    (hheld : s.holder = some h) : s.begun = s.log.length + 1 := by
  simp [begun, hheld]

/-- The count is odd exactly while somebody is inside. -/
theorem count_odd_iff (s : Sections Tid Op σ ρ) : s.count % 2 = 1 ↔ s.holder.isSome := by
  cases hheld : s.holder with
  | none =>
      rw [count, begun_of_free hheld]
      simp
      omega
  | some h =>
      rw [count, begun_of_held hheld]
      simp
      omega

/-! ## What the shared state holds -/

/-- The history, run from `data`: every section starts where the one before it
ended, meets the condition `allow` there, and returns the result recorded. -/
inductive Serial (body : Op → Prog σ ρ) (allow : Op → σ → Prop) (data : σ) :
    List (Op × ρ) → σ → Prop where
  | nil : Serial body allow data [] data
  | snoc {log : List (Op × ρ)} {before after : σ} {op : Op} {result : ρ}
      (past : Serial body allow data log before) (met : allow op before)
      (ran : (body op).run before = (result, after)) :
      Serial body allow data (log ++ [(op, result)]) after

/-- The shared state is what the history gives; during a section, what is left of
the body ends as the whole body would have ended from there. -/
def SerialInv (body : Op → Prog σ ρ) (allow : Op → σ → Prop) (data : σ)
    (s : Sections Tid Op σ ρ) : Prop :=
  match s.holder with
  | none => Serial body allow data s.log s.data
  | some (_, op, rest) =>
      ∃ before, Serial body allow data s.log before ∧ allow op before ∧
        rest.run s.data = (body op).run before

/-- A section may begin only where it is allowed. -/
def EntersAllowed (allow : Op → σ → Prop) (s s' : Sections Tid Op σ ρ) : Prop :=
  ∀ t op rest, s.holder = none → s'.holder = some (t, op, rest) → allow op s.data

theorem Step.serialInv {allow : Op → σ → Prop} {data : σ} {s s' : Sections Tid Op σ ρ}
    (hstep : Step body s s') (hallowed : EntersAllowed allow s s')
    (hinv : SerialInv body allow data s) : SerialInv body allow data s' := by
  cases hstep with
  | enter t op hfree =>
      simp only [SerialInv, hfree] at hinv
      exact ⟨s.data, hinv, hallowed t op (body op) hfree rfl, rfl⟩
  | work hheld =>
      simp only [SerialInv, hheld] at hinv
      obtain ⟨before, hpast, hmet, hrun⟩ := hinv
      exact ⟨before, hpast, hmet, (Prog.run_step _ _).trans hrun⟩
  | leave hheld =>
      simp only [SerialInv, hheld] at hinv
      obtain ⟨before, hpast, hmet, hrun⟩ := hinv
      exact hpast.snoc hmet hrun.symm

/-! ## Sections that do nothing unless they succeed -/

/-- The sections that succeeded, applied in their order. -/
def applied (body : Op → Prog σ ρ) (success : ρ → Bool) (log : List (Op × ρ)) (data : σ) : σ :=
  (log.filter fun entry => success entry.2).foldl (fun d entry => ((body entry.1).run d).2) data

/-- Run from `data`, the program succeeds or changes nothing on its way. -/
def Clean (success : ρ → Bool) (p : Prog σ ρ) (data : σ) : Prop :=
  success (p.run data).1 = false → p.Still data

/-- Whoever is inside changes something only on the way to a success. -/
def CleanInv (success : ρ → Bool) (s : Sections Tid Op σ ρ) : Prop :=
  ∀ t op rest, s.holder = some (t, op, rest) → Clean success rest s.data

theorem Clean.step {success : ρ → Bool} {p : Prog σ ρ} {data : σ} (h : Clean success p data) :
    Clean success (p.step data).1 (p.step data).2 := by
  intro hfails
  rw [Prog.run_step] at hfails
  obtain ⟨hsame, hstill⟩ := (h hfails).step
  rwa [hsame]

theorem Step.cleanInv {allow : Op → σ → Prop} {success : ρ → Bool}
    {s s' : Sections Tid Op σ ρ} (hstep : Step body s s') (hallowed : EntersAllowed allow s s')
    (hclean : ∀ op d, allow op d → Clean success (body op) d) (hinv : CleanInv success s) :
    CleanInv success s' := by
  intro t op rest hheld
  cases hstep with
  | enter t' op' hfree =>
      obtain ⟨-, rfl, rfl⟩ : t' = t ∧ op' = op ∧ body op' = rest := by simpa using hheld
      exact hclean op' s.data (hallowed t' op' _ hfree rfl)
  | @work t' op' rest' hheld' =>
      obtain ⟨-, -, rfl⟩ : t' = t ∧ op' = op ∧ (rest'.step s.data).1 = rest := by simpa using hheld
      exact (hinv t' op' rest' hheld').step
  | leave => simp at hheld

/-- If every section that did not succeed changed nothing, the state is the
sequential application of those that did. -/
theorem Serial.applied {allow : Op → σ → Prop} {success : ρ → Bool} {data after : σ}
    {log : List (Op × ρ)} (hserial : Serial body allow data log after)
    (hclean : ∀ op d, allow op d → Clean success (body op) d) :
    after = applied body success log data := by
  induction hserial with
  | nil => rfl
  | @snoc log before after op result _ hmet hran ih =>
      have hlast := hclean op before hmet
      simp only [Clean, hran] at hlast
      simp only [Sections.applied, List.filter_append, List.foldl_append] at ih ⊢
      rw [← ih]
      cases hsuccess : success result with
      | false =>
          have hsame := (hlast hsuccess).run_eq
          rw [hran] at hsame
          simpa [hsuccess] using hsame
      | true => simp [hsuccess, hran]

end Sections

end InduRtdb.Spec
