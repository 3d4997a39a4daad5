/-
  Lib/Run.lean --- runs of a transition system, and programs that act on a shared
  state one load or store at a time.

  A run keeps the states it has passed.  A property of the last state and of the
  states before it is proved with `Run.invariant`; a program that is executed one
  action at a time, with nobody else touching the state, ends as it would have
  ended at once (`Prog.run_step`).
-/
import Mathlib.Logic.Function.Basic

set_option autoImplicit false

namespace InduRtdb.Lib

/-! ## Runs -/

/-- A run from `init`, with the states it has passed, the last one first. -/
inductive Run {σ : Type} (step : σ → σ → Prop) (init : σ) : List σ → σ → Prop where
  | start : Run step init [init] init
  | next {past : List σ} {s s' : σ} (run : Run step init past s) (move : step s s') :
      Run step init (s' :: past) s'

namespace Run

variable {σ : Type} {step : σ → σ → Prop} {init s : σ} {past : List σ}

/-- What holds at the start and is kept by every step holds at the end. -/
theorem invariant {P : List σ → σ → Prop} (hrun : Run step init past s) (hinit : P [init] init)
    (hstep : ∀ past s s', P past s → step s s' → P (s' :: past) s') : P past s := by
  induction hrun with
  | start => exact hinit
  | next _ hmove ih => exact hstep _ _ _ ih hmove

/-- The same for a property of the state alone. -/
theorem invariant_state {P : σ → Prop} (hrun : Run step init past s) (hinit : P init)
    (hstep : ∀ s s', P s → step s s' → P s') : P s :=
  hrun.invariant (P := fun _ s => P s) hinit fun _ s s' h hmove => hstep s s' h hmove

/-- One more step, to a state that is written out. -/
theorem nextTo (hrun : Run step init past s) (s' : σ) (hmove : step s s') :
    Run step init (s' :: past) s' := hrun.next hmove

/-- The state reached is one of those passed. -/
theorem last_mem (hrun : Run step init past s) : s ∈ past := by
  cases hrun with
  | start => exact List.mem_singleton.mpr rfl
  | next => exact List.mem_cons_self

/-- A run reaches every state it has passed. -/
theorem visited (hrun : Run step init past s) {p : σ} (hp : p ∈ past) :
    ∃ past', Run step init past' p := by
  induction hrun with
  | start =>
      obtain rfl := List.mem_singleton.mp hp
      exact ⟨_, .start⟩
  | @next past s s' hrun hmove ih =>
      rcases List.mem_cons.mp hp with rfl | hp
      · exact ⟨_, hrun.next hmove⟩
      · exact ih hp

/-- A run under a stronger rule is a run. -/
theorem mono {step' : σ → σ → Prop} (hrun : Run step init past s)
    (hsub : ∀ s s', step s s' → step' s s') : Run step' init past s := by
  induction hrun with
  | start => exact .start
  | next _ hmove ih => exact ih.next (hsub _ _ hmove)

/-- One component of a run is a run of its own, if every step moves it by a step of
its own or not at all. -/
theorem project {τ : Type} {step' : τ → τ → Prop} (f : σ → τ) (hrun : Run step init past s)
    (hstep : ∀ s s', step s s' → f s' = f s ∨ step' (f s) (f s')) :
    ∃ past', Run step' (f init) past' (f s) ∧ ∀ p, p ∈ past → f p ∈ past' := by
  induction hrun with
  | start =>
      refine ⟨_, .start, fun p hp => ?_⟩
      obtain rfl := List.mem_singleton.mp hp
      exact List.mem_singleton.mpr rfl
  | @next past s s' _ hmove ih =>
      obtain ⟨past', hrun', hsub⟩ := ih
      obtain hsame | hmoves := hstep s s' hmove
      · refine ⟨past', hsame ▸ hrun', fun p hp => ?_⟩
        rcases List.mem_cons.mp hp with rfl | hp
        · exact hsame ▸ hrun'.last_mem
        · exact hsub p hp
      · refine ⟨_, hrun'.next hmoves, fun p hp => ?_⟩
        rcases List.mem_cons.mp hp with rfl | hp
        · exact List.mem_cons_self
        · exact List.mem_cons_of_mem _ (hsub p hp)

/-- A run of one component goes on from where a run of the whole has come, if each of its
steps is a step of the whole. -/
theorem extend {τ : Type} {step' : τ → τ → Prop} {init' : τ} {past' : List τ} (f : σ → τ)
    (hwhole : Run step' init' past' (f init)) (hrun : Run step init past s)
    (hstep : ∀ s s', step s s' → step' (f s) (f s')) :
    ∃ past'', Run step' init' past'' (f s) := by
  induction hrun with
  | start => exact ⟨past', hwhole⟩
  | next _ hmove ih =>
      obtain ⟨_, hbefore⟩ := ih
      exact ⟨_, hbefore.next (hstep _ _ hmove)⟩

end Run

/-! ## Runs with events -/

/-- A run in which every step is an event: the events, the last one first, each with
the state it found. -/
inductive Trace {σ ε : Type} (enabled : σ → ε → Prop) (after : σ → ε → σ) (init : σ) :
    List (σ × ε) → σ → Prop where
  | start : Trace enabled after init [] init
  | next {past : List (σ × ε)} {s : σ} (run : Trace enabled after init past s) (e : ε)
      (can : enabled s e) : Trace enabled after init ((s, e) :: past) (after s e)

namespace Trace

variable {σ ε : Type} {enabled : σ → ε → Prop} {after : σ → ε → σ} {init s : σ}
  {past : List (σ × ε)}

/-- What holds at the start and is kept by every event holds at the end. -/
theorem invariant {P : List (σ × ε) → σ → Prop} (hrun : Trace enabled after init past s)
    (hinit : P [] init)
    (hstep : ∀ past s e, P past s → enabled s e → P ((s, e) :: past) (after s e)) : P past s := by
  induction hrun with
  | start => exact hinit
  | next _ e hcan ih => exact hstep _ _ e ih hcan

/-- The same for a property of the state alone. -/
theorem invariant_state {P : σ → Prop} (hrun : Trace enabled after init past s) (hinit : P init)
    (hstep : ∀ s e, P s → enabled s e → P (after s e)) : P s :=
  hrun.invariant (P := fun _ s => P s) hinit fun _ s e h hcan => hstep s e h hcan

/-- A run of its own led to every event of a run. -/
theorem before (hrun : Trace enabled after init past s) {p : σ × ε} (hp : p ∈ past) :
    ∃ past', Trace enabled after init past' p.1 ∧ enabled p.1 p.2 := by
  induction hrun with
  | start => cases hp
  | next hrun e hcan ih =>
      rcases List.mem_cons.mp hp with rfl | hp
      · exact ⟨_, hrun, hcan⟩
      · exact ih hp

/-- A run under a stronger rule is a run. -/
theorem mono {enabled' : σ → ε → Prop} (hrun : Trace enabled after init past s)
    (hsub : ∀ s e, enabled s e → enabled' s e) : Trace enabled' after init past s := by
  induction hrun with
  | start => exact .start
  | next _ e hcan ih => exact ih.next e (hsub _ e hcan)

/-- **A potential is spent.**  Where no event raises a potential, and every event of a kind
uses some of it up, there are no more of that kind than the potential at the start. -/
theorem countP_add_le (hrun : Trace enabled after init past s) {I : σ → Prop} (φ : σ → Nat)
    (spends : σ × ε → Bool) (hinit : I init) (hkeep : ∀ s e, I s → enabled s e → I (after s e))
    (hspend : ∀ s e, I s → enabled s e →
      (if spends (s, e) then 1 else 0) + φ (after s e) ≤ φ s) :
    past.countP spends + φ s ≤ φ init := by
  suffices h : I s ∧ past.countP spends + φ s ≤ φ init from h.2
  induction hrun with
  | start => exact ⟨hinit, Nat.le_of_eq (Nat.zero_add _)⟩
  | next _ e hcan ih =>
      obtain ⟨hI, hle⟩ := ih
      refine ⟨hkeep _ e hI hcan, ?_⟩
      have hstep := hspend _ e hI hcan
      rw [List.countP_cons]
      omega

/-- These events can follow one another. -/
def Follows (enabled : σ → ε → Prop) (after : σ → ε → σ) : List ε → σ → Prop
  | [], _ => True
  | e :: events, s => enabled s e ∧ Follows enabled after events (after s e)

instance decidableFollows [∀ s e, Decidable (enabled s e)] :
    ∀ (events : List ε) (s : σ), Decidable (Follows enabled after events s)
  | [], _ => .isTrue trivial
  | e :: events, s => @instDecidableAnd _ _ _ (decidableFollows events (after s e))

/-- The events, each with the state it finds, in front of those before. -/
def passed (after : σ → ε → σ) : List ε → σ → List (σ × ε) → List (σ × ε)
  | [], _, past => past
  | e :: events, s, past => passed after events (after s e) ((s, e) :: past)

/-- A run goes on with events that can follow one another. -/
theorem follow (events : List ε) : ∀ {past : List (σ × ε)} {s : σ},
    Trace enabled after init past s → Follows enabled after events s →
      Trace enabled after init (passed after events s past) (events.foldl after s) := by
  induction events with
  | nil => exact fun hrun _ => hrun
  | cons e events ih => exact fun hrun hfollows => ih (hrun.next e hfollows.1) hfollows.2

end Trace

/-! ## Programs -/

/-- A program that loads from a shared state, stores into it, and ends with a
result. -/
inductive Prog (σ ρ : Type) where
  | ret (result : ρ)
  | load (k : σ → Prog σ ρ)
  | store (f : σ → σ) (k : Prog σ ρ)

namespace Prog

variable {σ ρ : Type}

/-- The whole program at once: its result and the state it leaves. -/
def run : Prog σ ρ → σ → ρ × σ
  | ret result, s => (result, s)
  | load k, s => (k s).run s
  | store f k, s => k.run (f s)

/-- One action.  A program that has ended stays where it is. -/
def step : Prog σ ρ → σ → Prog σ ρ × σ
  | ret result, s => (ret result, s)
  | load k, s => (k s, s)
  | store f k, s => (k, f s)

@[simp] theorem run_ret (result : ρ) (s : σ) : (ret result : Prog σ ρ).run s = (result, s) := rfl

@[simp] theorem run_load (k : σ → Prog σ ρ) (s : σ) : (load k).run s = (k s).run s := rfl

@[simp] theorem run_store (f : σ → σ) (k : Prog σ ρ) (s : σ) : (store f k).run s = k.run (f s) :=
  rfl

/-- One action does not change where the program ends. -/
theorem run_step (p : Prog σ ρ) (s : σ) : (p.step s).1.run (p.step s).2 = p.run s := by
  cases p <;> rfl

/-- From here to its end, the program stores only what is there already. -/
def Still : Prog σ ρ → σ → Prop
  | ret _, _ => True
  | load k, s => (k s).Still s
  | store f k, s => f s = s ∧ k.Still s

@[simp] theorem still_ret (result : ρ) (s : σ) : (ret result : Prog σ ρ).Still s := trivial

@[simp] theorem still_load (k : σ → Prog σ ρ) (s : σ) : (load k).Still s ↔ (k s).Still s := Iff.rfl

@[simp] theorem still_store (f : σ → σ) (k : Prog σ ρ) (s : σ) :
    (store f k).Still s ↔ f s = s ∧ k.Still s := Iff.rfl

theorem Still.step {p : Prog σ ρ} {s : σ} (h : p.Still s) :
    (p.step s).2 = s ∧ (p.step s).1.Still s := by
  cases p with
  | ret result => exact ⟨rfl, trivial⟩
  | load k => exact ⟨rfl, h⟩
  | store f k => exact h

theorem Still.run_eq {p : Prog σ ρ} {s : σ} (h : p.Still s) : (p.run s).2 = s := by
  induction p with
  | ret result => rfl
  | load k ih => exact ih s h
  | store f k ih =>
      obtain ⟨hstore, hrest⟩ := h
      rw [run_store, hstore]
      exact ih hrest

/-- One program after the other. -/
def bind {τ : Type} : Prog σ ρ → (ρ → Prog σ τ) → Prog σ τ
  | ret result, next => next result
  | load k, next => load fun s => (k s).bind next
  | store f k, next => store f (k.bind next)

@[simp] theorem run_bind {τ : Type} (p : Prog σ ρ) (next : ρ → Prog σ τ) (s : σ) :
    (p.bind next).run s = (next (p.run s).1).run (p.run s).2 := by
  induction p generalizing s with
  | ret result => rfl
  | load k ih => exact ih s s
  | store f k ih => exact ih (f s)

/-- Every store of the program keeps `I`, started where `I` holds. -/
def Keeps (I : σ → Prop) : Prog σ ρ → Prop
  | ret _ => True
  | load k => ∀ s, I s → (k s).Keeps I
  | store f k => (∀ s, I s → I (f s)) ∧ k.Keeps I

variable {I : σ → Prop}

theorem keeps_load {k : σ → Prog σ ρ} : (load k).Keeps I ↔ ∀ s, I s → (k s).Keeps I := Iff.rfl

theorem Keeps.bind {τ : Type} {p : Prog σ ρ} {next : ρ → Prog σ τ} (h : p.Keeps I)
    (hnext : ∀ result, (next result).Keeps I) : (p.bind next).Keeps I := by
  induction p with
  | ret result => exact hnext result
  | load k ih => exact fun s hs => ih s (h s hs)
  | store f k ih => exact ⟨h.1, ih h.2⟩

theorem Keeps.step {p : Prog σ ρ} {s : σ} (h : p.Keeps I) (hs : I s) :
    I (p.step s).2 ∧ (p.step s).1.Keeps I := by
  cases p with
  | ret result => exact ⟨hs, trivial⟩
  | load k => exact ⟨hs, h s hs⟩
  | store f k => exact ⟨h.1 s hs, h.2⟩

end Prog

end InduRtdb.Lib
