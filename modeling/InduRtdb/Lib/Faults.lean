/-
  Lib/Faults.lean --- computations that fault instead of touching what they must
  not.

  `none` is the fault.  `Yields p safe x` says exactly when a computation faults
  and what it yields otherwise; the rules below build the condition of a program
  from those of its parts.
-/
import Mathlib.Logic.Basic

set_option autoImplicit false

namespace InduRtdb.Lib

/-- `p` yields `x` where `safe` holds, and faults everywhere else. -/
structure Yields {α : Type} (p : Option α) (safe : Prop) (x : α) : Prop where
  eq_some : safe → p = some x
  eq_none : ¬ safe → p = none

namespace Yields

variable {α β : Type} {p q : Option α} {f : α → Option β} {safe safe' : Prop} {x y : α} {z : β}

theorem congr (h : Yields p safe x) (hiff : safe ↔ safe') : Yields p safe' x :=
  ⟨fun hsafe => h.eq_some (hiff.mpr hsafe), fun hnot => h.eq_none fun hsafe => hnot (hiff.mp hsafe)⟩

/-- A computation that touches nothing. -/
theorem pure (x : α) : Yields (some x) True x := ⟨fun _ => rfl, fun hnot => absurd trivial hnot⟩

/-- A computation that touches nothing, where the condition holds anyway. -/
theorem done (x : α) (hsafe : safe) : Yields (some x) safe x :=
  (pure x).congr (iff_of_true trivial hsafe)

theorem of_eq (h : p = some x) : Yields p True x := h ▸ pure x

/-- A test made before the access. -/
theorem guard {c : Prop} [Decidable c] (x : α) : Yields (if c then some x else none) c x :=
  ⟨fun hc => if_pos hc, fun hc => if_neg hc⟩

/-- One computation after another. -/
theorem bind (h : Yields p safe x) (hnext : safe → Yields (f x) safe' z) :
    Yields (p >>= f) (safe ∧ safe') z := by
  constructor
  · rintro ⟨hsafe, hsafe'⟩
    rw [h.eq_some hsafe]
    exact (hnext hsafe).eq_some hsafe'
  · intro hnot
    by_cases hsafe : safe
    · rw [h.eq_some hsafe]
      exact (hnext hsafe).eq_none fun hsafe' => hnot ⟨hsafe, hsafe'⟩
    · rw [h.eq_none hsafe]
      rfl

/-- The first computation cannot fault. -/
theorem bind_of_eq (h : p = some x) (hnext : Yields (f x) safe z) : Yields (p >>= f) safe z := by
  rw [h]
  exact hnext

/-- Two branches. -/
theorem ite {c : Prop} [Decidable c] (hthen : c → Yields p safe x)
    (helse : ¬ c → Yields q safe' y) :
    Yields (if c then p else q) ((c → safe) ∧ (¬ c → safe')) (if c then x else y) := by
  by_cases hc : c
  · rw [if_pos hc, if_pos hc]
    exact (hthen hc).congr ⟨fun hsafe => ⟨fun _ => hsafe, fun hnot => absurd hc hnot⟩,
      fun hsafe => hsafe.1 hc⟩
  · rw [if_neg hc, if_neg hc]
    exact (helse hc).congr ⟨fun hsafe => ⟨fun h => absurd h hc, fun _ => hsafe⟩,
      fun hsafe => hsafe.2 hc⟩

/-- A branch that ends at once. -/
theorem ite_done {c : Prop} [Decidable c] (helse : ¬ c → Yields q safe y) :
    Yields (if c then some x else q) (¬ c → safe) (if c then x else y) :=
  (ite (fun _ => pure x) helse).congr ⟨fun h => h.2, fun h => ⟨fun _ => trivial, h⟩⟩

end Yields

end InduRtdb.Lib
