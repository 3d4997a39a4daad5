/-
  Lib/Reads.lean --- programs that only read, one named access at a time.

  An access `a` yields a value of type `V a`; which value, an environment says.  The
  environment may change from one access to the next, so what a program returns is
  only meaningful against a fixed one (`run`); what it may touch (`Within`) follows
  from what each access can yield.
-/
import Mathlib.Logic.Basic

set_option autoImplicit false

namespace InduRtdb.Lib

/-- A program that reads and ends with a result. -/
inductive Reads (A : Type) (V : A → Type) (α : Type) where
  | ret (result : α)
  | get (a : A) (k : V a → Reads A V α)

namespace Reads

variable {A : Type} {V : A → Type} {α β : Type}

/-- The result in an environment that does not change. -/
def run (env : (a : A) → V a) : Reads A V α → α
  | ret result => result
  | get a k => (k (env a)).run env

@[simp] theorem run_ret (env : (a : A) → V a) (result : α) :
    (ret result : Reads A V α).run env = result := rfl

@[simp] theorem run_get (env : (a : A) → V a) (a : A) (k : V a → Reads A V α) :
    (get a k).run env = (k (env a)).run env := rfl

/-- One program after the other. -/
def bind : Reads A V α → (α → Reads A V β) → Reads A V β
  | ret result, next => next result
  | get a k, next => get a fun v => (k v).bind next

@[simp] theorem run_bind (env : (a : A) → V a) (p : Reads A V α) (next : α → Reads A V β) :
    (p.bind next).run env = (next (p.run env)).run env := by
  induction p with
  | ret result => rfl
  | get a k ih => exact ih (env a)

/-- Whatever valid values the accesses yield, the program makes none but the allowed
ones. -/
def Within (allowed : A → Prop) (valid : (a : A) → V a → Prop) : Reads A V α → Prop
  | ret _ => True
  | get a k => allowed a ∧ ∀ v, valid a v → (k v).Within allowed valid

variable {allowed : A → Prop} {valid : (a : A) → V a → Prop}

theorem within_get {a : A} {k : V a → Reads A V α} :
    (get a k).Within allowed valid ↔ allowed a ∧ ∀ v, valid a v → (k v).Within allowed valid :=
  Iff.rfl

theorem Within.bind {p : Reads A V α} {next : α → Reads A V β} (h : p.Within allowed valid)
    (hnext : ∀ result, (next result).Within allowed valid) :
    (p.bind next).Within allowed valid := by
  induction p with
  | ret result => exact hnext result
  | get a k ih => exact ⟨h.1, fun v hv => ih v (h.2 v hv)⟩

end Reads

end InduRtdb.Lib
