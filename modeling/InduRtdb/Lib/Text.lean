/-
  Lib/Text.lean --- blanks at the ends of a text, and decimal numerals.

  `trim p` takes off what is blank for `p` at both ends.  A numeral is a text of
  decimal digits; `boundedDecimal` reads one digit by digit and gives up past a bound.
-/
import Mathlib.Data.List.DropRight
import Mathlib.Data.Nat.Digits.Defs

set_option autoImplicit false

namespace InduRtdb.Lib

/-! ## Blanks -/

section

variable {α : Type} {p : α → Bool} {pre l post : List α}

/-- The text without the blanks at its ends. -/
def trim (p : α → Bool) (l : List α) : List α := (l.dropWhile p).rdropWhile p

theorem dropWhile_append_of_all (h : ∀ c ∈ pre, p c = true) (l : List α) :
    (pre ++ l).dropWhile p = l.dropWhile p := by
  rw [List.dropWhile_append, List.dropWhile_eq_nil_iff.mpr h]
  rfl

theorem rdropWhile_append_of_all (h : ∀ c ∈ post, p c = true) (l : List α) :
    (l ++ post).rdropWhile p = l.rdropWhile p := by
  rw [List.rdropWhile, List.rdropWhile, List.reverse_append, dropWhile_append_of_all]
  exact fun c hc => h c (List.mem_reverse.mp hc)

theorem trim_append_left (h : ∀ c ∈ pre, p c = true) (l : List α) :
    trim p (pre ++ l) = trim p l := by
  rw [trim, dropWhile_append_of_all h, trim]

theorem trim_eq_nil_iff : trim p l = [] ↔ ∀ c ∈ l, p c = true := by
  rw [trim, List.rdropWhile_eq_nil_iff]
  constructor
  · intro h
    have hnil : l.dropWhile p = [] := by
      by_contra hne
      exact absurd (h _ (List.head_mem hne)) (by simpa using List.head_dropWhile_not p hne)
    exact List.dropWhile_eq_nil_iff.mp hnil
  · intro h c hc
    exact h c ((List.dropWhile_suffix p).subset hc)

theorem trim_append_right (h : ∀ c ∈ post, p c = true) (l : List α) :
    trim p (l ++ post) = trim p l := by
  rw [trim, trim, List.dropWhile_append]
  split
  case isTrue hnil =>
    have hall : List.dropWhile p post = [] := List.dropWhile_eq_nil_iff.mpr h
    rw [hall, List.isEmpty_iff.mp hnil]
  case isFalse => exact rdropWhile_append_of_all h _

/-- Blanks at the end are cut no further than a character that is none. -/
theorem rdropWhile_append_cons {c : α} (hc : p c = false) (l m : List α) :
    (l ++ c :: m).rdropWhile p = l ++ c :: m.rdropWhile p := by
  have hkept : (c :: l.reverse).dropWhile p = c :: l.reverse := by
    rw [List.dropWhile_cons, hc]
    rfl
  rw [List.rdropWhile, List.rdropWhile, List.reverse_append, List.reverse_cons,
    List.append_assoc, List.singleton_append, List.dropWhile_append]
  split
  case isTrue hnil =>
    rw [hkept, List.isEmpty_iff.mp hnil]
    simp
  case isFalse => simp

/-- A text that does not end with a blank stands in front of the blanks at the end. -/
theorem prefix_rdropWhile_iff {m : List α} {c : α} (hc : p c = false) :
    m ++ [c] <+: l.rdropWhile p ↔ m ++ [c] <+: l := by
  constructor
  · exact fun h => h.trans (List.rdropWhile_prefix p l)
  · rintro ⟨rest, rfl⟩
    rw [List.append_assoc, List.singleton_append, rdropWhile_append_cons hc]
    exact ⟨rest.rdropWhile p, by simp⟩

/-- A beginning of a text without the blanks in front. -/
theorem dropWhile_starts {m : List α} (h : m <+: l) : m.dropWhile p <+: l.dropWhile p := by
  induction m generalizing l with
  | nil => exact List.nil_prefix
  | cons c m ih =>
      obtain ⟨rest, rfl⟩ := h
      rw [List.cons_append, List.dropWhile_cons, List.dropWhile_cons]
      split
      case isTrue => exact ih ⟨rest, rfl⟩
      case isFalse => exact ⟨rest, rfl⟩

theorem trim_rdropWhile (l : List α) : trim p (l.rdropWhile p) = trim p l := by
  conv_rhs => rw [← List.rdropWhile_append_rtakeWhile (p := p) (l := l)]
  exact (trim_append_right (fun c hc => List.mem_rtakeWhile_imp hc) _).symm

theorem trim_of_head (hhead : ∀ c, l.head? = some c → p c = false) : trim p l = l.rdropWhile p := by
  cases l with
  | nil => rfl
  | cons c l => rw [trim, List.dropWhile_cons, hhead c rfl]; rfl

/-- A text that neither begins nor ends with a blank. -/
theorem trim_eq_self (hhead : ∀ c, l.head? = some c → p c = false)
    (hlast : ∀ c, l.getLast? = some c → p c = false) : trim p l = l := by
  rw [trim_of_head hhead, List.rdropWhile_eq_self_iff]
  intro hne
  rw [hlast _ (List.getLast?_eq_getLast_of_ne_nil hne)]
  exact Bool.noConfusion

end

/-- The bytes of a text of ASCII characters. -/
def ascii (s : String) : List UInt8 := s.toList.map fun c => UInt8.ofNat c.toNat

/-! ## Numerals -/

/-- `'0' <= c && c <= '9'`. -/
def isDigit (c : UInt8) : Bool := 48 ≤ c && c ≤ 57

/-- The value of a digit. -/
def digitVal (c : UInt8) : Nat := c.toNat - 48

/-- The value of a text of digits read behind digits of value `v`. -/
def decimalFrom (v : Nat) (digits : List UInt8) : Nat :=
  digits.foldl (fun v c => v * 10 + digitVal c) v

/-- The text is a decimal numeral of value `n`. -/
structure Numeral (text : List UInt8) (n : Nat) : Prop where
  ne_nil : text ≠ []
  digits : ∀ c ∈ text, isDigit c = true
  value : decimalFrom 0 text = n

/-- A decimal numeral of 32 bits. -/
def Numeral32 (text : List UInt8) (n : Nat) : Prop := Numeral text n ∧ n < 2 ^ 32

theorem le_decimalFrom (v : Nat) (digits : List UInt8) : v ≤ decimalFrom v digits := by
  induction digits generalizing v with
  | nil => exact Nat.le_refl v
  | cons c digits ih => exact Nat.le_trans (by omega) (ih (v * 10 + digitVal c))

theorem Numeral.unique {text : List UInt8} {m n : Nat} (h : Numeral text m)
    (h' : Numeral text n) : m = n := h.value.symm.trans h'.value

/-- Digits are read one by one, and the reading fails past the bound. -/
def boundedDecimal (bound : Nat) : Nat → List UInt8 → Option Nat
  | v, [] => some v
  | v, c :: rest =>
      if ¬ isDigit c then none
      else
        let v := v * 10 + digitVal c
        if bound < v then none else boundedDecimal bound v rest

theorem boundedDecimal_eq_some_iff {bound v n : Nat} {text : List UInt8} (hv : v ≤ bound) :
    boundedDecimal bound v text = some n ↔
      (∀ c ∈ text, isDigit c = true) ∧ decimalFrom v text = n ∧ n ≤ bound := by
  induction text generalizing v with
  | nil =>
      constructor
      · rintro ⟨⟩
        exact ⟨fun c hc => absurd hc List.not_mem_nil, rfl, hv⟩
      · rintro ⟨-, rfl, -⟩
        rfl
  | cons c rest ih =>
      have hvalue : decimalFrom v (c :: rest) = decimalFrom (v * 10 + digitVal c) rest := rfl
      rw [boundedDecimal, hvalue]
      split
      case isTrue hc =>
        refine iff_of_false (by simp) fun h => hc (h.1 c List.mem_cons_self)
      case isFalse hc =>
        dsimp only
        split
        case isTrue hpast =>
          refine iff_of_false (by simp) ?_
          rintro ⟨-, rfl, hle⟩
          have := le_decimalFrom (v * 10 + digitVal c) rest
          omega
        case isFalse hle =>
          rw [ih (Nat.not_lt.mp hle), List.forall_mem_cons]
          exact ⟨fun h => ⟨⟨not_not.mp hc, h.1⟩, h.2⟩, fun h => ⟨h.1.2, h.2⟩⟩

end InduRtdb.Lib
