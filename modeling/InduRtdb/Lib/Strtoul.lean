/-
  Lib/Strtoul.lean --- `strtoul` of ISO C with an `unsigned long` of 64 bits.

  White space and a sign are skipped, digits are read as far as they go, and a number
  that is too large gives the largest one.  With base 0 a prefix selects the base.
-/
import InduRtdb.Lib.Text
import Mathlib.Data.Nat.Digits.Lemmas

set_option autoImplicit false

namespace InduRtdb.Lib

/-- `isspace` of the C locale. -/
def isSpace (c : UInt8) : Bool := c = 32 || (9 ≤ c && c ≤ 13)

/-- The value of a digit or letter. -/
def digitOf (c : UInt8) : Nat :=
  if 48 ≤ c ∧ c ≤ 57 then c.toNat - 48
  else if 97 ≤ c ∧ c ≤ 122 then c.toNat - 87
  else if 65 ≤ c ∧ c ≤ 90 then c.toNat - 55
  else 36

/-- The character is a digit in the base. -/
def isDigitIn (base : Nat) (c : UInt8) : Bool := digitOf c < base

/-- What `strtoul` returns, what is left of the text, and whether `errno` is `ERANGE`. -/
structure Strtoul where
  value : Nat
  rest : List UInt8
  erange : Bool

/-- The sign, and what stands behind it. -/
def strtoulSign : List UInt8 → Bool × List UInt8
  | 45 :: rest => (true, rest)
  | 43 :: rest => (false, rest)
  | text => (false, text)

/-- The base in use, and the digits with what stands behind them. -/
def strtoulBase (base : Nat) (text : List UInt8) : Nat × List UInt8 :=
  match base, text with
  | 0, 48 :: x :: d :: rest =>
      if (x = 120 ∨ x = 88) ∧ isDigitIn 16 d then (16, d :: rest) else (8, 48 :: x :: d :: rest)
  | 0, 48 :: rest => (8, 48 :: rest)
  | 0, text => (10, text)
  | base, text => (base, text)

/-- `strtoul(s, &end, base)`. -/
def strtoul (base : Nat) (s : List UInt8) : Strtoul :=
  let (negative, unsigned) := strtoulSign (s.dropWhile isSpace)
  let (base, text) := strtoulBase base unsigned
  let digits := text.takeWhile (isDigitIn base)
  if digits.isEmpty then ⟨0, s, false⟩
  else
    let n := digits.foldl (fun v c => v * base + digitOf c) 0
    let rest := text.dropWhile (isDigitIn base)
    if 2 ^ 64 ≤ n then ⟨2 ^ 64 - 1, rest, true⟩
    else ⟨if negative then (2 ^ 64 - n) % 2 ^ 64 else n, rest, false⟩

/-- `strtoull`: an `unsigned long long` has 64 bits as well. -/
abbrev strtoull : Nat → List UInt8 → Strtoul := strtoul

/-! ## Decimal numerals -/

theorem isDigit_iff (c : UInt8) : isDigit c = true ↔ 48 ≤ c.toNat ∧ c.toNat ≤ 57 := by
  simp [isDigit, UInt8.le_iff_toNat_le]

theorem digitOf_of_isDigit {c : UInt8} (h : isDigit c = true) : digitOf c = digitVal c := by
  have hrange : 48 ≤ c ∧ c ≤ 57 := by simpa [isDigit] using h
  rw [digitOf, if_pos hrange, digitVal]

theorem isDigitIn_ten (c : UInt8) : isDigitIn 10 c = isDigit c := by
  rw [Bool.eq_iff_iff, isDigitIn, decide_eq_true_eq, isDigit_iff, digitOf]
  simp only [UInt8.le_iff_toNat_le]
  have h48 : (48 : UInt8).toNat = 48 := rfl
  have h57 : (57 : UInt8).toNat = 57 := rfl
  have h97 : (97 : UInt8).toNat = 97 := rfl
  have h122 : (122 : UInt8).toNat = 122 := rfl
  have h65 : (65 : UInt8).toNat = 65 := rfl
  have h90 : (90 : UInt8).toNat = 90 := rfl
  rw [h48, h57, h97, h122, h65, h90]
  split
  case isTrue => omega
  case isFalse => split <;> (try split) <;> omega

theorem foldl_digitOf {digits : List UInt8} (h : ∀ c ∈ digits, isDigit c = true) (v : Nat) :
    digits.foldl (fun v c => v * 10 + digitOf c) v = decimalFrom v digits := by
  induction digits generalizing v with
  | nil => rfl
  | cons c digits ih =>
      rw [List.foldl_cons, digitOf_of_isDigit (h c List.mem_cons_self)]
      exact ih (fun d hd => h d (List.mem_cons_of_mem c hd)) _

theorem not_isSpace_of_isDigit {c : UInt8} (h : isDigit c = true) : isSpace c = false := by
  rw [isDigit_iff] at h
  rw [Bool.eq_false_iff]
  intro hspace
  simp only [isSpace, Bool.or_eq_true, decide_eq_true_eq, Bool.and_eq_true,
    UInt8.le_iff_toNat_le] at hspace
  have h13 : (13 : UInt8).toNat = 13 := rfl
  rw [h13] at hspace
  rcases hspace with rfl | hspace
  · exact absurd h (by decide)
  · omega

/-! ## Texts that are read whole -/

/-- A sign, or none; and whether it is a minus sign. -/
inductive SignText : Bool → List UInt8 → Prop
  | absent : SignText false []
  | plus : SignText false [43]
  | minus : SignText true [45]

/-- White space and a sign in front of a numeral. -/
inductive SignedNumeral : List UInt8 → Bool → Nat → Prop
  | mk {blanks sign digits : List UInt8} {negative : Bool} {n : Nat}
      (spaces : ∀ c ∈ blanks, isSpace c = true) (signed : SignText negative sign)
      (numeral : Numeral digits n) : SignedNumeral (blanks ++ (sign ++ digits)) negative n

/-- The number below `2 ^ 64` that is read of a signed one. -/
def signedValue (negative : Bool) (n : Nat) : Nat :=
  if negative then (2 ^ 64 - n) % 2 ^ 64 else n

/-- It is a number of 32 bits. -/
def ReadsBelow (negative : Bool) (n : Nat) : Prop :=
  if negative then n = 0 ∨ 2 ^ 64 - 2 ^ 32 < n ∧ n < 2 ^ 64 else n < 2 ^ 32

theorem Numeral.head {text : List UInt8} {n : Nat} (h : Numeral text n) :
    ∃ c q, text = c :: q ∧ isDigit c = true := by
  obtain ⟨c, q, rfl⟩ := List.exists_cons_of_ne_nil h.ne_nil
  exact ⟨c, q, rfl, h.digits c List.mem_cons_self⟩

theorem SignedNumeral.ne_nil {text : List UInt8} {negative : Bool} {n : Nat}
    (h : SignedNumeral text negative n) : text ≠ [] := by
  cases h with
  | mk _ _ hnumeral =>
      intro hnil
      exact hnumeral.ne_nil (List.append_eq_nil_iff.mp (List.append_eq_nil_iff.mp hnil).2).2

/-- No white space is left in front of a sign or a digit. -/
theorem SignText.dropWhile_eq {negative : Bool} {sign digits : List UInt8} {n : Nat}
    (h : SignText negative sign) (hnumeral : Numeral digits n) :
    (sign ++ digits).dropWhile isSpace = sign ++ digits := by
  cases h with
  | absent =>
      obtain ⟨c, q, rfl, hdigit⟩ := hnumeral.head
      rw [List.nil_append, List.dropWhile_cons, not_isSpace_of_isDigit hdigit]
      rfl
  | plus => rfl
  | minus => rfl

/-- The sign is told from the digits. -/
theorem SignText.strtoulSign_eq {negative : Bool} {sign digits : List UInt8} {n : Nat}
    (h : SignText negative sign) (hnumeral : Numeral digits n) :
    strtoulSign (sign ++ digits) = (negative, digits) := by
  cases h with
  | absent =>
      obtain ⟨c, q, rfl, hdigit⟩ := hnumeral.head
      have hrange := (isDigit_iff c).mp hdigit
      rw [List.nil_append]
      unfold strtoulSign
      split
      case h_1 heq =>
        rw [(List.cons.inj heq).1] at hrange
        exact absurd hrange (by decide)
      case h_2 heq =>
        rw [(List.cons.inj heq).1] at hrange
        exact absurd hrange (by decide)
      case h_3 => rfl
  | plus => rfl
  | minus => rfl

/-- What is told is a sign, and the text behind it. -/
theorem strtoulSign_spec (text : List UInt8) :
    ∃ sign, SignText (strtoulSign text).1 sign ∧ text = sign ++ (strtoulSign text).2 := by
  unfold strtoulSign
  split
  case h_1 => exact ⟨[45], .minus, rfl⟩
  case h_2 => exact ⟨[43], .plus, rfl⟩
  case h_3 => exact ⟨[], .absent, rfl⟩

theorem strtoulBase_ten (text : List UInt8) : strtoulBase 10 text = (10, text) := rfl

/-- A signed numeral is read whole, modulo `2 ^ 64` where it fits. -/
theorem SignedNumeral.strtoul_eq {text : List UInt8} {negative : Bool} {n : Nat}
    (h : SignedNumeral text negative n) :
    strtoul 10 text =
      if 2 ^ 64 ≤ n then ⟨2 ^ 64 - 1, [], true⟩ else ⟨signedValue negative n, [], false⟩ := by
  cases h with
  | mk spaces signed hnumeral =>
      rename_i blanks sign digits
      have hskip := (dropWhile_append_of_all spaces _).trans (signed.dropWhile_eq hnumeral)
      have htake : digits.takeWhile (isDigitIn 10) = digits :=
        List.takeWhile_eq_self_iff.mpr fun d hd => by rw [isDigitIn_ten, hnumeral.digits d hd]
      have hdrop : digits.dropWhile (isDigitIn 10) = [] :=
        List.dropWhile_eq_nil_iff.mpr fun d hd => by rw [isDigitIn_ten, hnumeral.digits d hd]
      have hsome : ¬ digits.isEmpty = true := fun hnil => hnumeral.ne_nil (List.isEmpty_iff.mp hnil)
      simp only [strtoul, hskip, signed.strtoulSign_eq hnumeral, strtoulBase_ten, htake, hdrop,
        foldl_digitOf hnumeral.digits, hnumeral.value]
      rw [if_neg hsome]
      rfl

/-- Nothing else is read whole. -/
theorem signedNumeral_of_strtoul {text : List UInt8} (hsome : (strtoul 10 text).rest ≠ text)
    (hwhole : (strtoul 10 text).rest = []) : ∃ negative n, SignedNumeral text negative n := by
  obtain ⟨sign, hsign, htext⟩ := strtoulSign_spec (text.dropWhile isSpace)
  obtain ⟨negative, digits, heq⟩ : ∃ negative digits,
      strtoulSign (text.dropWhile isSpace) = (negative, digits) := ⟨_, _, rfl⟩
  rw [heq] at hsign htext
  simp only [strtoul, heq, strtoulBase_ten] at hsome hwhole
  by_cases hnone : (digits.takeWhile (isDigitIn 10)).isEmpty = true
  · rw [if_pos hnone] at hsome
    exact absurd rfl hsome
  rw [if_neg hnone] at hwhole
  have hrest : digits.dropWhile (isDigitIn 10) = [] := by
    split at hwhole
    · exact hwhole
    · exact hwhole
  have hdigits : ∀ c ∈ digits, isDigit c = true := fun c hc =>
    (isDigitIn_ten c).symm.trans (List.dropWhile_eq_nil_iff.mp hrest c hc)
  have hne : digits ≠ [] := by
    rintro rfl
    exact hnone rfl
  have hsplit : text = text.takeWhile isSpace ++ (sign ++ digits) := by
    rw [← htext]
    exact List.takeWhile_append_dropWhile.symm
  refine ⟨negative, decimalFrom 0 digits, ?_⟩
  rw [hsplit]
  exact .mk (fun c hc => List.mem_takeWhile_imp hc) hsign ⟨hne, hdigits, rfl⟩

theorem readsBelow_iff {negative : Bool} {n : Nat} :
    ReadsBelow negative n ↔ n < 2 ^ 64 ∧ signedValue negative n < 2 ^ 32 := by
  cases negative with
  | false =>
      change n < 2 ^ 32 ↔ n < 2 ^ 64 ∧ n < 2 ^ 32
      omega
  | true =>
      change n = 0 ∨ 2 ^ 64 - 2 ^ 32 < n ∧ n < 2 ^ 64 ↔
        n < 2 ^ 64 ∧ (2 ^ 64 - n) % 2 ^ 64 < 2 ^ 32
      omega

/-- What is read whole as a number of 32 bits. -/
theorem strtoul_below_iff {text : List UInt8} {v : Nat} :
    ((strtoul 10 text).rest ≠ text ∧ (strtoul 10 text).rest = []) ∧
        (strtoul 10 text).erange = false ∧ (strtoul 10 text).value = v ∧ v < 2 ^ 32 ↔
      ∃ negative n, SignedNumeral text negative n ∧ ReadsBelow negative n ∧
        signedValue negative n = v := by
  constructor
  · rintro ⟨⟨hsome, hwhole⟩, herange, hvalue, hlt⟩
    obtain ⟨negative, n, hsigned⟩ := signedNumeral_of_strtoul hsome hwhole
    rw [hsigned.strtoul_eq] at herange hvalue
    rcases Nat.lt_or_ge n (2 ^ 64) with hfits | hpast
    · rw [if_neg (Nat.not_le.mpr hfits)] at hvalue
      refine ⟨negative, n, hsigned, readsBelow_iff.mpr ⟨hfits, ?_⟩, hvalue⟩
      exact Nat.lt_of_le_of_lt (Nat.le_of_eq hvalue) hlt
    · rw [if_pos hpast] at herange
      cases herange
  · rintro ⟨negative, n, hsigned, hbelow, rfl⟩
    obtain ⟨hfits, hlt⟩ := readsBelow_iff.mp hbelow
    rw [hsigned.strtoul_eq, if_neg (Nat.not_le.mpr hfits)]
    exact ⟨⟨hsigned.ne_nil.symm, rfl⟩, rfl, rfl, hlt⟩

/-- A numeral is one without a sign, and nothing else of digits only is. -/
theorem signedNumeral_digits_iff {text : List UInt8} {negative : Bool} {n : Nat}
    (hdigits : ∀ c ∈ text, isDigit c = true) :
    SignedNumeral text negative n ↔ negative = false ∧ Numeral text n := by
  constructor
  · rintro ⟨spaces, signed, hnumeral⟩
    rename_i blanks sign digits
    obtain rfl : blanks = [] := by
      refine List.eq_nil_iff_forall_not_mem.mpr fun c hc => ?_
      have hdigit := hdigits c (List.mem_append_left _ hc)
      cases (not_isSpace_of_isDigit hdigit).symm.trans (spaces c hc)
    cases signed with
    | absent => exact ⟨rfl, hnumeral⟩
    | plus => exact absurd (hdigits 43 List.mem_cons_self) (by decide)
    | minus => exact absurd (hdigits 45 List.mem_cons_self) (by decide)
  · rintro ⟨rfl, hnumeral⟩
    exact .mk (fun c hc => absurd hc List.not_mem_nil) .absent hnumeral

/-- A text of digits is read as its value. -/
theorem strtoul_numeral {text : List UInt8} {n : Nat} (h : Numeral text n) (hn : n < 2 ^ 64) :
    strtoul 10 text = ⟨n, [], false⟩ := by
  have hsigned := (signedNumeral_digits_iff h.digits).mpr ⟨rfl, h⟩
  exact hsigned.strtoul_eq.trans (if_neg (Nat.not_le.mpr hn))

/-! ## Printed numbers -/

/-- The byte of a digit. -/
def digitByte (d : Nat) : UInt8 := UInt8.ofNat (48 + d)

/-- The decimal numeral of a number, without leading zeros. -/
def numeral (n : Nat) : List UInt8 :=
  if n = 0 then [48] else (Nat.digits 10 n).reverse.map digitByte

theorem toNat_digitByte {d : Nat} (h : d < 10) : (digitByte d).toNat = 48 + d :=
  UInt8.toNat_ofNat_of_lt (Nat.lt_of_lt_of_le (Nat.add_lt_add_left h 48) (by decide))

theorem numeral_value (n : Nat) : Numeral (numeral n) n := by
  rw [numeral]
  split
  case isTrue hzero =>
    subst hzero
    exact ⟨List.cons_ne_nil _ _, by decide +kernel, rfl⟩
  case isFalse hne =>
    have hlt : ∀ d ∈ Nat.digits 10 n, d < 10 := fun d hd => Nat.digits_lt_base (by decide) hd
    refine ⟨?_, ?_, ?_⟩
    · simpa [Nat.digits_eq_nil_iff_eq_zero] using hne
    · intro c hc
      obtain ⟨d, hd, rfl⟩ := List.mem_map.mp hc
      have := hlt d (List.mem_reverse.mp hd)
      rw [isDigit_iff, toNat_digitByte this]
      omega
    · have hvalue := Nat.ofDigits_digits 10 n
      rw [Nat.ofDigits_eq_foldr] at hvalue
      rw [decimalFrom, List.map_reverse, List.foldl_reverse, List.foldr_map]
      refine Eq.trans (List.foldr_ext _ _ _ fun d hd v => ?_) hvalue
      have hdigit := toNat_digitByte (hlt d hd)
      rw [digitVal, hdigit, Nat.cast_id]
      omega

/-- A number of 64 bits has 20 digits at most. -/
theorem length_numeral_le {n k : Nat} (hk : 0 < k) (h : n < 10 ^ k) : (numeral n).length ≤ k := by
  rw [numeral]
  split
  case isTrue => exact hk
  case isFalse =>
    rw [List.length_map, List.length_reverse]
    exact (Nat.digits_length_le_iff (by decide) n).mpr h

end InduRtdb.Lib
