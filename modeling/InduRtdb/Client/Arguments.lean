/-
  Client/Arguments.lean --- the numbers on the command lines of `rtdbd` and `irtcli`.

  Source: `rtdbd/src/rtdbd.c` (`parse_u32_cli`) and `client/src/irtcli_main.c` (`parse_u32`).

  Both are to take a text of decimal digits below 2^32 and nothing else.  They leave the
  reading to `strtoul` and `strtoull` and look at the end of the text and at the range;
  what these skip in front of the digits, and a negative number that wraps into the range,
  passes both.  A null pointer is `none`.
-/
import InduRtdb.Client.Irtcli
import InduRtdb.Daemon.Supervisor

set_option autoImplicit false

namespace InduRtdb.Client

open InduRtdb.Core InduRtdb.Daemon InduRtdb.Lib

/-! ## The two parsers -/

/-- `parse_u32_cli`: its result, and `*out` behind it. -/
def parseU32CliInto (s : Option Getopt.Word) (out : Option UInt32) : Int × Option UInt32 :=
  match s, out with
  | none, out => (-1, out)
  | some _, none => (-1, none)
  | some s, some out =>
      if s.isEmpty then (-1, some out)
      else
        let v := strtoul 10 s
        if v.rest = s ∨ v.rest ≠ [] then (-1, some out)
        else if v.erange ∨ 0xFFFFFFFF < v.value then (-1, some out)
        else (0, some (UInt32.ofNat v.value))

/-- `parse_u32` of `irtcli`: its result, and `*out` behind it. -/
def parseU32 (s : Option CStr) (out : UInt32) : Int × UInt32 :=
  match s with
  | none => (-1, out)
  | some s =>
      if s.isEmpty then (-1, out)
      else
        let v := strtoull 10 s.bytes
        if v.erange ∨ v.rest = s.bytes ∨ v.rest ≠ [] then (-1, out)
        else if 0xFFFFFFFF < v.value then (-1, out)
        else (0, UInt32.ofNat v.value)

/-! ## What a strict parser does -/

/-- A strict parser succeeds on the decimal numerals of 32 bits, then leaves the value, and
else leaves what there was. -/
structure Strict (s : CStr) (before : Option UInt32) (answer : Int × Option UInt32) : Prop where
  succeeds : answer.1 = 0 ↔ ∃ n, Numeral32 s.bytes n
  value : ∀ n, Numeral32 s.bytes n → answer.2 = some (UInt32.ofNat n)
  unchanged : answer.1 ≠ 0 → answer.2 = before

/-- Both are strict on this text. -/
structure StrictNumbers (s : CStr) : Prop where
  daemon : ∀ out, Strict s (some out) (parseU32CliInto (some s.bytes) (some out))
  client : ∀ out, Strict s (some out) ((parseU32 (some s) out).map id some)

/-- The text is a number in the range for `strtoul`, and is not of digits only: white space or a
sign stands in front of them. -/
structure Loose (text : List UInt8) : Prop where
  other : ∃ c ∈ text, isDigit c = false
  reads : ∃ negative n, SignedNumeral text negative n ∧ ReadsBelow negative n

/-! ## What the parsers take -/

/-- Which texts `parse_u32_cli` takes. -/
theorem parseU32Cli_eq_some_iff {s : Getopt.Word} {v : UInt32} :
    parseU32Cli s = some v ↔ ∃ negative n, SignedNumeral s negative n ∧ ReadsBelow negative n ∧
      UInt32.ofNat (signedValue negative n) = v := by
  rw [parseU32Cli]
  split
  case isTrue hempty =>
    refine iff_of_false nofun ?_
    rintro ⟨negative, n, hsigned, -⟩
    exact hsigned.ne_nil (List.isEmpty_iff.mp hempty)
  case isFalse =>
    have hreads := @strtoul_below_iff s
    dsimp only
    split
    case isTrue hend =>
      refine iff_of_false nofun ?_
      rintro ⟨negative, n, hsigned, hbelow, -⟩
      obtain ⟨⟨hsome, hwhole⟩, -⟩ := hreads.mpr ⟨negative, n, hsigned, hbelow, rfl⟩
      exact hend.elim hsome fun hleft => hleft hwhole
    case isFalse hend =>
      obtain ⟨hsome, hwhole⟩ := not_or.mp hend
      split
      case isTrue hrange =>
        refine iff_of_false nofun ?_
        rintro ⟨negative, n, hsigned, hbelow, -⟩
        obtain ⟨-, herange, hvalue, hlt⟩ := hreads.mpr ⟨negative, n, hsigned, hbelow, rfl⟩
        rw [herange, hvalue] at hrange
        rcases hrange with hpast | hpast
        · cases hpast
        · omega
      case isFalse hrange =>
        obtain ⟨herange, hlt⟩ := not_or.mp hrange
        obtain ⟨negative, n, hsigned, hbelow, hvalue⟩ := hreads.mp
          ⟨⟨hsome, not_not.mp hwhole⟩, Bool.eq_false_iff.mpr herange, rfl, by omega⟩
        constructor
        · rintro ⟨⟩
          exact ⟨negative, n, hsigned, hbelow, by rw [hvalue]⟩
        · rintro ⟨negative', n', hsigned', hbelow', rfl⟩
          obtain ⟨-, -, hvalue', -⟩ := hreads.mpr ⟨negative', n', hsigned', hbelow', rfl⟩
          rw [hvalue']

/-- The options get what `parse_u32_cli` stores, and it stores nothing where it fails. -/
theorem parseU32CliInto_eq (s : Getopt.Word) (out : UInt32) :
    parseU32CliInto (some s) (some out) =
      match parseU32Cli s with
      | some v => (0, some v)
      | none => (-1, some out) := by
  rw [parseU32CliInto, parseU32Cli]
  split
  case isTrue => rfl
  case isFalse =>
    dsimp only
    split
    case isTrue => rfl
    case isFalse =>
      split
      case isTrue => rfl
      case isFalse => rfl

/-- `parse_u32` does the same with a text. -/
theorem parseU32_eq (s : CStr) (out : UInt32) :
    (parseU32 (some s) out).map id some = parseU32CliInto (some s.bytes) (some out) := by
  rw [parseU32, parseU32CliInto, CStr.isEmpty]
  split
  case isTrue => rfl
  case isFalse =>
    dsimp only
    by_cases hend : (strtoul 10 s.bytes).rest = s.bytes ∨ (strtoul 10 s.bytes).rest ≠ []
    · rw [if_pos hend, if_pos (.inr hend)]
      rfl
    by_cases herange : (strtoul 10 s.bytes).erange = true
    · rw [if_neg hend, if_pos (.inl herange), if_pos (.inl herange)]
      rfl
    rw [if_neg hend, if_neg (not_or.mpr ⟨herange, hend⟩)]
    by_cases hpast : 0xFFFFFFFF < (strtoul 10 s.bytes).value
    · rw [if_pos hpast, if_pos (.inr hpast)]
      rfl
    · rw [if_neg hpast, if_neg (not_or.mpr ⟨herange, hpast⟩)]
      rfl

/-! ## Where they are strict -/

/-- A numeral of 32 bits is taken for what it is. -/
theorem parseU32Cli_numeral {s : Getopt.Word} {n : Nat} (h : Numeral32 s n) :
    parseU32Cli s = some (UInt32.ofNat n) :=
  parseU32Cli_eq_some_iff.mpr
    ⟨false, n, (signedNumeral_digits_iff h.1.digits).mpr ⟨rfl, h.1⟩, h.2, rfl⟩

/-- Nothing else is taken but a loose number. -/
theorem loose_or_numeral {s : Getopt.Word} {v : UInt32} (h : parseU32Cli s = some v) :
    Loose s ∨ ∃ n, Numeral32 s n := by
  obtain ⟨negative, n, hsigned, hbelow, -⟩ := parseU32Cli_eq_some_iff.mp h
  by_cases hdigits : ∀ c ∈ s, isDigit c = true
  · obtain ⟨rfl, hnumeral⟩ := (signedNumeral_digits_iff hdigits).mp hsigned
    exact .inr ⟨n, hnumeral, hbelow⟩
  · simp only [not_forall] at hdigits
    obtain ⟨c, hc, hother⟩ := hdigits
    exact .inl ⟨⟨c, hc, Bool.eq_false_iff.mpr hother⟩, negative, n, hsigned, hbelow⟩

/-- Where the text is no loose number, `parse_u32_cli` is strict. -/
theorem strict_of_not_loose {s : CStr} (h : ¬ Loose s.bytes) (out : UInt32) :
    Strict s (some out) (parseU32CliInto (some s.bytes) (some out)) := by
  rw [parseU32CliInto_eq]
  cases hparse : parseU32Cli s.bytes with
  | none =>
      have hnone : ¬ ∃ n, Numeral32 s.bytes n := by
        rintro ⟨n, hn⟩
        cases hparse.symm.trans (parseU32Cli_numeral hn)
      have hfails : (-1 : Int) ≠ 0 := by decide
      exact ⟨iff_of_false hfails hnone, fun n hn => absurd ⟨n, hn⟩ hnone, fun _ => rfl⟩
  | some v =>
      have hnumeral := (loose_or_numeral hparse).resolve_left h
      refine ⟨iff_of_true rfl hnumeral, fun n hn => ?_, fun hfails => absurd rfl hfails⟩
      exact hparse.symm.trans (parseU32Cli_numeral hn)

/-- Both are strict on exactly the texts that are no loose numbers. -/
theorem strictNumbers_iff (s : CStr) : StrictNumbers s ↔ ¬ Loose s.bytes := by
  constructor
  · intro hstrict hloose
    obtain ⟨⟨c, hc, hother⟩, negative, n, hsigned, hbelow⟩ := hloose
    have hparse := parseU32Cli_eq_some_iff.mpr ⟨negative, n, hsigned, hbelow, rfl⟩
    have hdaemon := hstrict.daemon 0
    rw [parseU32CliInto_eq, hparse] at hdaemon
    obtain ⟨m, hnumeral, -⟩ := hdaemon.succeeds.mp rfl
    cases hother.symm.trans (hnumeral.digits c hc)
  · intro h
    refine ⟨strict_of_not_loose h, fun out => ?_⟩
    rw [parseU32_eq]
    exact strict_of_not_loose h out

/-- `-18446744073709551615` is taken for 1. -/
theorem not_strictNumbers : ¬ ∀ s : CStr, StrictNumbers s := by
  intro hall
  let s : CStr := ⟨ascii "-18446744073709551615", by decide +kernel⟩
  have hparse : parseU32CliInto (some s.bytes) (some 10000) = (0, some 1) := by decide +kernel
  have hdaemon := (hall s).daemon 10000
  rw [hparse] at hdaemon
  obtain ⟨n, hnumeral, -⟩ := hdaemon.succeeds.mp rfl
  exact absurd (hnumeral.digits 45 List.mem_cons_self) (by decide)

end InduRtdb.Client
