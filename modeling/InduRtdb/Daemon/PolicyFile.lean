/-
  Daemon/PolicyFile.lean --- the policy file and what is loaded from it.

  Source: `rtdbd/src/policy.c` and the grammar of `rtdbd/src/policy.h`.

  A line of more than 126 bytes is not parsed.  It is an error when something stands in
  the part that was read; where that part is blank, what stands behind it is skipped.
-/
import InduRtdb.Daemon.Audit
import InduRtdb.Lib.Lines
import InduRtdb.Lib.Text

set_option autoImplicit false

namespace InduRtdb.Daemon

open InduRtdb.Lib

/-! ## The loader -/

/-- `IRT_POLICY_MAX_RULES`. -/
abbrev irtPolicyMaxRules : Nat := 32

/-- `IRT_POLICY_LINE_MAX`. -/
abbrev irtPolicyLineMax : Nat := 128

/-- The results of `irt_policy_load` for a file that can be opened. -/
inductive PolicyRc where
  | ok
  | errTooMany
  | errFields
  | errNumber
  | errRange
  | errLineLen
  deriving DecidableEq

/-- The numeric value of a result. -/
def PolicyRc.code : PolicyRc → Int
  | .ok => 0
  | .errTooMany => -3
  | .errFields => -4
  | .errNumber => -5
  | .errRange => -6
  | .errLineLen => -7

/-- A blank of `trim`: space, tab, carriage return, line break. -/
def isPolicyBlank (c : UInt8) : Bool := c = 32 || c = 9 || c = 13 || c = 10

/-- A blank of `trim_field`. -/
def isFieldBlank (c : UInt8) : Bool := c = 32 || c = 9

/-- `parse_u32`. -/
def policyParseU32 (s : List UInt8) : Option Nat :=
  if s.isEmpty then none else boundedDecimal 0xFFFFFFFF 0 s

/-- The second field: `partition` and `wildcard`. -/
def policyPartition (s : List UInt8) : Option (UInt32 × Bool) :=
  if s = [42] then some (0, true)
  else (policyParseU32 s).map fun partition => (UInt32.ofNat partition, false)

/-- The fields of a line, taken as a rule. -/
def policyRule (s : List UInt8) : Except PolicyRc IrtPolicyRule :=
  match (s.splitOn 58).map (trim isFieldBlank) with
  | [uid, partition, minId, maxId] =>
      match policyParseU32 uid, policyPartition partition, policyParseU32 minId,
          policyParseU32 maxId with
      | some uid, some (partition, wildcard), some minId, some maxId =>
          if maxId < minId then .error .errRange
          else .ok ⟨uid, partition, minId, maxId, wildcard⟩
      | _, _, _, _ => .error .errNumber
  | _ => .error .errFields

/-- What `irt_policy_load` leaves: its result, the table and `*err_line`. -/
structure PolicyLoad where
  rc : PolicyRc
  policy : IrtPolicy
  errLine : UInt32

/-- The line without its comment and the blanks at its ends. -/
def policyContent (line : List UInt8) : List UInt8 :=
  trim isPolicyBlank (line.takeWhile (· ≠ 35))

/-- The body of the loop of `irt_policy_load`; the state is `lineno` and the rules. -/
def policyLine (state : UInt32 × List IrtPolicyRule) (line : List UInt8) (overlong : Bool) :
    PolicyLoad ⊕ (UInt32 × List IrtPolicyRule) :=
  let lineno := state.1 + 1
  let rules := state.2
  let s := policyContent line
  let fail := fun rc => Sum.inl ⟨rc, ⟨rules⟩, lineno⟩
  if overlong then if s ≠ [] then fail .errLineLen else .inr (lineno, rules)
  else if s = [] then .inr (lineno, rules)
  else match policyRule s with
    | .error rc => fail rc
    | .ok rule =>
        if irtPolicyMaxRules ≤ rules.length then fail .errTooMany
        else .inr (lineno, rules ++ [rule])

/-- What is returned when the file ends. -/
def policyDone (state : UInt32 × List IrtPolicyRule) : PolicyLoad := ⟨.ok, ⟨state.2⟩, 0⟩

/-- `irt_policy_load` of a file. -/
def irtPolicyLoad (file : List UInt8) : PolicyLoad :=
  forLines irtPolicyLineMax policyLine policyDone file.length (0, []) file

/-! ## What the file says -/

/-- The second field: `*` stands for every partition. -/
def PartitionText (text : List UInt8) (rule : IrtPolicyRule) : Prop :=
  text = [42] ∧ rule.partition = 0 ∧ rule.wildcardPartition = true ∨
    text ≠ [42] ∧ Numeral32 text rule.partition.toNat ∧ rule.wildcardPartition = false

/-- The text `uid:partition|*:min:max` of a rule, with blanks around the fields. -/
def RuleText (text : List UInt8) (rule : IrtPolicyRule) : Prop :=
  ∃ uid partition minId maxId,
    (text.splitOn 58).map (trim isFieldBlank) = [uid, partition, minId, maxId] ∧
    Numeral32 uid rule.uid ∧ PartitionText partition rule ∧ Numeral32 minId rule.minId ∧
    Numeral32 maxId rule.maxId ∧ rule.minId ≤ rule.maxId

/-- What stands on the line is a rule, and the line fits the buffer. -/
def LineGood (line : List UInt8) : Prop :=
  policyContent line = [] ∨
    (∃ rule, RuleText (policyContent line) rule) ∧ line.length ≤ irtPolicyLineMax - 2

/-- The texts of the rules of a file. -/
def ruleTexts (ls : List (List UInt8)) : List (List UInt8) :=
  (ls.map policyContent).filter (· ≠ [])

/-- A rule permits a write. -/
def Permits (rule : IrtPolicyRule) (uid : Nat) (partition : UInt32) (pointId : Nat) : Prop :=
  rule.uid = uid ∧ (rule.wildcardPartition = true ∨ rule.partition = partition) ∧
    rule.minId ≤ pointId ∧ pointId ≤ rule.maxId

theorem policyParseU32_eq_some_iff {s : List UInt8} {n : Nat} :
    policyParseU32 s = some n ↔ Numeral32 s n := by
  rw [policyParseU32]
  split
  case isTrue hnil =>
    exact iff_of_false (by simp) fun h => h.1.ne_nil (List.isEmpty_iff.mp hnil)
  case isFalse hne =>
    rw [boundedDecimal_eq_some_iff (Nat.zero_le _)]
    constructor
    · rintro ⟨hdigits, hvalue, hle⟩
      exact ⟨⟨fun h => hne (List.isEmpty_iff.mpr h), hdigits, hvalue⟩, by omega⟩
    · rintro ⟨hnumeral, hlt⟩
      exact ⟨hnumeral.digits, hnumeral.value, by omega⟩

theorem policyPartition_eq_some_iff {s : List UInt8} {rule : IrtPolicyRule} :
    policyPartition s = some (rule.partition, rule.wildcardPartition) ↔ PartitionText s rule := by
  rw [policyPartition, PartitionText]
  split
  case isTrue hstar =>
    rw [Option.some.injEq, Prod.mk.injEq]
    constructor
    · rintro ⟨hpartition, hwildcard⟩
      exact .inl ⟨hstar, hpartition.symm, hwildcard.symm⟩
    · rintro (⟨-, hpartition, hwildcard⟩ | ⟨hne, -⟩)
      · exact ⟨hpartition.symm, hwildcard.symm⟩
      · exact absurd hstar hne
  case isFalse hstar =>
    rw [Option.map_eq_some_iff]
    constructor
    · rintro ⟨n, hn, heq⟩
      obtain ⟨hpartition, hwildcard⟩ := Prod.mk.inj heq
      have hnumeral := policyParseU32_eq_some_iff.mp hn
      have htoNat : rule.partition.toNat = n := by
        rw [← hpartition]
        exact UInt32.toNat_ofNat_of_lt hnumeral.2
      exact .inr ⟨hstar, htoNat ▸ hnumeral, hwildcard.symm⟩
    · rintro (⟨h, -⟩ | ⟨-, hnumeral, hwildcard⟩)
      · exact absurd h hstar
      · exact ⟨_, policyParseU32_eq_some_iff.mpr hnumeral, by simp [hwildcard]⟩

theorem policyRule_eq_ok_iff {text : List UInt8} {rule : IrtPolicyRule} :
    policyRule text = .ok rule ↔ RuleText text rule := by
  rw [policyRule, RuleText]
  split
  case h_1 uid partition minId maxId hfields =>
    constructor
    · intro h
      split at h
      case h_1 u q wildcard lo hi hu hq hlo hhi =>
        split at h
        case isTrue => cases h
        case isFalse hrange =>
          obtain rfl := Except.ok.inj h
          exact ⟨uid, partition, minId, maxId, hfields, policyParseU32_eq_some_iff.mp hu,
            policyPartition_eq_some_iff.mp hq, policyParseU32_eq_some_iff.mp hlo,
            policyParseU32_eq_some_iff.mp hhi, Nat.not_lt.mp hrange⟩
      case h_2 => cases h
    · rintro ⟨u, q, lo, hi, heq, hu, hq, hlo, hhi, hrange⟩
      rw [hfields] at heq
      obtain ⟨rfl, rfl, rfl, rfl⟩ : uid = u ∧ partition = q ∧ minId = lo ∧ maxId = hi := by
        simpa using heq
      rw [policyParseU32_eq_some_iff.mpr hu, policyPartition_eq_some_iff.mpr hq,
        policyParseU32_eq_some_iff.mpr hlo, policyParseU32_eq_some_iff.mpr hhi]
      exact if_neg (Nat.not_lt.mpr hrange)
  case h_2 hfields =>
    refine iff_of_false (by simp) ?_
    rintro ⟨uid, partition, minId, maxId, heq, -⟩
    exact hfields uid partition minId maxId heq

theorem policyRule_error_ne_ok {text : List UInt8} {rc : PolicyRc}
    (h : policyRule text = .error rc) : rc ≠ .ok := by
  rw [policyRule] at h
  split at h
  · split at h
    · split at h
      · obtain rfl := Except.error.inj h
        exact PolicyRc.noConfusion
      · cases h
    · obtain rfl := Except.error.inj h
      exact PolicyRc.noConfusion
  · obtain rfl := Except.error.inj h
    exact PolicyRc.noConfusion

/-- Whether a line is good is found by reading the rule. -/
instance (line : List UInt8) : Decidable (LineGood line) :=
  decidable_of_iff (policyContent line = [] ∨
    (policyRule (policyContent line)).isOk = true ∧ line.length ≤ irtPolicyLineMax - 2) <| by
    have hrule : (policyRule (policyContent line)).isOk = true ↔
        ∃ rule, RuleText (policyContent line) rule := by
      simp only [← policyRule_eq_ok_iff]
      cases policyRule (policyContent line) with
      | ok rule => exact iff_of_true rfl ⟨rule, rfl⟩
      | error rc => exact iff_of_false Bool.noConfusion fun ⟨_, h⟩ => by cases h
    rw [LineGood, hrule]

/-- The place of the first line that is not good or is a rule too many, behind `count`
rules. -/
def firstOffending (count : Nat) : List (List UInt8) → Option Nat
  | [] => none
  | line :: rest =>
      if policyContent line = [] then (firstOffending count rest).map Nat.succ
      else if LineGood line ∧ count < irtPolicyMaxRules then
        (firstOffending (count + 1) rest).map Nat.succ
      else some 0

theorem firstOffending_eq_none_iff (count : Nat) (hcount : count ≤ irtPolicyMaxRules)
    (ls : List (List UInt8)) :
    firstOffending count ls = none ↔
      (∀ line ∈ ls, LineGood line) ∧ count + (ruleTexts ls).length ≤ irtPolicyMaxRules := by
  induction ls generalizing count with
  | nil => simpa [firstOffending, ruleTexts] using hcount
  | cons line rest ih =>
      rw [firstOffending, List.forall_mem_cons]
      split
      case isTrue hnil =>
        have htexts : ruleTexts (line :: rest) = ruleTexts rest := by simp [ruleTexts, hnil]
        have hgood : LineGood line := .inl hnil
        rw [Option.map_eq_none_iff, ih count hcount, htexts, and_iff_right hgood]
      case isFalse hne =>
        have htexts : (ruleTexts (line :: rest)).length = (ruleTexts rest).length + 1 := by
          simp [ruleTexts, hne]
        rw [htexts]
        split
        case isTrue hgood =>
          rw [Option.map_eq_none_iff, ih (count + 1) hgood.2, and_iff_right hgood.1,
            Nat.add_right_comm, Nat.add_assoc]
        case isFalse hbad =>
          refine iff_of_false (by simp) fun h => hbad ⟨h.1.1, by omega⟩

/-! ## What the loader sees -/

/-- The line is too long, and the part that is read is blank, but what stands on it is
not. -/
def Hidden (line : List UInt8) : Prop :=
  Overlong irtPolicyLineMax line ∧ policyContent (line.take (irtPolicyLineMax - 1)) = [] ∧
    policyContent line ≠ []

instance (line : List UInt8) : Decidable (Hidden line) :=
  inferInstanceAs (Decidable (_ ∧ _ ∧ _))

/-- The line as the loader sees it. -/
def seenLine (line : List UInt8) : List UInt8 := if Hidden line then [] else line

theorem seenLine_of_fits {line : List UInt8} (h : ¬ Overlong irtPolicyLineMax line) :
    seenLine line = line := if_neg fun hhidden => h hhidden.1

theorem policyContent_take {line : List UInt8} (h : policyContent line = []) (n : Nat) :
    policyContent (line.take n) = [] := by
  rw [policyContent, trim_eq_nil_iff] at h ⊢
  intro c hc
  rw [← List.take_takeWhile] at hc
  exact h c (List.mem_of_mem_take hc)

theorem policyContent_seenLine {line : List UInt8} (h : policyContent (seenLine line) ≠ []) :
    seenLine line = line := by
  rw [seenLine] at h ⊢
  split at h
  case isTrue => exact absurd rfl h
  case isFalse hseen => exact if_neg hseen

section

variable (lineno : UInt32) (rules : List IrtPolicyRule) {line : List UInt8}

/-- The turn of the loop for a line of the file. -/
def policyTurn (state : UInt32 × List IrtPolicyRule) (line : List UInt8) :
    PolicyLoad ⊕ (UInt32 × List IrtPolicyRule) :=
  policyLine state (line.take (irtPolicyLineMax - 1)) (decide (Overlong irtPolicyLineMax line))

theorem policyTurn_of_fits (h : ¬ Overlong irtPolicyLineMax line)
    (state : UInt32 × List IrtPolicyRule) :
    policyTurn state line = policyLine state line false := by
  rw [policyTurn, decide_eq_false h, List.take_of_length_le (Nat.not_le.mp h).le]

theorem policyTurn_skips (h : policyContent (seenLine line) = []) :
    policyTurn (lineno, rules) line = .inr (lineno + 1, rules) := by
  by_cases hover : Overlong irtPolicyLineMax line
  · have htake : policyContent (line.take (irtPolicyLineMax - 1)) = [] := by
      rw [seenLine] at h
      split at h
      case isTrue hhidden => exact hhidden.2.1
      case isFalse => exact policyContent_take h _
    simp only [policyTurn, policyLine, decide_eq_true hover, if_pos, htake, ne_eq,
      not_true_eq_false, if_false]
  · rw [seenLine_of_fits hover] at h
    simp only [policyTurn_of_fits hover, policyLine, Bool.false_eq_true, if_false, h, if_pos]

theorem policyTurn_stores (hne : policyContent (seenLine line) ≠ [])
    (hgood : LineGood (seenLine line)) (hroom : rules.length < irtPolicyMaxRules) :
    ∃ rule, RuleText (policyContent (seenLine line)) rule ∧
      policyTurn (lineno, rules) line = .inr (lineno + 1, rules ++ [rule]) := by
  have hseen := policyContent_seenLine hne
  rw [hseen] at hne hgood ⊢
  obtain ⟨⟨rule, hrule⟩, hlength⟩ := hgood.resolve_left hne
  have hfits : ¬ Overlong irtPolicyLineMax line := fun hover =>
    absurd (Nat.le_trans hover hlength) (by decide)
  refine ⟨rule, hrule, ?_⟩
  simp only [policyTurn_of_fits hfits, policyLine, Bool.false_eq_true, if_false, if_neg hne,
    policyRule_eq_ok_iff.mpr hrule, if_neg (Nat.not_le.mpr hroom)]

theorem policyTurn_fails (hne : policyContent (seenLine line) ≠ [])
    (hbad : ¬ (LineGood (seenLine line) ∧ rules.length < irtPolicyMaxRules)) :
    ∃ rc, rc ≠ .ok ∧ policyTurn (lineno, rules) line = .inl ⟨rc, ⟨rules⟩, lineno + 1⟩ := by
  have hseen := policyContent_seenLine hne
  rw [hseen] at hne hbad
  by_cases hover : Overlong irtPolicyLineMax line
  · have htake : policyContent (line.take (irtPolicyLineMax - 1)) ≠ [] := fun hnil => by
      have hhidden : Hidden line := ⟨hover, hnil, hne⟩
      rw [seenLine, if_pos hhidden] at hseen
      rw [← hseen] at hne
      exact hne rfl
    refine ⟨.errLineLen, PolicyRc.noConfusion, ?_⟩
    simp only [policyTurn, policyLine, decide_eq_true hover, if_pos, htake, ne_eq,
      not_false_eq_true]
  · simp only [policyTurn_of_fits hover, policyLine, Bool.false_eq_true, if_false, if_neg hne]
    cases hrule : policyRule (policyContent line) with
    | error rc => exact ⟨rc, policyRule_error_ne_ok hrule, rfl⟩
    | ok rule =>
        have hlength : line.length ≤ irtPolicyLineMax - 2 :=
          Nat.le_of_lt_succ (Nat.not_le.mp hover)
        have hgood : LineGood line := .inr ⟨⟨rule, policyRule_eq_ok_iff.mp hrule⟩, hlength⟩
        have hfull : irtPolicyMaxRules ≤ rules.length :=
          Nat.not_lt.mp fun hroom => hbad ⟨hgood, hroom⟩
        exact ⟨.errTooMany, PolicyRc.noConfusion, if_pos hfull⟩

theorem later_line (lineno : UInt32) (j : Nat) :
    lineno + 1 + UInt32.ofNat (j + 1) = lineno + UInt32.ofNat (j.succ + 1) := by
  rw [UInt32.add_assoc, UInt32.add_comm 1, Nat.succ_eq_add_one, UInt32.ofNat_add (j + 1) 1]
  rfl

/-- No line offends: the table gets the rules of the lines. -/
theorem policyScan_of_none (ls : List (List UInt8)) (lineno : UInt32)
    (rules : List IrtPolicyRule) (hcount : rules.length ≤ irtPolicyMaxRules)
    (h : firstOffending rules.length (ls.map seenLine) = none) :
    ∃ more, List.Forall₂ RuleText (ruleTexts (ls.map seenLine)) more ∧
      scan policyTurn policyDone (lineno, rules) ls = ⟨.ok, ⟨rules ++ more⟩, 0⟩ := by
  induction ls generalizing lineno rules with
  | nil => exact ⟨[], .nil, by rw [List.append_nil]; rfl⟩
  | cons line rest ih =>
      rw [List.map_cons, firstOffending] at h
      rw [scan]
      split at h
      case isTrue hnil =>
        rw [policyTurn_skips lineno rules hnil]
        obtain ⟨more, htexts, hscan⟩ := ih (lineno + 1) rules hcount (Option.map_eq_none_iff.mp h)
        refine ⟨more, ?_, hscan⟩
        simpa [ruleTexts, hnil] using htexts
      case isFalse hne =>
        split at h
        case isTrue hgood =>
          obtain ⟨rule, hrule, hturn⟩ := policyTurn_stores lineno rules hne hgood.1 hgood.2
          have hlength : (rules ++ [rule]).length = rules.length + 1 := List.length_append
          obtain ⟨more, htexts, hscan⟩ := ih (lineno + 1) (rules ++ [rule])
            (by rw [hlength]; exact hgood.2)
            (by rw [hlength]; exact Option.map_eq_none_iff.mp h)
          refine ⟨rule :: more, ?_, ?_⟩
          · have hcons := List.Forall₂.cons hrule htexts
            simpa [ruleTexts, hne] using hcons
          · rw [hturn]
            simpa using hscan
        case isFalse => cases h

/-- A line offends: the loader fails with its number. -/
theorem policyScan_of_some (ls : List (List UInt8)) (lineno : UInt32)
    (rules : List IrtPolicyRule) {k : Nat}
    (h : firstOffending rules.length (ls.map seenLine) = some k) :
    ∃ rc policy, rc ≠ .ok ∧ scan policyTurn policyDone (lineno, rules) ls =
      ⟨rc, policy, lineno + UInt32.ofNat (k + 1)⟩ := by
  induction ls generalizing lineno rules k with
  | nil => cases h
  | cons line rest ih =>
      rw [List.map_cons, firstOffending] at h
      rw [scan]
      split at h
      case isTrue hnil =>
        obtain ⟨j, hj, rfl⟩ := Option.map_eq_some_iff.mp h
        obtain ⟨rc, policy, hrc, hscan⟩ := ih (lineno + 1) rules hj
        rw [policyTurn_skips lineno rules hnil, ← later_line]
        exact ⟨rc, policy, hrc, hscan⟩
      case isFalse hne =>
        split at h
        case isTrue hgood =>
          obtain ⟨j, hj, rfl⟩ := Option.map_eq_some_iff.mp h
          obtain ⟨rule, -, hturn⟩ := policyTurn_stores lineno rules hne hgood.1 hgood.2
          obtain ⟨rc, policy, hrc, hscan⟩ := ih (lineno + 1) (rules ++ [rule])
            (by rw [List.length_append]; exact hj)
          rw [hturn, ← later_line]
          exact ⟨rc, policy, hrc, hscan⟩
        case isFalse hbad =>
          obtain rfl := Option.some.inj h
          obtain ⟨rc, hrc, hturn⟩ := policyTurn_fails lineno rules hne hbad
          exact ⟨rc, ⟨rules⟩, hrc, by rw [hturn]; rfl⟩

end

theorem policyContent_break (text : List UInt8) :
    policyContent (text ++ [lineBreak]) = policyContent text := by
  rw [policyContent, policyContent, List.takeWhile_append]
  split
  case isTrue hall =>
    have hblank : ∀ c ∈ List.takeWhile (· ≠ 35) [lineBreak], isPolicyBlank c = true := by
      decide +kernel
    rw [trim_append_right hblank, (List.takeWhile_prefix _).eq_of_length hall]
  case isFalse => rfl

theorem irtPolicyLoad_eq {file : List UInt8} (hnul : (0 : UInt8) ∉ file) :
    irtPolicyLoad file = scan policyTurn policyDone (0, []) (lines file) :=
  forLines_eq (fun state text => by simp only [policyLine, policyContent_break]) policyDone
    file.length (0, []) file (Nat.le_refl _) hnul

/-! ## Nothing is skipped silently -/

/-- The loader accepts the file when every line is good and the rules are not too many;
then the table and its answers are those of the lines.  Otherwise it fails with the
number of the first line that offends. -/
structure PolicyTold (file : List UInt8) : Prop where
  ok_iff : (irtPolicyLoad file).rc = .ok ↔
    (∀ line ∈ lines file, LineGood line) ∧ (ruleTexts (lines file)).length ≤ irtPolicyMaxRules
  table : (irtPolicyLoad file).rc = .ok →
    List.Forall₂ RuleText (ruleTexts (lines file)) (irtPolicyLoad file).policy.rules
  allows : (irtPolicyLoad file).rc = .ok → ∀ uid partition pointId,
    irtPolicyAllows (irtPolicyLoad file).policy uid partition pointId = true ↔
      ∃ line ∈ lines file, ∃ rule, RuleText (policyContent line) rule ∧
        Permits rule uid partition pointId
  failed : (irtPolicyLoad file).rc ≠ .ok → (irtPolicyLoad file).rc.code < 0 ∧
    ∃ k, firstOffending 0 (lines file) = some k ∧ (irtPolicyLoad file).errLine.toNat = k + 1

/-- The first line that offends is the first one that the loader takes for one, as far as
the counter of 32 bits tells the two apart. -/
def OffenceSeen (file : List UInt8) : Prop :=
  ∀ k, firstOffending 0 (lines file) = some k → k + 1 < 2 ^ 32 ∧
    ∃ k', firstOffending 0 ((lines file).map seenLine) = some k' ∧ (k' + 1) % 2 ^ 32 = k + 1

theorem irtPolicyAllows_iff {p : IrtPolicy} {uid : Nat} {partition : UInt32} {pointId : Nat} :
    irtPolicyAllows p uid partition pointId = true ↔
      ∃ rule ∈ p.rules, Permits rule uid partition pointId := by
  simp [irtPolicyAllows, Permits, and_assoc]

/-- Where no line offends, all lines are seen. -/
theorem map_seenLine_of_none {ls : List (List UInt8)} (h : ∀ line ∈ ls, LineGood line) :
    ls.map seenLine = ls := by
  refine (List.map_congr_left fun line hmem => ?_).trans (List.map_id ls)
  rw [seenLine, if_neg]
  · rfl
  rintro ⟨hover, -, hne⟩
  have hlength := ((h line hmem).resolve_left hne).2
  exact absurd (Nat.le_trans hover hlength) (by decide)

/-- The loader of a file, by what the lines it sees say. -/
theorem irtPolicyLoad_of_none {file : List UInt8} (hnul : (0 : UInt8) ∉ file)
    (h : firstOffending 0 ((lines file).map seenLine) = none) :
    ∃ rules, List.Forall₂ RuleText (ruleTexts ((lines file).map seenLine)) rules ∧
      irtPolicyLoad file = ⟨.ok, ⟨rules⟩, 0⟩ := by
  rw [irtPolicyLoad_eq hnul]
  exact policyScan_of_none (lines file) 0 [] (Nat.zero_le _) h

theorem irtPolicyLoad_of_some {file : List UInt8} (hnul : (0 : UInt8) ∉ file) {k : Nat}
    (h : firstOffending 0 ((lines file).map seenLine) = some k) :
    (irtPolicyLoad file).rc ≠ .ok ∧ (irtPolicyLoad file).errLine.toNat = (k + 1) % 2 ^ 32 := by
  obtain ⟨rc, policy, hrc, hscan⟩ := policyScan_of_some (lines file) 0 [] h
  rw [irtPolicyLoad_eq hnul, hscan]
  exact ⟨hrc, by rw [UInt32.zero_add, UInt32.toNat_ofNat']⟩

theorem PolicyRc.code_neg {rc : PolicyRc} (h : rc ≠ .ok) : rc.code < 0 := by
  cases rc with
  | ok => exact absurd rfl h
  | errTooMany => decide
  | errFields => decide
  | errNumber => decide
  | errRange => decide
  | errLineLen => decide

theorem not_ruleText_nil (rule : IrtPolicyRule) : ¬ RuleText [] rule := by
  rintro ⟨uid, partition, minId, maxId, hfields, -⟩
  simp at hfields

theorem mem_ruleTexts_iff {ls : List (List UInt8)} {text : List UInt8} :
    text ∈ ruleTexts ls ↔ (∃ line ∈ ls, policyContent line = text) ∧ text ≠ [] := by
  simp [ruleTexts]

/-- Each text has its rule in the table, and the other way round. -/
theorem mem_table_iff {texts : List (List UInt8)} {rules : List IrtPolicyRule}
    (h : List.Forall₂ RuleText texts rules) (rule : IrtPolicyRule) :
    rule ∈ rules ↔ ∃ text ∈ texts, RuleText text rule := by
  induction h with
  | nil => simp
  | @cons text rule' texts rules hrule _ ih =>
      have hunique : RuleText text rule ↔ rule = rule' := by
        rw [← policyRule_eq_ok_iff, policyRule_eq_ok_iff.mpr hrule, Except.ok.injEq, eq_comm]
      rw [List.mem_cons, ih, ← hunique]
      simp

/-- The rules of a file permit what its lines permit. -/
theorem permits_iff_of_table {ls : List (List UInt8)} {rules : List IrtPolicyRule}
    (h : List.Forall₂ RuleText (ruleTexts ls) rules) (uid : Nat) (partition : UInt32)
    (pointId : Nat) :
    (∃ rule ∈ rules, Permits rule uid partition pointId) ↔
      ∃ line ∈ ls, ∃ rule, RuleText (policyContent line) rule ∧
        Permits rule uid partition pointId := by
  simp only [mem_table_iff h, mem_ruleTexts_iff]
  constructor
  · rintro ⟨rule, ⟨text, ⟨⟨line, hmem, rfl⟩, -⟩, hrule⟩, hpermits⟩
    exact ⟨line, hmem, rule, hrule, hpermits⟩
  · rintro ⟨line, hmem, rule, hrule, hpermits⟩
    have hne : policyContent line ≠ [] := fun hnil => not_ruleText_nil rule (hnil ▸ hrule)
    exact ⟨rule, ⟨_, ⟨⟨line, hmem, rfl⟩, hne⟩, hrule⟩, hpermits⟩

/-- Nothing is skipped silently exactly when the first offence is seen. -/
theorem policyTold_iff {file : List UInt8} (hnul : (0 : UInt8) ∉ file) :
    PolicyTold file ↔ OffenceSeen file := by
  have hgood := firstOffending_eq_none_iff 0 (Nat.zero_le _) (lines file)
  rw [Nat.zero_add] at hgood
  constructor
  · intro htold k hk
    have hrc : (irtPolicyLoad file).rc ≠ .ok := fun hok => by
      rw [hgood.mpr (htold.ok_iff.mp hok)] at hk
      cases hk
    obtain ⟨-, k₁, hk₁, hline⟩ := htold.failed hrc
    obtain rfl : k₁ = k := Option.some.inj (hk₁.symm.trans hk)
    have hlt := (irtPolicyLoad file).errLine.toNat_lt
    refine ⟨by omega, ?_⟩
    cases hseen : firstOffending 0 ((lines file).map seenLine) with
    | none =>
        obtain ⟨rules, -, hload⟩ := irtPolicyLoad_of_none hnul hseen
        rw [hload] at hrc
        exact absurd rfl hrc
    | some k' =>
        refine ⟨k', rfl, ?_⟩
        rw [← (irtPolicyLoad_of_some hnul hseen).2, hline]
  · intro hoffence
    cases hfirst : firstOffending 0 (lines file) with
    | none =>
        have hlines := hgood.mp hfirst
        have hseen := map_seenLine_of_none hlines.1
        obtain ⟨rules, htable, hload⟩ := irtPolicyLoad_of_none hnul (by rw [hseen]; exact hfirst)
        rw [hseen] at htable
        refine ⟨?_, fun _ => ?_, fun _ uid partition pointId => ?_, fun hrc => ?_⟩
        · rw [hload]
          exact iff_of_true rfl hlines
        · rw [hload]
          exact htable
        · rw [hload, irtPolicyAllows_iff]
          exact permits_iff_of_table htable uid partition pointId
        · rw [hload] at hrc
          exact absurd rfl hrc
    | some k =>
        obtain ⟨hlt, k', hk', hmod⟩ := hoffence k hfirst
        obtain ⟨hrc, hline⟩ := irtPolicyLoad_of_some hnul hk'
        refine ⟨iff_of_false hrc fun hlines => ?_, fun hok => absurd hok hrc,
          fun hok => absurd hok hrc, fun _ => ⟨?_, k, hfirst, hline.trans hmod⟩⟩
        · rw [hgood.mpr hlines] at hfirst
          cases hfirst
        · exact PolicyRc.code_neg hrc

/-- A comment, two rules and a blank line. -/
def fourLines : List UInt8 :=
  ascii "# uid:partition:lo:hi\n0:*:0:9\n\n 1000:2:5:5 \n"

/-- The same, and a line with a field too few. -/
def fiveLines : List UInt8 := fourLines ++ ascii "1000:2:5\n"

theorem policyTold_fiveLines :
    (PolicyTold fourLines ∧ (irtPolicyLoad fourLines).policy.rules.length = 2) ∧
      PolicyTold fiveLines ∧ (irtPolicyLoad fiveLines).errLine = 5 := by
  refine ⟨⟨(policyTold_iff (by decide)).mpr fun k hk => ?_, by decide +kernel⟩,
    (policyTold_iff (by decide)).mpr fun k hk => ?_, by decide +kernel⟩
  · have hnone : firstOffending 0 (lines fourLines) = none := by decide +kernel
    rw [hnone] at hk
    cases hk
  · have hfifth : firstOffending 0 (lines fiveLines) = some 4 := by decide +kernel
    obtain rfl := Option.some.inj (hfifth.symm.trans hk)
    exact ⟨by decide, 4, by decide +kernel, rfl⟩

/-- A file of one line that starts with blanks. -/
def oneLine (blanks : Nat) (rest : List UInt8) : List UInt8 :=
  List.replicate blanks 32 ++ rest ++ [lineBreak]

/-- What stands behind 127 blanks is skipped. -/
theorem not_policyTold : ¬ PolicyTold (oneLine 127 [120]) := by
  intro h
  have hok : (irtPolicyLoad (oneLine 127 [120])).rc = .ok := by decide +kernel
  have hgood : firstOffending 0 (lines (oneLine 127 [120])) = none :=
    (firstOffending_eq_none_iff 0 (Nat.zero_le _) _).mpr (by simpa using h.ok_iff.mp hok)
  have hbad : firstOffending 0 (lines (oneLine 127 [120])) = some 0 := by decide +kernel
  rw [hbad] at hgood
  cases hgood

end InduRtdb.Daemon
