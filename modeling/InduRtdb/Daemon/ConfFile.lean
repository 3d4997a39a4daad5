/-
  Daemon/ConfFile.lean --- the partition keys of the configuration file.

  Source: `rtdbd/src/rtdbd_conf.c`.

  The scanners stop at the closing bracket, so that what stands behind it is not looked
  at; and of a line only the first 511 bytes are.
-/
import InduRtdb.Daemon.Audit
import InduRtdb.Lib.Lines
import InduRtdb.Lib.Inline
import Mathlib.Data.List.Forall2

set_option autoImplicit false

namespace InduRtdb.Daemon

open InduRtdb.Lib

/-! ## The scanners -/

/-- `RTDBD_CONF_LINE_MAX`. -/
abbrev rtdbdConfLineMax : Nat := 512

/-- `RTDBD_CONF_MAX_PARTITIONS`. -/
abbrev rtdbdConfMaxPartitions : Nat := 64

/-- `RTDBD_CONF_MAX_ALIASES`. -/
abbrev rtdbdConfMaxAliases : Nat := 64

/-- `RTDBD_CONF_ALIAS_MAX`. -/
abbrev rtdbdConfAliasMax : Nat := 64

/-- `is_ws`. -/
def isWs (c : UInt8) : Bool := c = 32 || c = 9

/-- `trim`: blanks in front, blanks and carriage returns at the end. -/
def confTrim (s : List UInt8) : List UInt8 :=
  (s.dropWhile isWs).rdropWhile fun c => c = 13 || isWs c

/-- The loop of `parse_u32`, behind digits of value `v`. -/
def confDigits (v : Nat) : List UInt8 → Option (Nat × List UInt8)
  | [] => some (v, [])
  | c :: rest =>
      if isDigit c then
        let v := v * 10 + digitVal c
        if 0xFFFFFFFF < v then none else confDigits v rest
      else some (v, c :: rest)

/-- `parse_u32`. -/
def confParseU32 : List UInt8 → Option (Nat × List UInt8)
  | [] => none
  | c :: rest => if isDigit c then confDigits 0 (c :: rest) else none

/-- An item of the list of `partitions`. -/
def confPartition (p : List UInt8) : Option (UInt32 × List UInt8) :=
  (confParseU32 p).map fun r => (UInt32.ofNat r.1, r.2)

/-- `parse_partitions`. -/
def parsePartitions (v : List UInt8) : Option (List UInt32) :=
  (scanList isWs 91 93 confPartition rtdbdConfMaxPartitions v).map Prod.fst

/-- An item of the map of `partition_alias`: a key and a name in quotes, which is cut. -/
def confAlias (p : List UInt8) : Option ((UInt32 × List UInt8) × List UInt8) :=
  match confParseU32 p with
  | none => none
  | some (key, p) =>
      match p.dropWhile isWs with
      | [] => none
      | c :: p =>
          if c ≠ 58 then none
          else match p.dropWhile isWs with
            | [] => none
            | quote :: p =>
                if quote ≠ 34 ∧ quote ≠ 39 then none
                else match p.dropWhile (· ≠ quote) with
                  | [] => none
                  | _ :: rest =>
                      some ((UInt32.ofNat key,
                        (p.takeWhile (· ≠ quote)).take (rtdbdConfAliasMax - 1)), rest)

/-- `rtdbd_partition_alias_t`, with its `alias_line`. -/
structure RtdbdAlias where
  key : UInt32
  name : List UInt8
  line : UInt32

/-- `parse_aliases`: the aliases behind those there are. -/
def parseAliases (v : List UInt8) (aliases : List RtdbdAlias) (line : UInt32) :
    Option (List RtdbdAlias) :=
  (scanList isWs 123 125 confAlias (rtdbdConfMaxAliases - aliases.length) v).map fun r =>
    aliases ++ r.1.map fun a => ⟨a.1, a.2, line⟩

/-! ## The loader -/

/-- What `rtdbd_conf_load` leaves: its result, the configuration and `*err_line`. -/
structure ConfLoad where
  rc : Int
  conf : RtdbdConf
  aliases : List RtdbdAlias
  errLine : UInt32

/-- `lineno`, the partitions and the aliases. -/
structure ConfState where
  lineno : UInt32
  partitions : List UInt32
  aliases : List RtdbdAlias

/-- The check behind the loop: with a white-list, the aliases are in it. -/
def confDone (s : ConfState) : ConfLoad :=
  if s.partitions.isEmpty then ⟨0, ⟨s.partitions⟩, s.aliases, 0⟩
  else match s.aliases.find? fun a => !s.partitions.contains a.key with
    | none => ⟨0, ⟨s.partitions⟩, s.aliases, 0⟩
    | some a => ⟨-1, ⟨s.partitions⟩, s.aliases, a.line⟩

/-- The text of a line: no line end, no blanks around it. -/
def confText (line : List UInt8) : List UInt8 :=
  confTrim (line.rdropWhile fun c => c = 10 || c = 13)

/-- The text before the first colon and that behind it. -/
def splitColon (t : List UInt8) : Option (List UInt8 × List UInt8) :=
  match t.dropWhile (· ≠ 58) with
  | [] => none
  | _ :: val => some (confTrim (t.takeWhile (· ≠ 58)), confTrim val)

/-- The line is empty or a comment. -/
def isConfComment (t : List UInt8) : Bool := t.isEmpty || t.head? = some 35

/-- The line begins the points. -/
def isConfPoints (t : List UInt8) : Bool := (ascii "points:").isPrefixOf t

abbrev partitionsKey : List UInt8 := ascii "partitions"

abbrev aliasKey : List UInt8 := ascii "partition_alias"

/-- The body of the loop of `rtdbd_conf_load`. -/
def confLine (s : ConfState) (line : List UInt8) (truncated : Bool) : ConfLoad ⊕ ConfState :=
  let s := { s with lineno := s.lineno + 1 }
  let fail := Sum.inl ⟨-1, ⟨s.partitions⟩, s.aliases, s.lineno⟩
  let t := confText line
  if isConfComment t then .inr s
  else if isConfPoints t then .inl (confDone s)
  else match splitColon t with
    | none => .inr s
    | some (key, val) =>
        if key = partitionsKey then
          if truncated then fail
          else match parsePartitions val with
            | none => fail
            | some partitions => .inr { s with partitions := partitions }
        else if key = aliasKey then
          if truncated then fail
          else match parseAliases val s.aliases s.lineno with
            | none => fail
            | some aliases => .inr { s with aliases := aliases }
        else .inr s

/-- `rtdbd_conf_load` of a file. -/
def rtdbdConfLoad (file : List UInt8) : ConfLoad :=
  forLines rtdbdConfLineMax confLine confDone file.length ⟨0, [], []⟩ file

/-! ## The grammar of the two keys -/

/-- The text of a partition. -/
def PartitionItem (text : List UInt8) (p : UInt32) : Prop := Numeral32 text p.toNat

/-- The text of an alias: a number, a colon and a quoted name, which is stored cut. -/
def AliasItem (text : List UInt8) (a : UInt32 × List UInt8) : Prop :=
  ∃ num ws ws' quote raw, text = num ++ (ws ++ 58 :: (ws' ++ quote :: (raw ++ [quote]))) ∧
    Numeral32 num a.1.toNat ∧ (∀ c ∈ ws, isWs c = true) ∧ (∀ c ∈ ws', isWs c = true) ∧
    (quote = 34 ∨ quote = 39) ∧ quote ∉ raw ∧ a.2 = raw.take (rtdbdConfAliasMax - 1)

theorem confDigits_eq (v : Nat) (p : List UInt8) :
    confDigits v p = (boundedDecimal 0xFFFFFFFF v (p.takeWhile isDigit)).map
      fun n => (n, p.dropWhile isDigit) := by
  induction p generalizing v with
  | nil => rfl
  | cons c rest ih =>
      rw [confDigits, List.takeWhile_cons, List.dropWhile_cons]
      split
      case isTrue hc =>
        rw [boundedDecimal, if_neg (not_not.mpr hc)]
        dsimp only
        split
        case isTrue => rfl
        case isFalse => exact ih _
      case isFalse => rfl

/-- `parse_u32` takes the digits in front, all of them. -/
theorem confParseU32_eq_some_iff {p rest : List UInt8} {n : Nat} :
    confParseU32 p = some (n, rest) ↔
      Numeral32 (p.takeWhile isDigit) n ∧ p.dropWhile isDigit = rest := by
  cases p with
  | nil => exact iff_of_false (by simp [confParseU32]) fun h => h.1.1.ne_nil rfl
  | cons c q =>
      rw [confParseU32]
      split
      case isTrue hc =>
        rw [confDigits_eq, Option.map_eq_some_iff]
        constructor
        · rintro ⟨m, hm, heq⟩
          obtain ⟨rfl, rfl⟩ := Prod.mk.inj heq
          obtain ⟨hdigits, hvalue, hle⟩ := (boundedDecimal_eq_some_iff (Nat.zero_le _)).mp hm
          exact ⟨⟨⟨by simp [hc], hdigits, hvalue⟩, by omega⟩, rfl⟩
        · rintro ⟨⟨hnumeral, hlt⟩, rfl⟩
          exact ⟨n, (boundedDecimal_eq_some_iff (Nat.zero_le _)).mpr
            ⟨hnumeral.digits, hnumeral.value, by omega⟩, rfl⟩
      case isFalse hc =>
        refine iff_of_false (by simp) fun h => h.1.1.ne_nil ?_
        rw [List.takeWhile_cons, if_neg hc]

theorem confParseU32_append {num rest : List UInt8} {n : Nat} (hnum : Numeral32 num n)
    (hrest : ∀ c q, rest = c :: q → isDigit c = false) :
    confParseU32 (num ++ rest) = some (n, rest) := by
  have htake : rest.takeWhile isDigit = [] := by
    cases rest with
    | nil => rfl
    | cons c q => rw [List.takeWhile_cons, hrest c q rfl]; rfl
  have hdrop : rest.dropWhile isDigit = rest := by
    cases rest with
    | nil => rfl
    | cons c q => rw [List.dropWhile_cons, hrest c q rfl]; rfl
  rw [confParseU32_eq_some_iff, List.takeWhile_append_of_pos hnum.1.digits, htake,
    List.append_nil, dropWhile_append_of_all hnum.1.digits, hdrop]
  exact ⟨hnum, rfl⟩

theorem numeral_starts {text : List UInt8} {n : Nat} (h : Numeral text n) :
    ∃ c q, text = c :: q ∧ isDigit c = true := by
  cases text with
  | nil => exact absurd rfl h.ne_nil
  | cons c q => exact ⟨c, q, rfl, h.digits c List.mem_cons_self⟩

theorem not_isWs_of_isDigit {c : UInt8} (h : isDigit c = true) : isWs c = false := by
  simp only [isDigit, Bool.and_eq_true, decide_eq_true_eq, UInt8.le_iff_toNat_le] at h
  simp only [isWs, Bool.or_eq_false_iff, decide_eq_false_iff_not]
  constructor <;> rintro rfl <;> exact absurd h (by decide)

theorem not_isDigit_of_isWs {c : UInt8} (h : isWs c = true) : isDigit c = false := by
  by_contra hdigit
  rw [not_isWs_of_isDigit (Bool.eq_true_of_not_eq_false hdigit)] at h
  cases h

theorem readsItems_partition : ReadsItems isWs 93 confPartition PartitionItem where
  sound p q rest h := by
    obtain ⟨⟨n, rest'⟩, hparse, heq⟩ := Option.map_eq_some_iff.mp h
    obtain ⟨rfl, rfl⟩ := Prod.mk.inj heq
    obtain ⟨hnum, hrest⟩ := confParseU32_eq_some_iff.mp hparse
    refine ⟨p.takeWhile isDigit, ?_, ?_⟩
    · rw [← hrest, List.takeWhile_append_dropWhile]
    · have htoNat : (UInt32.ofNat n).toNat = n := UInt32.toNat_ofNat_of_lt hnum.2
      exact (congrArg (Numeral32 (p.takeWhile isDigit)) htoNat).mpr hnum
  complete text q rest h := by
    rintro ⟨c, q', rfl, hc⟩
    have hnot : isDigit c = false := by
      obtain hc | rfl | rfl := hc
      · exact not_isDigit_of_isWs hc
      · rfl
      · rfl
    rw [confPartition, confParseU32_append h (by rintro _ _ ⟨⟩; exact hnot)]
    simp
  starts text q h := by
    obtain ⟨c, text', rfl, hc⟩ := numeral_starts h.1
    refine ⟨c, text', rfl, not_isWs_of_isDigit hc, ?_⟩
    rintro rfl
    exact absurd hc (by decide)

theorem confAlias_sound {p : List UInt8} {a : UInt32 × List UInt8} {rest : List UInt8}
    (h : confAlias p = some (a, rest)) : ∃ text, p = text ++ rest ∧ AliasItem text a := by
  rw [confAlias] at h
  split at h
  case h_1 => cases h
  case h_2 n q hparse =>
    obtain ⟨hnum, hq⟩ := confParseU32_eq_some_iff.mp hparse
    obtain ⟨ws, hws, hws'⟩ := eq_blanks_append isWs q
    split at h
    case h_1 => cases h
    case h_2 c q₁ hcolon =>
      split at h
      case isTrue => cases h
      case isFalse hc =>
        obtain rfl := not_not.mp hc
        obtain ⟨ws₂, hws₂, hws₂'⟩ := eq_blanks_append isWs q₁
        split at h
        case h_1 => cases h
        case h_2 quote q₂ hquote =>
          split at h
          case isTrue => cases h
          case isFalse hkind =>
            split at h
            case h_1 => cases h
            case h_2 e rest' hend =>
              obtain ⟨rfl, rfl⟩ := Prod.mk.inj (Option.some.inj h)
              have hclosing : e = quote := by
                have hhead := List.head_dropWhile_not (fun c => decide (c ≠ quote))
                  (l := q₂) (by rw [hend]; exact List.cons_ne_nil _ _)
                simp only [hend, List.head_cons] at hhead
                simpa using hhead
              subst hclosing
              have hsplit :=
                List.takeWhile_append_dropWhile (p := fun c => decide (c ≠ e)) (l := q₂)
              have hnone : e ∉ q₂.takeWhile fun c => decide (c ≠ e) := fun hmem => by
                simpa using List.mem_takeWhile_imp hmem
              obtain ⟨raw, hraw⟩ : ∃ raw, q₂.takeWhile (fun c => decide (c ≠ e)) = raw := ⟨_, rfl⟩
              rw [hend, hraw] at hsplit
              rw [hraw] at hnone ⊢
              have htoNat : (UInt32.ofNat n).toNat = n := UInt32.toNat_ofNat_of_lt hnum.2
              refine ⟨p.takeWhile isDigit ++ (ws ++ 58 :: (ws₂ ++ e :: (raw ++ [e]))), ?_,
                p.takeWhile isDigit, ws, ws₂, e, raw, rfl, htoNat.symm ▸ hnum, hws, hws₂, by tauto,
                hnone, rfl⟩
              calc p = p.takeWhile isDigit ++ q := by
                    rw [← hq, List.takeWhile_append_dropWhile]
                _ = p.takeWhile isDigit ++ (ws ++ 58 :: (ws₂ ++ e :: (raw ++ e :: rest'))) := by
                    rw [hws', hcolon, hws₂', hquote, hsplit]
                _ = _ := by simp

theorem confAlias_complete {text : List UInt8} {a : UInt32 × List UInt8} (h : AliasItem text a)
    (rest : List UInt8) : confAlias (text ++ rest) = some (a, rest) := by
  obtain ⟨num, ws, ws', quote, raw, rfl, hnum, hws, hws', hquote, hraw, hname⟩ := h
  have hbehind : ∀ c q, ws ++ 58 :: (ws' ++ quote :: (raw ++ quote :: rest)) = c :: q →
      isDigit c = false := by
    intro c q heq
    cases ws with
    | nil =>
        obtain ⟨rfl, -⟩ := List.cons.inj heq
        rfl
    | cons b ws =>
        obtain ⟨rfl, -⟩ := List.cons.inj heq
        exact not_isDigit_of_isWs (hws b List.mem_cons_self)
  have htext : num ++ (ws ++ 58 :: (ws' ++ quote :: (raw ++ [quote]))) ++ rest =
      num ++ (ws ++ 58 :: (ws' ++ quote :: (raw ++ quote :: rest))) := by simp
  have hquoteWs : isWs quote = false := by
    rcases hquote with rfl | rfl <;> rfl
  have hkind : ¬ (quote ≠ 34 ∧ quote ≠ 39) := by tauto
  have hopen : ∀ c ∈ raw, decide (c ≠ quote) = true := fun c hc =>
    decide_eq_true fun heq => hraw (heq ▸ hc)
  have hend : (raw ++ quote :: rest).dropWhile (fun c => decide (c ≠ quote)) = quote :: rest := by
    rw [dropWhile_append_of_all hopen]
    simp
  have htake : (raw ++ quote :: rest).takeWhile (fun c => decide (c ≠ quote)) = raw := by
    rw [List.takeWhile_append_of_pos hopen]
    simp
  rw [htext, confAlias, confParseU32_append hnum hbehind]
  simp only [dropWhile_blanks hws (show isWs 58 = false from rfl), ne_eq, not_true_eq_false,
    if_false, dropWhile_blanks hws' hquoteWs, if_neg hkind, hend, htake, UInt32.ofNat_toNat]
  rw [← hname]

theorem readsItems_alias : ReadsItems isWs 125 confAlias AliasItem where
  sound _ _ _ h := confAlias_sound h
  complete _ _ rest h _ := confAlias_complete h rest
  starts text a h := by
    obtain ⟨num, ws, ws', quote, raw, rfl, hnum, -⟩ := h
    obtain ⟨c, q, rfl, hc⟩ := numeral_starts hnum.1
    refine ⟨c, _, rfl, not_isWs_of_isDigit hc, ?_⟩
    rintro rfl
    exact absurd hc (by decide)

/-! ## What a line says -/

/-- What a line says of the partitions; `none` is a value that does not say it well. -/
inductive ConfSays where
  | nothing
  | points
  | partitions (value : Option (List UInt32))
  | aliases (value : Option (List (UInt32 × List UInt8)))

/-- The reading of a line, when it is cut or not and with what may stand behind the
closing bracket. -/
def confSays (truncated : Bool) (behind : List UInt8 → Bool) (line : List UInt8) : ConfSays :=
  let t := confText line
  if isConfComment t then .nothing
  else if isConfPoints t then .points
  else match splitColon t with
    | none => .nothing
    | some (key, val) =>
        if key = partitionsKey then
          .partitions (if truncated then none
            else ((scanList isWs 91 93 confPartition rtdbdConfMaxPartitions val).filter
              fun r => behind r.2).map Prod.fst)
        else if key = aliasKey then
          .aliases (if truncated then none
            else ((scanList isWs 123 125 confAlias rtdbdConfMaxAliases val).filter
              fun r => behind r.2).map Prod.fst)
        else .nothing

/-- Nothing but blanks and a comment. -/
def onlyComment (rest : List UInt8) : Bool := isConfComment (confTrim rest)

/-- What a line says as it is written. -/
def writtenSays (line : List UInt8) : ConfSays :=
  confSays (decide (Overlong rtdbdConfLineMax line)) onlyComment line

/-- What a line says as it is seen: cut to the buffer, and without what stands behind the
closing bracket. -/
def seenSays (line : List UInt8) : ConfSays :=
  confSays (decide (Overlong rtdbdConfLineMax line)) (fun _ => true)
    (line.take (rtdbdConfLineMax - 1))

/-- The check of the aliases: the place of the first one outside the white-list. -/
def confCheck (ps : List UInt32) (aliases : List (UInt32 × Nat)) : Except Nat (List UInt32) :=
  if ps.isEmpty then .ok ps
  else match aliases.find? fun a => !ps.contains a.1 with
    | none => .ok ps
    | some a => .error a.2

/-- The white-list that some lines give from place `k` on, or the place of the line that
offends. -/
def confOutcome : Nat → List UInt32 → List (UInt32 × Nat) → List ConfSays →
    Except Nat (List UInt32)
  | _, ps, aliases, [] => confCheck ps aliases
  | k, ps, aliases, .nothing :: rest => confOutcome (k + 1) ps aliases rest
  | _, ps, aliases, .points :: _ => confCheck ps aliases
  | k, _, _, .partitions none :: _ => .error k
  | k, _, aliases, .partitions (some ps) :: rest => confOutcome (k + 1) ps aliases rest
  | k, _, _, .aliases none :: _ => .error k
  | k, ps, aliases, .aliases (some more) :: rest =>
      if rtdbdConfMaxAliases < aliases.length + more.length then .error k
      else confOutcome (k + 1) ps (aliases ++ more.map fun a => (a.1, k)) rest

/-! ## The loader follows the lines as they are seen -/

/-- The number of line `k`, counted from 0, in 32 bits. -/
def lineNumber (k : Nat) : UInt32 := UInt32.ofNat (k + 1)

/-- The aliases stand for keys and places of lines. -/
def AliasesAre (aliases : List RtdbdAlias) (keys : List (UInt32 × Nat)) : Prop :=
  aliases.map (fun a => (a.key, a.line)) = keys.map fun a => (a.1, lineNumber a.2)

/-- The answer of the loader for an outcome. -/
def LoadAnswers (load : ConfLoad) : Except Nat (List UInt32) → Prop
  | .ok ps => load.rc = 0 ∧ load.conf = ⟨ps⟩
  | .error k => load.rc = -1 ∧ load.errLine = lineNumber k

theorem AliasesAre.length_eq {aliases : List RtdbdAlias} {keys : List (UInt32 × Nat)}
    (h : AliasesAre aliases keys) : aliases.length = keys.length := by
  simpa using congrArg List.length h

/-- Lists with the same keys have the same key in their first element of a kind. -/
theorem find?_sameKey {α β κ : Type} {f : α → κ} {g : β → κ} {as : List α} {bs : List β}
    (h : as.map f = bs.map g) (p : κ → Bool) :
    (as.find? fun a => p (f a)).map f = (bs.find? fun b => p (g b)).map g := by
  have hfind := congrArg (List.find? p) h
  rw [List.find?_map, List.find?_map] at hfind
  exact hfind

theorem confDone_answers {s : ConfState} {keys : List (UInt32 × Nat)}
    (h : AliasesAre s.aliases keys) : LoadAnswers (confDone s) (confCheck s.partitions keys) := by
  have hfind := find?_sameKey h fun a => !s.partitions.contains a.1
  dsimp only at hfind
  rw [confDone, confCheck]
  split
  case isTrue => exact ⟨rfl, rfl⟩
  case isFalse =>
    split
    case h_1 hnone =>
      rw [hnone] at hfind
      rw [Option.map_eq_none_iff.mp hfind.symm]
      exact ⟨rfl, rfl⟩
    case h_2 a hsome =>
      rw [hsome] at hfind
      obtain ⟨b, hb, heq⟩ := Option.map_eq_some_iff.mp hfind.symm
      rw [hb]
      exact ⟨rfl, (Prod.mk.inj heq).2.symm⟩

/-- The aliases of a line are those of its map, when there is room for them. -/
theorem parseAliases_eq (val : List UInt8) (aliases : List RtdbdAlias) (line : UInt32) :
    parseAliases val aliases line =
      ((scanList isWs 123 125 confAlias rtdbdConfMaxAliases val).filter fun r =>
        r.1.length ≤ rtdbdConfMaxAliases - aliases.length).map fun r =>
          aliases ++ r.1.map fun a => ⟨a.1, a.2, line⟩ := by
  rw [parseAliases, scanList_room readsItems_alias rfl rfl rfl (by decide) (Nat.sub_le _ _)]

theorem filter_true {α : Type} (o : Option α) : o.filter (fun _ => true) = o := by
  cases o <;> rfl

section

variable (s : ConfState) (line : List UInt8)

/-- The turn of the loop for a line of the file. -/
def confTurn : ConfLoad ⊕ ConfState :=
  confLine s (line.take (rtdbdConfLineMax - 1)) (decide (Overlong rtdbdConfLineMax line))

/-- What a turn does, by what the line says. -/
def confStep (s : ConfState) : ConfSays → ConfLoad ⊕ ConfState
  | .nothing => .inr { s with lineno := s.lineno + 1 }
  | .points => .inl (confDone { s with lineno := s.lineno + 1 })
  | .partitions none | .aliases none => .inl ⟨-1, ⟨s.partitions⟩, s.aliases, s.lineno + 1⟩
  | .partitions (some ps) => .inr { s with lineno := s.lineno + 1, partitions := ps }
  | .aliases (some more) =>
      if more.length ≤ rtdbdConfMaxAliases - s.aliases.length then
        .inr { s with
          lineno := s.lineno + 1
          aliases := s.aliases ++ more.map fun a => ⟨a.1, a.2, s.lineno + 1⟩ }
      else .inl ⟨-1, ⟨s.partitions⟩, s.aliases, s.lineno + 1⟩

theorem confTurn_eq : confTurn s line = confStep s (seenSays line) := by
  rw [confTurn, confLine, seenSays, confSays]
  dsimp only
  split
  case isTrue => rfl
  case isFalse =>
    split
    case isTrue => rfl
    case isFalse =>
      split
      case h_1 => rfl
      case h_2 key val _ =>
        split
        case isTrue =>
          simp only [filter_true, parsePartitions]
          split
          case isTrue => rfl
          case isFalse => cases scanList isWs 91 93 confPartition rtdbdConfMaxPartitions val <;> rfl
        case isFalse =>
          split
          case isTrue =>
            simp only [filter_true, parseAliases_eq]
            split
            case isTrue => rfl
            case isFalse =>
              cases scanList isWs 123 125 confAlias rtdbdConfMaxAliases val with
              | none => rfl
              | some r =>
                  simp only [Option.filter_some, Option.map_some, confStep]
                  split
                  case h_1 hfilter =>
                    split at hfilter
                    case isTrue => cases hfilter
                    case isFalse hroom => rw [if_neg (by simpa using hroom)]
                  case h_2 aliases hfilter =>
                    split at hfilter
                    case isTrue hroom =>
                      obtain rfl := Option.some.inj hfilter
                      rw [if_pos (by simpa using hroom)]
                    case isFalse => cases hfilter
          case isFalse => rfl

end

/-- The loop gives the outcome of the lines as they are seen. -/
theorem confScan_answers (ls : List (List UInt8)) (k : Nat) (s : ConfState)
    (keys : List (UInt32 × Nat)) (hline : s.lineno = UInt32.ofNat k)
    (hkeys : AliasesAre s.aliases keys) (hroom : keys.length ≤ rtdbdConfMaxAliases) :
    LoadAnswers (scan confTurn confDone s ls)
      (confOutcome k s.partitions keys (ls.map seenSays)) := by
  induction ls generalizing k s keys with
  | nil => exact confDone_answers hkeys
  | cons line rest ih =>
      have hnext : s.lineno + 1 = lineNumber k := by
        rw [hline, lineNumber, UInt32.ofNat_add k 1]
        rfl
      rw [List.map_cons, scan, confTurn_eq]
      cases seenSays line with
      | nothing => exact ih (k + 1) _ keys hnext hkeys hroom
      | points => exact confDone_answers (s := { s with lineno := s.lineno + 1 }) hkeys
      | partitions value =>
          cases value with
          | none => exact ⟨rfl, hnext⟩
          | some ps =>
              exact ih (k + 1) { s with lineno := s.lineno + 1, partitions := ps } keys hnext
                hkeys hroom
      | aliases value =>
          cases value with
          | none => exact ⟨rfl, hnext⟩
          | some more =>
              have hlength := hkeys.length_eq
              rw [confOutcome, confStep]
              by_cases hfits : more.length ≤ rtdbdConfMaxAliases - s.aliases.length
              · have hfits' : keys.length + more.length ≤ rtdbdConfMaxAliases := by omega
                rw [if_pos hfits, if_neg (Nat.not_lt.mpr hfits')]
                refine ih (k + 1) _ _ hnext ?_ (by simpa using hfits')
                rw [AliasesAre, List.map_append, List.map_append, hkeys, List.map_map,
                  List.map_map, hnext]
                rfl
              · have hfull : rtdbdConfMaxAliases < keys.length + more.length := by omega
                rw [if_neg hfits, if_pos hfull]
                exact ⟨rfl, hnext⟩

theorem confText_break (text : List UInt8) : confText (text ++ [lineBreak]) = confText text := by
  rw [confText, List.rdropWhile_concat_pos _ _ _ rfl, confText]

/-- `rtdbd_conf_load` gives the outcome of the lines of the file as they are seen. -/
theorem rtdbdConfLoad_answers {file : List UInt8} (hnul : (0 : UInt8) ∉ file) :
    LoadAnswers (rtdbdConfLoad file) (confOutcome 0 [] [] ((lines file).map seenSays)) := by
  rw [rtdbdConfLoad, forLines_eq (fun s text => by simp only [confLine, confText_break]) confDone
    file.length ⟨0, [], []⟩ file (Nat.le_refl _) hnul]
  exact confScan_answers (lines file) 0 ⟨0, [], []⟩ [] rfl rfl (Nat.zero_le _)

/-! ## What the file says -/

/-- A complete list `[n, ...]` within the capacity, with nothing but a comment behind it. -/
def PartitionsText (val : List UInt8) (ps : List UInt32) : Prop :=
  ps.length ≤ rtdbdConfMaxPartitions ∧
    ∃ rest, onlyComment rest = true ∧ ListText isWs 91 93 PartitionItem val ps rest

/-- A complete map `{n: "s", ...}` within the capacity, with nothing but a comment
behind it. -/
def AliasesText (val : List UInt8) (as : List (UInt32 × List UInt8)) : Prop :=
  as.length ≤ rtdbdConfMaxAliases ∧
    ∃ rest, onlyComment rest = true ∧ ListText isWs 123 125 AliasItem val as rest

/-- The line and its value, when the line has the key. -/
def keyVal (key line : List UInt8) : Option (List UInt8 × List UInt8) :=
  if isConfComment (confText line) then none
  else match splitColon (confText line) with
    | none => none
    | some (k, val) => if k = key then some (line, val) else none

/-- The lines with a key before the points. -/
def keyLines (key : List UInt8) (ls : List (List UInt8)) : List (List UInt8 × List UInt8) :=
  (ls.takeWhile fun line => !isConfPoints (confText line)).filterMap (keyVal key)

/-- The line fits the buffer and has the value. -/
def FitsWith {α : Type} (Text : List UInt8 → α → Prop) (line : List UInt8 × List UInt8) (a : α) :
    Prop := ¬ Overlong rtdbdConfLineMax line.1 ∧ Text line.2 a

/-- The last list, or none. -/
def whiteList (pss : List (List UInt32)) : List UInt32 := pss.getLast?.getD []

/-- The lines before the points have these values, within the limits. -/
structure ConfSaid (ls : List (List UInt8)) (pss : List (List UInt32))
    (ass : List (List (UInt32 × List UInt8))) : Prop where
  partitions : List.Forall₂ (FitsWith PartitionsText) (keyLines partitionsKey ls) pss
  aliases : List.Forall₂ (FitsWith AliasesText) (keyLines aliasKey ls) ass
  room : ass.flatten.length ≤ rtdbdConfMaxAliases
  within : whiteList pss ≠ [] → ∀ a ∈ ass.flatten, a.1 ∈ whiteList pss

theorem filter_map_eq_some_iff {α : Type} {o : Option (α × List UInt8)} {behind : List UInt8 → Bool}
    {a : α} : (o.filter fun r => behind r.2).map Prod.fst = some a ↔
      ∃ rest, behind rest = true ∧ o = some (a, rest) := by
  simp [Option.filter_eq_some_iff, and_comm]

theorem scanPartitions_iff {val rest : List UInt8} {ps : List UInt32} :
    scanList isWs 91 93 confPartition rtdbdConfMaxPartitions val = some (ps, rest) ↔
      ListText isWs 91 93 PartitionItem val ps rest ∧ ps.length ≤ rtdbdConfMaxPartitions :=
  scanList_eq_some_iff readsItems_partition rfl rfl rfl (by decide)

theorem scanAliases_iff {val rest : List UInt8} {as : List (UInt32 × List UInt8)} :
    scanList isWs 123 125 confAlias rtdbdConfMaxAliases val = some (as, rest) ↔
      ListText isWs 123 125 AliasItem val as rest ∧ as.length ≤ rtdbdConfMaxAliases :=
  scanList_eq_some_iff readsItems_alias rfl rfl rfl (by decide)

/-- The items within the capacity are read whole when only a comment is behind them. -/
theorem onlyComment_iff {α : Type} {o : Option (List α × List UInt8)} {as : List α} {cap : Nat}
    {Text : List UInt8 → Prop} (h : ∀ rest, o = some (as, rest) ↔ Text rest ∧ as.length ≤ cap) :
    (o.filter fun r => onlyComment r.2).map Prod.fst = some as ↔
      as.length ≤ cap ∧ ∃ rest, onlyComment rest = true ∧ Text rest := by
  rw [filter_map_eq_some_iff]
  simp only [h]
  constructor
  · rintro ⟨rest, hrest, hlist, hroom⟩
    exact ⟨hroom, rest, hrest, hlist⟩
  · rintro ⟨hroom, rest, hrest, hlist⟩
    exact ⟨rest, hrest, hlist, hroom⟩

theorem partitionsText_iff {val : List UInt8} {ps : List UInt32} :
    ((scanList isWs 91 93 confPartition rtdbdConfMaxPartitions val).filter
      fun r => onlyComment r.2).map Prod.fst = some ps ↔ PartitionsText val ps :=
  onlyComment_iff fun _ => scanPartitions_iff

theorem aliasesText_iff {val : List UInt8} {as : List (UInt32 × List UInt8)} :
    ((scanList isWs 123 125 confAlias rtdbdConfMaxAliases val).filter
      fun r => onlyComment r.2).map Prod.fst = some as ↔ AliasesText val as :=
  onlyComment_iff fun _ => scanAliases_iff

theorem fitsWith_iff {α : Type} {Text : List UInt8 → α → Prop} {o : Option α}
    {line val : List UInt8} (h : ∀ a, o = some a ↔ Text val a) (a : α) :
    (if decide (Overlong rtdbdConfLineMax line) = true then none else o) = some a ↔
      FitsWith Text (line, val) a := by
  split
  case isTrue hover =>
    exact iff_of_false (by simp) fun hfits => hfits.1 (of_decide_eq_true hover)
  case isFalse hfits =>
    rw [h a]
    exact (and_iff_right fun hover => hfits (decide_eq_true hover)).symm

theorem not_points_of_comment {t : List UInt8} (h : isConfComment t = true) :
    isConfPoints t = false := by
  cases t with
  | nil => rfl
  | cons c q =>
      have hc : c = 35 := by simpa [isConfComment] using h
      subst hc
      rfl

/-- What a line says as it is written, by its key. -/
theorem writtenSays_cases (line : List UInt8) :
    (writtenSays line = .points ∧ isConfPoints (confText line) = true) ∨
    isConfPoints (confText line) = false ∧
      ((writtenSays line = .nothing ∧ keyVal partitionsKey line = none ∧
          keyVal aliasKey line = none) ∨
        (∃ val value, writtenSays line = .partitions value ∧
          keyVal partitionsKey line = some (line, val) ∧ keyVal aliasKey line = none ∧
          ∀ ps, value = some ps ↔ FitsWith PartitionsText (line, val) ps) ∨
        ∃ val value, writtenSays line = .aliases value ∧ keyVal partitionsKey line = none ∧
          keyVal aliasKey line = some (line, val) ∧
          ∀ as, value = some as ↔ FitsWith AliasesText (line, val) as) := by
  rw [writtenSays, confSays]
  simp only [keyVal]
  split
  case isTrue hcomment => exact .inr ⟨not_points_of_comment hcomment, .inl ⟨rfl, rfl, rfl⟩⟩
  case isFalse =>
    split
    case isTrue hpoints => exact .inl ⟨rfl, hpoints⟩
    case isFalse hpoints =>
      refine .inr ⟨Bool.eq_false_iff.mpr hpoints, ?_⟩
      cases splitColon (confText line) with
      | none => exact .inl ⟨rfl, rfl, rfl⟩
      | some kv =>
          obtain ⟨key, val⟩ := kv
          dsimp only
          split
          case isTrue hkey =>
            have hother : key ≠ aliasKey := hkey ▸ by decide
            refine .inr (.inl ⟨val, _, rfl, rfl, if_neg hother, ?_⟩)
            exact fitsWith_iff fun ps => partitionsText_iff
          case isFalse hkey =>
            split
            case isTrue =>
              refine .inr (.inr ⟨val, _, rfl, rfl, rfl, ?_⟩)
              exact fitsWith_iff fun as => aliasesText_iff
            case isFalse => exact .inl ⟨rfl, rfl, rfl⟩

/-- The lines with a key, one line further. -/
theorem keyLines_cons (key : List UInt8) {line : List UInt8} (h : isConfPoints (confText line) = false)
    (rest : List (List UInt8)) :
    keyLines key (line :: rest) = (keyVal key line).toList ++ keyLines key rest := by
  rw [keyLines, keyLines, List.takeWhile_cons, h]
  cases hval : keyVal key line with
  | none => simp [hval]
  | some lv => simp [hval]

theorem keyLines_points {key line : List UInt8} (h : isConfPoints (confText line) = true)
    (rest : List (List UInt8)) : keyLines key (line :: rest) = [] := by
  rw [keyLines, List.takeWhile_cons, h]
  rfl

/-- What is said behind a white-list and aliases that are already there. -/
structure SaidBehind (ls : List (List UInt8)) (ps₀ : List UInt32) (keys : List (UInt32 × Nat))
    (ps : List UInt32) (pss : List (List UInt32)) (ass : List (List (UInt32 × List UInt8))) :
    Prop where
  partitions : List.Forall₂ (FitsWith PartitionsText) (keyLines partitionsKey ls) pss
  aliases : List.Forall₂ (FitsWith AliasesText) (keyLines aliasKey ls) ass
  room : keys.length + ass.flatten.length ≤ rtdbdConfMaxAliases
  last : pss.getLast?.getD ps₀ = ps
  within : ps ≠ [] → (∀ a ∈ keys, a.1 ∈ ps) ∧ ∀ a ∈ ass.flatten, a.1 ∈ ps

theorem confCheck_eq_ok_iff {ps₀ ps : List UInt32} {keys : List (UInt32 × Nat)} :
    confCheck ps₀ keys = .ok ps ↔ ps₀ = ps ∧ (ps ≠ [] → ∀ a ∈ keys, a.1 ∈ ps) := by
  rw [confCheck]
  split
  case isTrue hnil =>
    obtain rfl := List.isEmpty_iff.mp hnil
    constructor
    · rintro ⟨⟩
      exact ⟨rfl, fun hne => absurd rfl hne⟩
    · rintro ⟨rfl, -⟩
      rfl
  case isFalse hne =>
    split
    case h_1 hfind =>
      have hall : ∀ a ∈ keys, a.1 ∈ ps₀ := by simpa using hfind
      constructor
      · rintro ⟨⟩
        exact ⟨rfl, fun _ => hall⟩
      · rintro ⟨rfl, -⟩
        rfl
    case h_2 a hfind =>
      refine iff_of_false (by simp) ?_
      rintro ⟨rfl, hall⟩
      have hin := hall (fun hnil => hne (List.isEmpty_iff.mpr hnil)) a
        (List.mem_of_find?_eq_some hfind)
      have hout := List.find?_some hfind
      simp [hin] at hout

section

variable {ls rest : List (List UInt8)} {line val : List UInt8} {ps₀ ps : List UInt32}
  {keys : List (UInt32 × Nat)}

theorem saidBehind_none (hp : keyLines partitionsKey ls = []) (ha : keyLines aliasKey ls = [])
    (hroom : keys.length ≤ rtdbdConfMaxAliases) :
    confCheck ps₀ keys = .ok ps ↔ ∃ pss ass, SaidBehind ls ps₀ keys ps pss ass := by
  rw [confCheck_eq_ok_iff]
  constructor
  · rintro ⟨rfl, hin⟩
    exact ⟨[], [], hp ▸ .nil, ha ▸ .nil, hroom, rfl, fun hne => ⟨hin hne, by simp⟩⟩
  · rintro ⟨pss, ass, hsaid⟩
    have hnone := hsaid.partitions
    rw [hp] at hnone
    obtain rfl := List.forall₂_nil_left_iff.mp hnone
    exact ⟨hsaid.last, fun hne => (hsaid.within hne).1⟩

theorem saidBehind_partitions (hp : keyLines partitionsKey ls =
      (line, val) :: keyLines partitionsKey rest) (ha : keyLines aliasKey ls = keyLines aliasKey rest)
    {value : Option (List UInt32)}
    (hvalue : ∀ ps, value = some ps ↔ FitsWith PartitionsText (line, val) ps) :
    (∃ pss ass, SaidBehind ls ps₀ keys ps pss ass) ↔
      ∃ ps₁, value = some ps₁ ∧ ∃ pss ass, SaidBehind rest ps₁ keys ps pss ass := by
  constructor
  · rintro ⟨pss, ass, hsaid⟩
    have hlines := hsaid.partitions
    rw [hp] at hlines
    obtain ⟨ps₁, pss', hfits, hrest, rfl⟩ := List.forall₂_cons_left_iff.mp hlines
    have hlast := hsaid.last
    rw [List.getLast?_cons] at hlast
    exact ⟨ps₁, (hvalue ps₁).mpr hfits, pss', ass, hrest, ha ▸ hsaid.aliases, hsaid.room, hlast,
      hsaid.within⟩
  · rintro ⟨ps₁, hps₁, pss, ass, hsaid⟩
    refine ⟨ps₁ :: pss, ass, hp ▸ .cons ((hvalue ps₁).mp hps₁) hsaid.partitions,
      ha ▸ hsaid.aliases, hsaid.room, ?_, hsaid.within⟩
    rw [List.getLast?_cons]
    exact hsaid.last

theorem saidBehind_aliases (hp : keyLines partitionsKey ls = keyLines partitionsKey rest)
    (ha : keyLines aliasKey ls = (line, val) :: keyLines aliasKey rest)
    {value : Option (List (UInt32 × List UInt8))}
    (hvalue : ∀ as, value = some as ↔ FitsWith AliasesText (line, val) as) (k : Nat) :
    (∃ pss ass, SaidBehind ls ps₀ keys ps pss ass) ↔
      ∃ as, value = some as ∧ keys.length + as.length ≤ rtdbdConfMaxAliases ∧
        ∃ pss ass, SaidBehind rest ps₀ (keys ++ as.map fun a => (a.1, k)) ps pss ass := by
  constructor
  · rintro ⟨pss, ass, hsaid⟩
    have hlines := hsaid.aliases
    rw [ha] at hlines
    obtain ⟨as, ass', hfits, hrest, rfl⟩ := List.forall₂_cons_left_iff.mp hlines
    have hroom := hsaid.room
    rw [List.flatten_cons, List.length_append] at hroom
    refine ⟨as, (hvalue as).mpr hfits, by omega, pss, ass', hp ▸ hsaid.partitions, hrest, ?_,
      hsaid.last, fun hne => ?_⟩
    · rw [List.length_append, List.length_map]
      omega
    · have hwithin := hsaid.within hne
      simp only [List.flatten_cons, List.mem_append] at hwithin
      refine ⟨?_, fun a hmem => hwithin.2 a (.inr hmem)⟩
      intro a hmem
      rcases List.mem_append.mp hmem with hold | hnew
      · exact hwithin.1 a hold
      · obtain ⟨b, hb, rfl⟩ := List.mem_map.mp hnew
        exact hwithin.2 b (.inl hb)
  · rintro ⟨as, has, -, pss, ass, hsaid⟩
    have hroom := hsaid.room
    rw [List.length_append, List.length_map] at hroom
    refine ⟨pss, as :: ass, hp ▸ hsaid.partitions, ha ▸ .cons ((hvalue as).mp has) hsaid.aliases,
      ?_, hsaid.last, fun hne => ?_⟩
    · rw [List.flatten_cons, List.length_append]
      omega
    · obtain ⟨hold, hnew⟩ := hsaid.within hne
      refine ⟨fun a hmem => hold a (List.mem_append_left _ hmem), fun a hmem => ?_⟩
      rw [List.flatten_cons] at hmem
      rcases List.mem_append.mp hmem with hfirst | hlater
      · exact hold (a.1, k) (List.mem_append_right _ (List.mem_map.mpr ⟨a, hfirst, rfl⟩))
      · exact hnew a hlater

end

/-- The outcome of the lines as they are written is what they say. -/
theorem confOutcome_written_iff (ls : List (List UInt8)) (k : Nat) (ps₀ ps : List UInt32)
    (keys : List (UInt32 × Nat)) (hroom : keys.length ≤ rtdbdConfMaxAliases) :
    confOutcome k ps₀ keys (ls.map writtenSays) = .ok ps ↔
      ∃ pss ass, SaidBehind ls ps₀ keys ps pss ass := by
  induction ls generalizing k ps₀ keys with
  | nil => exact saidBehind_none rfl rfl hroom
  | cons line rest ih =>
      rw [List.map_cons]
      obtain ⟨hsay, hpoints⟩ | ⟨hpoints, ⟨hsay, hp, ha⟩ | ⟨val, value, hsay, hp, ha, hvalue⟩ |
        ⟨val, value, hsay, hp, ha, hvalue⟩⟩ := writtenSays_cases line
      · rw [hsay]
        exact saidBehind_none (keyLines_points hpoints rest) (keyLines_points hpoints rest) hroom
      all_goals
        have hpLines := keyLines_cons partitionsKey hpoints rest
        have haLines := keyLines_cons aliasKey hpoints rest
        rw [hp] at hpLines
        rw [ha] at haLines
        rw [hsay]
      · rw [confOutcome, ih (k + 1) ps₀ keys hroom]
        constructor
        · rintro ⟨pss, ass, hsaid⟩
          exact ⟨pss, ass, hpLines ▸ hsaid.partitions, haLines ▸ hsaid.aliases, hsaid.room,
            hsaid.last, hsaid.within⟩
        · rintro ⟨pss, ass, hsaid⟩
          have hps := hsaid.partitions
          have has := hsaid.aliases
          rw [hpLines] at hps
          rw [haLines] at has
          exact ⟨pss, ass, hps, has, hsaid.room, hsaid.last, hsaid.within⟩
      · rw [saidBehind_partitions hpLines haLines hvalue]
        cases value with
        | none => exact iff_of_false (by simp [confOutcome]) (by simp)
        | some ps₁ => simpa [confOutcome] using ih (k + 1) ps₁ keys hroom
      · rw [saidBehind_aliases hpLines haLines hvalue k]
        cases value with
        | none => exact iff_of_false (by simp [confOutcome]) (by simp)
        | some as =>
            rw [confOutcome]
            split
            case isTrue hfull =>
              refine iff_of_false (by simp) ?_
              rintro ⟨as', heq, hfits, -⟩
              obtain rfl := Option.some.inj heq
              omega
            case isFalse hfits =>
              rw [ih (k + 1) ps₀ _ (by simpa using Nat.not_lt.mp hfits)]
              constructor
              · intro hsaid
                exact ⟨as, rfl, Nat.not_lt.mp hfits, hsaid⟩
              · rintro ⟨as', heq, -, hsaid⟩
                obtain rfl := Option.some.inj heq
                exact hsaid

theorem saidBehind_start_iff {ls : List (List UInt8)} {ps : List UInt32} :
    (∃ pss ass, SaidBehind ls [] [] ps pss ass) ↔
      ∃ pss ass, ConfSaid ls pss ass ∧ whiteList pss = ps := by
  constructor
  · rintro ⟨pss, ass, hsaid⟩
    obtain rfl := hsaid.last
    exact ⟨pss, ass, ⟨hsaid.partitions, hsaid.aliases, by simpa using hsaid.room,
      fun hne => (hsaid.within hne).2⟩, rfl⟩
  · rintro ⟨pss, ass, hsaid, rfl⟩
    exact ⟨pss, ass, hsaid.partitions, hsaid.aliases, by simpa using hsaid.room, rfl,
      fun hne => ⟨by simp, hsaid.within hne⟩⟩

/-! ## The white-list is what the file says -/

/-- The outcome of a file as it is written, and as it is seen. -/
def writtenOutcome (file : List UInt8) : Except Nat (List UInt32) :=
  confOutcome 0 [] [] ((lines file).map writtenSays)

def seenOutcome (file : List UInt8) : Except Nat (List UInt32) :=
  confOutcome 0 [] [] ((lines file).map seenSays)

theorem writtenOutcome_ok_iff {file : List UInt8} {ps : List UInt32} :
    writtenOutcome file = .ok ps ↔
      ∃ pss ass, ConfSaid (lines file) pss ass ∧ whiteList pss = ps := by
  rw [writtenOutcome, confOutcome_written_iff _ _ _ _ _ (Nat.zero_le _), saidBehind_start_iff]

/-- The load succeeds when the lines before the points say the two keys well; then a
partition is allowed as the last list says.  Otherwise the line that offends is named. -/
structure ConfTold (file : List UInt8) : Prop where
  ok_iff : (rtdbdConfLoad file).rc = 0 ↔ ∃ pss ass, ConfSaid (lines file) pss ass
  allowed : (rtdbdConfLoad file).rc = 0 → ∀ pss ass, ConfSaid (lines file) pss ass → ∀ p,
    rtdbdConfPartitionAllowed (rtdbdConfLoad file).conf p = true ↔
      whiteList pss = [] ∨ p ∈ whiteList pss
  failed : (rtdbdConfLoad file).rc ≠ 0 → ∃ k, writtenOutcome file = .error k ∧
    (rtdbdConfLoad file).errLine.toNat = k + 1

/-- Two outcomes that cannot be told apart: the same partitions are allowed, or the lines
that offend have the same number in 32 bits, and the first number needs no more. -/
def SameOutcome : Except Nat (List UInt32) → Except Nat (List UInt32) → Prop
  | .ok ps, .ok ps' => ∀ p, rtdbdConfPartitionAllowed ⟨ps⟩ p = rtdbdConfPartitionAllowed ⟨ps'⟩ p
  | .error k, .error k' => k + 1 < 2 ^ 32 ∧ (k' + 1) % 2 ^ 32 = k + 1
  | _, _ => False

theorem rtdbdConfPartitionAllowed_iff (ps : List UInt32) (p : UInt32) :
    rtdbdConfPartitionAllowed ⟨ps⟩ p = true ↔ ps = [] ∨ p ∈ ps := by
  simp [rtdbdConfPartitionAllowed]

/-- The white-list is what the file says exactly when the lines as they are seen have the
outcome of the lines as they are written. -/
theorem confTold_iff {file : List UInt8} (hnul : (0 : UInt8) ∉ file) :
    ConfTold file ↔ SameOutcome (writtenOutcome file) (seenOutcome file) := by
  have hload : LoadAnswers (rtdbdConfLoad file) (seenOutcome file) := rtdbdConfLoad_answers hnul
  have hline : ∀ k, (lineNumber k).toNat = (k + 1) % 2 ^ 32 := fun k => UInt32.toNat_ofNat'
  have hsaid : ∀ ps, writtenOutcome file = .ok ps ↔
      ∃ pss ass, ConfSaid (lines file) pss ass ∧ whiteList pss = ps :=
    fun ps => writtenOutcome_ok_iff
  cases hwritten : writtenOutcome file with
  | ok ps =>
      obtain ⟨pss, ass, hconf, rfl⟩ := (hsaid ps).mp hwritten
      cases hseen : seenOutcome file with
      | ok ps' =>
          rw [hseen] at hload
          obtain ⟨hrc, hps'⟩ := hload
          constructor
          · intro htold p
            have hallowed := htold.allowed hrc pss ass hconf p
            rw [hps', ← rtdbdConfPartitionAllowed_iff] at hallowed
            exact (Bool.eq_iff_iff.mpr hallowed).symm
          · intro hsame
            refine ⟨iff_of_true hrc ⟨pss, ass, hconf⟩, fun _ pss' ass' hconf' p => ?_,
              fun hne => absurd hrc hne⟩
            have hunique := (hsaid _).mpr ⟨pss', ass', hconf', rfl⟩
            rw [hwritten] at hunique
            rw [hps', ← hsame p, rtdbdConfPartitionAllowed_iff, Except.ok.inj hunique]
      | error k' =>
          rw [hseen] at hload
          refine iff_of_false (fun htold => ?_) fun h => h
          have hrc := htold.ok_iff.mpr ⟨pss, ass, hconf⟩
          rw [hload.1] at hrc
          exact absurd hrc (by decide)
  | error k =>
      have hnone : ¬ ∃ pss ass, ConfSaid (lines file) pss ass := fun ⟨pss, ass, hconf⟩ => by
        have hok := (hsaid _).mpr ⟨pss, ass, hconf, rfl⟩
        rw [hwritten] at hok
        cases hok
      cases hseen : seenOutcome file with
      | ok ps' =>
          rw [hseen] at hload
          exact iff_of_false (fun htold => hnone (htold.ok_iff.mp hload.1)) fun h => h
      | error k' =>
          rw [hseen] at hload
          obtain ⟨hrc, herr⟩ := hload
          have hfails : (rtdbdConfLoad file).rc ≠ 0 := by
            rw [hrc]
            decide
          have hlt := (rtdbdConfLoad file).errLine.toNat_lt
          constructor
          · intro htold
            obtain ⟨k₁, hk₁, hnumber⟩ := htold.failed hfails
            rw [hwritten] at hk₁
            obtain rfl := Except.error.inj hk₁
            exact ⟨by omega, by rw [← hline, ← herr, hnumber]⟩
          · rintro ⟨-, hmod⟩
            exact ⟨iff_of_false hfails hnone, fun hok => absurd hok hfails,
              fun _ => ⟨k, hwritten, by rw [herr, hline, hmod]⟩⟩

/-! ## Lines that are read as they are written -/

/-- Nothing that a line says is out of sight: behind a list or a map within the capacity there
is only a comment; and the colon of a key, or that of `points:`, is among the bytes that are
read. -/
structure InSight (line : List UInt8) : Prop where
  behindList : ¬ Overlong rtdbdConfLineMax line → ∀ lv ∈ keyVal partitionsKey line, ∀ ps rest,
    ListText isWs 91 93 PartitionItem lv.2 ps rest → ps.length ≤ rtdbdConfMaxPartitions →
      onlyComment rest = true
  behindMap : ¬ Overlong rtdbdConfLineMax line → ∀ lv ∈ keyVal aliasKey line, ∀ as rest,
    ListText isWs 123 125 AliasItem lv.2 as rest → as.length ≤ rtdbdConfMaxAliases →
      onlyComment rest = true
  colon : isConfPoints (confText line) = true ∨ (keyVal partitionsKey line).isSome = true ∨
    (keyVal aliasKey line).isSome = true → 58 ∈ line.take (rtdbdConfLineMax - 1)

theorem rdropWhile_append_kept {p : UInt8 → Bool} {c : UInt8} (hc : p c = false)
    (front back : List UInt8) :
    (front ++ c :: back).rdropWhile p = front ++ c :: back.rdropWhile p := by
  induction back using List.reverseRecOn with
  | nil => exact List.rdropWhile_concat_neg p front c (by simp [hc])
  | append_singleton back d ih =>
      have hassoc : front ++ c :: (back ++ [d]) = front ++ c :: back ++ [d] := by simp
      rw [hassoc, List.rdropWhile_concat, List.rdropWhile_concat, ih]
      split
      · rfl
      · exact hassoc.symm

/-- The text of a line up to a colon does not depend on what is behind it. -/
theorem confText_colon (front back : List UInt8) :
    ∃ value, confText (front ++ 58 :: back) = front.dropWhile isWs ++ 58 :: value := by
  have hblanks : ∀ back, (front ++ 58 :: back).dropWhile isWs =
      front.dropWhile isWs ++ 58 :: back := by
    intro back
    rw [List.dropWhile_append]
    split
    case isTrue hempty =>
      rw [List.isEmpty_iff.mp hempty]
      rfl
    case isFalse => rfl
  rw [confText, confTrim, rdropWhile_append_kept rfl, hblanks, rdropWhile_append_kept rfl]
  exact ⟨_, rfl⟩

theorem takeWhile_colon {front : List UInt8} (hfront : 58 ∉ front) (back : List UInt8) :
    (front ++ 58 :: back).takeWhile (· ≠ 58) = front := by
  have hopen : ∀ c ∈ front, decide (c ≠ 58) = true := fun c hc =>
    decide_eq_true fun heq => hfront (heq ▸ hc)
  rw [List.takeWhile_append_of_pos hopen]
  simp

theorem splitColon_colon {front : List UInt8} (hfront : 58 ∉ front) (back : List UInt8) :
    splitColon (front ++ 58 :: back) = some (confTrim front, confTrim back) := by
  have hopen : ∀ c ∈ front, decide (c ≠ 58) = true := fun c hc =>
    decide_eq_true fun heq => hfront (heq ▸ hc)
  have hbehind : (front ++ 58 :: back).dropWhile (· ≠ 58) = 58 :: back := by
    rw [dropWhile_append_of_all hopen]
    simp
  rw [splitColon, hbehind, takeWhile_colon hfront]

/-- The line begins the points where the text before the colon is `points`. -/
theorem isConfPoints_colon {front : List UInt8} (hfront : 58 ∉ front) (back : List UInt8) :
    isConfPoints (front ++ 58 :: back) = decide (front = ascii "points") := by
  rw [Bool.eq_iff_iff, decide_eq_true_iff, isConfPoints, List.isPrefixOf_iff_prefix]
  constructor
  · rintro ⟨rest, hrest⟩
    have hsame := congrArg (List.takeWhile (· ≠ 58)) hrest
    rw [takeWhile_colon hfront] at hsame
    exact hsame.symm
  · rintro rfl
    exact ⟨back, rfl⟩

/-- Of a line that is cut, only the text before the colon counts. -/
theorem confSays_cut {line line' front value value' : List UInt8} (hfront : 58 ∉ front)
    (hline : confText line = front ++ 58 :: value)
    (hline' : confText line' = front ++ 58 :: value') (behind behind' : List UInt8 → Bool) :
    confSays true behind line = confSays true behind' line' := by
  have hcomment : isConfComment (front ++ 58 :: value) = isConfComment (front ++ 58 :: value') := by
    cases front with
    | nil => rfl
    | cons c front => rfl
  rw [confSays, confSays, hline, hline', hcomment, isConfPoints_colon hfront,
    isConfPoints_colon hfront, splitColon_colon hfront, splitColon_colon hfront]
  rfl

/-- A text without a colon says nothing. -/
theorem confSays_of_no_colon {line : List UInt8} (hcolon : 58 ∉ confText line)
    (truncated : Bool) (behind : List UInt8 → Bool) :
    confSays truncated behind line = .nothing := by
  have hpoints : isConfPoints (confText line) = false := by
    rw [Bool.eq_false_iff, isConfPoints, Ne, List.isPrefixOf_iff_prefix]
    exact fun hstarts => hcolon (hstarts.subset (by decide))
  have hsplit : splitColon (confText line) = none := by
    have hnone : (confText line).dropWhile (· ≠ 58) = [] := by
      rw [List.dropWhile_eq_nil_iff]
      exact fun c hc => decide_eq_true fun heq => hcolon (heq ▸ hc)
    rw [splitColon, hnone]
  rw [confSays, hpoints, hsplit]
  split
  · rfl
  · rfl

theorem mem_of_mem_confText {line : List UInt8} {c : UInt8} (h : c ∈ confText line) : c ∈ line :=
  ( List.rdropWhile_prefix _ _).subset
    ((List.dropWhile_suffix _).subset (( List.rdropWhile_prefix _ _).subset h))

theorem filter_behind {α : Type} {o : Option (α × List UInt8)}
    (h : ∀ a rest, o = some (a, rest) → onlyComment rest = true) :
    (o.filter fun r => onlyComment r.2) = o := by
  rcases o with - | ⟨a, rest⟩
  · rfl
  · exact if_pos (h a rest rfl)

/-- A line of which nothing is out of sight is seen as it is written. -/
theorem InSight.seenSays_eq {line : List UInt8} (h : InSight line) :
    seenSays line = writtenSays line := by
  by_cases hover : Overlong rtdbdConfLineMax line
  · rw [seenSays, writtenSays, decide_eq_true hover]
    by_cases hcolon : 58 ∈ line.take (rtdbdConfLineMax - 1)
    · obtain ⟨front, back, hsplit, hfront⟩ := List.eq_append_cons_of_mem hcolon
      have hline : line = front ++ 58 :: (back ++ line.drop (rtdbdConfLineMax - 1)) := by
        rw [← List.cons_append, ← List.append_assoc, ← hsplit, List.take_append_drop]
      obtain ⟨value, hvalue⟩ := confText_colon front back
      obtain ⟨value', hvalue'⟩ :=
        confText_colon front (back ++ line.drop (rtdbdConfLineMax - 1))
      rw [← hsplit] at hvalue
      rw [← hline] at hvalue'
      exact confSays_cut (fun hmem => hfront ((List.dropWhile_suffix _).subset hmem))
        hvalue hvalue' _ _
    · have hwritten : writtenSays line = .nothing := by
        obtain ⟨-, hpoints⟩ | ⟨-, ⟨hsay, -⟩ | ⟨val, value, -, hp, -⟩ | ⟨val, value, -, -, ha, -⟩⟩ :=
          writtenSays_cases line
        · exact absurd (h.colon (.inl hpoints)) hcolon
        · exact hsay
        · exact absurd (h.colon (.inr (.inl (by rw [hp]; rfl)))) hcolon
        · exact absurd (h.colon (.inr (.inr (by rw [ha]; rfl)))) hcolon
      rw [writtenSays, decide_eq_true hover] at hwritten
      rw [hwritten]
      exact confSays_of_no_colon (fun hmem => hcolon (mem_of_mem_confText hmem)) _ _
  · have hwhole : line.take (rtdbdConfLineMax - 1) = line :=
      List.take_of_length_le (Nat.le_of_lt (Nat.not_le.mp hover))
    rw [seenSays, writtenSays, hwhole, decide_eq_false hover, confSays, confSays]
    split
    case isTrue => rfl
    case isFalse hcomment =>
      split
      case isTrue => rfl
      case isFalse =>
        cases hsplit : splitColon (confText line) with
        | none => rfl
        | some kv =>
            obtain ⟨key, val⟩ := kv
            dsimp only
            split
            case isTrue hkey =>
              have hval : keyVal partitionsKey line = some (line, val) := by
                rw [keyVal, if_neg hcomment, hsplit]
                exact if_pos hkey
              rw [filter_true, filter_behind fun ps rest hscan => ?_]
              obtain ⟨hlist, hroom⟩ := scanPartitions_iff.mp hscan
              exact h.behindList hover _ hval ps rest hlist hroom
            case isFalse =>
              split
              case isTrue hkey =>
                have hval : keyVal aliasKey line = some (line, val) := by
                  rw [keyVal, if_neg hcomment, hsplit]
                  exact if_pos hkey
                rw [filter_true, filter_behind fun as rest hscan => ?_]
                obtain ⟨hmap, hroom⟩ := scanAliases_iff.mp hscan
                exact h.behindMap hover _ hval as rest hmap hroom
              case isFalse => rfl

/-- What the scanners find decides whether anything is out of sight. -/
theorem inSight_iff {line : List UInt8} : InSight line ↔
    (¬ Overlong rtdbdConfLineMax line →
      (∀ lv ∈ keyVal partitionsKey line,
        ∀ r ∈ scanList isWs 91 93 confPartition rtdbdConfMaxPartitions lv.2,
          onlyComment r.2 = true) ∧
      ∀ lv ∈ keyVal aliasKey line,
        ∀ r ∈ scanList isWs 123 125 confAlias rtdbdConfMaxAliases lv.2, onlyComment r.2 = true) ∧
    (isConfPoints (confText line) = true ∨ (keyVal partitionsKey line).isSome = true ∨
      (keyVal aliasKey line).isSome = true → 58 ∈ line.take (rtdbdConfLineMax - 1)) := by
  constructor
  · intro h
    refine ⟨fun hfits => ⟨fun lv hlv r hr => ?_, fun lv hlv r hr => ?_⟩, h.colon⟩
    · obtain ⟨hlist, hroom⟩ := scanPartitions_iff.mp hr
      exact h.behindList hfits lv hlv r.1 r.2 hlist hroom
    · obtain ⟨hmap, hroom⟩ := scanAliases_iff.mp hr
      exact h.behindMap hfits lv hlv r.1 r.2 hmap hroom
  · rintro ⟨hbehind, hcolon⟩
    refine ⟨fun hfits lv hlv ps rest hlist hroom => ?_, fun hfits lv hlv as rest hmap hroom => ?_,
      hcolon⟩
    · exact (hbehind hfits).1 lv hlv (ps, rest) (scanPartitions_iff.mpr ⟨hlist, hroom⟩)
    · exact (hbehind hfits).2 lv hlv (as, rest) (scanAliases_iff.mpr ⟨hmap, hroom⟩)

instance (line : List UInt8) : Decidable (InSight line) := decidable_of_iff' _ inSight_iff

/-- The lines, none of which begins the points, say the two keys well. -/
def Inoffensive (ls : List (List UInt8)) (room : Nat) : Prop :=
  (∀ line ∈ ls, isConfPoints (confText line) = false) ∧ ∃ pss ass,
    List.Forall₂ (FitsWith PartitionsText) (keyLines partitionsKey ls) pss ∧
    List.Forall₂ (FitsWith AliasesText) (keyLines aliasKey ls) ass ∧ ass.flatten.length ≤ room

/-- Every line is in sight that has only inoffensive lines before it. -/
def InSightUpTo (ls : List (List UInt8)) (room : Nat) : Prop :=
  ∀ before line after, ls = before ++ line :: after → Inoffensive before room → InSight line

theorem inoffensive_nil (room : Nat) : Inoffensive [] room :=
  ⟨fun _ h => (List.not_mem_nil h).elim, [], [], .nil, .nil, Nat.zero_le _⟩

/-- What makes a line inoffensive, and what it leaves to those behind it. -/
theorem inoffensive_cons {line : List UInt8} {rest : List (List UInt8)} {room : Nat} :
    Inoffensive (line :: rest) room ↔
      match writtenSays line with
      | .nothing => Inoffensive rest room
      | .partitions value => value.isSome = true ∧ Inoffensive rest room
      | .aliases value => ∃ as, value = some as ∧ as.length ≤ room ∧
          Inoffensive rest (room - as.length)
      | .points => False := by
  rw [Inoffensive, List.forall_mem_cons]
  obtain ⟨hsay, hpoints⟩ | ⟨hpoints, hcases⟩ := writtenSays_cases line
  · rw [hsay, hpoints]
    exact iff_of_false (fun h => Bool.noConfusion h.1.1) not_false
  rw [keyLines_cons partitionsKey hpoints, keyLines_cons aliasKey hpoints]
  obtain ⟨hsay, hp, ha⟩ | ⟨val, value, hsay, hp, ha, hvalue⟩ |
    ⟨val, value, hsay, hp, ha, hvalue⟩ := hcases
  · rw [hsay, hp, ha]
    exact ⟨fun h => ⟨h.1.2, h.2⟩, fun h => ⟨⟨hpoints, h.1⟩, h.2⟩⟩
  · rw [hsay, hp, ha]
    constructor
    · rintro ⟨⟨-, hrest⟩, pss, ass, hps, has, hfits⟩
      obtain ⟨ps, pss', hfirst, hps', -⟩ := List.forall₂_cons_left_iff.mp hps
      rw [(hvalue ps).mpr hfirst]
      exact ⟨rfl, hrest, pss', ass, hps', has, hfits⟩
    · rintro ⟨hsome, hrest, pss, ass, hps, has, hfits⟩
      obtain ⟨ps, hps₁⟩ := Option.isSome_iff_exists.mp hsome
      exact ⟨⟨hpoints, hrest⟩, ps :: pss, ass, .cons ((hvalue ps).mp hps₁) hps, has, hfits⟩
  · rw [hsay, hp, ha]
    constructor
    · rintro ⟨⟨-, hrest⟩, pss, ass, hps, has, hfits⟩
      obtain ⟨as, ass', hfirst, has', rfl⟩ := List.forall₂_cons_left_iff.mp has
      rw [List.flatten_cons, List.length_append] at hfits
      exact ⟨as, (hvalue as).mpr hfirst, by omega, hrest, pss, ass', hps, has', by omega⟩
    · rintro ⟨as, has₁, hroom, hrest, pss, ass, hps, has, hfits⟩
      refine ⟨⟨hpoints, hrest⟩, pss, as :: ass, hps, .cons ((hvalue as).mp has₁) has, ?_⟩
      rw [List.flatten_cons, List.length_append]
      omega

/-- Behind an inoffensive line it goes on with the room that is left. -/
theorem InSightUpTo.tail {line : List UInt8} {rest : List (List UInt8)} {room room' : Nat}
    (h : InSightUpTo (line :: rest) room)
    (hline : ∀ before, Inoffensive before room' → Inoffensive (line :: before) room) :
    InSightUpTo rest room' := by
  intro before line' after hsplit hbefore
  exact h (line :: before) line' after (by rw [hsplit, List.cons_append]) (hline before hbefore)

/-- The lines that are in sight have the outcome of the lines as they are written. -/
theorem confOutcome_seen (ls : List (List UInt8)) : ∀ (k : Nat) (ps₀ : List UInt32)
    (keys : List (UInt32 × Nat)), keys.length ≤ rtdbdConfMaxAliases →
      InSightUpTo ls (rtdbdConfMaxAliases - keys.length) →
      confOutcome k ps₀ keys (ls.map seenSays) = confOutcome k ps₀ keys (ls.map writtenSays) := by
  induction ls with
  | nil => exact fun _ _ _ _ _ => rfl
  | cons line rest ih =>
      intro k ps₀ keys hroom hsight
      have hfirst := (hsight [] line rest rfl (inoffensive_nil _)).seenSays_eq
      rw [List.map_cons, List.map_cons, hfirst]
      have hline := @inoffensive_cons line
      rcases hsay : writtenSays line with - | - | value | value
      · refine ih (k + 1) ps₀ keys hroom (hsight.tail fun before hbefore => hline.mpr ?_)
        rw [hsay]
        exact hbefore
      · rfl
      · cases value with
        | none => rfl
        | some ps₁ =>
            refine ih (k + 1) ps₁ keys hroom (hsight.tail fun before hbefore => hline.mpr ?_)
            rw [hsay]
            exact ⟨rfl, hbefore⟩
      · cases value with
        | none => rfl
        | some as =>
            rw [confOutcome, confOutcome]
            split
            case isTrue => rfl
            case isFalse hless =>
              refine ih (k + 1) ps₀ _ (by simpa using hless)
                (hsight.tail fun before hbefore => hline.mpr ?_)
              rw [List.length_append, List.length_map, ← Nat.sub_sub] at hbefore
              rw [hsay]
              exact ⟨as, rfl, by omega, hbefore⟩

/-- **The white-list is what the file says** where, up to the line that offends or to the
points, nothing stands behind a bracket but a comment and no key, colon or `points:` behind
the bytes that are read; and where the number of the line that offends, if one does, fits 32
bits. -/
theorem confTold_of_inSight {file : List UInt8} (hnul : (0 : UInt8) ∉ file)
    (hsight : InSightUpTo (lines file) rtdbdConfMaxAliases)
    (hcount : ∀ k, writtenOutcome file = .error k → k + 1 < 2 ^ 32) : ConfTold file := by
  have hsame : seenOutcome file = writtenOutcome file :=
    confOutcome_seen (lines file) 0 [] [] (Nat.zero_le _) hsight
  refine (confTold_iff hnul).mpr ?_
  rw [hsame]
  cases hwritten : writtenOutcome file with
  | ok ps => exact fun p => rfl
  | error k => exact ⟨hcount k hwritten, Nat.mod_eq_of_lt (hcount k hwritten)⟩

/-! ## Lines that are not -/

/-- An outcome that is no white-list names one of the lines, or an alias that was there. -/
theorem confOutcome_error {said : List ConfSays} : ∀ {k k' : Nat} {ps : List UInt32}
    {keys : List (UInt32 × Nat)}, confOutcome k ps keys said = .error k' →
      (k ≤ k' ∧ k' < k + said.length) ∨ ∃ a ∈ keys, a.2 = k' := by
  have hcheck : ∀ {ps : List UInt32} {keys : List (UInt32 × Nat)} {k' : Nat},
      confCheck ps keys = .error k' → ∃ a ∈ keys, a.2 = k' := by
    intro ps keys k' h
    rw [confCheck] at h
    split at h
    case isTrue => cases h
    case isFalse =>
      split at h
      case h_1 => cases h
      case h_2 a hfind => exact ⟨a, List.mem_of_find?_eq_some hfind, Except.error.inj h⟩
  induction said with
  | nil => exact fun h => .inr (hcheck h)
  | cons say rest ih =>
      intro k k' ps keys h
      have hlater : ∀ {ps : List UInt32}, confOutcome (k + 1) ps keys rest = .error k' →
          (k ≤ k' ∧ k' < k + (say :: rest).length) ∨ ∃ a ∈ keys, a.2 = k' := by
        intro ps h
        obtain ⟨hle, hlt⟩ | hold := ih h
        · rw [List.length_cons]
          exact .inl (by omega)
        · exact .inr hold
      have hhere : k = k' → (k ≤ k' ∧ k' < k + (say :: rest).length) ∨ ∃ a ∈ keys, a.2 = k' := by
        rintro rfl
        exact .inl ⟨Nat.le_refl _, by simp⟩
      cases say with
      | nothing => exact hlater h
      | points => exact .inr (hcheck h)
      | partitions value =>
          cases value with
          | none => exact hhere (Except.error.inj h)
          | some ps => exact hlater h
      | aliases value =>
          cases value with
          | none => exact hhere (Except.error.inj h)
          | some more =>
              rw [confOutcome] at h
              split at h
              case isTrue => exact hhere (Except.error.inj h)
              case isFalse =>
                obtain ⟨hle, hlt⟩ | ⟨a, hmem, ha⟩ := ih h
                · rw [List.length_cons]
                  exact .inl (by omega)
                · rcases List.mem_append.mp hmem with hold | hnew
                  · exact .inr ⟨a, hold, ha⟩
                  · obtain ⟨b, -, rfl⟩ := List.mem_map.mp hnew
                    exact hhere ha

/-- Inoffensive lines leave a white-list and aliases. -/
theorem confOutcome_inoffensive (before : List (List UInt8)) : ∀ (k : Nat) (ps₀ : List UInt32)
    (keys : List (UInt32 × Nat)), keys.length ≤ rtdbdConfMaxAliases →
      Inoffensive before (rtdbdConfMaxAliases - keys.length) → ∃ ps keys',
        (∀ a ∈ keys', a ∈ keys ∨ a.2 < k + before.length) ∧ ∀ later,
          confOutcome k ps₀ keys (before.map writtenSays ++ later) =
            confOutcome (k + before.length) ps keys' later := by
  induction before with
  | nil => exact fun k ps₀ keys _ _ => ⟨ps₀, keys, fun _ h => .inl h, fun _ => rfl⟩
  | cons line rest ih =>
      intro k ps₀ keys hroom hgood
      have hplace : k + 1 + rest.length = k + (line :: rest).length := by
        rw [List.length_cons]
        omega
      have hline := inoffensive_cons.mp hgood
      rw [List.map_cons, ← hplace]
      rcases hsay : writtenSays line with - | - | value | value
      · rw [hsay] at hline
        exact ih (k + 1) ps₀ keys hroom hline
      · rw [hsay] at hline
        exact hline.elim
      · rw [hsay] at hline
        obtain ⟨hsome, hrest⟩ := hline
        obtain ⟨ps₁, rfl⟩ := Option.isSome_iff_exists.mp hsome
        exact ih (k + 1) ps₁ keys hroom hrest
      · rw [hsay] at hline
        obtain ⟨as, rfl, hfits, hrest⟩ := hline
        have hlength : (keys ++ as.map fun a => (a.1, k)).length = keys.length + as.length := by
          rw [List.length_append, List.length_map]
        obtain ⟨ps, keys', hkeys, hout⟩ := ih (k + 1) ps₀ (keys ++ as.map fun a => (a.1, k))
          (by omega) (by rwa [hlength, ← Nat.sub_sub])
        refine ⟨ps, keys', fun a hmem => ?_, fun later => ?_⟩
        · rcases hkeys a hmem with hmem | hlt
          · rcases List.mem_append.mp hmem with hold | hnew
            · exact .inl hold
            · obtain ⟨b, -, rfl⟩ := List.mem_map.mp hnew
              exact .inr (by dsimp only; omega)
          · exact .inr hlt
        · rw [List.cons_append, confOutcome, if_neg (by omega)]
          exact hout later

theorem keyVal_of_points {key line : List UInt8} (hpoints : isConfPoints (confText line) = true)
    (hkey : key ≠ ascii "points") : keyVal key line = none := by
  rw [isConfPoints, List.isPrefixOf_iff_prefix] at hpoints
  obtain ⟨rest, hrest⟩ := hpoints
  have hsplit : splitColon (confText line) = some (ascii "points", confTrim rest) := by
    rw [← hrest]
    exact @splitColon_colon (ascii "points") (by decide) rest
  rw [keyVal, hsplit]
  split
  · rfl
  · exact if_neg fun h => hkey h.symm

/-- A line with a key has a colon. -/
theorem colon_of_keyVal {key line : List UInt8} {lv : List UInt8 × List UInt8}
    (h : keyVal key line = some lv) : 58 ∈ line := by
  by_contra hcolon
  have hnone : (confText line).dropWhile (· ≠ 58) = [] := by
    rw [List.dropWhile_eq_nil_iff]
    exact fun c hc => decide_eq_true fun heq => hcolon (mem_of_mem_confText (heq ▸ hc))
  rw [keyVal, splitColon, hnone] at h
  split at h
  · cases h
  · cases h

theorem eq_none_of_not_fits {α : Type} {Text : List UInt8 → α → Prop}
    {lv : List UInt8 × List UInt8} {value : Option α}
    (hvalue : ∀ a, value = some a ↔ FitsWith Text lv a) (hnot : ∀ a, ¬ FitsWith Text lv a) :
    value = none :=
  Option.eq_none_iff_forall_ne_some.mpr fun a h => hnot a ((hvalue a).mp h)

/-- A key whose colon is behind the bytes that are read is not seen. -/
theorem readings_of_overlong {line : List UInt8} (hover : Overlong rtdbdConfLineMax line)
    (hkey : (keyVal partitionsKey line).isSome = true ∨ (keyVal aliasKey line).isSome = true)
    (hcolon : 58 ∉ line.take (rtdbdConfLineMax - 1)) :
    (writtenSays line = .partitions none ∨ writtenSays line = .aliases none) ∧
      seenSays line = .nothing := by
  refine ⟨?_, confSays_of_no_colon (fun hmem => hcolon (mem_of_mem_confText hmem)) _ _⟩
  obtain ⟨-, hpoints⟩ | ⟨-, ⟨-, hp, ha⟩ | ⟨val, value, hsay, -, -, hvalue⟩ |
    ⟨val, value, hsay, -, -, hvalue⟩⟩ := writtenSays_cases line
  · rw [keyVal_of_points hpoints (by decide), keyVal_of_points hpoints (by decide)] at hkey
    rcases hkey with hkey | hkey
    · cases hkey
    · cases hkey
  · rw [hp, ha] at hkey
    rcases hkey with hkey | hkey
    · cases hkey
    · cases hkey
  · rw [eq_none_of_not_fits hvalue fun _ hfits => hfits.1 hover] at hsay
    exact .inl hsay
  · rw [eq_none_of_not_fits hvalue fun _ hfits => hfits.1 hover] at hsay
    exact .inr hsay

/-- A text behind a complete list is not seen. -/
theorem readings_of_behind {line : List UInt8} (hfits : ¬ Overlong rtdbdConfLineMax line)
    (hkey : (keyVal partitionsKey line).isSome = true) (hhidden : ¬ InSight line) :
    writtenSays line = .partitions none ∧ ∃ ps, seenSays line = .partitions (some ps) := by
  have hwhole : line.take (rtdbdConfLineMax - 1) = line :=
    List.take_of_length_le (Nat.le_of_lt (Nat.not_le.mp hfits))
  obtain ⟨lv, hlv⟩ := Option.isSome_iff_exists.mp hkey
  obtain ⟨-, hpoints⟩ | ⟨hpoints, ⟨-, hp, -⟩ | ⟨val, value, hsay, hp, ha, hvalue⟩ |
    ⟨val, value, -, hp, -⟩⟩ := writtenSays_cases line
  · rw [keyVal_of_points hpoints (by decide)] at hlv
    cases hlv
  · rw [hp] at hlv
    cases hlv
  · obtain ⟨r, hscan, hbehind⟩ : ∃ r, scanList isWs 91 93 confPartition rtdbdConfMaxPartitions
        val = some r ∧ onlyComment r.2 ≠ true := by
      by_contra hnone
      refine hhidden (inSight_iff.mpr ⟨fun _ => ⟨fun lv' hlv' r hr => ?_, fun lv' hlv' => ?_⟩,
        fun _ => ?_⟩)
      · obtain rfl := Option.some.inj (hp.symm.trans hlv')
        by_contra hbehind
        exact hnone ⟨r, hr, hbehind⟩
      · rw [ha] at hlv'
        cases hlv'
      · rw [hwhole]
        exact colon_of_keyVal hp
    constructor
    · have hnot : ∀ ps, ¬ FitsWith PartitionsText (line, val) ps := by
        rintro ps ⟨-, hroom, rest, hrest, hlist⟩
        obtain rfl := Option.some.inj (hscan.symm.trans (scanPartitions_iff.mpr ⟨hlist, hroom⟩))
        exact hbehind hrest
      rw [hsay, eq_none_of_not_fits hvalue hnot]
    · refine ⟨r.1, ?_⟩
      rw [keyVal] at hp
      rw [seenSays, hwhole, decide_eq_false hfits, confSays]
      split at hp
      case isTrue => cases hp
      case isFalse hcomment =>
        rw [if_neg hcomment, if_neg (by simp [hpoints])]
        rcases hsplit : splitColon (confText line) with - | ⟨key, val'⟩
        · rw [hsplit] at hp
          cases hp
        · rw [hsplit] at hp
          dsimp only at hp ⊢
          split at hp
          case isTrue hpartitions =>
            obtain rfl : val' = val := (Prod.mk.inj (Option.some.inj hp)).2
            rw [if_pos hpartitions, filter_true, hscan]
            rfl
          case isFalse => cases hp
  · rw [hp] at hlv
    cases hlv

/-- A line that offends as it is written and of which something is out of sight: a list with
a text behind it, or a line that is too long with its colon behind the cut. -/
theorem readings_of_hidden {line : List UInt8}
    (hkey : (keyVal partitionsKey line).isSome = true ∨
      (keyVal aliasKey line).isSome = true ∧ Overlong rtdbdConfLineMax line)
    (hhidden : ¬ InSight line) :
    (writtenSays line = .partitions none ∨ writtenSays line = .aliases none) ∧
      (seenSays line = .nothing ∨ ∃ ps, seenSays line = .partitions (some ps)) := by
  by_cases hover : Overlong rtdbdConfLineMax line
  · have hcolon : 58 ∉ line.take (rtdbdConfLineMax - 1) := fun hcolon =>
      hhidden ⟨fun hfits => absurd hover hfits, fun hfits => absurd hover hfits, fun _ => hcolon⟩
    obtain ⟨hwritten, hseen⟩ := readings_of_overlong hover (hkey.imp_right And.left) hcolon
    exact ⟨hwritten, .inl hseen⟩
  · obtain ⟨hwritten, hseen⟩ :=
      readings_of_behind hover (hkey.resolve_right fun h => hover h.2) hhidden
    exact ⟨.inl hwritten, .inr hseen⟩

/-- Where the first line out of sight has a list with a text behind it, or is too long with
the colon of its key behind the cut, the white-list is not what the file says: the loader
goes on behind that line, and whatever it ends with does not name it. -/
theorem not_confTold_of_hidden {file : List UInt8} (hnul : (0 : UInt8) ∉ file)
    {before after : List (List UInt8)} {line : List UInt8}
    (hlines : lines file = before ++ line :: after) (hshort : (lines file).length < 2 ^ 32)
    (hbefore : Inoffensive before rtdbdConfMaxAliases) (hsight : ∀ l ∈ before, InSight l)
    (hkey : (keyVal partitionsKey line).isSome = true ∨
      (keyVal aliasKey line).isSome = true ∧ Overlong rtdbdConfLineMax line)
    (hhidden : ¬ InSight line) : ¬ ConfTold file := by
  obtain ⟨hwritten, hseen⟩ := readings_of_hidden hkey hhidden
  obtain ⟨ps, keys, hkeys, hout⟩ := confOutcome_inoffensive before 0 [] [] (Nat.zero_le _) hbefore
  rw [Nat.zero_add] at hkeys hout
  have herror : writtenOutcome file = .error before.length := by
    rw [writtenOutcome, hlines, List.map_append, List.map_cons, hout]
    rcases hwritten with h | h
    · rw [h]
      rfl
    · rw [h]
      rfl
  have hsame : before.map seenSays = before.map writtenSays :=
    List.map_congr_left fun l hl => (hsight l hl).seenSays_eq
  have hgoes : ∃ ps', seenOutcome file =
      confOutcome (before.length + 1) ps' keys (after.map seenSays) := by
    rw [seenOutcome, hlines, List.map_append, List.map_cons, hsame, hout]
    rcases hseen with h | ⟨ps', h⟩
    · exact ⟨ps, by rw [h]; rfl⟩
    · exact ⟨ps', by rw [h]; rfl⟩
  obtain ⟨ps', hseen⟩ := hgoes
  rw [confTold_iff hnul, herror]
  intro hsame
  cases hafter : seenOutcome file with
  | ok ps'' =>
      rw [hafter] at hsame
      exact hsame
  | error k' =>
      rw [hafter] at hsame
      obtain ⟨-, hmod⟩ := hsame
      rw [hlines, List.length_append, List.length_cons] at hshort
      obtain ⟨hle, hlt⟩ | ⟨a, hmem, ha⟩ := confOutcome_error (hseen.symm.trans hafter)
      · rw [List.length_map] at hlt
        omega
      · obtain hnone | hlt := hkeys a hmem
        · cases hnone
        · omega

/-- A white-list that is replaced, aliases in quotes with brackets in them, and comments. -/
def twoPartitions : List UInt8 :=
  ascii "# station\npartitions: [1]\n\npartitions: [ 1, 2 ] # both\n" ++
    ascii "partition_alias: \x7b 1: \"a]\", 2: '\x7d' \x7d\npoints:\n- id: 1\n"

theorem confTold_twoPartitions :
    ConfTold twoPartitions ∧ (rtdbdConfLoad twoPartitions).conf.partitions = [1, 2] := by
  refine ⟨confTold_of_inSight (by decide +kernel) ?_ fun k hk => ?_, by decide +kernel⟩
  · have hall : ∀ line ∈ lines twoPartitions, InSight line := by decide +kernel
    rintro before line after hsplit -
    exact hall line (hsplit ▸ List.mem_append_right _ List.mem_cons_self)
  · have hwritten : writtenOutcome twoPartitions = .ok [1, 2] := by rfl
    rw [hwritten] at hk
    cases hk

/-- What stands behind the closing bracket is not looked at. -/
theorem not_confTold : ¬ ConfTold (ascii "partitions: [1], 2]\n") := by
  intro h
  have hok : (rtdbdConfLoad (ascii "partitions: [1], 2]\n")).rc = 0 := by decide +kernel
  obtain ⟨pss, ass, hsaid⟩ := h.ok_iff.mp hok
  have hwritten : writtenOutcome (ascii "partitions: [1], 2]\n") = .error 0 := by rfl
  rw [writtenOutcome_ok_iff.mpr ⟨pss, ass, hsaid, rfl⟩] at hwritten
  cases hwritten

end InduRtdb.Daemon
