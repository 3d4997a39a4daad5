/-
  Api/CanonicalConfig.lean --- the parser of the point configuration reads every
  canonical document.

  Source: `irt_point_config_parse_yaml`, `yaml_parse_kv` and `irt_config_parse_type` of
  `src/core/irt_config.c`.

  A canonical document writes its entries behind a line `points:`; an entry begins with
  its id, and its other keys follow in any order.  A block of lines stores the entry in
  front of it and leaves its own in `cur` (`foldl_block`), and the end of the file stores
  the last one.
-/
import InduRtdb.Api.ConfigFile

set_option autoImplicit false

namespace InduRtdb.Api

open InduRtdb.Core InduRtdb.Lib

/-! ## Entries -/

/-- The accepted names of types. -/
inductive TypeName where
  | bool | int | int32 | int64 | uint32 | double | float | str | string
  deriving DecidableEq

def TypeName.text : TypeName → List UInt8
  | .bool => ascii "bool"
  | .int => ascii "int"
  | .int32 => ascii "int32"
  | .int64 => ascii "int64"
  | .uint32 => ascii "uint32"
  | .double => ascii "double"
  | .float => ascii "float"
  | .str => ascii "str"
  | .string => ascii "string"

/-- The type a name stands for; `float` is a `double`. -/
def TypeName.code : TypeName → Nat
  | .bool => indurtdbTypeBool
  | .int | .int32 => indurtdbTypeInt32
  | .int64 => indurtdbTypeInt64
  | .uint32 => indurtdbTypeUint32
  | .double | .float => indurtdbTypeDouble
  | .str | .string => indurtdbTypeString

theorem irtConfigParseType_text (t : TypeName) :
    irtConfigParseType t.text = UInt8.ofNat t.code := by
  cases t <;> decide

/-- The text begins and ends with the same kind of quote. -/
def Enclosed (v : List UInt8) : Prop :=
  2 ≤ v.length ∧ ∃ q ∈ [34, 39], v.head? = some q ∧ v.getLast? = some q

instance (v : List UInt8) : Decidable (Enclosed v) := inferInstanceAs (Decidable (_ ∧ _))

/-- A text that can stand as a value: no blanks at its ends, and not in quotes. -/
structure Plain (v : List UInt8) : Prop where
  nulFree : (0 : UInt8) ∉ v
  head : ∀ c, v.head? = some c → isSpace c = false
  last : ∀ c, v.getLast? = some c → isSpace c = false
  bare : ¬ Enclosed v

/-- A name as a configuration can give it. -/
structure ConfigName where
  name : CStr
  length_le : name.bytes.length ≤ nameMax
  oneLine : lineBreak ∉ name.bytes
  plain : Plain name.bytes

/-- An entry of a configuration without metadata. -/
structure ConfigEntry where
  id : UInt32
  type : TypeName
  unit : UInt16
  access : UInt8
  name : ConfigName
  named : id ≠ 0 ∨ name.name ≠ .empty

/-- The entry as the parser returns it. -/
def ConfigEntry.toMeta (e : ConfigEntry) : IrtPointMeta where
  id := e.id.toNat
  type := UInt8.ofNat e.type.code
  unit := e.unit
  access := e.access
  name := e.name.name
  pointMeta := .zero
  hasMeta := false
  badValue := false

theorem ConfigEntry.named_toMeta (e : ConfigEntry) : e.toMeta.Named := by
  rcases e.named with hid | hname
  · exact .inl fun hzero => hid (UInt32.toNat_inj.mp hzero)
  · exact .inr hname

/-! ## Documents -/

/-- The keys of an entry. -/
inductive ConfigKey where
  | id | name | type | unit | access
  deriving DecidableEq

def ConfigKey.text : ConfigKey → List UInt8
  | .id => ascii "id"
  | .name => ascii "name"
  | .type => ascii "type"
  | .unit => ascii "unit"
  | .access => ascii "access"

/-- The value of a key. -/
def ConfigEntry.value (e : ConfigEntry) : ConfigKey → List UInt8
  | .id => numeral e.id.toNat
  | .name => e.name.name.bytes
  | .type => e.type.text
  | .unit => numeral e.unit.toNat
  | .access => numeral e.access.toNat

/-- The quotes a value is written in. -/
inductive Quotes where
  | none | single | double

def Quotes.wrap : Quotes → List UInt8 → List UInt8
  | .none, v => v
  | .single, v => 39 :: v ++ [39]
  | .double, v => 34 :: v ++ [34]

/-- The text stands on the line, with blanks around it. -/
def Indented (text line : List UInt8) : Prop :=
  ∃ indent trail, (∀ c ∈ indent, isSpace c = true) ∧ (∀ c ∈ trail, isSpace c = true) ∧
    line = indent ++ text ++ trail

/-- The line is `label: value`. -/
def Writes (label v line : List UInt8) : Prop :=
  ∃ quotes : Quotes, Indented (label ++ 58 :: 32 :: quotes.wrap v) line

/-- The lines of an entry: its id with a dash, and the other keys in any order. -/
inductive ConfigEntry.Block (e : ConfigEntry) : List (List UInt8) → Prop
  | mk {order : List ConfigKey} {first : List UInt8} {fields : List (List UInt8)}
      (perm : order.Perm [.name, .type, .unit, .access])
      (id : Writes (ascii "- id") (e.value .id) first)
      (others : List.Forall₂ (fun key line => Writes key.text (e.value key) line) order fields) :
      Block e (first :: fields)

/-- Blank lines and comment lines. -/
def isNoise (line : List UInt8) : Bool :=
  match line.dropWhile isSpace with
  | [] => true
  | c :: _ => c = 35

/-- A canonical document of the entries. -/
structure Canonical (file : List UInt8) (entries : List ConfigEntry) : Prop where
  short : ∀ line ∈ lines file, line.length < 511
  /-- What stands in front of the line `points:` is of no concern. -/
  shape : ∃ before header blocks,
    (lines file).filter (fun line => !isNoise line) = before ++ header :: blocks.flatten ∧
    (∀ line ∈ before, ¬ ascii "points:" <+: line.dropWhile isSpace) ∧
    Indented (ascii "points:") header ∧ List.Forall₂ ConfigEntry.Block entries blocks

/-! ## Values -/

theorem plain_of_digits {text : List UInt8} {n : Nat} (h : Numeral text n) : Plain text where
  nulFree hmem := absurd (h.digits 0 hmem) (by decide)
  head c hc := not_isSpace_of_isDigit (h.digits c (List.mem_of_mem_head? hc))
  last c hc := not_isSpace_of_isDigit (h.digits c (List.mem_of_getLast? hc))
  bare := by
    rintro ⟨-, q, hq, hhead, -⟩
    have hdigit := h.digits q (List.mem_of_mem_head? hhead)
    rcases List.mem_pair.mp hq with rfl | rfl <;> exact absurd hdigit (by decide)

theorem ConfigEntry.plain_value (e : ConfigEntry) (key : ConfigKey) : Plain (e.value key) := by
  cases key with
  | name => exact e.name.plain
  | type =>
      have hplain : ∀ t : TypeName, Plain t.text := fun t => by
        cases t <;> exact ⟨by decide, by decide +kernel, by decide +kernel, by decide⟩
      exact hplain e.type
  | id => exact plain_of_digits (numeral_value _)
  | unit => exact plain_of_digits (numeral_value _)
  | access => exact plain_of_digits (numeral_value _)

theorem ConfigEntry.length_value_le (e : ConfigEntry) (key : ConfigKey) :
    (e.value key).length ≤ nameMax := by
  have hnumeral : ∀ n < 10 ^ 10, (numeral n).length ≤ nameMax := fun n h =>
    Nat.le_trans (length_numeral_le (by decide) h) (by decide)
  cases key with
  | name => exact e.name.length_le
  | type =>
      have hlength : ∀ t : TypeName, t.text.length ≤ nameMax := fun t => by cases t <;> decide
      exact hlength e.type
  | id => exact hnumeral _ (Nat.lt_trans e.id.toNat_lt (by decide))
  | unit => exact hnumeral _ (Nat.lt_trans e.unit.toNat_lt (by decide))
  | access => exact hnumeral _ (Nat.lt_trans e.access.toNat_lt (by decide))

theorem yamlStripQuotes_of_not_enclosed {v : List UInt8} (h : ¬ Enclosed v) :
    yamlStripQuotes v = v := by
  refine if_neg fun hquoted => h ⟨hquoted.1, ?_⟩
  rcases hquoted.2 with ⟨hhead, hlast⟩ | ⟨hhead, hlast⟩
  · exact ⟨34, by decide, hhead, hlast⟩
  · exact ⟨39, by decide, hhead, hlast⟩

theorem yamlStripQuotes_wrap {v : List UInt8} (h : Plain v) (quotes : Quotes) :
    yamlStripQuotes (quotes.wrap v) = v := by
  cases quotes with
  | none => exact yamlStripQuotes_of_not_enclosed h.bare
  | single => simp [yamlStripQuotes, Quotes.wrap, List.getLast?_cons]
  | double => simp [yamlStripQuotes, Quotes.wrap, List.getLast?_cons]

theorem length_wrap_le (quotes : Quotes) (v : List UInt8) :
    (quotes.wrap v).length ≤ v.length + 2 := by
  cases quotes <;> simp [Quotes.wrap]

theorem yamlTrim_wrap {v : List UInt8} (h : Plain v) (quotes : Quotes) :
    yamlTrim (quotes.wrap v) = quotes.wrap v := by
  have hquote : isSpace 39 = false ∧ isSpace 34 = false := by decide
  cases quotes with
  | none => exact trim_eq_self h.head h.last
  | single =>
      exact trim_eq_self (by simp [Quotes.wrap, hquote])
        (by simp [Quotes.wrap, List.getLast?_cons, hquote])
  | double =>
      exact trim_eq_self (by simp [Quotes.wrap, hquote])
        (by simp [Quotes.wrap, List.getLast?_cons, hquote])

theorem nulFree_wrap {v : List UInt8} (h : Plain v) (quotes : Quotes) :
    (0 : UInt8) ∉ quotes.wrap v := by
  cases quotes <;> simp [Quotes.wrap, h.nulFree]

/-! ## Lines -/

/-- A text in front of a colon that `yaml_parse_kv` leaves as it is. -/
structure Label (label : List UInt8) : Prop where
  ne_nil : label ≠ []
  colonFree : (58 : UInt8) ∉ label
  nulFree : (0 : UInt8) ∉ label
  head : ∀ c, label.head? = some c → isSpace c = false
  fits : label.length ≤ yamlKeyMax - 1
  trimmed : yamlTrimKey label = label

theorem ConfigKey.label_text (key : ConfigKey) : Label key.text := by
  cases key <;> exact ⟨by decide, by decide, by decide, by decide +kernel, by decide, by decide⟩

theorem yamlParseKv_label {label v w : List UInt8} (hlabel : Label label)
    (hw : w.length ≤ yamlValMax - 1) (hv : yamlTrim w = v) :
    yamlParseKv (label ++ 58 :: w) = some (label, yamlStripQuotes v) := by
  have hbefore : ∀ c ∈ label, (decide (c ≠ 58)) = true := fun c hc =>
    decide_eq_true fun heq => hlabel.colonFree (heq ▸ hc)
  have hdrop : (label ++ 58 :: w).dropWhile (· ≠ 58) = 58 :: w := by
    rw [dropWhile_append_of_all hbefore]
    rfl
  have htake : (label ++ 58 :: w).takeWhile (· ≠ 58) = label := by
    rw [List.takeWhile_append_of_pos hbefore]
    simp
  rw [yamlParseKv, hdrop]
  simp only [htake, List.take_of_length_le hlabel.fits, List.take_of_length_le hw,
    hlabel.trimmed, hv]

/-- A text that begins with no blank, between blanks. -/
theorem yamlTrim_indented {text line : List UInt8} (h : Indented text line)
    (hhead : ∀ c, text.head? = some c → isSpace c = false) :
    yamlTrim line = text.rdropWhile isSpace := by
  obtain ⟨indent, trail, hindent, htrail, rfl⟩ := h
  rw [yamlTrim, trim_append_right htrail, trim_append_left hindent, trim_of_head hhead]

theorem nulFree_indented {text line : List UInt8} (h : Indented text line)
    (htext : (0 : UInt8) ∉ text) : (0 : UInt8) ∉ line := by
  obtain ⟨indent, trail, hindent, htrail, rfl⟩ := h
  have hzero : isSpace 0 = false := by decide
  simp only [List.mem_append, not_or]
  exact ⟨⟨fun hmem => by simp [hindent 0 hmem] at hzero, htext⟩,
    fun hmem => by simp [htrail 0 hmem] at hzero⟩

/-- What is left of a line `label: value`. -/
theorem yamlTrim_writes {label v line : List UInt8} (hlabel : Label label) (hv : Plain v)
    (hlength : v.length ≤ nameMax) (h : Writes label v line) :
    ∃ w, yamlTrim (cstr line) = label ++ 58 :: w ∧ w.length ≤ yamlValMax - 1 ∧
      yamlStripQuotes (yamlTrim w) = v := by
  obtain ⟨quotes, hline⟩ := h
  have hcolon : isSpace 58 = false := by decide
  have hblank : ∀ c ∈ [(32 : UInt8)], isSpace c = true := by decide +kernel
  have hnul : (0 : UInt8) ∉ line := nulFree_indented hline <| by
    simp [hlabel.nulFree, nulFree_wrap hv]
  have hhead : ∀ c, (label ++ 58 :: 32 :: quotes.wrap v).head? = some c → isSpace c = false := by
    rw [List.head?_append_of_ne_nil _ hlabel.ne_nil]
    exact hlabel.head
  refine ⟨(32 :: quotes.wrap v).rdropWhile isSpace, ?_, ?_, ?_⟩
  · rw [cstr_of_nulFree hnul, yamlTrim_indented hline hhead, rdropWhile_append_cons hcolon]
  · have hprefix := (List.rdropWhile_prefix isSpace (l := 32 :: quotes.wrap v)).length_le
    have hwrap := length_wrap_le quotes v
    rw [List.length_cons] at hprefix
    have hbound : nameMax + 2 + 1 ≤ yamlValMax - 1 := by decide
    omega
  · have htrim : yamlTrim ((32 :: quotes.wrap v).rdropWhile isSpace) = quotes.wrap v := by
      rw [yamlTrim, trim_rdropWhile]
      exact (trim_append_left hblank _).trans (yamlTrim_wrap hv quotes)
    rw [htrim, yamlStripQuotes_wrap hv]

/-- What a key does to an entry. -/
def ConfigEntry.set (e : ConfigEntry) (cur : IrtPointMeta) : ConfigKey → IrtPointMeta
  | .id => { cur with id := e.id.toNat }
  | .name => { cur with name := e.name.name }
  | .type => { cur with type := UInt8.ofNat e.type.code }
  | .unit => { cur with unit := e.unit }
  | .access => { cur with access := e.access }

theorem strtoul_value {n : Nat} (h : n < 2 ^ 64) : (strtoul 10 (numeral n)).value = n := by
  rw [strtoul_numeral (numeral_value n) h]

theorem yamlSet_value (libc : Libc) (e : ConfigEntry) (cur : IrtPointMeta) (key : ConfigKey) :
    yamlSet libc cur key.text (e.value key) = e.set cur key := by
  cases key with
  | id =>
      have hvalue := strtoul_value (Nat.lt_trans e.id.toNat_lt (by decide))
      rw [ConfigKey.text, yamlSet, if_pos rfl, ConfigEntry.value, hvalue,
        Nat.mod_eq_of_lt e.id.toNat_lt, ConfigEntry.set]
  | name =>
      have hname : CStr.ofBytes (e.name.name.bytes.take nameMax) = e.name.name := by
        refine CStr.ext_bytes ?_
        rw [List.take_of_length_le e.name.length_le]
        exact cstr_of_nulFree e.name.name.nulFree
      rw [ConfigKey.text, yamlSet, if_neg (by decide), if_pos rfl, ConfigEntry.value, hname,
        ConfigEntry.set]
  | type =>
      rw [ConfigKey.text, yamlSet, if_neg (by decide), if_neg (by decide), if_pos rfl,
        ConfigEntry.value, irtConfigParseType_text, ConfigEntry.set]
  | unit =>
      have hvalue := strtoul_value (Nat.lt_trans e.unit.toNat_lt (by decide))
      rw [ConfigKey.text, yamlSet, if_neg (by decide), if_neg (by decide), if_neg (by decide),
        if_pos rfl, ConfigEntry.value, hvalue, UInt16.ofNat_toNat, ConfigEntry.set]
  | access =>
      have hvalue := strtoul_value (Nat.lt_trans e.access.toNat_lt (by decide))
      rw [ConfigKey.text, yamlSet, if_neg (by decide), if_neg (by decide), if_neg (by decide),
        if_neg (by decide), if_pos rfl, ConfigEntry.value, hvalue, UInt8.ofNat_toNat,
        ConfigEntry.set]

/-! ## Turns of the loop -/

section

variable {libc : Libc} {s : YamlState} {e : ConfigEntry} {line : List UInt8}

theorem keyValue_value (libc : Libc) {key : ConfigKey} {w : List UInt8}
    (hw : w.length ≤ yamlValMax - 1) (hv : yamlStripQuotes (yamlTrim w) = e.value key) :
    s.keyValue libc (key.text ++ 58 :: w) = { s with cur := e.set s.cur key } := by
  simp only [YamlState.keyValue, yamlParseKv_label key.label_text hw rfl, hv, yamlSet_value]

/-- A line with another key than the id. -/
theorem yamlLine_field {key : ConfigKey} (hpoints : s.inPoints = true)
    (h : Writes key.text (e.value key) line) :
    yamlLine libc s (cstr line) = { s with cur := e.set s.cur key } := by
  obtain ⟨w, htrim, hw, hv⟩ :=
    yamlTrim_writes key.label_text (e.plain_value key) (e.length_value_le key) h
  rw [← keyValue_value libc hw hv]
  have hhead : ∃ c rest, key.text = c :: rest ∧ c ≠ 35 ∧ c ≠ 112 ∧ c ≠ 45 := by
    cases key <;> exact ⟨_, _, rfl, by decide, by decide, by decide⟩
  obtain ⟨c, rest, htext, hcomment, hheader, hdash⟩ := hhead
  have hnotHeader : ¬ ascii "points:" <+: c :: (rest ++ 58 :: w) := fun hprefix =>
    hheader (List.cons_prefix_cons.mp hprefix).1.symm
  have hnotItem : ¬ ascii "- " <+: c :: (rest ++ 58 :: w) := fun hprefix =>
    hdash (List.cons_prefix_cons.mp hprefix).1.symm
  simp [yamlLine, htrim, hpoints, hnotHeader, hnotItem, htext, hcomment]

/-- The line that begins an entry. -/
theorem yamlLine_item (hpoints : s.inPoints = true)
    (h : Writes (ascii "- id") (e.value .id) line) :
    yamlLine libc s (cstr line) = ⟨true, e.set .zero .id, s.flush⟩ := by
  have hlabel : Label (ascii "- id") :=
    ⟨by decide, by decide, by decide, by decide +kernel, by decide, by decide⟩
  obtain ⟨w, htrim, hw, hv⟩ :=
    yamlTrim_writes hlabel (e.plain_value .id) (e.length_value_le .id) h
  have hitem : yamlLine libc s (cstr line) =
      YamlState.keyValue libc ⟨true, .zero, s.flush⟩ (ConfigKey.id.text ++ 58 :: w) := by
    rw [yamlLine, htrim]
    simp [hpoints, ascii, ConfigKey.text, List.isPrefixOf]
  rw [hitem, keyValue_value libc hw hv]

end

/-! ## Blocks and documents -/

section

variable {libc : Libc}

instance (e : ConfigEntry) : RightCommutative e.set where
  right_comm cur a b := by cases a <;> cases b <;> rfl

/-- The entry is complete when every key has been set. -/
theorem foldl_set (e : ConfigEntry) {order : List ConfigKey}
    (perm : order.Perm [.name, .type, .unit, .access]) :
    order.foldl e.set (e.set .zero .id) = e.toMeta := by
  rw [perm.foldl_eq]
  rfl

theorem foldl_fields {e : ConfigEntry} {s : YamlState} {order : List ConfigKey}
    {fields : List (List UInt8)} (hpoints : s.inPoints = true)
    (h : List.Forall₂ (fun key line => Writes key.text (e.value key) line) order fields) :
    fields.foldl (fun s line => yamlLine libc s (cstr line)) s =
      { s with cur := order.foldl e.set s.cur } := by
  induction h generalizing s with
  | nil => rfl
  | cons hkey _ ih =>
      rw [List.foldl_cons, yamlLine_field hpoints hkey, List.foldl_cons]
      exact ih hpoints

/-- The lines of an entry store the one in front of it. -/
theorem foldl_block {e : ConfigEntry} {block : List (List UInt8)} (h : e.Block block)
    {s : YamlState} (hpoints : s.inPoints = true) :
    block.foldl (fun s line => yamlLine libc s (cstr line)) s = ⟨true, e.toMeta, s.flush⟩ := by
  obtain ⟨perm, hid, hothers⟩ := h
  rw [List.foldl_cons, yamlLine_item hpoints hid, foldl_fields rfl hothers, foldl_set e perm]

theorem flush_points (s : YamlState) :
    s.flush.points = s.out.points ++ if s.cur.Named then [s.cur] else [] := by
  rw [YamlState.flush]
  split
  case isTrue => rfl
  case isFalse => rw [List.append_nil]

/-- The entries of a document come out in order, behind what was read before. -/
theorem foldl_blocks {entries : List ConfigEntry} {blocks : List (List (List UInt8))}
    (h : List.Forall₂ ConfigEntry.Block entries blocks) {s : YamlState}
    (hpoints : s.inPoints = true) :
    (blocks.flatten.foldl (fun s line => yamlLine libc s (cstr line)) s).flush.points =
      s.flush.points ++ entries.map ConfigEntry.toMeta := by
  induction h generalizing s with
  | nil => exact (List.append_nil _).symm
  | @cons e _ entries _ hblock _ ih =>
      rw [List.flatten_cons, List.foldl_append, foldl_block hblock hpoints, ih rfl, flush_points,
        if_pos e.named_toMeta, List.map_cons, List.append_assoc, List.singleton_append]

/-- What is left of a line is a beginning of what stands behind its blanks. -/
theorem yamlTrim_cstr_begins (line : List UInt8) :
    yamlTrim (cstr line) <+: line.dropWhile isSpace := by
  refine List.IsPrefix.trans (List.rdropWhile_prefix isSpace _) ?_
  have hzero : isSpace 0 = false := by decide
  induction line with
  | nil => exact List.prefix_rfl
  | cons c line ih =>
      cases hc : isSpace c with
      | true =>
          have hne : c ≠ 0 := fun heq => by simp [heq, hzero] at hc
          simpa [cstr, hne, hc] using ih
      | false =>
          have hkept : ∀ l, (c :: l).dropWhile isSpace = c :: l := fun l => by
            rw [List.dropWhile_cons, hc]
            rfl
          rw [hkept]
          rcases eq_or_ne c 0 with rfl | hne
          · exact List.nil_prefix
          · have hcstr : cstr (c :: line) = c :: cstr line :=
              List.takeWhile_cons_of_pos (by simp [hne])
            rw [hcstr, hkept]
            exact (List.prefix_cons_inj c).mpr (List.takeWhile_prefix _)

/-- Blank lines and comments are skipped. -/
theorem yamlLine_noise (s : YamlState) {line : List UInt8} (h : isNoise line = true) :
    yamlLine libc s (cstr line) = s := by
  have hprefix := yamlTrim_cstr_begins line
  have hskip : ((yamlTrim (cstr line)).isEmpty || (yamlTrim (cstr line)).head? = some 35) =
      true := by
    rw [isNoise] at h
    cases htrim : yamlTrim (cstr line) with
    | nil => rfl
    | cons c t =>
        rw [htrim] at hprefix
        split at h
        case h_1 heq =>
          rw [heq] at hprefix
          exact absurd (List.prefix_nil.mp hprefix) (List.cons_ne_nil c t)
        case h_2 heq =>
          rw [heq] at hprefix
          have hcomment : c = 35 :=
            (List.cons_prefix_cons.mp hprefix).1.trans (of_decide_eq_true h)
          simp [hcomment]
  rw [yamlLine, if_pos hskip]

/-- A line in front of the points is skipped, whatever it is. -/
theorem yamlLine_before {s : YamlState} {line : List UInt8} (hpoints : s.inPoints = false)
    (h : ¬ ascii "points:" <+: line.dropWhile isSpace) : yamlLine libc s (cstr line) = s := by
  have hheader : (ascii "points:").isPrefixOf (yamlTrim (cstr line)) = false :=
    Bool.eq_false_iff.mpr fun hprefix =>
      h ((List.isPrefixOf_iff_prefix.mp hprefix).trans (yamlTrim_cstr_begins line))
  rw [yamlLine, hheader, hpoints]
  simp

theorem yamlLine_header {s : YamlState} {line : List UInt8}
    (h : Indented (ascii "points:") line) :
    yamlLine libc s (cstr line) = { s with inPoints := true } := by
  rw [yamlLine, cstr_of_nulFree (nulFree_indented h (by decide)),
    yamlTrim_indented h (by decide +kernel)]
  rfl

/-- A line break at the end of a line is trimmed. -/
theorem yamlLine_break (libc : Libc) (s : YamlState) (text : List UInt8) :
    yamlLine libc s (text ++ [lineBreak]) = yamlLine libc s text := by
  have hbreak : ∀ c ∈ [lineBreak], isSpace c = true := by decide +kernel
  have htrim : yamlTrim (text ++ [lineBreak]) = yamlTrim text := trim_append_right hbreak text
  rw [yamlLine, yamlLine, htrim]

theorem foldl_before {before : List (List UInt8)} {s : YamlState} (hpoints : s.inPoints = false)
    (h : ∀ line ∈ before, ¬ ascii "points:" <+: line.dropWhile isSpace) :
    before.foldl (fun s line => yamlLine libc s (cstr line)) s = s := by
  induction before with
  | nil => rfl
  | cons line before ih =>
      rw [List.foldl_cons, yamlLine_before hpoints (h line List.mem_cons_self)]
      exact ih fun line hmem => h line (List.mem_cons_of_mem _ hmem)

theorem foldl_noise (s : YamlState) (text : List (List UInt8)) :
    (text.filter fun line => !isNoise line).foldl (fun s line => yamlLine libc s (cstr line)) s =
      text.foldl (fun s line => yamlLine libc s (cstr line)) s := by
  rw [List.foldl_filter]
  refine List.foldl_ext _ _ _ fun s line _ => ?_
  split
  case isTrue => rfl
  case isFalse hnoise => exact (yamlLine_noise s (by simpa using hnoise)).symm

/-- The parser reads a file whose lines fit its buffer line by line. -/
theorem irtPointConfigParseYaml_eq (libc : Libc) {file : List UInt8}
    (hshort : ∀ line ∈ lines file, line.length < 511) :
    irtPointConfigParseYaml libc file =
      ((lines file).foldl (fun s line => yamlLine libc s (cstr line)) .start).flush.points := by
  have hfits : ∀ line ∈ lines file, ¬ Overlong yamlLineMax line := fun line hmem =>
    Nat.not_le.mpr (hshort line hmem)
  rw [irtPointConfigParseYaml, foldl_reads (yamlLine_break libc) _ _ _ (Nat.le_refl _) hfits]

end

/-- A canonical document is read as the entries it writes, in order. -/
theorem parseYaml_canonical (libc : Libc) {file : List UInt8} {entries : List ConfigEntry}
    (h : Canonical file entries) :
    irtPointConfigParseYaml libc file = entries.map ConfigEntry.toMeta := by
  obtain ⟨before, header, blocks, hlines, hbefore, hheader, hblocks⟩ := h.shape
  rw [irtPointConfigParseYaml_eq libc h.short, ← foldl_noise, hlines, List.foldl_append,
    foldl_before rfl hbefore, List.foldl_cons, yamlLine_header hheader,
    foldl_blocks hblocks rfl]
  rfl

/-- A document with a comment, a quoted name with a colon, an id of zero and two
indentations. -/
def canonicalFile : List UInt8 :=
  ascii "# plant\npoints:\n  - id: 7\n    name: \"a: #-\"\n\n    access: 1\n    type: int\n" ++
  ascii "    unit: 3 \n# next\n- id: 0\n unit: 0\n type: 'str'\n name: b\n access: 0"

/-- Its entries. -/
def canonicalEntries : List ConfigEntry :=
  [⟨7, .int, 3, 1, ⟨⟨ascii "a: #-", by decide⟩, by decide, by decide,
      ⟨by decide, by decide +kernel, by decide +kernel, by decide⟩⟩, by decide⟩,
    ⟨0, .str, 0, 0, ⟨⟨ascii "b", by decide⟩, by decide, by decide,
      ⟨by decide, by decide +kernel, by decide +kernel, by decide⟩⟩, by decide⟩]

theorem canonical_canonicalFile : Canonical canonicalFile canonicalEntries where
  short := by decide +kernel
  shape := by
    refine ⟨[], ascii "points:",
      [[ascii "  - id: 7", ascii "    name: \"a: #-\"", ascii "    access: 1",
          ascii "    type: int", ascii "    unit: 3 "],
        [ascii "- id: 0", ascii " unit: 0", ascii " type: 'str'", ascii " name: b",
          ascii " access: 0"]],
      by decide +kernel, by decide, ⟨[], [], by decide +kernel, by decide +kernel, rfl⟩, ?_⟩
    have hfirst : [ConfigKey.name, .access, .type, .unit].Perm [.name, .type, .unit, .access] := by
      decide
    have hsecond : [ConfigKey.unit, .type, .name, .access].Perm [.name, .type, .unit, .access] := by
      decide
    refine .cons (.mk hfirst ⟨.none, ascii "  ", [], by decide +kernel, by decide +kernel, rfl⟩ ?_)
      (.cons (.mk hsecond ⟨.none, [], [], by decide +kernel, by decide +kernel, rfl⟩ ?_) .nil)
    · exact .cons ⟨.double, ascii "    ", [], by decide +kernel, by decide +kernel, rfl⟩
        (.cons ⟨.none, ascii "    ", [], by decide +kernel, by decide +kernel, rfl⟩
          (.cons ⟨.none, ascii "    ", [], by decide +kernel, by decide +kernel, rfl⟩
            (.cons ⟨.none, ascii "    ", ascii " ", by decide +kernel, by decide +kernel, rfl⟩
              .nil)))
    · exact .cons ⟨.none, ascii " ", [], by decide +kernel, by decide +kernel, rfl⟩
        (.cons ⟨.single, ascii " ", [], by decide +kernel, by decide +kernel, rfl⟩
          (.cons ⟨.none, ascii " ", [], by decide +kernel, by decide +kernel, rfl⟩
            (.cons ⟨.none, ascii " ", [], by decide +kernel, by decide +kernel, rfl⟩ .nil)))

theorem parseYaml_canonical_canonicalFile :
    irtPointConfigParseYaml wordsLibc canonicalFile = canonicalEntries.map ConfigEntry.toMeta :=
  parseYaml_canonical wordsLibc canonical_canonicalFile

end InduRtdb.Api
