/-
  Api/ConfigFile.lean --- the parser of the point configuration.

  Source: `irt_point_config_parse_yaml` of `src/core/irt_config.c`.

  The parser keeps one entry; it stores it when the next one starts or the file ends,
  if the entry has an id or a name.
-/
import InduRtdb.Api.Registry
import InduRtdb.Lib.Lines
import InduRtdb.Lib.Strtoul

set_option autoImplicit false

namespace InduRtdb.Api

open InduRtdb.Core InduRtdb.Lib

/-! ## Texts -/

/-- The size of `line`. -/
abbrev yamlLineMax : Nat := 512

/-- The size of `key`. -/
abbrev yamlKeyMax : Nat := 64

/-- The size of `val`. -/
abbrev yamlValMax : Nat := 128

/-- `yaml_trim`. -/
def yamlTrim (s : List UInt8) : List UInt8 := trim isSpace s

/-- `yaml_strip_quotes`. -/
def yamlStripQuotes (s : List UInt8) : List UInt8 :=
  if 2 ≤ s.length ∧ ((s.head? = some 34 ∧ s.getLast? = some 34) ∨
      (s.head? = some 39 ∧ s.getLast? = some 39)) then (s.drop 1).take (s.length - 2)
  else s

/-- `yaml_trim(key_out)`, whose result is not used: only the end is cut, and only when
there is something else than white space. -/
def yamlTrimKey (key : List UInt8) : List UInt8 :=
  if key.all isSpace then key else key.rdropWhile isSpace

/-- `yaml_parse_kv`. -/
def yamlParseKv (line : List UInt8) : Option (List UInt8 × List UInt8) :=
  match line.dropWhile (· ≠ 58) with
  | [] => none
  | _ :: behind =>
      some (yamlTrimKey ((line.takeWhile (· ≠ 58)).take (yamlKeyMax - 1)),
        yamlStripQuotes (yamlTrim (behind.take (yamlValMax - 1))))

/-- `irt_config_parse_type`. -/
def irtConfigParseType (s : List UInt8) : UInt8 :=
  if s = ascii "bool" then UInt8.ofNat indurtdbTypeBool
  else if s = ascii "int" ∨ s = ascii "int32" then UInt8.ofNat indurtdbTypeInt32
  else if s = ascii "int64" then UInt8.ofNat indurtdbTypeInt64
  else if s = ascii "uint32" then UInt8.ofNat indurtdbTypeUint32
  else if s = ascii "double" ∨ s = ascii "float" then UInt8.ofNat indurtdbTypeDouble
  else if s = ascii "str" ∨ s = ascii "string" then UInt8.ofNat indurtdbTypeString
  else 0xff

/-! ## Numbers -/

/-- What `strtod` returns, as bits, what is left of the text, and whether `errno` is
`ERANGE`. -/
structure Strtod where
  bits : UInt64
  rest : List UInt8
  erange : Bool

/-- What the parser uses of the C library for floating point: `strtod` and the
conversion of a `double` to `float`. -/
structure Libc where
  strtod : List UInt8 → Strtod
  toFloat : UInt64 → UInt32

/-- The C library on texts that are no number. -/
def wordsLibc : Libc := ⟨fun s => ⟨0, s, false⟩, fun _ => 0⟩

/-- `isfinite`: not all bits of the exponent are set. -/
def isFinite (bits : UInt64) : Bool := (bits >>> 52) &&& 0x7FF ≠ 0x7FF

/-- `parse_double`. -/
def parseDouble (libc : Libc) (s : List UInt8) : Option UInt64 :=
  let v := libc.strtod s
  if v.rest = s ∨ v.rest ≠ [] then none
  else if v.erange then none
  else if ¬ isFinite v.bits then none
  else some v.bits

/-- `parse_u32`. -/
def yamlParseU32 (s : List UInt8) (base : Nat) : Option UInt32 :=
  let v := strtoul base s
  if v.rest = s ∨ v.rest ≠ [] then none
  else if v.erange then none
  else if 0xFFFFFFFF < v.value then none
  else some (UInt32.ofNat v.value)

/-! ## Entries -/

/-- A zeroed entry. -/
def IrtPointMeta.zero : IrtPointMeta := ⟨0, 0, 0, 0, .empty, .zero, false, false⟩

/-- `irt_point_meta_batch_t`: the entries stored, and the capacity of their array. -/
structure YamlBatch where
  points : List IrtPointMeta
  capacity : Nat
  capacity_pos : 0 < capacity
  fits : points.length ≤ capacity

/-- The batch before the first line. -/
def YamlBatch.start : YamlBatch := ⟨[], 64, by decide, by decide⟩

/-- An entry is stored; a full array is doubled first. -/
def YamlBatch.push (b : YamlBatch) (cur : IrtPointMeta) : YamlBatch where
  points := b.points ++ [cur]
  capacity := if b.capacity ≤ b.points.length then b.capacity * 2 else b.capacity
  capacity_pos := by
    have hpos := b.capacity_pos
    split <;> omega
  fits := by
    have hpos := b.capacity_pos
    have hfits := b.fits
    rw [List.length_append, List.length_singleton]
    split <;> omega

/-- The entry has an id or a name. -/
def IrtPointMeta.Named (cur : IrtPointMeta) : Prop := cur.id ≠ 0 ∨ cur.name ≠ .empty

instance (cur : IrtPointMeta) : Decidable cur.Named := inferInstanceAs (Decidable (_ ∨ _))

/-- `in_points`, `cur` and `*out`. -/
structure YamlState where
  inPoints : Bool
  cur : IrtPointMeta
  out : YamlBatch

/-- The current entry is stored if it has an id or a name. -/
def YamlState.flush (s : YamlState) : YamlBatch := if s.cur.Named then s.out.push s.cur else s.out

/-- What a key does to the current entry. -/
def yamlSet (libc : Libc) (cur : IrtPointMeta) (key val : List UInt8) : IrtPointMeta :=
  if key = ascii "id" then { cur with id := (strtoul 10 val).value % 2 ^ 32 }
  else if key = ascii "name" then { cur with name := CStr.ofBytes (val.take nameMax) }
  else if key = ascii "type" then { cur with type := irtConfigParseType val }
  else if key = ascii "unit" then { cur with unit := UInt16.ofNat (strtoul 10 val).value }
  else if key = ascii "access" then { cur with access := UInt8.ofNat (strtoul 10 val).value }
  else if key = ascii "eur_min" then
    match parseDouble libc val with
    | none => { cur with hasMeta := true, badValue := true }
    | some d => { cur with hasMeta := true, pointMeta := { cur.pointMeta with eurMin := d } }
  else if key = ascii "eur_max" then
    match parseDouble libc val with
    | none => { cur with hasMeta := true, badValue := true }
    | some d => { cur with hasMeta := true, pointMeta := { cur.pointMeta with eurMax := d } }
  else if key = ascii "deadband" then
    let d := parseDouble libc val
    { cur with
      hasMeta := true
      badValue := cur.badValue || d.isNone
      pointMeta := { cur.pointMeta with deadband := libc.toFloat (d.getD 0) } }
  else if key = ascii "flags" then
    let f := yamlParseU32 val 0
    { cur with
      hasMeta := true
      badValue := cur.badValue || f.isNone
      pointMeta := { cur.pointMeta with flags := f.getD 0 } }
  else cur

/-- The key and the value on the line `t` change the current entry. -/
def YamlState.keyValue (libc : Libc) (s : YamlState) (t : List UInt8) : YamlState :=
  match yamlParseKv t with
  | none => s
  | some (key, val) => { s with cur := yamlSet libc s.cur key val }

/-- The body of the loop of `irt_point_config_parse_yaml`. -/
def yamlLine (libc : Libc) (s : YamlState) (line : List UInt8) : YamlState :=
  let t := yamlTrim line
  if t.isEmpty || t.head? = some 35 then s
  else if (ascii "points:").isPrefixOf t then { s with inPoints := true }
  else if ¬ s.inPoints then s
  else if (ascii "- ").isPrefixOf t then
    let s := { s with out := s.flush, cur := .zero }
    s.keyValue libc ((t.drop 2).dropWhile (· = 32))
  else s.keyValue libc t

/-- The parser before the first line. -/
def YamlState.start : YamlState := ⟨false, .zero, .start⟩

/-- `irt_point_config_parse_yaml` of a file. -/
def irtPointConfigParseYaml (libc : Libc) (file : List UInt8) : List IrtPointMeta :=
  ((reads yamlLineMax file.length file).foldl (yamlLine libc) .start).flush.points

/-! ## What a key changes -/

/-- The keys of the metadata. -/
def isMetaKey (key : List UInt8) : Bool :=
  key = ascii "eur_min" || key = ascii "eur_max" || key = ascii "deadband" || key = ascii "flags"

section

variable {libc : Libc} (cur : IrtPointMeta) (key val : List UInt8)

/-- What a key makes of the current entry: one field, the metadata, or nothing. -/
inductive YamlChange : List UInt8 → IrtPointMeta → Prop
  | id : YamlChange (ascii "id") { cur with id := (strtoul 10 val).value % 2 ^ 32 }
  | name : YamlChange (ascii "name") { cur with name := .ofBytes (val.take nameMax) }
  | type : YamlChange (ascii "type") { cur with type := irtConfigParseType val }
  | unit : YamlChange (ascii "unit") { cur with unit := UInt16.ofNat (strtoul 10 val).value }
  | access : YamlChange (ascii "access") { cur with access := UInt8.ofNat (strtoul 10 val).value }
  | metadata {key : List UInt8} (hmeta : isMetaKey key = true) (pointMeta : IndurtdbMeta)
      (badValue : Bool) : YamlChange key
        { cur with hasMeta := true, pointMeta := pointMeta, badValue := badValue }
  | other {key : List UInt8} (hmeta : isMetaKey key = false)
      (hplain : ∀ field ∈ [ascii "id", ascii "name", ascii "type", ascii "unit", ascii "access"],
        key ≠ field) : YamlChange key cur

theorem yamlSet_change : YamlChange cur val key (yamlSet libc cur key val) := by
  rw [yamlSet]
  rcases eq_or_ne key (ascii "id") with rfl | hid
  · rw [if_pos rfl]
    exact .id
  rcases eq_or_ne key (ascii "name") with rfl | hname
  · rw [if_neg hid, if_pos rfl]
    exact .name
  rcases eq_or_ne key (ascii "type") with rfl | htype
  · rw [if_neg hid, if_neg hname, if_pos rfl]
    exact .type
  rcases eq_or_ne key (ascii "unit") with rfl | hunit
  · rw [if_neg hid, if_neg hname, if_neg htype, if_pos rfl]
    exact .unit
  rcases eq_or_ne key (ascii "access") with rfl | haccess
  · rw [if_neg hid, if_neg hname, if_neg htype, if_neg hunit, if_pos rfl]
    exact .access
  rw [if_neg hid, if_neg hname, if_neg htype, if_neg hunit, if_neg haccess]
  rcases eq_or_ne key (ascii "eur_min") with rfl | hmin
  · rw [if_pos rfl]
    cases parseDouble libc val with
    | none => exact .metadata rfl _ _
    | some d => exact .metadata rfl _ _
  rcases eq_or_ne key (ascii "eur_max") with rfl | hmax
  · rw [if_neg hmin, if_pos rfl]
    cases parseDouble libc val with
    | none => exact .metadata rfl _ _
    | some d => exact .metadata rfl _ _
  rcases eq_or_ne key (ascii "deadband") with rfl | hdeadband
  · rw [if_neg hmin, if_neg hmax, if_pos rfl]
    exact .metadata rfl _ _
  rcases eq_or_ne key (ascii "flags") with rfl | hflags
  · rw [if_neg hmin, if_neg hmax, if_neg hdeadband, if_pos rfl]
    exact .metadata rfl _ _
  rw [if_neg hmin, if_neg hmax, if_neg hdeadband, if_neg hflags]
  refine .other ?_ ?_
  · simp [isMetaKey, hmin, hmax, hdeadband, hflags]
  · simp [hid, hname, htype, hunit, haccess]

theorem ne_of_isMetaKey {key field : List UInt8} (h : isMetaKey key = true)
    (hfield : isMetaKey field = false) : key ≠ field := by
  rintro rfl
  cases h.symm.trans hfield

theorem yamlSet_id :
    (yamlSet libc cur key val).id =
      if key = ascii "id" then (strtoul 10 val).value % 2 ^ 32 else cur.id := by
  have hchange := @yamlSet_change libc cur key val
  generalize yamlSet libc cur key val = next at hchange ⊢
  cases hchange with
  | id => exact (if_pos rfl).symm
  | metadata hmeta => exact (if_neg (ne_of_isMetaKey hmeta (by decide))).symm
  | other _ hplain => exact (if_neg (hplain _ (by simp))).symm
  | _ => exact (if_neg (by decide)).symm

theorem yamlSet_name :
    (yamlSet libc cur key val).name =
      if key = ascii "name" then .ofBytes (val.take nameMax) else cur.name := by
  have hchange := @yamlSet_change libc cur key val
  generalize yamlSet libc cur key val = next at hchange ⊢
  cases hchange with
  | name => exact (if_pos rfl).symm
  | metadata hmeta => exact (if_neg (ne_of_isMetaKey hmeta (by decide))).symm
  | other _ hplain => exact (if_neg (hplain _ (by simp))).symm
  | _ => exact (if_neg (by decide)).symm

theorem yamlSet_type :
    (yamlSet libc cur key val).type =
      if key = ascii "type" then irtConfigParseType val else cur.type := by
  have hchange := @yamlSet_change libc cur key val
  generalize yamlSet libc cur key val = next at hchange ⊢
  cases hchange with
  | type => exact (if_pos rfl).symm
  | metadata hmeta => exact (if_neg (ne_of_isMetaKey hmeta (by decide))).symm
  | other _ hplain => exact (if_neg (hplain _ (by simp))).symm
  | _ => exact (if_neg (by decide)).symm

theorem yamlSet_unit :
    (yamlSet libc cur key val).unit =
      if key = ascii "unit" then UInt16.ofNat (strtoul 10 val).value else cur.unit := by
  have hchange := @yamlSet_change libc cur key val
  generalize yamlSet libc cur key val = next at hchange ⊢
  cases hchange with
  | unit => exact (if_pos rfl).symm
  | metadata hmeta => exact (if_neg (ne_of_isMetaKey hmeta (by decide))).symm
  | other _ hplain => exact (if_neg (hplain _ (by simp))).symm
  | _ => exact (if_neg (by decide)).symm

theorem yamlSet_access :
    (yamlSet libc cur key val).access =
      if key = ascii "access" then UInt8.ofNat (strtoul 10 val).value else cur.access := by
  have hchange := @yamlSet_change libc cur key val
  generalize yamlSet libc cur key val = next at hchange ⊢
  cases hchange with
  | access => exact (if_pos rfl).symm
  | metadata hmeta => exact (if_neg (ne_of_isMetaKey hmeta (by decide))).symm
  | other _ hplain => exact (if_neg (hplain _ (by simp))).symm
  | _ => exact (if_neg (by decide)).symm

theorem yamlSet_hasMeta :
    (yamlSet libc cur key val).hasMeta = if isMetaKey key then true else cur.hasMeta := by
  have hchange := @yamlSet_change libc cur key val
  generalize yamlSet libc cur key val = next at hchange ⊢
  cases hchange with
  | metadata hmeta => exact (if_pos hmeta).symm
  | other hmeta => rw [hmeta]; rfl
  | _ => rfl

end

end InduRtdb.Api
