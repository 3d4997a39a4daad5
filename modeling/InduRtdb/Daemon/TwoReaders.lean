/-
  Daemon/TwoReaders.lean --- the two readers of the configuration file.

  Source: `irt_point_config_parse_yaml` and `yaml_trim` of `src/core/irt_config.c`, and
  `rtdbd_conf_load` and `trim` of `rtdbd/src/rtdbd_conf.c`.

  Both read through a buffer of 512 bytes.  Of a line that does not fit it,
  `rtdbd_conf_load` discards the rest; the parser of the points takes the rest for
  further lines, also when the line is a comment.
-/
import InduRtdb.Api.CanonicalConfig
import InduRtdb.Daemon.ConfFile

set_option autoImplicit false

namespace InduRtdb.Daemon

open InduRtdb.Api InduRtdb.Core InduRtdb.Lib

/-! ## The first character of a line -/

/-- The first character that is no white space. -/
def lead (line : List UInt8) : Option UInt8 := (line.dropWhile isSpace).head?

theorem lead_of_head {c : UInt8} {line : List UInt8} (hc : isSpace c = false)
    (h : line.head? = some c) : lead line = some c := by
  cases line with
  | nil => cases h
  | cons d line =>
      obtain rfl := Option.some.inj h
      rw [lead, List.dropWhile_cons, hc]
      rfl

theorem lead_starts {part line : List UInt8} (h : part <+: line) :
    lead part = none ∨ lead part = lead line := by
  induction part generalizing line with
  | nil => exact .inl rfl
  | cons c part ih =>
      obtain ⟨rest, rfl⟩ := h
      rw [lead, lead, List.cons_append, List.dropWhile_cons, List.dropWhile_cons]
      split
      case isTrue => exact ih ⟨rest, rfl⟩
      case isFalse => exact .inr rfl

theorem lead_dropWhile {blank : UInt8 → Bool} (hblank : ∀ c, blank c = true → isSpace c = true)
    (line : List UInt8) : lead (line.dropWhile blank) = lead line := by
  induction line with
  | nil => rfl
  | cons c line ih =>
      rw [List.dropWhile_cons]
      split
      case isTrue hc =>
        rw [ih, lead, lead, List.dropWhile_cons, hblank c hc]
        rfl
      case isFalse => rfl

theorem isSpace_of_isWs {c : UInt8} (h : isWs c = true) : isSpace c = true := by
  rw [isWs, Bool.or_eq_true, decide_eq_true_eq, decide_eq_true_eq] at h
  rcases h with rfl | rfl <;> decide

/-- A text whose first character, if it has one, is `#`. -/
def Hashed (text : List UInt8) : Prop := lead text = none ∨ lead text = some 35

theorem Hashed.starts {part line : List UInt8} (h : Hashed line) (hpart : part <+: line) :
    Hashed part := by
  rcases lead_starts hpart with hnone | hsame
  · exact .inl hnone
  · rw [Hashed, hsame]
    exact h

theorem Hashed.confTrim {text : List UInt8} (h : Hashed text) : Hashed (confTrim text) := by
  have hfront : Hashed (text.dropWhile isWs) := by
    rw [Hashed, lead_dropWhile fun c => isSpace_of_isWs]
    exact h
  exact hfront.starts (List.rdropWhile_prefix _ _)

theorem Hashed.head {c : UInt8} {text : List UInt8} (h : Hashed text) (hc : isSpace c = false)
    (hhead : text.head? = some c) : c = 35 := by
  rw [Hashed, lead_of_head hc hhead] at h
  rcases h with hnone | hsome
  · cases hnone
  · exact Option.some.inj hsome

/-! ## Comment lines -/

/-- A comment: the first character that is no white space is `#`. -/
structure CommentLine where
  text : List UInt8
  nulFree : (0 : UInt8) ∉ text
  oneLine : lineBreak ∉ text
  hash : lead text = some 35

theorem CommentLine.hashed (c : CommentLine) : Hashed c.text := .inr c.hash

/-- A comment says nothing to `rtdbd_conf_load`. -/
theorem seenSays_hashed {line : List UInt8} (h : Hashed line) : seenSays line = .nothing := by
  have htext : Hashed (confText (line.take (rtdbdConfLineMax - 1))) :=
    ((h.starts (List.take_prefix _ _)).starts (List.rdropWhile_prefix _ _)).confTrim
  have hletter : ∀ key, key.head? = some 112 → ¬ Hashed key := fun key hkey hhashed =>
    absurd (hhashed.head (by decide) hkey) (by decide)
  rw [seenSays, confSays]
  split
  case isTrue => rfl
  case isFalse =>
    split
    case isTrue hpoints =>
      obtain ⟨rest, hrest⟩ := List.isPrefixOf_iff_prefix.mp hpoints
      exact absurd htext (hletter _ (by rw [← hrest]; rfl))
    case isFalse =>
      cases hsplit : splitColon (confText (line.take (rtdbdConfLineMax - 1))) with
      | none => rfl
      | some kv =>
          obtain ⟨key, val⟩ := kv
          have hkey : Hashed key := by
            rw [splitColon] at hsplit
            split at hsplit
            case h_1 => cases hsplit
            case h_2 =>
              rw [← (Prod.mk.inj (Option.some.inj hsplit)).1]
              exact (htext.starts (List.takeWhile_prefix _)).confTrim
          have hother : ∀ other, other.head? = some 112 → key ≠ other := fun other hother heq =>
            hletter other hother (heq ▸ hkey)
          dsimp only
          rw [if_neg (hother partitionsKey rfl), if_neg (hother aliasKey rfl)]

/-! ## The keys without the comment -/

/-- The keys and the names of the aliases. -/
def aliasNames (aliases : List RtdbdAlias) : List (UInt32 × List UInt8) :=
  aliases.map fun a => (a.key, a.name)

/-- The same partitions, the same aliases and the same answer; only the numbers of the
lines may differ. -/
structure SameKeys (load load' : ConfLoad) : Prop where
  rc : load.rc = load'.rc
  conf : load.conf = load'.conf
  aliases : aliasNames load.aliases = aliasNames load'.aliases

/-- The same state, up to the numbers of the lines. -/
structure SameState (s s' : ConfState) : Prop where
  partitions : s.partitions = s'.partitions
  aliases : aliasNames s.aliases = aliasNames s'.aliases

theorem aliasNames_append (aliases : List RtdbdAlias) (more : List (UInt32 × List UInt8))
    (line : UInt32) :
    aliasNames (aliases ++ more.map fun a => ⟨a.1, a.2, line⟩) = aliasNames aliases ++ more := by
  rw [aliasNames, List.map_append, List.map_map]
  exact congrArg _ (List.map_id more)

theorem length_aliasNames (aliases : List RtdbdAlias) :
    (aliasNames aliases).length = aliases.length := List.length_map _

theorem confDone_same {s s' : ConfState} (h : SameState s s') :
    SameKeys (confDone s) (confDone s') := by
  have hfind := find?_sameKey h.aliases fun a => !s.partitions.contains a.1
  dsimp only at hfind
  rw [confDone, confDone, ← h.partitions]
  split
  case isTrue => exact ⟨rfl, rfl, h.aliases⟩
  case isFalse =>
    cases hs : s.aliases.find? fun a => !s.partitions.contains a.key with
    | none =>
        rw [hs] at hfind
        rw [Option.map_eq_none_iff.mp hfind.symm]
        exact ⟨rfl, rfl, h.aliases⟩
    | some a =>
        rw [hs] at hfind
        obtain ⟨b, hb, -⟩ := Option.map_eq_some_iff.mp hfind.symm
        rw [hb]
        exact ⟨rfl, rfl, h.aliases⟩

theorem confStep_same {s s' : ConfState} (h : SameState s s') (say : ConfSays) :
    Sum.LiftRel SameKeys SameState (confStep s say) (confStep s' say) := by
  have hlength : s.aliases.length = s'.aliases.length := by
    rw [← length_aliasNames, h.aliases, length_aliasNames]
  have hfail : ∀ line line', SameKeys ⟨-1, ⟨s.partitions⟩, s.aliases, line⟩
      ⟨-1, ⟨s'.partitions⟩, s'.aliases, line'⟩ := fun line line' =>
    ⟨rfl, congrArg RtdbdConf.mk h.partitions, h.aliases⟩
  cases say with
  | nothing => exact .inr ⟨h.partitions, h.aliases⟩
  | points => exact .inl (confDone_same ⟨h.partitions, h.aliases⟩)
  | partitions value =>
      cases value with
      | none => exact .inl (hfail _ _)
      | some ps => exact .inr ⟨rfl, h.aliases⟩
  | aliases value =>
      cases value with
      | none => exact .inl (hfail _ _)
      | some more =>
          rw [confStep, confStep, hlength]
          split
          case isTrue =>
            refine .inr ⟨h.partitions, ?_⟩
            rw [aliasNames_append, aliasNames_append, h.aliases]
          case isFalse => exact .inl (hfail _ _)

theorem confScan_same {s s' : ConfState} (h : SameState s s') (ls : List (List UInt8)) :
    SameKeys (scan confTurn confDone s ls) (scan confTurn confDone s' ls) := by
  induction ls generalizing s s' with
  | nil => exact confDone_same h
  | cons line ls ih =>
      have hturn := confStep_same h (seenSays line)
      rw [scan, scan, confTurn_eq, confTurn_eq]
      generalize confStep s (seenSays line) = turn, confStep s' (seenSays line) = turn' at hturn
      cases hturn with
      | inl hkeys => exact hkeys
      | inr hstate => exact ih hstate

/-- The loop passes over a comment. -/
theorem confScan_comment {s s' : ConfState} (h : SameState s s') {line : List UInt8}
    (hline : Hashed line) (before after : List (List UInt8)) :
    SameKeys (scan confTurn confDone s (before ++ line :: after))
      (scan confTurn confDone s' (before ++ after)) := by
  induction before generalizing s s' with
  | nil =>
      rw [List.nil_append, scan, confTurn_eq, seenSays_hashed hline]
      have hnext : SameState { s with lineno := s.lineno + 1 } s' := ⟨h.partitions, h.aliases⟩
      exact confScan_same hnext after
  | cons first before ih =>
      have hturn := confStep_same h (seenSays first)
      rw [List.cons_append, List.cons_append, scan, scan, confTurn_eq, confTurn_eq]
      generalize confStep s (seenSays first) = turn, confStep s' (seenSays first) = turn' at hturn
      cases hturn with
      | inl hkeys => exact hkeys
      | inr hstate => exact ih hstate

theorem rtdbdConfLoad_eq {file : List UInt8} (hnul : (0 : UInt8) ∉ file) :
    rtdbdConfLoad file = scan confTurn confDone ⟨0, [], []⟩ (lines file) :=
  forLines_eq (fun s text => by simp only [confLine, confText_break]) confDone
    file.length ⟨0, [], []⟩ file (Nat.le_refl _) hnul

/-- The second file is the first one without the comment. -/
inductive Deleted (c : CommentLine) : List UInt8 → List UInt8 → Prop
  | inside {a b : List UInt8} (whole : Whole a) :
      Deleted c (a ++ (c.text ++ lineBreak :: b)) (a ++ b)
  | last {a : List UInt8} (whole : Whole a) : Deleted c (a ++ c.text) a

theorem CommentLine.ne_nil (c : CommentLine) : c.text ≠ [] := fun hnil => by
  have hhash := c.hash
  rw [hnil] at hhash
  cases hhash

theorem Deleted.lines_eq {c : CommentLine} {file file' : List UInt8} (h : Deleted c file file') :
    ∃ before after, lines file = before ++ c.text :: after ∧ lines file' = before ++ after := by
  cases h with
  | @inside a b whole =>
      refine ⟨lines a, lines b, ?_, lines_append whole b⟩
      rw [lines_append whole, lines_break c.oneLine]
  | last whole =>
      refine ⟨lines file', [], ?_, (List.append_nil _).symm⟩
      rw [lines_append whole, lines_singleton c.oneLine c.ne_nil]

theorem Deleted.nulFree {c : CommentLine} {file file' : List UInt8} (h : Deleted c file file')
    (hnul : (0 : UInt8) ∉ file) : (0 : UInt8) ∉ file' := by
  cases h with
  | inside =>
      rw [List.mem_append, not_or, List.mem_append, not_or, List.mem_cons, not_or] at hnul
      rw [List.mem_append, not_or]
      exact ⟨hnul.1, hnul.2.2.2⟩
  | last =>
      rw [List.mem_append, not_or] at hnul
      exact hnul.1

/-- Without the comment, the keys are the same. -/
theorem Deleted.sameKeys {c : CommentLine} {file file' : List UInt8} (h : Deleted c file file')
    (hnul : (0 : UInt8) ∉ file) : SameKeys (rtdbdConfLoad file) (rtdbdConfLoad file') := by
  obtain ⟨before, after, hfile, hfile'⟩ := h.lines_eq
  rw [rtdbdConfLoad_eq hnul, rtdbdConfLoad_eq (h.nulFree hnul), hfile, hfile']
  exact confScan_comment ⟨rfl, rfl⟩ c.hashed before after

/-! ## The entries without the comment -/

section

variable {libc : Libc}

/-- The state in which a text leaves the parser of the points. -/
def readPoints (libc : Libc) (s : YamlState) (text : List UInt8) : YamlState :=
  foldPieces yamlLineMax (yamlLine libc) s text

theorem irtPointConfigParseYaml_read (libc : Libc) (file : List UInt8) :
    irtPointConfigParseYaml libc file = (readPoints libc .start file).flush.points := rfl

theorem yamlLine_empty (s : YamlState) : yamlLine libc s [] = s := rfl

theorem readPoints_append (s : YamlState) {a : List UInt8} (ha : Whole a) (b : List UInt8) :
    readPoints libc s (a ++ b) = readPoints libc (readPoints libc s a) b :=
  foldPieces_append (by decide) (yamlLine_break libc) yamlLine_empty s ha b

theorem readPoints_line (s : YamlState) {c : List UInt8} (hc : lineBreak ∉ c) (b : List UInt8) :
    readPoints libc s (c ++ lineBreak :: b) = readPoints libc (readPoints libc s c) b :=
  foldPieces_line (by decide) (yamlLine_break libc) yamlLine_empty s hc b

/-- The pieces of a comment behind the first one. -/
def CommentLine.tail (c : CommentLine) : List (List UInt8) :=
  reads yamlLineMax (c.text.drop (yamlLineMax - 1)).length (c.text.drop (yamlLineMax - 1))

/-- Blank lines and comments are skipped. -/
theorem yamlLine_hashed (s : YamlState) {line : List UInt8} (h : Hashed line) :
    yamlLine libc s line = s := by
  have hskip : ((yamlTrim line).isEmpty || (yamlTrim line).head? = some 35) = true := by
    cases htrim : yamlTrim line with
    | nil => rfl
    | cons c t =>
        have hstarts : c :: t <+: line.dropWhile isSpace := htrim ▸ List.rdropWhile_prefix isSpace _
        obtain ⟨rest, hrest⟩ := hstarts
        rw [Hashed, lead, ← hrest] at h
        rcases h with hnone | hsome
        · cases hnone
        · exact decide_eq_true hsome
  rw [yamlLine, if_pos hskip]

/-- The first piece of a comment is skipped. -/
theorem readPoints_comment (c : CommentLine) (s : YamlState) :
    readPoints libc s c.text = c.tail.foldl (yamlLine libc) s := by
  have hfirst : Hashed (c.text.take (yamlLineMax - 1)) := c.hashed.starts (List.take_prefix _ _)
  rw [readPoints, foldPieces, reads_line (by decide) c.oneLine c.nulFree c.ne_nil, List.foldl_cons,
    yamlLine_hashed s hfirst]
  rfl

/-- The keys that change an entry. -/
def yamlKeys : List (List UInt8) :=
  ["id", "name", "type", "unit", "access", "eur_min", "eur_max", "deadband", "flags"].map ascii

/-- A line that begins the points. -/
def BeginsPoints (line : List UInt8) : Prop := ascii "points:" <+: line.dropWhile isSpace

instance (text : List UInt8) : Decidable (Hashed text) := inferInstanceAs (Decidable (_ ∨ _))

instance (line : List UInt8) : Decidable (BeginsPoints line) :=
  inferInstanceAs (Decidable (_ <+: _))

/-- A line that changes nothing: it is blank or a comment, or it neither begins the points
nor an entry and has no key of an entry. -/
def Inert (line : List UInt8) : Prop :=
  Hashed line ∨ ¬ BeginsPoints line ∧ ¬ ascii "- " <+: yamlTrim line ∧
    ∀ key val, yamlParseKv (yamlTrim line) = some (key, val) → key ∉ yamlKeys

/-- The rest of a comment that does not fit the buffer changes nothing. -/
def CommentLine.InertTail (c : CommentLine) : Prop := ∀ line ∈ c.tail, Inert line

theorem yamlSet_other {key : List UInt8} (hkey : key ∉ yamlKeys) (cur : IrtPointMeta)
    (val : List UInt8) : yamlSet libc cur key val = cur := by
  simp only [yamlKeys, List.map_cons, List.map_nil, List.mem_cons, List.not_mem_nil, or_false,
    not_or] at hkey
  obtain ⟨hid, hname, htype, hunit, haccess, hmin, hmax, hdeadband, hflags⟩ := hkey
  rw [yamlSet, if_neg hid, if_neg hname, if_neg htype, if_neg hunit, if_neg haccess, if_neg hmin,
    if_neg hmax, if_neg hdeadband, if_neg hflags]

theorem beginsPoints_iff {line : List UInt8} :
    ascii "points:" <+: yamlTrim line ↔ BeginsPoints line := by
  have hcolon : isSpace 58 = false := by decide
  exact prefix_rdropWhile_iff (m := ascii "points") hcolon

/-- The turn of the loop for a line that is neither blank nor a comment. -/
theorem yamlLine_words (s : YamlState) {line : List UInt8} (h : ¬ Hashed line) :
    yamlLine libc s line =
      if BeginsPoints line then { s with inPoints := true }
      else if ¬ s.inPoints then s
      else if ascii "- " <+: yamlTrim line then
        YamlState.keyValue libc { s with out := s.flush, cur := .zero }
          (((yamlTrim line).drop 2).dropWhile (· = 32))
      else s.keyValue libc (yamlTrim line) := by
  have hwords : ((yamlTrim line).isEmpty || (yamlTrim line).head? = some 35) = false := by
    cases hrest : line.dropWhile isSpace with
    | nil => exact absurd (.inl (by rw [lead, hrest]; rfl)) h
    | cons c rest =>
        have hc : isSpace c = false := by
          have hhead := List.head_dropWhile_not isSpace (l := line) (by rw [hrest]; simp)
          simpa only [hrest, List.head_cons] using hhead
        have hne : c ≠ 35 := fun heq => h (.inr (by rw [lead, hrest, heq]; rfl))
        have htrim : yamlTrim line = c :: rest.rdropWhile isSpace := by
          rw [yamlTrim, trim, hrest]
          exact rdropWhile_append_cons hc [] rest
        simp [htrim, hne]
  rw [yamlLine]
  simp only [hwords, List.isPrefixOf_iff_prefix, beginsPoints_iff, Bool.false_eq_true, if_false]

theorem yamlLine_inert (s : YamlState) {line : List UInt8} (h : Inert line) :
    yamlLine libc s line = s := by
  by_cases hhashed : Hashed line
  · exact yamlLine_hashed s hhashed
  · obtain ⟨hpoints, hitem, hkeys⟩ := h.resolve_left hhashed
    rw [yamlLine_words s hhashed, if_neg hpoints, if_neg hitem]
    split
    case isTrue => rfl
    case isFalse =>
      rw [YamlState.keyValue]
      cases hpair : yamlParseKv (yamlTrim line) with
      | none => rfl
      | some kv =>
          dsimp only
          rw [yamlSet_other (hkeys kv.1 kv.2 hpair)]

theorem readPoints_inertTail {c : CommentLine} (h : c.InertTail) (s : YamlState) :
    readPoints libc s c.text = s := by
  rw [readPoints_comment]
  rw [CommentLine.InertTail] at h
  generalize c.tail = tail at h ⊢
  induction tail with
  | nil => rfl
  | cons line tail ih =>
      rw [List.foldl_cons, yamlLine_inert s (h line List.mem_cons_self)]
      exact ih fun line hmem => h line (List.mem_cons_of_mem _ hmem)

/-! ## The fields of an entry -/

/-- What a key can change of an entry. -/
inductive Field where
  | id | name | type | unit | access | hasMeta

/-- Two entries agree in the field. -/
def Field.Same : Field → IrtPointMeta → IrtPointMeta → Prop
  | .id, x, y => x.id = y.id
  | .name, x, y => x.name = y.name
  | .type, x, y => x.type = y.type
  | .unit, x, y => x.unit = y.unit
  | .access, x, y => x.access = y.access
  | .hasMeta, x, y => x.hasMeta = y.hasMeta

theorem Field.Same.set {f : Field} {x y : IrtPointMeta} (h : f.Same x y) (key val : List UInt8) :
    f.Same (yamlSet libc x key val) (yamlSet libc y key val) := by
  cases f with
  | id => simp only [Same, yamlSet_id] at h ⊢; rw [h]
  | name => simp only [Same, yamlSet_name] at h ⊢; rw [h]
  | type => simp only [Same, yamlSet_type] at h ⊢; rw [h]
  | unit => simp only [Same, yamlSet_unit] at h ⊢; rw [h]
  | access => simp only [Same, yamlSet_access] at h ⊢; rw [h]
  | hasMeta => simp only [Same, yamlSet_hasMeta] at h ⊢; rw [h]

/-- Every key gives a field a value of its own. -/
theorem exists_field (libc : Libc) {key : List UInt8} (hkey : key ∈ yamlKeys) :
    ∃ f : Field, ∀ x y val, f.Same (yamlSet libc x key val) (yamlSet libc y key val) := by
  have hmeta : isMetaKey key = true →
      ∃ f : Field, ∀ x y val, f.Same (yamlSet libc x key val) (yamlSet libc y key val) :=
    fun h => ⟨.hasMeta, fun x y val => by simp only [Field.Same, yamlSet_hasMeta, h, if_true]⟩
  simp only [yamlKeys, List.map_cons, List.map_nil, List.mem_cons, List.not_mem_nil,
    or_false] at hkey
  rcases hkey with rfl | rfl | rfl | rfl | rfl | rfl | rfl | rfl | rfl
  · exact ⟨.id, fun x y val => by simp only [Field.Same, yamlSet_id, if_true]⟩
  · exact ⟨.name, fun x y val => by simp only [Field.Same, yamlSet_name, if_true]⟩
  · exact ⟨.type, fun x y val => by simp only [Field.Same, yamlSet_type, if_true]⟩
  · exact ⟨.unit, fun x y val => by simp only [Field.Same, yamlSet_unit, if_true]⟩
  · exact ⟨.access, fun x y val => by simp only [Field.Same, yamlSet_access, if_true]⟩
  · exact hmeta (by decide)
  · exact hmeta (by decide)
  · exact hmeta (by decide)
  · exact hmeta (by decide)

theorem Field.Same.refl (f : Field) (x : IrtPointMeta) : f.Same x x := by cases f <;> rfl

/-- Two states among the points whose entries agree in the field. -/
structure SameField (f : Field) (s s' : YamlState) : Prop where
  points : s.inPoints = true
  points' : s'.inPoints = true
  same : f.Same s.cur s'.cur

theorem SameField.keyValue {f : Field} {s s' : YamlState} (h : SameField f s s')
    (t : List UInt8) : SameField f (s.keyValue libc t) (s'.keyValue libc t) := by
  rw [YamlState.keyValue, YamlState.keyValue]
  cases yamlParseKv t with
  | none => exact h
  | some kv => exact ⟨h.points, h.points', h.same.set kv.1 kv.2⟩

/-- A line that begins an entry leaves nothing of the one before in `cur`. -/
theorem sameField_item (f : Field) {s s' : YamlState} (h : s.inPoints = true)
    (h' : s'.inPoints = true) (t : List UInt8) :
    SameField f (YamlState.keyValue libc { s with out := s.flush, cur := .zero } t)
      (YamlState.keyValue libc { s' with out := s'.flush, cur := .zero } t) := by
  have hzero : SameField f { s with out := s.flush, cur := .zero }
      { s' with out := s'.flush, cur := .zero } := ⟨h, h', .refl f _⟩
  exact hzero.keyValue t

theorem SameField.line {f : Field} {s s' : YamlState} (h : SameField f s s')
    (line : List UInt8) : SameField f (yamlLine libc s line) (yamlLine libc s' line) := by
  by_cases hhashed : Hashed line
  · rw [yamlLine_hashed s hhashed, yamlLine_hashed s' hhashed]
    exact h
  · rw [yamlLine_words s hhashed, yamlLine_words s' hhashed]
    split
    case isTrue => exact ⟨rfl, rfl, h.same⟩
    case isFalse =>
      rw [if_neg (not_not.mpr h.points), if_neg (not_not.mpr h.points')]
      split
      case isTrue => exact sameField_item f h.points h.points' _
      case isFalse => exact h.keyValue _

theorem SameField.lines {f : Field} {s s' : YamlState} (h : SameField f s s')
    (ls : List (List UInt8)) :
    SameField f (ls.foldl (yamlLine libc) s) (ls.foldl (yamlLine libc) s') := by
  induction ls generalizing s s' with
  | nil => exact h
  | cons line ls ih => exact ih (h.line line)

/-- A line that is not inert and does not begin the points gives a field a value of its
own. -/
theorem exists_field_line (libc : Libc) {line : List UInt8} (hline : ¬ Inert line)
    (hpoints : ¬ BeginsPoints line) :
    ∃ f : Field, ∀ s s' : YamlState, s.inPoints = true → s'.inPoints = true →
      SameField f (yamlLine libc s line) (yamlLine libc s' line) := by
  have hwords : ¬ Hashed line := fun h => hline (.inl h)
  have hturn : ∀ s : YamlState, s.inPoints = true → yamlLine libc s line =
      if ascii "- " <+: yamlTrim line then
        YamlState.keyValue libc { s with out := s.flush, cur := .zero }
          (((yamlTrim line).drop 2).dropWhile (· = 32))
      else s.keyValue libc (yamlTrim line) := fun s h => by
    rw [yamlLine_words s hwords, if_neg hpoints, if_neg (not_not.mpr h)]
  by_cases hitem : ascii "- " <+: yamlTrim line
  · refine ⟨.id, fun s s' h h' => ?_⟩
    rw [hturn s h, hturn s' h', if_pos hitem, if_pos hitem]
    exact sameField_item .id h h' _
  · obtain ⟨key, val, hpair, hkey⟩ : ∃ key val,
        yamlParseKv (yamlTrim line) = some (key, val) ∧ key ∈ yamlKeys := by
      by_contra hnone
      refine hline (.inr ⟨hpoints, hitem, fun key val hpair hkey => ?_⟩)
      exact hnone ⟨key, val, hpair, hkey⟩
    obtain ⟨f, hf⟩ := exists_field libc hkey
    refine ⟨f, fun s s' h h' => ?_⟩
    rw [hturn s h, hturn s' h', if_neg hitem, if_neg hitem, YamlState.keyValue,
      YamlState.keyValue, hpair]
    exact ⟨h, h', hf _ _ val⟩

/-- Lines of which one is not inert, and none begins the points, give a field a value of
their own. -/
theorem exists_field_lines (libc : Libc) {ls : List (List UInt8)}
    (hline : ∃ line ∈ ls, ¬ Inert line) (hpoints : ∀ line ∈ ls, ¬ BeginsPoints line) :
    ∃ f : Field, ∀ s s' : YamlState, s.inPoints = true → s'.inPoints = true →
      SameField f (ls.foldl (yamlLine libc) s) (ls.foldl (yamlLine libc) s') := by
  obtain ⟨line, hmem, hline⟩ := hline
  obtain ⟨before, after, rfl⟩ := List.append_of_mem hmem
  obtain ⟨f, hf⟩ := exists_field_line libc hline (hpoints line hmem)
  have hbefore : ∀ s : YamlState, s.inPoints = true →
      (before.foldl (yamlLine libc) s).inPoints = true := fun s h =>
    (SameField.lines ⟨h, h, .refl .id _⟩ before).points
  refine ⟨f, fun s s' h h' => ?_⟩
  rw [List.foldl_append, List.foldl_append, List.foldl_cons, List.foldl_cons]
  exact (hf _ _ (hbefore s h) (hbefore s' h')).lines after

/-! ## Comments that are ignored -/

/-- Without the comment, any file says the same to both readers. -/
def Ignored (libc : Libc) (c : CommentLine) : Prop :=
  ∀ file file', (0 : UInt8) ∉ file → Deleted c file file' →
    SameKeys (rtdbdConfLoad file) (rtdbdConfLoad file') ∧
      irtPointConfigParseYaml libc file = irtPointConfigParseYaml libc file'

theorem ignored_of_inertTail {c : CommentLine} (h : c.InertTail) : Ignored libc c := by
  intro file file' hnul hdeleted
  refine ⟨hdeleted.sameKeys hnul, ?_⟩
  rw [irtPointConfigParseYaml_read, irtPointConfigParseYaml_read]
  cases hdeleted with
  | inside whole =>
      rw [readPoints_append _ whole, readPoints_line _ c.oneLine, readPoints_inertTail h,
        readPoints_append _ whole]
  | last whole => rw [readPoints_append _ whole, readPoints_inertTail h]

/-- What is read of a file with the comment and of one without it. -/
theorem Ignored.entries {c : CommentLine} (h : Ignored libc c) {a b : List UInt8} (ha : Whole a)
    (hnula : (0 : UInt8) ∉ a) (hnulb : (0 : UInt8) ∉ b) :
    (readPoints libc (c.tail.foldl (yamlLine libc) (readPoints libc .start a)) b).flush.points =
      (readPoints libc (readPoints libc .start a) b).flush.points := by
  have hnul : (0 : UInt8) ∉ a ++ (c.text ++ lineBreak :: b) := by
    rw [List.mem_append, not_or, List.mem_append, not_or, List.mem_cons, not_or]
    exact ⟨hnula, c.nulFree, by decide, hnulb⟩
  have hsame := (h _ _ hnul (.inside ha)).2
  rwa [irtPointConfigParseYaml_read, irtPointConfigParseYaml_read, readPoints_append _ ha,
    readPoints_line _ c.oneLine, readPoints_comment, readPoints_append _ ha] at hsame

theorem not_hashed_of_beginsPoints {line : List UInt8} (h : BeginsPoints line) :
    ¬ Hashed line := by
  obtain ⟨rest, hrest⟩ := h
  have hlead : lead line = some 112 := by
    rw [lead, ← hrest]
    rfl
  rw [Hashed, hlead]
  decide

theorem keyValue_inPoints (s : YamlState) (t : List UInt8) :
    (s.keyValue libc t).inPoints = s.inPoints := by
  rw [YamlState.keyValue]
  cases yamlParseKv t <;> rfl

theorem inPoints_line (s : YamlState) (line : List UInt8) :
    (yamlLine libc s line).inPoints = true ↔ s.inPoints = true ∨ BeginsPoints line := by
  by_cases hhashed : Hashed line
  · rw [yamlLine_hashed s hhashed]
    exact (or_iff_left fun h => not_hashed_of_beginsPoints h hhashed).symm
  · rw [yamlLine_words s hhashed]
    split
    case isTrue hbegins => exact iff_of_true rfl (.inr hbegins)
    case isFalse hbegins =>
      rw [or_iff_left hbegins]
      split
      case isTrue => exact Iff.rfl
      case isFalse =>
        split
        case isTrue => rw [keyValue_inPoints]
        case isFalse => rw [keyValue_inPoints]

/-- The parser is among the points once a line has begun them. -/
theorem inPoints_lines (ls : List (List UInt8)) (s : YamlState) :
    (ls.foldl (yamlLine libc) s).inPoints = true ↔
      s.inPoints = true ∨ ∃ line ∈ ls, BeginsPoints line := by
  induction ls generalizing s with
  | nil => simp
  | cons line ls ih =>
      rw [List.foldl_cons, ih, inPoints_line, List.exists_mem_cons_iff, or_assoc]

/-- The tail of a comment that is ignored does not begin the points. -/
theorem Ignored.not_beginsPoints {c : CommentLine} (h : Ignored libc c) :
    ∀ line ∈ c.tail, ¬ BeginsPoints line := by
  intro line hmem hbegins
  have hsame := h.entries (a := []) (b := ascii "- id: 1\n") (by rintro _ ⟨⟩) (by simp) (by decide)
  have hpoints : (c.tail.foldl (yamlLine libc) .start).inPoints = true :=
    (inPoints_lines c.tail .start).mpr (.inr ⟨line, hmem, hbegins⟩)
  have hitem : ∀ s : YamlState, s.inPoints = true →
      (readPoints libc s (ascii "- id: 1\n")).flush.points ≠ [] := by
    rintro ⟨i, cur, out⟩ hi
    cases hi
    exact List.append_ne_nil_of_right_ne_nil _ (List.cons_ne_nil _ _)
  exact hitem _ hpoints hsame

/-- Two files whose entries differ in the field. -/
def Field.sample : Field → Bool → List UInt8
  | .id, i => if i then ascii "points:\nid: 1\n" else ascii "points:\nid: 2\n"
  | .name, i => if i then ascii "points:\nname: x\n" else ascii "points:\nname: y\n"
  | .type, i => if i then ascii "points:\ntype: bool\n" else ascii "points:\ntype: int\n"
  | .unit, i => if i then ascii "points:\nunit: 1\n" else ascii "points:\nunit: 2\n"
  | .access, i => if i then ascii "points:\naccess: 1\n" else ascii "points:\naccess: 2\n"
  | .hasMeta, i => if i then ascii "points:\nflags: 1\n" else ascii "points:\n"

/-- A line that gives the entry an id or a name, and leaves the field. -/
def Field.closing : Field → List UInt8
  | .name => ascii "id: 1\n"
  | _ => ascii "name: x\n"

/-- What that line does. -/
def Field.close : Field → IrtPointMeta → IrtPointMeta
  | .name, cur => { cur with id := 1 }
  | _, cur => { cur with name := ⟨ascii "x", by decide⟩ }

theorem readPoints_closing (f : Field) {s : YamlState} (h : s.inPoints = true) :
    readPoints libc s f.closing = { s with cur := f.close s.cur } := by
  obtain ⟨i, cur, out⟩ := s
  cases h
  cases f <;> rfl

theorem Field.named_close (f : Field) (cur : IrtPointMeta) : (f.close cur).Named := by
  cases f with
  | name => exact .inl (show (1 : Nat) ≠ 0 by decide)
  | _ => exact .inr (show (⟨ascii "x", by decide⟩ : CStr) ≠ .empty by decide)

theorem Field.same_close {f : Field} {x y : IrtPointMeta} :
    f.Same (f.close x) (f.close y) ↔ f.Same x y := by
  cases f <;> exact Iff.rfl

theorem Field.sample_text (f : Field) (i : Bool) :
    Whole (f.sample i) ∧ (0 : UInt8) ∉ f.sample i ∧ (0 : UInt8) ∉ f.closing := by
  cases f <;> cases i <;> exact ⟨by unfold Whole; decide +kernel, by decide, by decide⟩

theorem Field.sample_inPoints (libc : Libc) (f : Field) (i : Bool) :
    (readPoints libc .start (f.sample i)).inPoints = true := by
  cases f <;> cases i <;> rfl

theorem Field.sample_differ (f : Field) :
    ¬ f.Same (readPoints libc .start (f.sample true)).cur
      (readPoints libc .start (f.sample false)).cur := by
  cases f with
  | id => exact (by decide : (1 : Nat) ≠ 2)
  | name => exact (by decide : CStr.ofBytes (ascii "x") ≠ .ofBytes (ascii "y"))
  | type => exact (by decide : (0 : UInt8) ≠ 1)
  | unit => exact (by decide : (1 : UInt16) ≠ 2)
  | access => exact (by decide : (1 : UInt8) ≠ 2)
  | hasMeta => exact (by decide : true ≠ false)

/-- The last entry is the current one. -/
theorem getLast?_flush {s : YamlState} (h : s.cur.Named) :
    s.flush.points.getLast? = some s.cur := by
  rw [flush_points, if_pos h]
  exact List.getLast?_concat

theorem inertTail_of_ignored {c : CommentLine} (h : Ignored libc c) : c.InertTail := by
  by_contra hnot
  obtain ⟨line, hmem, hline⟩ : ∃ line ∈ c.tail, ¬ Inert line := by
    simpa [CommentLine.InertTail] using hnot
  obtain ⟨f, hf⟩ := exists_field_lines libc ⟨line, hmem, hline⟩ h.not_beginsPoints
  -- the entry of a sample is the one that is left when the comment has been read
  have hleft : ∀ i,
      f.close (c.tail.foldl (yamlLine libc) (readPoints libc .start (f.sample i))).cur =
        f.close (readPoints libc .start (f.sample i)).cur := by
    intro i
    obtain ⟨hwhole, hnula, hnulb⟩ := f.sample_text i
    have hpoints := f.sample_inPoints libc i
    have hpoints' := (hf _ _ hpoints hpoints).points
    have hsame := congrArg List.getLast? (h.entries hwhole hnula hnulb)
    rw [readPoints_closing f hpoints', readPoints_closing f hpoints,
      getLast?_flush (f.named_close _), getLast?_flush (f.named_close _)] at hsame
    exact Option.some.inj hsame
  have hsame := (hf _ _ (f.sample_inPoints libc true) (f.sample_inPoints libc false)).same
  rw [← Field.same_close, hleft, hleft, Field.same_close] at hsame
  exact f.sample_differ hsame

end

/-! ## The line that begins the points -/

/-- A configuration file without NUL. -/
structure ConfigText where
  bytes : List UInt8
  nulFree : (0 : UInt8) ∉ bytes

/-- The parser of the points has started to read them at the end of the text. -/
def yamlStarts (libc : Libc) (text : List UInt8) : Bool := (readPoints libc .start text).inPoints

/-- The loop of `rtdbd_conf_load`, without what its keys do: it has met the line it stops
at. -/
def confStops (text : List UInt8) : Bool :=
  forLines rtdbdConfLineMax
    (fun _ line _ =>
      let t := confText line
      if isConfComment t then .inr ()
      else if isConfPoints t then .inl true
      else .inr ())
    (fun _ => false) text.length () text

/-- At the end of every line, the one has started if and only if the other has stopped. -/
def SameStart (libc : Libc) (file : ConfigText) : Prop :=
  ∀ a b, file.bytes = a ++ b → Whole a ∨ b = [] → yamlStarts libc a = confStops a

/-- A piece of the line begins the points behind white space. -/
def PieceBegins (line : List UInt8) : Prop :=
  ∃ piece ∈ reads yamlLineMax line.length line, BeginsPoints piece

instance (line : List UInt8) : Decidable (PieceBegins line) :=
  inferInstanceAs (Decidable (∃ piece ∈ _, _))

/-- The line begins the points behind blanks and tabs. -/
def LineBegins (line : List UInt8) : Prop :=
  ascii "points:" <+: (line.take (rtdbdConfLineMax - 1)).dropWhile isWs

/-- The first line with a piece that begins the points is one that begins them itself. -/
def StartsAlike (file : ConfigText) : Prop :=
  ∀ before line after, lines file.bytes = before ++ line :: after →
    (∀ l ∈ before, ¬ PieceBegins l) → PieceBegins line → LineBegins line

theorem yamlStarts_iff (libc : Libc) (text : List UInt8) :
    yamlStarts libc text = true ↔ ∃ line ∈ lines text, PieceBegins line := by
  have hline : ∀ (s : YamlState) (line : List UInt8), (readPoints libc s line).inPoints = true ↔
      s.inPoints = true ∨ PieceBegins line := fun s line => inPoints_lines _ s
  have hlines : ∀ (ls : List (List UInt8)) (s : YamlState),
      (ls.foldl (readPoints libc) s).inPoints = true ↔
        s.inPoints = true ∨ ∃ line ∈ ls, PieceBegins line := by
    intro ls
    induction ls with
    | nil => simp
    | cons line ls ih =>
        intro s
        rw [List.foldl_cons, ih, hline, List.exists_mem_cons_iff, or_assoc]
  have htext : readPoints libc .start text = (lines text).foldl (readPoints libc) .start :=
    foldPieces_lines (by decide) (yamlLine_break libc) yamlLine_empty .start text
  rw [yamlStarts, htext, hlines]
  exact or_iff_right (by decide)

/-- The test of `rtdbd_conf_load` for the line it stops at. -/
theorem isConfPoints_iff (line : List UInt8) :
    isConfPoints (confText (line.take (rtdbdConfLineMax - 1))) = true ↔ LineBegins line := by
  rw [isConfPoints, List.isPrefixOf_iff_prefix, LineBegins, confText, confTrim]
  generalize line.take (rtdbdConfLineMax - 1) = text
  refine (prefix_rdropWhile_iff (m := ascii "points") (c := 58) (by decide)).trans ?_
  constructor
  · exact fun h => h.trans (dropWhile_starts (List.rdropWhile_prefix _ text))
  · rintro ⟨rest, hrest⟩
    have hsplit := List.takeWhile_append_dropWhile (p := isWs) (l := text)
    have hblank : ∀ c ∈ text.takeWhile isWs, isWs c = true := fun c => List.mem_takeWhile_imp
    have htext : text = (text.takeWhile isWs ++ ascii "points") ++ 58 :: rest := by
      rw [List.append_assoc]
      conv_lhs => rw [← hsplit, ← hrest]
      rfl
    rw [htext, rdropWhile_append_cons (by decide), List.append_assoc,
      dropWhile_append_of_all hblank]
    exact ⟨_, rfl⟩

theorem confStops_iff {text : List UInt8} (hnul : (0 : UInt8) ∉ text) :
    confStops text = true ↔ ∃ line ∈ lines text, LineBegins line := by
  have hscan : ∀ ls : List (List UInt8),
      scan (fun (_ : Unit) line => if isConfComment (confText (line.take (rtdbdConfLineMax - 1)))
          then .inr () else if isConfPoints (confText (line.take (rtdbdConfLineMax - 1)))
          then .inl true else .inr ()) (fun _ => false) () ls = true ↔
        ∃ line ∈ ls, LineBegins line := by
    intro ls
    induction ls with
    | nil => simp [scan]
    | cons line ls ih =>
        rw [scan, List.exists_mem_cons_iff, ← isConfPoints_iff]
        split
        case h_1 r hturn =>
          split at hturn
          case isTrue => cases hturn
          case isFalse =>
            split at hturn
            case isTrue hpoints =>
              obtain rfl := Sum.inl.inj hturn
              exact iff_of_true rfl (.inl hpoints)
            case isFalse => cases hturn
        case h_2 hturn =>
          rw [ih]
          refine (or_iff_right fun hpoints => ?_).symm
          split at hturn
          case isTrue hcomment =>
            rw [not_points_of_comment hcomment] at hpoints
            cases hpoints
          case isFalse => cases hturn
  rw [confStops, forLines_eq (fun s text => by simp only [confText_break]) _ _ _ _ (Nat.le_refl _)
    hnul, hscan]

theorem seenSays_points {line : List UInt8} (h : LineBegins line) : seenSays line = .points := by
  have hpoints := (isConfPoints_iff line).mpr h
  rw [seenSays, confSays]
  split
  case isTrue hcomment =>
    rw [not_points_of_comment hcomment] at hpoints
    cases hpoints
  case isFalse => rfl

theorem confScan_stops {line : List UInt8} (h : LineBegins line) (s : ConfState)
    (before after : List (List UInt8)) :
    scan confTurn confDone s (before ++ line :: after) =
      scan confTurn confDone s (before ++ [line]) := by
  induction before generalizing s with
  | nil =>
      rw [List.nil_append, List.nil_append, scan, scan, confTurn_eq, seenSays_points h]
      rfl
  | cons first before ih =>
      rw [List.cons_append, List.cons_append, scan, scan]
      cases confTurn s first with
      | inl load => rfl
      | inr s' => exact ih s'

/-- What stands behind the line it stops at is not read by `rtdbd_conf_load`. -/
theorem rtdbdConfLoad_stops {a b : List UInt8} (ha : Whole a) (hnul : (0 : UInt8) ∉ a ++ b)
    (hstops : confStops a = true) : rtdbdConfLoad (a ++ b) = rtdbdConfLoad a := by
  have hfront : (0 : UInt8) ∉ a := fun hmem => hnul (List.mem_append_left b hmem)
  obtain ⟨line, hmem, hline⟩ := (confStops_iff hfront).mp hstops
  obtain ⟨before, after, hlines⟩ := List.append_of_mem hmem
  rw [rtdbdConfLoad_eq hnul, rtdbdConfLoad_eq hfront, lines_append ha, hlines, List.append_assoc,
    List.cons_append, confScan_stops hline, ← confScan_stops hline _ _ after]

/-- A line that begins the points for `rtdbd_conf_load` begins them for the parser. -/
theorem LineBegins.piece {line : List UInt8} (h : LineBegins line) (hline : lineBreak ∉ line)
    (hnul : (0 : UInt8) ∉ line) : PieceBegins line := by
  have hne : line ≠ [] := by
    rintro rfl
    exact absurd (List.prefix_nil.mp h) (by decide)
  refine ⟨line.take (rtdbdConfLineMax - 1), ?_, ?_⟩
  · rw [reads_line (by decide) hline hnul hne]
    exact List.mem_cons_self
  · obtain ⟨rest, hrest⟩ := h
    have hspace : ∀ c ∈ (line.take (rtdbdConfLineMax - 1)).takeWhile isWs, isSpace c = true :=
      fun c hc => isSpace_of_isWs (List.mem_takeWhile_imp hc)
    have hsplit := List.takeWhile_append_dropWhile (p := isWs)
      (l := line.take (rtdbdConfLineMax - 1))
    rw [BeginsPoints, ← hsplit, dropWhile_append_of_all hspace, ← hrest]
    exact ⟨rest, rfl⟩

theorem sameStart_iff (libc : Libc) (file : ConfigText) :
    SameStart libc file ↔ StartsAlike file := by
  have hnulFree : ∀ {a b : List UInt8}, file.bytes = a ++ b → (0 : UInt8) ∉ a :=
    fun hsplit hmem => file.nulFree (hsplit ▸ List.mem_append_left _ hmem)
  constructor
  · intro hsame before line after hlines hbefore hline
    rw [List.append_cons] at hlines
    obtain ⟨a, b, hsplit, ha, hend⟩ := exists_front hlines
    have hstarts : yamlStarts libc a = true := (yamlStarts_iff libc a).mpr
      ⟨line, by rw [ha]; simp, hline⟩
    rw [hsame a b hsplit hend] at hstarts
    obtain ⟨l, hmem, hl⟩ := (confStops_iff (hnulFree hsplit)).mp hstarts
    obtain ⟨hnone, hbytes⟩ := mem_lines hmem
    have hpiece := hl.piece hnone fun hzero => hnulFree hsplit (hbytes 0 hzero)
    rw [ha, List.mem_append, List.mem_singleton] at hmem
    rcases hmem with hearlier | rfl
    · exact absurd hpiece (hbefore l hearlier)
    · exact hl
  · intro halike a b hsplit hend
    rw [Bool.eq_iff_iff, yamlStarts_iff, confStops_iff (hnulFree hsplit)]
    constructor
    · rintro ⟨l, hmem, hl⟩
      obtain ⟨first, hfirst⟩ : ∃ first, (lines a).find? (fun l => PieceBegins l) = some first :=
        Option.isSome_iff_exists.mp (List.find?_isSome.mpr ⟨l, hmem, decide_eq_true hl⟩)
      obtain ⟨hpiece, before, after, hlines, hbefore⟩ := List.find?_eq_some_iff_append.mp hfirst
      have hfile : ∃ after, lines file.bytes = before ++ first :: after := by
        rcases hend with hwhole | rfl
        · exact ⟨after ++ lines b, by rw [hsplit, lines_append hwhole, hlines]; simp⟩
        · exact ⟨after, by rw [hsplit, List.append_nil, hlines]⟩
      obtain ⟨behind, hfile⟩ := hfile
      refine ⟨first, by rw [hlines]; simp, halike before first behind hfile ?_ ?_⟩
      · exact fun l hmem => by simpa using hbefore l hmem
      · exact of_decide_eq_true hpiece
    · rintro ⟨l, hmem, hl⟩
      obtain ⟨hnone, hbytes⟩ := mem_lines hmem
      exact ⟨l, hmem, hl.piece hnone fun hzero => hnulFree hsplit (hbytes 0 hzero)⟩

/-- A comment is ignored in every file if and only if what does not fit the buffer is
inert, and the points begin at one line for both readers if and only if they begin there
in the first piece, behind blanks and tabs. -/
theorem readersAgree_iff (libc : Libc) (c : CommentLine) (file : ConfigText) :
    (Ignored libc c ↔ c.InertTail) ∧ (SameStart libc file ↔ StartsAlike file) :=
  ⟨⟨inertTail_of_ignored, ignored_of_inertTail⟩, sameStart_iff libc file⟩

/-- A comment of 518 bytes; the last seven begin the points. -/
def longComment : CommentLine where
  text := 35 :: List.replicate 510 120 ++ ascii "points:"
  nulFree := by decide +kernel
  oneLine := by decide +kernel
  hash := rfl

/-- The long comment is not ignored, and behind a vertical tab the points begin for one
reader only. -/
theorem not_readersAgree :
    ¬ Ignored wordsLibc longComment ∧ ¬ SameStart wordsLibc ⟨ascii "\x0bpoints:\n", by decide⟩ := by
  constructor
  · intro hignored
    have htail : longComment.tail = [ascii "points:"] := by decide +kernel
    refine hignored.not_beginsPoints (ascii "points:") ?_ (by decide)
    rw [htail]
    exact List.mem_singleton_self _
  · intro hsame
    have hend := hsame (ascii "\x0bpoints:\n") [] rfl (.inr rfl)
    exact absurd hend (by decide +kernel)

end InduRtdb.Daemon
