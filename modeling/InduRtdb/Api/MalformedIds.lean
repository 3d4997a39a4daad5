/-
  Api/MalformedIds.lean --- what an entry with a malformed id configures.

  Source: `irt_point_config_parse_yaml` of `src/core/irt_config.c` and
  `indurtdb_h_load_config` of `src/api/indurtdb.c`.

  An entry is the list of the pairs of a key and a value that `yaml_parse_kv` cuts out of
  its lines.  The id is assigned before its syntax is looked at, and the test that follows
  does not drop the entry.  What the parser returns is one record for each entry with a
  name or a number that is not zero (`parseYaml_entries`).
-/
import InduRtdb.Api.ConfigFile
import InduRtdb.Api.LoadAny
import InduRtdb.Api.Frames

set_option autoImplicit false

namespace InduRtdb.Api

open InduRtdb.Core InduRtdb.Lib

/-! ## The entries of a document -/

/-- The pairs of a key and a value of an entry, in the order of their lines. -/
abbrev Pairs := List (List UInt8 × List UInt8)

/-- The entries read so far, and the pairs of the last one. -/
structure Reading where
  inPoints : Bool
  current : Pairs
  before : List Pairs

/-- The pair on the line `t` belongs to the last entry. -/
def Reading.pair (r : Reading) (t : List UInt8) : Reading :=
  match yamlParseKv t with
  | none => r
  | some kv => { r with current := r.current ++ [kv] }

/-- The lines that `yamlLine` reads, without what their keys do. -/
def readLine (r : Reading) (line : List UInt8) : Reading :=
  let t := yamlTrim line
  if t.isEmpty || t.head? = some 35 then r
  else if (ascii "points:").isPrefixOf t then { r with inPoints := true }
  else if ¬ r.inPoints then r
  else if (ascii "- ").isPrefixOf t then
    let r := { r with before := r.before ++ [r.current], current := [] }
    r.pair ((t.drop 2).dropWhile (· = 32))
  else r.pair t

/-- The entries of a document. -/
def entriesOf (file : List UInt8) : List Pairs :=
  let r := (reads yamlLineMax file.length file).foldl readLine ⟨false, [], []⟩
  r.before ++ [r.current]

/-- What the parser makes of an entry. -/
def Pairs.toMeta (libc : Libc) (e : Pairs) : IrtPointMeta :=
  e.foldl (fun cur kv => yamlSet libc cur kv.1 kv.2) .zero

section

variable {libc : Libc}

theorem Pairs.toMeta_concat (e : Pairs) (kv : List UInt8 × List UInt8) :
    Pairs.toMeta libc (e ++ [kv]) = yamlSet libc (Pairs.toMeta libc e) kv.1 kv.2 :=
  List.foldl_concat ..

/-- The parser is where the reading is. -/
structure Follows (libc : Libc) (s : YamlState) (r : Reading) : Prop where
  inPoints : s.inPoints = r.inPoints
  cur : s.cur = Pairs.toMeta libc r.current
  out : s.out.points = (r.before.map (Pairs.toMeta libc)).filter fun pm => pm.Named

theorem Follows.keyValue {s : YamlState} {r : Reading} (h : Follows libc s r) (t : List UInt8) :
    Follows libc (s.keyValue libc t) (r.pair t) := by
  rw [YamlState.keyValue, Reading.pair]
  cases yamlParseKv t with
  | none => exact h
  | some kv => exact ⟨h.inPoints, by rw [Pairs.toMeta_concat, ← h.cur], h.out⟩

theorem Follows.flush {s : YamlState} {r : Reading} (h : Follows libc s r) :
    s.flush.points =
      ((r.before ++ [r.current]).map (Pairs.toMeta libc)).filter fun pm => pm.Named := by
  rw [List.map_append, List.filter_append, ← h.out, List.map_singleton, ← h.cur, YamlState.flush]
  by_cases hnamed : s.cur.Named
  · rw [if_pos hnamed, List.filter_cons_of_pos (by simpa using hnamed)]
    rfl
  · rw [if_neg hnamed, List.filter_cons_of_neg (by simpa using hnamed)]
    exact (List.append_nil _).symm

theorem Follows.line {s : YamlState} {r : Reading} (h : Follows libc s r) (line : List UInt8) :
    Follows libc (yamlLine libc s line) (readLine r line) := by
  simp only [yamlLine, readLine, h.inPoints]
  split
  case isTrue => exact h
  case isFalse =>
    split
    case isTrue => exact ⟨rfl, h.cur, h.out⟩
    case isFalse =>
      split
      case isTrue => exact h
      case isFalse =>
        split
        case isTrue => exact Follows.keyValue ⟨rfl, rfl, h.flush⟩ _
        case isFalse => exact h.keyValue _

theorem Follows.run {s : YamlState} {r : Reading} (h : Follows libc s r)
    (text : List (List UInt8)) :
    Follows libc (text.foldl (yamlLine libc) s) (text.foldl readLine r) := by
  induction text generalizing s r with
  | nil => exact h
  | cons line text ih => exact ih (h.line line)

end

/-! ## Ids and names -/

section

variable {libc : Libc}

end

/-! ## What a load stores -/

section

variable {s : IrtShm} {seg : Segment} {pm : IrtPointMeta}

/-- The load stores a record for the entry, if it gets to it and the lock is free. -/
def IrtPointMeta.Registers (s : IrtShm) (pm : IrtPointMeta) : Prop :=
  pm.Accepted s ∧ pm.badValue = false

instance (s : IrtShm) (pm : IrtPointMeta) : Decidable (pm.Registers s) :=
  inferInstanceAs (Decidable (_ ∧ _))

/-- One turn of the loop: the segment behind the entry, or nothing where the load ends. -/
def loadTurn (s : IrtShm) (seg : Segment) (pm : IrtPointMeta) : Option Segment :=
  if ¬ pm.Accepted s then some seg
  else if pm.badValue ∨ (configurePoint s seg pm).1 = .errFull then none
  else some (applyEntry s seg pm)

/-- The entries that a load stores records for, in order. -/
def stores {α : Type} (s : IrtShm) (toMeta : α → IrtPointMeta) : List α → Segment → List α
  | [], _ => []
  | e :: rest, seg =>
      let here := if (toMeta e).Registers s ∧ seg.hdr.writeSeq % 2 = 0 then [e] else []
      match loadTurn s seg (toMeta e) with
      | none => here
      | some seg => here ++ stores s toMeta rest seg

theorem configurePoint_odd (hodd : seg.hdr.writeSeq % 2 = 1) :
    configurePoint s seg pm = (.errBusy, seg) := by
  have hnot : ¬ seg.hdr.writeSeq % 2 = 0 := by omega
  simp only [configurePoint, withWriteLock, irtSeqlockWriteBegin, if_neg hnot, if_pos hodd]

end

section

variable {libc : Libc} {h : IndurtdbH} {file : List UInt8}

/-- The parser keeps the entry. -/
def Pairs.Kept (libc : Libc) (e : Pairs) : Prop := (Pairs.toMeta libc e).Named

instance (libc : Libc) (e : Pairs) : Decidable (Pairs.Kept libc e) :=
  inferInstanceAs (Decidable (IrtPointMeta.Named _))

/-- The entries of a document that a load stores records for. -/
def written (libc : Libc) (h : IndurtdbH) (file : List UInt8) : List Pairs :=
  if h.seg.hdr.offPoints = 0 ∨ h.shm.maxPoints = 0 then []
  else stores h.shm (Pairs.toMeta libc) ((entriesOf file).filter fun e => Pairs.Kept libc e) h.seg

end

end InduRtdb.Api
