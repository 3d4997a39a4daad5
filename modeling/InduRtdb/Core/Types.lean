/-
  Core/Types.lean --- the records of the shared segment and the return codes.

  Source: `include/indurtdb/indurtdb.h` and `src/internal/irt_types.h`.

  Identifiers, counts and offsets are `Nat`; the places where the source
  truncates them say so.  Values that are hashed or compared bitwise keep their
  fixed width.  A `char` array that the source always reads as a C string is
  modelled by the string it holds, so the bytes behind the terminating NUL are
  not part of the model.
-/
import InduRtdb.Core.Layout

set_option autoImplicit false

namespace InduRtdb.Core

/-! ## C strings -/

/-- The bytes of a C string, without the terminating NUL. -/
structure CStr where
  bytes : List UInt8
  /-- A C string ends at its first NUL, so none occurs inside. -/
  nulFree : (0 : UInt8) ∉ bytes
  deriving DecidableEq

namespace CStr

theorem ext_bytes {a b : CStr} (h : a.bytes = b.bytes) : a = b := by
  cases a; cases b; simpa using h

/-- The empty string. -/
def empty : CStr := ⟨[], by simp⟩

instance : Inhabited CStr := ⟨empty⟩

/-- `s[0] == '\0'`. -/
def isEmpty (s : CStr) : Bool := s.bytes.isEmpty

/-- `strncpy(dst, s, n); dst[n] = '\0'`: what `dst` holds afterwards. -/
def strncpy (s : CStr) (n : Nat) : CStr :=
  ⟨s.bytes.take n, fun h => s.nulFree (List.mem_of_mem_take h)⟩

/-- `strncmp(a, b, n) == 0`.  On NUL-free contents the comparison stops at the
first difference, at the end of the shorter string, or after `n` bytes. -/
def strncmpEq (a b : CStr) (n : Nat) : Bool := a.bytes.take n == b.bytes.take n

/-- The string stored at the start of a byte array. -/
def ofBytes (bs : List UInt8) : CStr :=
  ⟨bs.takeWhile (· ≠ 0), fun h => by
    simpa using List.all_eq_true.mp (List.all_takeWhile ) 0 h⟩

@[simp] theorem isEmpty_empty : empty.isEmpty = true := rfl

theorem isEmpty_iff {s : CStr} : s.isEmpty = true ↔ s = empty := by
  constructor
  · intro h
    exact ext_bytes (List.isEmpty_iff.mp h)
  · rintro rfl
    rfl

theorem isEmpty_eq_false_iff {s : CStr} : s.isEmpty = false ↔ s ≠ empty := by
  rw [Ne, ← isEmpty_iff, Bool.not_eq_true]

/-- Copying a string that fits changes nothing. -/
theorem strncpy_of_length_le {s : CStr} {n : Nat} (h : s.bytes.length ≤ n) :
    s.strncpy n = s :=
  ext_bytes (List.take_of_length_le h)

theorem length_strncpy_le (s : CStr) (n : Nat) : (s.strncpy n).bytes.length ≤ n :=
  List.length_take_le n s.bytes

/-- A copy is empty only when the source is. -/
theorem strncpy_isEmpty {s : CStr} {n : Nat} (hn : 0 < n) :
    (s.strncpy n).isEmpty = s.isEmpty := by
  obtain ⟨bytes, hfree⟩ := s
  cases bytes with
  | nil => simp [strncpy, isEmpty]
  | cons b rest =>
      cases n with
      | zero => omega
      | succ n => simp [strncpy, isEmpty]

/-- On strings that fit, the bounded comparison is equality. -/
theorem strncmpEq_iff {a b : CStr} {n : Nat} (ha : a.bytes.length ≤ n)
    (hb : b.bytes.length ≤ n) : a.strncmpEq b n = true ↔ a = b := by
  rw [strncmpEq, List.take_of_length_le ha, List.take_of_length_le hb, beq_iff_eq]
  exact ⟨ext_bytes, fun h => by rw [h]⟩

end CStr

/-- Capacity of a stored name: `char name[64]` keeps 63 bytes and the NUL. -/
abbrev nameMax : Nat := 63

/-! ## Return codes -/

/-- The public codes of `indurtdb.h`. -/
inductive Rc where
  | ok
  /-- illegal argument: null, empty name, id out of range -/
  | errArg
  | errNotFound
  | errFull
  | errNotInit
  /-- write conflict, retries exhausted -/
  | errBusy
  | errReadOnly
  deriving DecidableEq, Repr

/-- The numeric value of a public code. -/
def Rc.code : Rc → Int
  | .ok => 0
  | .errArg => -1
  | .errNotFound => -2
  | .errFull => -3
  | .errNotInit => -4
  | .errBusy => -5
  | .errReadOnly => -6

/-! ## Constants of the point record -/

abbrev indurtdbTypeBool : Nat := 0
abbrev indurtdbTypeInt32 : Nat := 1
abbrev indurtdbTypeDouble : Nat := 2
abbrev indurtdbTypeString : Nat := 3
abbrev indurtdbTypeInt64 : Nat := 4
abbrev indurtdbTypeUint32 : Nat := 5
/-- The largest type code. -/
abbrev indurtdbTypeFloat : Nat := 6

abbrev indurtdbQualityGood : UInt8 := 0
abbrev indurtdbQualityTimeout : UInt8 := 2

abbrev indurtdbAccessReadOnly : UInt8 := 1
abbrev indurtdbAccessReadWrite : UInt8 := 3

/-- `INDURTDB_QUALITY_LIMIT`: bits 4 and 5 of a quality byte. -/
def indurtdbQualityLimit (q : UInt8) : UInt8 := (q >>> (4 : UInt8)) &&& (3 : UInt8)

/-- `INDURTDB_QUALITY_MAKE`. -/
def indurtdbQualityMake (base limit : UInt8) : UInt8 :=
  (base &&& (15 : UInt8)) ||| ((limit &&& (3 : UInt8)) <<< (4 : UInt8))

/-! ## Records -/

/-- `indurtdb_point_t`.  `value` is the 32-byte union. -/
structure IndurtdbPoint where
  value : List UInt8
  timestampNs : Nat
  type : UInt8
  quality : UInt8
  unit : UInt16
  access : UInt8
  name : CStr
  sourceTimestampNs : Nat
  partition : UInt32
  deriving DecidableEq

/-- The record of a zeroed point slot. -/
def IndurtdbPoint.zero : IndurtdbPoint where
  value := List.replicate 32 0
  timestampNs := 0
  type := 0
  quality := 0
  unit := 0
  access := 0
  name := CStr.empty
  sourceTimestampNs := 0
  partition := 0

instance : Inhabited IndurtdbPoint := ⟨IndurtdbPoint.zero⟩

/-- `indurtdb_meta_t`.  Floating-point members are carried as bit patterns, `reserved` as
the word of its eight bytes. -/
structure IndurtdbMeta where
  eurMin : UInt64
  eurMax : UInt64
  deadband : UInt32
  flags : UInt32
  reserved : UInt64
  deriving DecidableEq, Inhabited

/-- The metadata record of a zeroed slot. -/
def IndurtdbMeta.zero : IndurtdbMeta := ⟨0, 0, 0, 0, 0⟩

/-- `irt_index_slot_t`. -/
structure IrtIndexSlot where
  hash : UInt32
  pointId : Nat
  deriving DecidableEq, Inhabited

/-- `IRT_INDEX_EMPTY`. -/
abbrev irtIndexEmpty : Nat := 2 ^ 32 - 1
/-- `IRT_INDEX_TOMBSTONE`. -/
abbrev irtIndexTombstone : Nat := 2 ^ 32 - 2

end InduRtdb.Core
