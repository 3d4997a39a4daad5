/-
  Lib/Bytes.lean --- byte strings with slices and slice assignment.

  A byte string is read in two ways: by slices, which are byte strings again, and as a
  memory that holds a byte at every offset (`mem`), where nothing stands behind the end
  but zeros.  A slice assignment of as many bytes as it replaces (`store`) is a memory
  write; the lemmas say which offsets it reaches.
-/
import Mathlib.Data.List.GetD

set_option autoImplicit false

namespace InduRtdb.Lib

/-- A byte string. -/
abbrev Bytes : Type := List UInt8

namespace Bytes

/-- The bytes as a memory. -/
def mem (bs : Bytes) : Nat → UInt8 := fun o => bs.getD o 0

/-- `bs[i:j]`. -/
def slice (bs : Bytes) (i j : Nat) : Bytes := (bs.take j).drop i

/-- `bs[i:j] = data`. -/
def store (bs : Bytes) (i j : Nat) (data : Bytes) : Bytes :=
  bs.take i ++ data ++ bs.drop (max i j)

variable {bs data : Bytes} {i j o : Nat}

theorem mem_of_lt (h : o < bs.length) : mem bs o = bs[o] := List.getD_eq_getElem bs 0 h

theorem mem_of_le (h : bs.length ≤ o) : mem bs o = 0 := List.getD_eq_default bs 0 h

/-- Byte strings of one length that hold the same bytes are equal. -/
theorem ext_mem {as : Bytes} (hlen : as.length = bs.length)
    (hmem : ∀ o, o < bs.length → mem as o = mem bs o) : as = bs := by
  apply List.ext_getElem hlen
  intro o ho ho'
  have hbyte := hmem o ho'
  rwa [mem_of_lt ho, mem_of_lt ho'] at hbyte

theorem mem_append_left {rest : Bytes} (h : o < bs.length) : mem (bs ++ rest) o = mem bs o :=
  List.getD_append bs rest 0 o h

theorem mem_append_right {rest : Bytes} (h : bs.length ≤ o) :
    mem (bs ++ rest) o = mem rest (o - bs.length) :=
  List.getD_append_right bs rest 0 o h

theorem mem_replicate {n : Nat} {byte : UInt8} (h : o < n) :
    mem (List.replicate n byte) o = byte := by
  rw [mem_of_lt (by rwa [List.length_replicate]), List.getElem_replicate]

/-! ## Slices -/

theorem length_slice (hj : j ≤ bs.length) : (slice bs i j).length = j - i := by
  rw [slice, List.length_drop, List.length_take, Nat.min_eq_left hj]

theorem mem_slice (h : i + o < j) : mem (slice bs i j) o = mem bs (i + o) := by
  rcases Nat.lt_or_ge (i + o) bs.length with hin | hout
  · have hlen : o < (slice bs i j).length := by
      rw [slice, List.length_drop, List.length_take]
      omega
    rw [mem_of_lt hlen, mem_of_lt hin]
    simp only [slice, List.getElem_drop, List.getElem_take]
  · have hlen : (slice bs i j).length ≤ o := by
      rw [slice, List.length_drop, List.length_take]
      omega
    rw [mem_of_le hlen, mem_of_le hout]

/-- The bytes of a slice, one after the other. -/
theorem slice_eq_map (hj : j ≤ bs.length) :
    slice bs i j = (List.range (j - i)).map fun b => mem bs (i + b) := by
  apply List.ext_getElem
  · rw [length_slice hj, List.length_map, List.length_range]
  · intro o ho ho'
    rw [length_slice hj] at ho
    have hbyte : mem (slice bs i j) o = mem bs (i + o) := mem_slice (by omega)
    rw [mem_of_lt (by rw [length_slice hj]; exact ho)] at hbyte
    rw [hbyte, List.getElem_map, List.getElem_range]

/-! ## Stores -/

section Store

variable (hi : i ≤ j) (hj : j ≤ bs.length) (hlen : data.length = j - i)
include hi hj hlen

theorem length_store : (store bs i j data).length = bs.length := by
  rw [store, List.length_append, List.length_append, List.length_take, List.length_drop, hlen]
  omega

/-- The bytes stored are found where they were stored. -/
theorem mem_store_in (ho : i ≤ o) (ho' : o < j) : mem (store bs i j data) o = mem data (o - i) := by
  have htake : (bs.take i).length = i := by
    rw [List.length_take]
    omega
  rw [store, mem_append_left (by rw [List.length_append, htake]; omega),
    mem_append_right (by rw [htake]; exact ho), htake]

/-- A store does not reach below its start. -/
theorem mem_store_below (ho : o < i) : mem (store bs i j data) o = mem bs o := by
  have htake : (bs.take i).length = i := by
    rw [List.length_take]
    omega
  rw [store, mem_append_left (by rw [List.length_append, htake]; omega),
    mem_append_left (by rw [htake]; exact ho), mem_of_lt (by rw [htake]; exact ho),
    List.getElem_take, mem_of_lt (by omega)]

/-- A store does not reach beyond its end. -/
theorem mem_store_above (ho : j ≤ o) : mem (store bs i j data) o = mem bs o := by
  have htake : (bs.take i ++ data).length = j := by
    rw [List.length_append, List.length_take, hlen]
    omega
  rw [store, mem_append_right (by rw [htake]; exact ho), htake, Nat.max_eq_right hi]
  rcases Nat.lt_or_ge o bs.length with hin | hout
  · rw [mem_of_lt (by rw [List.length_drop]; omega), List.getElem_drop, mem_of_lt hin]
    congr 1
    omega
  · rw [mem_of_le (by rw [List.length_drop]; omega), mem_of_le hout]

theorem mem_store_out (ho : o < i ∨ j ≤ o) : mem (store bs i j data) o = mem bs o :=
  ho.elim (mem_store_below hi hj hlen) (mem_store_above hi hj hlen)

/-- What is stored is what the slice holds. -/
theorem slice_store : slice (store bs i j data) i j = data := by
  apply ext_mem
  · rw [length_slice (by rw [length_store hi hj hlen]; exact hj), hlen]
  · intro o ho
    rw [mem_slice (by omega), mem_store_in hi hj hlen (by omega) (by omega)]
    congr 1
    omega

/-- A slice away from a store does not see it. -/
theorem slice_store_out {k l : Nat} (hl : l ≤ bs.length) (hout : l ≤ i ∨ j ≤ k) :
    slice (store bs i j data) k l = slice bs k l := by
  apply ext_mem
  · rw [length_slice (by rw [length_store hi hj hlen]; exact hl), length_slice hl]
  · intro o ho
    rw [length_slice hl] at ho
    rw [mem_slice (by omega), mem_slice (by omega), mem_store_out hi hj hlen (by omega)]

end Store

end Bytes

end InduRtdb.Lib
