/-
  Lib/Ring.lean --- circular buffers.

  A buffer of `cap` places holds `n` entries from place `start` on; positions are
  taken modulo `cap`.  The entries are read off as a list, so that storing behind
  the last entry appends and giving up the first one takes the tail.
-/
import Mathlib.Logic.Function.Basic
import Mathlib.Data.List.Basic
import Mathlib.Data.Nat.ModEq

set_option autoImplicit false

namespace InduRtdb.Lib

variable {α : Type}

/-- The `n` entries from place `start` on, oldest first. -/
def ringList (cap : Nat) (buf : Nat → α) (start n : Nat) : List α :=
  (List.range n).map fun i => buf ((start + i) % cap)

section

variable {cap : Nat} {buf : Nat → α} {start n : Nat}

@[simp] theorem ringList_zero : ringList cap buf start 0 = [] := rfl

@[simp] theorem length_ringList : (ringList cap buf start n).length = n := by
  simp [ringList]

/-- A start position counts modulo the capacity. -/
@[simp] theorem ringList_mod : ringList cap buf (start % cap) n = ringList cap buf start n := by
  refine List.map_congr_left fun i _ => ?_
  rw [Nat.mod_add_mod]

/-- The first entry and the entries behind it. -/
theorem ringList_succ :
    ringList cap buf start (n + 1) = buf (start % cap) :: ringList cap buf (start + 1) n := by
  rw [ringList, List.range_succ_eq_map, List.map_cons, List.map_map, Nat.add_zero]
  refine congrArg _ (List.map_congr_left fun i _ => ?_)
  rw [Function.comp, Nat.succ_eq_add_one]
  congr 2
  omega

/-- The entries before the last and the last one. -/
theorem ringList_succ_last :
    ringList cap buf start (n + 1) = ringList cap buf start n ++ [buf ((start + n) % cap)] := by
  rw [ringList, List.range_succ, List.map_append]
  rfl

/-- Only the places in use are read. -/
theorem ringList_congr {buf' : Nat → α}
    (h : ∀ i, i < n → buf ((start + i) % cap) = buf' ((start + i) % cap)) :
    ringList cap buf start n = ringList cap buf' start n :=
  List.map_congr_left fun i hi => h i (List.mem_range.mp hi)

/-- The first entries. -/
theorem take_ringList {m : Nat} (h : m ≤ n) :
    (ringList cap buf start n).take m = ringList cap buf start m := by
  rw [ringList, ← List.map_take, List.take_range, Nat.min_eq_left h]
  rfl

/-- The last entries. -/
theorem lastOf_ringList {m : Nat} (h : m ≤ n) :
    (ringList cap buf start n).drop (n - m) = ringList cap buf (start + (n - m)) m := by
  refine List.ext_getElem (by simp; omega) fun i hi _ => ?_
  simp only [ringList, List.getElem_drop, List.getElem_map, List.getElem_range, Nat.add_assoc]

/-- Two positions less than a lap apart are different places. -/
theorem add_mod_ne (start : Nat) {i j : Nat} (hij : i < j) (hj : j < cap) :
    (start + i) % cap ≠ (start + j) % cap := by
  intro heq
  have hsub : i % cap = j % cap := Nat.ModEq.add_left_cancel' start heq
  rw [Nat.mod_eq_of_lt (by omega), Nat.mod_eq_of_lt hj] at hsub
  omega

/-- Storing behind the last entry of a buffer with room appends. -/
theorem ringList_push (x : α) (hroom : n < cap) :
    ringList cap (Function.update buf ((start + n) % cap) x) start (n + 1) =
      ringList cap buf start n ++ [x] := by
  rw [ringList_succ_last, Function.update_self]
  refine congrArg (· ++ [x]) (ringList_congr fun i hi => ?_)
  exact Function.update_of_ne (add_mod_ne start hi hroom) _ _

/-- Storing over an entry replaces it. -/
theorem ringList_update (x : α) {i : Nat} (hi : i < n) (hn : n ≤ cap) :
    ringList cap (Function.update buf ((start + i) % cap) x) start n =
      (ringList cap buf start n).set i x := by
  refine List.ext_getElem (by rw [List.length_set, length_ringList, length_ringList]) ?_
  intro j hj _
  rw [length_ringList] at hj
  simp only [List.getElem_set, ringList, List.getElem_map, List.getElem_range]
  by_cases hij : i = j
  · subst hij
    rw [if_pos rfl, Function.update_self]
  · have hplace : (start + j) % cap ≠ (start + i) % cap := by
      rcases Nat.lt_or_gt_of_ne hij with hlt | hgt
      · exact (add_mod_ne start hlt (by omega)).symm
      · exact add_mod_ne start hgt (by omega)
    rw [if_neg hij, Function.update_of_ne hplace]

/-- Storing over the first entry of a full buffer drops it and appends. -/
theorem ringList_overwrite (x : α) (hcap : 0 < cap) :
    ringList cap (Function.update buf (start % cap) x) (start + 1) cap =
      (ringList cap buf start cap).tail ++ [x] := by
  obtain ⟨m, rfl⟩ : ∃ m, cap = m + 1 := ⟨cap - 1, by omega⟩
  have hplace : start % (m + 1) = (start + 1 + m) % (m + 1) := by
    rw [show start + 1 + m = start + (m + 1) by omega, Nat.add_mod_right]
  have hsucc : ringList (m + 1) buf start (m + 1) =
      buf (start % (m + 1)) :: ringList (m + 1) buf (start + 1) m := ringList_succ
  rw [hplace, ringList_push x (Nat.lt_succ_self m), hsucc, List.tail_cons]

/-! ## Buffers that overwrite their oldest entry -/

/-- The last `n` entries of a list. -/
def lastOf (n : Nat) (l : List α) : List α := l.drop (l.length - n)

theorem lastOf_of_length_le {l : List α} (h : l.length ≤ n) : lastOf n l = l := by
  rw [lastOf, Nat.sub_eq_zero_of_le h, List.drop_zero]

/-- The last of the last entries. -/
theorem lastOf_lastOf {m : Nat} (l : List α) : lastOf m (lastOf n l) = lastOf (min m n) l := by
  rw [lastOf, lastOf, lastOf, List.drop_drop, List.length_drop]
  congr 1
  omega

theorem lastOf_map {β : Type} (f : α → β) (l : List α) :
    lastOf n (l.map f) = (lastOf n l).map f := by
  rw [lastOf, lastOf, List.length_map, List.map_drop]

/-- Appending to the last entries and to all entries leaves the same last ones. -/
theorem lastOf_append_lastOf (l l' : List α) :
    lastOf n (lastOf n l ++ l') = lastOf n (l ++ l') := by
  simp only [lastOf, List.drop_append, List.drop_drop, List.length_append, List.length_drop]
  congr 2 <;> omega

/-- The `count` entries before place `head`, oldest first. -/
def ringBehind (cap : Nat) (buf : Nat → α) (head count : Nat) : List α :=
  ringList cap buf (head + (cap - count)) count

@[simp] theorem length_ringBehind {head count : Nat} :
    (ringBehind cap buf head count).length = count := length_ringList

/-- Storing at `head` adds an entry; in a full buffer the oldest one gives way. -/
theorem ringBehind_record {head count : Nat} (x : α) (hhead : head < cap) (hcount : count ≤ cap) :
    ringBehind cap (Function.update buf head x) ((head + 1) % cap)
        (if count < cap then count + 1 else count) =
      lastOf cap (ringBehind cap buf head count ++ [x]) := by
  rw [ringBehind, ← ringList_mod, Nat.mod_add_mod, ringList_mod]
  rcases Nat.lt_or_eq_of_le hcount with hlt | rfl
  · have hstart : head + 1 + (cap - (count + 1)) = head + (cap - count) := by omega
    have hplace : head = (head + (cap - count) + count) % cap := by
      rw [Nat.add_assoc, Nat.sub_add_cancel hcount, Nat.add_mod_right, Nat.mod_eq_of_lt hhead]
    have hlen : (ringBehind cap buf head count ++ [x]).length ≤ cap := by
      simpa using Nat.succ_le_of_lt hlt
    rw [if_pos hlt, hstart, lastOf_of_length_le hlen, ringBehind, ← ringList_push x hlt, ← hplace]
  · have hplace : head = head % count := (Nat.mod_eq_of_lt hhead).symm
    have hover : ringList count (Function.update buf (head % count) x) (head + 1) count =
        (ringList count buf head count).tail ++ [x] := ringList_overwrite x (by omega)
    rw [← hplace] at hover
    rw [if_neg (Nat.lt_irrefl _), Nat.sub_self, Nat.add_zero, hover, lastOf, ringBehind,
      Nat.sub_self, Nat.add_zero, List.length_append, length_ringList, List.length_singleton,
      Nat.add_sub_cancel_left, List.drop_one]
    obtain ⟨m, rfl⟩ : ∃ m, count = m + 1 := ⟨count - 1, by omega⟩
    rw [ringList_succ, List.cons_append, List.tail_cons, List.tail_cons]

end

end InduRtdb.Lib
