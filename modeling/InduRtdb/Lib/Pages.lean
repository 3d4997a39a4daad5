/-
  Lib/Pages.lean --- reading an increasing list of numbers in pages.

  A page holds the first entries from a number on.  A reader that goes on by as many
  numbers as it has received entries, and stops at a page that is not full, takes the
  numbers for positions.  The two agree as long as the list has no gap.
-/
import Mathlib.Data.List.Nodup
import Mathlib.Data.List.Sort
import Mathlib.Data.List.TakeDrop

set_option autoImplicit false

namespace InduRtdb.Lib

/-! ## Increasing lists -/

section Increasing

variable {l : List Nat} (hl : l.Pairwise (· < ·))
include hl

/-- Increasing numbers below their count have no gap. -/
theorem eq_range_of_lt (hlt : ∀ x ∈ l, x < l.length) : l = List.range l.length := by
  have hsub : l ⊆ List.range l.length := fun x hx => List.mem_range.mpr (hlt x hx)
  have hnodup : l.Nodup := hl.imp fun h => Nat.ne_of_lt h
  have hperm : l.Perm (List.range l.length) :=
    (List.subperm_of_subset hnodup hsub).perm_of_length_le (by rw [List.length_range])
  exact hperm.eq_of_pairwise (fun _ _ _ _ h h' => absurd h (Nat.lt_asymm h')) hl
    List.pairwise_lt_range

/-- What comes later is larger. -/
theorem lt_of_mem_take_drop {m x y : Nat} (hx : x ∈ l.take m) (hy : y ∈ l.drop m) : x < y := by
  rw [← List.take_append_drop m l, List.pairwise_append] at hl
  exact hl.2.2 x hx y hy

/-- Behind a beginning without a gap, the numbers from its length on are the rest. -/
theorem filter_le_eq_drop {m : Nat} (hdense : l.take m = List.range m) :
    l.filter (fun x => decide (m ≤ x)) = l.drop m := by
  have hlow : (l.take m).filter (fun x => decide (m ≤ x)) = [] := by
    rw [hdense, List.filter_eq_nil_iff]
    intro x hx
    simpa using List.mem_range.mp hx
  have hhigh : (l.drop m).filter (fun x => decide (m ≤ x)) = l.drop m := by
    rw [List.filter_eq_self]
    intro y hy
    rcases Nat.eq_zero_or_pos m with rfl | hpos
    · simp
    · have hlast : m - 1 ∈ l.take m := by
        rw [hdense]
        exact List.mem_range.mpr (by omega)
      have hlt := lt_of_mem_take_drop hl hlast hy
      simp only [decide_eq_true_eq]
      omega
  calc l.filter (fun x => decide (m ≤ x))
      = (l.take m ++ l.drop m).filter (fun x => decide (m ≤ x)) := by rw [List.take_append_drop]
    _ = l.drop m := by rw [List.filter_append, hlow, hhigh, List.nil_append]

/-- A beginning with a gap reaches a number that is no position of it. -/
theorem exists_le_of_take_ne {m : Nat} (hm : m ≤ l.length) (hgap : l.take m ≠ List.range m) :
    ∃ x ∈ l.take m, m ≤ x := by
  by_contra hnone
  have hlen : (l.take m).length = m := by rw [List.length_take, Nat.min_eq_left hm]
  have hdense := eq_range_of_lt (List.Pairwise.take hl) fun x hx => by
    rw [hlen]
    by_contra hge
    exact hnone ⟨x, hx, Nat.not_lt.mp hge⟩
  rw [hlen] at hdense
  exact hgap hdense

end Increasing

/-! ## Pages -/

/-- The page from `offset` on: at most `cap` entries. -/
def page (l : List Nat) (cap offset : Nat) : List Nat :=
  (l.filter fun x => decide (offset ≤ x)).take cap

theorem length_page_le (l : List Nat) (cap offset : Nat) : (page l cap offset).length ≤ cap :=
  List.length_take_le _ _

/-- A page of numbers below a bound fits between its offset and the bound. -/
theorem length_page_add_le {l : List Nat} (hl : l.Pairwise (· < ·)) {cap offset bound : Nat}
    (hbound : ∀ x ∈ l, x < bound) (hoffset : offset ≤ bound) :
    offset + (page l cap offset).length ≤ bound := by
  have hsub : page l cap offset ⊆ List.range' offset (bound - offset) := by
    intro x hx
    obtain ⟨hin, hle⟩ := List.mem_filter.mp (List.mem_of_mem_take hx)
    have hlt := hbound x hin
    have hle : offset ≤ x := of_decide_eq_true hle
    rw [List.mem_range'_1]
    omega
  have hnodup : (page l cap offset).Nodup :=
    ((hl.filter _).take).imp fun h => Nat.ne_of_lt h
  have hlen := (List.subperm_of_subset hnodup hsub).length_le
  rw [List.length_range'] at hlen
  omega

/-- The reader: pages are asked for until one has fewer than `max` entries; `none` when
`fuel` pages were not enough. -/
def readPages (l : List Nat) (cap max : Nat) : Nat → Nat → Option (List Nat)
  | 0, _ => none
  | fuel + 1, offset =>
      if (page l cap offset).length < max then some (page l cap offset)
      else (readPages l cap max fuel (offset + (page l cap offset).length)).map
        (page l cap offset ++ ·)

section Reader

variable {l : List Nat} {cap max : Nat}

/-- A full page lies below a bound of the numbers, so there are not too many of them. -/
theorem readPages_ends {bound : Nat} (hbound : ∀ x ∈ l, x < bound) (hmax : 0 < max) :
    ∀ fuel offset, bound < fuel + offset →
      (readPages l cap max fuel offset).isSome ∨ fuel = 0 := by
  intro fuel
  induction fuel with
  | zero => exact fun _ _ => .inr rfl
  | succ fuel ih =>
      intro offset hfuel
      left
      rw [readPages]
      split
      next => rfl
      next hfull =>
        have hpos : 0 < (page l cap offset).length := by omega
        obtain ⟨x, hx⟩ := List.exists_mem_of_length_pos hpos
        obtain ⟨hin, hle⟩ := List.mem_filter.mp (List.mem_of_mem_take hx)
        have hlt := hbound x hin
        have hle : offset ≤ x := of_decide_eq_true hle
        rw [Option.isSome_map]
        rcases ih (offset + (page l cap offset).length) (by omega) with hsome | hzero
        · exact hsome
        · omega

/-- With pages that may be shorter than asked for, the reader stops at the first one. -/
theorem readPages_of_lt (hcap : cap < max) (fuel offset : Nat) :
    readPages l cap max (fuel + 1) offset = some (page l cap offset) := by
  have hle := length_page_le l cap offset
  rw [readPages, if_pos (by omega)]

variable (hl : l.Pairwise (· < ·))
include hl

/-- Where the whole pages have no gap, the reader gets what it has not read yet. -/
theorem readPages_of_dense (hmax : 0 < max)
    (hdense : l.take (l.length / max * max) = List.range (l.length / max * max)) :
    ∀ fuel i rest, i * max ≤ l.length → readPages l max max fuel (i * max) = some rest →
      rest = l.drop (i * max) := by
  intro fuel
  induction fuel with
  | zero => intro i rest _ hread; cases hread
  | succ fuel ih =>
      intro i rest hi hread
      have hle : i * max ≤ l.length / max * max :=
        Nat.mul_le_mul_right _ ((Nat.le_div_iff_mul_le hmax).mpr hi)
      have htake : l.take (i * max) = List.range (i * max) := by
        rw [← Nat.min_eq_left hle, ← List.take_take, hdense, List.take_range]
      have hpage : page l max (i * max) = (l.drop (i * max)).take max := by
        rw [page, filter_le_eq_drop hl htake]
      rw [readPages, hpage] at hread
      split at hread
      next hshort =>
        rw [List.length_take] at hshort
        rw [← Option.some.inj hread, List.take_of_length_le (by omega)]
      next hfull =>
        have hlen : ((l.drop (i * max)).take max).length = max := by
          have := List.length_take_le max (l.drop (i * max))
          omega
        rw [hlen, ← Nat.succ_mul, Option.map_eq_some_iff] at hread
        obtain ⟨more, hmore, hrest⟩ := hread
        rw [List.length_take, List.length_drop] at hlen
        have hnext : (i + 1) * max ≤ l.length := by
          rw [Nat.succ_mul]
          omega
        rw [← hrest, ih (i + 1) more hnext hmore, Nat.succ_mul, ← List.drop_drop,
          List.take_append_drop]

/-- A reader that gets what it has not read yet has met no gap in a whole page. -/
theorem dense_of_readPages (hmax : 0 < max) :
    ∀ fuel i, i * max ≤ l.length → l.take (i * max) = List.range (i * max) →
      readPages l max max fuel (i * max) = some (l.drop (i * max)) →
      l.take (l.length / max * max) = List.range (l.length / max * max) := by
  intro fuel
  induction fuel with
  | zero => intro i _ _ hread; cases hread
  | succ fuel ih =>
      intro i hi hdense hread
      have hpage : page l max (i * max) = (l.drop (i * max)).take max := by
        rw [page, filter_le_eq_drop hl hdense]
      rw [readPages, hpage] at hread
      split at hread
      next hshort =>
        have hlast : l.length / max = i := by
          rw [List.length_take, List.length_drop] at hshort
          refine Nat.div_eq_of_lt_le hi ?_
          rw [Nat.succ_mul]
          omega
        rw [hlast]
        exact hdense
      next hfull =>
        have hlen : ((l.drop (i * max)).take max).length = max := by
          have := List.length_take_le max (l.drop (i * max))
          omega
        rw [hlen, ← Nat.succ_mul, Option.map_eq_some_iff] at hread
        obtain ⟨more, hmore, hall⟩ := hread
        rw [List.length_take, List.length_drop] at hlen
        have hnext : (i + 1) * max ≤ l.length := by
          rw [Nat.succ_mul]
          omega
        have hmore' : more = l.drop ((i + 1) * max) := by
          rw [Nat.succ_mul, ← List.drop_drop]
          have hwhole : (l.drop (i * max)).take max ++ more =
              (l.drop (i * max)).take max ++ (l.drop (i * max)).drop max := by
            rw [hall, List.take_append_drop]
          exact List.append_cancel_left hwhole
        subst hmore'
        refine ih (i + 1) hnext ?_ hmore
        -- a gap would bring a number of these pages again, at the head of the next one
        by_contra hgap
        obtain ⟨x, hx, hge⟩ := exists_le_of_take_ne hl hnext hgap
        have hleft : x ∈ l.filter fun y => decide ((i + 1) * max ≤ y) :=
          List.mem_filter.mpr ⟨List.mem_of_mem_take hx, decide_eq_true hge⟩
        obtain ⟨first, others, hfirst⟩ := List.exists_cons_of_ne_nil (List.ne_nil_of_mem hleft)
        have hle : first ≤ x := by
          have hsorted : (first :: others).Pairwise (· < ·) := hfirst ▸ hl.filter _
          rw [hfirst] at hleft
          rcases List.mem_cons.mp hleft with rfl | hin
          · exact Nat.le_refl _
          · exact Nat.le_of_lt ((List.pairwise_cons.mp hsorted).1 x hin)
        have hagain : first ∈ l.drop ((i + 1) * max) := by
          obtain ⟨n, rfl⟩ : ∃ n, max = n + 1 := ⟨max - 1, by omega⟩
          have hhead : first ∈ page l (n + 1) ((i + 1) * (n + 1)) := by
            rw [page, hfirst, List.take_succ_cons]
            exact List.mem_cons_self
          cases fuel with
          | zero => cases hmore
          | succ fuel =>
              rw [readPages] at hmore
              split at hmore
              · rw [← Option.some.inj hmore]
                exact hhead
              · rw [Option.map_eq_some_iff] at hmore
                obtain ⟨behind, -, hjoined⟩ := hmore
                rw [← hjoined]
                exact List.mem_append_left _ hhead
        exact absurd (lt_of_mem_take_drop hl hx hagain) (Nat.not_lt.mpr hle)

/-- **Reading in pages.**  A reader that takes its count of entries for the next number
reads the list exactly when the numbers of its whole pages have no gap. -/
theorem readPages_eq_iff (hmax : 0 < max) {bound fuel : Nat} (hbound : ∀ x ∈ l, x < bound)
    (hfuel : bound < fuel) :
    readPages l max max fuel 0 = some l ↔
      l.take (l.length / max * max) = List.range (l.length / max * max) := by
  have hzero : 0 * max = 0 := Nat.zero_mul max
  constructor
  · intro hread
    refine dense_of_readPages hl hmax fuel 0 (by omega) (by simp) ?_
    rw [hzero, hread, List.drop_zero]
  · intro hdense
    rcases readPages_ends hbound hmax fuel 0 hfuel with hsome | rfl
    · obtain ⟨rest, hrest⟩ := Option.isSome_iff_exists.mp hsome
      have heq := readPages_of_dense hl hmax hdense fuel 0 rest (by omega) (by rwa [hzero])
      rw [hrest, heq, hzero, List.drop_zero]
    · omega

end Reader

end InduRtdb.Lib
