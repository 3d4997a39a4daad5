/-
  Core/Layout.lean --- the region sizes and offsets of the shared segment.

  Source: `src/core/irt_shm.h` (`irt_layout_*`, `irt_shm_total_size`) and the
  record sizes asserted in `src/internal/irt_types.h`.

  The segment is one header followed by four regions: the point table, the
  name index, the metadata table and the subscriber heartbeats.  Sizes are
  computed as `size_t` and the offsets are stored as `uint32_t`, so every offset
  below is taken modulo `2 ^ 32` exactly where the source truncates it.
-/
import Mathlib.Algebra.Order.Ring.Nat

set_option autoImplicit false

namespace InduRtdb.Core

/-! ## Record sizes -/

/-- `sizeof(irt_header_t)`. -/
abbrev sizeofHeader : Nat := 128
/-- `sizeof(indurtdb_point_t)`. -/
abbrev sizeofPoint : Nat := 128
/-- `IRT_INDEX_SLOT_SIZE`, the size of `irt_index_slot_t`. -/
abbrev irtIndexSlotSize : Nat := 8
/-- `sizeof(indurtdb_meta_t)`. -/
abbrev sizeofMeta : Nat := 32
/-- `sizeof(irt_subscriber_entry_t)`. -/
abbrev sizeofSubscriberEntry : Nat := 16

/-- Truncation to `uint32_t`. -/
def u32 (n : Nat) : Nat := n % 2 ^ 32

theorem u32_of_lt {n : Nat} (h : n < 2 ^ 32) : u32 n = n := Nat.mod_eq_of_lt h

theorem u32_lt (n : Nat) : u32 n < 2 ^ 32 := Nat.mod_lt _ (by decide)

/-! ## The bucket count -/

/-- The doubling loop of `irt_layout_buckets`.  The first argument bounds the
number of turns; `bucketsLoop_exit` shows that `28` turns are all the loop can
take, because `cap` starts at `2 ^ 3` and the guard stops it at `2 ^ 31`. -/
def bucketsLoop (want : Nat) : Nat → Nat → Nat
  | 0, cap => cap
  | fuel + 1, cap =>
      if cap < want ∧ cap ≤ 2 ^ 30 then bucketsLoop want fuel (cap * 2) else cap

/-- `irt_layout_buckets`: `max_points * 2` rounded up to a power of two, at
least `8`. -/
def irtLayoutBuckets (maxPoints : Nat) : Nat := bucketsLoop (maxPoints * 2) 28 8

/-- The loop only ever holds a power of two between the start and `2 ^ 31`. -/
theorem bucketsLoop_pow {want : Nat} :
    ∀ (fuel k : Nat), k ≤ 31 →
      ∃ j, k ≤ j ∧ j ≤ 31 ∧ bucketsLoop want fuel (2 ^ k) = 2 ^ j := by
  intro fuel
  induction fuel with
  | zero => intro k hk; exact ⟨k, le_rfl, hk, rfl⟩
  | succ fuel ih =>
      intro k hk
      unfold bucketsLoop
      split
      · rename_i hguard
        have hlt : k < 31 := by
          by_contra hge
          have hk31 : k = 31 := by omega
          subst hk31
          exact absurd hguard.2 (by decide)
        obtain ⟨j, hkj, hj, heq⟩ := ih (k + 1) (by omega)
        refine ⟨j, by omega, hj, ?_⟩
        rw [← heq, pow_succ]
      · exact ⟨k, le_rfl, hk, rfl⟩

/-- With enough turns the loop stops on its own condition. -/
theorem bucketsLoop_exit {want : Nat} :
    ∀ (fuel k : Nat), k ≤ 31 → 31 ≤ fuel + k →
      want ≤ bucketsLoop want fuel (2 ^ k) ∨ 2 ^ 30 < bucketsLoop want fuel (2 ^ k) := by
  intro fuel
  induction fuel with
  | zero =>
      intro k hk hfuel
      have hk31 : k = 31 := by omega
      subst hk31
      exact Or.inr (show 2 ^ 30 < 2 ^ 31 by decide)
  | succ fuel ih =>
      intro k hk hfuel
      unfold bucketsLoop
      split
      · rename_i hguard
        have hlt : k < 31 := by
          by_contra hge
          have hk31 : k = 31 := by omega
          subst hk31
          exact absurd hguard.2 (by decide)
        have := ih (k + 1) (by omega) (by omega)
        rwa [pow_succ] at this
      · rename_i hguard
        rcases Nat.lt_or_ge (2 ^ k) want with hwant | hwant
        · exact Or.inr (by
            rw [not_and] at hguard
            exact Nat.lt_of_not_le (hguard hwant))
        · exact Or.inl hwant

/-- A larger request never yields fewer buckets. -/
theorem bucketsLoop_mono {want want' : Nat} (h : want ≤ want') :
    ∀ (fuel cap : Nat), bucketsLoop want fuel cap ≤ bucketsLoop want' fuel cap := by
  intro fuel
  induction fuel with
  | zero => intro cap; exact le_rfl
  | succ fuel ih =>
      intro cap
      unfold bucketsLoop
      split
      · rename_i hguard
        rw [if_pos ⟨Nat.lt_of_lt_of_le hguard.1 h, hguard.2⟩]
        exact ih (cap * 2)
      · split
        · have hgrow : ∀ (f c : Nat), c ≤ bucketsLoop want' f c := by
            intro f
            induction f with
            | zero => intro c; exact le_rfl
            | succ f ihf =>
                intro c
                unfold bucketsLoop
                split
                · exact le_trans (by omega) (ihf (c * 2))
                · exact le_rfl
          exact le_trans (by omega) (hgrow fuel (cap * 2))
        · exact le_rfl

theorem irtLayoutBuckets_pow (maxPoints : Nat) :
    ∃ j, 3 ≤ j ∧ j ≤ 31 ∧ irtLayoutBuckets maxPoints = 2 ^ j :=
  bucketsLoop_pow 28 3 (by decide)

/-- The load factor is at most one half as long as the loop is not stopped by
its `2 ^ 30` guard. -/
theorem two_mul_le_irtLayoutBuckets {maxPoints : Nat} (h : maxPoints ≤ 2 ^ 30) :
    2 * maxPoints ≤ irtLayoutBuckets maxPoints := by
  have hexit : maxPoints * 2 ≤ irtLayoutBuckets maxPoints ∨
      2 ^ 30 < irtLayoutBuckets maxPoints :=
    bucketsLoop_exit 28 3 (by decide) (by decide)
  obtain ⟨j, _, hj, hpow⟩ := irtLayoutBuckets_pow maxPoints
  rcases hexit with hexit | hexit
  · omega
  · have hj31 : j = 31 := by
      by_contra hne
      have : 2 ^ j ≤ 2 ^ 30 := Nat.pow_le_pow_right (by decide) (by omega)
      omega
    rw [hpow, hj31]
    omega

theorem irtLayoutBuckets_mono {n N : Nat} (h : n ≤ N) :
    irtLayoutBuckets n ≤ irtLayoutBuckets N :=
  bucketsLoop_mono (by omega) 28 8

theorem irtLayoutBuckets_pos (maxPoints : Nat) : 8 ≤ irtLayoutBuckets maxPoints := by
  obtain ⟨j, hj, _, hpow⟩ := irtLayoutBuckets_pow maxPoints
  rw [hpow]
  exact le_trans (show 8 ≤ 2 ^ 3 by decide) (Nat.pow_le_pow_right (by decide) hj)

/-! ## Sizes and offsets -/

/-- `irt_layout_index_size`. -/
def irtLayoutIndexSize (maxPoints : Nat) : Nat :=
  irtLayoutBuckets maxPoints * irtIndexSlotSize

/-- `irt_layout_meta_size`. -/
def irtLayoutMetaSize (maxPoints : Nat) : Nat := maxPoints * sizeofMeta

/-- `irt_layout_off_points`. -/
def irtLayoutOffPoints : Nat := sizeofHeader

/-- `irt_layout_off_index`. -/
def irtLayoutOffIndex (maxPoints : Nat) : Nat :=
  u32 (irtLayoutOffPoints + u32 (maxPoints * sizeofPoint))

/-- `irt_layout_off_meta`. -/
def irtLayoutOffMeta (maxPoints : Nat) : Nat :=
  u32 (irtLayoutOffIndex maxPoints + u32 (irtLayoutIndexSize maxPoints))

/-- `irt_layout_off_subs`. -/
def irtLayoutOffSubs (maxPoints : Nat) : Nat :=
  u32 (irtLayoutOffMeta maxPoints + u32 (irtLayoutMetaSize maxPoints))

/-- `irt_shm_total_size`: header, points, index, metadata and heartbeats. -/
def irtShmTotalSize (maxPoints maxSubscribers : Nat) : Nat :=
  sizeofHeader + maxPoints * sizeofPoint + irtLayoutIndexSize maxPoints
    + irtLayoutMetaSize maxPoints + maxSubscribers * sizeofSubscriberEntry

/-- No layout offset of a segment with `maxPoints` points reaches `2 ^ 32`.  The
last of the four offsets is the largest one. -/
def LayoutFits (maxPoints : Nat) : Prop :=
  sizeofHeader + maxPoints * sizeofPoint + irtLayoutIndexSize maxPoints
    + irtLayoutMetaSize maxPoints < 2 ^ 32

instance (maxPoints : Nat) : Decidable (LayoutFits maxPoints) :=
  inferInstanceAs (Decidable (_ < _))

theorem layoutFits_iff {N : Nat} :
    LayoutFits N ↔ 128 + 160 * N + 8 * irtLayoutBuckets N < 2 ^ 32 := by
  simp only [LayoutFits, irtLayoutIndexSize, irtLayoutMetaSize, sizeofHeader, sizeofPoint,
    irtIndexSlotSize, sizeofMeta]
  omega

section Fits

variable {N : Nat} (h : LayoutFits N)
include h

theorem LayoutFits.offIndex : irtLayoutOffIndex N = 128 + 128 * N := by
  have hfit := layoutFits_iff.mp h
  simp only [irtLayoutOffIndex, irtLayoutOffPoints, sizeofHeader, sizeofPoint, u32]
  omega

theorem LayoutFits.offMeta :
    irtLayoutOffMeta N = 128 + 128 * N + 8 * irtLayoutBuckets N := by
  have hfit := layoutFits_iff.mp h
  simp only [irtLayoutOffMeta, h.offIndex, irtLayoutIndexSize, irtIndexSlotSize, u32]
  omega

theorem LayoutFits.offSubs :
    irtLayoutOffSubs N = 128 + 160 * N + 8 * irtLayoutBuckets N := by
  have hfit := layoutFits_iff.mp h
  simp only [irtLayoutOffSubs, h.offMeta, irtLayoutMetaSize, sizeofMeta, u32]
  omega

theorem LayoutFits.lt : N < 2 ^ 25 := by
  have hfit := layoutFits_iff.mp h
  omega

end Fits

end InduRtdb.Core
