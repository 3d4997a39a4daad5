/-
  Core/Regions.lean --- where the regions of a created segment lie.

  Source: `irt_layout_*` and `irt_shm_total_size` of `src/core/irt_shm.h`,
  `irt_shm_init` of `src/core/irt_shm.c`.

  Every offset is exact or it is truncated; which of the two is decided by the last and
  largest one.
-/
import InduRtdb.Core.Shm
import Mathlib.Data.Set.BooleanAlgebra
import Mathlib.Order.CompletePartialOrder
import Mathlib.Order.Interval.Set.Basic

set_option autoImplicit false

namespace InduRtdb.Core

/-! ## Regions -/

/-- A run of bytes of the segment. -/
structure Region where
  start : Nat
  size : Nat
  deriving DecidableEq, Repr

namespace Region

/-- The first byte behind the region. -/
def stop (r : Region) : Nat := r.start + r.size

/-- The offsets of its bytes. -/
def bytes (r : Region) : Set Nat := Set.Ico r.start r.stop

/-- The region ends before the other one starts. -/
def Before (r r' : Region) : Prop := r.stop ≤ r'.start

instance (r r' : Region) : Decidable (r.Before r') := inferInstanceAs (Decidable (_ ≤ _))

theorem Before.disjoint {r r' : Region} (h : r.Before r') : Disjoint r.bytes r'.bytes := by
  rw [Set.disjoint_left]
  intro o ho ho'
  exact absurd (Nat.lt_of_lt_of_le ho.2 h) (Nat.not_lt.mpr ho'.1)

end Region

/-- The four regions, where the stored header puts them. -/
def regions (hdr : IrtHeader) (maxPoints maxSubscribers : Nat) : List Region :=
  [⟨hdr.offPoints, maxPoints * sizeofPoint⟩,
    ⟨hdr.offIndex, irtLayoutBuckets maxPoints * irtIndexSlotSize⟩,
    ⟨hdr.offMeta, maxPoints * sizeofMeta⟩,
    ⟨hdr.offSubs, maxSubscribers * sizeofSubscriberEntry⟩]

/-- What a layout is to be: nothing has wrapped, nothing overlaps, and the bucket count
leaves half of the index empty. -/
structure LayoutSound (maxPoints maxSubscribers pid : Nat) : Prop where
  offPoints : (irtShmInitHeader maxPoints maxSubscribers pid).offPoints = sizeofHeader
  offIndex : (irtShmInitHeader maxPoints maxSubscribers pid).offIndex =
    sizeofHeader + maxPoints * sizeofPoint
  offMeta : (irtShmInitHeader maxPoints maxSubscribers pid).offMeta =
    sizeofHeader + maxPoints * sizeofPoint + irtLayoutBuckets maxPoints * irtIndexSlotSize
  offSubs : (irtShmInitHeader maxPoints maxSubscribers pid).offSubs =
    sizeofHeader + maxPoints * sizeofPoint + irtLayoutBuckets maxPoints * irtIndexSlotSize
      + maxPoints * sizeofMeta
  apart : (regions (irtShmInitHeader maxPoints maxSubscribers pid) maxPoints
    maxSubscribers).Pairwise Region.Before
  inside : ∀ r ∈ regions (irtShmInitHeader maxPoints maxSubscribers pid) maxPoints
    maxSubscribers, sizeofHeader ≤ r.start ∧ r.stop ≤ irtShmTotalSize maxPoints maxSubscribers
  metaAligned : (irtShmInitHeader maxPoints maxSubscribers pid).offMeta % 32 = 0
  subsAligned : (irtShmInitHeader maxPoints maxSubscribers pid).offSubs % 16 = 0
  buckets_pow : ∃ k, irtLayoutBuckets maxPoints = 2 ^ k
  buckets_le : 2 * maxPoints ≤ irtLayoutBuckets maxPoints

/-- The regions of a sound layout share no byte. -/
theorem LayoutSound.disjoint {N M pid : Nat} (h : LayoutSound N M pid) :
    (regions (irtShmInitHeader N M pid) N M).Pairwise fun r r' => Disjoint r.bytes r'.bytes :=
  h.apart.imp Region.Before.disjoint

/-! ## Which layouts are sound -/

/-- The size of a segment is far from what a `size_t` cannot hold. -/
theorem irtShmTotalSize_lt {N M : Nat} (hN : N < 2 ^ 32) (hM : M < 2 ^ 32) :
    irtShmTotalSize N M < 2 ^ 64 := by
  have hbuckets : irtLayoutBuckets N ≤ 2 ^ 31 := by
    obtain ⟨j, -, hj, hpow⟩ := irtLayoutBuckets_pow N
    rw [hpow]
    exact Nat.pow_le_pow_right (by decide) hj
  simp only [irtShmTotalSize, irtLayoutIndexSize, irtLayoutMetaSize, sizeofHeader, sizeofPoint,
    irtIndexSlotSize, sizeofMeta, sizeofSubscriberEntry]
  omega

/-- The largest capacity whose offsets are all exact. -/
abbrev maxExactPoints : Nat := 23488101

theorem layoutFits_iff_le {N : Nat} : LayoutFits N ↔ N ≤ maxExactPoints := by
  rw [layoutFits_iff]
  constructor
  · intro hfits
    by_contra hlarge
    have hbuckets : irtLayoutBuckets 23488102 ≤ irtLayoutBuckets N :=
      irtLayoutBuckets_mono (Nat.lt_of_not_le hlarge)
    have hvalue : irtLayoutBuckets 23488102 = 2 ^ 26 := by decide +kernel
    simp only [maxExactPoints] at hlarge
    omega
  · intro hle
    have hbuckets : irtLayoutBuckets N ≤ irtLayoutBuckets 23488101 := irtLayoutBuckets_mono hle
    have hvalue : irtLayoutBuckets 23488101 = 2 ^ 26 := by decide +kernel
    simp only [maxExactPoints] at hle
    omega

section Fits

variable {N : Nat} (h : LayoutFits N) (M pid : Nat)
include h

theorem LayoutFits.apart :
    (regions (irtShmInitHeader N M pid) N M).Pairwise Region.Before := by
  have hpoints : (irtShmInitHeader N M pid).offPoints = 128 := rfl
  have hindex : (irtShmInitHeader N M pid).offIndex = 128 + 128 * N := h.offIndex
  have hmeta : (irtShmInitHeader N M pid).offMeta = 128 + 128 * N + 8 * irtLayoutBuckets N :=
    h.offMeta
  have hsubs : (irtShmInitHeader N M pid).offSubs = 128 + 160 * N + 8 * irtLayoutBuckets N :=
    h.offSubs
  simp only [regions, hpoints, hindex, hmeta, hsubs, List.pairwise_cons, List.forall_mem_cons,
    Region.Before, Region.stop, sizeofPoint, irtIndexSlotSize, sizeofMeta]
  refine ⟨⟨by omega, by omega, by omega, by simp⟩, ⟨by omega, by omega, by simp⟩,
    ⟨by omega, by simp⟩, by simp, List.Pairwise.nil⟩

theorem LayoutFits.inside : ∀ r ∈ regions (irtShmInitHeader N M pid) N M,
    sizeofHeader ≤ r.start ∧ r.stop ≤ irtShmTotalSize N M := by
  have hpoints : (irtShmInitHeader N M pid).offPoints = 128 := rfl
  have hindex : (irtShmInitHeader N M pid).offIndex = 128 + 128 * N := h.offIndex
  have hmeta : (irtShmInitHeader N M pid).offMeta = 128 + 128 * N + 8 * irtLayoutBuckets N :=
    h.offMeta
  have hsubs : (irtShmInitHeader N M pid).offSubs = 128 + 160 * N + 8 * irtLayoutBuckets N :=
    h.offSubs
  simp only [regions, hpoints, hindex, hmeta, hsubs, List.forall_mem_cons, Region.stop,
    irtShmTotalSize, irtLayoutIndexSize, irtLayoutMetaSize, sizeofHeader, sizeofPoint,
    irtIndexSlotSize, sizeofMeta, sizeofSubscriberEntry]
  refine ⟨⟨by omega, by omega⟩, ⟨by omega, by omega⟩, ⟨by omega, by omega⟩,
    ⟨by omega, by omega⟩, by simp⟩

/-- The index ends on a multiple of 64, because there are at least eight buckets. -/
theorem LayoutFits.aligned :
    (irtShmInitHeader N M pid).offMeta % 32 = 0 ∧ (irtShmInitHeader N M pid).offSubs % 16 = 0 := by
  have hmeta : (irtShmInitHeader N M pid).offMeta = 128 + 128 * N + 8 * irtLayoutBuckets N :=
    h.offMeta
  have hsubs : (irtShmInitHeader N M pid).offSubs = 128 + 160 * N + 8 * irtLayoutBuckets N :=
    h.offSubs
  obtain ⟨j, hj, -, hpow⟩ := irtLayoutBuckets_pow N
  obtain ⟨k, rfl⟩ := Nat.exists_eq_add_of_le hj
  rw [pow_add] at hpow
  omega

end Fits

/-- **The layout neither wraps nor overlaps.**  The segment of a capacity is laid out as
it should be exactly when the capacity is at most `23488101`. -/
theorem layoutSound_iff (N M pid : Nat) : LayoutSound N M pid ↔ N ≤ maxExactPoints := by
  rw [← layoutFits_iff_le]
  constructor
  · intro hsound
    have hsubs : irtLayoutOffSubs N = 128 + N * 128 + irtLayoutBuckets N * 8 + N * 32 :=
      hsound.offSubs
    have hlt : irtLayoutOffSubs N < 2 ^ 32 := u32_lt _
    rw [layoutFits_iff]
    omega
  · intro hfits
    obtain ⟨hmetaAligned, hsubsAligned⟩ := hfits.aligned M pid
    obtain ⟨j, -, -, hpow⟩ := irtLayoutBuckets_pow N
    exact {
      offPoints := rfl
      offIndex := hfits.offIndex.trans (by rw [Nat.mul_comm])
      offMeta := hfits.offMeta.trans (by
        simp only [sizeofHeader, sizeofPoint, irtIndexSlotSize]
        omega)
      offSubs := hfits.offSubs.trans (by
        simp only [sizeofHeader, sizeofPoint, irtIndexSlotSize, sizeofMeta]
        omega)
      apart := hfits.apart M pid
      inside := hfits.inside M pid
      metaAligned := hmetaAligned
      subsAligned := hsubsAligned
      buckets_pow := ⟨j, hpow⟩
      buckets_le := two_mul_le_irtLayoutBuckets (by have := hfits.lt; omega) }

/-- With `2 ^ 25` points the index is put over the points. -/
theorem not_layoutSound_wrapped :
    ¬ ∀ N M pid, 1 ≤ N → N < 2 ^ 32 → M < 2 ^ 32 → LayoutSound N M pid := by
  intro hall
  have hindex : irtLayoutOffIndex (2 ^ 25) = 128 + 2 ^ 25 * 128 :=
    (hall (2 ^ 25) 1 1 (by decide) (by decide) (by decide)).offIndex
  revert hindex
  decide +kernel

end InduRtdb.Core
