/-
  Core/IndexInv.lean --- the invariants of the name index.

  Source: `src/core/irt_index.c`.

  Two invariants are kept apart.  `IndexCovers` says that every registered point
  is found under its key; it tolerates entries nobody needs any more.
  `IndexTight` says that there are no others: every entry is the current one of
  a registered point, and no point has two.  The second is what keeps the table
  from filling up.
-/
import InduRtdb.Core.IndexSpec
import Mathlib.Data.Finset.Card

set_option autoImplicit false

namespace InduRtdb.Core

/-- Every registered point, except the hidden ones, has an entry where a search
for its key finds it. -/
structure IndexCovers (n : Nat) (hidden : Nat → Prop) (seg : Segment) : Prop where
  offIndex : seg.hdr.offIndex ≠ 0
  offPoints : seg.hdr.offPoints ≠ 0
  names : NamesFit n seg.points
  below : EntriesBelow n seg.slots
  slotted : ∀ id, id < n → ¬ hidden id → (seg.points id).name ≠ CStr.empty →
    Slotted n seg.slots (seg.points id).keyHash id

/-- Every entry is the current one of a registered point, and no point has
two. -/
structure IndexTight (n : Nat) (seg : Segment) : Prop where
  current : ∀ i, i < irtLayoutBuckets n → (seg.slots i).Live →
    (seg.points (seg.slots i).pointId).name ≠ CStr.empty ∧
      (seg.slots i).hash = (seg.points (seg.slots i).pointId).keyHash
  distinct : ∀ i j, i < irtLayoutBuckets n → j < irtLayoutBuckets n → (seg.slots i).Live →
    (seg.slots j).Live → (seg.slots i).pointId = (seg.slots j).pointId → i = j

/-- A header change that keeps the offsets keeps the invariant. -/
theorem IndexCovers.of_tables {n : Nat} {hidden : Nat → Prop} {seg seg' : Segment}
    (h : IndexCovers n hidden seg) (hoffIndex : seg'.hdr.offIndex = seg.hdr.offIndex)
    (hoffPoints : seg'.hdr.offPoints = seg.hdr.offPoints) (hpoints : seg'.points = seg.points)
    (hslots : seg'.slots = seg.slots) : IndexCovers n hidden seg' where
  offIndex := by rw [hoffIndex]; exact h.offIndex
  offPoints := by rw [hoffPoints]; exact h.offPoints
  names := by rw [hpoints]; exact h.names
  below := by rw [hslots]; exact h.below
  slotted := by rw [hpoints, hslots]; exact h.slotted

theorem IndexCovers.mono {n : Nat} {hidden hidden' : Nat → Prop} {seg : Segment}
    (h : IndexCovers n hidden seg) (hsub : ∀ id, hidden id → hidden' id) :
    IndexCovers n hidden' seg :=
  { h with slotted := fun id hid hvis hname =>
      h.slotted id hid (fun hhid => hvis (hsub id hhid)) hname }

/-- A hidden point may be overwritten. -/
theorem IndexCovers.overwrite {n id : Nat} {hidden : Nat → Prop} {seg seg' : Segment}
    {p : IndurtdbPoint} (h : IndexCovers n hidden seg) (hid : hidden id)
    (hp : p.name.bytes.length ≤ nameMax) (hpoints : seg'.points = Function.update seg.points id p)
    (hslots : seg'.slots = seg.slots) (hoffIndex : seg'.hdr.offIndex = seg.hdr.offIndex)
    (hoffPoints : seg'.hdr.offPoints = seg.hdr.offPoints) : IndexCovers n hidden seg' where
  offIndex := by rw [hoffIndex]; exact h.offIndex
  offPoints := by rw [hoffPoints]; exact h.offPoints
  names := by rw [hpoints]; exact h.names.update hp
  below := by rw [hslots]; exact h.below
  slotted := by
    intro k hk hvis hname
    have hne : k ≠ id := by
      rintro rfl
      exact hvis hid
    rw [hpoints, Function.update_of_ne hne] at hname ⊢
    rw [hslots]
    exact h.slotted k hk hvis hname

theorem tombstone_ne_empty : irtIndexTombstone ≠ irtIndexEmpty := by decide

section Changes

variable {n : Nat} {hidden : Nat → Prop} {seg seg' : Segment} {id i j : Nat}
  {p : IndurtdbPoint} {hash : UInt32}

/-! ## A point gets an entry -/

/-- Point `id` becomes `p` and bucket `i` its entry.  The bucket may be taken
over from `id` itself or from a hidden point. -/
theorem IndexCovers.assign (h : IndexCovers n hidden seg) (hn : n < irtIndexTombstone)
    (hid : id < n) (hp : p.name.bytes.length ≤ nameMax)
    (hreach : SlotReach n seg.slots p.keyHash i)
    (howner : (seg.slots i).Live → (seg.slots i).pointId = id ∨ hidden (seg.slots i).pointId)
    (hoffIndex : seg'.hdr.offIndex = seg.hdr.offIndex)
    (hoffPoints : seg'.hdr.offPoints = seg.hdr.offPoints)
    (hpoints : seg'.points = Function.update seg.points id p)
    (hslots : seg'.slots = Function.update seg.slots i ⟨p.keyHash, id⟩) :
    IndexCovers n (fun k => hidden k ∧ k ≠ id) seg' where
  offIndex := by rw [hoffIndex]; exact h.offIndex
  offPoints := by rw [hoffPoints]; exact h.offPoints
  names := by
    rw [hpoints]
    exact h.names.update hp
  below := by
    rw [hslots]
    exact h.below.update fun _ => hid
  slotted := by
    intro k hk hvis hname
    rw [hpoints] at hname ⊢
    rw [hslots]
    rcases eq_or_ne k id with rfl | hne
    · rw [Function.update_self]
      exact slotted_update_self hreach hn hid
    · rw [Function.update_of_ne hne] at hname ⊢
      have hvisible : ¬ hidden k := fun hhid => hvis ⟨hhid, hne⟩
      refine (h.slotted k hk hvisible hname).update_of_ne ?_ ?_
      · exact (IrtIndexSlot.live_mk p.keyHash hn hid).1
      · intro heq
        rcases howner (IrtIndexSlot.live_of_lt hn (by rw [heq]; exact hk)) with hown | hown
        · exact hne (by rw [← hown, heq])
        · rw [heq] at hown
          exact hvisible hown

theorem IndexTight.assign (h : IndexTight n seg)
    (hp : p.name ≠ CStr.empty) (hfresh : (seg.points id).name = CStr.empty)
    (hpoints : seg'.points = Function.update seg.points id p)
    (hslots : seg'.slots = Function.update seg.slots i ⟨p.keyHash, id⟩) :
    IndexTight n seg' := by
  have hother : ∀ k, k < irtLayoutBuckets n → (seg.slots k).Live → (seg.slots k).pointId ≠ id := by
    rintro k hk hlive rfl
    exact (h.current k hk hlive).1 hfresh
  constructor
  · intro k hk hlive
    rw [hslots] at hlive ⊢
    rw [hpoints]
    rcases eq_or_ne k i with rfl | hne
    · rw [Function.update_self, Function.update_self]
      exact ⟨hp, rfl⟩
    · rw [Function.update_of_ne hne] at hlive ⊢
      rw [Function.update_of_ne (hother k hk hlive)]
      exact h.current k hk hlive
  · intro k l hk hl hlivek hlivel hpid
    rw [hslots] at hlivek hlivel hpid
    rcases eq_or_ne k i with rfl | hki
    · by_contra hne
      rw [Function.update_self, Function.update_of_ne (Ne.symm hne)] at hpid
      rw [Function.update_of_ne (Ne.symm hne)] at hlivel
      exact hother l hl hlivel hpid.symm
    · rw [Function.update_of_ne hki] at hlivek hpid
      rcases eq_or_ne l i with rfl | hli
      · rw [Function.update_self] at hpid
        exact absurd hpid (hother k hk hlivek)
      · rw [Function.update_of_ne hli] at hlivel hpid
        exact h.distinct k l hk hl hlivek hlivel hpid

/-! ## A point loses its entry -/

/-- Point `id` becomes free and bucket `i`, an entry of it, a tombstone. -/
theorem IndexCovers.release (h : IndexCovers n hidden seg) (hp : p.name = CStr.empty)
    (hslot : (seg.slots i).pointId = id)
    (hoffIndex : seg'.hdr.offIndex = seg.hdr.offIndex)
    (hoffPoints : seg'.hdr.offPoints = seg.hdr.offPoints)
    (hpoints : seg'.points = Function.update seg.points id p)
    (hslots : seg'.slots = Function.update seg.slots i ⟨hash, irtIndexTombstone⟩) :
    IndexCovers n hidden seg' where
  offIndex := by rw [hoffIndex]; exact h.offIndex
  offPoints := by rw [hoffPoints]; exact h.offPoints
  names := by
    rw [hpoints]
    refine h.names.update ?_
    rw [hp]
    exact Nat.zero_le _
  below := by
    rw [hslots]
    exact h.below.update fun hlive => absurd rfl hlive.2
  slotted := by
    intro k hk hvis hname
    rw [hpoints] at hname ⊢
    rw [hslots]
    rcases eq_or_ne k id with rfl | hne
    · rw [Function.update_self] at hname
      exact absurd hp hname
    · rw [Function.update_of_ne hne] at hname ⊢
      refine (h.slotted k hk hvis hname).update_of_ne tombstone_ne_empty ?_
      intro heq
      rw [heq] at hslot
      exact hne hslot

theorem IndexTight.release (h : IndexTight n seg)
    (hi : i < irtLayoutBuckets n) (hlive : (seg.slots i).Live) (hslot : (seg.slots i).pointId = id)
    (hpoints : seg'.points = Function.update seg.points id p)
    (hslots : seg'.slots = Function.update seg.slots i ⟨hash, irtIndexTombstone⟩) :
    IndexTight n seg' := by
  have hne : ∀ k, (seg'.slots k).Live → k ≠ i := by
    rintro k hk rfl
    rw [hslots, Function.update_self] at hk
    exact hk.2 rfl
  have hsame : ∀ k, (seg'.slots k).Live → seg'.slots k = seg.slots k := by
    intro k hk
    rw [hslots, Function.update_of_ne (hne k hk)]
  constructor
  · intro k hk hlivek
    have hki := hne k hlivek
    have hslotk := hsame k hlivek
    rw [hslotk] at hlivek ⊢
    have hother : (seg.slots k).pointId ≠ id := by
      rw [← hslot]
      exact fun heq => hki (h.distinct k i hk hi hlivek hlive heq)
    rw [hpoints, Function.update_of_ne hother]
    exact h.current k hk hlivek
  · intro k l hk hl hlivek hlivel hpid
    have hslotk := hsame k hlivek
    have hslotl := hsame l hlivel
    rw [hslotk, hslotl] at hpid
    rw [hslotk] at hlivek
    rw [hslotl] at hlivel
    exact h.distinct k l hk hl hlivek hlivel hpid

/-! ## A point changes its key

The new entry is written to bucket `i` before an entry of the old key, at bucket
`j`, is buried.  When both keys have the same hash the two may be the same
bucket; the old entry then stays and serves the new key. -/

variable (hash) in
theorem IndexCovers.rekey (h : IndexCovers n hidden seg) (hn : n < irtIndexTombstone)
    (hid : id < n) (hp : p.name.bytes.length ≤ nameMax) (hvisible : ¬ hidden id)
    (hnamed : (seg.points id).name ≠ CStr.empty)
    (hreach : SlotReach n seg.slots p.keyHash i) (hfree : ¬ (seg.slots i).Live)
    (hold : Function.update seg.slots i ⟨p.keyHash, id⟩ j = ⟨(seg.points id).keyHash, id⟩)
    (hoffIndex : seg'.hdr.offIndex = seg.hdr.offIndex)
    (hoffPoints : seg'.hdr.offPoints = seg.hdr.offPoints)
    (hpoints : seg'.points = Function.update seg.points id p)
    (hslots : seg'.slots = Function.update (Function.update seg.slots i ⟨p.keyHash, id⟩) j
      ⟨hash, irtIndexTombstone⟩) :
    IndexCovers n hidden seg' where
  offIndex := by rw [hoffIndex]; exact h.offIndex
  offPoints := by rw [hoffPoints]; exact h.offPoints
  names := by
    rw [hpoints]
    exact h.names.update hp
  below := by
    rw [hslots]
    refine (h.below.update fun _ => hid).update ?_
    exact fun hlive => absurd rfl hlive.2
  slotted := by
    have hidSlot : (⟨p.keyHash, id⟩ : IrtIndexSlot).pointId ≠ irtIndexEmpty :=
      (IrtIndexSlot.live_mk p.keyHash hn hid).1
    intro k hk hvis hname
    rw [hpoints] at hname ⊢
    rw [hslots]
    rcases eq_or_ne k id with rfl | hne
    · rw [Function.update_self]
      rcases eq_or_ne j i with rfl | hji
      · -- the new entry itself was buried, so the old one carries the same hash
        have hhash : p.keyHash = (seg.points k).keyHash := by
          rw [Function.update_self] at hold
          exact congrArg IrtIndexSlot.hash hold
        obtain ⟨l, hl, hlreach⟩ := h.slotted k hk hvis hnamed
        have hlj : l ≠ j := by
          rintro rfl
          exact hfree (IrtIndexSlot.live_of_lt hn (by rw [hl]; exact hk))
        refine ⟨l, ?_, ?_⟩
        · rw [Function.update_of_ne hlj, Function.update_of_ne hlj, hl, hhash]
        · rw [hhash]
          exact (hlreach.update (hhash ▸ hidSlot)).update tombstone_ne_empty
      · refine ⟨i, ?_, (hreach.update hidSlot).update tombstone_ne_empty⟩
        rw [Function.update_of_ne (Ne.symm hji), Function.update_self]
    · rw [Function.update_of_ne hne] at hname ⊢
      refine ((h.slotted k hk hvis hname).fill hn hk hid hfree).update_of_ne tombstone_ne_empty ?_
      intro heq
      rw [hold] at heq
      exact hne (congrArg IrtIndexSlot.pointId heq).symm

variable (hash) in
theorem IndexTight.rekey (h : IndexTight n seg) (hn : n < irtIndexTombstone) (hid : id < n)
    (hp : p.name ≠ CStr.empty) (hi : i < irtLayoutBuckets n) (hj : j < irtLayoutBuckets n)
    (hold : Function.update seg.slots i ⟨p.keyHash, id⟩ j = ⟨(seg.points id).keyHash, id⟩)
    (hpoints : seg'.points = Function.update seg.points id p)
    (hslots : seg'.slots = Function.update (Function.update seg.slots i ⟨p.keyHash, id⟩) j
      ⟨hash, irtIndexTombstone⟩) :
    IndexTight n seg' := by
  have hlivej : j ≠ i → (seg.slots j).Live ∧ (seg.slots j).pointId = id := by
    intro hji
    rw [Function.update_of_ne hji] at hold
    rw [hold]
    exact ⟨IrtIndexSlot.live_mk _ hn hid, rfl⟩
  have hkj : ∀ k, (seg'.slots k).Live → k ≠ j := by
    rintro k hk rfl
    rw [hslots, Function.update_self] at hk
    exact hk.2 rfl
  -- a surviving entry is the new one, or an old one away from `i`
  have hcases : ∀ k, (seg'.slots k).Live →
      (k = i ∧ j ≠ i ∧ seg'.slots k = ⟨p.keyHash, id⟩) ∨
        (k ≠ i ∧ seg'.slots k = seg.slots k) := by
    intro k hk
    have hne := hkj k hk
    rcases eq_or_ne k i with rfl | hki
    · refine Or.inl ⟨rfl, Ne.symm hne, ?_⟩
      rw [hslots, Function.update_of_ne hne, Function.update_self]
    · refine Or.inr ⟨hki, ?_⟩
      rw [hslots, Function.update_of_ne hne, Function.update_of_ne hki]
  constructor
  · intro k hk hlivek
    have hne := hkj k hlivek
    rcases hcases k hlivek with ⟨_, _, hslot⟩ | ⟨hki, hslot⟩
    · rw [hslot, hpoints, Function.update_self]
      exact ⟨hp, rfl⟩
    · rw [hslot] at hlivek ⊢
      rw [hpoints]
      rcases eq_or_ne (seg.slots k).pointId id with hpid | hpid
      · -- an old entry of `id` survives only in the place of the new one
        have hji : j = i := by
          by_contra hji
          obtain ⟨hlive, hpidj⟩ := hlivej hji
          exact hne (h.distinct k j hk hj hlivek hlive (by rw [hpid, hpidj]))
        rw [hji, Function.update_self] at hold
        have hcur := (h.current k hk hlivek).2
        rw [hpid] at hcur ⊢
        rw [Function.update_self, hcur]
        exact ⟨hp, (congrArg IrtIndexSlot.hash hold).symm⟩
      · rw [Function.update_of_ne hpid]
        exact h.current k hk hlivek
  · intro k l hk hl hlivek hlivel hpid
    have hnek := hkj k hlivek
    have hnel := hkj l hlivel
    -- an old entry away from `j` cannot name `id` while the new one is there
    have hold_ne : ∀ m, m < irtLayoutBuckets n → m ≠ j → j ≠ i → (seg.slots m).Live →
        (seg.slots m).pointId ≠ id := by
      intro m hm hmj hji hlivem hpidm
      obtain ⟨hlive, hpidj⟩ := hlivej hji
      exact hmj (h.distinct m j hm hj hlivem hlive (by rw [hpidm, hpidj]))
    rcases hcases k hlivek with ⟨rfl, hjk, hslotk⟩ | ⟨_, hslotk⟩ <;>
      rcases hcases l hlivel with ⟨rfl, hjl, hslotl⟩ | ⟨_, hslotl⟩
    · rfl
    · rw [hslotk, hslotl] at hpid
      rw [hslotl] at hlivel
      exact absurd hpid.symm (hold_ne l hl hnel hjk hlivel)
    · rw [hslotk, hslotl] at hpid
      rw [hslotk] at hlivek
      exact absurd hpid (hold_ne k hk hnek hjl hlivek)
    · rw [hslotk, hslotl] at hpid
      rw [hslotk] at hlivek
      rw [hslotl] at hlivel
      exact h.distinct k l hk hl hlivek hlivel hpid

end Changes

/-! ## Room -/

/-- Entries of different points leave a bucket without an entry, where there are at least
twice as many buckets as points. -/
theorem EntriesBelow.room {n : Nat} {slots : Nat → IrtIndexSlot} (hbelow : EntriesBelow n slots)
    (hdistinct : ∀ i j, i < irtLayoutBuckets n → j < irtLayoutBuckets n → (slots i).Live →
      (slots j).Live → (slots i).pointId = (slots j).pointId → i = j)
    (htwo : 2 * n ≤ irtLayoutBuckets n) :
    ∃ i, i < irtLayoutBuckets n ∧ ¬ (slots i).Live := by
  by_contra hall
  have hlive : ∀ i, i < irtLayoutBuckets n → (slots i).Live := by
    intro i hi
    by_contra hnot
    exact hall ⟨i, hi, hnot⟩
  have hmaps : ∀ i ∈ Finset.range (irtLayoutBuckets n), (slots i).pointId ∈ Finset.range n := by
    intro i hi
    rw [Finset.mem_range] at hi ⊢
    exact hbelow i hi (hlive i hi)
  have hinj : Set.InjOn (fun i => (slots i).pointId) (Finset.range (irtLayoutBuckets n)) := by
    intro i hi j hj hpid
    rw [Finset.mem_coe, Finset.mem_range] at hi hj
    exact hdistinct i j hi hj (hlive i hi) (hlive j hj) hpid
  have hcard := Finset.card_le_card_of_injOn _ hmaps hinj
  rw [Finset.card_range, Finset.card_range] at hcard
  have hpos := irtLayoutBuckets_pos n
  omega

/-- A tight index has a bucket without an entry. -/
theorem IndexTight.room {n : Nat} {seg : Segment} (h : IndexTight n seg)
    (hbelow : EntriesBelow n seg.slots) (htwo : 2 * n ≤ irtLayoutBuckets n) :
    ∃ i, i < irtLayoutBuckets n ∧ ¬ (seg.slots i).Live :=
  hbelow.room h.distinct htwo

end InduRtdb.Core
