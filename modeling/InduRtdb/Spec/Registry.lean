/-
  Spec/Registry.lean --- what the point registry is for: a partial map from ids to
  keys in which no two ids hold the same key.

  A key is a name in a zone.  The map is the whole state; an operation either
  changes it at one id or refuses and leaves it alone.  How the map is stored,
  and how the holder of a key is found, is not said here.
-/
import InduRtdb.Core.Types
import Mathlib.Data.Finset.Card
import Mathlib.Data.Fintype.Basic

set_option autoImplicit false

namespace InduRtdb.Spec

open InduRtdb.Core

/-- A registry of at most `capacity` ids. -/
@[ext] structure Registry (Zone Name : Type) (capacity : Nat) where
  holds : Nat → Option (Zone × Name)
  inRange : ∀ id key, holds id = some key → id < capacity
  unique : ∀ id id' key, holds id = some key → holds id' = some key → id = id'

namespace Registry

variable {Zone Name : Type} {capacity : Nat}

/-- Nothing is registered. -/
def empty : Registry Zone Name capacity where
  holds _ := none
  inRange := by simp
  unique := by simp

/-- Another id holds the key. -/
def Taken (r : Registry Zone Name capacity) (key : Zone × Name) (id : Nat) : Prop :=
  ∃ other, other ≠ id ∧ r.holds other = some key

/-- The number of registered ids. -/
def size (r : Registry Zone Name capacity) : Nat :=
  ((Finset.range capacity).filter fun id => (r.holds id).isSome).card

/-! ## Changing one id -/

/-- Let `id` hold `key`. -/
def assign (r : Registry Zone Name capacity) (id : Nat) (key : Zone × Name)
    (hid : id < capacity) (hfree : ¬ r.Taken key id) : Registry Zone Name capacity where
  holds := Function.update r.holds id (some key)
  inRange := by
    intro j k hj
    rcases eq_or_ne j id with rfl | hne
    · exact hid
    · rw [Function.update_of_ne hne] at hj
      exact r.inRange j k hj
  unique := by
    have hother : ∀ j k, j ≠ id → Function.update r.holds id (some key) j = some k → k ≠ key := by
      intro j k hne hj hk
      rw [Function.update_of_ne hne, hk] at hj
      exact hfree ⟨j, hne, hj⟩
    intro i j k hi hj
    rcases eq_or_ne i id with rfl | hi'
    · rw [Function.update_self] at hi
      by_contra hij
      exact hother j k (Ne.symm hij) hj (Option.some.inj hi).symm
    · rcases eq_or_ne j id with rfl | hj'
      · rw [Function.update_self] at hj
        exact absurd (Option.some.inj hj).symm (hother i k hi' hi)
      · rw [Function.update_of_ne hi'] at hi
        rw [Function.update_of_ne hj'] at hj
        exact r.unique i j k hi hj

/-- Let `id` hold nothing. -/
def clear (r : Registry Zone Name capacity) (id : Nat) : Registry Zone Name capacity where
  holds := Function.update r.holds id none
  inRange := by
    intro j k hj
    rcases eq_or_ne j id with rfl | hne
    · simp at hj
    · rw [Function.update_of_ne hne] at hj
      exact r.inRange j k hj
  unique := by
    have hother : ∀ j k, Function.update r.holds id none j = some k → r.holds j = some k := by
      intro j k hj
      rcases eq_or_ne j id with rfl | hne
      · simp at hj
      · rwa [Function.update_of_ne hne] at hj
    intro i j k hi hj
    exact r.unique i j k (hother i k hi) (hother j k hj)

/-- Assigning the key an id already holds changes nothing. -/
theorem assign_of_holds {r : Registry Zone Name capacity} {id : Nat} {key : Zone × Name}
    (h : r.holds id = some key) (hid : id < capacity) (hfree : ¬ r.Taken key id) :
    r.assign id key hid hfree = r := by
  refine Registry.ext ?_
  simp only [assign, ← h, Function.update_eq_self]

/-! ## The operations -/

open Classical in
/-- Register a key under a free id.  `wellFormed` says whether the remaining
arguments are legal. -/
noncomputable def create (r : Registry Zone Name capacity) (zone : Zone) (id : Nat) (name : Name)
    (wellFormed : Prop) : Rc × Registry Zone Name capacity :=
  if h : wellFormed ∧ id < capacity ∧ ¬ r.Taken (zone, name) id then
    if r.holds id = none then (.ok, r.assign id (zone, name) h.2.1 h.2.2) else (.errFull, r)
  else (.errArg, r)

open Classical in
/-- Release an id held in this zone. -/
noncomputable def delete (r : Registry Zone Name capacity) (zone : Zone) (id : Nat) :
    Rc × Registry Zone Name capacity :=
  if id < capacity then
    if ∃ name, r.holds id = some (zone, name) then (.ok, r.clear id) else (.errNotFound, r)
  else (.errArg, r)

open Classical in
/-- Let an id held in this zone take another name of the same zone. -/
noncomputable def rename (r : Registry Zone Name capacity) (zone : Zone) (id : Nat) (name : Name) :
    Rc × Registry Zone Name capacity :=
  if h : id < capacity ∧ ¬ r.Taken (zone, name) id then
    if ∃ old, r.holds id = some (zone, old) then (.ok, r.assign id (zone, name) h.1 h.2)
    else (.errNotFound, r)
  else (.errArg, r)

open Classical in
/-- The holder of a key. -/
noncomputable def find (r : Registry Zone Name capacity) (zone : Zone) (name : Name) :
    Except Rc Nat :=
  if h : ∃ id, r.holds id = some (zone, name) then .ok h.choose else .error .errNotFound

/-! ## What a successful operation did -/

section Success

variable {r : Registry Zone Name capacity} {zone : Zone} {id : Nat} {name : Name}

theorem create_of_ok {wellFormed : Prop} (h : (r.create zone id name wellFormed).1 = .ok) :
    wellFormed ∧ r.holds id = none ∧ ∃ hid hfree,
      (r.create zone id name wellFormed).2 = r.assign id (zone, name) hid hfree := by
  unfold create at h ⊢
  split at h
  · rename_i hok
    split at h
    · rename_i hnone
      refine ⟨hok.1, hnone, hok.2.1, hok.2.2, ?_⟩
      rw [dif_pos hok, if_pos hnone]
    · cases h
  · cases h

theorem delete_of_ok (h : (r.delete zone id).1 = .ok) :
    id < capacity ∧ (∃ old, r.holds id = some (zone, old)) ∧
      (r.delete zone id).2 = r.clear id := by
  unfold delete at h ⊢
  split at h
  · rename_i hid
    split at h
    · rename_i hheld
      refine ⟨hid, hheld, ?_⟩
      rw [if_pos hid, if_pos hheld]
    · cases h
  · cases h

theorem rename_of_ok (h : (r.rename zone id name).1 = .ok) :
    (∃ old, r.holds id = some (zone, old)) ∧ ∃ hid hfree,
      (r.rename zone id name).2 = r.assign id (zone, name) hid hfree := by
  unfold rename at h ⊢
  split at h
  · rename_i hok
    split at h
    · rename_i hheld
      refine ⟨hheld, hok.1, hok.2, ?_⟩
      rw [dif_pos hok, if_pos hheld]
    · cases h
  · cases h

theorem create_eq_assign {wellFormed : Prop} (hwf : wellFormed) (hid : id < capacity)
    (hfree : ¬ r.Taken (zone, name) id) (hnone : r.holds id = none) :
    (r.create zone id name wellFormed).2 = r.assign id (zone, name) hid hfree := by
  unfold create
  rw [dif_pos ⟨hwf, hid, hfree⟩, if_pos hnone]

theorem create_eq_self {wellFormed : Prop} (h : r.holds id = none → r.Taken (zone, name) id) :
    (r.create zone id name wellFormed).2 = r := by
  unfold create
  split
  · rename_i hok
    rw [if_neg fun hnone => hok.2.2 (h hnone)]
  · rfl

theorem delete_eq_clear (hid : id < capacity) (hheld : ∃ old, r.holds id = some (zone, old)) :
    (r.delete zone id).2 = r.clear id := by
  unfold delete
  rw [if_pos hid, if_pos hheld]

theorem delete_eq_self (h : ¬ ∃ old, r.holds id = some (zone, old)) :
    (r.delete zone id).2 = r := by
  unfold delete
  rw [if_neg h]
  split <;> rfl

theorem rename_eq_assign (hid : id < capacity) (hfree : ¬ r.Taken (zone, name) id)
    (hheld : ∃ old, r.holds id = some (zone, old)) :
    (r.rename zone id name).2 = r.assign id (zone, name) hid hfree := by
  unfold rename
  rw [dif_pos ⟨hid, hfree⟩, if_pos hheld]

theorem rename_eq_self (h : (∃ old, r.holds id = some (zone, old)) → r.Taken (zone, name) id) :
    (r.rename zone id name).2 = r := by
  unfold rename
  split
  · rename_i hok
    rw [if_neg fun hheld => hok.2 (h hheld)]
  · rfl

end Success

section Find

variable {r : Registry Zone Name capacity} {zone : Zone} {name : Name}

theorem find_of_holds {id : Nat} (h : r.holds id = some (zone, name)) :
    r.find zone name = .ok id := by
  have hex : ∃ id, r.holds id = some (zone, name) := ⟨id, h⟩
  rw [find, dif_pos hex, r.unique _ _ _ hex.choose_spec h]

theorem find_of_not_holds (h : ∀ id, r.holds id ≠ some (zone, name)) :
    r.find zone name = .error .errNotFound := by
  rw [find, dif_neg]
  rintro ⟨id, hid⟩
  exact h id hid

theorem find_eq_ok_iff {id : Nat} :
    r.find zone name = .ok id ↔ r.holds id = some (zone, name) := by
  constructor
  · intro h
    by_cases hex : ∃ j, r.holds j = some (zone, name)
    · obtain ⟨j, hj⟩ := hex
      rw [find_of_holds hj] at h
      exact Except.ok.inj h ▸ hj
    · rw [find_of_not_holds (fun j hj => hex ⟨j, hj⟩)] at h
      cases h
  · exact find_of_holds

/-- A search looks at the ids holding its own key only. -/
theorem find_congr {r' : Registry Zone Name capacity}
    (h : ∀ id, r.holds id = some (zone, name) ↔ r'.holds id = some (zone, name)) :
    r.find zone name = r'.find zone name := by
  by_cases hex : ∃ j, r.holds j = some (zone, name)
  · obtain ⟨j, hj⟩ := hex
    rw [find_of_holds hj, find_of_holds ((h j).mp hj)]
  · rw [find_of_not_holds (fun j hj => hex ⟨j, hj⟩),
      find_of_not_holds (fun j hj => hex ⟨j, (h j).mpr hj⟩)]

end Find

/-! ## Zones are isolated -/

section Isolation

variable {r : Registry Zone Name capacity} {zone zone' : Zone} {id : Nat} {name name' : Name}

theorem holds_assign_of_ne (hne : zone' ≠ zone) (hid : id < capacity)
    (hfree : ¬ r.Taken (zone, name) id)
    (hzone : ∀ key, r.holds id = some key → key.1 = zone) (j : Nat) :
    (r.assign id (zone, name) hid hfree).holds j = some (zone', name') ↔
      r.holds j = some (zone', name') := by
  rcases eq_or_ne j id with rfl | hj
  · simp only [assign, Function.update_self, Option.some.injEq, Prod.mk.injEq]
    constructor
    · intro h
      exact absurd h.1.symm hne
    · intro h
      exact absurd (hzone _ h) hne
  · simp only [assign, Function.update_of_ne hj]

theorem holds_clear_of_ne (hne : zone' ≠ zone)
    (hzone : ∀ key, r.holds id = some key → key.1 = zone) (j : Nat) :
    (r.clear id).holds j = some (zone', name') ↔ r.holds j = some (zone', name') := by
  rcases eq_or_ne j id with rfl | hj
  · simp only [clear, Function.update_self, reduceCtorEq, false_iff]
    intro h
    exact absurd (hzone _ h) hne
  · simp only [clear, Function.update_of_ne hj]

theorem find_create_of_ne (hne : zone' ≠ zone) (wellFormed : Prop) :
    (r.create zone id name wellFormed).2.find zone' name' = r.find zone' name' := by
  unfold create
  split
  · rename_i hok
    split
    · rename_i hnone
      refine find_congr fun j => holds_assign_of_ne hne hok.2.1 hok.2.2 ?_ j
      intro key hkey
      rw [hnone] at hkey
      cases hkey
    · rfl
  · rfl

theorem find_delete_of_ne (hne : zone' ≠ zone) :
    (r.delete zone id).2.find zone' name' = r.find zone' name' := by
  unfold delete
  split
  · split
    · rename_i hheld
      obtain ⟨old, hold⟩ := hheld
      refine find_congr fun j => holds_clear_of_ne hne ?_ j
      intro key hkey
      rw [hold] at hkey
      exact (Option.some.inj hkey) ▸ rfl
    · rfl
  · rfl

theorem find_rename_of_ne (hne : zone' ≠ zone) :
    (r.rename zone id name).2.find zone' name' = r.find zone' name' := by
  unfold rename
  split
  · rename_i hok
    split
    · rename_i hheld
      obtain ⟨old, hold⟩ := hheld
      refine find_congr fun j => holds_assign_of_ne hne hok.1 hok.2 ?_ j
      intro key hkey
      rw [hold] at hkey
      exact (Option.some.inj hkey) ▸ rfl
    · rfl
  · rfl

end Isolation

/-! ## Sizes -/

theorem size_empty : (empty : Registry Zone Name capacity).size = 0 := by
  simp [size, empty]

theorem size_assign_of_none {r : Registry Zone Name capacity} {id : Nat} {key : Zone × Name}
    (hnone : r.holds id = none) (hid : id < capacity) (hfree : ¬ r.Taken key id) :
    (r.assign id key hid hfree).size = r.size + 1 := by
  have hset : ((Finset.range capacity).filter
        fun j => ((r.assign id key hid hfree).holds j).isSome) =
      insert id ((Finset.range capacity).filter fun j => (r.holds j).isSome) := by
    ext j
    simp only [Finset.mem_filter, Finset.mem_range, Finset.mem_insert]
    rcases eq_or_ne j id with rfl | hj
    · simp [assign, hid]
    · simp [assign, hj]
  rw [size, size, hset, Finset.card_insert_of_notMem]
  simp [hnone]

theorem size_assign_of_some {r : Registry Zone Name capacity} {id : Nat} {key old : Zone × Name}
    (hsome : r.holds id = some old) (hid : id < capacity) (hfree : ¬ r.Taken key id) :
    (r.assign id key hid hfree).size = r.size := by
  refine congrArg Finset.card (Finset.filter_congr fun j _ => ?_)
  rcases eq_or_ne j id with rfl | hj
  · simp [assign, hsome]
  · simp [assign, hj]

theorem size_clear_of_some {r : Registry Zone Name capacity} {id : Nat} {old : Zone × Name}
    (hsome : r.holds id = some old) : (r.clear id).size + 1 = r.size := by
  have hset : ((Finset.range capacity).filter fun j => ((r.clear id).holds j).isSome) =
      ((Finset.range capacity).filter fun j => (r.holds j).isSome).erase id := by
    ext j
    simp only [Finset.mem_filter, Finset.mem_range, Finset.mem_erase]
    rcases eq_or_ne j id with rfl | hj
    · simp [clear]
    · simp [clear, hj]
  have hmem : id ∈ (Finset.range capacity).filter fun j => (r.holds j).isSome := by
    simp [hsome, r.inRange id old hsome]
  rw [size, size, hset, Finset.card_erase_add_one hmem]

theorem size_le (r : Registry Zone Name capacity) : r.size ≤ capacity := by
  calc r.size ≤ (Finset.range capacity).card := Finset.card_filter_le _ _
    _ = capacity := Finset.card_range capacity

end Registry

end InduRtdb.Spec
