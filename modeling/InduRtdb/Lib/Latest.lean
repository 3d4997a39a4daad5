/-
  Lib/Latest.lean --- waiting lists that keep the newest entry of each key.

  Entries are queued and taken.  What waits after a history of such events is settled by
  the history alone: of every key the newest entry that was queued since the key was last
  taken, in the order in which the keys have been waiting.  A list that replaces an entry
  of the same key where it stands, appends a new key and gives up its head is that list.
-/
import Mathlib.Data.List.Nodup
import Mathlib.Data.List.Sort

set_option autoImplicit false

namespace InduRtdb.Lib.Latest

/-- An entry is queued, or taken from the list. -/
inductive Event (α : Type) where
  | queued (entry : α)
  | taken (entry : α)
  deriving DecidableEq

section

variable {α κ : Type} [DecidableEq κ] (key : α → κ)

/-! ## What waits

A history has its last event first. -/

/-- The newest entry of a key that was queued since the key was last taken. -/
def newest (k : κ) : List (Event α) → Option α
  | [] => none
  | .queued a :: past => if key a = k then some a else newest k past
  | .taken a :: past => if key a = k then none else newest k past

/-- When the key was first queued since it was last taken: how many events came before. -/
def since (k : κ) : List (Event α) → Option Nat
  | [] => none
  | .queued a :: past => if key a = k then (since k past).or (some past.length) else since k past
  | .taken a :: past => if key a = k then none else since k past

/-- The list holds what waits, in order. -/
structure Waiting (history : List (Event α)) (l : List α) : Prop where
  distinct : (l.map key).Nodup
  newest_iff : ∀ a, a ∈ l ↔ newest key (key a) history = some a
  inOrder : l.Pairwise fun a b =>
    ∀ i ∈ since key (key a) history, ∀ j ∈ since key (key b) history, i < j

/-- The entry takes the place of the one with its key, or goes to the end. -/
def put (a : α) (l : List α) : List α :=
  if key a ∈ l.map key then l.map fun b => if key b = key a then a else b else l ++ [a]

variable {key} {history : List (Event α)} {k : κ} {a : α} {l l' : List α}

theorem isSome_since : (since key k history).isSome = (newest key k history).isSome := by
  induction history with
  | nil => rfl
  | cons event past ih =>
      cases event with
      | queued a =>
          rw [since, newest]
          split
          · rw [Option.isSome_or, Option.isSome_some, Option.isSome_some, Bool.or_true]
          · exact ih
      | taken a =>
          rw [since, newest]
          split
          · rfl
          · exact ih

theorem key_of_newest (h : newest key k history = some a) : key a = k := by
  induction history with
  | nil => cases h
  | cons event past ih =>
      cases event with
      | queued b =>
          rw [newest] at h
          split at h
          case isTrue heq =>
            obtain rfl := Option.some.inj h
            exact heq
          case isFalse => exact ih h
      | taken b =>
          rw [newest] at h
          split at h
          case isTrue => cases h
          case isFalse => exact ih h

theorem since_lt {i : Nat} (h : i ∈ since key k history) : i < history.length := by
  induction history with
  | nil => cases h
  | cons event past ih =>
      rw [List.length_cons]
      cases event with
      | queued a =>
          rw [since] at h
          split at h
          · rcases hsince : since key k past with - | j
            · rw [hsince, Option.none_or] at h
              obtain rfl := Option.some.inj h
              exact Nat.lt_succ_self _
            · rw [hsince, Option.some_or] at h
              exact Nat.lt_succ_of_lt (ih (hsince.trans h))
          · exact Nat.lt_succ_of_lt (ih h)
      | taken a =>
          rw [since] at h
          split at h
          · cases h
          · exact Nat.lt_succ_of_lt (ih h)

namespace Waiting

/-- Before the first event nothing waits. -/
theorem nil : Waiting key [] ([] : List α) where
  distinct := List.nodup_nil
  newest_iff _ := iff_of_false List.not_mem_nil (Option.some_ne_none _).symm
  inOrder := .nil

/-- A key with something waiting is in the list. -/
theorem mem_keys_of_newest (h : Waiting key history l) (hnewest : newest key k history = some a) :
    k ∈ l.map key := by
  obtain rfl := key_of_newest hnewest
  exact List.mem_map_of_mem ((h.newest_iff a).mpr hnewest)

/-- A key that waits keeps its turn when it is queued once more. -/
theorem since_queued (h : Waiting key history l) {b : α} (hb : b ∈ l) :
    since key (key b) (.queued a :: history) = since key (key b) history := by
  have hsome : (since key (key b) history).isSome := by
    rw [isSome_since, (h.newest_iff b).mp hb, Option.isSome_some]
  rw [since]
  split
  · obtain ⟨i, hi⟩ := Option.isSome_iff_exists.mp hsome
    rw [hi, Option.some_or]
  · rfl

theorem replace (h : Waiting key history l) (hin : key a ∈ l.map key) :
    Waiting key (.queued a :: history) (l.map fun b => if key b = key a then a else b) := by
  have hkey : ∀ b, key (if key b = key a then a else b) = key b := by
    intro b
    split
    case isTrue heq => exact heq.symm
    case isFalse => rfl
  refine ⟨?_, ?_, ?_⟩
  · rw [List.map_map]
    have hsame : key ∘ (fun b => if key b = key a then a else b) = key := funext hkey
    rw [hsame]
    exact h.distinct
  · intro a'
    rw [newest]
    split
    case isTrue heq =>
      constructor
      · intro hmem
        obtain ⟨b, -, hb⟩ := List.mem_map.mp hmem
        have hbkey : key b = key a := by rw [← hkey b, hb, heq]
        rw [if_pos hbkey] at hb
        rw [hb]
      · intro hsome
        obtain rfl := Option.some.inj hsome
        obtain ⟨b, hb, hbkey⟩ := List.mem_map.mp hin
        exact List.mem_map.mpr ⟨b, hb, if_pos hbkey⟩
    case isFalse hne =>
      rw [← h.newest_iff]
      constructor
      · intro hmem
        obtain ⟨b, hb, rfl⟩ := List.mem_map.mp hmem
        rw [hkey] at hne
        rwa [if_neg (fun heq => hne heq.symm)]
      · exact fun hmem => List.mem_map.mpr ⟨a', hmem, if_neg fun heq => hne heq.symm⟩
  · rw [List.pairwise_map]
    refine h.inOrder.imp_of_mem fun hb hb' hlt => ?_
    rw [hkey, hkey, h.since_queued hb, h.since_queued hb']
    exact hlt

theorem append (h : Waiting key history l) (hout : key a ∉ l.map key) :
    Waiting key (.queued a :: history) (l ++ [a]) := by
  have hnone : newest key (key a) history = none := by
    rcases hnewest : newest key (key a) history with - | b
    · rfl
    · exact absurd (h.mem_keys_of_newest hnewest) hout
  have hother : ∀ b ∈ l, key a ≠ key b := fun b hb heq => hout (heq ▸ List.mem_map_of_mem hb)
  refine ⟨?_, ?_, ?_⟩
  · rw [List.map_append, List.map_singleton]
    exact List.nodup_append.mpr ⟨h.distinct, List.nodup_singleton _, fun x hx y hy => by
      obtain rfl := List.mem_singleton.mp hy
      exact fun heq => hout (heq ▸ hx)⟩
  · intro a'
    rw [newest, List.mem_append, List.mem_singleton]
    split
    case isTrue heq =>
      constructor
      · rintro (hmem | rfl)
        · exact absurd heq (hother a' hmem)
        · rfl
      · intro hsome
        exact .inr (Option.some.inj hsome).symm
    case isFalse hne =>
      rw [← h.newest_iff]
      constructor
      · rintro (hmem | rfl)
        · exact hmem
        · exact absurd rfl hne
      · exact .inl
  · rw [List.pairwise_append]
    refine ⟨h.inOrder.imp_of_mem fun hb hb' hlt => ?_, List.pairwise_singleton _ _, ?_⟩
    · rw [h.since_queued hb, h.since_queued hb']
      exact hlt
    · intro b hb a' ha' i hi j hj
      obtain rfl := List.mem_singleton.mp ha'
      have hfresh : since key (key a') history = none := by
        rw [← Option.not_isSome_iff_eq_none, isSome_since, hnone]
        exact Bool.false_ne_true
      rw [h.since_queued hb] at hi
      rw [since, if_pos rfl, hfresh, Option.none_or] at hj
      obtain rfl := Option.some.inj hj
      exact since_lt hi

/-- Queueing an entry. -/
theorem put (h : Waiting key history l) (a : α) :
    Waiting key (.queued a :: history) (Latest.put key a l) := by
  unfold Latest.put
  split
  case isTrue hin => exact h.replace hin
  case isFalse hout => exact h.append hout

/-- Taking the head. -/
theorem take (h : Waiting key history (a :: l)) : Waiting key (.taken a :: history) l := by
  have hdistinct := List.nodup_cons.mp h.distinct
  have hother : ∀ b ∈ l, key a ≠ key b :=
    fun b hb heq => hdistinct.1 (heq ▸ List.mem_map_of_mem hb)
  refine ⟨hdistinct.2, ?_, ?_⟩
  · intro a'
    rw [newest]
    split
    case isTrue heq => exact ⟨fun hmem => absurd heq (hother a' hmem), fun hsome => by cases hsome⟩
    case isFalse hne =>
      rw [← h.newest_iff, List.mem_cons]
      exact ⟨.inr, fun hmem => hmem.resolve_left fun heq => hne (by rw [heq])⟩
  · have hinOrder := (List.pairwise_cons.mp h.inOrder).2
    refine hinOrder.imp_of_mem fun hb hb' hlt => ?_
    rw [since, if_neg (hother _ hb), since, if_neg (hother _ hb')]
    exact hlt

/-- Taking the first entries, one after the other. -/
theorem takeAll : ∀ {l : List α} {history : List (Event α)}, Waiting key history (l ++ l') →
    Waiting key ((l.map Event.taken).reverse ++ history) l' := by
  intro l
  induction l with
  | nil => exact fun h => h
  | cons a l ih =>
      intro history h
      rw [List.map_cons, List.reverse_cons, List.append_assoc, List.singleton_append]
      exact ih h.take

/-- The history settles what waits, and in which order. -/
theorem unique (h : Waiting key history l) (h' : Waiting key history l') : l = l' := by
  have hperm : l.Perm l' :=
    (List.perm_ext_iff_of_nodup h.distinct.of_map h'.distinct.of_map).mpr
      fun a => (h.newest_iff a).trans (h'.newest_iff a).symm
  refine hperm.eq_of_pairwise ?_ h.inOrder h'.inOrder
  intro a b ha hb hlt hgt
  have hsince : ∀ c ∈ l, ∃ i, i ∈ since key (key c) history := by
    intro c hc
    apply Option.isSome_iff_exists.mp
    rw [isSome_since, (h.newest_iff c).mp hc, Option.isSome_some]
  obtain ⟨i, hi⟩ := hsince a ha
  obtain ⟨j, hj⟩ := hsince b (hperm.mem_iff.mpr hb)
  exact absurd (hlt i hi j hj) (Nat.lt_asymm (hgt j hj i hi))

/-- Where the key's entry is known, it is replaced there. -/
theorem put_eq_set (h : Waiting key history l) {i : Nat} (hi : i < l.length)
    (hkey : key l[i] = key a) : Latest.put key a l = l.set i a := by
  have hin : key a ∈ l.map key := hkey ▸ List.mem_map_of_mem (List.getElem_mem hi)
  rw [Latest.put, if_pos hin]
  refine List.ext_getElem (by rw [List.length_map, List.length_set]) fun j hj hj' => ?_
  have hjl : j < l.length := by rwa [List.length_map] at hj
  rw [List.getElem_map, List.getElem_set]
  by_cases hij : i = j
  · subst hij
    rw [if_pos hkey, if_pos rfl]
  · have hne : key l[j] ≠ key a := by
      intro heq
      apply hij
      have hjkeys : j < (l.map key).length := by rwa [List.length_map]
      have hikeys : i < (l.map key).length := by rwa [List.length_map]
      have hsame : (l.map key)[i] = (l.map key)[j] := by
        rw [List.getElem_map, List.getElem_map, hkey, heq]
      exact (List.Nodup.getElem_inj_iff h.distinct).mp hsame
    rw [if_neg hne, if_neg hij]

end Waiting

end

end InduRtdb.Lib.Latest
