/-
  Core/Subscription.lean --- the subscriptions of a process and their notification.

  Source: `src/core/irt_subscription.c`.

  A callback may subscribe and unsubscribe while the notification walks the same array
  by position.  Removing a subscription moves the last one into the hole: if the hole
  has been passed, the one moved is not called any more.
-/
import Mathlib.Data.List.Basic
import Mathlib.Data.List.Nodup

set_option autoImplicit false

namespace InduRtdb.Core

/-! ## The array -/

/-- `IRT_SUB_MAX_CALLBACKS`. -/
abbrev irtSubMaxCallbacks : Nat := 256

/-- `irt_sub_slot_t` of a slot in use.  `callback` is the pair of `callback` and
`user_data`; `serial`, which the code does not have, tells equal subscriptions apart. -/
structure IrtSubSlot (α : Type) where
  pointId : Nat
  callback : α
  serial : Nat
  deriving DecidableEq

/-- The fields `slots` and `slot_count` of `irt_sub_t`: the slots in use, in place.
All others are zeroed, so they are not `active`. -/
structure IrtSub (α : Type) where
  slots : List (IrtSubSlot α)
  /-- The serial number of the next subscription. -/
  next : Nat
  count_le : slots.length ≤ irtSubMaxCallbacks
  serial_lt : ∀ slot ∈ slots, slot.serial < next
  serial_nodup : (slots.map IrtSubSlot.serial).Nodup

/-- The last entry takes the place of entry `i`. -/
def swapRemove {α : Type} (l : List α) (i : Nat) : List α :=
  match l.getLast? with
  | none => l
  | some last => (l.set i last).dropLast

/-- The loop of `irt_sub_unsubscribe`, with `n` slots ahead. -/
def irtSubUnsubscribeLoop {α : Type} (id : Nat) :
    Nat → Nat → List (IrtSubSlot α) → List (IrtSubSlot α)
  | 0, _, slots => slots
  | n + 1, i, slots =>
      match slots[i]? with
      | none => slots
      | some slot =>
          if slot.pointId = id then irtSubUnsubscribeLoop id n i (swapRemove slots i)
          else irtSubUnsubscribeLoop id n (i + 1) slots

section Lists

variable {α : Type}

theorem swapRemove_last (kept : List α) (x : α) :
    swapRemove (kept ++ [x]) kept.length = kept := by
  simp [swapRemove]

theorem swapRemove_inside (kept : List α) (x : α) (mid : List α) (last : α) :
    swapRemove (kept ++ x :: (mid ++ [last])) kept.length = kept ++ last :: mid := by
  have hset : (kept ++ x :: (mid ++ [last])).set kept.length last =
      kept ++ last :: mid ++ [last] := by simp
  have hlast : (kept ++ x :: (mid ++ [last])).getLast? = some last := by
    rw [← List.cons_append, ← List.append_assoc, List.getLast?_concat]
  simp only [swapRemove, hlast, hset, List.dropLast_concat]

/-- Removing entry `i` keeps the others, in some order behind it. -/
theorem swapRemove_perm (kept : List α) (x : α) (post : List α) :
    ∃ post', swapRemove (kept ++ x :: post) kept.length = kept ++ post' ∧ post'.Perm post := by
  rcases List.eq_nil_or_concat' post with rfl | ⟨mid, last, rfl⟩
  · exact ⟨[], by rw [swapRemove_last, List.append_nil], .refl _⟩
  · refine ⟨last :: mid, swapRemove_inside kept x mid last, ?_⟩
    exact (List.perm_append_singleton last mid).symm

/-- The loop keeps the subscriptions to the other points. -/
theorem irtSubUnsubscribeLoop_perm (id : Nat) (n : Nat) :
    ∀ (kept post : List (IrtSubSlot α)), post.length = n →
      (irtSubUnsubscribeLoop id n kept.length (kept ++ post)).Perm
        (kept ++ post.filter fun slot => slot.pointId ≠ id) := by
  induction n with
  | zero =>
      intro kept post hlen
      rw [List.length_eq_zero_iff.mp hlen]
      exact .refl _
  | succ n ih =>
      intro kept post hlen
      obtain ⟨slot, post, rfl⟩ := List.exists_cons_of_length_eq_add_one hlen
      have hlen : post.length = n := Nat.succ.inj hlen
      have hget : (kept ++ slot :: post)[kept.length]? = some slot := by simp
      simp only [irtSubUnsubscribeLoop, hget]
      split
      next heq =>
        obtain ⟨post', hswap, hperm⟩ := swapRemove_perm kept slot post
        rw [hswap, List.filter_cons_of_neg (by simpa using heq)]
        refine (ih kept post' (hperm.length_eq.trans hlen)).trans ?_
        exact (hperm.filter _).append_left kept
      next hne =>
        have hrest := ih (kept ++ [slot]) post hlen
        rw [List.length_append, List.length_singleton, List.append_assoc, List.append_assoc]
          at hrest
        rw [List.filter_cons_of_pos (by simpa using hne)]
        exact hrest

end Lists

namespace IrtSub

variable {α : Type}

/-- `irt_sub_subscribe`; without a callback, or with all slots in use, it fails. -/
def subscribe (sub : IrtSub α) (id : Nat) (cb : Option α) : IrtSub α :=
  match cb with
  | none => sub
  | some cb =>
      if hfull : irtSubMaxCallbacks ≤ sub.slots.length then sub
      else
        { slots := sub.slots ++ [⟨id, cb, sub.next⟩]
          next := sub.next + 1
          count_le := by
            rw [List.length_append, List.length_singleton]
            omega
          serial_lt := by
            intro slot hslot
            rcases List.mem_append.mp hslot with hold | hnew
            · exact Nat.lt_succ_of_lt (sub.serial_lt slot hold)
            · rw [List.mem_singleton.mp hnew]
              exact Nat.lt_succ_self _
          serial_nodup := by
            rw [List.map_append, List.nodup_append]
            refine ⟨sub.serial_nodup, List.nodup_singleton _, fun a ha b hb => ?_⟩
            obtain ⟨slot, hslot, rfl⟩ := List.mem_map.mp ha
            rw [List.mem_singleton.mp hb]
            exact Nat.ne_of_lt (sub.serial_lt slot hslot) }

/-- What `irt_sub_unsubscribe` leaves are the subscriptions to the other points. -/
theorem unsubscribe_perm (sub : IrtSub α) (id : Nat) :
    (irtSubUnsubscribeLoop id sub.slots.length 0 sub.slots).Perm
      (sub.slots.filter fun slot => slot.pointId ≠ id) :=
  irtSubUnsubscribeLoop_perm id sub.slots.length [] sub.slots rfl

/-- `irt_sub_unsubscribe`. -/
def unsubscribe (sub : IrtSub α) (id : Nat) : IrtSub α where
  slots := irtSubUnsubscribeLoop id sub.slots.length 0 sub.slots
  next := sub.next
  count_le := by
    rw [(sub.unsubscribe_perm id).length_eq]
    exact Nat.le_trans (List.length_filter_le _ _) sub.count_le
  serial_lt := fun slot hslot =>
    sub.serial_lt slot (List.mem_filter.mp ((sub.unsubscribe_perm id).mem_iff.mp hslot)).1
  serial_nodup := by
    rw [((sub.unsubscribe_perm id).map _).nodup_iff]
    exact sub.serial_nodup.sublist (List.filter_sublist.map _)

/-- No subscription to the point is left. -/
theorem pointId_ne_of_mem_unsubscribe {sub : IrtSub α} {id : Nat} {slot : IrtSubSlot α}
    (hslot : slot ∈ (sub.unsubscribe id).slots) : slot.pointId ≠ id := by
  have hmem := List.mem_filter.mp ((sub.unsubscribe_perm id).mem_iff.mp hslot)
  simpa using hmem.2

end IrtSub

/-! ## Notification -/

/-- What a callback does to the subscriptions. -/
inductive SubAction (α : Type) where
  | subscribe (id : Nat) (cb : Option α)
  | unsubscribe (id : Nat)
  deriving DecidableEq

/-- One action of a callback. -/
def IrtSub.act {α : Type} (sub : IrtSub α) : SubAction α → IrtSub α
  | .subscribe id cb => sub.subscribe id cb
  | .unsubscribe id => sub.unsubscribe id

/-- An action on record: the place of the loop at which the callback was called, and the
subscriptions as they were found. -/
structure Acted (α : Type) where
  place : Nat
  sub : IrtSub α
  action : SubAction α

/-- The actions of one callback, one after the other, and the record of them. -/
def IrtSub.actAll {α : Type} (place : Nat) : List (SubAction α) → IrtSub α →
    IrtSub α × List (Acted α)
  | [], sub => (sub, [])
  | action :: actions, sub =>
      let rest := actAll place actions (sub.act action)
      (rest.1, ⟨place, sub, action⟩ :: rest.2)

/-- A notification: the subscriptions whose callback was called, in order, the actions of
the callbacks, and the subscriptions afterwards. -/
structure Notification (α : Type) where
  calls : List (IrtSubSlot α)
  acted : List (Acted α)
  sub : IrtSub α

/-- The loop of `irt_sub_notify`, with `n` places ahead; `script i` is what the callback
does that is called at place `i`. -/
def irtSubNotifyLoop {α : Type} (script : Nat → List (SubAction α)) (id : Nat) :
    Nat → Nat → IrtSub α → Notification α
  | 0, _, sub => ⟨[], [], sub⟩
  | n + 1, i, sub =>
      match sub.slots[i]? with
      | none => irtSubNotifyLoop script id n (i + 1) sub
      | some slot =>
          if slot.pointId = id then
            let acted := sub.actAll i (script i)
            let rest := irtSubNotifyLoop script id n (i + 1) acted.1
            ⟨slot :: rest.calls, acted.2 ++ rest.acted, rest.sub⟩
          else irtSubNotifyLoop script id n (i + 1) sub

/-- `irt_sub_notify`: the number of places to visit is read at the start. -/
def irtSubNotify {α : Type} (script : Nat → List (SubAction α)) (id : Nat) (sub : IrtSub α) :
    Notification α :=
  irtSubNotifyLoop script id sub.slots.length 0 sub

/-! ## What subscribers are promised -/

/-- A subscription to the point stands at a place from `i` on, below the `n` that the
loop visits. -/
def IrtSub.Pending {α : Type} (sub : IrtSub α) (id n i : Nat) (slot : IrtSubSlot α) : Prop :=
  slot.pointId = id ∧ ∃ k, i ≤ k ∧ k < n ∧ sub.slots[k]? = some slot

/-- Every subscription to the point that is there at the start is called, or removed
while its place is still ahead; none is called twice, and none that came later. -/
structure NotifiedOnce {α : Type} (sub : IrtSub α) (id : Nat) (r : Notification α) : Prop where
  present : ∀ slot ∈ r.calls, slot ∈ sub.slots ∧ slot.pointId = id
  once : (r.calls.map IrtSubSlot.serial).Nodup
  all : ∀ slot ∈ sub.slots, slot.pointId = id → slot ∈ r.calls ∨
    ∃ a ∈ r.acted, a.action = .unsubscribe id ∧
      a.sub.Pending id sub.slots.length (a.place + 1) slot

/-- An action other than unsubscribing the point itself, which leaves the subscriptions
to the point at the places ahead as they are. -/
def Acted.Steady {α : Type} (id n : Nat) (a : Acted α) : Prop :=
  a.action = .unsubscribe id ∨ ∀ slot,
    (a.sub.act a.action).Pending id n (a.place + 1) slot ↔ a.sub.Pending id n (a.place + 1) slot

section

variable {α : Type} {id n : Nat}

/-- A subscription stands at one place. -/
theorem IrtSub.place_unique (sub : IrtSub α) {i j : Nat} {a b : IrtSubSlot α}
    (hi : sub.slots[i]? = some a) (hj : sub.slots[j]? = some b) (heq : a.serial = b.serial) :
    i = j := by
  have hlt : i < (sub.slots.map IrtSubSlot.serial).length := by
    rw [List.length_map]
    exact (List.getElem?_eq_some_iff.mp hi).1
  refine (List.getElem?_inj hlt sub.serial_nodup).mp ?_
  rw [List.getElem?_map, List.getElem?_map, hi, hj, Option.map_some, Option.map_some, heq]

theorem IrtSub.not_pending_unsubscribe (sub : IrtSub α) {i : Nat} {slot : IrtSubSlot α} :
    ¬ (sub.unsubscribe id).Pending id n i slot := by
  intro h
  obtain ⟨hid, k, -, -, hget⟩ := h
  exact pointId_ne_of_mem_unsubscribe (List.mem_of_getElem? hget) hid

/-- What the actions of a callback do to the subscriptions ahead: they only remove them,
by unsubscribing the point. -/
theorem IrtSub.actAll_pending (place : Nat) (actions : List (SubAction α)) :
    ∀ sub : IrtSub α, (∀ a ∈ (sub.actAll place actions).2, a.Steady id n) →
      (∀ slot, (sub.actAll place actions).1.Pending id n (place + 1) slot →
        sub.Pending id n (place + 1) slot) ∧
      ∀ slot, sub.Pending id n (place + 1) slot →
        (sub.actAll place actions).1.Pending id n (place + 1) slot ∨
          ∃ a ∈ (sub.actAll place actions).2, a.action = .unsubscribe id ∧
            a.sub.Pending id n (a.place + 1) slot := by
  induction actions with
  | nil => exact fun sub _ => ⟨fun _ h => h, fun _ h => .inl h⟩
  | cons action actions ih =>
      intro sub hsteady
      obtain ⟨hback, hforth⟩ := ih (sub.act action) fun a ha =>
        hsteady a (List.mem_cons_of_mem _ ha)
      have hfirst := hsteady ⟨place, sub, action⟩ List.mem_cons_self
      constructor
      · intro slot hslot
        have hafter := hback slot hslot
        rcases hfirst with heq | hsame
        · obtain rfl : action = .unsubscribe id := heq
          exact absurd hafter sub.not_pending_unsubscribe
        · exact (hsame slot).mp hafter
      · intro slot hslot
        rcases hfirst with heq | hsame
        · exact .inr ⟨_, List.mem_cons_self, heq, hslot⟩
        · rcases hforth slot ((hsame slot).mpr hslot) with hstays | ⟨a, ha, hremoved⟩
          · exact .inl hstays
          · exact .inr ⟨a, List.mem_cons_of_mem _ ha, hremoved⟩

/-- The loop calls the subscriptions that are ahead of it when it starts, each once. -/
theorem irtSubNotifyLoop_spec (script : Nat → List (SubAction α)) (m : Nat) :
    ∀ (i : Nat) (sub : IrtSub α), i + m = n →
      (∀ a ∈ (irtSubNotifyLoop script id m i sub).acted, a.Steady id n) →
      (∀ slot ∈ (irtSubNotifyLoop script id m i sub).calls, sub.Pending id n i slot) ∧
      ((irtSubNotifyLoop script id m i sub).calls.map IrtSubSlot.serial).Nodup ∧
      ∀ slot, sub.Pending id n i slot → slot ∈ (irtSubNotifyLoop script id m i sub).calls ∨
        ∃ a ∈ (irtSubNotifyLoop script id m i sub).acted, a.action = .unsubscribe id ∧
          a.sub.Pending id n (a.place + 1) slot := by
  induction m with
  | zero =>
      intro i sub hn _
      refine ⟨fun slot h => absurd h List.not_mem_nil, List.nodup_nil, fun slot h => ?_⟩
      obtain ⟨-, k, hik, hk, -⟩ := h
      omega
  | succ m ih =>
      intro i sub hn
      have hn' : i + 1 + m = n := by omega
      have hlater : ∀ {sub : IrtSub α} {slot : IrtSubSlot α}, sub.Pending id n (i + 1) slot →
          sub.Pending id n i slot := by
        intro sub slot h
        obtain ⟨hid, k, hik, hk, hget⟩ := h
        exact ⟨hid, k, by omega, hk, hget⟩
      -- a place without a subscription to the point is passed
      have hpass : (∀ slot, sub.slots[i]? = some slot → slot.pointId ≠ id) →
          ∀ slot, sub.Pending id n i slot → sub.Pending id n (i + 1) slot := by
        intro hother slot h
        obtain ⟨hid, k, hik, hk, hget⟩ := h
        rcases Nat.eq_or_lt_of_le hik with rfl | hlt
        · exact absurd hid (hother slot hget)
        · exact ⟨hid, k, hlt, hk, hget⟩
      simp only [irtSubNotifyLoop]
      cases hget : sub.slots[i]? with
      | none =>
          intro hsteady
          obtain ⟨hcalls, hnodup, hall⟩ := ih (i + 1) sub hn' hsteady
          refine ⟨fun slot h => hlater (hcalls slot h), hnodup, fun slot h => hall slot ?_⟩
          exact hpass (fun slot h => by rw [hget] at h; cases h) slot h
      | some slot₀ =>
          dsimp only
          split
          next hid =>
            intro hsteady
            obtain ⟨hback, hforth⟩ := sub.actAll_pending i (script i) fun a ha =>
              hsteady a (List.mem_append_left _ ha)
            obtain ⟨hcalls, hnodup, hall⟩ := ih (i + 1) (sub.actAll i (script i)).1 hn'
              fun a ha => hsteady a (List.mem_append_right _ ha)
            have hbehind : ∀ slot ∈ (irtSubNotifyLoop script id m (i + 1)
                (sub.actAll i (script i)).1).calls, sub.Pending id n (i + 1) slot :=
              fun slot h => hback slot (hcalls slot h)
            refine ⟨fun slot h => ?_, ?_, fun slot h => ?_⟩
            · rcases List.mem_cons.mp h with rfl | h
              · exact ⟨hid, i, Nat.le_refl i, by omega, hget⟩
              · exact hlater (hbehind slot h)
            · rw [List.map_cons, List.nodup_cons]
              refine ⟨fun h => ?_, hnodup⟩
              obtain ⟨slot, hslot, heq⟩ := List.mem_map.mp h
              obtain ⟨-, k, hik, -, hget'⟩ := hbehind slot hslot
              have hsame := sub.place_unique hget' hget heq
              omega
            · obtain ⟨hid', k, hik, hk, hget'⟩ := h
              rcases Nat.eq_or_lt_of_le hik with rfl | hlt
              · obtain rfl := Option.some.inj (hget.symm.trans hget')
                exact .inl List.mem_cons_self
              · rcases hforth slot ⟨hid', k, hlt, hk, hget'⟩ with hstays | ⟨a, ha, hremoved⟩
                · rcases hall slot hstays with hcalled | ⟨a, ha, hremoved⟩
                  · exact .inl (List.mem_cons_of_mem _ hcalled)
                  · exact .inr ⟨a, List.mem_append_right _ ha, hremoved⟩
                · exact .inr ⟨a, List.mem_append_left _ ha, hremoved⟩
          next hid =>
            intro hsteady
            obtain ⟨hcalls, hnodup, hall⟩ := ih (i + 1) sub hn' hsteady
            refine ⟨fun slot h => hlater (hcalls slot h), hnodup, fun slot h => hall slot ?_⟩
            refine hpass (fun slot h => ?_) slot h
            obtain rfl := Option.some.inj (hget.symm.trans h)
            exact hid

end

/-- **Local subscribers are notified exactly once**, as long as no callback moves a
subscription to the point over the place of the loop, or adds one ahead of it. -/
theorem notifiedOnce_of_steady {α : Type} (script : Nat → List (SubAction α)) (id : Nat)
    (sub : IrtSub α)
    (hsteady : ∀ a ∈ (irtSubNotify script id sub).acted, a.Steady id sub.slots.length) :
    NotifiedOnce sub id (irtSubNotify script id sub) := by
  obtain ⟨hcalls, hnodup, hall⟩ :=
    irtSubNotifyLoop_spec script sub.slots.length 0 sub (Nat.zero_add _) hsteady
  refine ⟨fun slot h => ?_, hnodup, fun slot h hid => hall slot ?_⟩
  · obtain ⟨hid, k, -, -, hget⟩ := hcalls slot h
    exact ⟨List.mem_of_getElem? hget, hid⟩
  · obtain ⟨k, hget⟩ := List.mem_iff_getElem?.mp h
    exact ⟨hid, k, Nat.zero_le k, (List.getElem?_eq_some_iff.mp hget).1, hget⟩

/-- No subscriptions. -/
def IrtSub.empty {α : Type} : IrtSub α :=
  ⟨[], 0, Nat.zero_le _, fun _ h => absurd h List.not_mem_nil, List.nodup_nil⟩

/-- Two subscriptions to point 1 behind one to another point. -/
def behindAnother (other : Nat) : IrtSub Unit :=
  ((IrtSub.empty.subscribe other (some ())).subscribe 1 (some ())).subscribe 1 (some ())

/-- The first callback removes all subscriptions to its point. -/
theorem notifiedOnce_of_steady_unsubscribe :
    NotifiedOnce (behindAnother 1) 1
      (irtSubNotify (fun _ => [.unsubscribe 1]) 1 (behindAnother 1)) := by
  have hown : ∀ a ∈ (irtSubNotify (fun _ => [.unsubscribe 1]) 1 (behindAnother 1)).acted,
      a.action = .unsubscribe 1 := by decide +kernel
  exact notifiedOnce_of_steady (fun _ => [.unsubscribe 1]) 1 (behindAnother 1)
    fun a ha => .inl (hown a ha)

/-- The first callback for point 1 removes the subscription to point 5 in front of it;
the last one takes its place and is never called. -/
theorem not_notifiedOnce :
    ¬ ∀ (script : Nat → List (SubAction Unit)) (id : Nat) (sub : IrtSub Unit),
      NotifiedOnce sub id (irtSubNotify script id sub) := by
  intro honce
  have hkept : ∀ a ∈ (irtSubNotify (fun _ => [.unsubscribe 5]) 1 (behindAnother 5)).acted,
      a.action ≠ .unsubscribe 1 := by decide +kernel
  have hmissed : (⟨1, (), 2⟩ : IrtSubSlot Unit) ∉
      (irtSubNotify (fun _ => [.unsubscribe 5]) 1 (behindAnother 5)).calls := by decide +kernel
  rcases (honce (fun _ => [.unsubscribe 5]) 1 (behindAnother 5)).all ⟨1, (), 2⟩
    (by decide +kernel) rfl with hcalled | ⟨a, ha, haction, -⟩
  · exact hmissed hcalled
  · exact hkept a ha haction

end InduRtdb.Core
