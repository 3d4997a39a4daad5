/-
  Daemon/RbeMap.lean --- the state of report-by-exception as a map.

  Source: `rbe_state_init`, `rbe_clear` and `rbe_decide` of `rtdbd/src/rbe.c`.

  What the table is for is to keep, for each id, the value last reported.  An empty
  slot carries the id 0, so a hole in front of the slot of point 0 hides it.  Every
  hole is made by a clear: the table is a map exactly as long as no clear makes one in
  front of point 0.
-/
import InduRtdb.Daemon.Baseline
import InduRtdb.Lib.Run
import Mathlib.Data.Finset.Card
import Mathlib.Data.Finset.Range

set_option autoImplicit false

namespace InduRtdb.Daemon

open InduRtdb.Core InduRtdb.Lib

/-! ## The map -/

/-- The value last reported of each id that is live. -/
abbrev RbeMap := Nat → Option Float

namespace RbeMap

/-- Nothing is reported yet. -/
def empty : RbeMap := fun _ => none

/-- Whether to report, and the map afterwards. -/
def decide (reported : RbeMap) (id : Nat) (value : Float) (m : IndurtdbMeta) : Bool × RbeMap :=
  match reported id with
  | none => (true, Function.update reported id (some value))
  | some last =>
      if rbeReports m last value then (true, Function.update reported id (some value))
      else (false, reported)

/-- Forget an id. -/
def clear (reported : RbeMap) (id : Nat) : RbeMap := Function.update reported id none

/-- No more ids are live than the table has slots. -/
def Fits (reported : RbeMap) : Prop :=
  ∀ ids : Finset Nat, (∀ id ∈ ids, reported id ≠ none) → ids.card ≤ rtdbdRbeMax

/-- Only the ids of a short list are live. -/
theorem fits_of_subset {reported : RbeMap} (ids : Finset Nat) (hcard : ids.card ≤ rtdbdRbeMax)
    (h : ∀ id, reported id ≠ none → id ∈ ids) : reported.Fits :=
  fun _ hlive => (Finset.card_le_card fun id hid => h id (hlive id hid)).trans hcard

/-- A decision leaves its id live. -/
theorem decide_self {reported : RbeMap} {id : Nat} (value : Float) (m : IndurtdbMeta) :
    (reported.decide id value m).2 id ≠ none := by
  unfold decide
  cases hlast : reported id with
  | none => simp
  | some last =>
      dsimp only
      split
      next => simp
      next => simp [hlast]

/-- A decision leaves the other ids alone. -/
theorem decide_other {reported : RbeMap} {id id' : Nat} (hne : id' ≠ id) (value : Float)
    (m : IndurtdbMeta) : (reported.decide id value m).2 id' = reported id' := by
  unfold decide
  cases reported id with
  | none => exact Function.update_of_ne hne _ _
  | some last =>
      dsimp only
      split
      next => exact Function.update_of_ne hne _ _
      next => rfl

end RbeMap

/-! ## Runs of the table, with the map beside it -/

/-- The calls on the state of report-by-exception. -/
inductive RbeCall where
  | decide (id : Nat) (value : Float) (m : IndurtdbMeta)
  | clear (id : Nat)

/-- The id a call is about. -/
def RbeCall.id : RbeCall → Nat
  | .decide id _ _ => id
  | .clear id => id

/-- The table, and the map it stands for. -/
structure RbePair where
  table : RbeState
  reported : RbeMap

namespace RbePair

/-- Behind `rbe_state_init`. -/
def init : RbePair := ⟨.init, .empty⟩

/-- One call on both. -/
def after (p : RbePair) : RbeCall → RbePair
  | .decide id value m => ⟨(rbeDecide p.table id value m).2, (p.reported.decide id value m).2⟩
  | .clear id => ⟨p.table.clear id, p.reported.clear id⟩

/-- The table decides as the map does, for every id, value and metadata. -/
def Agrees (p : RbePair) : Prop :=
  ∀ (id : Nat) (value : Float) (m : IndurtdbMeta),
    (rbeDecide p.table id value m).1 = (p.reported.decide id value m).1

end RbePair

/-- A decision finds a slot. -/
def RbeCall.Found (call : RbeCall) (p : RbePair) : Prop :=
  match call with
  | .decide id _ _ => (p.table.find id).isSome
  | .clear _ => True

/-- A call that does not make a hole in front of the slot of point 0. -/
def RbeCall.Spares (call : RbeCall) (p : RbePair) : Prop :=
  match call with
  | .decide _ _ _ => True
  | .clear id => ∀ j, j < rtdbdRbeMax →
      (p.table.slots j).valid = true → (p.table.slots j).pointId = 0 →
      ∀ i, i < j → (p.table.slots i).valid = true → (p.table.slots i).pointId ≠ id

instance (call : RbeCall) (p : RbePair) : Decidable (call.Spares p) :=
  match call with
  | .decide _ _ _ => .isTrue trivial
  | .clear _ => inferInstanceAs (Decidable (∀ j, j < rtdbdRbeMax → _ → _ → ∀ i, i < j → _))

/-- The calls from `rbe_state_init` on, the last one first, each with what it found; no
more ids are live at once than there are slots. -/
abbrev RbeRun : List (RbePair × RbeCall) → RbePair → Prop :=
  Trace (fun p call => (p.after call).reported.Fits) RbePair.after .init

/-- In every state of the run the table decides as the map does, and every decision of
the run has found a slot. -/
def ActsAsMap (past : List (RbePair × RbeCall)) (p : RbePair) : Prop :=
  (∀ q ∈ past, q.1.Agrees ∧ q.2.Found q.1) ∧ p.Agrees

/-! ## The table holds the map -/

/-- A slot holds the value of an id. -/
def RbeState.Holds (s : RbeState) (i id : Nat) (value : Float) : Prop :=
  i < rtdbdRbeMax ∧ (s.slots i).valid = true ∧ (s.slots i).pointId = id ∧
    (s.slots i).lastReported = value

/-- The slots in use are those of the live ids, one for each; the others carry the id
0. -/
structure Represents (s : RbeState) (reported : RbeMap) : Prop where
  vacant : ∀ i, (s.slots i).valid = false → (s.slots i).pointId = 0
  distinct : ∀ i j, i < rtdbdRbeMax → j < rtdbdRbeMax → (s.slots i).valid = true →
    (s.slots j).valid = true → (s.slots i).pointId = (s.slots j).pointId → i = j
  live : ∀ id value, reported id = some value ↔ ∃ i, s.Holds i id value

/-- No slot in front of that of point 0 is empty. -/
def ZeroVisible (s : RbeState) : Prop :=
  ∀ i j, i < j → j < rtdbdRbeMax → (s.slots j).valid = true → (s.slots j).pointId = 0 →
    (s.slots i).valid = true

theorem represents_init : Represents .init .empty where
  vacant := fun _ _ => rfl
  distinct := fun _ _ _ _ hvalid => by cases hvalid
  live := by
    intro id value
    constructor
    · intro h
      cases h
    · intro h
      obtain ⟨i, -, hvalid, -⟩ := h
      cases hvalid

theorem zeroVisible_init : ZeroVisible .init := fun _ _ _ _ hvalid => by cases hvalid

variable {s : RbeState} {reported : RbeMap}

theorem Represents.not_holds (h : Represents s reported) {id : Nat} (hnone : reported id = none)
    {i : Nat} (hi : i < rtdbdRbeMax) (hvalid : (s.slots i).valid = true) :
    (s.slots i).pointId ≠ id := by
  intro hid
  have hsome := (h.live id (s.slots i).lastReported).mpr ⟨i, hi, hvalid, hid, rfl⟩
  cases hnone.symm.trans hsome

/-- The slot of a live id is its first one. -/
theorem Represents.firstOf (h : Represents s reported) (hzero : ZeroVisible s) {i id : Nat}
    {value : Float} (hholds : s.Holds i id value) : s.FirstOf id i := by
  obtain ⟨hi, hvalid, hid, -⟩ := hholds
  refine ⟨hid, fun k hk heq => ?_⟩
  cases hk' : (s.slots k).valid with
  | true =>
      have hsame := h.distinct k i (by omega) hi hk' hvalid (heq.trans hid.symm)
      omega
  | false =>
      have hzeroId : id = 0 := heq.symm.trans (h.vacant k hk')
      have hvisible := hzero k i hk hi hvalid (hid.trans hzeroId)
      cases hk'.symm.trans hvisible

/-- What is found for a live id: its slot. -/
theorem Represents.find_live (h : Represents s reported) (hzero : ZeroVisible s) {i id : Nat}
    {value : Float} (hholds : s.Holds i id value) : s.find id = some i := by
  have hfirst := h.firstOf hzero hholds
  obtain ⟨hi, -, hid, -⟩ := hholds
  rcases s.find_spec id with ⟨j, hj, hfirst', hfound⟩ | ⟨hnone, -⟩
  · rw [hfirst.unique hfirst']
    exact hfound
  · exact absurd hid (hnone i hi)

/-- What is found for an id that is not live: an empty slot, with none before it, or
nothing in a full table. -/
theorem Represents.find_new (h : Represents s reported) {id : Nat} (hnone : reported id = none) :
    (∃ j, j < rtdbdRbeMax ∧ s.Vacant j ∧ s.find id = some j ∧
        (∀ k, k < j → (s.slots k).valid = true)) ∨
      (∀ k, k < rtdbdRbeMax → (s.slots k).valid = true) ∧ s.find id = none := by
  rcases s.find_spec id with ⟨j, hj, hfirst, hfound⟩ |
    ⟨-, ⟨j, hj, hvacant, hearlier, hfound⟩ | ⟨hfull, hfound⟩⟩
  · have hinvalid : (s.slots j).valid = false :=
      Bool.eq_false_iff.mpr fun hvalid => h.not_holds hnone hj hvalid hfirst.1
    have hzero : id = 0 := hfirst.1.symm.trans (h.vacant j hinvalid)
    refine .inl ⟨j, hj, ⟨h.vacant j hinvalid, hinvalid⟩, hfound, fun k hk => ?_⟩
    refine Bool.eq_true_of_not_eq_false fun hk' => hfirst.2 k hk ?_
    rw [h.vacant k hk', hzero]
  · refine .inl ⟨j, hj, hvacant, hfound, fun k hk => ?_⟩
    exact Bool.eq_true_of_not_eq_false fun hk' => hearlier k hk ⟨h.vacant k hk', hk'⟩
  · refine .inr ⟨fun k hk => ?_, hfound⟩
    exact Bool.eq_true_of_not_eq_false fun hk' => hfull k hk ⟨h.vacant k hk', hk'⟩

/-- In a full table, every slot has a live id of its own. -/
theorem Represents.not_fits (h : Represents s reported)
    (hfull : ∀ k, k < rtdbdRbeMax → (s.slots k).valid = true) {id : Nat}
    (hnone : reported id = none) {reported' : RbeMap} (hid : reported' id ≠ none)
    (hothers : ∀ id', id' ≠ id → reported' id' = reported id') : ¬ reported'.Fits := by
  intro hfits
  have hinj : Set.InjOn (fun i => (s.slots i).pointId) (Finset.range rtdbdRbeMax) := by
    intro i hi j hj heq
    have hi := Finset.mem_range.mp hi
    have hj := Finset.mem_range.mp hj
    exact h.distinct i j hi hj (hfull i hi) (hfull j hj) heq
  have hcard := Finset.card_image_of_injOn hinj
  have hnotin : id ∉ (Finset.range rtdbdRbeMax).image fun i => (s.slots i).pointId := by
    intro hmem
    obtain ⟨i, hi, heq⟩ := Finset.mem_image.mp hmem
    have hi := Finset.mem_range.mp hi
    exact h.not_holds hnone hi (hfull i hi) heq
  have hlive := hfits
    (insert id ((Finset.range rtdbdRbeMax).image fun i => (s.slots i).pointId)) (by
    intro id' hmem
    rcases Finset.mem_insert.mp hmem with rfl | hmem
    · exact hid
    · have hne : id' ≠ id := fun heq => hnotin (heq ▸ hmem)
      obtain ⟨i, hi, rfl⟩ := Finset.mem_image.mp hmem
      have hi := Finset.mem_range.mp hi
      have hsome := (h.live _ (s.slots i).lastReported).mpr ⟨i, hi, hfull i hi, rfl, rfl⟩
      rw [hothers _ hne, hsome]
      exact Option.some_ne_none _)
  rw [Finset.card_insert_of_notMem hnotin, hcard, Finset.card_range] at hlive
  omega

/-! ## Storing and emptying a slot -/

section

variable {k : Nat} {slot : RbeSlot}

theorem RbeState.slots_setSlot_self : (s.setSlot k slot).slots k = slot := by
  simp only [setSlot, Function.update_self]

theorem RbeState.slots_setSlot_of_ne {i : Nat} (h : i ≠ k) :
    (s.setSlot k slot).slots i = s.slots i := by
  simp only [setSlot, Function.update_of_ne h]

end

/-- Storing the value of an id in its slot, or in an empty one if it has none. -/
theorem Represents.store (h : Represents s reported) {k id : Nat} (value : Float)
    (hk : k < rtdbdRbeMax)
    (hslot : (s.slots k).valid = true ∧ (s.slots k).pointId = id ∨
      (s.slots k).valid = false ∧ reported id = none) :
    Represents (s.setSlot k ⟨id, value, true⟩) (Function.update reported id (some value)) := by
  have hother : ∀ i, i < rtdbdRbeMax → i ≠ k → (s.slots i).valid = true →
      (s.slots i).pointId ≠ id := by
    intro i hi hne hvalid heq
    rcases hslot with ⟨hk', hid⟩ | ⟨-, hnone⟩
    · exact hne (h.distinct i k hi hk hvalid hk' (heq.trans hid.symm))
    · exact h.not_holds hnone hi hvalid heq
  constructor
  · intro i hinvalid
    rcases Decidable.em (i = k) with rfl | hne
    · rw [RbeState.slots_setSlot_self] at hinvalid
      cases hinvalid
    · rw [RbeState.slots_setSlot_of_ne hne] at hinvalid ⊢
      exact h.vacant i hinvalid
  · intro i j hi hj hvi hvj heq
    rcases Decidable.em (i = k) with rfl | hik
    · rcases Decidable.em (j = i) with rfl | hji
      · rfl
      · rw [RbeState.slots_setSlot_of_ne hji] at hvj heq
        rw [RbeState.slots_setSlot_self] at heq
        exact absurd heq.symm (hother j hj hji hvj)
    · rw [RbeState.slots_setSlot_of_ne hik] at hvi heq
      rcases Decidable.em (j = k) with rfl | hjk
      · rw [RbeState.slots_setSlot_self] at heq
        exact absurd heq (hother i hi hik hvi)
      · rw [RbeState.slots_setSlot_of_ne hjk] at hvj heq
        exact h.distinct i j hi hj hvi hvj heq
  · intro id' value'
    rcases Decidable.em (id' = id) with rfl | hne
    · rw [Function.update_self]
      constructor
      · intro heq
        obtain rfl := Option.some.inj heq
        refine ⟨k, hk, ?_, ?_, ?_⟩ <;> rw [RbeState.slots_setSlot_self]
      · intro hexists
        obtain ⟨i, hi, hvalid, hid, hvalue⟩ := hexists
        rcases Decidable.em (i = k) with rfl | hik
        · rw [RbeState.slots_setSlot_self] at hvalue
          rw [← hvalue]
        · rw [RbeState.slots_setSlot_of_ne hik] at hvalid hid
          exact absurd hid (hother i hi hik hvalid)
    · rw [Function.update_of_ne hne, h.live]
      constructor
      · intro hexists
        obtain ⟨i, hi, hvalid, hid, hvalue⟩ := hexists
        have hik : i ≠ k := by
          rintro rfl
          rcases hslot with ⟨-, hid'⟩ | ⟨hinvalid, -⟩
          · exact hne (hid.symm.trans hid')
          · cases hinvalid.symm.trans hvalid
        exact ⟨i, hi, by rw [RbeState.slots_setSlot_of_ne hik]; exact ⟨hvalid, hid, hvalue⟩⟩
      · intro hexists
        obtain ⟨i, hi, hvalid, hid, hvalue⟩ := hexists
        have hik : i ≠ k := by
          rintro rfl
          rw [RbeState.slots_setSlot_self] at hid
          exact hne hid.symm
        rw [RbeState.slots_setSlot_of_ne hik] at hvalid hid hvalue
        exact ⟨i, hi, hvalid, hid, hvalue⟩

/-- Emptying the slot of a live id. -/
theorem Represents.drop (h : Represents s reported) {k id : Nat} {value last : Float}
    (hholds : s.Holds k id value) :
    Represents (s.setSlot k ⟨0, last, false⟩) (Function.update reported id none) := by
  obtain ⟨hk, hvalid, hid, -⟩ := hholds
  have hrest : ∀ i, ((s.setSlot k ⟨0, last, false⟩).slots i).valid = true → i ≠ k := by
    rintro i hi rfl
    rw [RbeState.slots_setSlot_self] at hi
    cases hi
  constructor
  · intro i hinvalid
    rcases Decidable.em (i = k) with rfl | hne
    · rw [RbeState.slots_setSlot_self]
    · rw [RbeState.slots_setSlot_of_ne hne] at hinvalid ⊢
      exact h.vacant i hinvalid
  · intro i j hi hj hvi hvj heq
    have hik := hrest i hvi
    have hjk := hrest j hvj
    rw [RbeState.slots_setSlot_of_ne hik] at hvi heq
    rw [RbeState.slots_setSlot_of_ne hjk] at hvj heq
    exact h.distinct i j hi hj hvi hvj heq
  · intro id' value'
    constructor
    · intro hsome
      rcases Decidable.em (id' = id) with rfl | hne
      · rw [Function.update_self] at hsome
        cases hsome
      · rw [Function.update_of_ne hne, h.live] at hsome
        obtain ⟨i, hi, hvalid', hid', hvalue⟩ := hsome
        have hik : i ≠ k := by
          rintro rfl
          exact hne (hid'.symm.trans hid)
        exact ⟨i, hi, by rw [RbeState.slots_setSlot_of_ne hik]; exact ⟨hvalid', hid', hvalue⟩⟩
    · intro hexists
      obtain ⟨i, hi, hvalid', hid', hvalue⟩ := hexists
      have hik := hrest i hvalid'
      rw [RbeState.slots_setSlot_of_ne hik] at hvalid' hid' hvalue
      have hne : id' ≠ id := by
        rintro rfl
        exact hik (h.distinct i k hi hk hvalid' hvalid (hid'.trans hid.symm))
      rw [Function.update_of_ne hne, h.live]
      exact ⟨i, hi, hvalid', hid', hvalue⟩

/-! ## The two operations -/

/-- With nothing hiding point 0, the table decides as the map. -/
theorem Represents.agrees (h : Represents s reported) (hzero : ZeroVisible s) :
    (RbePair.mk s reported).Agrees := by
  intro id value m
  unfold rbeDecide RbeMap.decide
  cases hlast : reported id with
  | none =>
      rcases h.find_new hlast with ⟨j, -, hvacant, hfound, -⟩ | ⟨-, hfound⟩
      · simp only [hfound, hvacant.2, if_true, hlast]
      · simp only [hfound, hlast]
  | some last =>
      obtain ⟨i, hholds⟩ := (h.live id last).mp hlast
      have hfound := h.find_live hzero hholds
      obtain ⟨-, hvalid, -, hvalue⟩ := hholds
      simp only [hfound, hvalid, Bool.true_eq_false, if_false, hvalue, hlast]
      split
      next => rfl
      next => rfl

/-- A decision finds a slot, and the table holds the map afterwards. -/
theorem Represents.decide (h : Represents s reported) (hzero : ZeroVisible s) {id : Nat}
    {value : Float} {m : IndurtdbMeta} (hfits : (reported.decide id value m).2.Fits) :
    (s.find id).isSome ∧ Represents (rbeDecide s id value m).2 (reported.decide id value m).2 ∧
      ZeroVisible (rbeDecide s id value m).2 := by
  cases hlast : reported id with
  | none =>
      rcases h.find_new hlast with ⟨j, hj, hvacant, hfound, hearlier⟩ | ⟨hfull, -⟩
      · have hdecide : (reported.decide id value m).2 =
            Function.update reported id (some value) := by
          simp only [RbeMap.decide, hlast]
        have hstate : (rbeDecide s id value m).2 = s.setSlot j ⟨id, value, true⟩ := by
          simp only [rbeDecide, hfound, hvacant.2, if_true]
        refine ⟨by rw [hfound]; rfl, ?_, ?_⟩
        · rw [hstate, hdecide]
          exact h.store value hj (.inr ⟨hvacant.2, hlast⟩)
        · rw [hstate]
          intro i l hil hl hvalid hid
          rcases Decidable.em (i = j) with rfl | hij
          · rw [RbeState.slots_setSlot_self]
          · rw [RbeState.slots_setSlot_of_ne hij]
            rcases Decidable.em (l = j) with rfl | hlj
            · exact hearlier i hil
            · rw [RbeState.slots_setSlot_of_ne hlj] at hvalid hid
              exact hzero i l hil hl hvalid hid
      · refine absurd hfits (h.not_fits hfull hlast ?_ ?_)
        · exact RbeMap.decide_self value m
        · exact fun id' hne => RbeMap.decide_other hne value m
  | some last =>
      obtain ⟨i, hholds⟩ := (h.live id last).mp hlast
      have hfound := h.find_live hzero hholds
      obtain ⟨hi, hvalid, hid, hvalue⟩ := hholds
      refine ⟨by rw [hfound]; rfl, ?_⟩
      cases hreports : rbeReports m last value with
      | false =>
          have hdecide : (reported.decide id value m).2 = reported := by
            simp [RbeMap.decide, hlast, hreports]
          have hstate : (rbeDecide s id value m).2 = s := by
            simp [rbeDecide, hfound, hvalid, hvalue, hreports]
          rw [hdecide, hstate]
          exact ⟨h, hzero⟩
      | true =>
          have hdecide : (reported.decide id value m).2 =
              Function.update reported id (some value) := by
            simp [RbeMap.decide, hlast, hreports]
          have hstate : (rbeDecide s id value m).2 = s.setSlot i ⟨id, value, true⟩ := by
            simp [rbeDecide, hfound, hvalid, hvalue, hreports, hid]
          rw [hdecide, hstate]
          refine ⟨h.store value hi (.inl ⟨hvalid, hid⟩), ?_⟩
          intro k l hkl hl hvalid' hid'
          rcases Decidable.em (k = i) with rfl | hki
          · rw [RbeState.slots_setSlot_self]
          · rw [RbeState.slots_setSlot_of_ne hki]
            rcases Decidable.em (l = i) with rfl | hli
            · rw [RbeState.slots_setSlot_self] at hid'
              exact hzero k l hkl hl hvalid (hid.trans hid')
            · rw [RbeState.slots_setSlot_of_ne hli] at hvalid' hid'
              exact hzero k l hkl hl hvalid' hid'

/-- The loop of `rbe_clear` empties the first slot of its point. -/
theorem RbeState.clearLoop_spec (id n : Nat) :
    ∀ i, (∀ k, k < i → (s.slots k).pointId ≠ id) →
      (∃ j, j < i + n ∧ s.FirstOf id j ∧
        s.clearLoop id n i = s.setSlot j ⟨0, (s.slots j).lastReported, false⟩) ∨
      (∀ k, k < i + n → (s.slots k).pointId ≠ id) ∧ s.clearLoop id n i = s := by
  induction n with
  | zero => exact fun i hpassed => .inr ⟨hpassed, rfl⟩
  | succ n ih =>
      intro i hpassed
      rw [clearLoop]
      split
      next heq => exact .inl ⟨i, by omega, ⟨heq, hpassed⟩, rfl⟩
      next hne =>
        have hpassed' : ∀ k, k < i + 1 → (s.slots k).pointId ≠ id := by
          intro k hk
          rcases Nat.lt_succ_iff_lt_or_eq.mp hk with hlt | rfl
          · exact hpassed k hlt
          · exact hne
        rcases ih (i + 1) hpassed' with ⟨j, hj, hfirst⟩ | ⟨hnone, hsame⟩
        · exact .inl ⟨j, by omega, hfirst⟩
        · exact .inr ⟨fun k hk => hnone k (by omega), hsame⟩

/-- Clearing an id that is not live changes nothing. -/
theorem Represents.clear_dead (h : Represents s reported) {id : Nat}
    (hnone : reported id = none) : s.clear id = s ∧ reported.clear id = reported := by
  refine ⟨?_, Function.update_eq_self_iff.mpr hnone.symm⟩
  rcases @RbeState.clearLoop_spec s id rtdbdRbeMax 0 fun k hk => absurd hk (Nat.not_lt_zero k) with
    ⟨j, hj, hfirst, hclear⟩ | ⟨-, hclear⟩
  · have hinvalid : (s.slots j).valid = false :=
      Bool.eq_false_iff.mpr fun hvalid => h.not_holds hnone (by omega) hvalid hfirst.1
    have hslot : s.slots j = ⟨0, (s.slots j).lastReported, false⟩ := by
      rw [← hinvalid, ← h.vacant j hinvalid]
    refine hclear.trans ?_
    rw [← hslot]
    exact congrArg RbeState.mk (Function.update_eq_self j s.slots)
  · exact hclear

/-- Clearing a live id empties its slot. -/
theorem Represents.clear_live (h : Represents s reported) (hzero : ZeroVisible s) {i id : Nat}
    {value : Float} (hholds : s.Holds i id value) :
    s.clear id = s.setSlot i ⟨0, (s.slots i).lastReported, false⟩ := by
  have hfirst := h.firstOf hzero hholds
  obtain ⟨hi, -, hid, -⟩ := hholds
  rcases @RbeState.clearLoop_spec s id rtdbdRbeMax 0 fun k hk => absurd hk (Nat.not_lt_zero k) with
    ⟨j, hj, hfirst', hclear⟩ | ⟨hnone, -⟩
  · rw [hfirst.unique hfirst']
    exact hclear
  · exact absurd hid (hnone i (by omega))

/-- The table holds the map after a clear. -/
theorem Represents.clear (h : Represents s reported) (hzero : ZeroVisible s) (id : Nat) :
    Represents (s.clear id) (reported.clear id) := by
  cases hlast : reported id with
  | none =>
      obtain ⟨htable, hmap⟩ := h.clear_dead hlast
      rw [htable, hmap]
      exact h
  | some last =>
      obtain ⟨i, hholds⟩ := (h.live id last).mp hlast
      rw [h.clear_live hzero hholds]
      exact h.drop hholds

/-- A clear keeps point 0 visible exactly when it makes no hole in front of its slot. -/
theorem Represents.zeroVisible_clear_iff (h : Represents s reported) (hzero : ZeroVisible s)
    (id : Nat) :
    ZeroVisible (s.clear id) ↔ (RbeCall.clear id).Spares ⟨s, reported⟩ := by
  cases hlast : reported id with
  | none =>
      rw [(h.clear_dead hlast).1]
      refine ⟨fun _ j hj _ _ i hij hvalid => ?_, fun _ => hzero⟩
      exact h.not_holds hlast (by omega) hvalid
  | some last =>
      obtain ⟨i, hholds⟩ := (h.live id last).mp hlast
      have hclear := h.clear_live hzero hholds
      obtain ⟨hi, hvalid, hid, -⟩ := hholds
      rw [hclear]
      constructor
      · intro hvisible j hj hvj hzeroId k hkj hvk hidk
        have hki : k = i := h.distinct k i (by omega) hi hvk hvalid (hidk.trans hid.symm)
        subst hki
        have hjk : j ≠ k := Nat.ne_of_gt hkj
        have hhole := hvisible k j hkj hj
        rw [RbeState.slots_setSlot_self, RbeState.slots_setSlot_of_ne hjk] at hhole
        cases hhole hvj hzeroId
      · intro hspares k j hkj hj hvj hzeroId
        have hji : j ≠ i := by
          rintro rfl
          rw [RbeState.slots_setSlot_self] at hvj
          cases hvj
        rw [RbeState.slots_setSlot_of_ne hji] at hvj hzeroId
        rcases Decidable.em (k = i) with rfl | hki
        · exact absurd hid (hspares j hj hvj hzeroId k hkj hvalid)
        · rw [RbeState.slots_setSlot_of_ne hki]
          exact hzero k j hkj hj hvj hzeroId

/-! ## Exactly when the table is a map -/

/-- Metadata with a deadband of 1. -/
def deadbandOne : IndurtdbMeta :=
  { IndurtdbMeta.zero with flags := indurtdbMetaFlagDeadband, deadband := 0x3f800000 }

/-- Under a deadband, a value is not reported again. -/
theorem rbeReports_deadbandOne (value : Float) : rbeReports deadbandOne value value = false := by
  have hdead : deadbandOne.has (indurtdbMetaFlagDeadband ||| indurtdbMetaFlagDeadbandPct) = true :=
    rfl
  have hpct : deadbandOne.has indurtdbMetaFlagDeadbandPct = false := rfl
  have heur : deadbandOne.has indurtdbMetaFlagEur = false := rfl
  have hband : NonNegative (doubleOfFloat (Float32.ofBits deadbandOne.deadband)) := by
    decide +kernel
  simp [rbeReports, hdead, hpct, heur, deadbandExceeded_self _ hband]

/-- A hole in front of the slot of point 0 hides the value it holds. -/
theorem Represents.agrees_iff (h : Represents s reported) :
    (RbePair.mk s reported).Agrees ↔ ZeroVisible s := by
  refine ⟨fun hagrees i j hij hj hvalid hid => ?_, h.agrees⟩
  refine Bool.eq_true_of_not_eq_false fun hhole => ?_
  have hlive : reported 0 = some (s.slots j).lastReported :=
    (h.live 0 _).mpr ⟨j, hj, hvalid, hid, rfl⟩
  have hmap : (reported.decide 0 (s.slots j).lastReported deadbandOne).1 = false := by
    simp [RbeMap.decide, hlive, rbeReports_deadbandOne]
  have htable : (rbeDecide s 0 (s.slots j).lastReported deadbandOne).1 = true := by
    rcases s.find_spec 0 with ⟨k, hk, hfirst, hfound⟩ | ⟨hnone, -⟩
    · have hki : k ≤ i := Nat.le_of_not_lt fun hlt => hfirst.2 i hlt (h.vacant i hhole)
      have hinvalid : (s.slots k).valid = false := by
        refine Bool.eq_false_iff.mpr fun hvalid' => ?_
        have hsame := h.distinct k j hk hj hvalid' hvalid (hfirst.1.trans hid.symm)
        omega
      simp [rbeDecide, hfound, hinvalid]
    · exact absurd hid (hnone j hj)
  have heq := hagrees 0 (s.slots j).lastReported deadbandOne
  rw [htable, hmap] at heq
  cases heq

/-- While the calls spare point 0, the table holds the map and every decision finds a
slot. -/
theorem RbeRun.kept {past : List (RbePair × RbeCall)} {p : RbePair} (hrun : RbeRun past p)
    (hspares : ∀ q ∈ past, q.2.Spares q.1) :
    Represents p.table p.reported ∧ ZeroVisible p.table ∧
      ∀ q ∈ past, q.1.Agrees ∧ q.2.Found q.1 := by
  induction hrun with
  | start => exact ⟨represents_init, zeroVisible_init, fun q hq => absurd hq List.not_mem_nil⟩
  | @next past p _ call hfits ih =>
      obtain ⟨hrep, hzero, hall⟩ := ih fun q hq => hspares q (List.mem_cons_of_mem _ hq)
      have hspare := hspares (p, call) List.mem_cons_self
      have hnext : call.Found p ∧ Represents (p.after call).table (p.after call).reported ∧
          ZeroVisible (p.after call).table := by
        cases call with
        | decide id value m => exact hrep.decide hzero hfits
        | clear id =>
            exact ⟨trivial, hrep.clear hzero id, (hrep.zeroVisible_clear_iff hzero id).mpr hspare⟩
      obtain ⟨hfound, hrep', hzero'⟩ := hnext
      refine ⟨hrep', hzero', fun q hq => ?_⟩
      rcases List.mem_cons.mp hq with rfl | hq
      · exact ⟨hrep.agrees hzero, hfound⟩
      · exact hall q hq

/-- **The state of report-by-exception is a map.**  In every run that keeps no more ids
live than there are slots, the table decides as the map of the values last reported, and
finds a slot for every decision, exactly when no clear makes a hole in front of the slot
of point 0. -/
theorem actsAsMap_iff {past : List (RbePair × RbeCall)} {p : RbePair} (hrun : RbeRun past p) :
    ActsAsMap past p ↔ ∀ q ∈ past, q.2.Spares q.1 := by
  induction hrun with
  | start =>
      refine ⟨fun _ q hq => absurd hq List.not_mem_nil, fun _ => ⟨fun q hq => ?_, ?_⟩⟩
      · exact absurd hq List.not_mem_nil
      · exact represents_init.agrees zeroVisible_init
  | @next past p hrun call hfits ih =>
      constructor
      · intro hacts q hq
        have hbefore : ∀ q ∈ past, q.2.Spares q.1 := by
          refine ih.mp ⟨fun q hq => hacts.1 q (List.mem_cons_of_mem _ hq), ?_⟩
          exact (hacts.1 (p, call) List.mem_cons_self).1
        rcases List.mem_cons.mp hq with rfl | hq
        · obtain ⟨hrep, hzero, -⟩ := RbeRun.kept hrun hbefore
          cases call with
          | decide id value m => trivial
          | clear id =>
              have hvisible := (hrep.clear hzero id).agrees_iff.mp hacts.2
              exact (hrep.zeroVisible_clear_iff hzero id).mp hvisible
        · exact hbefore q hq
      · intro hspares
        obtain ⟨hrep, hzero, hall⟩ := RbeRun.kept (hrun.next call hfits) hspares
        exact ⟨hall, hrep.agrees hzero⟩

/-- Calls on no more ids than there are slots can follow one another. -/
theorem follows_of_mem (ids : Finset Nat) (hcard : ids.card ≤ rtdbdRbeMax)
    (calls : List RbeCall) : ∀ p : RbePair, (∀ id, p.reported id ≠ none → id ∈ ids) →
      (∀ call ∈ calls, call.id ∈ ids) →
      Trace.Follows (fun p call => (p.after call).reported.Fits) RbePair.after calls p := by
  induction calls with
  | nil => exact fun _ _ _ => trivial
  | cons call calls ih =>
      intro p hlive hcalls
      have hcall := hcalls call List.mem_cons_self
      have hnext : ∀ id, (p.after call).reported id ≠ none → id ∈ ids := by
        intro id hid
        rcases Decidable.em (id = call.id) with rfl | hne
        · exact hcall
        · refine hlive id fun hnone => hid ?_
          cases call with
          | decide id' value m => exact (RbeMap.decide_other hne value m).trans hnone
          | clear id' => exact (Function.update_of_ne hne _ _).trans hnone
      refine ⟨RbeMap.fits_of_subset ids hcard hnext, ih _ hnext fun call' hmem => ?_⟩
      exact hcalls call' (List.mem_cons_of_mem _ hmem)

/-- A run on the points 0 and 5. -/
theorem rbeRun_fiveAndZero (calls : List RbeCall)
    (hcalls : ∀ call ∈ calls, call.id ∈ ({0, 5} : Finset Nat)) :
    RbeRun (Trace.passed RbePair.after calls .init []) (calls.foldl RbePair.after .init) := by
  refine Trace.follow calls .start (follows_of_mem {0, 5} (by decide) calls .init ?_ hcalls)
  exact fun _ hid => absurd rfl hid

/-- Point 5 is reported, then point 0, and one of them is cleared. -/
def reportedThenCleared (id : Nat) : List RbeCall :=
  [.decide 5 (doubleOfInt 7) deadbandOne, .decide 0 (doubleOfInt 7) deadbandOne, .clear id]

/-- Point 0 is cleared, behind the slot of point 5. -/
theorem actsAsMap_iff_clearZero :
    ActsAsMap (Trace.passed RbePair.after (reportedThenCleared 0) .init [])
      ((reportedThenCleared 0).foldl RbePair.after .init) := by
  refine (actsAsMap_iff (rbeRun_fiveAndZero _ (by simp [reportedThenCleared, RbeCall.id]))).mpr fun q hq => ?_
  simp only [reportedThenCleared, Trace.passed, List.mem_cons, List.not_mem_nil, or_false] at hq
  rcases hq with rfl | rfl | rfl
  · decide +kernel
  · trivial
  · trivial

/-- Point 5 is cleared, and the value of point 0 is hidden and reported again. -/
theorem not_actsAsMap :
    ¬ ∀ (past : List (RbePair × RbeCall)) (p : RbePair), RbeRun past p → ActsAsMap past p := by
  intro hacts
  have hrun := rbeRun_fiveAndZero (reportedThenCleared 5)
    (by simp [reportedThenCleared, RbeCall.id])
  have heq := (hacts _ _ hrun).2 0 (doubleOfInt 7) deadbandOne
  revert heq
  decide +kernel

end InduRtdb.Daemon
