/-
  Daemon/Baseline.lean --- the values report-by-exception compares with.

  Source: `rtdbd/src/rbe.c`.

  The table of `rbe_state_t` is searched for a point and for an empty slot at once,
  and an empty slot carries the id 0.  Read as a function, it gives each point the
  value last reported; `rbe_decide` looks at that of its point and changes no other.
-/
import InduRtdb.Daemon.Conn

set_option autoImplicit false

namespace InduRtdb.Daemon

open InduRtdb.Core

namespace RbeState

/-! ## Finding a slot -/

/-- A slot that can be taken. -/
def Vacant (s : RbeState) (i : Nat) : Prop := (s.slots i).pointId = 0 ∧ (s.slots i).valid = false

/-- A slot is the first one of its point. -/
def FirstOf (s : RbeState) (pointId i : Nat) : Prop :=
  (s.slots i).pointId = pointId ∧ ∀ k, k < i → (s.slots k).pointId ≠ pointId

variable {s : RbeState} {pointId : Nat}

/-- A point has one first slot. -/
theorem FirstOf.unique {i j : Nat} (h : s.FirstOf pointId i) (h' : s.FirstOf pointId j) :
    i = j := by
  rcases Nat.lt_trichotomy i j with hlt | heq | hgt
  · exact absurd h.1 (h'.2 i hlt)
  · exact heq
  · exact absurd h'.1 (h.2 j hgt)

/-- The search finds the first slot of the point, or passes the first vacant one. -/
theorem findLoop_spec (n : Nat) :
    ∀ i idx, (∀ k, k < i → (s.slots k).pointId ≠ pointId) →
      (∃ j, j < i + n ∧ s.FirstOf pointId j ∧ s.findLoop pointId n i idx = some j) ∨
      (∀ k, k < i + n → (s.slots k).pointId ≠ pointId) ∧
        ((∃ j, idx = some j ∧ s.findLoop pointId n i idx = some j) ∨
          idx = none ∧ (∃ j, i ≤ j ∧ j < i + n ∧ s.Vacant j ∧
            (∀ k, i ≤ k → k < j → ¬ s.Vacant k) ∧ s.findLoop pointId n i idx = some j) ∨
          idx = none ∧ (∀ k, i ≤ k → k < i + n → ¬ s.Vacant k) ∧
            s.findLoop pointId n i idx = none) := by
  induction n with
  | zero =>
      intro i idx hpassed
      refine .inr ⟨hpassed, ?_⟩
      cases idx with
      | none => exact .inr (.inr ⟨rfl, fun k hk hlt => by omega, rfl⟩)
      | some j => exact .inl ⟨j, rfl, rfl⟩
  | succ n ih =>
      intro i idx hpassed
      rw [findLoop]
      split
      next heq => exact .inl ⟨i, by omega, ⟨heq, hpassed⟩, rfl⟩
      next hne =>
        have hpassed' : ∀ k, k < i + 1 → (s.slots k).pointId ≠ pointId := by
          intro k hk
          rcases Nat.lt_succ_iff_lt_or_eq.mp hk with hlt | rfl
          · exact hpassed k hlt
          · exact hne
        rcases ih (i + 1) (if idx = none ∧ (s.slots i).pointId = 0 ∧ (s.slots i).valid = false
          then some i else idx) hpassed' with ⟨j, hj, hfirst, hfound⟩ | ⟨hnone, hvacant⟩
        · exact .inl ⟨j, by omega, hfirst, hfound⟩
        · refine .inr ⟨fun k hk => hnone k (by omega), ?_⟩
          rcases Classical.em (idx = none ∧ s.Vacant i) with ⟨rfl, hi⟩ | hnot
          · rw [if_pos ⟨rfl, hi.1, hi.2⟩] at hvacant ⊢
            rcases hvacant with ⟨j, hidx, hfound⟩ | ⟨hidx, -⟩ | ⟨hidx, -⟩
            · obtain rfl := Option.some.inj hidx
              exact .inr (.inl ⟨rfl, i, Nat.le_refl i, by omega, hi, fun k hk hlt => by omega,
                hfound⟩)
            · cases hidx
            · cases hidx
          · rw [if_neg fun h => hnot ⟨h.1, h.2.1, h.2.2⟩] at hvacant ⊢
            rcases hvacant with hpast | ⟨rfl, j, hle, hlt, hj, hearlier, hfound⟩ |
              ⟨rfl, hnever, hfound⟩
            · exact .inl hpast
            · refine .inr (.inl ⟨rfl, j, by omega, by omega, hj, fun k hk hkj => ?_, hfound⟩)
              rcases Nat.eq_or_lt_of_le hk with rfl | hgt
              · exact fun hvac => hnot ⟨rfl, hvac⟩
              · exact hearlier k hgt hkj
            · refine .inr (.inr ⟨rfl, fun k hk hlt => ?_, hfound⟩)
              rcases Nat.eq_or_lt_of_le hk with rfl | hgt
              · exact fun hvac => hnot ⟨rfl, hvac⟩
              · exact hnever k hgt (by omega)

/-- What `rbe_decide` finds: the first slot of the point, else the first vacant one,
and nothing where there is neither. -/
theorem find_spec (s : RbeState) (pointId : Nat) :
    (∃ j, j < rtdbdRbeMax ∧ s.FirstOf pointId j ∧ s.find pointId = some j) ∨
      (∀ k, k < rtdbdRbeMax → (s.slots k).pointId ≠ pointId) ∧
        ((∃ j, j < rtdbdRbeMax ∧ s.Vacant j ∧ (∀ k, k < j → ¬ s.Vacant k) ∧
            s.find pointId = some j) ∨
          (∀ k, k < rtdbdRbeMax → ¬ s.Vacant k) ∧ s.find pointId = none) := by
  rcases @findLoop_spec s pointId rtdbdRbeMax 0 none fun k hk => absurd hk (Nat.not_lt_zero k) with
    ⟨j, hj, hfirst, hfound⟩ | ⟨hnone, ⟨j, hidx, -⟩ | ⟨-, j, -, hj, hvacant, hearlier, hfound⟩ |
      ⟨-, hnever, hfound⟩⟩
  · exact .inl ⟨j, by omega, hfirst, hfound⟩
  · cases hidx
  · exact .inr ⟨fun k hk => hnone k (by omega),
      .inl ⟨j, by omega, hvacant, fun k hk => hearlier k (Nat.zero_le k) hk, hfound⟩⟩
  · exact .inr ⟨fun k hk => hnone k (by omega),
      .inr ⟨fun k hk => hnever k (Nat.zero_le k) (by omega), hfound⟩⟩

/-! ## The value last reported -/

/-- The value last reported of a point, where there is one. -/
def baseline (s : RbeState) (pointId : Nat) : Option Float :=
  match s.find pointId with
  | none => none
  | some i => if (s.slots i).valid then some (s.slots i).lastReported else none

/-- It stands in the first slot of the point. -/
theorem baseline_eq_some_iff {value : Float} :
    s.baseline pointId = some value ↔
      ∃ i, i < rtdbdRbeMax ∧ s.FirstOf pointId i ∧ (s.slots i).valid = true ∧
        (s.slots i).lastReported = value := by
  constructor
  · intro h
    unfold baseline at h
    rcases s.find_spec pointId with ⟨j, hj, hfirst, hfound⟩ |
      ⟨hnone, ⟨j, hj, hvacant, hearlier, hfound⟩ | ⟨-, hfound⟩⟩
    · simp only [hfound] at h
      split at h
      next hvalid => exact ⟨j, hj, hfirst, hvalid, Option.some.inj h⟩
      next => cases h
    · simp only [hfound, hvacant.2, Bool.false_eq_true, if_false] at h
      cases h
    · simp only [hfound] at h
      cases h
  · intro h
    obtain ⟨i, hi, hfirst, hvalid, hvalue⟩ := h
    rcases s.find_spec pointId with ⟨j, hj, hfirst', hfound⟩ | ⟨hnone, -⟩
    · obtain rfl := hfirst.unique hfirst'
      simp only [baseline, hfound, hvalid, if_true, hvalue]
    · exact absurd hfirst.1 (hnone i hi)

/-- Slots are taken from the first on, and one that is not taken is vacant. -/
structure Packed (s : RbeState) : Prop where
  vacant : ∀ i, (s.slots i).valid = false → (s.slots i).pointId = 0
  taken : ∀ i j, i < j → (s.slots j).valid = true → (s.slots i).valid = true

/-- The slot found is that of the point, or vacant, and those before it are taken. -/
theorem Packed.found (h : s.Packed) {k : Nat} (hfind : s.find pointId = some k) :
    k < rtdbdRbeMax ∧ (∀ i, i < k → (s.slots i).pointId ≠ pointId) ∧
      ((s.slots k).valid = true ∧ (s.slots k).pointId = pointId ∨
        (s.slots k).valid = false ∧ ∀ i, i < k → (s.slots i).valid = true) := by
  rcases s.find_spec pointId with ⟨j, hj, hfirst, hfound⟩ |
    ⟨hnone, ⟨j, hj, hvacant, hearlier, hfound⟩ | ⟨-, hfound⟩⟩
  · obtain rfl := Option.some.inj (hfound.symm.trans hfind)
    refine ⟨hj, hfirst.2, ?_⟩
    cases hvalid : (s.slots j).valid with
    | true => exact .inl ⟨rfl, hfirst.1⟩
    | false =>
        refine .inr ⟨rfl, fun i hi => ?_⟩
        refine Bool.eq_true_of_not_eq_false fun hinvalid => hfirst.2 i hi ?_
        rw [h.vacant i hinvalid, ← hfirst.1, h.vacant j hvalid]
  · obtain rfl := Option.some.inj (hfound.symm.trans hfind)
    refine ⟨hj, fun i hi => hnone i (Nat.lt_trans hi hj), .inr ⟨hvacant.2, fun i hi => ?_⟩⟩
    exact Bool.eq_true_of_not_eq_false fun hinvalid =>
      hearlier i hi ⟨h.vacant i hinvalid, hinvalid⟩
  · cases hfound.symm.trans hfind

/-- Storing a value in the slot found for a point. -/
theorem Packed.store (h : s.Packed) {k : Nat} (hfind : s.find pointId = some k) (value : Float) :
    (s.setSlot k ⟨pointId, value, true⟩).Packed ∧
      (s.setSlot k ⟨pointId, value, true⟩).baseline pointId = some value ∧
      ∀ q, q ≠ pointId → (s.setSlot k ⟨pointId, value, true⟩).baseline q = s.baseline q := by
  obtain ⟨hk, hbefore, hslot⟩ := h.found hfind
  have hat : (s.setSlot k ⟨pointId, value, true⟩).slots k = ⟨pointId, value, true⟩ :=
    Function.update_self k _ s.slots
  have hoff : ∀ i, i ≠ k → (s.setSlot k ⟨pointId, value, true⟩).slots i = s.slots i :=
    fun i hi => Function.update_of_ne hi _ s.slots
  have htaken : ∀ i, i < k → (s.slots i).valid = true := by
    rcases hslot with ⟨hvalid, -⟩ | ⟨-, hearlier⟩
    · exact fun i hi => h.taken i k hi hvalid
    · exact hearlier
  refine ⟨⟨fun i hinvalid => ?_, fun i j hij hvalid => ?_⟩, ?_, fun q hq => ?_⟩
  · rcases Decidable.em (i = k) with rfl | hi
    · rw [hat] at hinvalid
      cases hinvalid
    · rw [hoff i hi] at hinvalid ⊢
      exact h.vacant i hinvalid
  · rcases Decidable.em (i = k) with rfl | hi
    · rw [hat]
    · rw [hoff i hi]
      rcases Decidable.em (j = k) with rfl | hj
      · exact htaken i hij
      · rw [hoff j hj] at hvalid
        exact h.taken i j hij hvalid
  · refine baseline_eq_some_iff.mpr ⟨k, hk, ⟨?_, fun i hi => ?_⟩, ?_, ?_⟩
    · rw [hat]
    · rw [hoff i (Nat.ne_of_lt hi)]
      exact hbefore i hi
    · rw [hat]
    · rw [hat]
  · -- the slot is no slot of `q` afterwards, and before only where it is vacant
    have hsame : ∀ v, (s.setSlot k ⟨pointId, value, true⟩).baseline q = some v ↔
        s.baseline q = some v := by
      intro v
      rw [baseline_eq_some_iff, baseline_eq_some_iff]
      constructor
      · intro hexists
        obtain ⟨i, hi, ⟨hid, hfirst⟩, hvalid, hvalue⟩ := hexists
        have hne : i ≠ k := by
          rintro rfl
          rw [hat] at hid
          exact hq hid.symm
        rw [hoff i hne] at hid hvalid hvalue
        refine ⟨i, hi, ⟨hid, fun l hl => ?_⟩, hvalid, hvalue⟩
        rcases Decidable.em (l = k) with rfl | hlk
        · rcases hslot with ⟨-, hid'⟩ | ⟨hinvalid, -⟩
          · rw [hid']
            exact Ne.symm hq
          · cases hinvalid.symm.trans (h.taken l i hl hvalid)
        · have hlater := hfirst l hl
          rw [hoff l hlk] at hlater
          exact hlater
      · intro hexists
        obtain ⟨i, hi, ⟨hid, hfirst⟩, hvalid, hvalue⟩ := hexists
        have hne : i ≠ k := by
          rintro rfl
          rcases hslot with ⟨-, hid'⟩ | ⟨hinvalid, -⟩
          · exact hq (hid.symm.trans hid')
          · cases hinvalid.symm.trans hvalid
        refine ⟨i, hi, ⟨?_, fun l hl => ?_⟩, ?_, ?_⟩
        · rw [hoff i hne]
          exact hid
        · rcases Decidable.em (l = k) with rfl | hlk
          · rw [hat]
            exact Ne.symm hq
          · rw [hoff l hlk]
            exact hfirst l hl
        · rw [hoff i hne]
          exact hvalid
        · rw [hoff i hne]
          exact hvalue
    exact Option.ext hsame

end RbeState

/-! ## The decision -/

/-- Deadband or range supervision is enabled. -/
def IndurtdbMeta.Supervised (m : IndurtdbMeta) : Prop :=
  m.has (indurtdbMetaFlagDeadband ||| indurtdbMetaFlagDeadbandPct) = true ∨
    m.has indurtdbMetaFlagEur = true

instance (m : IndurtdbMeta) : Decidable (IndurtdbMeta.Supervised m) :=
  inferInstanceAs (Decidable (_ ∨ _))

/-- Without supervision, every value is reported. -/
theorem supervised_of_silent {m : IndurtdbMeta} {last value : Float}
    (h : rbeReports m last value = false) : IndurtdbMeta.Supervised m := by
  unfold rbeReports at h
  unfold IndurtdbMeta.Supervised
  cases hdead : m.has (indurtdbMetaFlagDeadband ||| indurtdbMetaFlagDeadbandPct) with
  | true => exact .inl rfl
  | false =>
      cases heur : m.has indurtdbMetaFlagEur with
      | true => exact .inr rfl
      | false =>
          simp [hdead, heur] at h

/-- What `rbe_decide` does to the values last reported: it looks at that of its point,
and replaces it when it reports. -/
theorem rbeDecide_spec {s : RbeState} (h : s.Packed) (pointId : Nat) (value : Float)
    (m : IndurtdbMeta) :
    (rbeDecide s pointId value m).2.Packed ∧
      (∀ q, q ≠ pointId → (rbeDecide s pointId value m).2.baseline q = s.baseline q) ∧
      ((rbeDecide s pointId value m).1 = true → ∀ v,
        (rbeDecide s pointId value m).2.baseline pointId = some v → v = value) ∧
      ((rbeDecide s pointId value m).1 = false → ∃ v, s.baseline pointId = some v ∧
        rbeReports m v value = false) := by
  unfold rbeDecide
  cases hfind : s.find pointId with
  | none =>
      refine ⟨h, fun _ _ => rfl, fun _ v hv => ?_, fun hf => by cases hf⟩
      simp only [RbeState.baseline, hfind] at hv
      cases hv
  | some idx =>
      obtain ⟨hpacked, hown, hothers⟩ := h.store hfind value
      have hreported : ∀ v, (s.setSlot idx ⟨pointId, value, true⟩).baseline pointId = some v →
          v = value := fun v hv => Option.some.inj (hv.symm.trans hown)
      dsimp only
      split
      next => exact ⟨hpacked, hothers, fun _ => hreported, fun hf => by cases hf⟩
      next hvalid =>
        have hvalid : (s.slots idx).valid = true := Bool.eq_true_of_not_eq_false hvalid
        have hslot : RbeSlot.mk (s.slots idx).pointId value (s.slots idx).valid =
            ⟨pointId, value, true⟩ := by
          rcases (h.found hfind).2.2 with ⟨-, hid⟩ | ⟨hinvalid, -⟩
          · rw [hid, hvalid]
          · cases hinvalid.symm.trans hvalid
        split
        next =>
          simp only [hslot]
          exact ⟨hpacked, hothers, fun _ => hreported, fun hf => by cases hf⟩
        next hsilent =>
          refine ⟨h, fun _ _ => rfl, fun hf => by (cases hf), fun _ => ?_⟩
          refine ⟨(s.slots idx).lastReported, ?_, Bool.eq_false_iff.mpr hsilent⟩
          simp only [RbeState.baseline, hfind, hvalid, if_true]

end InduRtdb.Daemon
