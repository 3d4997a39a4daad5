/-
  Core/Timeouts.lean --- the scan that marks points not written for too long.

  Source: `irt_pm_check_timeouts` of `src/core/irt_point_manager.c` and
  `INDURTDB_QUALITY_*` of `include/indurtdb/indurtdb.h`.

  A quality byte carries a base code and the limit bits.  The scan compares the whole
  byte with the base code of a time-out, and keeps the limit bits when it marks a
  point: a point marked with limit bits looks unmarked to the next scan.
-/
import InduRtdb.Core.PointManager
import Mathlib.Data.Finset.Card
import Mathlib.Data.Finset.Range

set_option autoImplicit false

namespace InduRtdb.Core

open InduRtdb.Lib

/-! ## The quality byte -/

/-- `INDURTDB_QUALITY_BASE`. -/
def indurtdbQualityBase (q : UInt8) : UInt8 := q &&& (15 : UInt8)

/-- The quality of a point that is marked: its limit bits are kept. -/
def qualityTimedOut (q : UInt8) : UInt8 :=
  indurtdbQualityMake indurtdbQualityTimeout (indurtdbQualityLimit q)

/-- What holds of 256 bytes holds of every byte. -/
theorem forall_byte {P : UInt8 → Prop} (h : ∀ n, n < 256 → P (UInt8.ofNat n)) (q : UInt8) :
    P q := by
  have hbyte := h q.toNat q.toNat_lt
  rw [UInt8.ofNat_toNat] at hbyte
  exact hbyte

theorem base_qualityTimedOut (q : UInt8) :
    indurtdbQualityBase (qualityTimedOut q) = indurtdbQualityTimeout := by
  revert q
  exact forall_byte (by decide +kernel)

theorem limit_qualityTimedOut (q : UInt8) :
    indurtdbQualityLimit (qualityTimedOut q) = indurtdbQualityLimit q := by
  revert q
  exact forall_byte (by decide +kernel)

/-- Only without limit bits is the byte that of a time-out alone. -/
theorem qualityTimedOut_eq_iff (q : UInt8) :
    qualityTimedOut q = indurtdbQualityTimeout ↔ indurtdbQualityLimit q = 0 := by
  revert q
  exact forall_byte (by decide +kernel)

/-! ## The scan -/

/-- The read loop of the scan for one point, alone with the segment: the time stamp and
the quality, or nothing if it never ends.  An odd word is waited for, but `s1` starts
out as 1. -/
def irtPmScanRead (seg : Segment) (id : Nat) : Option (Nat × UInt8) :=
  if seg.hdr.writeSeq % 2 = 0 then some ((seg.points id).timestampNs, (seg.points id).quality)
  else if seg.hdr.writeSeq = 1 then some (0, 0)
  else none

/-- One turn of the loop of `irt_pm_check_timeouts`: whether it counts the point, and
the segment afterwards. -/
def irtPmScanPoint (now timeoutNs id : Nat) (seg : Segment) : Option (Bool × Segment) :=
  match irtPmScanRead seg id with
  | none => none
  | some (ts, q) =>
      if ts = 0 then some (false, seg)
      else if q = indurtdbQualityTimeout then some (false, seg)
      else if now ≤ ts then some (false, seg)
      else if now - ts ≤ timeoutNs then some (false, seg)
      else
        let begun := irtSeqlockWriteBegin seg.hdr.writeSeq
        if begun.1 % 2 = 1 then
          some (false,
            { seg with hdr := { seg.hdr with scanSkipped := u32 (seg.hdr.scanSkipped + 1) } })
        else
          let done := (pmMarkTimeoutBody id now timeoutNs).run (seg.setWriteSeq begun.2)
          let seg := done.2.setWriteSeq (irtSeqlockWriteEnd begun.1)
          if done.1.success then
            some (true,
              { seg with hdr := { seg.hdr with statsTimeouts := u64 (seg.hdr.statsTimeouts + 1) } })
          else some (false, seg)

/-- A scan: the ids counted, whose number is returned, and the segment. -/
structure PmScan where
  detected : List Nat
  seg : Segment

/-- The loop of `irt_pm_check_timeouts`, with `n` ids ahead. -/
def irtPmScanLoop (now timeoutNs : Nat) : Nat → Nat → Segment → Option PmScan
  | 0, _, seg => some ⟨[], seg⟩
  | n + 1, id, seg =>
      match irtPmScanPoint now timeoutNs id seg with
      | none => none
      | some (counted, seg) =>
          (irtPmScanLoop now timeoutNs n (id + 1) seg).map fun scan =>
            { scan with detected := if counted then id :: scan.detected else scan.detected }

/-- `irt_pm_check_timeouts`; `now` is what `irt_time_realtime_ns` returns. -/
def irtPmCheckTimeouts (now timeoutNs : Nat) (seg : Segment) : Option PmScan :=
  if timeoutNs = 0 then some ⟨[], seg⟩
  else if seg.hdr.offPoints = 0 then some ⟨[], seg⟩
  else if now = 0 then some ⟨[], seg⟩
  else irtPmScanLoop now timeoutNs seg.hdr.maxPoints 0 seg

/-! ## What a scan is for -/

/-- A point has been written, and longer ago than `timeoutNs`. -/
def Stale (now timeoutNs : Nat) (p : IndurtdbPoint) : Prop :=
  p.timestampNs ≠ 0 ∧ p.timestampNs < now ∧ timeoutNs < now - p.timestampNs

/-- A point is to be marked: it is stale and does not say so. -/
def ToMark (now timeoutNs : Nat) (p : IndurtdbPoint) : Prop :=
  Stale now timeoutNs p ∧ indurtdbQualityBase p.quality ≠ indurtdbQualityTimeout

instance (now timeoutNs : Nat) (p : IndurtdbPoint) : Decidable (Stale now timeoutNs p) :=
  inferInstanceAs (Decidable (_ ∧ _ ∧ _))

instance (now timeoutNs : Nat) (p : IndurtdbPoint) : Decidable (ToMark now timeoutNs p) :=
  inferInstanceAs (Decidable (_ ∧ _))

/-- A scan marks the points that are to be marked, leaves the others alone, and returns
and counts how many it has marked. -/
structure ScanExact (now timeoutNs : Nat) (seg : Segment) (scan : PmScan) : Prop where
  marked : ∀ id, id < seg.hdr.maxPoints → ToMark now timeoutNs (seg.points id) →
    ∃ q, scan.seg.points id = { seg.points id with quality := q } ∧
      indurtdbQualityBase q = indurtdbQualityTimeout ∧
      indurtdbQualityLimit q = indurtdbQualityLimit (seg.points id).quality
  others : ∀ id, ¬ (id < seg.hdr.maxPoints ∧ ToMark now timeoutNs (seg.points id)) →
    scan.seg.points id = seg.points id
  returned : scan.detected.length =
    ((Finset.range seg.hdr.maxPoints).filter fun id => ToMark now timeoutNs (seg.points id)).card
  counted : u64 scan.seg.hdr.statsTimeouts =
    u64 (seg.hdr.statsTimeouts + scan.detected.length)

/-- A scan is exact, and none at the same or a later time counts or changes a point it
has marked. -/
def MarksOnce (now timeoutNs : Nat) (seg : Segment) : Prop :=
  ∃ scan, irtPmCheckTimeouts now timeoutNs seg = some scan ∧ ScanExact now timeoutNs seg scan ∧
    ∀ now', now ≤ now' → ∃ scan', irtPmCheckTimeouts now' timeoutNs scan.seg = some scan' ∧
      ∀ id ∈ scan.detected, id ∉ scan'.detected ∧ scan'.seg.points id = scan.seg.points id

/-! ## What a scan does -/

/-- A point the scan marks. -/
def Marks (now timeoutNs : Nat) (p : IndurtdbPoint) : Prop :=
  Stale now timeoutNs p ∧ p.quality ≠ indurtdbQualityTimeout

instance (now timeoutNs : Nat) (p : IndurtdbPoint) : Decidable (Marks now timeoutNs p) :=
  inferInstanceAs (Decidable (_ ∧ _))

/-- The record of a point that has been marked. -/
def IndurtdbPoint.timedOut (p : IndurtdbPoint) : IndurtdbPoint :=
  { p with quality := qualityTimedOut p.quality }

theorem pmNotDue_iff {now timeoutNs : Nat} {p : IndurtdbPoint} :
    PmNotDue now timeoutNs p ↔ ¬ Marks now timeoutNs p := by
  unfold PmNotDue Marks Stale
  constructor
  · rintro (hzero | hlater | htimeout | hrecent) ⟨⟨hts, hlt, hlong⟩, hq⟩
    · exact hts hzero
    · omega
    · exact hq htimeout
    · omega
  · intro hnot
    rcases Decidable.em (p.quality = indurtdbQualityTimeout) with hq | hq
    · exact .inr (.inr (.inl hq))
    · have htime : ¬ (p.timestampNs ≠ 0 ∧ p.timestampNs < now ∧ timeoutNs < now - p.timestampNs) :=
        fun hstale => hnot ⟨hstale, hq⟩
      omega

/-- The state a turn leaves: the lock is free, and a point may have been marked and
counted. -/
structure Turned (seg seg' : Segment) (count : Nat) : Prop where
  free : seg'.hdr.writeSeq % 2 = 0
  maxPoints : seg'.hdr.maxPoints = seg.hdr.maxPoints
  offPoints : seg'.hdr.offPoints = seg.hdr.offPoints
  counted : u64 seg'.hdr.statsTimeouts = u64 (seg.hdr.statsTimeouts + count)

theorem Turned.refl {seg : Segment} (hfree : seg.hdr.writeSeq % 2 = 0) : Turned seg seg 0 :=
  ⟨hfree, rfl, rfl, rfl⟩

theorem Turned.trans {seg seg' seg'' : Segment} {count count' : Nat} (h : Turned seg seg' count)
    (h' : Turned seg' seg'' count') : Turned seg seg'' (count + count') where
  free := h'.free
  maxPoints := h'.maxPoints.trans h.maxPoints
  offPoints := h'.offPoints.trans h.offPoints
  counted := by
    have hfirst := h.counted
    have hsecond := h'.counted
    simp only [u64] at hfirst hsecond ⊢
    omega

variable {now timeoutNs : Nat}

/-- The section, on a point that is still due, stores the quality. -/
theorem pmMarkTimeoutBody_run {id : Nat} {seg : Segment}
    (hmarks : Marks now timeoutNs (seg.points id)) :
    (pmMarkTimeoutBody id now timeoutNs).run seg =
      (.returns .ok, seg.setPoint id (seg.points id).timedOut) := by
  have hdue : ¬ PmNotDue now timeoutNs (seg.points id) := fun h => pmNotDue_iff.mp h hmarks
  simp only [pmMarkTimeoutBody, Prog.run_load, if_neg hdue]
  rfl

/-- One turn, with the lock free. -/
theorem irtPmScanPoint_spec (id : Nat) {seg : Segment} (hfree : seg.hdr.writeSeq % 2 = 0) :
    ∃ seg', irtPmScanPoint now timeoutNs id seg =
        some (decide (Marks now timeoutNs (seg.points id)), seg') ∧
      Turned seg seg' (if Marks now timeoutNs (seg.points id) then 1 else 0) ∧
      seg'.points = if Marks now timeoutNs (seg.points id) then
        Function.update seg.points id (seg.points id).timedOut else seg.points := by
  have hread : irtPmScanRead seg id =
      some ((seg.points id).timestampNs, (seg.points id).quality) := if_pos hfree
  unfold irtPmScanPoint
  rw [hread]
  rcases Decidable.em (Marks now timeoutNs (seg.points id)) with hmarks | hnot
  · have hbegun : ¬ (irtSeqlockWriteBegin seg.hdr.writeSeq).1 % 2 = 1 := by
      simp only [irtSeqlockWriteBegin, if_pos hfree]
      omega
    have hrun := @pmMarkTimeoutBody_run now timeoutNs id
      (seg.setWriteSeq (irtSeqlockWriteBegin seg.hdr.writeSeq).2) hmarks
    have hmarked := hmarks
    obtain ⟨⟨hts, hlt, hlong⟩, hq⟩ := hmarked
    have hbefore : ¬ now ≤ (seg.points id).timestampNs := by omega
    have hlonger : ¬ now - (seg.points id).timestampNs ≤ timeoutNs := by omega
    simp only [if_neg hts, if_neg hq, if_neg hbefore, if_neg hlonger, if_neg hbegun, hrun,
      SectionResult.success, if_true, if_pos hmarks, decide_eq_true hmarks]
    refine ⟨_, rfl, ⟨?_, rfl, rfl, ?_⟩, rfl⟩
    · simp only [irtSeqlockWriteBegin, if_pos hfree]
      exact irtSeqlockWriteEnd_even hfree
    · exact Nat.mod_mod _ _
  · refine ⟨seg, ?_, ?_, ?_⟩
    · rw [decide_eq_false hnot]
      rcases pmNotDue_iff.mpr hnot with hts | hbefore | hq | hrecent
      · simp only [if_pos hts]
      · simp only [if_pos hbefore, ite_self]
      · simp only [if_pos hq, ite_self]
      · simp only [if_pos hrecent, ite_self]
    · rw [if_neg hnot]
      exact .refl hfree
    · rw [if_neg hnot]

/-- The scan of the ids from `id` on, with the lock free: it counts those it marks and
changes no other. -/
theorem irtPmScanLoop_spec (n : Nat) : ∀ (id : Nat) {seg : Segment},
    seg.hdr.writeSeq % 2 = 0 → ∃ scan, irtPmScanLoop now timeoutNs n id seg = some scan ∧
      scan.detected = (List.range' id n).filter (fun i => Marks now timeoutNs (seg.points i)) ∧
      Turned seg scan.seg scan.detected.length ∧
      ∀ i, scan.seg.points i =
        if id ≤ i ∧ i < id + n ∧ Marks now timeoutNs (seg.points i) then (seg.points i).timedOut
        else seg.points i := by
  induction n with
  | zero =>
      intro id seg hfree
      refine ⟨⟨[], seg⟩, rfl, rfl, .refl hfree, fun i => ?_⟩
      rw [if_neg]
      omega
  | succ n ih =>
      intro id seg hfree
      obtain ⟨seg', hpoint, hturned, hpoints⟩ :=
        @irtPmScanPoint_spec now timeoutNs id seg hfree
      obtain ⟨scan, hloop, hdetected, hrest, hscan⟩ := ih (id + 1) hturned.free
      -- the turn changes no point ahead
      have hahead : ∀ i, i ≠ id → seg'.points i = seg.points i := by
        intro i hne
        rw [hpoints]
        split
        next => exact Function.update_of_ne hne _ _
        next => rfl
      have hlist : scan.detected =
          (List.range' (id + 1) n).filter (fun i => Marks now timeoutNs (seg.points i)) := by
        rw [hdetected]
        refine List.filter_congr fun i hi => ?_
        have hge := (List.mem_range'_1.mp hi).1
        rw [hahead i (by omega)]
      refine ⟨{ scan with
          detected := if decide (Marks now timeoutNs (seg.points id)) then id :: scan.detected
            else scan.detected }, ?_, ?_, ?_, fun i => ?_⟩
      · simp only [irtPmScanLoop, hpoint, hloop, Option.map_some]
      · rw [List.range'_succ, List.filter_cons, ← hlist]
      · have hboth := hturned.trans hrest
        simp only [decide_eq_true_eq]
        split
        next hmarks =>
          rw [if_pos hmarks, Nat.add_comm] at hboth
          exact hboth
        next hnot =>
          rw [if_neg hnot, Nat.zero_add] at hboth
          exact hboth
      · dsimp only
        rw [hscan]
        rcases Decidable.em (i = id) with rfl | hne
        · have hpassed : ¬ (i + 1 ≤ i ∧ i < i + 1 + n ∧ Marks now timeoutNs (seg'.points i)) := by
            omega
          rw [if_neg hpassed, hpoints]
          split
          next hmarks => rw [Function.update_self, if_pos ⟨Nat.le_refl i, by omega, hmarks⟩]
          next hnot => rw [if_neg fun h => hnot h.2.2]
        · rw [hahead i hne]
          refine if_congr ?_ rfl rfl
          constructor
          · exact fun h => ⟨by omega, by omega, h.2.2⟩
          · exact fun h => ⟨by omega, by omega, h.2.2⟩

/-- What `irt_pm_check_timeouts` does on a segment with points whose lock is free. -/
theorem irtPmCheckTimeouts_spec {seg : Segment} (hnow : 0 < now) (htimeout : 0 < timeoutNs)
    (hpoints : seg.hdr.offPoints ≠ 0) (hfree : seg.hdr.writeSeq % 2 = 0) :
    ∃ scan, irtPmCheckTimeouts now timeoutNs seg = some scan ∧
      scan.detected = (List.range seg.hdr.maxPoints).filter
        (fun i => Marks now timeoutNs (seg.points i)) ∧
      Turned seg scan.seg scan.detected.length ∧
      ∀ i, scan.seg.points i =
        if i < seg.hdr.maxPoints ∧ Marks now timeoutNs (seg.points i) then
          (seg.points i).timedOut
        else seg.points i := by
  obtain ⟨scan, hloop, hdetected, hturned, hscan⟩ :=
    @irtPmScanLoop_spec now timeoutNs seg.hdr.maxPoints 0 seg hfree
  refine ⟨scan, ?_, ?_, hturned, fun i => ?_⟩
  · rw [irtPmCheckTimeouts, if_neg (Nat.ne_of_gt htimeout), if_neg hpoints,
      if_neg (Nat.ne_of_gt hnow)]
    exact hloop
  · rw [hdetected, List.range_eq_range']
  · rw [hscan i, Nat.zero_add]
    exact if_congr ⟨fun h => h.2, fun h => ⟨Nat.zero_le i, h⟩⟩ rfl rfl

/-! ## When it marks each point once -/

/-- A point to be marked is one the scan marks. -/
theorem ToMark.marks {p : IndurtdbPoint} (h : ToMark now timeoutNs p) : Marks now timeoutNs p := by
  refine ⟨h.1, fun htimeout => h.2 ?_⟩
  rw [htimeout]
  rfl

/-- The number of ids in a list made by filtering those below `n`. -/
theorem length_filter_range (P : Nat → Prop) [DecidablePred P] (n : Nat) :
    ((List.range n).filter fun i => P i).length = ((Finset.range n).filter P).card := rfl

/-- A point marked before, without limit bits, is not marked again. -/
theorem not_marks_timedOut {p : IndurtdbPoint} (hlimit : indurtdbQualityLimit p.quality = 0) :
    ¬ Marks now timeoutNs p.timedOut :=
  fun h => h.2 ((qualityTimedOut_eq_iff p.quality).mpr hlimit)

/-- **The scan marks each stale point once.**  It does so exactly when no stale point
has limit bits, or says that it has timed out and more. -/
theorem marksOnce_iff {seg : Segment} (hnow : 0 < now) (htimeout : 0 < timeoutNs)
    (hpoints : seg.hdr.offPoints ≠ 0) (hfree : seg.hdr.writeSeq % 2 = 0) :
    MarksOnce now timeoutNs seg ↔
      ∀ id, id < seg.hdr.maxPoints → Stale now timeoutNs (seg.points id) →
        indurtdbQualityLimit (seg.points id).quality = 0 ∧
          (indurtdbQualityBase (seg.points id).quality = indurtdbQualityTimeout →
            (seg.points id).quality = indurtdbQualityTimeout) := by
  obtain ⟨scan, hscan, hdetected, hturned, hafter⟩ :=
    irtPmCheckTimeouts_spec hnow htimeout hpoints hfree
  have hmem : ∀ id, id ∈ scan.detected ↔
      id < seg.hdr.maxPoints ∧ Marks now timeoutNs (seg.points id) := by
    intro id
    rw [hdetected, List.mem_filter, List.mem_range, decide_eq_true_eq]
  have hlength : scan.detected.length = ((Finset.range seg.hdr.maxPoints).filter
      fun id => Marks now timeoutNs (seg.points id)).card := by
    rw [hdetected]
    exact length_filter_range _ _
  -- the second scan, at whatever time
  have hsecond : ∀ now', now ≤ now' → ∃ scan',
      irtPmCheckTimeouts now' timeoutNs scan.seg = some scan' ∧
        (∀ id, id ∈ scan'.detected ↔
          id < seg.hdr.maxPoints ∧ Marks now' timeoutNs (scan.seg.points id)) ∧
        ∀ id, scan'.seg.points id =
          if id < seg.hdr.maxPoints ∧ Marks now' timeoutNs (scan.seg.points id) then
            (scan.seg.points id).timedOut
          else scan.seg.points id := by
    intro now' hle
    obtain ⟨scan', hscan', hdetected', -, hafter'⟩ :=
      @irtPmCheckTimeouts_spec now' timeoutNs scan.seg (by omega) htimeout
        (hturned.offPoints ▸ hpoints) hturned.free
    rw [hturned.maxPoints] at hdetected' hafter'
    refine ⟨scan', hscan', fun id => ?_, hafter'⟩
    rw [hdetected', List.mem_filter, List.mem_range, decide_eq_true_eq]
  constructor
  · intro honce id hid hstale
    obtain ⟨scan₁, hscan₁, hexact, hagain⟩ := honce
    obtain rfl := Option.some.inj (hscan.symm.trans hscan₁)
    have hsame : (Finset.range seg.hdr.maxPoints).filter
          (fun id => ToMark now timeoutNs (seg.points id)) =
        (Finset.range seg.hdr.maxPoints).filter
          (fun id => Marks now timeoutNs (seg.points id)) := by
      refine Finset.eq_of_subset_of_card_le ?_ ?_
      · exact Finset.monotone_filter_right _ fun id _ h => ToMark.marks h
      · rw [← hexact.returned, hlength]
    rcases Decidable.em ((seg.points id).quality = indurtdbQualityTimeout) with hq | hq
    · refine ⟨?_, fun _ => hq⟩
      rw [hq]
      rfl
    · have hmarks : Marks now timeoutNs (seg.points id) := ⟨hstale, hq⟩
      constructor
      · obtain ⟨scan', hscan', hdetected', -⟩ := hsecond now (Nat.le_refl now)
        obtain ⟨scan₂, hscan₂, hnone⟩ := hagain now (Nat.le_refl now)
        obtain rfl := Option.some.inj (hscan'.symm.trans hscan₂)
        have hnot := (hnone id ((hmem id).mpr ⟨hid, hmarks⟩)).1
        have htimedOut : scan.seg.points id = (seg.points id).timedOut := by
          rw [hafter, if_pos ⟨hid, hmarks⟩]
        rw [← qualityTimedOut_eq_iff]
        refine Decidable.of_not_not fun hne => hnot ((hdetected' id).mpr ⟨hid, ?_⟩)
        rw [htimedOut]
        exact ⟨hstale, hne⟩
      · intro hbase
        have hin : id ∈ (Finset.range seg.hdr.maxPoints).filter
            (fun id => Marks now timeoutNs (seg.points id)) :=
          Finset.mem_filter.mpr ⟨Finset.mem_range.mpr hid, hmarks⟩
        rw [← hsame] at hin
        exact absurd hbase (Finset.mem_filter.mp hin).2.2
  · intro hmet
    have htoMark : ∀ id, id < seg.hdr.maxPoints → Marks now timeoutNs (seg.points id) →
        ToMark now timeoutNs (seg.points id) :=
      fun id hid h => ⟨h.1, fun hbase => h.2 ((hmet id hid h.1).2 hbase)⟩
    refine ⟨scan, hscan, ⟨?_, ?_, ?_, hturned.counted⟩, ?_⟩
    · intro id hid hdue
      refine ⟨qualityTimedOut (seg.points id).quality, ?_, base_qualityTimedOut _,
        limit_qualityTimedOut _⟩
      rw [hafter, if_pos ⟨hid, hdue.marks⟩]
      rfl
    · intro id hnot
      rw [hafter, if_neg fun h => hnot ⟨h.1, htoMark id h.1 h.2⟩]
    · rw [hlength]
      refine congrArg Finset.card (Finset.filter_congr fun id hid => ?_)
      exact ⟨htoMark id (Finset.mem_range.mp hid), ToMark.marks⟩
    · intro now' hle
      obtain ⟨scan', hscan', hdetected', hafter'⟩ := hsecond now' hle
      refine ⟨scan', hscan', fun id hid => ?_⟩
      obtain ⟨hlt, hmarks⟩ := (hmem id).mp hid
      have hquiet : ¬ Marks now' timeoutNs (scan.seg.points id) := by
        rw [hafter, if_pos ⟨hlt, hmarks⟩]
        exact not_marks_timedOut (hmet id hlt hmarks.1).1
      refine ⟨fun h => hquiet ((hdetected' id).mp h).2, ?_⟩
      rw [hafter', if_neg fun h => hquiet h.2]

/-- A table of one point, written at time 1 with the given quality. -/
def onePoint (quality : UInt8) : Segment where
  hdr := ⟨irtMagic, irtShmVersion, 1, 1, 0, 0, 0, 0, 0, 0, 0, 128, 256, 512, 544, 0, 0⟩
  points := fun _ => { IndurtdbPoint.zero with timestampNs := 1, quality := quality }
  slots := fun _ => ⟨0, irtIndexEmpty⟩
  metas := fun _ => IndurtdbMeta.zero

/-- A good point without limit bits. -/
theorem marksOnce_iff_good : MarksOnce 100 10 (onePoint indurtdbQualityGood) := by
  refine (marksOnce_iff (by decide) (by decide) (by decide) (by decide)).mpr fun id _ _ => ?_
  exact (by decide : indurtdbQualityLimit indurtdbQualityGood = 0 ∧
    (indurtdbQualityBase indurtdbQualityGood = indurtdbQualityTimeout →
      indurtdbQualityGood = indurtdbQualityTimeout))

/-- A point that timed out below its range is counted again. -/
theorem not_marksOnce :
    ¬ ∀ (now timeoutNs : Nat) (seg : Segment), 0 < now → 0 < timeoutNs →
      seg.hdr.offPoints ≠ 0 → seg.hdr.writeSeq % 2 = 0 → MarksOnce now timeoutNs seg := by
  intro hall
  obtain ⟨scan, hscan, hexact, -⟩ := hall 100 10 (onePoint 0x12) (by decide) (by decide)
    (by decide) (by decide)
  have hreturned := hexact.returned
  have hone : ((irtPmCheckTimeouts 100 10 (onePoint 0x12)).map fun scan => scan.detected.length) =
      some 1 := by decide +kernel
  rw [hscan, Option.map_some, Option.some.injEq, hreturned] at hone
  revert hone
  decide +kernel

end InduRtdb.Core
