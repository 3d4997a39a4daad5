/-
  Core/Serializable.lean --- writers of one segment, one after the other.

  Source: `src/internal/irt_seqlock.h`, `src/core/irt_point_manager.c`,
  `src/core/irt_index.c`, `irt_meta_set` of `src/core/irt_shm.c`.

  Any number of threads run the operations of `WriterOp` on one segment.  What is
  wanted of every state they reach is `Serialized`; an insertion that finds the
  index full is the one operation that can stand in its way, because the partition
  of the point is stored before the search.
-/
import InduRtdb.Core.PointManager

set_option autoImplicit false

namespace InduRtdb.Core

open InduRtdb.Lib InduRtdb.Spec

/-! ## The operations -/

/-- The operations on the segment, with their arguments.  `s` is the caller's view of
the segment, `now` what the clock returns during the call. -/
inductive WriterOp where
  /-- `irt_pm_write_*` -/
  | write (id : Nat) (type : UInt8) (value : List UInt8) (sourceTsNs : Nat) (quality : UInt8)
      (now : Nat)
  /-- `irt_pm_set_quality` -/
  | setQuality (id : Nat) (quality : UInt8)
  /-- the mark of `irt_pm_check_timeouts` on one point -/
  | markTimeout (id now timeoutNs : Nat)
  /-- `irt_meta_set` -/
  | metaSet (s : IrtShm) (id : Nat) (m : IndurtdbMeta)
  /-- `irt_index_insert` -/
  | indexInsert (s : IrtShm) (partition : UInt32) (name : CStr) (pointId : Nat)
  /-- `irt_index_remove` -/
  | indexRemove (s : IrtShm) (partition : UInt32) (name : CStr)

/-- `irt_pm_validate_id`, and the check that the points can be found. -/
def irtPmReady (id : Nat) (seg : Segment) : Bool :=
  decide (id < seg.hdr.maxPoints) && decide (seg.hdr.offPoints ≠ 0)

/-- How each operation takes the lock, what it does under it, and whether it counts
its success in `stats.writes`. -/
def WriterOp.job : WriterOp → Job Segment SectionResult
  | .write id type value sourceTsNs quality now =>
      { ready := irtPmReady id
        attempts := irtSeqlockMaxRetry
        body := pmWriteBody id type value sourceTsNs quality now
        counts := SectionResult.success }
  | .setQuality id quality =>
      { ready := irtPmReady id
        attempts := 1
        body := pmSetQualityBody id quality
        counts := fun _ => false }
  | .markTimeout id now timeoutNs =>
      { ready := fun seg => irtPmReady id seg && decide (now ≠ 0) && decide (timeoutNs ≠ 0)
        attempts := 1
        body := pmMarkTimeoutBody id now timeoutNs
        counts := fun _ => false }
  | .metaSet s id m =>
      { ready := fun seg => decide (id < s.maxPoints) && decide (seg.hdr.offMeta ≠ 0)
        attempts := 1
        body := metaSetBody id m
        counts := fun _ => false }
  | .indexInsert s partition name pointId =>
      { ready := fun _ => true
        attempts := 1
        body := indexInsertBody s partition name pointId
        counts := fun _ => false }
  | .indexRemove s partition name =>
      { ready := fun _ => true
        attempts := 1
        body := indexRemoveBody s partition name
        counts := fun _ => false }

/-- Threads that run these operations. -/
abbrev Clients (Tid : Type) : Type := Writers Tid WriterOp Segment SectionResult

variable {Tid : Type} [DecidableEq Tid]

/-! ## What is wanted -/

/-- The operations of the history that reported success, applied in their order. -/
def appliedInOrder (log : List (WriterOp × SectionResult)) (seg : Segment) : Segment :=
  Sections.applied (fun op => op.job.body) SectionResult.success log seg

/-- The writers of a segment, seen after `past`, are serialized. -/
structure Serialized (stats₀ : Nat) (seg₀ : Segment) (past : List (Clients Tid))
    (s : Clients Tid) : Prop where
  /-- at most one thread is inside -/
  exclusive : ∀ t t', s.Inside t → s.Inside t' → t = t'
  /-- the word has not decreased -/
  monotone : ∀ p, p ∈ past → p.writeSeq ≤ s.writeSeq
  odd_iff : s.writeSeq % 2 = 1 ↔ ∃ t, s.Inside t
  /-- outside sections, the segment is what the successful operations made of it -/
  serial : s.Free → s.data = appliedInOrder s.log seg₀
  /-- what changes the segment is an operation on its way to report success -/
  changes : ∀ s', Writers.Step WriterOp.job s s' → s'.data ≠ s.data →
    ∃ t op e rest, s.threads t = .inside op e rest ∧ (rest.run s.data).1.success = true
  counted : (∀ t, s.threads t = .idle) →
    s.statsWrites = u64 (stats₀ + Writers.counted WriterOp.job s.log)

/-! ## The insertion into a full index -/

/-- Where an insertion reaches its search, finds no place, and has already stored
another partition than the point had. -/
def InsertSpoils (s : IrtShm) (partition : UInt32) (name : CStr) (pointId : Nat)
    (seg : Segment) : Prop :=
  (seg.points pointId).partition ≠ partition ∧
    ∃ ix, irtIndexBind s seg.hdr = some ix ∧
      indexPlace ix
        (seg.setPoint pointId { seg.points pointId with partition := partition }) partition name
        = .full

/-- The operation does not spoil the point it is about. -/
def NotSpoiling (op : WriterOp) (seg : Segment) : Prop :=
  match op with
  | .indexInsert s partition name pointId => ¬ InsertSpoils s partition name pointId seg
  | _ => True

theorem storePoint_result (id : Nat) (fs : List (IndurtdbPoint → IndurtdbPoint))
    (k : Prog Segment SectionResult) (result : SectionResult)
    (hk : ∀ seg, (k.run seg).1 = result) (seg : Segment) :
    ((storePoint id fs k).run seg).1 = result := by
  induction fs generalizing seg with
  | nil => exact hk seg
  | cons f fs ih => exact ih _

/-- A program that is certain to succeed is clean. -/
theorem clean_of_success {p : Prog Segment SectionResult} {seg : Segment}
    (h : (p.run seg).1 = .returns .ok) : Sections.Clean SectionResult.success p seg := by
  intro hfails
  rw [h] at hfails
  cases hfails

/-- A program that stores nothing is clean. -/
theorem clean_of_still {p : Prog Segment SectionResult} {seg : Segment} (h : p.Still seg) :
    Sections.Clean SectionResult.success p seg := fun _ => h

theorem indexRemoveBody_clean {s : IrtShm} {partition : UInt32} {name : CStr} {seg : Segment} :
    Sections.Clean SectionResult.success (indexRemoveBody s partition name) seg := by
  intro hfails
  rw [indexRemoveBody, Prog.run_load] at hfails
  rw [indexRemoveBody, Prog.still_load]
  split
  · trivial
  · rename_i hname
    rw [if_neg hname] at hfails
    cases hbind : irtIndexBind s seg.hdr with
    | none => trivial
    | some ix =>
        simp only [hbind] at hfails ⊢
        split
        · trivial
        · rename_i hoff
          simp only [hoff, if_false] at hfails
          cases hprobe : irtIndexProbeLoop ix seg (irtIndexComposeHash partition name) partition
              name ix.capacity 0 with
          | none => trivial
          | some i => simp [hprobe, SectionResult.success] at hfails

theorem indexInsertBody_clean {s : IrtShm} {partition : UInt32} {name : CStr} {pointId : Nat}
    {seg : Segment} (h : ¬ InsertSpoils s partition name pointId seg) :
    Sections.Clean SectionResult.success (indexInsertBody s partition name pointId) seg := by
  intro hfails
  rw [indexInsertBody, Prog.run_load] at hfails
  rw [indexInsertBody, Prog.still_load]
  split
  · trivial
  · rename_i hname
    rw [if_neg hname] at hfails
    cases hbind : irtIndexBind s seg.hdr with
    | none => trivial
    | some ix =>
        simp only [hbind] at hfails ⊢
        split
        · trivial
        · rename_i hid
          simp only [hid, if_false] at hfails
          simp only [storePoint, List.foldr_cons, List.foldr_nil] at hfails ⊢
          rw [Prog.run_store, Prog.run_load] at hfails
          rw [Prog.still_store, Prog.still_load]
          cases hplace : indexPlace ix
              (seg.setPoint pointId { seg.points pointId with partition := partition })
              partition name with
          | hit i => simp [hplace, SectionResult.success] at hfails
          | free i => simp [hplace, SectionResult.success] at hfails
          | full =>
              -- the store before the search was of the partition the point had
              have hsame : (seg.points pointId).partition = partition := by
                by_contra hother
                exact h ⟨hother, ix, hbind, hplace⟩
              have hstore : seg.setPoint pointId
                  { seg.points pointId with partition := partition } = seg := by
                subst hsame
                exact congrArg (fun f => { seg with points := f }) (Function.update_eq_self _ _)
              rw [hstore] at hplace
              refine ⟨hstore, ?_⟩
              rw [hplace]
              trivial

/-- Every operation that does not spoil its point succeeds or stores nothing. -/
theorem job_clean {op : WriterOp} {seg : Segment} (h : NotSpoiling op seg) :
    Sections.Clean SectionResult.success op.job.body seg := by
  cases op with
  | write id type value sourceTsNs quality now =>
      change Sections.Clean _ (pmWriteBody id type value sourceTsNs quality now) seg
      by_cases haccess : (seg.points id).access = indurtdbAccessReadOnly
      · refine clean_of_still ?_
        rw [pmWriteBody, Prog.still_load, if_pos haccess]
        trivial
      · refine clean_of_success ?_
        rw [pmWriteBody, Prog.run_load, if_neg haccess]
        exact storePoint_result id _ _ _ (fun _ => rfl) seg
  | setQuality id quality =>
      exact clean_of_success (storePoint_result id _ _ _ (fun _ => rfl) seg)
  | markTimeout id now timeoutNs =>
      change Sections.Clean _ (pmMarkTimeoutBody id now timeoutNs) seg
      by_cases hdue : PmNotDue now timeoutNs (seg.points id)
      · refine clean_of_still ?_
        rw [pmMarkTimeoutBody, Prog.still_load, if_pos hdue]
        trivial
      · refine clean_of_success ?_
        rw [pmMarkTimeoutBody, Prog.run_load, if_neg hdue]
        exact storePoint_result id _ _ _ (fun _ => rfl) seg
  | metaSet s id m => exact clean_of_success rfl
  | indexInsert s partition name pointId => exact indexInsertBody_clean h
  | indexRemove s partition name => exact indexRemoveBody_clean

/-! ## Runs without a spoiling insertion -/

/-- One step of one thread, in which no insertion that spoils its point takes the
lock. -/
abbrev SparingStep : Clients Tid → Clients Tid → Prop :=
  Writers.AllowedStep WriterOp.job NotSpoiling

section Runs

variable {w₀ stats₀ : Nat} {seg₀ : Segment} {past : List (Clients Tid)} {s : Clients Tid}

/-- While the word has room to count, it is the count. -/
theorem word_eq_count (hw₀ : w₀ < 2 ^ 64)
    (hrun : Run SparingStep (Writers.start w₀ stats₀ seg₀) past s)
    (hroom : w₀ + s.count < 2 ^ 64) : s.writeSeq = w₀ + s.count := by
  obtain ⟨a, href, -⟩ := Writers.run_refines hw₀ hrun
  rw [href.word, ← href.count_eq]
  exact Nat.mod_eq_of_lt hroom

/-- Where no insertion spoils a point, the writers are serialized, as long as fewer
than `2^63` sections have been begun on the segment. -/
theorem serialized_of_sparing (heven : w₀ % 2 = 0) (hstats : stats₀ < 2 ^ 64)
    (hrun : Run SparingStep (Writers.start w₀ stats₀ seg₀) past s)
    (hfew : w₀ + 2 * s.begun < 2 ^ 64) : Serialized stats₀ seg₀ past s := by
  have hw₀ : w₀ < 2 ^ 64 := by omega
  obtain ⟨a, href, hserial⟩ := Writers.run_refines hw₀ hrun
  have hroom : w₀ + s.count < 2 ^ 64 := by
    have hle := href.count_le
    omega
  have hword := word_eq_count hw₀ hrun hroom
  refine ⟨fun t t' => href.unique, ?_, ?_, ?_, ?_, ?_⟩
  · intro p hp
    obtain ⟨past', hrun'⟩ := hrun.visited hp
    have hle := Writers.run_count_le hrun p hp
    rw [hword, word_eq_count hw₀ hrun' (by omega)]
    omega
  · have hparity := a.count_odd_iff
    rw [hword, href.count_eq]
    constructor
    · intro hodd
      have hsome : a.holder.isSome := hparity.mp (by omega)
      obtain ⟨⟨t, op, rest⟩, hheld⟩ := Option.isSome_iff_exists.mp hsome
      obtain ⟨e, hat⟩ := href.held t op rest hheld
      exact ⟨t, op, e, rest, hat⟩
    · rintro ⟨t, op, e, rest, hat⟩
      have hsome : a.holder.isSome := by rw [(href.inside t op e rest hat).1]; rfl
      have hodd := hparity.mpr hsome
      omega
  · intro hfree
    simp only [Sections.SerialInv, href.free_iff.mp hfree, ← href.data, ← href.log] at hserial
    exact hserial.applied fun op d h => job_clean h
  · intro s' hstep hchange
    obtain ⟨b, href', hclean⟩ := Writers.run_cleanInv hw₀ (fun op d h => job_clean h) hrun
    exact hstep.success_of_change href' hclean hchange
  · exact Writers.run_counted hstats hrun

end Runs

/-- Two threads write to a fresh segment: the one has loaded the word, the other goes first,
and the compare-exchange of the one fails once. -/
theorem serialized_of_sparing_contended :
    ∃ (past : List (Clients Bool)) (s : Clients Bool),
      Run SparingStep (Writers.start 0 0 (irtShmInitOwner 4 1 1)) past s ∧
        s.log.map Prod.snd = [.returns .ok, .returns .ok] ∧
        s.writeSeq = 4 ∧ s.statsWrites = 2 ∧ (s.data.points 0).timestampNs = 9 ∧
        Serialized 0 (irtShmInitOwner 4 1 1) past s := by
  have hstart : Run SparingStep (Writers.start 0 0 (irtShmInitOwner 4 1 1) : Clients Bool) _ _ :=
    .start
  have hcall := hstart.next (Writers.allowed_move
    (.call true (.write 0 1 [7, 0, 0, 0] 0 0 9) rfl (by decide +kernel)) nofun)
  have hload := hcall.next (Writers.allowed_move (.spin true rfl rfl) nofun)
  obtain ⟨_, -, hother⟩ := Writers.run_alone false (WriterOp.write 0 1 [8, 0, 0, 0] 0 0 10)
    hload rfl (by decide +kernel) rfl trivial
  have hlost := hother.next (Writers.allowed_move (.spin true rfl rfl) nofun)
  obtain ⟨_, -, hwritten⟩ := Writers.run_taking true (WriterOp.write 0 1 [7, 0, 0, 0] 0 0 9) hlost
    rfl rfl trivial
  have hone := hwritten.next (Writers.allowed_count (t := false) rfl)
  have hcounted := hone.next (Writers.allowed_count (t := true) rfl)
  exact ⟨_, _, hcounted, by decide +kernel, by decide +kernel, by decide +kernel,
    by decide +kernel, serialized_of_sparing rfl (by decide) hcounted (by decide +kernel)⟩

/-- The name of one letter. -/
def letter (c : UInt8) : CStr := CStr.ofBytes [c]

/-- A fresh segment for four points, after eight insertions have filled its index. -/
def crowdedSegment : Segment :=
  ((List.range 8).map fun i => letter (UInt8.ofNat (97 + i))).foldl
    (fun seg name => (irtIndexInsert (irtShmRequest 4 1) seg 0 name 0).2) (irtShmInitOwner 4 1 1)

/-- The ninth insertion, with another partition. -/
def ninthInsert : WriterOp := .indexInsert (irtShmRequest 4 1) 5 (letter 105) 0

/-- Insertions that find the index full are not undone, so the writers of a segment
are not serialized. -/
theorem not_serialized :
    ¬ ∀ (w₀ stats₀ : Nat) (seg₀ : Segment) (past : List (Clients Unit)) (s : Clients Unit),
      w₀ % 2 = 0 → stats₀ < 2 ^ 64 →
      Run (Writers.Step WriterOp.job) (Writers.start w₀ stats₀ seg₀) past s →
      w₀ + 2 * s.begun < 2 ^ 64 → Serialized stats₀ seg₀ past s := by
  intro hall
  have hstart : Run (Writers.AllowedStep WriterOp.job fun _ _ => True)
      (Writers.start 0 0 crowdedSegment : Clients Unit) _ _ := .start
  obtain ⟨past, -, hrun⟩ := Writers.run_alone () ninthInsert hstart rfl rfl rfl trivial
  have hser := hall 0 0 crowdedSegment past _ rfl (by decide)
    (hrun.mono fun _ _ h => h.1) (by decide)
  have hresult : (ninthInsert.job.body.run crowdedSegment).1 = .returns .errFull := by
    decide +kernel
  have hserial := hser.serial (by
    rintro t ⟨op, e, rest, hat⟩
    simp [Writers.ran, ninthInsert, WriterOp.job] at hat)
  have hpartition := congrArg (fun seg => (seg.points 0).partition) hserial
  revert hpartition
  simp only [Writers.ran, Writers.start, appliedInOrder, Sections.applied, hresult]
  decide +kernel

end InduRtdb.Core
