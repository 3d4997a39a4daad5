/-
  Api/ReplayFile.lean --- replaying a file of arbitrary bytes into the registry.

  Source: `irt_delta_replay` of `src/core/irt_delta.c`, with the callback
  `delta_apply` of `src/api/indurtdb.c`.

  The handle has its own log taken away while the replay runs, as
  `indurtdb_h_delta_replay` does it.
-/
import InduRtdb.Api.DeltaReplay
import InduRtdb.Api.RecordSafety

set_option autoImplicit false

namespace InduRtdb.Api

open InduRtdb.Core InduRtdb.Lib

/-- What a record does to the registry. -/
def applied (r : RawRec) (h : IndurtdbH) : IndurtdbH := (deltaApply r.fields h).2

/-- However the reads come out, the replay of a file ends without a stray access: it
hands over the longest prefix of recognised records, once and in order, and returns
their number, or -1 where it comes to a read that fails. -/
def ReplaysSafely (h : IndurtdbH) (file : DeltaFile) : Prop :=
  ∀ outcomes, DeltaFile.irtDeltaReplay Raw.deltaApply (some file) outcomes { h with delta := none } =
    ⟨.returned (DeltaFile.result file.fails file.readable), validPrefix file.readable,
      (validPrefix file.readable).foldl (fun h r => applied r h) { h with delta := none }⟩

theorem irtDeltaReplay_applied (h : IndurtdbH) (file : DeltaFile) (outcomes : List ReadOutcome) :
    DeltaFile.irtDeltaReplay Raw.deltaApply (some file) outcomes { h with delta := none } =
        ⟨.returned (DeltaFile.result file.fails file.readable), validPrefix file.readable,
          (validPrefix file.readable).foldl (fun h r => applied r h) { h with delta := none }⟩ ↔
      SafeAll Raw.StepSafe applied { h with delta := none } (validPrefix file.readable) :=
  DeltaFile.irtDeltaReplay_iff (fun _ h hrec => Raw.deltaApply_yields hrec h) file outcomes _

theorem irtDeltaReplay_ends (h : IndurtdbH) (file : DeltaFile) (outcomes : List ReadOutcome) :
    (DeltaFile.irtDeltaReplay Raw.deltaApply (some file) outcomes
      { h with delta := none }).ended ≠ .running :=
  DeltaFile.irtDeltaReplay_ends (fun _ h hrec => Raw.deltaApply_yields hrec h) file outcomes _

/-- A file is replayed safely exactly where each record it hands over is safe in the
registry the ones before it have left. -/
theorem replaysSafely_iff (h : IndurtdbH) (file : DeltaFile) :
    ReplaysSafely h file ↔
      SafeAll Raw.StepSafe applied { h with delta := none } (validPrefix file.readable) := by
  constructor
  · exact fun hsafe => (irtDeltaReplay_applied h file []).mp (hsafe [])
  · exact fun hall outcomes => (irtDeltaReplay_applied h file outcomes).mpr hall

/-- The record of a creation whose name fills its array without a NUL. -/
def endlessName : List UInt8 :=
  [0x41, 0x54, 0x4C, 0x44, 1, 0, 1, 0, 0, 0, 0, 0, 0, 1, 0, 0] ++ List.replicate 64 97

/-- Such a record is enough to read on behind it. -/
theorem endlessName_faults : ¬ ReplaysSafely (baseHandle 1 1 1 []) ⟨endlessName, none⟩ := by
  intro hsafe
  have hended := congrArg Replayed.ended (hsafe [])
  have hfault : (DeltaFile.irtDeltaReplay Raw.deltaApply (some ⟨endlessName, none⟩) []
      { baseHandle 1 1 1 [] with delta := none }).ended = .fault := by decide +kernel
  rw [hfault] at hended
  cases hended

/-- The replay of `Api/Registry` does to the registry what the records of the longest
valid prefix do. -/
theorem indurtdbHDeltaReplay_validPrefix (h : IndurtdbH) (file : List UInt8) :
    indurtdbHDeltaReplay h file =
      ((validPrefix file).length,
        { (validPrefix file).foldl (fun h r => applied r h) { h with delta := none } with
          delta := h.delta }) := by
  have hreplay : irtDeltaReplay deltaApply file { h with delta := none } =
      ((validPrefix file).length,
        (validPrefix file).foldl (fun h r => applied r h) { h with delta := none }) :=
    irtDeltaReplay_eq file _ fun _ h hrec => deltaApply_recognised hrec h
  rw [indurtdbHDeltaReplay, hreplay]

/-! ## Names that end -/

/-- The body leaves entries of points below `n` only. -/
def KeepsEntries {α : Type} (n : Nat) (body : Segment → α × Segment) : Prop :=
  ∀ seg, EntriesBelow n seg.slots → EntriesBelow n (body seg).2.slots

theorem keepsEntries_withWriteLock {n : Nat} {body : Segment → Rc × Segment}
    (h : KeepsEntries n body) : KeepsEntries n fun seg => withWriteLock seg body := by
  intro seg hbelow
  dsimp only
  rcases withWriteLock_cases seg body with ⟨_, heq⟩ | ⟨_, w, w', _, heq⟩
  · rw [heq]
    exact hbelow
  · rw [heq]
    exact h (seg.setWriteSeq w) hbelow

theorem keepsEntries_insert (s : IrtShm) (partition : UInt32) (name : CStr) (id : Nat) :
    KeepsEntries s.maxPoints fun seg => irtIndexInsertLocked s seg partition name id := by
  intro seg hbelow
  dsimp only
  unfold irtIndexInsertLocked
  split
  · exact hbelow
  · split
    · exact hbelow
    · split
      · exact hbelow
      · rename_i hargs
        have hid : id < s.maxPoints := Nat.not_le.mp (not_or.mp hargs).2
        dsimp only
        split
        · exact hbelow.update fun _ => hid
        · exact hbelow.update fun _ => hid
        · exact hbelow

theorem keepsEntries_register (partition : UInt32) (id : Nat) (name : CStr)
    (type access : UInt8) {n : Nat} :
    KeepsEntries n fun seg => registerLocked seg partition id name type access := by
  intro seg hbelow
  dsimp only
  unfold registerLocked
  split <;> exact hbelow

theorem keepsEntries_remove (s : IrtShm) (partition : UInt32) (name : CStr) :
    KeepsEntries s.maxPoints fun seg => irtIndexRemoveLocked s seg partition name := by
  intro seg hbelow
  dsimp only
  unfold irtIndexRemoveLocked
  split
  · exact hbelow
  · split
    · exact hbelow
    · split
      · exact hbelow
      · split
        · exact hbelow
        · exact hbelow.update fun hlive => absurd rfl hlive.2

theorem keepsEntries_delete (s : IrtShm) (partition : UInt32) (id : Nat) :
    KeepsEntries s.maxPoints fun seg => deleteLocked s seg partition id := by
  intro seg hbelow
  dsimp only
  unfold deleteLocked
  split
  · exact hbelow
  · split
    · exact hbelow
    · exact keepsEntries_remove s _ _ seg hbelow

theorem keepsEntries_rename (s : IrtShm) (partition : UInt32) (id : Nat) (name : CStr) :
    KeepsEntries s.maxPoints fun seg => renameLocked s seg partition id name := by
  intro seg hbelow
  dsimp only
  unfold renameLocked
  split
  · exact hbelow
  · split
    · exact hbelow
    · have hinserted := keepsEntries_insert s partition name id seg hbelow
      dsimp only at hinserted
      generalize irtIndexInsertLocked s seg partition name id = inserted at hinserted ⊢
      obtain ⟨rc, seg'⟩ := inserted
      cases rc with
      | ok => exact keepsEntries_remove s partition _ seg' hinserted
      | _ => exact hinserted

/-- The handle's index has entries of points of the handle only. -/
def OwnEntries (h : IndurtdbH) : Prop := EntriesBelow h.shm.maxPoints h.seg.slots

section Operations

variable {h : IndurtdbH} (hown : OwnEntries h)
include hown

theorem create_ownEntries (partition : UInt32) (id : Nat) (name : CStr) (type access : Int) :
    OwnEntries (indurtdbHCreatePointIn h partition id name type access).2 := by
  unfold indurtdbHCreatePointIn
  split
  · exact hown
  · split
    · exact hown
    · split
      · exact hown
      · split
        · exact hown
        · split
          · exact hown
          · have hregistered : EntriesBelow h.shm.maxPoints
                (withWriteLock h.seg fun seg => registerLocked seg partition id name
                  (.ofNat type.toNat) (.ofNat access.toNat)).2.slots :=
              keepsEntries_withWriteLock (keepsEntries_register partition id name _ _) h.seg hown
            generalize withWriteLock h.seg (fun seg => registerLocked seg partition id name
              (.ofNat type.toNat) (.ofNat access.toNat)) = registered at hregistered ⊢
            obtain ⟨rc, seg⟩ := registered
            cases rc with
            | ok =>
                have hinserted : EntriesBelow h.shm.maxPoints
                    (irtIndexInsert h.shm seg partition name id).2.slots :=
                  keepsEntries_withWriteLock (keepsEntries_insert h.shm partition name id) seg
                    hregistered
                dsimp only
                generalize irtIndexInsert h.shm seg partition name id = inserted at hinserted ⊢
                obtain ⟨rc, seg'⟩ := inserted
                cases rc with
                | ok =>
                    rw [OwnEntries, deltaLog_shm, deltaLog_seg]
                    exact hinserted
                | _ => exact keepsEntries_withWriteLock (fun _ hbelow => hbelow) seg' hinserted
            | _ => exact hregistered

theorem delete_ownEntries (partition : UInt32) (id : Nat) :
    OwnEntries (indurtdbHDeletePointIn h partition id).2 := by
  unfold indurtdbHDeletePointIn
  split
  · exact hown
  · have hdeleted : EntriesBelow h.shm.maxPoints
        (withWriteLock h.seg fun seg => deleteLocked h.shm seg partition id).2.slots :=
      keepsEntries_withWriteLock (keepsEntries_delete h.shm partition id) h.seg hown
    generalize withWriteLock h.seg (fun seg => deleteLocked h.shm seg partition id) = deleted
      at hdeleted ⊢
    obtain ⟨rc, seg⟩ := deleted
    cases rc with
    | ok =>
        rw [OwnEntries, deltaLog_shm, deltaLog_seg]
        exact hdeleted
    | _ => exact hdeleted

theorem rename_ownEntries (partition : UInt32) (id : Nat) (name : CStr) :
    OwnEntries (indurtdbHRenamePointIn h partition id name).2 := by
  unfold indurtdbHRenamePointIn
  split
  · exact hown
  · split
    · exact hown
    · split
      · exact hown
      · dsimp only
        split
        · exact hown
        · have hrenamed := keepsEntries_rename h.shm partition id name
            (h.seg.setWriteSeq (irtSeqlockWriteBegin h.seg.hdr.writeSeq).2) hown
          dsimp only at hrenamed
          generalize renameLocked h.shm
            (h.seg.setWriteSeq (irtSeqlockWriteBegin h.seg.hdr.writeSeq).2) partition id name =
              renamed at hrenamed ⊢
          obtain ⟨what, seg⟩ := renamed
          cases what with
          | failed rc => exact hrenamed
          | same => exact hrenamed
          | changed =>
              rw [OwnEntries, deltaLog_shm, deltaLog_seg]
              exact hrenamed

/-- Whatever a record holds, it leaves no entry behind the table. -/
theorem applied_ownEntries (r : RawRec) : OwnEntries (applied r h) := by
  unfold applied deltaApply
  split
  · exact create_ownEntries hown _ _ _ _ _
  · split
    · exact delete_ownEntries hown _ _
    · split
      · exact rename_ownEntries hown _ _ _
      · exact hown

end Operations

/-- A search compares points of the handle only. -/
theorem comparesBelow_of_ownEntries {s : IrtShm} {seg : Segment}
    (hbelow : EntriesBelow s.maxPoints seg.slots) (partition : UInt32) (name : CStr) :
    Raw.ComparesBelow s seg partition name := by
  intro slot hslot _
  obtain ⟨d, hcell⟩ := Probe.mem_tested _ 0 hslot
  obtain ⟨hlive, rfl⟩ := IrtIndexSlot.cell_eq_live_iff.mp hcell
  exact hbelow _ (slotIndex_lt _ _ d) hlive

/-- There, a record is safe if its name ends within its array. -/
theorem stepSafe_of_ends {h : IndurtdbH} (hown : OwnEntries h) {r : RawRec}
    (hends : r.fields.op ≠ irtDeltaOpDelete → 0 ∈ r.name) : Raw.StepSafe r h := by
  refine ⟨fun hop _ _ _ _ _ => ⟨hends ?_, comparesBelow_of_ownEntries hown _ _⟩,
    fun _ _ _ _ _ _ => comparesBelow_of_ownEntries hown _ _,
    fun hop _ _ => ⟨fun _ _ => ⟨hends ?_, comparesBelow_of_ownEntries hown _ _⟩,
      fun _ _ => comparesBelow_of_ownEntries (keepsEntries_insert _ _ _ _ _ hown) _ _⟩⟩
  · rw [hop]
    decide
  · rw [hop]
    decide

theorem safeAll_of_ends :
    ∀ (recs : List RawRec) {h : IndurtdbH}, OwnEntries h →
      (∀ r ∈ recs, r.fields.op ≠ irtDeltaOpDelete → 0 ∈ r.name) →
      SafeAll Raw.StepSafe applied h recs := by
  intro recs
  induction recs with
  | nil => exact fun _ _ => trivial
  | cons r recs ih =>
      intro h hown hends
      exact ⟨stepSafe_of_ends hown (hends r List.mem_cons_self),
        ih (applied_ownEntries hown r) fun r hr => hends r (List.mem_cons_of_mem _ hr)⟩

/-- On a handle of its own table, a file is replayed safely if the names of its records
end within their arrays. -/
theorem replaysSafely_of_ends {h : IndurtdbH} {file : DeltaFile} (hown : OwnEntries h)
    (hends : ∀ r ∈ validPrefix file.readable, r.fields.op ≠ irtDeltaOpDelete → 0 ∈ r.name) :
    ReplaysSafely h file :=
  fun outcomes => (irtDeltaReplay_applied h file outcomes).mpr (safeAll_of_ends _ hown hends)

end InduRtdb.Api
