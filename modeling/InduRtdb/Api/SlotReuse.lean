/-
  Api/SlotReuse.lean --- what a new point finds in a slot that was used before.

  Source: `h_point_register`, `indurtdb_h_create_point_in` and
  `indurtdb_h_delete_point_in` of `src/api/indurtdb.c`.

  A deletion takes the name away and nothing else.  A registration writes the static
  attributes, the value and the quality, but neither the time stamps nor the metadata:
  these are what the last occupant, or a write to the free slot, has left.
-/
import InduRtdb.Api.Frames
import InduRtdb.Api.RegistryRun

set_option autoImplicit false

namespace InduRtdb.Api

open InduRtdb.Core

/-! ## Reachable states -/

/-- The calls that change records and metadata. -/
inductive SlotCall where
  | create (partition : UInt32) (id : Nat) (name : CStr) (type access : Int)
  | delete (partition : UInt32) (id : Nat)
  | rename (partition : UInt32) (id : Nat) (name : CStr)
  | loadConfig (batch : List IrtPointMeta)
  | setMeta (id : Nat) (m : IndurtdbMeta)
  | write (id : Nat) (type : UInt8) (value : List UInt8) (sourceTsNs : Nat) (quality : UInt8)
      (now : Nat)

/-- Make the call through a handle. -/
def SlotCall.run (h : IndurtdbH) : SlotCall → IndurtdbH
  | create partition id name type access =>
      (indurtdbHCreatePointIn h partition id name type access).2
  | delete partition id => (indurtdbHDeletePointIn h partition id).2
  | rename partition id name => (indurtdbHRenamePointIn h partition id name).2
  | loadConfig batch => (indurtdbHLoadConfig h batch).2
  | setMeta id m => (indurtdbHSetMeta h id m).2
  | write id type value sourceTsNs quality now =>
      (indurtdbHWriteQualityTs h id type value sourceTsNs quality now).2

/-- The handle of a process that created its segment and made some calls. -/
def Reached (h : IndurtdbH) : Prop :=
  ∃ (maxPoints maxSubscribers pid : Nat) (calls : List SlotCall),
    h = calls.foldl SlotCall.run (freshHandle maxPoints maxSubscribers pid)

/-! ## The slot of a new point -/

/-- Two segments have the same record and the same metadata for an id. -/
structure SameSlot (id : Nat) (seg seg' : Segment) : Prop where
  record : seg.points id = seg'.points id
  semantics : seg.metas id = seg'.metas id

/-- Registration keeps the time stamps and nothing else of a record. -/
theorem registered_eq_iff (old old' : IndurtdbPoint) (partition : UInt32) (name : CStr)
    (type access : UInt8) :
    registered old partition name type access = registered old' partition name type access ↔
      old.timestampNs = old'.timestampNs ∧ old.sourceTimestampNs = old'.sourceTimestampNs := by
  simp [registered]

/-- **What a reused slot carries over.**  Two creations with the same arguments leave the
same record and the same metadata exactly when the slots held the same time stamps and
the same metadata before. -/
theorem sameSlot_iff {h h' : IndurtdbH} {partition : UInt32} {id : Nat} {name : CStr}
    {type access : Int} (hok : (indurtdbHCreatePointIn h partition id name type access).1 = .ok)
    (hok' : (indurtdbHCreatePointIn h' partition id name type access).1 = .ok) :
    SameSlot id (indurtdbHCreatePointIn h partition id name type access).2.seg
        (indurtdbHCreatePointIn h' partition id name type access).2.seg ↔
      (h.seg.points id).timestampNs = (h'.seg.points id).timestampNs ∧
        (h.seg.points id).sourceTimestampNs = (h'.seg.points id).sourceTimestampNs ∧
        h.seg.metas id = h'.seg.metas id := by
  obtain ⟨-, -, -, -, -, -, hstores⟩ := (create_stores h partition id name type access).done hok
  obtain ⟨-, -, -, -, -, -, hstores'⟩ :=
    (create_stores h' partition id name type access).done hok'
  have hrecord := registered_eq_iff (h.seg.points id) (h'.seg.points id) partition name
    (.ofNat type.toNat) (.ofNat access.toNat)
  rw [← hstores.at_id, ← hstores'.at_id] at hrecord
  constructor
  · intro hsame
    obtain ⟨htimestamp, hsource⟩ := hrecord.mp hsame.record
    refine ⟨htimestamp, hsource, ?_⟩
    rw [← hstores.metas, ← hstores'.metas]
    exact hsame.semantics
  · intro hbefore
    obtain ⟨htimestamp, hsource, hmeta⟩ := hbefore
    refine ⟨hrecord.mpr ⟨htimestamp, hsource⟩, ?_⟩
    rw [hstores.metas, hstores'.metas]
    exact hmeta

/-- The name of one letter. -/
def letterA : CStr := ⟨[97], by decide⟩

/-- A point that was written at time 100 and deleted. -/
def usedBefore : List SlotCall :=
  [.create 0 0 letterA 1 3, .write 0 1 [7, 0, 0, 0] 90 0 100, .delete 0 0]

/-- Another point, written at the same time and deleted. -/
def usedOtherwise : List SlotCall :=
  [.create 5 0 ⟨[98], by decide⟩ 3 3, .write 0 3 [1, 2, 3, 4, 5, 6, 7, 8] 90 2 100, .delete 5 0]

/-- Of what was in the slot only the time shows. -/
theorem sameSlot_iff_usedBefore :
    SameSlot 0
        (indurtdbHCreatePointIn (usedBefore.foldl SlotCall.run (freshHandle 2 1 7)) 0 0 letterA 1
          3).2.seg
        (indurtdbHCreatePointIn (usedOtherwise.foldl SlotCall.run (freshHandle 4 1 7)) 0 0 letterA
          1 3).2.seg ∧
      ¬ SameSlot 0
        (indurtdbHCreatePointIn (usedBefore.foldl SlotCall.run (freshHandle 2 1 7)) 0 0 letterA 1
          3).2.seg
        (indurtdbHCreatePointIn (freshHandle 2 1 7) 0 0 letterA 1 3).2.seg :=
  ⟨(sameSlot_iff (by decide +kernel) (by decide +kernel)).mpr (by decide +kernel),
    mt (sameSlot_iff (by decide +kernel) (by decide +kernel)).mp (by decide +kernel)⟩

/-- A point created behind it takes over its time stamp. -/
theorem not_sameSlot :
    ¬ ∀ (h h' : IndurtdbH) (partition : UInt32) (id : Nat) (name : CStr) (type access : Int),
      Reached h → Reached h' →
      (indurtdbHCreatePointIn h partition id name type access).1 = .ok →
      (indurtdbHCreatePointIn h' partition id name type access).1 = .ok →
      SameSlot id (indurtdbHCreatePointIn h partition id name type access).2.seg
        (indurtdbHCreatePointIn h' partition id name type access).2.seg := by
  intro hall
  have hsame := hall (freshHandle 2 1 7) (usedBefore.foldl SlotCall.run (freshHandle 2 1 7)) 0 0
    letterA 1 3 ⟨2, 1, 7, [], rfl⟩ ⟨2, 1, 7, usedBefore, rfl⟩ (by decide +kernel)
    (by decide +kernel)
  have htimestamp := congrArg IndurtdbPoint.timestampNs hsame.record
  revert htimestamp
  decide +kernel

end InduRtdb.Api
