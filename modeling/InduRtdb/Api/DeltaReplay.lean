/-
  Api/DeltaReplay.lean --- what a replay of the delta log restores, and which
  records it sees after crashes.

  Source: `src/api/indurtdb.c` (`delta_log`, `delta_apply`,
  `indurtdb_h_delta_replay`), `src/core/irt_delta.c`, and the start of the
  worker in `rtdbd/src/rtdbd.c`.
-/
import InduRtdb.Api.Changes
import InduRtdb.Api.RegistryRun

set_option autoImplicit false

namespace InduRtdb.Api

open InduRtdb.Core

/-! ## The base registry -/

theorem withWriteLock_even {seg : Segment} {body : Segment → Rc × Segment}
    (h : seg.hdr.writeSeq % 2 = 0) : (withWriteLock seg body).2.hdr.writeSeq % 2 = 0 := by
  rw [withWriteLock_of_even h]
  exact irtSeqlockWriteEnd_even h

theorem configurePoint_even {s : IrtShm} {seg : Segment} {pm : IrtPointMeta}
    (h : seg.hdr.writeSeq % 2 = 0) : (configurePoint s seg pm).2.hdr.writeSeq % 2 = 0 := by
  unfold configurePoint
  dsimp only
  split
  · rename_i seg' hstored
    refine withWriteLock_even ?_
    have hseg : (withWriteLock seg _).2 = seg' := congrArg Prod.snd hstored
    rw [← hseg]
    exact withWriteLock_even h
  · rename_i rc seg' hne hstored
    rw [withWriteLock_of_even h] at hstored
    exact absurd (congrArg Prod.fst hstored).symm hne

theorem irtMetaSet_even {s : IrtShm} {seg : Segment} {id : Nat} {m : IndurtdbMeta}
    (h : seg.hdr.writeSeq % 2 = 0) : (irtMetaSet s seg id m).2.hdr.writeSeq % 2 = 0 := by
  unfold irtMetaSet
  split
  · exact h
  · split
    · exact h
    · exact withWriteLock_even h

/-- Loading a configuration leaves the write lock free. -/
theorem loadConfigLoop_even {s : IrtShm} :
    ∀ (batch : List IrtPointMeta) (overall : Rc) (seg : Segment), seg.hdr.writeSeq % 2 = 0 →
      (loadConfigLoop s batch overall seg).2.hdr.writeSeq % 2 = 0 := by
  intro batch
  induction batch with
  | nil => exact fun _ _ h => h
  | cons pm batch ih =>
      intro overall seg h
      have hpoint : (configurePoint s seg pm).2.hdr.writeSeq % 2 = 0 := configurePoint_even h
      unfold loadConfigLoop
      split
      · exact ih overall seg h
      · split
        · exact ih overall seg h
        · split
          · exact h
          · dsimp only
            split
            · exact hpoint
            · split
              · exact ih _ _ (irtMetaSet_even hpoint)
              · exact ih _ _ hpoint

/-- The handle of a process that has created the segment and loaded a base
configuration. -/
def baseHandle (maxPoints maxSubscribers pid : Nat) (batch : List IrtPointMeta) : IndurtdbH :=
  (indurtdbHLoadConfig (freshHandle maxPoints maxSubscribers pid) batch).2

theorem baseHandle_shm (N M pid : Nat) (batch : List IrtPointMeta) :
    (baseHandle N M pid batch).shm = irtShmRequest N M := by
  unfold baseHandle indurtdbHLoadConfig
  split <;> rfl

theorem baseHandle_even (N M pid : Nat) (batch : List IrtPointMeta) :
    (baseHandle N M pid batch).seg.hdr.writeSeq % 2 = 0 := by
  have hfresh : (freshHandle N M pid).seg.hdr.writeSeq % 2 = 0 := rfl
  unfold baseHandle indurtdbHLoadConfig
  split
  · exact hfresh
  · exact loadConfigLoop_even batch .ok _ hfresh

/-! ## The live registry and its replay -/

/-- Two handles show the same registry: the same registered ids, each with the
same partition, name, type and access, and the same answer to every search. -/
structure SameRegistry (a b : IndurtdbH) : Prop where
  registered : ∀ id, id < a.shm.maxPoints →
    ((a.seg.points id).name = CStr.empty ↔ (b.seg.points id).name = CStr.empty)
  attributes : ∀ id, id < a.shm.maxPoints → (a.seg.points id).name ≠ CStr.empty →
    (a.seg.points id).partition = (b.seg.points id).partition ∧
      (a.seg.points id).name = (b.seg.points id).name ∧
      (a.seg.points id).type = (b.seg.points id).type ∧
      (a.seg.points id).access = (b.seg.points id).access
  found : ∀ (partition : UInt32) (name : CStr),
    indurtdbHFindByNameIn a partition name = indurtdbHFindByNameIn b partition name

/-- If every call of the history succeeds on the base with an empty log, then a
replay of the log on a copy of the base shows the live registry. -/
def DeltaReproduces (base : IndurtdbH) (history : List ChangeOp) : Prop :=
  ∀ (live : IndurtdbH) (file : List UInt8),
    runChanges { base with delta := some [] } history = some live → live.delta = some file →
    SameRegistry live (indurtdbHDeltaReplay { base with delta := none } file).2

/-- Handles with the same tables show the same registry. -/
theorem SameRegistry.of_tables {s : IrtShm} {seg : Segment} {w w' : Nat} (hw : w % 2 = 0)
    (hw' : w' % 2 = 0) (delta delta' : Option (List UInt8)) :
    SameRegistry ⟨s, seg.setWriteSeq w, delta⟩ ⟨s, seg.setWriteSeq w', delta'⟩ where
  registered _ _ := Iff.rfl
  attributes _ _ _ := ⟨rfl, rfl, rfl, rfl⟩
  found partition name := by
    simp only [indurtdbHFindByNameIn, irtIndexLookup_blind s seg partition name hw hw']

/-- Every history in partition 0 whose names fit their arrays is reproduced from
its log, on every base registry. -/
theorem delta_reproduces_plain (maxPoints : UInt32) (maxSubscribers pid : Nat)
    (batch : List IrtPointMeta) (history : List ChangeOp)
    (hplain : ∀ op ∈ history, op.Plain) :
    DeltaReproduces (baseHandle maxPoints.toNat maxSubscribers pid batch) history := by
  intro live file hrun hfile
  have hshm := baseHandle_shm maxPoints.toNat maxSubscribers pid batch
  have heven := baseHandle_even maxPoints.toNat maxSubscribers pid batch
  generalize baseHandle maxPoints.toNat maxSubscribers pid batch = base at *
  obtain ⟨s, seg, delta⟩ := base
  obtain rfl : s = irtShmRequest maxPoints.toNat maxSubscribers := hshm
  have hsize : (irtShmRequest maxPoints.toNat maxSubscribers).maxPoints ≤ 2 ^ 32 :=
    Nat.le_of_lt maxPoints.toNat_lt
  obtain ⟨seg', w', recs, hw', rfl, hrecs, hreplay⟩ :=
    runChanges_logged hsize history seg seg.hdr.writeSeq [] live heven hplain hrun
  obtain rfl : recs.flatMap IrtDeltaRec.toBytes = file := Option.some.inj hfile
  obtain ⟨v', hv', heq⟩ := hreplay seg.hdr.writeSeq heven
  rw [indurtdbHDeltaReplay_records hrecs]
  have heq' : replayOps ⟨irtShmRequest maxPoints.toNat maxSubscribers, seg, none⟩
      (loggedOps ⟨irtShmRequest maxPoints.toNat maxSubscribers,
        seg.setWriteSeq seg.hdr.writeSeq, some []⟩ history) =
        ⟨irtShmRequest maxPoints.toNat maxSubscribers, seg'.setWriteSeq v', none⟩ := heq
  dsimp only
  rw [heq']
  exact SameRegistry.of_tables hw' hv' _ _

/-- A creation, a renaming and a deletion on an empty base. -/
theorem delta_reproduces_plain_example :
    DeltaReproduces (baseHandle 2 1 1 [])
      [.create 0 0 ⟨[97], by decide⟩ 0 1, .rename 0 0 ⟨[98], by decide⟩, .delete 0 0] :=
  delta_reproduces_plain 2 1 1 [] _ (by decide)

/-- A search evaluated on the live registry and on the replayed one. -/
theorem DeltaReproduces.same_find {base : IndurtdbH} {history : List ChangeOp}
    (h : DeltaReproduces base history) (partition : UInt32) (name : CStr) :
    ((runChanges { base with delta := some [] } history).bind fun live =>
      live.delta.map fun file =>
        decide ((indurtdbHFindByNameIn live partition name).toOption =
          (indurtdbHFindByNameIn (indurtdbHDeltaReplay { base with delta := none } file).2
            partition name).toOption)) ≠ some false := by
  cases hlive : runChanges { base with delta := some [] } history with
  | none => simp
  | some live =>
      cases hfile : live.delta with
      | none => simp [hfile]
      | some file => simp [hfile, (h live file hlive hfile).found partition name]

/-- Two histories that are not reproduced: a creation in partition 5, which is
replayed in partition 0, and a creation under 64 bytes of name, which is found
under all of them until its record is replayed with 63. -/
theorem not_delta_reproduces :
    ¬ DeltaReproduces (baseHandle 1 1 1 []) [.create 5 0 ⟨[97], by decide⟩ 0 1] ∧
      ¬ DeltaReproduces (baseHandle 1 1 1 [])
        [.create 0 0 ⟨List.replicate 64 97, by decide⟩ 0 1] :=
  ⟨fun h => h.same_find 5 ⟨[97], by decide⟩ (by decide +kernel),
    fun h => h.same_find 0 ⟨List.replicate 64 97, by decide⟩ (by decide +kernel)⟩

/-! ## Crashes of the appending process -/

/-- One append to the log: a record of the kind `delta_log` builds, and how many
of its eighty bytes reach the file. -/
structure Append where
  record : IrtDeltaRec
  written : Nat
  fits : record.Fits
  recognised : record.Recognised
  written_le : written ≤ sizeofDeltaRec

/-- The file after an append. -/
def Append.file (file : List UInt8) (a : Append) : List UInt8 :=
  (irtDeltaAppend file a.record a.written).1

/-- The file after some rounds of the daemon, from an empty log. -/
def fileAfter (rounds : List (List Append)) : List UInt8 :=
  rounds.flatten.foldl Append.file []

/-- The records appended completely in some rounds. -/
def completed (rounds : List (List Append)) : List IrtDeltaRec :=
  (rounds.flatten.filter fun a => a.written == sizeofDeltaRec).map Append.record

/-- A replay of the file hands over exactly these records, once and in order,
and the daemon applies them. -/
structure ReplaysExactly (file : List UInt8) (recs : List IrtDeltaRec) : Prop where
  handed : irtDeltaReplay (fun rec seen => (true, seen ++ [rec])) file [] = (recs.length, recs)
  applied : ∀ h : IndurtdbH, indurtdbHDeltaReplay h file =
    (recs.length,
      { recs.foldl (fun h rec => (deltaApply rec h).2) { h with delta := none } with
        delta := h.delta })

/-- Every append starts at a multiple of the record size. -/
def AppendsAligned (rounds : List (List Append)) : Prop :=
  ∀ before a after, rounds.flatten = before ++ a :: after →
    (before.foldl Append.file []).length % sizeofDeltaRec = 0

/-- `delta_apply` accepts every record a replay hands to it. -/
theorem deltaApply_recognised {rec : IrtDeltaRec} (h : rec.Recognised) (ctx : IndurtdbH) :
    deltaApply rec ctx = (true, (deltaApply rec ctx).2) := by
  obtain ⟨_, _, hop⟩ := h
  rcases hop with hop | hop | hop <;> simp [deltaApply, hop]

theorem foldl_append_singleton (recs seen : List IrtDeltaRec) :
    recs.foldl (fun seen rec => seen ++ [rec]) seen = seen ++ recs := by
  induction recs generalizing seen with
  | nil => simp
  | cons rec recs ih => rw [List.foldl_cons, ih, List.append_assoc, List.singleton_append]

/-- A file made of whole records and a short tail is replayed exactly. -/
theorem replaysExactly_of_records {recs : List IrtDeltaRec} {tail : List UInt8}
    (hrecs : ∀ rec ∈ recs, rec.Fits ∧ rec.Recognised) (htail : tail.length < sizeofDeltaRec) :
    ReplaysExactly (recs.flatMap IrtDeltaRec.toBytes ++ tail) recs where
  handed := by
    have hreplay : irtDeltaReplay (fun rec seen => (true, seen ++ [rec]))
        (recs.flatMap IrtDeltaRec.toBytes ++ tail) [] =
          (recs.length, recs.foldl (fun seen rec => seen ++ [rec]) []) :=
      irtDeltaReplay_records recs tail []
        (fun rec hrec => ⟨(hrecs rec hrec).1, (hrecs rec hrec).2, fun _ => rfl⟩) htail
    rw [hreplay, foldl_append_singleton, List.nil_append]
  applied h := by
    have hreplay : irtDeltaReplay deltaApply (recs.flatMap IrtDeltaRec.toBytes ++ tail)
        { h with delta := none } =
          (recs.length, recs.foldl (fun h rec => (deltaApply rec h).2) { h with delta := none }) :=
      irtDeltaReplay_records recs tail { h with delta := none }
        (fun rec hrec => ⟨(hrecs rec hrec).1, (hrecs rec hrec).2,
          deltaApply_recognised (hrecs rec hrec).2⟩) htail
    simp only [indurtdbHDeltaReplay, hreplay]

/-- Aligned appends leave whole records and at most one torn one, at the end. -/
theorem foldl_append_aligned :
    ∀ appends : List Append,
      (∀ before a after, appends = before ++ a :: after →
        (before.foldl Append.file []).length % sizeofDeltaRec = 0) →
      ∃ tail, tail.length < sizeofDeltaRec ∧ appends.foldl Append.file [] =
        ((appends.filter fun a => a.written == sizeofDeltaRec).map Append.record).flatMap
          IrtDeltaRec.toBytes ++ tail := by
  intro appends
  induction appends using List.reverseRecOn with
  | nil => exact fun _ => ⟨[], by decide, rfl⟩
  | append_singleton appends a ih =>
      intro haligned
      obtain ⟨tail, htail, hfile⟩ := ih fun before b after heq =>
        haligned before b (after ++ [a]) (by rw [heq, List.append_assoc, List.cons_append])
      have hboundary := haligned appends a [] rfl
      have hrecs := length_flatMap_toBytes
        ((appends.filter fun a => a.written == sizeofDeltaRec).map Append.record) (by
          intro rec hrec
          obtain ⟨b, _, rfl⟩ := List.mem_map.mp hrec
          exact b.fits)
      -- the append starts on a boundary, so there was no torn tail
      have hempty : tail = [] := by
        rw [hfile, List.length_append] at hboundary
        refine List.length_eq_zero_iff.mp ?_
        simp only [sizeofDeltaRec] at *
        omega
      subst hempty
      have hlen := IrtDeltaRec.length_toBytes a.fits.name
      rw [List.foldl_append, hfile, List.append_nil, List.filter_append, List.map_append,
        List.flatMap_append]
      by_cases hfull : a.written = sizeofDeltaRec
      · refine ⟨[], by decide, ?_⟩
        simp only [List.foldl_cons, List.foldl_nil, Append.file, irtDeltaAppend, hfull, ← hlen,
          List.take_length, List.filter_cons, beq_self_eq_true, if_true, List.filter_nil,
          List.map_cons, List.map_nil, List.flatMap_cons, List.flatMap_nil, List.append_nil]
      · have hlt : a.written < sizeofDeltaRec := Nat.lt_of_le_of_ne a.written_le hfull
        refine ⟨a.record.toBytes.take a.written, ?_, ?_⟩
        · rw [List.length_take]
          omega
        · simp only [List.foldl_cons, List.foldl_nil, Append.file, irtDeltaAppend,
            List.filter_cons, beq_eq_false_iff_ne.mpr hfull, Bool.false_eq_true, if_false,
            List.filter_nil, List.map_nil, List.flatMap_nil, List.append_nil]

/-- As long as every append starts at a record boundary, the replay at the start
of every round applies exactly the records completed in the rounds before. -/
theorem replaysExactly_of_aligned (rounds : List (List Append)) (haligned : AppendsAligned rounds)
    (k : Nat) : ReplaysExactly (fileAfter (rounds.take k)) (completed (rounds.take k)) := by
  have hsplit : rounds.flatten = (rounds.take k).flatten ++ (rounds.drop k).flatten := by
    rw [← List.flatten_append, List.take_append_drop]
  obtain ⟨tail, htail, hfile⟩ := foldl_append_aligned (rounds.take k).flatten
    fun before a after heq =>
      haligned before a (after ++ (rounds.drop k).flatten) (by
        rw [hsplit, heq, List.append_assoc, List.cons_append])
  rw [fileAfter, hfile]
  refine replaysExactly_of_records ?_ htail
  intro rec hrec
  obtain ⟨a, _, rfl⟩ := List.mem_map.mp hrec
  exact ⟨a.fits, a.recognised⟩

/-- The append of a creation. -/
def Append.create (id : UInt32) (name : CStr) (written : Nat)
    (hwritten : written ≤ sizeofDeltaRec) : Append where
  record := deltaRec irtDeltaOpCreate id.toNat 6 1 name
  written := written
  fits := deltaRec_fits (by decide) id.toNat_lt _ _ _
  recognised := ⟨rfl, rfl, Or.inl rfl⟩
  written_le := hwritten

/-- Two creations in the first round, the second one torn by the crash. -/
theorem replaysExactly_of_aligned_torn :
    ReplaysExactly
      (fileAfter ([[.create 1 ⟨[97], by decide⟩ 80 (by decide),
        .create 2 ⟨[98], by decide⟩ 30 (by decide)]].take 1))
      (completed ([[.create 1 ⟨[97], by decide⟩ 80 (by decide),
        .create 2 ⟨[98], by decide⟩ 30 (by decide)]].take 1)) := by
  refine replaysExactly_of_aligned _ ?_ 1
  intro before a after heq
  have hlen := congrArg List.length heq
  simp only [List.flatten_cons, List.flatten_nil, List.append_nil, List.length_cons,
    List.length_nil, List.length_append] at hlen
  rcases before with _ | ⟨b, _ | ⟨c, rest⟩⟩
  · rfl
  · obtain rfl := (List.cons.inj heq).1
    decide +kernel
  · simp only [List.length_cons] at hlen
    omega

/-- The replay at the start of every round applies exactly the records completed
in the rounds before, whatever was torn. -/
def LogSurvivesCrashes : Prop :=
  ∀ rounds : List (List Append), ReplaysExactly (fileAfter rounds) (completed rounds)

/-- A record appended behind thirty bytes of a torn one: the replay takes eighty
bytes of the two and applies the creation of a point nobody completed. -/
theorem not_logSurvivesCrashes : ¬ LogSurvivesCrashes := by
  intro h
  have hexact := h [[.create 1 ⟨[97], by decide⟩ 30 (by decide)],
    [.create 2 ⟨[98], by decide⟩ 80 (by decide)]]
  have hids := congrArg (fun res => res.2.map IrtDeltaRec.pointId) hexact.handed
  exact absurd hids (by decide +kernel)

end InduRtdb.Api
