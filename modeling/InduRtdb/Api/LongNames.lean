/-
  Api/LongNames.lean --- names that are longer than the record.

  Source: `irt_index_compose_hash`, `irt_index_slot_matches` and
  `irt_index_insert_locked` of `src/core/irt_index.c`; `h_point_register`,
  `indurtdb_h_create_point_in`, `indurtdb_h_rename_point_in` and
  `indurtdb_h_delete_point_in` of `src/api/indurtdb.c`.

  A record keeps 63 bytes of a name, and names are compared on 63 bytes.  The hash is
  taken of whatever string a call is given: of the whole name when a point gets it, and
  of the 63 bytes when the entry is to be removed.
-/
import InduRtdb.Api.SlotReuse
import InduRtdb.Api.TwoHandles

set_option autoImplicit false

namespace InduRtdb.Api

open InduRtdb.Core InduRtdb.Lib InduRtdb.Spec

/-! ## Hashes of names that differ behind the record -/

/-- The name with one more byte. -/
def longer (name : CStr) (byte : UInt8) (hbyte : byte ≠ 0) : CStr where
  bytes := name.bytes ++ [byte]
  nulFree := by
    intro hmem
    rcases List.mem_append.mp hmem with hin | hin
    · exact name.nulFree hin
    · exact hbyte (List.mem_singleton.mp hin).symm

/-- A name that fills the record is stored as before with a byte more. -/
theorem strncpy_longer {name : CStr} {byte : UInt8} (hbyte : byte ≠ 0)
    (hfull : name.bytes.length = nameMax) : (longer name byte hbyte).strncpy nameMax = name := by
  apply CStr.ext_bytes
  change (name.bytes ++ [byte]).take nameMax = name.bytes
  rw [← hfull, List.take_left]

/-- Multiplication by the prime can be undone. -/
theorem mul_fnvPrime_injective {a b : UInt32} (h : a * fnvPrime = b * fnvPrime) : a = b := by
  have hinverse : fnvPrime * 0x359C449B = 1 := by decide
  have hboth := congrArg (· * (0x359C449B : UInt32)) h
  simp only [UInt32.mul_assoc, hinverse, UInt32.mul_one] at hboth
  exact hboth

/-- So can the mixing of a word with its own upper bits: the bits come back from the top
down. -/
theorem xor_ushiftRight_injective {w k : Nat} (hk : 0 < k) {a b : BitVec w}
    (h : a ^^^ (a >>> k) = b ^^^ (b >>> k)) : a = b := by
  have hbits : ∀ n i, w ≤ i + n → a.getLsbD i = b.getLsbD i := by
    intro n
    induction n with
    | zero =>
        intro i hi
        rw [BitVec.getLsbD_of_ge a i hi, BitVec.getLsbD_of_ge b i hi]
    | succ n ih =>
        intro i hi
        have habove := ih (k + i) (by omega)
        have hbit := congrArg (·.getLsbD i) h
        simp only [BitVec.getLsbD_xor, BitVec.getLsbD_ushiftRight, habove] at hbit
        exact Bool.xor_left_inj.mp hbit
  apply BitVec.eq_of_getLsbD_eq
  exact fun i _ => hbits w i (by omega)

theorem xor_shiftRight_injective {a b k : UInt32} (hk : 0 < k.toNat % 32)
    (h : a ^^^ (a >>> k) = b ^^^ (b >>> k)) : a = b := by
  apply UInt32.eq_of_toBitVec_eq
  apply xor_ushiftRight_injective hk
  simpa using congrArg UInt32.toBitVec h

/-- The byte a name ends in shows in its hash. -/
theorem irtIndexComposeHash_longer_ne (partition : UInt32) (name : CStr) :
    irtIndexComposeHash partition (longer name 1 (by decide)) ≠
      irtIndexComposeHash partition (longer name 2 (by decide)) := by
  intro heq
  unfold irtIndexComposeHash longer at heq
  simp only [List.foldl_append, List.foldl_cons, List.foldl_nil] at heq
  have hmixed := xor_shiftRight_injective (by decide) (mul_fnvPrime_injective heq)
  have hlast := xor_shiftRight_injective (by decide) (mul_fnvPrime_injective hmixed)
  have hbyte : (1 : UInt8).toUInt32 = (2 : UInt8).toUInt32 :=
    (UInt32.xor_right_inj _).mp (mul_fnvPrime_injective hlast)
  revert hbyte
  decide

/-! ## What finding and deleting see of the index -/

/-- A name that is found has an entry of its own hash. -/
theorem find_entry {h : IndurtdbH} {partition : UInt32} {name : CStr} {id : Nat}
    (hfound : indurtdbHFindByNameIn h partition name = .ok id) :
    ∃ i, i < irtLayoutBuckets h.shm.maxPoints ∧ (h.seg.slots i).Live ∧
      (h.seg.slots i).pointId = id ∧
        (h.seg.slots i).hash = irtIndexComposeHash partition name := by
  have hattempts : ∀ (ix : IrtIndex) (n : Nat),
      irtIndexLookupAttempts ix h.seg partition name n = .ok id →
        irtIndexProbe ix h.seg partition name = .ok id := by
    intro ix n
    induction n with
    | zero => exact fun hbusy => by cases hbusy
    | succ n ih =>
        intro hok
        unfold irtIndexLookupAttempts at hok
        split at hok
        · exact ih hok
        · exact hok
  unfold indurtdbHFindByNameIn irtIndexLookup at hfound
  split at hfound
  · cases hfound
  · split at hfound
    · cases hfound
    next _ ix hbind =>
      split at hfound
      · cases hfound
      · have hprobe := hattempts ix _ hfound
        have hview : ix = indexView h.shm.maxPoints := by
          unfold irtIndexBind at hbind
          split at hbind
          · cases hbind
          · exact (Option.some.inj hbind).symm
        subst hview
        unfold irtIndexProbe at hprobe
        split at hprobe
        next i hloop =>
          rw [irtIndexProbeLoop_eq_find] at hloop
          obtain ⟨entry, hcell, hmatch, hreach⟩ :=
            Probe.find_some _ 0 i hloop (by intro j hj; omega)
          rw [Nat.zero_add] at hreach
          obtain ⟨hlive, rfl⟩ := IrtIndexSlot.cell_eq_live_iff.mp hcell
          have hhash : (h.seg.slots i).hash = irtIndexComposeHash partition name := by
            simp only [irtIndexSlotMatches, Bool.and_eq_true, beq_iff_eq] at hmatch
            exact hmatch.1.1.1.1
          exact ⟨i, SlotReach.lt hreach, hlive, Except.ok.inj hprobe, hhash⟩
        next => cases hprobe

/-- A removal changes one entry at most. -/
theorem irtIndexRemoveLocked_slots (s : IrtShm) (seg : Segment) (partition : UInt32)
    (name : CStr) :
    ∃ j, ∀ i, i ≠ j → (irtIndexRemoveLocked s seg partition name).2.slots i = seg.slots i := by
  unfold irtIndexRemoveLocked
  split
  · exact ⟨0, fun _ _ => rfl⟩
  · split
    · exact ⟨0, fun _ _ => rfl⟩
    · split
      · exact ⟨0, fun _ _ => rfl⟩
      · split
        · exact ⟨0, fun _ _ => rfl⟩
        next j _ => exact ⟨j, fun i hne => Function.update_of_ne hne _ _⟩

/-- So does a deletion, which takes the name of its point away. -/
theorem deleteLocked_entries {s : IrtShm} {seg : Segment} {partition : UInt32} {id : Nat}
    (hok : (deleteLocked s seg partition id).1 = .ok) :
    ((deleteLocked s seg partition id).2.points id).name = CStr.empty ∧
      ∃ j, ∀ i, i ≠ j → (deleteLocked s seg partition id).2.slots i = seg.slots i := by
  unfold deleteLocked at hok ⊢
  split at hok
  · cases hok
  next hnamed =>
  split at hok
  · cases hok
  next hpart =>
  rw [if_neg hnamed, if_neg hpart]
  refine ⟨?_, irtIndexRemoveLocked_slots s seg (seg.points id).partition (seg.points id).name⟩
  simp [Segment.setPoint]

theorem delete_entries {h : IndurtdbH} {partition : UInt32} {id : Nat}
    (hok : (indurtdbHDeletePointIn h partition id).1 = .ok) :
    ((indurtdbHDeletePointIn h partition id).2.seg.points id).name = CStr.empty ∧
      ∃ j, ∀ i, i ≠ j →
        (indurtdbHDeletePointIn h partition id).2.seg.slots i = h.seg.slots i := by
  unfold indurtdbHDeletePointIn at hok ⊢
  split at hok
  · cases hok
  next hid =>
  rw [if_neg hid]
  rcases withWriteLock_cases h.seg fun seg => deleteLocked h.shm seg partition id with
    ⟨-, hbusy⟩ | ⟨-, w, w', -, hlocked⟩
  · rw [hbusy] at hok
    cases hok
  · rw [hlocked] at hok ⊢
    have hentries := @deleteLocked_entries h.shm (h.seg.setWriteSeq w) partition id
    generalize deleteLocked h.shm (h.seg.setWriteSeq w) partition id = deleted at hok hentries ⊢
    obtain ⟨rc, seg⟩ := deleted
    cases rc with
    | ok =>
        dsimp only
        rw [deltaLog_seg]
        exact hentries rfl
    | _ => cases hok

/-! ## One key -/

/-- The calls that give a point a name. -/
inductive Naming where
  | create (type access : Int)
  | rename

/-- Make the call through a handle. -/
def Naming.run (how : Naming) (h : IndurtdbH) (partition : UInt32) (id : Nat) (name : CStr) :
    Rc × IndurtdbH :=
  match how with
  | create type access => indurtdbHCreatePointIn h partition id name type access
  | rename => indurtdbHRenamePointIn h partition id name

/-- The number of registered points. -/
def registeredCount (h : IndurtdbH) : Nat :=
  (List.range h.shm.maxPoints).countP fun id => !(h.seg.points id).name.isEmpty

/-- The counter is right, and no entry names a point that is not registered. -/
structure EntriesReleased (h : IndurtdbH) : Prop where
  count : h.seg.hdr.indexCount = registeredCount h
  registered : ∀ i, i < irtLayoutBuckets h.shm.maxPoints → (h.seg.slots i).Live →
    (h.seg.points (h.seg.slots i).pointId).name ≠ CStr.empty

/-- Every operation answers two names of a partition alike. -/
structure TreatedAlike (h : IndurtdbH) (partition : UInt32) (name name' : CStr) : Prop where
  find : indurtdbHFindByNameIn h partition name = indurtdbHFindByNameIn h partition name'
  create : ∀ id type access, (indurtdbHCreatePointIn h partition id name type access).1 =
    (indurtdbHCreatePointIn h partition id name' type access).1
  rename : ∀ id, (indurtdbHRenamePointIn h partition id name).1 =
    (indurtdbHRenamePointIn h partition id name').1

/-- A point is kept under one key, behind the call that gave it its name: it is found by
the name stored in its record, the name cannot be created again, a deletion and a further
renaming release its entry, and every name that is stored as the same bytes is treated as
the same name. -/
structure OneKey (h : IndurtdbH) (partition : UInt32) (id : Nat) (name : CStr) : Prop where
  found : indurtdbHFindByNameIn h partition (h.seg.points id).name = .ok id
  refused : ∀ id' type access, (indurtdbHCreatePointIn h partition id' name type access).1 ≠ .ok
  deleted : (indurtdbHDeletePointIn h partition id).1 = .ok ∧
    EntriesReleased (indurtdbHDeletePointIn h partition id).2
  renamed : ∀ name', (indurtdbHRenamePointIn h partition id name').1 = .ok →
    EntriesReleased (indurtdbHRenamePointIn h partition id name').2
  alike : ∀ name' name'', name'.strncpy nameMax = name.strncpy nameMax →
    name''.strncpy nameMax = name.strncpy nameMax → TreatedAlike h partition name' name''

/-- Names that agree on 64 bytes agree on 63. -/
theorem strncpy_of_strncmpEq {a b : CStr} (h : a.strncmpEq b 64 = true) :
    a.strncpy nameMax = b.strncpy nameMax := by
  have hbytes := congrArg (List.take nameMax) (beq_iff_eq.mp h)
  rw [List.take_take, List.take_take] at hbytes
  exact CStr.ext_bytes hbytes

theorem strncpy_strncpy (name : CStr) :
    (name.strncpy nameMax).strncpy nameMax = name.strncpy nameMax :=
  CStr.strncpy_of_length_le (name.length_strncpy_le nameMax)

/-- A renaming that does not fail leaves the start of the new name in the record. -/
theorem renameLocked_stored {s : IrtShm} {seg : Segment} {partition : UInt32} {id : Nat}
    {name : CStr}
    (hdone : ∀ rc, rc ≠ .ok → (renameLocked s seg partition id name).1 ≠ .failed rc) :
    ((renameLocked s seg partition id name).2.points id).name.strncpy nameMax =
      name.strncpy nameMax := by
  unfold renameLocked at hdone ⊢
  split at hdone
  · exact absurd rfl (hdone _ (by decide))
  next hheld =>
  rw [if_neg hheld]
  split at hdone
  next hsame =>
    rw [if_pos hsame]
    exact strncpy_of_strncmpEq hsame
  next hdiffers =>
  rw [if_neg hdiffers]
  generalize irtIndexInsertLocked s seg partition name id = inserted at hdone ⊢
  obtain ⟨rc, seg'⟩ := inserted
  cases rc with
  | ok =>
      dsimp only
      rw [Segment.setPoint_points, Function.update_self]
      exact strncpy_strncpy name
  | _ => exact absurd rfl (hdone .errFull (by decide))

/-- The record of a point holds the start of the name it was given. -/
theorem naming_stored {how : Naming} {h : IndurtdbH} {partition : UInt32} {id : Nat}
    {name : CStr} (hok : (how.run h partition id name).1 = .ok) :
    ((how.run h partition id name).2.seg.points id).name.strncpy nameMax =
      name.strncpy nameMax := by
  cases how with
  | create type access =>
      obtain ⟨-, -, -, -, -, -, hstores⟩ := (create_stores h partition id name type access).done hok
      rw [Naming.run, hstores.at_id]
      exact strncpy_strncpy name
  | rename =>
      unfold Naming.run indurtdbHRenamePointIn at hok ⊢
      dsimp only at hok ⊢
      split at hok
      · cases hok
      next hname =>
      split at hok
      · cases hok
      next hid =>
      split at hok
      · cases hok
      next htaken =>
      split at hok
      · cases hok
      next hfree =>
      rw [if_neg hname, if_neg hid, if_neg htaken, if_neg hfree]
      have hlocked := @renameLocked_stored h.shm
        (h.seg.setWriteSeq (irtSeqlockWriteBegin h.seg.hdr.writeSeq).2) partition id name
      generalize renameLocked h.shm
        (h.seg.setWriteSeq (irtSeqlockWriteBegin h.seg.hdr.writeSeq).2) partition id name =
          renamed at hok hlocked ⊢
      obtain ⟨outcome, seg⟩ := renamed
      cases outcome with
      | failed rc =>
          obtain rfl : rc = .ok := hok
          exact hlocked fun rc hrc heq => hrc (Renamed.failed.inj heq).symm
      | same => exact hlocked fun rc _ heq => by cases heq
      | changed =>
          dsimp only
          rw [deltaLog_seg]
          exact hlocked fun rc _ heq => by cases heq

/-- **Long names have no one key.**  Whatever the registry was, a point that is given a
name of 64 bytes or more is not kept under one key. -/
theorem not_oneKey {how : Naming} {h : IndurtdbH} {partition : UInt32} {id : Nat} {name : CStr}
    (hlong : nameMax < name.bytes.length) (hok : (how.run h partition id name).1 = .ok) :
    ¬ OneKey (how.run h partition id name).2 partition id name := by
  intro hkey
  have hstored := naming_stored hok
  generalize (how.run h partition id name).2 = h' at hkey hstored
  -- two names behind the record, found alike, have an entry each
  have hfull : (name.strncpy nameMax).bytes.length = nameMax :=
    List.length_take_of_le (Nat.le_of_lt hlong)
  have hentry : ∀ (byte : UInt8) (hbyte : byte ≠ 0), ∃ i,
      i < irtLayoutBuckets h'.shm.maxPoints ∧ (h'.seg.slots i).Live ∧
        (h'.seg.slots i).pointId = id ∧ (h'.seg.slots i).hash =
          irtIndexComposeHash partition (longer (name.strncpy nameMax) byte hbyte) := by
    intro byte hbyte
    apply find_entry
    rw [← hkey.found]
    exact (hkey.alike _ _ (strncpy_longer hbyte hfull) hstored).find
  obtain ⟨i, hi, hlivei, hidi, hhashi⟩ := hentry 1 (by decide)
  obtain ⟨k, hk, hlivek, hidk, hhashk⟩ := hentry 2 (by decide)
  have hne : i ≠ k := by
    rintro rfl
    exact irtIndexComposeHash_longer_ne partition (name.strncpy nameMax)
      (hhashi.symm.trans hhashk)
  -- a deletion leaves one of the two
  obtain ⟨hdeleted, hreleased⟩ := hkey.deleted
  obtain ⟨hgone, j, hkept⟩ := delete_entries hdeleted
  obtain ⟨p, hnames, -⟩ := delete_stores h' partition id
  have hleft : ∀ l, l < irtLayoutBuckets h'.shm.maxPoints → (h'.seg.slots l).Live →
      (h'.seg.slots l).pointId = id → l = j := by
    intro l hl hlive hid
    by_contra hother
    have hslot := hkept l hother
    have hregistered := hreleased.registered l (by rw [hnames.shm]; exact hl)
      (by rw [hslot]; exact hlive)
    rw [hslot, hid] at hregistered
    exact hregistered hgone
  exact hne ((hleft i hi hlivei hidi).trans (hleft k hk hlivek hidk).symm)

/-- The letter `a`, 64 times. -/
def sixtyFour : CStr := ⟨List.replicate 64 97, fun h => by cases List.eq_of_mem_replicate h⟩

theorem not_oneKey_sixtyFour :
    ¬ OneKey (Naming.run (.create 1 3) (freshHandle 2 1 7) 0 0 sixtyFour).2 0 0 sixtyFour :=
  not_oneKey (by decide +kernel) (by decide +kernel)

/-- A point that was created under 64 letters is not found by the 63 it is stored under. -/
theorem not_oneKey_created :
    ¬ ∀ (how : Naming) (h : IndurtdbH) (partition : UInt32) (id : Nat) (name : CStr),
      Reached h → nameMax < name.bytes.length → (how.run h partition id name).1 = .ok →
      OneKey (how.run h partition id name).2 partition id name := by
  intro hall
  have hkey := hall (.create 1 3) (freshHandle 2 1 7) 0 0 sixtyFour ⟨2, 1, 7, [], rfl⟩
    (by decide +kernel) (by decide +kernel)
  have hfound := hkey.found
  revert hfound
  decide +kernel

/-! ## What goes wrong first

In a registry that is in order, a point is found by the name stored for it exactly when
the hash does not tell the two names apart. -/

section Created

variable {partition : UInt32} {name : CStr}

theorem strncmpEq_strncpy (a name : CStr) :
    a.strncmpEq (name.strncpy nameMax) nameMax = a.strncmpEq name nameMax := by
  simp only [CStr.strncmpEq, CStr.strncpy, List.take_take, Nat.min_self]

theorem irtIndexSlotMatches_strncpy (points : Nat → IndurtdbPoint) (hash : UInt32)
    (slot : IrtIndexSlot) : irtIndexSlotMatches points hash partition (name.strncpy nameMax) slot =
      irtIndexSlotMatches points hash partition name slot := by
  simp only [irtIndexSlotMatches, strncmpEq_strncpy]

variable (hhash : irtIndexComposeHash partition name =
  irtIndexComposeHash partition (name.strncpy nameMax))
include hhash

theorem irtIndexLookup_strncpy (s : IrtShm) (seg : Segment) :
    irtIndexLookup s seg partition (name.strncpy nameMax) =
      irtIndexLookup s seg partition name := by
  have hprobe : ∀ (ix : IrtIndex) (n d : Nat),
      irtIndexProbeLoop ix seg (irtIndexComposeHash partition (name.strncpy nameMax)) partition
        (name.strncpy nameMax) n d =
      irtIndexProbeLoop ix seg (irtIndexComposeHash partition name) partition name n d := by
    intro ix n d
    rw [← hhash]
    induction n generalizing d with
    | zero => rfl
    | succ n ih => simp only [irtIndexProbeLoop, irtIndexSlotMatches_strncpy, ih]
  have hattempts : ∀ (ix : IrtIndex) (n : Nat),
      irtIndexLookupAttempts ix seg partition (name.strncpy nameMax) n =
        irtIndexLookupAttempts ix seg partition name n := by
    intro ix n
    induction n with
    | zero => rfl
    | succ n ih => simp only [irtIndexLookupAttempts, irtIndexProbe, hprobe, ih]
  simp only [irtIndexLookup, CStr.strncpy_isEmpty (show 0 < nameMax by decide), hattempts]

theorem irtIndexInsertLocked_strncpy (s : IrtShm) (seg : Segment) (id : Nat) :
    irtIndexInsertLocked s seg partition (name.strncpy nameMax) id =
      irtIndexInsertLocked s seg partition name id := by
  have hloop : ∀ (ix : IrtIndex) (seg : Segment) (n d : Nat) (tomb : Option Nat),
      irtIndexInsertLoop ix seg (irtIndexComposeHash partition name) partition
        (name.strncpy nameMax) n d tomb =
      irtIndexInsertLoop ix seg (irtIndexComposeHash partition name) partition name n d tomb := by
    intro ix seg n d tomb
    induction n generalizing d tomb with
    | zero => cases tomb <;> rfl
    | succ n ih => simp only [irtIndexInsertLoop, irtIndexSlotMatches_strncpy, ih]
  simp only [irtIndexInsertLocked, CStr.strncpy_isEmpty (show 0 < nameMax by decide), ← hhash,
    hloop]

/-- Under equal hashes, a creation does what it does with the stored name. -/
theorem create_strncpy (h : IndurtdbH) (id : Nat) (type access : Int) :
    indurtdbHCreatePointIn h partition id (name.strncpy nameMax) type access =
      indurtdbHCreatePointIn h partition id name type access := by
  simp only [indurtdbHCreatePointIn, CStr.strncpy_isEmpty (show 0 < nameMax by decide), nameTaken,
    irtIndexLookup_strncpy hhash, registerLocked, hPointRegister, strncpy_strncpy, irtIndexInsert,
    irtIndexInsertLocked_strncpy hhash, deltaLog, deltaRec]
  rfl

end Created

/-- An entry that an insertion changes has the hash of the name it was given. -/
theorem irtIndexInsertLocked_entries (s : IrtShm) (seg : Segment) (partition : UInt32)
    (name : CStr) (id i : Nat) :
    (irtIndexInsertLocked s seg partition name id).2.slots i = seg.slots i ∨
      ((irtIndexInsertLocked s seg partition name id).2.slots i).hash =
        irtIndexComposeHash partition name := by
  unfold irtIndexInsertLocked
  split
  · exact .inl rfl
  · split
    · exact .inl rfl
    · split
      · exact .inl rfl
      · dsimp only
        split
        next j hloop =>
          rw [irtIndexInsertLoop_eq_place, Probe.place_hit_iff_find] at hloop
          obtain ⟨entry, hcell, hmatch, -⟩ := Probe.find_some _ 0 j hloop (by intro k hk; omega)
          obtain ⟨-, rfl⟩ := IrtIndexSlot.cell_eq_live_iff.mp hcell
          simp only [irtIndexSlotMatches, Bool.and_eq_true, beq_iff_eq] at hmatch
          rcases eq_or_ne i j with rfl | hne
          · refine .inr ?_
            rw [Segment.setSlot_slots, Function.update_self]
            exact hmatch.1.1.1.1
          · exact .inl (Function.update_of_ne hne _ _)
        next j hloop =>
          rcases eq_or_ne i j with rfl | hne
          · refine .inr ?_
            rw [Segment.setIndexCount_slots, Segment.setSlot_slots, Function.update_self]
          · exact .inl (Function.update_of_ne hne _ _)
        next => exact .inl rfl

/-- The same for a creation. -/
theorem create_entries (h : IndurtdbH) (partition : UInt32) (id : Nat) (name : CStr)
    (type access : Int) (i : Nat) :
    (indurtdbHCreatePointIn h partition id name type access).2.seg.slots i = h.seg.slots i ∨
      ((indurtdbHCreatePointIn h partition id name type access).2.seg.slots i).hash =
        irtIndexComposeHash partition name := by
  have hregistered : ∀ (type access : UInt8), (withWriteLock h.seg fun seg =>
      registerLocked seg partition id name type access).2.slots i = h.seg.slots i := by
    intro type access
    refine withWriteLock_slots fun seg' hseg' => ?_
    unfold registerLocked
    split
    · exact congrFun hseg' i
    · exact congrFun hseg' i
  have hregistered := hregistered (.ofNat type.toNat) (.ofNat access.toNat)
  unfold indurtdbHCreatePointIn
  split
  · exact .inl rfl
  split
  · exact .inl rfl
  split
  · exact .inl rfl
  split
  · exact .inl rfl
  split
  · exact .inl rfl
  generalize (withWriteLock h.seg fun seg => registerLocked seg partition id name
    (.ofNat type.toNat) (.ofNat access.toNat)) = locked at hregistered ⊢
  obtain ⟨rc, seg₁⟩ := locked
  cases rc with
  | ok =>
      have hinserted : (irtIndexInsert h.shm seg₁ partition name id).2.slots i = h.seg.slots i ∨
          ((irtIndexInsert h.shm seg₁ partition name id).2.slots i).hash =
            irtIndexComposeHash partition name := by
        rw [← hregistered]
        rcases withWriteLock_cases seg₁ fun seg =>
            irtIndexInsertLocked h.shm seg partition name id with
          ⟨-, hbusy⟩ | ⟨-, w, w', -, hlocked⟩
        · rw [irtIndexInsert, hbusy]
          exact .inl rfl
        · rw [irtIndexInsert, hlocked]
          exact irtIndexInsertLocked_entries h.shm (seg₁.setWriteSeq w) partition name id i
      dsimp only
      generalize irtIndexInsert h.shm seg₁ partition name id = inserted at hinserted ⊢
      obtain ⟨rc, seg₂⟩ := inserted
      have hrollback : (unregister seg₂ id).slots i = seg₂.slots i :=
        withWriteLock_slots fun seg' hseg' => congrFun hseg' i
      cases rc with
      | ok =>
          dsimp only
          rw [deltaLog_seg]
          exact hinserted
      | _ =>
          dsimp only
          rw [hrollback]
          exact hinserted
  | _ => exact .inl hregistered

/-- In a registry that is in order, a point that is created is found by the name stored
for it exactly when the name it was given has the same hash. -/
theorem create_found_iff {h : IndurtdbH} {r : PointRegistry h.shm.maxPoints} {partition : UInt32}
    {id : Nat} {name : CStr} {type access : Int} (href : Refines h.shm.maxPoints h.seg r)
    (htight : TightFor h.shm.maxPoints h.seg r) (hn : h.shm.maxPoints < irtIndexTombstone)
    (htwo : 2 * h.shm.maxPoints ≤ irtLayoutBuckets h.shm.maxPoints)
    (hok : (indurtdbHCreatePointIn h partition id name type access).1 = .ok) :
    indurtdbHFindByNameIn (indurtdbHCreatePointIn h partition id name type access).2 partition
        (name.strncpy nameMax) = .ok id ↔
      irtIndexComposeHash partition name =
        irtIndexComposeHash partition (name.strncpy nameMax) := by
  have hcreate := create_stores h partition id name type access
  obtain ⟨hnonempty, -, -, hid, -, hunnamed, -⟩ := hcreate.done hok
  constructor
  · intro hfound
    obtain ⟨i, hi, hlive, hpid, hhash⟩ := find_entry hfound
    rw [hcreate.shm] at hi
    rcases create_entries h partition id name type access i with hsame | hnew
    · -- no entry named the point before it was created
      rw [hsame] at hlive hpid
      obtain ⟨hnamed, -⟩ := htight.tight.current i hi hlive
      rw [hpid] at hnamed
      exact absurd hunnamed hnamed
    · exact hnew.symm.trans hhash
  · intro hhash
    have hstored : (name.strncpy nameMax) ≠ CStr.empty := by
      rw [← CStr.isEmpty_eq_false_iff, CStr.strncpy_isEmpty (by decide),
        CStr.isEmpty_eq_false_iff]
      exact hnonempty
    rw [← create_strncpy hhash] at hok ⊢
    obtain ⟨i, hi, hfree⟩ := htight.tight.room href.covers.below htwo
    have hstep : StepRefines h r
        (indurtdbHCreatePointIn h partition id (name.strncpy nameMax) type access)
        (r.create partition id (name.strncpy nameMax) (WellFormed type access)) :=
      create_refines href hn ⟨name.strncpy nameMax, hstored, name.length_strncpy_le nameMax⟩ type
        access fun _ _ => IndexRoom.roomFor ⟨i, hi, hfree⟩ _ _ _
    obtain ⟨-, -, hid', hfree', hassign⟩ := Registry.create_of_ok (hstep.code.symm.trans hok)
    have hholds : (r.create partition id (name.strncpy nameMax) (WellFormed type access)).2.holds
        id = some (partition, name.strncpy nameMax) := by
      rw [hassign]
      simp only [Registry.assign, Function.update_self]
    have hlookup : irtIndexLookup h.shm
        (indurtdbHCreatePointIn h partition id (name.strncpy nameMax) type access).2.seg partition
        (name.strncpy nameMax) = _ :=
      hstep.refines.lookup hn ⟨name.strncpy nameMax, hstored, name.length_strncpy_le nameMax⟩
    rw [indurtdbHFindByNameIn, if_neg (by rw [CStr.isEmpty_eq_false_iff.mpr hstored]; decide),
      hstep.shm, hlookup]
    exact Registry.find_of_holds hholds

end InduRtdb.Api
