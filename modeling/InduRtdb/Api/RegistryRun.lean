/-
  Api/RegistryRun.lean --- runs of registry operations on a freshly created
  segment.

  Source: `src/api/indurtdb.c`, `src/core/irt_index.c`, and the layout of
  `src/core/irt_shm.h`, whose offsets are 32 bits wide.

  A fresh segment stands for the empty registry as long as the index offset does
  not wrap, and every run from there does what the abstract registry does.  A
  capacity whose index offset wraps is accepted by `irt_shm_init` all the same;
  the registry of such a segment is wrong before the second call.
-/
import InduRtdb.Api.RegistrySpec

set_option autoImplicit false

namespace InduRtdb.Api

open InduRtdb.Core InduRtdb.Spec

/-! ## Operations and runs -/

/-- One call on the registry. -/
inductive RegistryOp where
  | create (partition : UInt32) (id : Nat) (name : PointName) (type access : Int)
  | delete (partition : UInt32) (id : Nat)
  | rename (partition : UInt32) (id : Nat) (name : PointName)
  | find (partition : UInt32) (name : PointName)

/-- What a call returns. -/
inductive Answer where
  | code (rc : Rc)
  | found (res : Except Rc Nat)

namespace RegistryOp

/-- The partition a call is made in. -/
def zone : RegistryOp → UInt32
  | create partition _ _ _ _ => partition
  | delete partition _ => partition
  | rename partition _ _ => partition
  | find partition _ => partition

/-- Make the call through a handle. -/
def run (h : IndurtdbH) : RegistryOp → Answer × IndurtdbH
  | create partition id name type access =>
      let res := indurtdbHCreatePointIn h partition id name.str type access
      (.code res.1, res.2)
  | delete partition id =>
      let res := indurtdbHDeletePointIn h partition id
      (.code res.1, res.2)
  | rename partition id name =>
      let res := indurtdbHRenamePointIn h partition id name.str
      (.code res.1, res.2)
  | find partition name => (.found (indurtdbHFindByNameIn h partition name.str), h)

/-- The same call on the abstract registry. -/
noncomputable def spec {n : Nat} (r : PointRegistry n) : RegistryOp → Answer × PointRegistry n
  | create partition id name type access =>
      let res := r.create partition id name.str (WellFormed type access)
      (.code res.1, res.2)
  | delete partition id =>
      let res := r.delete partition id
      (.code res.1, res.2)
  | rename partition id name =>
      let res := r.rename partition id name.str
      (.code res.1, res.2)
  | find partition name => (.found (r.find partition name.str), r)

end RegistryOp

/-- Make the calls one after another. -/
def runOps (h : IndurtdbH) : List RegistryOp → List Answer × IndurtdbH
  | [] => ([], h)
  | op :: ops =>
      let first := op.run h
      let rest := runOps first.2 ops
      (first.1 :: rest.1, rest.2)

/-- The same calls on the abstract registry. -/
noncomputable def specOps {n : Nat} (r : PointRegistry n) :
    List RegistryOp → List Answer × PointRegistry n
  | [] => ([], r)
  | op :: ops =>
      let first := op.spec r
      let rest := specOps first.2 ops
      (first.1 :: rest.1, rest.2)

/-- The handle of the process that created the segment. -/
def freshHandle (maxPoints maxSubscribers pid : Nat) : IndurtdbH where
  shm := irtShmRequest maxPoints maxSubscribers
  seg := irtShmInitOwner maxPoints maxSubscribers pid
  delta := none

/-! ## What a run has to satisfy -/

/-- A handle agrees with an abstract registry: the same ids are registered under
the same keys, a search finds exactly the holder, calls in one partition are
invisible in the others, the counter is right, and the index holds nothing
stale and is never full. -/
structure AgreesWith (h : IndurtdbH) (r : PointRegistry h.shm.maxPoints) : Prop where
  registered : ∀ id, id < h.shm.maxPoints → r.holds id = pointKey (h.seg.points id)
  found : ∀ (partition : UInt32) (name : PointName) (id : Nat),
    indurtdbHFindByNameIn h partition name.str = .ok id ↔
      r.holds id = some (partition, name.str)
  notFound : ∀ (partition : UInt32) (name : PointName),
    indurtdbHFindByNameIn h partition name.str = .error .errNotFound ↔
      ∀ id, r.holds id ≠ some (partition, name.str)
  isolated : ∀ (op : RegistryOp) (partition : UInt32) (name : PointName), partition ≠ op.zone →
    indurtdbHFindByNameIn (op.run h).2 partition name.str =
      indurtdbHFindByNameIn h partition name.str
  count : h.seg.hdr.indexCount = r.size
  entries : ∀ i, i < irtLayoutBuckets h.shm.maxPoints → (h.seg.slots i).Live →
    (h.seg.slots i).pointId < h.shm.maxPoints ∧
      (h.seg.points (h.seg.slots i).pointId).name ≠ CStr.empty ∧
      (h.seg.slots i).hash = (h.seg.points (h.seg.slots i).pointId).keyHash
  notFull : ∀ (points : Nat → IndurtdbPoint) (seq : Nat) (partition : UInt32) (name : CStr)
    (id : Nat),
    (irtIndexInsertLocked h.shm ({ h.seg with points := points }.setWriteSeq seq) partition name
      id).1 ≠ .errFull

/-- Every run on a fresh segment of this capacity gives the answers of the
abstract registry and ends in agreement with it. -/
def RegistryCorrect (maxPoints maxSubscribers pid : Nat) : Prop :=
  ∀ ops : List RegistryOp,
    ∃ seg delta, (runOps (freshHandle maxPoints maxSubscribers pid) ops).2 =
        ⟨irtShmRequest maxPoints maxSubscribers, seg, delta⟩ ∧
      (runOps (freshHandle maxPoints maxSubscribers pid) ops).1 =
        (specOps (Registry.empty : PointRegistry maxPoints) ops).1 ∧
      AgreesWith ⟨irtShmRequest maxPoints maxSubscribers, seg, delta⟩
        (specOps (Registry.empty : PointRegistry maxPoints) ops).2

/-! ## Runs on a segment whose index offset fits -/

section Runs

variable {s : IrtShm} (hn : s.maxPoints < irtIndexTombstone)
  (htwo : 2 * s.maxPoints ≤ irtLayoutBuckets s.maxPoints)
include hn htwo

/-- One call keeps the refinement. -/
theorem RegistryOp.run_refines {seg : Segment} {r : PointRegistry s.maxPoints}
    (href : Refines s.maxPoints seg r) (htight : TightFor s.maxPoints seg r) (op : RegistryOp)
    (delta : Option (List UInt8)) :
    ∃ seg' delta', (op.run ⟨s, seg, delta⟩) = ((op.spec r).1, ⟨s, seg', delta'⟩) ∧
      Refines s.maxPoints seg' (op.spec r).2 ∧ TightFor s.maxPoints seg' (op.spec r).2 := by
  have hroom : IndexRoom s.maxPoints seg := htight.tight.room href.covers.below htwo
  have hstep : ∀ {res : Rc × IndurtdbH} {spec : Rc × PointRegistry s.maxPoints},
      StepRefines ⟨s, seg, delta⟩ r res spec →
      ∃ seg' delta', ((Answer.code res.1, res.2) : Answer × IndurtdbH) =
          (.code spec.1, ⟨s, seg', delta'⟩) ∧
        Refines s.maxPoints seg' spec.2 ∧ TightFor s.maxPoints seg' spec.2 := by
    rintro ⟨rc, shm, seg', delta'⟩ spec hres
    obtain rfl : shm = s := hres.shm
    obtain rfl : rc = spec.1 := hres.code
    exact ⟨seg', delta', rfl, hres.refines, hres.tight htight⟩
  cases op with
  | create partition id name type access =>
      exact hstep (create_refines (h := ⟨s, seg, delta⟩) href hn name type access
        fun _ _ => hroom.roomFor _ _ _)
  | delete partition id => exact hstep (delete_refines (h := ⟨s, seg, delta⟩) href hn)
  | rename partition id name =>
      exact hstep (rename_refines (h := ⟨s, seg, delta⟩) href hn name fun _ _ _ _ => hroom)
  | find partition name =>
      refine ⟨seg, delta, ?_, href, htight⟩
      simp only [RegistryOp.run, RegistryOp.spec, find_refines (h := ⟨s, seg, delta⟩) href hn name]

/-- A whole run keeps the refinement and gives the answers of the registry. -/
theorem runOps_refines :
    ∀ (ops : List RegistryOp) (delta : Option (List UInt8)) {seg : Segment}
      {r : PointRegistry s.maxPoints}, Refines s.maxPoints seg r → TightFor s.maxPoints seg r →
      ∃ seg' delta', runOps ⟨s, seg, delta⟩ ops = ((specOps r ops).1, ⟨s, seg', delta'⟩) ∧
        Refines s.maxPoints seg' (specOps r ops).2 ∧
        TightFor s.maxPoints seg' (specOps r ops).2 := by
  intro ops
  induction ops with
  | nil =>
      intro delta seg r href htight
      exact ⟨seg, delta, rfl, href, htight⟩
  | cons op ops ih =>
      intro delta seg r href htight
      obtain ⟨seg₁, delta₁, hrun, href₁, htight₁⟩ := op.run_refines hn htwo href htight delta
      obtain ⟨seg₂, delta₂, hrest, href₂, htight₂⟩ := ih delta₁ href₁ htight₁
      refine ⟨seg₂, delta₂, ?_, href₂, htight₂⟩
      simp only [runOps, specOps, hrun, hrest]

omit hn htwo in
/-- A bucket without an entry keeps every insertion from reporting a full
index, whatever the point table holds. -/
theorem insertLocked_ne_full {seg : Segment} (hroom : IndexRoom s.maxPoints seg)
    (partition : UInt32) (name : CStr) (id : Nat) :
    (irtIndexInsertLocked s seg partition name id).1 ≠ .errFull := by
  intro hfull
  unfold irtIndexInsertLocked at hfull
  split at hfull
  · cases hfull
  · split at hfull
    · cases hfull
    · rename_i ix hbind
      split at hfull
      · cases hfull
      · dsimp only at hfull
        split at hfull
        · cases hfull
        · cases hfull
        · rename_i hloop
          obtain ⟨i, hi, hfree⟩ := hroom
          have hview : ix = indexView s.maxPoints := by
            rw [irtIndexBind_eq (fun hzero => by simp [irtIndexBind, hzero] at hbind)] at hbind
            exact (Option.some.inj hbind).symm
          rw [hview, irtIndexInsertLoop_eq_place] at hloop
          obtain ⟨d, hd, rfl⟩ := slotIndex_surj (irtIndexComposeHash partition name) hi
          obtain ⟨entry, hcell, _⟩ :=
            (Probe.place_full _ 0 none hloop).2 d (Nat.zero_le _) (by rwa [Nat.zero_add])
          exact hfree (IrtIndexSlot.cell_eq_live_iff.mp hcell).1

/-- The refinement gives everything a run has to satisfy. -/
theorem Refines.agrees {seg : Segment} {delta : Option (List UInt8)}
    {r : PointRegistry s.maxPoints} (href : Refines s.maxPoints seg r)
    (htight : TightFor s.maxPoints seg r) : AgreesWith ⟨s, seg, delta⟩ r where
  registered := href.holds
  found partition name id := by
    rw [find_refines (h := ⟨s, seg, delta⟩) href hn name]
    exact Registry.find_eq_ok_iff
  notFound partition name := by
    rw [find_refines (h := ⟨s, seg, delta⟩) href hn name]
    constructor
    · intro hfind id hid
      rw [Registry.find_of_holds hid] at hfind
      cases hfind
    · exact Registry.find_of_not_holds
  isolated op partition name hne := by
    obtain ⟨seg', delta', hrun, href', _⟩ :=
      op.run_refines hn htwo href htight delta
    rw [hrun, find_refines (h := ⟨s, seg', delta'⟩) href' hn name,
      find_refines (h := ⟨s, seg, delta⟩) href hn name]
    cases op with
    | create _ _ _ _ _ => exact Registry.find_create_of_ne hne _
    | delete _ _ => exact Registry.find_delete_of_ne hne
    | rename _ _ _ => exact Registry.find_rename_of_ne hne
    | find _ _ => rfl
  count := htight.count
  entries i hi hlive := ⟨href.covers.below i hi hlive, htight.tight.current i hi hlive⟩
  notFull points seq partition name id := by
    obtain ⟨i, hi, hfree⟩ := htight.tight.room href.covers.below htwo
    have hroom : IndexRoom s.maxPoints ({ seg with points := points }.setWriteSeq seq) :=
      ⟨i, hi, hfree⟩
    exact insertLocked_ne_full hroom partition name id

end Runs

/-- A fresh segment whose index offset does not wrap stands for the empty
registry. -/
theorem irtShmInitOwner_refines {N : Nat} (hfits : IndexOffsetFits N) (M pid : Nat) :
    Refines N (irtShmInitOwner N M pid) Registry.empty ∧
      TightFor N (irtShmInitOwner N M pid) Registry.empty := by
  have hdead : ∀ i, i < irtLayoutBuckets N →
      ¬ ((irtShmInitOwner N M pid).slots i).Live :=
    fun i hi hlive => hlive.1 (irtShmInitOwner_slots hfits hi)
  have hzero : ∀ id, id < N → ((irtShmInitOwner N M pid).points id).name = CStr.empty := by
    intro id hid
    rw [irtShmInitOwner_points hfits hid]
    rfl
  refine ⟨⟨rfl, ⟨?_, by simp [irtShmInitOwner, decodeSegment, irtShmInitHeader, irtHeaderSeal,
    irtLayoutOffPoints], ?_, ?_, ?_⟩, ?_⟩, ⟨⟨?_, ?_⟩, ?_⟩⟩
  · change irtLayoutOffIndex N ≠ 0
    rw [hfits.offIndex]
    omega
  · intro id hid
    rw [hzero id hid]
    exact Nat.zero_le _
  · exact fun i hi hlive => absurd hlive (hdead i hi)
  · exact fun id hid _ hname => absurd (hzero id hid) hname
  · intro id hid
    exact (pointKey_eq_none_iff.mpr (hzero id hid)).symm
  · exact fun i hi hlive => absurd hlive (hdead i hi)
  · exact fun i j hi _ hlive => absurd hlive (hdead i hi)
  · exact Registry.size_empty.symm

/-- Every run on a fresh segment whose index offset fits is correct. -/
theorem registryCorrect_of_fits {N : Nat} (hfits : IndexOffsetFits N) (M pid : Nat) :
    RegistryCorrect N M pid := by
  intro ops
  have hlt := indexOffsetFits_iff.mp hfits
  have hn : (irtShmRequest N M).maxPoints < irtIndexTombstone := by
    simp only [irtShmRequest, irtIndexTombstone]
    omega
  have htwo : 2 * (irtShmRequest N M).maxPoints ≤ irtLayoutBuckets (irtShmRequest N M).maxPoints :=
    hfits.two_mul_le
  obtain ⟨href, htight⟩ := irtShmInitOwner_refines hfits M pid
  obtain ⟨seg, delta, hrun, href', htight'⟩ :=
    runOps_refines (s := irtShmRequest N M) hn htwo ops none href htight
  refine ⟨seg, delta, ?_, ?_, href'.agrees hn htwo htight'⟩
  · exact congrArg Prod.snd hrun
  · exact congrArg Prod.fst hrun

/-! ## A segment whose index offset wraps

`irt_shm_init` accepts the capacity, but the index lands on the header or on the
point table. -/

theorem irtIndexInsert_unbound {s : IrtShm} {seg : Segment} (hoff : seg.hdr.offIndex = 0)
    (partition : UInt32) (name : CStr) (id : Nat) :
    (irtIndexInsert s seg partition name id).1 ≠ .ok := by
  have hlocked : ∀ seq, (irtIndexInsertLocked s (seg.setWriteSeq seq) partition name id).1 =
      .errArg := by
    intro seq
    have hbind : irtIndexBind s (seg.setWriteSeq seq).hdr = none := by
      rw [irtIndexBind]
      exact if_pos hoff
    simp only [irtIndexInsertLocked, hbind]
    split <;> rfl
  unfold irtIndexInsert withWriteLock
  dsimp only
  split
  · simp
  · rw [hlocked]
    simp

/-- Without an index region no point can be created. -/
theorem create_ne_ok_of_unbound {h : IndurtdbH} (hoff : h.seg.hdr.offIndex = 0)
    (partition : UInt32) (id : Nat) (name : CStr) (type access : Int) :
    (indurtdbHCreatePointIn h partition id name type access).1 ≠ .ok := by
  have hlocked : ∀ body : Segment → Rc × Segment,
      (∀ seg, (body seg).2.hdr.offIndex = seg.hdr.offIndex) →
      (withWriteLock h.seg body).2.hdr.offIndex = 0 := by
    intro body hbody
    unfold withWriteLock
    dsimp only
    split
    · exact hoff
    · exact (hbody _).trans hoff
  have hregistered := hlocked (fun seg =>
    registerLocked seg partition id name (.ofNat type.toNat) (.ofNat access.toNat))
    (by intro seg; unfold registerLocked; split <;> rfl)
  intro hok
  unfold indurtdbHCreatePointIn at hok
  split at hok
  · cases hok
  split at hok
  · cases hok
  split at hok
  · cases hok
  split at hok
  · cases hok
  split at hok
  · cases hok
  split at hok
  · rename_i seg hseg
    rw [hseg] at hregistered
    have hinsert := irtIndexInsert_unbound (s := h.shm) hregistered partition name id
    split at hok
    · rename_i seg' hseg'
      rw [hseg'] at hinsert
      exact hinsert rfl
    · rename_i hne _
      exact hne hok
  · rename_i hne _
    exact hne hok

section Wrapped

variable {N : Nat}

/-- Where the index offset lands, in units of a point record. -/
theorem irtLayoutOffIndex_eq : irtLayoutOffIndex N = 128 * ((N + 1) % 2 ^ 25) := by
  simp only [irtLayoutOffIndex, irtLayoutOffPoints, sizeofHeader, sizeofPoint, u32]
  omega

/-- The metadata region starts at a multiple of 32. -/
theorem irtLayoutOffMeta_eq : ∃ q, irtLayoutOffMeta N = 32 * q := by
  obtain ⟨j, hj, _, hpow⟩ := irtLayoutBuckets_pow N
  obtain ⟨c, hc⟩ : 8 ∣ irtLayoutBuckets N := by
    rw [hpow]
    exact pow_dvd_pow 2 hj
  refine ⟨irtLayoutOffMeta N / 32, ?_⟩
  simp only [irtLayoutOffMeta, irtLayoutOffIndex_eq, irtLayoutIndexSize, irtIndexSlotSize, hc, u32]
  omega

/-- The second block of 32 bytes of the index is either still filled or has been
zeroed as a whole with the metadata. -/
theorem irtShmInitBytes_block (hpos : irtLayoutOffIndex N ≠ 0) {o : Nat}
    (hlo : irtLayoutOffIndex N + 32 ≤ o) (hhi : o < irtLayoutOffIndex N + 64) :
    irtShmInitBytes N o = irtShmInitBytes N (irtLayoutOffIndex N + 45) := by
  obtain ⟨q, hq⟩ : ∃ q, irtLayoutOffMeta N = 32 * q := irtLayoutOffMeta_eq
  have hoff : irtLayoutOffIndex N = 128 * ((N + 1) % 2 ^ 25) := irtLayoutOffIndex_eq
  have hsize : 64 ≤ irtLayoutIndexSize N := by
    have := irtLayoutBuckets_pos N
    simp only [irtLayoutIndexSize, irtIndexSlotSize]
    omega
  have hmetaSize : irtLayoutMetaSize N = 32 * N := Nat.mul_comm _ _
  rw [irtShmInitBytes, irtShmInitBytes, hq, hmetaSize]
  by_cases hmeta : 32 * q ≠ 0 ∧ 32 * q ≤ o ∧ o < 32 * q + 32 * N
  · rw [if_pos hmeta, if_pos (by omega)]
  · have hmeta' : ¬ (32 * q ≠ 0 ∧ 32 * q ≤ irtLayoutOffIndex N + 45 ∧
        irtLayoutOffIndex N + 45 < 32 * q + 32 * N) := by
      omega
    have hindex : irtLayoutOffIndex N ≠ 0 ∧ irtLayoutOffIndex N ≤ o ∧
        o < irtLayoutOffIndex N + irtLayoutIndexSize N := by
      omega
    have hindex' : irtLayoutOffIndex N ≠ 0 ∧ irtLayoutOffIndex N ≤ irtLayoutOffIndex N + 45 ∧
        irtLayoutOffIndex N + 45 < irtLayoutOffIndex N + irtLayoutIndexSize N := by
      omega
    rw [if_neg hmeta, if_neg hmeta', if_pos hindex, if_pos hindex']

theorem irtShmInitBytes_cases (o : Nat) :
    irtShmInitBytes N o = 0 ∨ irtShmInitBytes N o = 0xFF := by
  unfold irtShmInitBytes
  dsimp only
  split
  · exact Or.inl rfl
  · split
    · exact Or.inr rfl
    · exact Or.inl rfl

/-- Bytes before the index are zero. -/
theorem irtShmInitBytes_before {o : Nat} (ho : o < irtLayoutOffIndex N) :
    irtShmInitBytes N o = 0 := by
  unfold irtShmInitBytes
  dsimp only
  split
  · rfl
  · rw [if_neg (by omega)]

/-- The name of a point is empty exactly when its first byte is zero. -/
theorem decodePoint_name_eq_empty_iff {mem : Nat → UInt8} {offset : Nat} :
    (decodePoint mem offset).name = CStr.empty ↔ mem (offset + 45) = 0 := by
  have hcons : readBytes mem (offset + 45) 64 =
      mem (offset + 45) :: (List.range 63).map fun b => mem (offset + 45 + (b + 1)) := by
    rw [readBytes, List.range_succ_eq_map, List.map_cons, List.map_map]
    rfl
  have hbytes : (decodePoint mem offset).name.bytes =
      (readBytes mem (offset + 45) 64).takeWhile (· ≠ 0) := rfl
  constructor
  · intro hname
    by_contra hne
    rw [hname, hcons, List.takeWhile_cons_of_pos (by simpa using hne)] at hbytes
    cases hbytes
  · intro hzero
    refine CStr.ext_bytes ?_
    rw [hbytes, hcons, List.takeWhile_cons_of_neg (by simp [hzero])]
    rfl

/-- A fresh segment whose index offset has wrapped already disagrees with the
empty registry, or refuses the first creation. -/
theorem not_registryCorrect_of_wrapped {M pid : Nat} (hlt : N < 2 ^ 32)
    (hwrap : ¬ IndexOffsetFits N) : ¬ RegistryCorrect N M pid := by
  intro hcorrect
  have hlarge : 2 ^ 25 - 1 ≤ N := by
    rw [indexOffsetFits_iff] at hwrap
    omega
  have hoff : irtLayoutOffIndex N = 128 * ((N + 1) % 2 ^ 25) := irtLayoutOffIndex_eq
  by_cases hzero : irtLayoutOffIndex N = 0
  · -- no index region: the first creation fails
    obtain ⟨name⟩ : Nonempty PointName :=
      ⟨⟨⟨[97], by decide⟩, by decide, by decide⟩⟩
    obtain ⟨_, _, _, hanswers, _⟩ := hcorrect [.create 0 0 name 0 1]
    have hspec : ((Registry.empty : PointRegistry N).create 0 0 name.str (WellFormed 0 1)).1
        = .ok := by
      have hok : WellFormed 0 1 ∧ 0 < N ∧
          ¬ (Registry.empty : PointRegistry N).Taken (0, name.str) 0 :=
        ⟨by decide, by omega, by rintro ⟨_, _, h⟩; cases h⟩
      unfold Registry.create
      rw [dif_pos hok, if_pos (show (Registry.empty : PointRegistry N).holds 0 = none from rfl)]
    have hcode := (List.cons.inj hanswers).1
    simp only [RegistryOp.run, RegistryOp.spec, hspec, Answer.code.injEq] at hcode
    exact create_ne_ok_of_unbound hzero 0 0 name.str 0 1 hcode
  · obtain ⟨seg, delta, hrun, _, hagrees⟩ := hcorrect []
    obtain ⟨rfl, rfl⟩ : irtShmInitOwner N M pid = seg ∧ none = delta := by
      have := IndurtdbH.mk.inj hrun
      exact ⟨this.2.1, this.2.2⟩
    have hname : ∀ i, (((irtShmInitOwner N M pid).points i).name = CStr.empty ↔
        irtShmInitBytes N (128 + 128 * i + 45) = 0) := fun i => decodePoint_name_eq_empty_iff
    rcases irtShmInitBytes_cases (irtLayoutOffIndex N + 45) with hbyte | hbyte
    · -- the zeroed block holds entries that name point 0
      have hbytes : ∀ b, b < 4 →
          irtShmInitBytes N (irtLayoutOffIndex N + 8 * 4 + 4 + b) = filled 0 (0 + b) := by
        intro b hb
        rw [irtShmInitBytes_block hzero (by omega) (by omega), hbyte]
        rfl
      have hpid : ((irtShmInitOwner N M pid).slots 4).pointId = 0 := by
        change readLe (irtShmInitBytes N) (irtLayoutOffIndex N + 8 * 4 + 4) 4 = 0
        rw [readLe_congr 4 _ 0 hbytes]
        rfl
      have hlive : ((irtShmInitOwner N M pid).slots 4).Live := by
        rw [IrtIndexSlot.Live, hpid]
        decide
      have hcap := irtLayoutBuckets_pos N
      have hentry := (hagrees.entries 4 (by change 4 < irtLayoutBuckets N; omega) hlive).2.1
      refine hentry ?_
      change ((irtShmInitOwner N M pid).points ((irtShmInitOwner N M pid).slots 4).pointId).name
        = CStr.empty
      rw [hpid, hname]
      rcases Nat.lt_or_ge (128 + 128 * 0 + 45) (irtLayoutOffIndex N) with hlo | hhi
      · exact irtShmInitBytes_before hlo
      · have hone : 128 + 128 * 0 + 45 = irtLayoutOffIndex N + 45 := by omega
        rw [hone, hbyte]
    · -- the filled block gives a point a name
      obtain ⟨k, hk⟩ : ∃ k, (N + 1) % 2 ^ 25 = k + 1 :=
        ⟨(N + 1) % 2 ^ 25 - 1, by omega⟩
      have hkN : k < N := by omega
      have hholds := hagrees.registered k hkN
      have hempty : ((irtShmInitOwner N M pid).points k).name = CStr.empty :=
        pointKey_eq_none_iff.mp hholds.symm
      rw [hname, show 128 + 128 * k + 45 = irtLayoutOffIndex N + 45 by omega, hbyte] at hempty
      cases hempty

end Wrapped

/-- The registry of a fresh segment is correct over all runs exactly when the
index offset does not wrap. -/
theorem registryCorrect_iff (maxPoints : UInt32) (maxSubscribers pid : Nat) :
    RegistryCorrect maxPoints.toNat maxSubscribers pid ↔ IndexOffsetFits maxPoints.toNat := by
  constructor
  · intro hcorrect
    by_contra hwrap
    exact not_registryCorrect_of_wrapped maxPoints.toNat_lt hwrap hcorrect
  · intro hfits
    exact registryCorrect_of_fits hfits maxSubscribers pid

/-- The smallest capacity that `irt_shm_init` accepts and whose index offset
wraps. -/
theorem not_registryCorrect_wrapped : ¬ RegistryCorrect (2 ^ 25 - 1) 1 1 :=
  not_registryCorrect_of_wrapped (by decide) (by decide)

end InduRtdb.Api
