/-
  Api/TwoHandles.lean --- two handles of one segment.

  Source: `irt_index_bind` of `src/core/irt_index.c`, `irt_layout_buckets` of
  `src/core/irt_shm.h`, the attach checks of `irt_shm_init`, and the operations of
  `src/api/indurtdb.c`.

  A handle computes the number of buckets from the number of points it was opened with,
  not from the header.  Two handles search the same slots exactly when these numbers
  give the same power of two.
-/
import InduRtdb.Api.RegistryRun

set_option autoImplicit false

namespace InduRtdb.Api

open InduRtdb.Core InduRtdb.Spec

/-! ## Calls through either handle -/

/-- A call that may change a name. -/
inductive NamingOp where
  | create (partition : UInt32) (id : Nat) (name : CStr) (type access : Int)
  | delete (partition : UInt32) (id : Nat)
  | rename (partition : UInt32) (id : Nat) (name : CStr)

namespace NamingOp

/-- The point a call is about. -/
def id : NamingOp → Nat
  | create _ id _ _ _ => id
  | delete _ id => id
  | rename _ id _ => id

/-- A name the call passes fits into a record. -/
def NameFits : NamingOp → Prop
  | create _ _ name _ _ => name.bytes.length ≤ nameMax
  | delete _ _ => True
  | rename _ _ name => name.bytes.length ≤ nameMax

/-- Make the call through a handle. -/
def run (h : IndurtdbH) : NamingOp → Rc × IndurtdbH
  | create partition id name type access => indurtdbHCreatePointIn h partition id name type access
  | delete partition id => indurtdbHDeletePointIn h partition id
  | rename partition id name => indurtdbHRenamePointIn h partition id name

end NamingOp

/-- The handle a call is made through. -/
inductive Via where
  | owner
  | attached
  deriving DecidableEq

/-- One segment, and what each of two processes keeps for its handle of it. -/
structure TwoHandles where
  seg : Segment
  view : Via → IrtShm
  delta : Via → Option (List UInt8)

namespace TwoHandles

/-- One of the two handles. -/
def handle (t : TwoHandles) (v : Via) : IndurtdbH := ⟨t.view v, t.seg, t.delta v⟩

/-- A call through one of the two handles. -/
def call (t : TwoHandles) (v : Via) (op : NamingOp) : TwoHandles :=
  let h := (op.run (t.handle v)).2
  { t with seg := h.seg, delta := Function.update t.delta v h.delta }

/-- Calls one after another. -/
def calls (t : TwoHandles) (ops : List (Via × NamingOp)) : TwoHandles :=
  ops.foldl (fun t op => t.call op.1 op.2) t

/-- The creating process holds one handle, and another one has attached with `view`. -/
def opened (N M pid : Nat) (view : IrtShm) : TwoHandles where
  seg := irtShmInitOwner N M pid
  view
    | .owner => irtShmRequest N M
    | .attached => view
  delta _ := none

/-- Both handles give the same answers, find every registered point, and refuse a name
that is taken. -/
structure Agree (N : Nat) (t : TwoHandles) : Prop where
  same : ∀ (partition : UInt32) (name : CStr),
    indurtdbHFindByNameIn (t.handle .owner) partition name =
      indurtdbHFindByNameIn (t.handle .attached) partition name
  found : ∀ (v : Via) (id : Nat), id < N → (t.seg.points id).name ≠ CStr.empty →
    indurtdbHFindByNameIn (t.handle v) (t.seg.points id).partition (t.seg.points id).name = .ok id
  refused : ∀ (v : Via) (id other : Nat), id < N → (t.seg.points id).name ≠ CStr.empty →
    other ≠ id →
    (∀ type access, (indurtdbHCreatePointIn (t.handle v) (t.seg.points id).partition other
        (t.seg.points id).name type access).1 ≠ .ok) ∧
      (indurtdbHRenamePointIn (t.handle v) (t.seg.points id).partition other
        (t.seg.points id).name).1 ≠ .ok

end TwoHandles

/-- The handles agree after every sequence of calls on points of the smaller one. -/
def HandlesAgree (N M pid : Nat) (view : IrtShm) : Prop :=
  ∀ ops : List (Via × NamingOp),
    (∀ op, op ∈ ops → op.2.id < view.maxPoints ∧ op.2.NameFits) →
      ((TwoHandles.opened N M pid view).calls ops).Agree N

/-! ## The same number of buckets -/

section SameBuckets

variable {s s' : IrtShm} {seg : Segment} {partition : UInt32} {name : CStr} {id : Nat}
  (hbuckets : irtLayoutBuckets s'.maxPoints = irtLayoutBuckets s.maxPoints)
include hbuckets

theorem irtIndexBind_same (hdr : IrtHeader) : irtIndexBind s' hdr = irtIndexBind s hdr := by
  simp only [irtIndexBind, hbuckets]

theorem irtIndexLookup_same : irtIndexLookup s' seg partition name =
    irtIndexLookup s seg partition name := by
  simp only [irtIndexLookup, irtIndexBind_same hbuckets]

theorem irtIndexRemoveLocked_same :
    irtIndexRemoveLocked s' seg partition name = irtIndexRemoveLocked s seg partition name := by
  simp only [irtIndexRemoveLocked, irtIndexBind_same hbuckets]

theorem nameTaken_same (delta delta' : Option (List UInt8)) :
    nameTaken ⟨s', seg, delta'⟩ partition name id = nameTaken ⟨s, seg, delta⟩ partition name id := by
  simp only [nameTaken, irtIndexLookup_same hbuckets]

variable (hid : id < s.maxPoints) (hid' : id < s'.maxPoints)
include hid hid'

theorem irtIndexInsertLocked_same :
    irtIndexInsertLocked s' seg partition name id = irtIndexInsertLocked s seg partition name id := by
  have hle : ¬ s.maxPoints ≤ id := Nat.not_le.mpr hid
  have hle' : ¬ s'.maxPoints ≤ id := Nat.not_le.mpr hid'
  simp only [irtIndexInsertLocked, irtIndexBind_same hbuckets, hle, hle']

theorem irtIndexInsert_same :
    irtIndexInsert s' seg partition name id = irtIndexInsert s seg partition name id := by
  simp only [irtIndexInsert, irtIndexInsertLocked_same hbuckets hid hid']

/-- A creation through either handle does the same to the segment. -/
theorem create_same (delta delta' : Option (List UInt8)) (type access : Int) :
    (indurtdbHCreatePointIn ⟨s', seg, delta'⟩ partition id name type access).2.seg =
      (indurtdbHCreatePointIn ⟨s, seg, delta⟩ partition id name type access).2.seg := by
  have hle : ¬ s.maxPoints ≤ id := Nat.not_le.mpr hid
  have hle' : ¬ s'.maxPoints ≤ id := Nat.not_le.mpr hid'
  simp only [indurtdbHCreatePointIn, nameTaken_same hbuckets delta delta',
    irtIndexInsert_same hbuckets hid hid', hle, hle', if_false]
  split_ifs <;> try rfl
  generalize withWriteLock seg _ = locked
  obtain ⟨rc, seg₁⟩ := locked
  cases rc <;> try rfl
  dsimp only
  generalize irtIndexInsert s seg₁ partition name id = inserted
  obtain ⟨rc, seg₂⟩ := inserted
  cases rc <;> simp only [deltaLog_seg]

/-- A deletion through either handle does the same to the segment. -/
theorem delete_same (delta delta' : Option (List UInt8)) :
    (indurtdbHDeletePointIn ⟨s', seg, delta'⟩ partition id).2.seg =
      (indurtdbHDeletePointIn ⟨s, seg, delta⟩ partition id).2.seg := by
  have hle : ¬ s.maxPoints ≤ id := Nat.not_le.mpr hid
  have hle' : ¬ s'.maxPoints ≤ id := Nat.not_le.mpr hid'
  have hlocked : ∀ seg, deleteLocked s' seg partition id = deleteLocked s seg partition id := by
    intro seg
    simp only [deleteLocked, irtIndexRemoveLocked_same hbuckets]
  simp only [indurtdbHDeletePointIn, hlocked, hle, hle', if_false]
  generalize withWriteLock seg _ = locked
  obtain ⟨rc, seg₁⟩ := locked
  cases rc <;> simp only [deltaLog_seg]

/-- A renaming through either handle does the same to the segment. -/
theorem rename_same (delta delta' : Option (List UInt8)) :
    (indurtdbHRenamePointIn ⟨s', seg, delta'⟩ partition id name).2.seg =
      (indurtdbHRenamePointIn ⟨s, seg, delta⟩ partition id name).2.seg := by
  have hle : ¬ s.maxPoints ≤ id := Nat.not_le.mpr hid
  have hle' : ¬ s'.maxPoints ≤ id := Nat.not_le.mpr hid'
  have hlocked : ∀ seg,
      renameLocked s' seg partition id name = renameLocked s seg partition id name := by
    intro seg
    simp only [renameLocked, irtIndexRemoveLocked_same hbuckets,
      irtIndexInsertLocked_same hbuckets hid hid']
  simp only [indurtdbHRenamePointIn, nameTaken_same hbuckets delta delta', hlocked, hle, hle',
    if_false]
  split_ifs <;> try rfl
  generalize renameLocked s _ partition id name = renamed
  obtain ⟨outcome, seg₁⟩ := renamed
  cases outcome <;> simp only [deltaLog_seg]

/-- A call through either handle does the same to the segment. -/
theorem NamingOp.run_same {op : NamingOp} (hop : op.id = id) (delta delta' : Option (List UInt8)) :
    (op.run ⟨s', seg, delta'⟩).2.seg = (op.run ⟨s, seg, delta⟩).2.seg := by
  subst hop
  cases op with
  | create partition id name type access => exact create_same hbuckets hid hid' delta delta' _ _
  | delete partition id => exact delete_same hbuckets hid hid' delta delta'
  | rename partition id name => exact rename_same hbuckets hid hid' delta delta'

end SameBuckets

/-! ## Agreement -/

/-- The segment stands for some registry, with nothing superfluous in its index. -/
def Sound (n : Nat) (seg : Segment) : Prop :=
  ∃ r : PointRegistry n, Refines n seg r ∧ TightFor n seg r

section Agreement

variable {s : IrtShm} {seg : Segment} (hn : s.maxPoints < irtIndexTombstone)
include hn

/-- A registered point is found under its own name. -/
theorem Sound.found (h : Sound s.maxPoints seg) (delta : Option (List UInt8)) {id : Nat}
    (hid : id < s.maxPoints) (hname : (seg.points id).name ≠ CStr.empty) :
    indurtdbHFindByNameIn ⟨s, seg, delta⟩ (seg.points id).partition (seg.points id).name =
      .ok id := by
  obtain ⟨r, href, _⟩ := h
  let name : PointName := ⟨(seg.points id).name, hname, href.covers.names id hid⟩
  have hholds : r.holds id = some ((seg.points id).partition, name.str) := by
    rw [href.holds id hid, pointKey_eq_some_iff]
    exact ⟨hname, rfl, rfl⟩
  have hlookup : irtIndexLookup s seg (seg.points id).partition (seg.points id).name = .ok id :=
    (href.lookup hn name).trans (Registry.find_of_holds hholds)
  have hempty : (seg.points id).name.isEmpty = false := CStr.isEmpty_eq_false_iff.mpr hname
  simp only [indurtdbHFindByNameIn, hempty, Bool.false_eq_true, if_false, hlookup]

variable (htwo : 2 * s.maxPoints ≤ irtLayoutBuckets s.maxPoints)
include htwo

/-- A call with a name that fits keeps the registry sound. -/
theorem Sound.run {op : NamingOp} (h : Sound s.maxPoints seg) (hfits : op.NameFits)
    (delta : Option (List UInt8)) :
    (op.run ⟨s, seg, delta⟩).2.shm = s ∧ Sound s.maxPoints (op.run ⟨s, seg, delta⟩).2.seg := by
  have hregistry : ∀ call : RegistryOp,
      (call.run ⟨s, seg, delta⟩).2.shm = s ∧
        Sound s.maxPoints (call.run ⟨s, seg, delta⟩).2.seg := by
    intro call
    obtain ⟨r, href, htight⟩ := h
    obtain ⟨seg', delta', hrun, href', htight'⟩ := call.run_refines hn htwo href htight delta
    rw [hrun]
    exact ⟨rfl, _, href', htight'⟩
  cases op with
  | create partition id name type access =>
      by_cases hname : name = CStr.empty
      · rw [NamingOp.run, indurtdbHCreatePointIn, if_pos (CStr.isEmpty_iff.mpr hname)]
        exact ⟨rfl, h⟩
      · exact hregistry (.create partition id ⟨name, hname, hfits⟩ type access)
  | delete partition id => exact hregistry (.delete partition id)
  | rename partition id name =>
      by_cases hname : name = CStr.empty
      · rw [NamingOp.run, indurtdbHRenamePointIn, if_pos (CStr.isEmpty_iff.mpr hname)]
        exact ⟨rfl, h⟩
      · exact hregistry (.rename partition id ⟨name, hname, hfits⟩)

end Agreement

/-- A name found under another id is refused. -/
theorem refused_of_found {h : IndurtdbH} {partition : UInt32} {name : CStr} {id other : Nat}
    (hfound : indurtdbHFindByNameIn h partition name = .ok id) (hne : other ≠ id) :
    (∀ type access, (indurtdbHCreatePointIn h partition other name type access).1 ≠ .ok) ∧
      (indurtdbHRenamePointIn h partition other name).1 ≠ .ok := by
  have htaken : nameTaken h partition name other = true := by
    unfold indurtdbHFindByNameIn at hfound
    split at hfound
    · cases hfound
    · rw [nameTaken, hfound]
      exact bne_iff_ne.mpr hne.symm
  constructor
  · intro type access
    unfold indurtdbHCreatePointIn
    rw [if_pos htaken]
    split_ifs <;> exact Rc.noConfusion
  · unfold indurtdbHRenamePointIn
    rw [if_pos htaken]
    split_ifs <;> exact Rc.noConfusion

section Calls

variable {N M pid : Nat} {view : IrtShm}

@[simp] theorem TwoHandles.calls_view (t : TwoHandles) (ops : List (Via × NamingOp)) :
    (t.calls ops).view = t.view := by
  induction ops generalizing t with
  | nil => rfl
  | cons op ops ih => exact ih _

/-- Calls through either handle keep the registry sound. -/
theorem TwoHandles.calls_sound {t : TwoHandles} (hfits : IndexOffsetFits N)
    (howner : (t.view .owner).maxPoints = N) (hle : (t.view .attached).maxPoints ≤ N)
    (hbuckets : irtLayoutBuckets (t.view .attached).maxPoints = irtLayoutBuckets N)
    (hsound : Sound N t.seg) (ops : List (Via × NamingOp))
    (hops : ∀ op, op ∈ ops → op.2.id < (t.view .attached).maxPoints ∧ op.2.NameFits) :
    Sound N (t.calls ops).seg := by
  induction ops generalizing t with
  | nil => exact hsound
  | cons op ops ih =>
      obtain ⟨hid, hname⟩ := hops op List.mem_cons_self
      refine ih howner hle hbuckets ?_ fun op' hop' => hops op' (List.mem_cons_of_mem _ hop')
      have hlt := indexOffsetFits_iff.mp hfits
      have hrun : Sound N (op.2.run ⟨t.view .owner, t.seg, none⟩).2.seg := by
        have hN : N = (t.view .owner).maxPoints := howner.symm
        rw [hN] at hsound hlt hfits ⊢
        have hn : (t.view .owner).maxPoints < irtIndexTombstone := by
          simp only [irtIndexTombstone]
          omega
        exact (hsound.run hn hfits.two_mul_le hname none).2
      have hview : irtLayoutBuckets (t.view op.1).maxPoints =
          irtLayoutBuckets (t.view .owner).maxPoints ∧ op.2.id < (t.view op.1).maxPoints := by
        cases op.1 with
        | owner => exact ⟨rfl, by omega⟩
        | attached => exact ⟨by rw [hbuckets, howner], hid⟩
      have hsame : (t.call op.1 op.2).seg = (op.2.run ⟨t.view .owner, t.seg, none⟩).2.seg :=
        NamingOp.run_same hview.1 (by omega) hview.2 rfl _ _
      rw [hsame]
      exact hrun

/-- Handles with the same number of buckets agree. -/
theorem handlesAgree_of_buckets_eq (hfits : IndexOffsetFits N) (hle : view.maxPoints ≤ N)
    (hbuckets : irtLayoutBuckets view.maxPoints = irtLayoutBuckets N) :
    HandlesAgree N M pid view := by
  intro ops hops
  have hlt := indexOffsetFits_iff.mp hfits
  have hsound : Sound N ((TwoHandles.opened N M pid view).calls ops).seg :=
    TwoHandles.calls_sound hfits rfl hle hbuckets ⟨_, irtShmInitOwner_refines hfits M pid⟩ ops hops
  have hview := TwoHandles.calls_view (.opened N M pid view) ops
  generalize (TwoHandles.opened N M pid view).calls ops = t at hsound hview ⊢
  have howner : (t.view .owner) = irtShmRequest N M := by rw [hview]; rfl
  have hattached : (t.view .attached) = view := by rw [hview]; rfl
  have hsame : ∀ (v : Via) (partition : UInt32) (name : CStr),
      indurtdbHFindByNameIn (t.handle v) partition name =
        indurtdbHFindByNameIn ⟨irtShmRequest N M, t.seg, none⟩ partition name := by
    intro v partition name
    have hcap : irtLayoutBuckets (t.view v).maxPoints =
        irtLayoutBuckets (irtShmRequest N M).maxPoints := by
      cases v with
      | owner => rw [howner]
      | attached => rw [hattached]; exact hbuckets
    simp only [indurtdbHFindByNameIn, TwoHandles.handle, irtIndexLookup_same hcap]
  have hfound : ∀ (v : Via) (id : Nat), id < N → (t.seg.points id).name ≠ CStr.empty →
      indurtdbHFindByNameIn (t.handle v) (t.seg.points id).partition (t.seg.points id).name =
        .ok id := by
    intro v id hid hname
    have hn : (irtShmRequest N M).maxPoints < irtIndexTombstone := by
      simp only [irtShmRequest, irtIndexTombstone]
      omega
    rw [hsame]
    exact Sound.found (s := irtShmRequest N M) hn hsound none hid hname
  refine ⟨fun partition name => ?_, hfound, fun v id other hid hname hne => ?_⟩
  · rw [hsame .owner, hsame .attached]
  · exact refused_of_found (hfound v id hid hname) hne

end Calls

/-! ## Different numbers of buckets -/

section Slots

variable {seg : Segment} {i : Nat}

/-- What the body leaves alone, the body under the lock leaves alone. -/
theorem withWriteLock_slots {body : Segment → Rc × Segment}
    (hbody : ∀ seg', seg'.slots = seg.slots → (body seg').2.slots i = seg.slots i) :
    (withWriteLock seg body).2.slots i = seg.slots i := by
  unfold withWriteLock
  dsimp only
  split
  · rfl
  · exact hbody _ rfl

/-- The search for a free bucket ends at an empty one. -/
theorem irtIndexInsertLoop_of_empty {ix : IrtIndex} {hash partition : UInt32} {name : CStr}
    {d : Nat} (hempty : (seg.slots (ix.slotIndex hash d)).pointId = irtIndexEmpty) (n : Nat) :
    irtIndexInsertLoop ix seg hash partition name (n + 1) d none =
      .free (ix.slotIndex hash d) := by
  simp only [irtIndexInsertLoop, hempty, if_true, Option.getD_none]

/-- The search for a name ends at an empty bucket. -/
theorem irtIndexProbeLoop_of_empty {ix : IrtIndex} {hash partition : UInt32} {name : CStr}
    {d : Nat} (hempty : (seg.slots (ix.slotIndex hash d)).pointId = irtIndexEmpty) (n : Nat) :
    irtIndexProbeLoop ix seg hash partition name (n + 1) d = none := by
  simp only [irtIndexProbeLoop, hempty, if_true]

/-- An insertion whose first bucket is empty fills that one. -/
theorem irtIndexInsertLocked_slots {s : IrtShm} {partition : UInt32} {name : CStr} {id : Nat}
    (hempty : (seg.slots ((indexView s.maxPoints).slotIndex
      (irtIndexComposeHash partition name) 0)).pointId = irtIndexEmpty)
    (hne : i ≠ (indexView s.maxPoints).slotIndex (irtIndexComposeHash partition name) 0) :
    (irtIndexInsertLocked s seg partition name id).2.slots i = seg.slots i := by
  obtain ⟨k, hk⟩ : ∃ k, irtLayoutBuckets s.maxPoints = k + 1 :=
    ⟨irtLayoutBuckets s.maxPoints - 1, by have := irtLayoutBuckets_pos s.maxPoints; omega⟩
  unfold irtIndexInsertLocked
  split
  · rfl
  · by_cases hoff : seg.hdr.offIndex = 0
    · simp [irtIndexBind, hoff]
    · rw [irtIndexBind_eq hoff]
      dsimp only
      split
      · rfl
      · have hstored : ((seg.setPoint id { seg.points id with partition := partition }).slots
            ((indexView s.maxPoints).slotIndex (irtIndexComposeHash partition name) 0)).pointId =
            irtIndexEmpty := hempty
        rw [hk, irtIndexInsertLoop_of_empty hstored]
        exact Function.update_of_ne hne _ _

/-- A creation whose first bucket is empty fills at most that one. -/
theorem create_slots {h : IndurtdbH} {partition : UInt32} {id : Nat} {name : CStr}
    {type access : Int}
    (hempty : (h.seg.slots ((indexView h.shm.maxPoints).slotIndex
      (irtIndexComposeHash partition name) 0)).pointId = irtIndexEmpty)
    (hne : i ≠ (indexView h.shm.maxPoints).slotIndex (irtIndexComposeHash partition name) 0) :
    (indurtdbHCreatePointIn h partition id name type access).2.seg.slots i = h.seg.slots i := by
  have hregister : ∀ (j : Nat) (type access : UInt8),
      (withWriteLock h.seg fun seg =>
        registerLocked seg partition id name type access).2.slots j = h.seg.slots j := by
    intro j type access
    refine withWriteLock_slots fun seg' hseg' => ?_
    unfold registerLocked
    split <;> exact congrFun hseg' j
  unfold indurtdbHCreatePointIn
  split_ifs <;> try rfl
  have hregistered := fun j => hregister j (.ofNat type.toNat) (.ofNat access.toNat)
  generalize (withWriteLock h.seg fun seg =>
    registerLocked seg partition id name (.ofNat type.toNat) (.ofNat access.toNat)) = locked
    at hregistered ⊢
  obtain ⟨rc, seg₁⟩ := locked
  have hinserted : (irtIndexInsert h.shm seg₁ partition name id).2.slots i = h.seg.slots i := by
    refine (withWriteLock_slots fun seg' hseg' => ?_).trans (hregistered i)
    refine (irtIndexInsertLocked_slots ?_ hne).trans (congrFun hseg' i)
    rw [hseg', hregistered]
    exact hempty
  cases rc <;> try exact hregistered i
  dsimp only
  generalize irtIndexInsert h.shm seg₁ partition name id = inserted at hinserted ⊢
  obtain ⟨rc, seg₂⟩ := inserted
  have hrollback : (unregister seg₂ id).slots i = seg₂.slots i := withWriteLock_slots fun seg' hseg' =>
    congrFun hseg' i
  cases rc <;> first | exact hrollback.trans hinserted | skip
  dsimp only
  rw [deltaLog_seg]
  exact hinserted

/-- A search that meets an empty bucket first finds nothing. -/
theorem lookup_ne_ok_of_empty {s : IrtShm} {partition : UInt32} {name : CStr} {id : Nat}
    (hempty : (seg.slots ((indexView s.maxPoints).slotIndex
      (irtIndexComposeHash partition name) 0)).pointId = irtIndexEmpty) :
    irtIndexLookup s seg partition name ≠ .ok id := by
  obtain ⟨k, hk⟩ : ∃ k, irtLayoutBuckets s.maxPoints = k + 1 :=
    ⟨irtLayoutBuckets s.maxPoints - 1, by have := irtLayoutBuckets_pos s.maxPoints; omega⟩
  have hprobe : ∀ n, irtIndexLookupAttempts (indexView s.maxPoints) seg partition name n =
      .error .errBusy ∨
      irtIndexLookupAttempts (indexView s.maxPoints) seg partition name n = .error .errNotFound := by
    intro n
    induction n with
    | zero => exact Or.inl rfl
    | succ n ih =>
        rw [irtIndexLookupAttempts]
        split
        · exact ih
        · have hcap : (indexView s.maxPoints).capacity = k + 1 := hk
          rw [irtIndexProbe, hcap, irtIndexProbeLoop_of_empty hempty]
          exact Or.inr rfl
  intro hok
  unfold irtIndexLookup at hok
  split at hok
  · cases hok
  · by_cases hoff : seg.hdr.offIndex = 0
    · simp [irtIndexBind, hoff] at hok
    · rw [irtIndexBind_eq hoff] at hok
      dsimp only at hok
      split at hok
      · cases hok
      · rcases hprobe irtIndexMaxRetry with hbusy | hnone
        · rw [hbusy] at hok
          cases hok
        · rw [hnone] at hok
          cases hok

end Slots

/-- A name whose hash has all the bits set in which two bucket numbers can differ. -/
def splitName : CStr := ⟨[97, 78, 72, 54, 111], by decide⟩

/-- Two numbers of buckets put `splitName` into different buckets. -/
theorem splitName_home {j k : Nat} (hj : 3 ≤ j) (hjk : j < k) (hk : k ≤ 26) :
    (irtIndexComposeHash 0 splitName).toNat % 2 ^ j ≠
      (irtIndexComposeHash 0 splitName).toNat % 2 ^ k := by
  have hbits : ∀ b, b < 26 → 3 ≤ b → (irtIndexComposeHash 0 splitName).toNat.testBit b = true := by
    decide +kernel
  intro heq
  have hbit := congrArg (Nat.testBit · j) heq
  simp only [Nat.testBit_mod_two_pow, hjk, hbits j (by omega) hj, lt_irrefl, decide_false,
    decide_true, Bool.false_and, Bool.true_and] at hbit
  cases hbit

section Calls

variable {N M pid : Nat} {view : IrtShm}

/-- Handles with different numbers of buckets do not agree: the first creation through
the owner is not found through the other one. -/
theorem not_handlesAgree_of_buckets_ne (hfits : IndexOffsetFits N) (hpos : 0 < view.maxPoints)
    (hle : view.maxPoints ≤ N)
    (hbuckets : irtLayoutBuckets view.maxPoints ≠ irtLayoutBuckets N) :
    ¬ HandlesAgree N M pid view := by
  intro hall
  obtain ⟨j, hj, -, hpowj⟩ := irtLayoutBuckets_pow view.maxPoints
  obtain ⟨k, hk, -, hpowk⟩ := irtLayoutBuckets_pow N
  have hjk : j < k := by
    have hmono := irtLayoutBuckets_mono hle
    rw [hpowj, hpowk] at hmono hbuckets
    exact lt_of_le_of_ne ((Nat.pow_le_pow_iff_right (by decide)).mp hmono)
      fun heq => hbuckets (by rw [heq])
  have hk26 : k ≤ 26 := by
    have hcap := hfits.buckets_le
    rw [hpowk] at hcap
    exact (Nat.pow_le_pow_iff_right (by decide)).mp hcap
  have hhome := splitName_home hj hjk hk26
  have hslot : ∀ n, (indexView n).slotIndex (irtIndexComposeHash 0 splitName) 0 =
      (irtIndexComposeHash 0 splitName).toNat % irtLayoutBuckets n := by
    intro n
    rw [slotIndex_eq_linear, Probe.linear, Nat.add_zero, Nat.mod_mod]
  have hagree := hall [(.owner, .create 0 0 splitName 0 1)] (by
    intro op hop
    obtain rfl := List.mem_singleton.mp hop
    exact ⟨hpos, by simp only [NamingOp.NameFits]; decide⟩)
  generalize ht : (TwoHandles.opened N M pid view).calls [(.owner, .create 0 0 splitName 0 1)] = t
    at hagree
  have hview : t.view = (TwoHandles.opened N M pid view).view := by
    rw [← ht, TwoHandles.calls_view]
  have hseg : t.seg =
      (indurtdbHCreatePointIn (freshHandle N M pid) 0 0 splitName 0 1).2.seg := by
    rw [← ht]
    rfl
  -- the owner finds what it has created
  have hfound : indurtdbHFindByNameIn (t.handle .owner) 0 splitName = .ok 0 := by
    let name : PointName := ⟨splitName, by decide, by decide⟩
    obtain ⟨seg, delta, hrun, -, hagrees⟩ :=
      registryCorrect_of_fits hfits M pid [.create 0 0 name 0 1]
    have hholds : (specOps (Registry.empty : PointRegistry N) [.create 0 0 name 0 1]).2.holds 0 =
        some (0, splitName) := by
      have htaken : ¬ (Registry.empty : PointRegistry N).Taken (0, splitName) 0 := by
        rintro ⟨_, _, h⟩
        cases h
      have hassign : ((Registry.empty : PointRegistry N).create 0 0 splitName (WellFormed 0 1)).2 =
          (Registry.empty : PointRegistry N).assign 0 (0, splitName) (by omega) htaken :=
        Registry.create_eq_assign (by decide) (by omega) htaken rfl
      simp only [specOps, RegistryOp.spec]
      rw [show name.str = splitName from rfl, hassign]
      simp only [Registry.assign, Function.update_self]
    have hsegs : t.seg = seg := hseg.trans (congrArg IndurtdbH.seg hrun)
    have hfind := (hagrees.found 0 name 0).mpr hholds
    rw [TwoHandles.handle, hview, hsegs]
    exact hfind
  -- the other handle meets an empty bucket first
  rw [hagree.same, indurtdbHFindByNameIn, if_neg (by decide)] at hfound
  refine lookup_ne_ok_of_empty ?_ hfound
  have hne : (indexView view.maxPoints).slotIndex (irtIndexComposeHash 0 splitName) 0 ≠
      (indexView N).slotIndex (irtIndexComposeHash 0 splitName) 0 := by
    rw [hslot, hslot, hpowj, hpowk]
    exact hhome
  have hkept : (indurtdbHCreatePointIn (freshHandle N M pid) 0 0 splitName 0 1).2.seg.slots
      ((indexView view.maxPoints).slotIndex (irtIndexComposeHash 0 splitName) 0) =
        (irtShmInitOwner N M pid).slots _ :=
    create_slots (irtShmInitOwner_slots hfits (slotIndex_lt N _ 0)) hne
  have hlt : (indexView view.maxPoints).slotIndex (irtIndexComposeHash 0 splitName) 0 <
      irtLayoutBuckets N := Nat.lt_of_lt_of_le (slotIndex_lt _ _ 0) (irtLayoutBuckets_mono hle)
  have hattached : t.view .attached = view := by
    rw [hview]
    rfl
  change (t.seg.slots ((indexView (t.view .attached).maxPoints).slotIndex _ 0)).pointId = _
  rw [hattached, hseg, hkept]
  exact irtShmInitOwner_slots hfits hlt

/-- On a segment whose index offset does not wrap, an owner's handle and an attached one
agree on names exactly when both capacities give the same number of buckets. -/
theorem handlesAgree_iff {n m : Nat} (hfits : IndexOffsetFits N)
    (haccept : irtShmAttach (irtShmInitHeader N M pid) n m = .ok view) :
    HandlesAgree N M pid view ↔ irtLayoutBuckets view.maxPoints = irtLayoutBuckets N := by
  obtain ⟨⟨hpos, hle, -⟩, rfl⟩ := irtShmAttach_created_iff.mp haccept
  constructor
  · intro hagree
    by_contra hbuckets
    exact not_handlesAgree_of_buckets_ne hfits hpos hle hbuckets hagree
  · exact handlesAgree_of_buckets_eq hfits hle

end Calls

/-- An owner of four points and an attached handle of three share eight buckets. -/
theorem handlesAgree_iff_three : HandlesAgree 4 1 1 (irtShmRequest 3 1) :=
  (handlesAgree_iff (n := 3) (m := 1) (by decide)
    (irtShmAttach_created_iff.mpr ⟨by decide, rfl⟩)).mpr (by decide)

/-- An owner of five points has sixteen buckets, an attached handle of four has eight. -/
theorem not_handlesAgree :
    ¬ ∀ (N M pid n m : Nat) (view : IrtShm),
      irtShmAttach (irtShmInitHeader N M pid) n m = .ok view → HandlesAgree N M pid view := by
  intro hall
  have hagree := hall 5 1 1 4 1 (irtShmRequest 4 1) (irtShmAttach_created_iff.mpr ⟨by decide, rfl⟩)
  exact not_handlesAgree_of_buckets_ne (by decide) (by decide) (by decide) (by decide) hagree

end InduRtdb.Api
