/-
  Monitor/Listing.lean --- listing the points page by page.

  Source: `RtdbClient.list_points` of `tools/rtdb-monitor/rtdb_client.py`, `do_list` and
  `op_list` of `rtdbd/src/rtdbd.c`.

  The daemon takes the offset of a page for an id.  The client goes on by the number of
  entries it has received.  Nothing else is asked of the daemon in between, and it answers
  in time.
-/
import InduRtdb.Lib.Pages
import InduRtdb.Monitor.Protocol

set_option autoImplicit false

namespace InduRtdb.Monitor

open InduRtdb.Core InduRtdb.Api InduRtdb.Daemon InduRtdb.Lib

/-! ## The client -/

/-- An entry of the list that `list_points` returns. -/
structure PointEntry (Text : Type) where
  id : Nat
  type : Nat
  typeName : String
  access : Nat
  name : Text
  partition : Nat
  deriving DecidableEq

/-- `LIST_REQ.pack`: `none` where a number does not fit its field. -/
def packListReq (maxPerPage offset partition : Nat) : Option (List UInt8) :=
  if maxPerPage < 2 ^ 32 ∧ offset < 2 ^ 32 ∧ partition < 2 ^ 32 then
    some (le32 maxPerPage ++ le32 offset ++ le32 partition)
  else none

section Client

variable {Text : Type} (decode : List UInt8 → Text)

/-- The entry made of the fields of `POINT_INFO.unpack`. -/
def unpackPointInfo (bytes : List UInt8) : PointEntry Text where
  id := fieldAt bytes 0 4
  type := fieldAt bytes 4 1
  typeName := typeName (fieldAt bytes 4 1)
  access := fieldAt bytes 5 1
  name := decode (rstripNul ((bytes.drop 8).take 64))
  partition := fieldAt bytes 72 4

/-- The entries of a page. -/
def unpackPage (body : List UInt8) : List (PointEntry Text) :=
  (List.range (body.length / sizeofPointInfo)).map fun i =>
    unpackPointInfo decode ((body.take ((i + 1) * sizeofPointInfo)).drop (i * sizeofPointInfo))

/-- What comes of `list_points`. -/
inductive Listed (Text : Type) where
  | ended (out : List (PointEntry Text))
  | raised
  /-- the pages allowed for were not enough -/
  | running
  deriving DecidableEq

/-- The loop of `list_points`, of at most so many turns.  `ask` is what `_request` returns
for the payload of an `OP_LIST`. -/
def listPointsLoop (ask : List UInt8 → Option (Nat × List UInt8))
    (maxPerPage filterPartition : Nat) : Nat → Nat → List (PointEntry Text) → Listed Text
  | 0, _, _ => .running
  | fuel + 1, offset, out =>
      match packListReq maxPerPage offset filterPartition with
      | none => .raised
      | some payload =>
          match okBody (ask payload) with
          | none => .raised
          | some body =>
              if body.isEmpty then .ended out
              else
                let n := body.length / sizeofPointInfo
                if n < maxPerPage then .ended (out ++ unpackPage decode body)
                else
                  listPointsLoop ask maxPerPage filterPartition fuel (offset + n)
                    (out ++ unpackPage decode body)

/-- `list_points`; `none` as a partition stands for all of them. -/
def listPoints (ask : List UInt8 → Option (Nat × List UInt8)) (maxPerPage : Nat)
    (partition : Option Nat) (fuel : Nat) : Listed Text :=
  listPointsLoop decode ask maxPerPage (partition.getD rtdbdPartitionAll.toNat) fuel 0 []

end Client

/-! ## The daemon -/

/-- What `_request` returns for an `OP_LIST` on a connection to the daemon. -/
def askDaemon (d : Rtdbd) (slot : Nat) (env : Env) (payload : List UInt8) :
    Option (Nat × List UInt8) :=
  readResponse (handleRequest d slot ⟨frameBytes rtdbdOpList payload, none, []⟩ env).sock.output

/-- The point is registered and the filter lets it through. -/
def Matches (h : IndurtdbH) (filter : UInt32) (id : Nat) : Prop :=
  pmValidateId h.seg id ∧ (h.seg.points id).name.isEmpty = false ∧
    (filter = rtdbdPartitionAll ∨ (h.seg.points id).partition = filter)

instance (h : IndurtdbH) (filter : UInt32) (id : Nat) : Decidable (Matches h filter id) :=
  inferInstanceAs (Decidable (_ ∧ _ ∧ _))

/-- The ids of the points that match, in ascending order. -/
def matchingIds (d : Rtdbd) (filter : UInt32) : List Nat :=
  (List.range d.maxPoints).filter fun id => decide (Matches d.h filter id)

/-- The entry of a point. -/
def entryOf {Text : Type} (decode : List UInt8 → Text) (h : IndurtdbH) (id : Nat) :
    PointEntry Text where
  id := id
  type := (h.seg.points id).type.toNat
  typeName := typeName (h.seg.points id).type.toNat
  access := (h.seg.points id).access.toNat
  name := decode (h.seg.points id).name.bytes
  partition := (h.seg.points id).partition.toNat

/-- The names are as every operation of the registry stores them: the last of the 64 bytes
is the NUL. -/
def NamesStored (d : Rtdbd) : Prop :=
  ∀ id, id < d.maxPoints → (d.h.seg.points id).name.bytes.length ≤ nameMax

instance (d : Rtdbd) : Decidable (NamesStored d) :=
  inferInstanceAs (Decidable (∀ id, id < d.maxPoints → _))

/-- The partition a page is asked for is one the daemon serves. -/
def Served (d : Rtdbd) (filter : UInt32) : Prop :=
  filter = rtdbdPartitionAll ∨ rtdbdConfPartitionAllowed d.conf filter = true

instance (d : Rtdbd) (filter : UInt32) : Decidable (Served d filter) :=
  inferInstanceAs (Decidable (_ ∨ _))

section Daemon

variable {d : Rtdbd} {slot : Nat} {env : Env} {filter : UInt32}

/-- The loop of `do_list` collects the first matching ids. -/
theorem listLoop_eq (h : IndurtdbH) (n : Nat) : ∀ id room,
    listLoop h filter n id room =
      (((List.range' id n).filter fun i => decide (Matches h filter i)).take room).flatMap
        fun i => pointInfoBytes i (h.seg.points i) := by
  induction n with
  | zero => intro id room; rw [listLoop, List.range'_zero]; simp
  | succ n ih =>
      intro id room
      cases room with
      | zero => simp [listLoop]
      | succ room =>
          rw [listLoop, indurtdbHReadPoint, List.range'_succ, List.filter_cons]
          rcases Decidable.em (Matches h filter id) with hmatch | hnot
          · obtain ⟨hid, hname, hfilter⟩ := hmatch
            have hpass :
                ¬ (filter ≠ rtdbdPartitionAll ∧ (h.seg.points id).partition ≠ filter) := by
              rw [not_and_or, not_not, not_not]
              exact hfilter
            rw [if_pos hid, if_pos (decide_eq_true ⟨hid, hname, hfilter⟩), List.take_succ_cons,
              List.flatMap_cons]
            simp only [hname, Bool.false_eq_true, if_false, if_neg hpass, ih]
          · have hfalse : ¬ decide (Matches h filter id) = true := by simpa using hnot
            rw [if_neg hfalse]
            split
            next => exact ih (id + 1) (room + 1)
            next pt hpt =>
              split at hpt
              next hid =>
                obtain rfl := Option.some.inj hpt
                split
                next => exact ih (id + 1) (room + 1)
                next hnamed =>
                  have hout :
                      filter ≠ rtdbdPartitionAll ∧ (h.seg.points id).partition ≠ filter := by
                    by_contra hpass
                    rw [not_and_or, not_not, not_not] at hpass
                    exact hnot ⟨hid, Bool.not_eq_true _ ▸ hnamed, hpass⟩
                  rw [if_pos hout]
                  exact ih (id + 1) (room + 1)
              next => cases hpt

/-- The ids from `offset` on. -/
theorem filter_le_range (N offset : Nat) :
    (List.range N).filter (fun i => decide (offset ≤ i)) = List.range' offset (N - offset) := by
  rcases Nat.le_total offset N with hle | hle
  · obtain ⟨k, rfl⟩ := Nat.exists_eq_add_of_le hle
    have hlow : (List.range offset).filter (fun i => decide (offset ≤ i)) = [] := by
      rw [List.filter_eq_nil_iff]
      intro i hi
      simpa using List.mem_range.mp hi
    have hhigh : ((List.range k).map (offset + ·)).filter (fun i => decide (offset ≤ i)) =
        (List.range k).map (offset + ·) := by
      rw [List.filter_eq_self]
      intro i hi
      obtain ⟨j, -, rfl⟩ := List.mem_map.mp hi
      simp
    rw [List.range_add, List.filter_append, hlow, hhigh, List.nil_append, Nat.add_sub_cancel_left,
      List.range'_eq_map_range]
  · have hnone : (List.range N).filter (fun i => decide (offset ≤ i)) = [] := by
      rw [List.filter_eq_nil_iff]
      intro i hi
      have hlt := List.mem_range.mp hi
      simp only [decide_eq_true_eq]
      omega
    rw [hnone, Nat.sub_eq_zero_of_le hle, List.range'_zero]

/-- A page of `do_list` is a page of the matching ids. -/
theorem doList_eq {maxN : Nat} (offset : Nat) (hmax : maxN ≠ 0) :
    doList d filter maxN offset =
      (page (matchingIds d filter) (min maxN rtdbdListChunk) offset).flatMap fun i =>
        pointInfoBytes i (d.h.seg.points i) := by
  have hcap : (if rtdbdListChunk < (if maxN = 0 then rtdbdListChunk else maxN) then rtdbdListChunk
      else (if maxN = 0 then rtdbdListChunk else maxN)) = min maxN rtdbdListChunk := by
    rw [if_neg hmax]
    split
    · exact (Nat.min_eq_right (by omega)).symm
    · exact (Nat.min_eq_left (by omega)).symm
  have hids : (matchingIds d filter).filter (fun i => decide (offset ≤ i)) =
      (List.range' offset (d.maxPoints - offset)).filter
        fun i => decide (Matches d.h filter i) := by
    rw [matchingIds, List.filter_comm, filter_le_range]
  rw [doList, hcap, listLoop_eq, page, hids]

/-- What a page holds for a partition, allowed or not. -/
def servedPage (d : Rtdbd) (filter : UInt32) (maxPerPage offset : Nat) : List Nat :=
  if Served d filter then
    page (matchingIds d filter) (min maxPerPage rtdbdListChunk) offset
  else []

theorem length_pageBytes (h : IndurtdbH) (ids : List Nat) :
    (ids.flatMap fun i => pointInfoBytes i (h.seg.points i)).length =
      ids.length * sizeofPointInfo := by
  induction ids with
  | nil => rfl
  | cons id ids ih =>
      rw [List.flatMap_cons, List.length_append, ih, length_pointInfoBytes, List.length_cons,
        Nat.succ_mul, Nat.add_comm]

theorem length_servedPage_le (maxPerPage offset : Nat) :
    (servedPage d filter maxPerPage offset).length ≤ min maxPerPage rtdbdListChunk := by
  unfold servedPage
  split
  · exact length_page_le _ _ _
  · exact Nat.zero_le _

/-- A request for a page is answered with that page and changes nothing. -/
theorem handleRequest_list {maxPerPage offset : Nat} (hpos : maxPerPage ≠ 0)
    (hmax : maxPerPage < 2 ^ 32) (hoffset : offset < 2 ^ 32) :
    (handleRequest d slot ⟨frameBytes rtdbdOpList
        (le32 maxPerPage ++ le32 offset ++ le32 filter.toNat), none, []⟩ env).d = d ∧
      (handleRequest d slot ⟨frameBytes rtdbdOpList
        (le32 maxPerPage ++ le32 offset ++ le32 filter.toNat), none, []⟩ env).sock.output =
        frameBytes rtdbdStOk ((servedPage d filter maxPerPage offset).flatMap
          fun i => pointInfoBytes i (d.h.seg.points i)) := by
  have hfields : RtdbdListReq.ofBytes (le32 maxPerPage ++ le32 offset ++ le32 filter.toNat) =
      ⟨maxPerPage, offset, filter⟩ := by
    have hfirst : ofLe (le32 maxPerPage) = maxPerPage := ofLe_le32 hmax
    have hsecond : ofLe (le32 offset) = offset := ofLe_le32 hoffset
    have hthird : UInt32.ofNat (ofLe (le32 filter.toNat)) = filter := by
      rw [ofLe_le32 filter.toNat_lt, UInt32.ofNat_toNat]
    exact congr (congr (congrArg RtdbdListReq.mk hfirst) hsecond) hthird
  have hentry : kOps.find? (fun entry => entry.1 == rtdbdOpList) = some (rtdbdOpList, opList) := rfl
  have hsize : (le32 maxPerPage ++ le32 offset ++ le32 filter.toNat).length = sizeofListReq := rfl
  rw [handleRequest_frameBytes (by decide) (by rw [hsize]; decide), dispatch_of_entry hentry rfl, opList,
    withPayload_entered hsize]
  dsimp only
  rw [hfields]
  split
  next hrefused =>
    have hnot : ¬ Served d filter := by
      rw [Served, not_or, Bool.not_eq_true]
      simpa [enteredWith] using hrefused
    rw [servedPage, if_neg hnot, respond_unbounded rfl]
    exact ⟨rfl, rfl⟩
  next hpasses =>
    have hserved : Served d filter := by
      by_contra hnot
      rw [Served, not_or, Bool.not_eq_true] at hnot
      exact hpasses (by simpa [enteredWith] using hnot)
    rw [servedPage, if_pos hserved, respond_unbounded rfl, doList_eq _ hpos]
    exact ⟨rfl, rfl⟩

theorem askDaemon_eq {maxPerPage offset : Nat} (hpos : maxPerPage ≠ 0)
    (hmax : maxPerPage < 2 ^ 32) (hoffset : offset < 2 ^ 32) :
    askDaemon d slot env (le32 maxPerPage ++ le32 offset ++ le32 filter.toNat) =
      some (rtdbdStOk, (servedPage d filter maxPerPage offset).flatMap
        fun i => pointInfoBytes i (d.h.seg.points i)) := by
  have hshort : ((servedPage d filter maxPerPage offset).flatMap
      fun i => pointInfoBytes i (d.h.seg.points i)).length < 2 ^ 32 := by
    have hle : (servedPage d filter maxPerPage offset).length ≤ min maxPerPage rtdbdListChunk :=
      length_servedPage_le maxPerPage offset
    have hchunk : min maxPerPage rtdbdListChunk ≤ 1024 := Nat.min_le_right _ _
    rw [length_pageBytes]
    simp only [sizeofPointInfo]
    omega
  rw [askDaemon, (handleRequest_list hpos hmax hoffset).2,
    readResponse_frameBytes (by decide) hshort]

end Daemon

/-! ## The two together -/

section Together

variable {Text : Type} {decode : List UInt8 → Text} {h : IndurtdbH}

/-- A record of a page is unpacked as the entry of its point. -/
theorem unpackPointInfo_bytes {id : Nat} (hid : id < 2 ^ 32)
    (hname : (h.seg.points id).name.bytes.length ≤ nameMax) :
    unpackPointInfo decode (pointInfoBytes id (h.seg.points id)) = entryOf decode h id := by
  generalize hpt : h.seg.points id = pt at hname
  have hbytes : pointInfoBytes id pt = (le32 id ++ [pt.type, pt.access, 0, 0]) ++
      (byteArray 64 (pt.name.bytes.take 63) ++ le32 pt.partition.toNat) := by
    rw [pointInfoBytes, List.append_assoc]
  have hfirst : fieldAt (pointInfoBytes id pt) 0 4 = id := ofLe_le32 hid
  have htype : fieldAt (pointInfoBytes id pt) 4 1 = pt.type.toNat := by
    have hfield : ((pointInfoBytes id pt).drop 4).take 1 = [pt.type] := rfl
    rw [fieldAt, hfield, ofLe, ofLe, Nat.mul_zero, Nat.add_zero]
  have haccess : fieldAt (pointInfoBytes id pt) 5 1 = pt.access.toNat := by
    have hfield : ((pointInfoBytes id pt).drop 5).take 1 = [pt.access] := rfl
    rw [fieldAt, hfield, ofLe, ofLe, Nat.mul_zero, Nat.add_zero]
  have hbehind : (pointInfoBytes id pt).drop 8 =
      byteArray 64 (pt.name.bytes.take 63) ++ le32 pt.partition.toNat := by
    rw [hbytes]
    rfl
  have hstored : rstripNul (((pointInfoBytes id pt).drop 8).take 64) = pt.name.bytes := by
    rw [hbehind, List.take_left' (length_byteArray _ _), byteArray,
      List.take_of_length_le (i := 63) hname, List.take_of_length_le (by
        simp only [nameMax] at hname
        omega)]
    exact rstripNul_padded pt.name.nulFree _
  have hpartition : fieldAt (pointInfoBytes id pt) 72 4 = pt.partition.toNat := by
    have hdrop : (pointInfoBytes id pt).drop 72 = le32 pt.partition.toNat := by
      rw [show 72 = 8 + 64 from rfl, ← List.drop_drop, hbehind,
        List.drop_left' (length_byteArray _ _)]
    rw [fieldAt, hdrop]
    exact ofLe_le32 pt.partition.toNat_lt
  rw [unpackPointInfo, hfirst, htype, haccess, hstored, hpartition, entryOf, hpt]

/-- A page is unpacked as the entries of its points. -/
theorem unpackPage_bytes (ids : List Nat)
    (hids : ∀ id ∈ ids, id < 2 ^ 32 ∧ (h.seg.points id).name.bytes.length ≤ nameMax) :
    unpackPage decode (ids.flatMap fun i => pointInfoBytes i (h.seg.points i)) =
      ids.map (entryOf decode h) := by
  induction ids with
  | nil => simp [unpackPage]
  | cons id ids ih =>
      obtain ⟨⟨hid, hname⟩, hrest⟩ := List.forall_mem_cons.mp hids
      have hfirst := length_pointInfoBytes id (h.seg.points id)
      have hcount : ((id :: ids).flatMap fun i => pointInfoBytes i (h.seg.points i)).length /
          sizeofPointInfo = ids.length + 1 := by
        rw [length_pageBytes, List.length_cons, Nat.mul_div_cancel _ (by decide)]
      have hcount' : (ids.flatMap fun i => pointInfoBytes i (h.seg.points i)).length /
          sizeofPointInfo = ids.length := by
        rw [length_pageBytes, Nat.mul_div_cancel _ (by decide)]
      rw [List.map_cons, ← ih hrest, unpackPage, unpackPage, hcount, hcount',
        List.range_succ_eq_map, List.map_cons, List.map_map, List.flatMap_cons]
      congr 1
      · rw [Nat.zero_add, Nat.one_mul, Nat.zero_mul, List.drop_zero, ← hfirst, List.take_left]
        exact unpackPointInfo_bytes hid hname
      · refine List.map_congr_left fun i _ => ?_
        simp only [Function.comp_apply, Nat.succ_eq_add_one]
        congr 1
        rw [Nat.succ_mul (i + 1), Nat.succ_mul i, Nat.add_comm (i * sizeofPointInfo),
          Nat.add_comm _ sizeofPointInfo, ← hfirst, List.take_length_add_append,
          List.drop_length_add_append]

variable {d : Rtdbd} {slot : Nat} {env : Env} {filter : UInt32}

/-- The ids the daemon lists for a partition. -/
def servedIds (d : Rtdbd) (filter : UInt32) : List Nat :=
  if Served d filter then matchingIds d filter else []

theorem servedPage_eq (maxPerPage offset : Nat) :
    servedPage d filter maxPerPage offset =
      page (servedIds d filter) (min maxPerPage rtdbdListChunk) offset := by
  unfold servedPage servedIds
  split
  · rfl
  · rw [page, List.filter_nil, List.take_nil]

theorem servedIds_increasing : (servedIds d filter).Pairwise (· < ·) := by
  unfold servedIds
  split
  · exact List.pairwise_lt_range.filter _
  · exact List.Pairwise.nil

theorem servedIds_lt : ∀ id ∈ servedIds d filter, id < d.maxPoints := by
  intro id hid
  unfold servedIds at hid
  split at hid
  · exact List.mem_range.mp (List.mem_filter.mp hid).1
  · cases hid

/-- The loop of the client reads the served ids in pages. -/
theorem listPointsLoop_eq (hcap : d.maxPoints < 2 ^ 32)
    (hnames : NamesStored d) {maxPerPage : Nat}
    (hpos : maxPerPage ≠ 0) (hmax : maxPerPage < 2 ^ 32) :
    ∀ fuel offset out, offset ≤ d.maxPoints →
      listPointsLoop decode (askDaemon d slot env) maxPerPage filter.toNat fuel offset out =
        match readPages (servedIds d filter) (min maxPerPage rtdbdListChunk) maxPerPage fuel
            offset with
        | none => .running
        | some ids => .ended (out ++ ids.map (entryOf decode d.h)) := by
  intro fuel
  induction fuel with
  | zero => intro offset out _; rfl
  | succ fuel ih =>
      intro offset out hoffset
      have hpack : packListReq maxPerPage offset filter.toNat =
          some (le32 maxPerPage ++ le32 offset ++ le32 filter.toNat) :=
        if_pos ⟨hmax, Nat.lt_of_le_of_lt hoffset hcap, filter.toNat_lt⟩
      have hbody : okBody (askDaemon d slot env
          (le32 maxPerPage ++ le32 offset ++ le32 filter.toNat)) =
            some ((page (servedIds d filter) (min maxPerPage rtdbdListChunk) offset).flatMap
              fun i => pointInfoBytes i (d.h.seg.points i)) := by
        rw [askDaemon_eq hpos hmax (Nat.lt_of_le_of_lt hoffset hcap), okBody,
          if_neg (fun hne => hne rfl), servedPage_eq]
      have hfits : offset +
          (page (servedIds d filter) (min maxPerPage rtdbdListChunk) offset).length ≤ d.maxPoints :=
        length_page_add_le servedIds_increasing servedIds_lt hoffset
      have hpage : ∀ id ∈ page (servedIds d filter) (min maxPerPage rtdbdListChunk) offset,
          id < 2 ^ 32 ∧ (d.h.seg.points id).name.bytes.length ≤ nameMax := by
        intro id hid
        have hin := (List.mem_filter.mp (List.mem_of_mem_take hid)).1
        exact ⟨Nat.lt_trans (servedIds_lt id hin) hcap, hnames id (servedIds_lt id hin)⟩
      rw [listPointsLoop, hpack]
      dsimp only
      rw [hbody]
      dsimp only
      rw [unpackPage_bytes _ hpage, length_pageBytes, Nat.mul_div_cancel _ (by decide), readPages]
      generalize page (servedIds d filter) (min maxPerPage rtdbdListChunk) offset = ids at hfits ⊢
      cases ids with
      | nil => simp [Nat.pos_of_ne_zero hpos]
      | cons id ids =>
          have hnonempty : ((id :: ids).flatMap fun i =>
              pointInfoBytes i (d.h.seg.points i)).isEmpty = false := rfl
          rw [hnonempty, if_neg (by decide)]
          split
          · rfl
          · rw [ih _ _ hfits]
            cases readPages (servedIds d filter) (min maxPerPage rtdbdListChunk) maxPerPage fuel
                (offset + (id :: ids).length) with
            | none => rfl
            | some more => simp only [Option.map_some, List.map_append, List.append_assoc]

/-- The pages of the client are those of the daemon: a page is no larger than the daemon's
own limit and the ids that fill whole pages leave no gap, or one page of the daemon is
enough; and the daemon serves the partition. -/
structure PagesAlign (d : Rtdbd) (filter : UInt32) (maxPerPage : Nat) : Prop where
  packed : maxPerPage < 2 ^ 32
  served : Served d filter ∨ matchingIds d filter = []
  dense : maxPerPage ≤ rtdbdListChunk →
    (matchingIds d filter).take ((matchingIds d filter).length / maxPerPage * maxPerPage) =
      List.range ((matchingIds d filter).length / maxPerPage * maxPerPage)
  onePage : rtdbdListChunk < maxPerPage → (matchingIds d filter).length ≤ rtdbdListChunk

/-- The partition a caller asks for. -/
def filterOf (partition : Option UInt32) : UInt32 := partition.getD rtdbdPartitionAll

/-- What `list_points` is to return: every matching point once, by ascending id. -/
def ListsAll (decode : List UInt8 → Text) (d : Rtdbd) (slot : Nat) (env : Env)
    (partition : Option UInt32) (maxPerPage : Nat) : Prop :=
  ∀ fuel, d.maxPoints < fuel →
    listPoints decode (askDaemon d slot env) maxPerPage (partition.map UInt32.toNat) fuel =
      .ended ((matchingIds d (filterOf partition)).map (entryOf decode d.h))

theorem entryOf_injective (decode : List UInt8 → Text) (h : IndurtdbH) :
    Function.Injective (entryOf decode h) := fun _ _ heq => congrArg PointEntry.id heq

theorem listPoints_eq (hcap : d.maxPoints < 2 ^ 32)
    (hnames : NamesStored d) {maxPerPage : Nat}
    (hpos : maxPerPage ≠ 0) (hmax : maxPerPage < 2 ^ 32) (partition : Option UInt32)
    (fuel : Nat) :
    listPoints decode (askDaemon d slot env) maxPerPage (partition.map UInt32.toNat) fuel =
      match readPages (servedIds d (filterOf partition)) (min maxPerPage rtdbdListChunk)
          maxPerPage fuel 0 with
      | none => .running
      | some ids => .ended (ids.map (entryOf decode d.h)) := by
  have hfilter : (partition.map UInt32.toNat).getD rtdbdPartitionAll.toNat =
      (filterOf partition).toNat := by
    cases partition with
    | none => rfl
    | some partition => rfl
  rw [listPoints, hfilter, listPointsLoop_eq hcap hnames hpos hmax fuel 0 [] (Nat.zero_le _)]
  simp only [List.nil_append]

/-- `list_points` comes to an end, whatever it returns. -/
theorem listPoints_ends (hcap : d.maxPoints < 2 ^ 32)
    (hnames : NamesStored d) {maxPerPage : Nat}
    (hpos : maxPerPage ≠ 0) (partition : Option UInt32) {fuel : Nat}
    (hfuel : d.maxPoints < fuel) :
    listPoints decode (askDaemon d slot env) maxPerPage (partition.map UInt32.toNat) fuel ≠
      .running := by
  rcases Nat.lt_or_ge maxPerPage (2 ^ 32) with hmax | hlarge
  · rw [listPoints_eq hcap hnames hpos hmax]
    have hends : (readPages (servedIds d (filterOf partition)) (min maxPerPage rtdbdListChunk)
        maxPerPage fuel 0).isSome ∨ fuel = 0 :=
      readPages_ends servedIds_lt (Nat.pos_of_ne_zero hpos) fuel 0 hfuel
    rcases hends with hsome | rfl
    · obtain ⟨ids, hids⟩ := Option.isSome_iff_exists.mp hsome
      rw [hids]
      simp
    · omega
  · obtain ⟨n, rfl⟩ : ∃ n, fuel = n + 1 := ⟨fuel - 1, by omega⟩
    rw [listPoints, listPointsLoop, packListReq, if_neg (fun h => absurd h.1 (by omega))]
    simp

/-- The pages that are read are all of them exactly when the pages align. -/
theorem readPages_served_iff {maxPerPage : Nat} (hpos : maxPerPage ≠ 0)
    (hmax : maxPerPage < 2 ^ 32) {fuel : Nat} (hfuel : d.maxPoints < fuel) :
    readPages (servedIds d filter) (min maxPerPage rtdbdListChunk) maxPerPage fuel 0 =
        some (matchingIds d filter) ↔ PagesAlign d filter maxPerPage := by
  rcases Decidable.em (Served d filter) with hserved | hnot
  · have hids : servedIds d filter = matchingIds d filter := if_pos hserved
    have hincreasing : (matchingIds d filter).Pairwise (· < ·) :=
      hids ▸ servedIds_increasing
    have hbound : ∀ id ∈ matchingIds d filter, id < d.maxPoints := hids ▸ servedIds_lt
    rw [hids]
    rcases Nat.lt_or_ge rtdbdListChunk maxPerPage with hlarge | hsmall
    · obtain ⟨n, rfl⟩ : ∃ n, fuel = n + 1 := ⟨fuel - 1, by omega⟩
      have hfirst : page (matchingIds d filter) rtdbdListChunk 0 =
          (matchingIds d filter).take rtdbdListChunk := by
        simp [page]
      rw [Nat.min_eq_right (Nat.le_of_lt hlarge), readPages_of_lt hlarge, hfirst,
        Option.some.injEq, List.take_eq_self_iff]
      exact ⟨fun hle => ⟨hmax, .inl hserved, fun h => absurd h (Nat.not_le.mpr hlarge),
        fun _ => hle⟩, fun h => h.onePage hlarge⟩
    · rw [Nat.min_eq_left hsmall,
        readPages_eq_iff hincreasing (Nat.pos_of_ne_zero hpos) hbound hfuel]
      exact ⟨fun hdense => ⟨hmax, .inl hserved, fun _ => hdense,
        fun h => absurd h (Nat.not_lt.mpr hsmall)⟩, fun h => h.dense hsmall⟩
  · have hids : servedIds d filter = [] := if_neg hnot
    obtain ⟨n, rfl⟩ : ∃ n, fuel = n + 1 := ⟨fuel - 1, by omega⟩
    have hread : readPages [] (min maxPerPage rtdbdListChunk) maxPerPage (n + 1) 0 = some [] := by
      simp [readPages, page, Nat.pos_of_ne_zero hpos]
    rw [hids, hread, Option.some.injEq]
    constructor
    · intro hnone
      refine ⟨hmax, .inr hnone.symm, fun _ => ?_, fun _ => ?_⟩
      · rw [← hnone]
        simp
      · rw [← hnone]
        simp
    · intro h
      exact (h.served.resolve_left hnot).symm

/-- **Paged listing.**  `list_points` returns every point that matches once, in ascending
order of the ids, and ends, exactly when its pages are those of the daemon. -/
theorem listsAll_iff (hcap : d.maxPoints < 2 ^ 32)
    (hnames : NamesStored d) {maxPerPage : Nat}
    (hpos : 1 ≤ maxPerPage) (partition : Option UInt32) :
    ListsAll decode d slot env partition maxPerPage ↔
      PagesAlign d (filterOf partition) maxPerPage := by
  have hne : maxPerPage ≠ 0 := by omega
  rcases Nat.lt_or_ge maxPerPage (2 ^ 32) with hmax | hlarge
  · have hreads : ∀ fuel, d.maxPoints < fuel →
        (listPoints decode (askDaemon d slot env) maxPerPage (partition.map UInt32.toNat) fuel =
            .ended ((matchingIds d (filterOf partition)).map (entryOf decode d.h)) ↔
          PagesAlign d (filterOf partition) maxPerPage) := by
      intro fuel hfuel
      rw [← readPages_served_iff hne hmax hfuel, listPoints_eq hcap hnames hne hmax]
      cases readPages (servedIds d (filterOf partition)) (min maxPerPage rtdbdListChunk)
          maxPerPage fuel 0 with
      | none => simp
      | some ids =>
          simp only [Listed.ended.injEq, Option.some.injEq]
          exact (List.map_injective_iff.mpr (entryOf_injective decode d.h)).eq_iff
    exact ⟨fun h => (hreads _ (Nat.lt_succ_self _)).mp (h _ (Nat.lt_succ_self _)),
      fun h fuel hfuel => (hreads fuel hfuel).mpr h⟩
  · constructor
    · intro hall
      have hended := hall (d.maxPoints + 1) (Nat.lt_succ_self _)
      rw [listPoints, listPointsLoop, packListReq,
        if_neg (fun h => absurd h.1 (by omega))] at hended
      cases hended
    · intro h
      exact absurd h.packed (by omega)

end Together

/-- A daemon for 16 points, with `a`, `b` and `c` registered under three ids. -/
def lettered (first second third : Nat) : Rtdbd :=
  let named (letter : UInt8) : IndurtdbPoint :=
    { IndurtdbPoint.zero with name := CStr.ofBytes [letter], type := 1, access := 3 }
  let d := Rtdbd.fresh 16 4 1 ⟨[]⟩
  { d with h := { d.h with seg :=
    ((d.h.seg.setPoint first (named 97)).setPoint second (named 98)).setPoint third (named 99) } }

/-- The ids 0, 1 and 5, two to a page. -/
theorem listsAll_iff_dense :
    ListsAll id (lettered 0 1 5) 0 ⟨none, 0, 0⟩ none 2 ↔
      PagesAlign (lettered 0 1 5) (filterOf none) 2 :=
  listsAll_iff (by decide) (by decide +kernel) (by decide) none

/-- The ids 5, 6 and 7, two to a page: 5 and 6 are returned again. -/
theorem not_listsAll :
    ¬ ∀ (d : Rtdbd) (slot : Nat) (env : Env) (partition : Option UInt32) (maxPerPage : Nat),
      d.maxPoints < 2 ^ 32 → NamesStored d → Served d (filterOf partition) → 1 ≤ maxPerPage → maxPerPage < 2 ^ 32 →
      ListsAll (fun name => name) d slot env partition maxPerPage := by
  intro hall
  have hlist := hall (lettered 5 6 7) 0 ⟨none, 0, 0⟩ none 2 (by decide) (by decide +kernel)
    (by decide) (by decide) (by decide) 17 (by decide)
  revert hlist
  decide +kernel

end InduRtdb.Monitor
