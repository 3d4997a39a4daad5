/-
  Client/Queue.lean --- what the client's write queue holds.

  Source: `client/src/client.c` (`q_push`, `q_pop`, `write_entry`, `irtcli_flush`).

  The history of a client has an event for every write that was answered with
  `IRTCLI_QUEUED` and for every entry whose submission succeeded.  It settles what the
  queue holds: of every point the newest value that has not been submitted, in the order
  in which the points have been waiting.  What has been submitted is settled by the
  requests on the line and the response headers that were read.
-/
import InduRtdb.Client.Stream
import InduRtdb.Lib.Latest
import InduRtdb.Lib.Ring

set_option autoImplicit false

namespace InduRtdb.Client

open InduRtdb.Core InduRtdb.Daemon InduRtdb.Lib

/-! ## The ring -/

namespace WriteQueue

variable {q q' : WriteQueue} {e : IrtcliEntry}

/-- What is queued, the oldest entry first. -/
def entries (q : WriteQueue) : List IrtcliEntry := ringBehind q.cap q.buf q.head q.count

@[simp] theorem length_entries (q : WriteQueue) : q.entries.length = q.count := length_ringBehind

theorem entries_eq (q : WriteQueue) : q.entries = ringList q.cap q.buf q.first q.count := by
  rw [entries, ringBehind, first, ringList_mod, Nat.add_sub_assoc q.count_le]

theorem getElem_entries {i : Nat} (hi : i < q.entries.length) :
    q.entries[i] = q.buf ((q.first + i) % q.cap) := by
  simp only [entries_eq, ringList, List.getElem_map, List.getElem_range]

/-- A place that is found holds the point's entry. -/
theorem findLoop_some {pointId : UInt32} {place : Nat} : ∀ n i,
    q.findLoop pointId n i = some place →
      ∃ j, j < i + n ∧ place = (q.first + j) % q.cap ∧ (q.buf place).pointId = pointId := by
  intro n
  induction n with
  | zero => exact fun _ h => by cases h
  | succ n ih =>
      intro i h
      rw [findLoop] at h
      split at h
      case isTrue heq =>
        obtain rfl := Option.some.inj h
        exact ⟨i, by omega, rfl, heq⟩
      case isFalse =>
        obtain ⟨j, hj, hplace⟩ := ih (i + 1) h
        exact ⟨j, by omega, hplace⟩

/-- Where none is found, the point has no entry. -/
theorem findLoop_none {pointId : UInt32} : ∀ n i, q.findLoop pointId n i = none →
    ∀ j, i ≤ j → j < i + n → (q.buf ((q.first + j) % q.cap)).pointId ≠ pointId := by
  intro n
  induction n with
  | zero => exact fun i _ j _ _ => by omega
  | succ n ih =>
      intro i h j hij hj
      rw [findLoop] at h
      split at h
      case isTrue => cases h
      case isFalse hne =>
        rcases Nat.eq_or_lt_of_le hij with rfl | hlt
        · exact hne
        · exact ih (i + 1) h j hlt (by omega)

theorem not_mem_of_findLoop {pointId : UInt32} (hfind : q.findLoop pointId q.count 0 = none) :
    pointId ∉ q.entries.map IrtcliEntry.pointId := by
  intro hmem
  obtain ⟨entry, hentry, hid⟩ := List.mem_map.mp hmem
  obtain ⟨j, hj, rfl⟩ := List.mem_iff_getElem.mp hentry
  rw [getElem_entries] at hid
  rw [length_entries] at hj
  exact findLoop_none _ _ hfind j (Nat.zero_le j) (by omega) hid

/-- `q_push` puts the entry into the list. -/
theorem push_entries {history : List (Latest.Event IrtcliEntry)}
    (hwaiting : Latest.Waiting IrtcliEntry.pointId history q.entries) (hpush : q.push e = some q') :
    q'.entries = Latest.put IrtcliEntry.pointId e q.entries ∧ q'.cap = q.cap := by
  unfold push at hpush
  split at hpush
  next place hfind =>
    obtain rfl := Option.some.inj hpush
    refine ⟨?_, rfl⟩
    obtain ⟨j, hj, rfl, hid⟩ := findLoop_some _ _ hfind
    have hjq : j < q.count := by omega
    have hlength : j < q.entries.length := q.length_entries.symm ▸ hjq
    rw [hwaiting.put_eq_set hlength (by rw [getElem_entries, hid]), entries_eq, entries_eq]
    exact ringList_update e hjq q.count_le
  next hfind =>
    split at hpush
    case isTrue => cases hpush
    case isFalse hroom =>
      obtain rfl := Option.some.inj hpush
      refine ⟨?_, rfl⟩
      have habsent := not_mem_of_findLoop hfind
      have hrecord := @ringBehind_record _ q.cap q.buf q.head q.count e q.head_lt q.count_le
      have hshort : (ringBehind q.cap q.buf q.head q.count ++ [e]).length ≤ q.cap := by
        rw [List.length_append, length_ringBehind, List.length_singleton]
        omega
      rw [if_pos (Nat.lt_of_not_le hroom), lastOf_of_length_le hshort] at hrecord
      rw [Latest.put, if_neg habsent]
      exact hrecord

/-- `q_push` refuses exactly a point that is not there, on a full queue. -/
theorem push_eq_none_iff :
    q.push e = none ↔
      q.entries.length = q.cap ∧ e.pointId ∉ q.entries.map IrtcliEntry.pointId := by
  have hcount := q.count_le
  rw [length_entries]
  unfold push
  split
  next place hfind =>
    refine iff_of_false (Option.some_ne_none _) fun ⟨_, habsent⟩ => habsent ?_
    obtain ⟨j, hj, rfl, hid⟩ := findLoop_some _ _ hfind
    have hlength : j < q.entries.length := by
      rw [length_entries]
      omega
    exact List.mem_map.mpr ⟨_, List.getElem_mem hlength, by rw [getElem_entries, hid]⟩
  next hfind =>
    split
    next hfull =>
      exact iff_of_true rfl ⟨Nat.le_antisymm hcount hfull, not_mem_of_findLoop hfind⟩
    next hroom => exact iff_of_false (Option.some_ne_none _) fun ⟨hfull, _⟩ => hroom hfull.ge

/-- `q_pop` takes the head; on an empty queue it fails. -/
theorem pop_eq_none (h : q.pop = none) : q.entries = [] := by
  unfold pop at h
  split at h
  case isTrue hempty => exact List.length_eq_zero_iff.mp (q.length_entries.trans hempty)
  case isFalse => cases h

theorem pop_entries (h : q.pop = some (e, q')) :
    q.entries = e :: q'.entries ∧ q'.cap = q.cap ∧ q'.count + 1 = q.count := by
  unfold pop at h
  split at h
  case isTrue => cases h
  case isFalse hne =>
    obtain ⟨rfl, rfl⟩ := Prod.mk.inj (Option.some.inj h)
    have hcount := q.count_le
    obtain ⟨n, hn⟩ : ∃ n, q.count = n + 1 := ⟨q.count - 1, by omega⟩
    have hstart : q.head + (q.cap - (n + 1)) + 1 = q.head + (q.cap - n) := by omega
    refine ⟨?_, rfl, Nat.sub_add_cancel (Nat.pos_of_ne_zero hne)⟩
    have hfirst : q.first = (q.head + (q.cap - (n + 1))) % q.cap := by
      rw [first, hn, Nat.add_sub_assoc (hn ▸ hcount)]
    change ringList q.cap q.buf (q.head + (q.cap - q.count)) q.count =
      q.buf q.first :: ringList q.cap q.buf (q.head + (q.cap - (q.count - 1))) (q.count - 1)
    rw [hn, ringList_succ, hfirst, hstart, Nat.add_sub_cancel]

/-- `c->count++` takes a `q_pop` back. -/
theorem pop_restore (h : q.pop = some (e, q')) : q'.restore = q := by
  unfold pop at h
  split at h
  case isTrue => cases h
  case isFalse hne =>
    obtain ⟨rfl, rfl⟩ := Prod.mk.inj (Option.some.inj h)
    obtain ⟨buf, cap, head, count, hhead, hcount, hcap⟩ := q
    have hpos : count ≠ 0 := hne
    have hback : count - 1 + 1 = count := Nat.sub_add_cancel (Nat.pos_of_ne_zero hpos)
    have hroom : count - 1 < cap := by omega
    rw [restore, dif_pos hroom]
    simp only [hback]

end WriteQueue

/-! ## What happens to the queue -/

/-- A write that was queued. -/
def accepted (rc : IrtcliRc) (e : IrtcliEntry) : List (Latest.Event IrtcliEntry) :=
  if rc = .queued then [.queued e] else []

/-- The entries whose submission succeeded, in the order of the attempts. -/
def succeeded (attempts : List (IrtcliEntry × IrtcliRc)) : List IrtcliEntry :=
  (attempts.filter fun x => x.2 = .ok).map (·.1)

/-- The payload of a submission that has succeeded. -/
def carried (rc : IrtcliRc) (e : IrtcliEntry) : List (List UInt8) :=
  if rc = .ok then [e.toBytes] else []

/-- The payload of the write that a response header confirms. -/
def HeaderRead.confirms (log : List Exchange) (r : HeaderRead) : Option (List UInt8) :=
  if r.header.Succeeds then
    ((log[r.request - 1]?).filter fun x => x.opcode = rtdbdOpWrite).map (·.payload)
  else none

namespace Session

variable {σ : Type}

/-- What is queued. -/
def queued (s : Session σ) : List IrtcliEntry := s.c.queue.entries

/-- The entries that the loop of `irtcli_flush` submits, each with the outcome of its last
`submit_one`. -/
def attemptLoop (L : Line σ) : Nat → Session σ → List (IrtcliEntry × IrtcliRc)
  | 0, _ => []
  | n + 1, s =>
      match s.c.queue.pop with
      | none => []
      | some (e, q) =>
          let turn := (s.withQueue q).submitAgain L e
          (e, turn.1) :: if turn.1 = .ok then attemptLoop L n turn.2 else []

/-- The entries that `irtcli_flush` submits. -/
def attempts (L : Line σ) (s : Session σ) : List (IrtcliEntry × IrtcliRc) :=
  if s.c.queue.count = 0 then []
  else
    match s.ensureConnected L with
    | (false, _) => []
    | (true, s) => attemptLoop L s.c.queue.count s

/-- The payloads of the writes for which a response with success has been read since. -/
def confirmedSince (before after : Session σ) : List (List UInt8) :=
  (after.reads.drop before.reads.length).filterMap (HeaderRead.confirms after.log)

/-- What a call does to the queue, the last event first. -/
def events (L : Line σ) (s : Session σ) : Call → List (Latest.Event IrtcliEntry)
  | .writeBool id value sourceTsNs =>
      accepted (s.irtcliWriteBool L id value sourceTsNs).1
        ⟨id, irtcliTypeBool, if value then 1 else 0, sourceTsNs⟩
  | .writeInt32 id value sourceTsNs =>
      accepted (s.irtcliWriteInt32 L id value sourceTsNs).1
        ⟨id, irtcliTypeInt32, value.toInt64.toUInt64, sourceTsNs⟩
  | .writeDouble id value sourceTsNs =>
      accepted (s.irtcliWriteDouble L id value sourceTsNs).1
        ⟨id, irtcliTypeDouble, value, sourceTsNs⟩
  | .flush => ((succeeded (s.attempts L)).map .taken).reverse
  | _ => []

/-- What a sequence of calls does to the queue, the last event first. -/
def history (L : Line σ) : Session σ → List Call → List (Latest.Event IrtcliEntry)
  | _, [] => []
  | s, call :: calls => history L (s.call L call) calls ++ s.events L call

/-! ## Calls that leave the queue alone -/

variable {L : Line σ} {s : Session σ}

theorem connect_queue (s : Session σ) : (s.connect L).2.c.queue = s.c.queue := by
  have hkept : s.hangUp.c.queue = s.c.queue := by
    unfold hangUp
    split
    · rfl
    · rfl
  unfold connect
  dsimp only
  split
  · exact hkept
  · exact hkept

theorem ensureConnected_queue (s : Session σ) : (s.ensureConnected L).2.c.queue = s.c.queue := by
  have hconnect := s.connect_queue (L := L)
  unfold ensureConnected
  split
  · rfl
  · split
    next heq => rwa [heq] at hconnect
    next heq => rwa [heq] at hconnect

theorem ask_queue (s : Session σ) (path : Path) (opcode : Nat) (payload : List UInt8) :
    (s.ask L path opcode payload).2.c.queue = s.c.queue :=
  congrArg Irtcli.queue (s.ask_kept path opcode payload).1

theorem recvAll_queue (s : Session σ) (n : Nat) :
    (s.recvAll L n).2.c.queue = s.c.queue :=
  congrArg Irtcli.queue (s.recvAll_kept n).2.2.2.1

theorem submitOne_queue (s : Session σ) (path : Path) (e : IrtcliEntry) :
    (s.submitOne L path e).2.c.queue = s.c.queue := by
  rw [(s.submitOne_ask path e).1]
  exact s.ask_queue path rtdbdOpWrite e.toBytes

theorem submitOne_answer (s : Session σ) (path : Path) (e : IrtcliEntry) :
    (s.submitOne L path e).1 ≠ .queued ∧ (s.submitOne L path e).1 ≠ .errFull := by
  unfold submitOne
  split
  · exact ⟨nofun, nofun⟩
  · split
    · exact ⟨nofun, nofun⟩
    · split
      · exact ⟨nofun, nofun⟩
      · split
        · exact ⟨nofun, nofun⟩
        · exact ⟨nofun, nofun⟩

theorem submitAgain_queue (s : Session σ) (e : IrtcliEntry) :
    (s.submitAgain L e).2.c.queue = s.c.queue := by
  have hfirst := s.submitOne_queue (L := L) .write e
  unfold submitAgain
  split
  next s₁ heq =>
    rw [heq] at hfirst
    have hconnect := s₁.disconnected.connect_queue (L := L)
    split
    next s₂ heq₂ =>
      rw [heq₂] at hconnect
      rw [submitOne_queue, hconnect]
      exact hfirst
    next heq₂ =>
      rw [heq₂] at hconnect
      exact hconnect.trans hfirst
  next heq => rwa [heq] at hfirst

theorem rtSubmit_queue (s : Session σ) (opcode : Nat) (payload : List UInt8) (respLen : Nat) :
    (s.rtSubmit L opcode payload respLen).2.c.queue = s.c.queue := by
  have hconnect := s.ensureConnected_queue (L := L)
  unfold rtSubmit
  generalize s.ensureConnected L = r at hconnect ⊢
  obtain ⟨up, s₁⟩ := r
  cases up with
  | false => exact hconnect
  | true =>
      have hask := (s₁.ask_queue (L := L) (.fixed opcode respLen) opcode payload).trans hconnect
      dsimp only
      generalize s₁.ask L (.fixed opcode respLen) opcode payload = r at hask ⊢
      obtain ⟨resp, s₂⟩ := r
      cases resp with
      | none => exact hask
      | some resp =>
          have hread := (s₂.recvAll_queue (L := L) respLen).trans hask
          dsimp only
          split
          · exact hask
          · split
            · generalize s₂.recvAll L respLen = r at hread ⊢
              obtain ⟨bytes, s₃⟩ := r
              cases bytes with
              | none => exact hread
              | some bytes => exact hread
            · exact hask

theorem irtcliListIn_queue (s : Session σ) (partition offset max : UInt32) (cap : Nat) :
    (s.irtcliListIn L partition offset max cap).2.c.queue = s.c.queue := by
  have hconnect := s.ensureConnected_queue (L := L)
  unfold irtcliListIn
  generalize s.ensureConnected L = r at hconnect ⊢
  obtain ⟨up, s₁⟩ := r
  cases up with
  | false => exact hconnect
  | true =>
      have hask := (s₁.ask_queue (L := L) (.list cap) rtdbdOpList
        (listReqBytes max offset partition)).trans hconnect
      dsimp only
      generalize s₁.ask L (.list cap) rtdbdOpList (listReqBytes max offset partition) = r
        at hask ⊢
      obtain ⟨resp, s₂⟩ := r
      cases resp with
      | none => exact hask
      | some resp =>
          have hread :=
            (s₂.recvAll_queue (L := L) (resp.points * sizeofPointInfo)).trans hask
          dsimp only
          split
          · exact hask
          · split
            · exact hask
            · split
              · exact hask
              · generalize s₂.recvAll L (resp.points * sizeofPointInfo) = r at hread ⊢
                obtain ⟨bytes, s₃⟩ := r
                cases bytes with
                | none => exact hread
                | some bytes => exact hread

/-! ## What has been confirmed -/

/-- A longer log has the same request in the place. -/
theorem confirms_of_prefix {log log' : List Exchange} (hlog : log <+: log') {r : HeaderRead}
    (hknown : r.request - 1 < log.length) : r.confirms log' = r.confirms log := by
  have hsame : log'[r.request - 1]? = log[r.request - 1]? := by
    obtain ⟨more, rfl⟩ := hlog
    rw [List.getElem?_append_left hknown]
  unfold HeaderRead.confirms
  rw [hsame]

/-- On the way to a later session these writes have been confirmed. -/
structure Confirms (s s' : Session σ) (payloads : List (List UInt8)) : Prop where
  log : s.log <+: s'.log
  reads : ∃ new, s'.reads = s.reads ++ new ∧ (∀ r ∈ new, r.request - 1 < s'.log.length) ∧
    new.filterMap (HeaderRead.confirms s'.log) = payloads

variable {s' s'' : Session σ}

theorem Confirms.since {payloads : List (List UInt8)} (h : s.Confirms s' payloads) :
    confirmedSince s s' = payloads := by
  obtain ⟨new, hreads, -, hnew⟩ := h.reads
  rw [confirmedSince, hreads, List.drop_left, hnew]

/-- Nothing is asked and nothing is read. -/
theorem Confirms.of_same (hlog : s'.log = s.log) (hreads : s'.reads = s.reads) :
    s.Confirms s' [] :=
  ⟨hlog ▸ List.prefix_rfl, [], by rw [hreads, List.append_nil],
    fun _ h => (List.not_mem_nil h).elim, rfl⟩

theorem Confirms.trans {earlier later : List (List UInt8)} (h : s.Confirms s' earlier)
    (h' : s'.Confirms s'' later) : s.Confirms s'' (earlier ++ later) := by
  obtain ⟨new, hreads, hknown, hnew⟩ := h.reads
  obtain ⟨new', hreads', hknown', hnew'⟩ := h'.reads
  have hlength := h'.log.length_le
  refine ⟨h.log.trans h'.log, new ++ new', ?_, fun r hr => ?_, ?_⟩
  · rw [hreads', hreads, List.append_assoc]
  · rcases List.mem_append.mp hr with hr | hr
    · exact Nat.lt_of_lt_of_le (hknown r hr) hlength
    · exact hknown' r hr
  · have hsame : new.filterMap (HeaderRead.confirms s''.log) =
        new.filterMap (HeaderRead.confirms s'.log) :=
      List.filterMap_congr fun r hr => confirms_of_prefix h'.log (hknown r hr)
    rw [List.filterMap_append, hsame, hnew, hnew']

theorem connect_confirms (s : Session σ) : s.Confirms (s.connect L).2 [] := by
  obtain ⟨hlog, hreads, -⟩ := s.hangUp_kept
  unfold connect
  dsimp only
  split
  · exact .of_same hlog hreads
  · exact .of_same hlog hreads

theorem ensureConnected_confirms (s : Session σ) : s.Confirms (s.ensureConnected L).2 [] := by
  have hconnect := s.connect_confirms (L := L)
  unfold ensureConnected
  split
  · exact .of_same rfl rfl
  · split
    next heq => rwa [heq] at hconnect
    next heq => rwa [heq] at hconnect

/-- A request reads one response header, or none. -/
theorem ask_reads (s : Session σ) (path : Path) (opcode : Nat) (payload : List UInt8) :
    (s.ask L path opcode payload).1 = none ∧
        (s.ask L path opcode payload).2.reads = s.reads ∨
      ∃ origins resp, (s.ask L path opcode payload).1 = some resp ∧
        (s.ask L path opcode payload).2.reads =
          s.reads ++ [⟨s.log.length + 1, origins, resp⟩] := by
  unfold ask sendRequest
  dsimp only
  split
  next heq =>
    obtain ⟨-, rfl⟩ := Prod.mk.inj heq
    exact .inl ⟨rfl, rfl⟩
  next s₁ heq =>
    obtain ⟨-, rfl⟩ := Prod.mk.inj heq
    have hread := recvAll_kept (L := L)
      { s with
        line := (L.request s.line opcode payload).2
        unread := s.unread ++ tagged (s.log.length + 1) (L.request s.line opcode payload).1.bytes
        log := s.log ++
          [⟨path, opcode, payload, (L.request s.line opcode payload).1, s.c.partition⟩] } sizeofHdr
    obtain ⟨hlog, hreads, -⟩ := hread
    unfold recvHeader
    split
    next heq =>
      rw [heq] at hreads
      exact .inl ⟨rfl, hreads⟩
    next bytes s₂ heq =>
      rw [heq] at hlog hreads
      refine .inr ⟨bytes.map (·.2), _, rfl, ?_⟩
      dsimp only at hlog hreads ⊢
      rw [hlog, hreads, List.length_append, List.length_singleton]

/-- A write is confirmed by the header that is read behind it. -/
theorem ask_confirms (s : Session σ) (path : Path) (payload : List UInt8) :
    s.Confirms (s.ask L path rtdbdOpWrite payload).2
      (if (s.ask L path rtdbdOpWrite payload).1.any (·.Succeeds) then [payload] else []) := by
  obtain ⟨-, -, hlog⟩ := s.ask_kept (L := L) path rtdbdOpWrite payload
  have hlonger : s.log <+: (s.ask L path rtdbdOpWrite payload).2.log :=
    hlog ▸ List.prefix_append _ _
  refine ⟨hlonger, ?_⟩
  obtain ⟨hnone, hreads⟩ | ⟨origins, resp, hsome, hreads⟩ :=
    s.ask_reads (L := L) path rtdbdOpWrite payload
  · rw [hnone, hreads]
    exact ⟨[], (List.append_nil _).symm, fun _ h => (List.not_mem_nil h).elim, rfl⟩
  · refine ⟨_, hreads, fun r hr => ?_, ?_⟩
    · obtain rfl := List.mem_singleton.mp hr
      rw [hlog, List.length_append, List.length_singleton]
      exact Nat.lt_succ_self _
    · rw [hsome, hlog]
      by_cases hresp : resp.Succeeds
      · simp [HeaderRead.confirms, hresp]
      · simp [HeaderRead.confirms, hresp]

/-- `submit_one` succeeds where the write is confirmed. -/
theorem submitOne_confirms (s : Session σ) (path : Path) (e : IrtcliEntry) :
    s.Confirms (s.submitOne L path e).2 (carried (s.submitOne L path e).1 e) := by
  have hask := s.ask_confirms (L := L) path e.toBytes
  have hanswer : (s.submitOne L path e).1 = .ok ↔
      (s.ask L path rtdbdOpWrite e.toBytes).1.any (·.Succeeds) = true := by
    unfold submitOne
    split
    next heq => simp [heq]
    next resp _ heq =>
      rw [heq, Option.any_some, decide_eq_true_iff, RtdbdRespHdr.Succeeds]
      split
      next hunknown => exact iff_of_false nofun fun h => hunknown h.1
      next hknown =>
        rw [not_not] at hknown
        split
        next hok => exact iff_of_true rfl ⟨hknown, hok⟩
        next hbad =>
          refine iff_of_false ?_ fun h => hbad h.2
          split
          · exact nofun
          · exact nofun
  rw [(s.submitOne_ask path e).1, carried]
  simpa only [hanswer] using hask

theorem submitAgain_confirms (s : Session σ) (e : IrtcliEntry) :
    s.Confirms (s.submitAgain L e).2 (carried (s.submitAgain L e).1 e) := by
  have hfirst := s.submitOne_confirms (L := L) .write e
  unfold submitAgain
  split
  next s₁ heq =>
    rw [heq] at hfirst
    have hdown : s.Confirms s₁.disconnected [] := hfirst.trans (.of_same rfl rfl)
    have hconnect := hdown.trans (s₁.disconnected.connect_confirms (L := L))
    generalize s₁.disconnected.connect L = r at hconnect ⊢
    obtain ⟨rc, s₂⟩ := r
    cases rc with
    | ok => exact hconnect.trans (s₂.submitOne_confirms .rewrite e)
    | _ => exact hconnect
  next heq => rwa [heq] at hfirst

/-! ## A flush -/

/-! ## A flush -/

/-- What a flush achieves: the entries submitted, and those that stay. -/
structure Submits (attempts : List (IrtcliEntry × IrtcliRc)) (result : Nat)
    (before after : List IrtcliEntry) : Prop where
  /-- it returns how many submissions succeeded -/
  returned : result = (succeeded attempts).length
  /-- those are the first entries, in order; the others stay as they were -/
  kept : before = succeeded attempts ++ after
  /-- an attempt that fails is the last one, and its entry heads those that stay -/
  failed : ∀ x ∈ attempts, x.2 ≠ .ok → attempts.getLast? = some x ∧ after.head? = some x.1
  /-- without such an attempt a flush that starts at all empties the queue -/
  done : attempts ≠ [] → (∀ x ∈ attempts, x.2 = .ok) → after = []

namespace Submits

/-- Nothing is attempted. -/
theorem none (l : List IrtcliEntry) : Submits [] 0 l l :=
  ⟨rfl, rfl, fun _ h => (List.not_mem_nil h).elim, fun h => absurd rfl h⟩

/-- The entry in front is refused. -/
theorem fail (e : IrtcliEntry) {rc : IrtcliRc} (hrc : rc ≠ .ok) (l : List IrtcliEntry) :
    Submits [(e, rc)] 0 (e :: l) (e :: l) := by
  have hsucceeded : succeeded [(e, rc)] = [] := by
    rw [succeeded, List.filter_cons_of_neg (by simpa using hrc)]
    rfl
  refine ⟨?_, ?_, ?_, ?_⟩
  · rw [hsucceeded, List.length_nil]
  · rw [hsucceeded, List.nil_append]
  · intro x hx _
    obtain rfl := List.mem_singleton.mp hx
    exact ⟨rfl, rfl⟩
  · intro _ hall
    exact absurd (hall (e, rc) (List.mem_singleton.mpr rfl)) hrc

/-- The entry in front is submitted before the others are tried. -/
theorem cons {attempts : List (IrtcliEntry × IrtcliRc)} {result : Nat}
    {before after : List IrtcliEntry} (h : Submits attempts result before after) (e : IrtcliEntry)
    (hnone : attempts = [] → before = []) :
    Submits ((e, .ok) :: attempts) (result + 1) (e :: before) after := by
  have hsucceeded : succeeded ((e, .ok) :: attempts) = e :: succeeded attempts := rfl
  refine ⟨?_, ?_, ?_, ?_⟩
  · rw [hsucceeded, List.length_cons, h.returned]
  · rw [hsucceeded, List.cons_append, ← h.kept]
  · intro x hx hfailed
    rcases List.mem_cons.mp hx with rfl | hx
    · exact absurd rfl hfailed
    · obtain ⟨hlast, hhead⟩ := h.failed x hx hfailed
      exact ⟨by rw [List.getLast?_cons, hlast, Option.getD_some], hhead⟩
  · intro _ hall
    by_cases hmore : attempts = []
    · have hkept := h.kept
      rw [hnone hmore] at hkept
      exact (List.append_eq_nil_iff.mp hkept.symm).2
    · exact h.done hmore fun x hx => hall x (List.mem_cons_of_mem _ hx)

end Submits

/-- One turn of the loop: an entry that is not accepted is back where it was. -/
theorem flushLoop_some {n submitted : Nat} {e : IrtcliEntry} {q : WriteQueue}
    (hpop : s.c.queue.pop = some (e, q)) {rc : IrtcliRc} {s₁ : Session σ}
    (hturn : (s.withQueue q).submitAgain L e = (rc, s₁)) :
    flushLoop L (n + 1) submitted s =
      if rc = .ok then flushLoop L n (submitted + 1) s₁
      else (submitted, (s₁.alert "irtcli: submit failed, entry retained").withQueue s.c.queue) := by
  have hqueue := (s.withQueue q).submitAgain_queue (L := L) e
  rw [hturn] at hqueue
  have hback : s₁.c.queue.restore = s.c.queue :=
    (congrArg WriteQueue.restore hqueue).trans (WriteQueue.pop_restore hpop)
  rw [flushLoop, hpop]
  dsimp only
  rw [hturn]
  split
  next heq =>
    obtain ⟨rfl, rfl⟩ := Prod.mk.inj heq
    rw [if_pos rfl]
  next hok heq =>
    obtain ⟨rfl, rfl⟩ := Prod.mk.inj heq
    rw [if_neg hok, hback]

/-- The loop of a flush, with a turn ahead for each entry. -/
theorem flushLoop_submits : ∀ (n submitted : Nat) (s : Session σ), s.c.queue.count ≤ n →
    ∃ result, (flushLoop L n submitted s).1 = submitted + result ∧
      Submits (attemptLoop L n s) result s.queued (flushLoop L n submitted s).2.queued ∧
      (attemptLoop L n s = [] → s.queued = []) ∧
      (flushLoop L n submitted s).2.c.queue.cap = s.c.queue.cap := by
  intro n
  induction n with
  | zero =>
      intro submitted s hcount
      have hempty : s.queued = [] :=
        List.length_eq_zero_iff.mp (s.c.queue.length_entries.trans (Nat.le_zero.mp hcount))
      exact ⟨0, rfl, .none _, fun _ => hempty, rfl⟩
  | succ n ih =>
      intro submitted s hcount
      rcases hpop : s.c.queue.pop with - | ⟨e, q⟩
      · have hempty : s.queued = [] := WriteQueue.pop_eq_none hpop
        rw [flushLoop, attemptLoop, hpop]
        exact ⟨0, rfl, .none _, fun _ => hempty, rfl⟩
      · obtain ⟨hentries, hcap, hless⟩ := WriteQueue.pop_entries hpop
        have hqueue := (s.withQueue q).submitAgain_queue (L := L) e
        obtain ⟨⟨rc, s₁⟩, hturn⟩ : ∃ r, (s.withQueue q).submitAgain L e = r := ⟨_, rfl⟩
        rw [flushLoop_some hpop hturn, attemptLoop, hpop]
        dsimp only
        rw [hturn] at hqueue ⊢
        have hs₁ : s₁.c.queue = q := hqueue
        dsimp only
        by_cases hok : rc = .ok
        · -- the entry is submitted, and the loop goes on
          subst hok
          rw [if_pos rfl, if_pos rfl]
          obtain ⟨result, hresult, hsubmits, hnone, hkeeps⟩ :=
            ih (submitted + 1) s₁ (by rw [hs₁]; omega)
          have hrest : s.queued = e :: s₁.queued := by
            rw [queued, queued, hentries, hs₁]
          refine ⟨result + 1, hresult.trans (by omega), ?_,
            fun h => absurd h (List.cons_ne_nil _ _), by rw [hkeeps, hs₁, hcap]⟩
          rw [hrest]
          exact hsubmits.cons e hnone
        · -- the entry is put back, and the loop ends
          rw [if_neg hok, if_neg hok]
          have hrest : s.queued = e :: q.entries := hentries
          refine ⟨0, rfl, ?_, fun h => absurd h (List.cons_ne_nil _ _), rfl⟩
          change Submits [(e, rc)] 0 s.queued s.queued
          rw [hrest]
          exact .fail e hok _

/-- What the loop of a flush has submitted is what has been confirmed. -/
theorem flushLoop_confirms : ∀ (n submitted : Nat) (s : Session σ),
    s.Confirms (flushLoop L n submitted s).2
      ((succeeded (attemptLoop L n s)).map IrtcliEntry.toBytes) := by
  intro n
  induction n with
  | zero => exact fun _ _ => .of_same rfl rfl
  | succ n ih =>
      intro submitted s
      rcases hpop : s.c.queue.pop with - | ⟨e, q⟩
      · rw [flushLoop, attemptLoop, hpop]
        exact .of_same rfl rfl
      · have hconfirms := (s.withQueue q).submitAgain_confirms (L := L) e
        obtain ⟨⟨rc, s₁⟩, hturn⟩ : ∃ r, (s.withQueue q).submitAgain L e = r := ⟨_, rfl⟩
        have hpopped : s.Confirms (s.withQueue q) [] := .of_same rfl rfl
        rw [flushLoop_some hpop hturn, attemptLoop, hpop]
        dsimp only
        rw [hturn] at hconfirms ⊢
        dsimp only at hconfirms ⊢
        by_cases hok : rc = .ok
        · subst hok
          rw [if_pos rfl, if_pos rfl]
          exact (hpopped.trans hconfirms).trans (ih (submitted + 1) s₁)
        · rw [carried, if_neg hok] at hconfirms
          rw [if_neg hok, if_neg hok, succeeded, List.filter_cons_of_neg (by simpa using hok)]
          exact (hpopped.trans hconfirms).trans (.of_same rfl rfl)

theorem irtcliFlush_confirms (s : Session σ) :
    s.Confirms (s.irtcliFlush L).2 ((succeeded (s.attempts L)).map IrtcliEntry.toBytes) := by
  have hconnect := s.ensureConnected_confirms (L := L)
  unfold attempts irtcliFlush
  split
  · exact .of_same rfl rfl
  · generalize s.ensureConnected L = r at hconnect ⊢
    obtain ⟨up, s₁⟩ := r
    cases up with
    | false => exact hconnect
    | true => exact hconnect.trans (flushLoop_confirms s₁.c.queue.count 0 s₁)

/-- A flush, whatever becomes of the connection and of the submissions. -/
theorem irtcliFlush_submits (s : Session σ) :
    Submits (s.attempts L) (s.irtcliFlush L).1 s.queued (s.irtcliFlush L).2.queued ∧
      (s.irtcliFlush L).2.c.queue.cap = s.c.queue.cap := by
  have hconnect := s.ensureConnected_queue (L := L)
  unfold attempts irtcliFlush
  split
  · exact ⟨.none _, rfl⟩
  · generalize s.ensureConnected L = r at hconnect ⊢
    obtain ⟨up, s₁⟩ := r
    have hqueued : s₁.queued = s.queued := congrArg WriteQueue.entries hconnect
    cases up with
    | false =>
        dsimp only
        rw [hqueued]
        exact ⟨.none _, congrArg WriteQueue.cap hconnect⟩
    | true =>
        obtain ⟨result, hresult, hsubmits, -, hkeeps⟩ :=
          flushLoop_submits (L := L) s₁.c.queue.count 0 s₁ (Nat.le_refl _)
        dsimp only
        rw [hresult, Nat.zero_add, ← hqueued]
        exact ⟨hsubmits, hkeeps.trans (congrArg WriteQueue.cap hconnect)⟩

/-- A flush without an attempt. -/
theorem attempts_eq_nil_iff :
    s.attempts L = [] ↔ s.queued = [] ∨ (s.ensureConnected L).1 = false := by
  have hempty : s.queued = [] ↔ s.c.queue.count = 0 := by
    rw [← List.length_eq_zero_iff, queued, WriteQueue.length_entries]
  have hqueue := s.ensureConnected_queue (L := L)
  rw [hempty, attempts]
  split
  next hcount => exact iff_of_true rfl (.inl hcount)
  next hcount =>
    generalize s.ensureConnected L = r at hqueue ⊢
    obtain ⟨up, s₁⟩ := r
    cases up with
    | false => exact iff_of_true rfl (.inr rfl)
    | true =>
        have hsame : s₁.c.queue.count = s.c.queue.count := congrArg WriteQueue.count hqueue
        obtain ⟨-, -, -, hnone, -⟩ :=
          flushLoop_submits (L := L) s₁.c.queue.count 0 s₁ (Nat.le_refl _)
        refine iff_of_false (fun h => hcount ?_) (by simp [hcount])
        rw [← hsame, ← s₁.c.queue.length_entries]
        exact List.length_eq_zero_iff.mpr (hnone h)

/-! ## Every call -/

/-- What holds of a client with this history. -/
structure KeepsNewest (L : Line σ) (cap : Nat) (history : List (Latest.Event IrtcliEntry))
    (s : Session σ) : Prop where
  /-- there are at most `cap` entries -/
  bounded : s.queued.length ≤ cap
  /-- they are the newest values not submitted yet, one for each point, in order -/
  waiting : Latest.Waiting IrtcliEntry.pointId history s.queued
  /-- a write is refused where it needs a new place and there are `cap` entries -/
  full : ∀ e, (s.writeEntry L e).1 = .errFull ↔
    s.c.async = true ∧ s.queued.length = cap ∧ e.pointId ∉ s.queued.map IrtcliEntry.pointId
  /-- and queued everywhere else -/
  queues : ∀ e, s.c.async = true → (s.writeEntry L e).1 ≠ .errFull →
    (s.writeEntry L e).1 = .queued
  /-- a flush submits a prefix and keeps the rest -/
  flushes : Submits (s.attempts L) (s.irtcliFlush L).1 s.queued (s.irtcliFlush L).2.queued
  /-- it starts where something is queued and there is a connection, or one can be made -/
  starts : s.attempts L = [] ↔ s.queued = [] ∨ (s.ensureConnected L).1 = false
  /-- what it submits are the writes it has put on the line and had confirmed, in order -/
  confirmed : confirmedSince s (s.irtcliFlush L).2 =
    (succeeded (s.attempts L)).map IrtcliEntry.toBytes
  /-- a write that is refused leaves the client and its connection as they are -/
  refuses : ∀ e, (s.writeEntry L e).1 = .errFull →
    (s.writeEntry L e).2.c = s.c ∧ (s.writeEntry L e).2.line = s.line ∧
      (s.writeEntry L e).2.unread = s.unread

/-- What a write leaves. -/
theorem writeEntry_keeps {history : List (Latest.Event IrtcliEntry)}
    (hwaiting : Latest.Waiting IrtcliEntry.pointId history s.queued) (e : IrtcliEntry) :
    Latest.Waiting IrtcliEntry.pointId (accepted (s.writeEntry L e).1 e ++ history)
        (s.writeEntry L e).2.queued ∧
      (s.writeEntry L e).2.c.queue.cap = s.c.queue.cap := by
  unfold writeEntry
  split
  next =>
    split
    next q hpush =>
      obtain ⟨hentries, hcap⟩ := WriteQueue.push_entries hwaiting hpush
      refine ⟨?_, hcap⟩
      change Latest.Waiting IrtcliEntry.pointId (.queued e :: history) q.entries
      rw [hentries]
      exact hwaiting.put e
    next => exact ⟨hwaiting, rfl⟩
  next =>
    -- a synchronous write does not touch the queue
    have hconnect := s.ensureConnected_queue (L := L)
    generalize s.ensureConnected L = r at hconnect ⊢
    obtain ⟨up, s₁⟩ := r
    have hqueued : s₁.queued = s.queued := congrArg WriteQueue.entries hconnect
    cases up with
    | false => exact ⟨hqueued ▸ hwaiting, congrArg WriteQueue.cap hconnect⟩
    | true =>
        have hsubmit := s₁.submitOne_queue (L := L) .write e
        have hanswer := s₁.submitOne_answer (L := L) .write e
        dsimp only
        generalize s₁.submitOne L .write e = r at hsubmit hanswer ⊢
        obtain ⟨rc, s₂⟩ := r
        have hsame : s₂.c.queue = s.c.queue := hsubmit.trans hconnect
        have hqueued₂ : s₂.queued = s.queued := congrArg WriteQueue.entries hsame
        split
        next heq =>
          obtain ⟨rfl, rfl⟩ := Prod.mk.inj heq
          exact ⟨hqueued₂ ▸ hwaiting, congrArg WriteQueue.cap hsame⟩
        next heq =>
          obtain ⟨rfl, rfl⟩ := Prod.mk.inj heq
          rw [accepted, if_neg hanswer.1]
          exact ⟨hqueued₂ ▸ hwaiting, congrArg WriteQueue.cap hsame⟩

/-- An asynchronous write is answered by the queue alone. -/
theorem writeEntry_async (hasync : s.c.async = true) (e : IrtcliEntry) :
    (s.writeEntry L e).1 = if (s.c.queue.push e).isNone then .errFull else .queued := by
  rw [writeEntry, if_pos hasync]
  rcases s.c.queue.push e with - | q
  · rfl
  · rfl

theorem writeEntry_full_iff (e : IrtcliEntry) :
    (s.writeEntry L e).1 = .errFull ↔
      s.c.async = true ∧ s.queued.length = s.c.queue.cap ∧
        e.pointId ∉ s.queued.map IrtcliEntry.pointId := by
  rw [queued, ← WriteQueue.push_eq_none_iff]
  by_cases hasync : s.c.async = true
  · rw [writeEntry_async hasync]
    rcases s.c.queue.push e with - | q
    · exact iff_of_true rfl ⟨hasync, rfl⟩
    · exact iff_of_false nofun fun h => Option.some_ne_none _ h.2
  · refine iff_of_false (fun hfull => ?_) fun h => hasync h.1
    rw [writeEntry, if_neg hasync] at hfull
    split at hfull
    next => cases hfull
    next s₁ _ =>
      have hanswer := s₁.submitOne_answer (L := L) .write e
      split at hfull
      next => cases hfull
      next heq =>
        rw [heq] at hanswer
        exact hanswer.2 hfull

/-- A write that is refused has found the queue full; nothing else happens. -/
theorem writeEntry_refused {e : IrtcliEntry} (hfull : (s.writeEntry L e).1 = .errFull) :
    (s.writeEntry L e).2 = s.alert "irtcli: write queue full" := by
  obtain ⟨hasync, -⟩ := (writeEntry_full_iff e).mp hfull
  rw [writeEntry, if_pos hasync] at hfull ⊢
  rcases hpush : s.c.queue.push e with - | q
  · rfl
  · rw [hpush] at hfull
    cases hfull

/-- Every call adds its events to what the queue holds. -/
theorem call_keeps {history : List (Latest.Event IrtcliEntry)}
    (hwaiting : Latest.Waiting IrtcliEntry.pointId history s.queued) (call : Call) :
    Latest.Waiting IrtcliEntry.pointId (s.events L call ++ history) (s.call L call).queued ∧
      (s.call L call).c.queue.cap = s.c.queue.cap := by
  have hsame : ∀ s' : Session σ, s'.c.queue = s.c.queue →
      Latest.Waiting IrtcliEntry.pointId history s'.queued ∧
        s'.c.queue.cap = s.c.queue.cap := by
    intro s' hqueue
    have hqueued : s'.queued = s.queued := congrArg WriteQueue.entries hqueue
    exact ⟨hqueued ▸ hwaiting, congrArg WriteQueue.cap hqueue⟩
  cases call with
  | connect => exact hsame _ s.connect_queue
  | setAsync async => exact hsame _ rfl
  | writeBool id value sourceTsNs => exact writeEntry_keeps hwaiting _
  | writeInt32 id value sourceTsNs => exact writeEntry_keeps hwaiting _
  | writeDouble id value sourceTsNs => exact writeEntry_keeps hwaiting _
  | flush =>
      obtain ⟨hsubmits, hcap⟩ := irtcliFlush_submits (L := L) s
      refine ⟨?_, hcap⟩
      rw [hsubmits.kept] at hwaiting
      exact hwaiting.takeAll
  | findByNameIn partition name =>
      refine hsame _ ?_
      rw [Session.call, irtcliFindByNameIn_session]
      exact s.rtSubmit_queue _ _ _
  | findByName name =>
      refine hsame _ ?_
      rw [Session.call, irtcliFindByName, irtcliFindByNameIn_session]
      exact s.rtSubmit_queue _ _ _
  | select partition =>
      refine hsame _ ?_
      have hqueue := s.rtSubmit_queue (L := L) rtdbdOpSelect (le32 partition.toNat) 0
      unfold Session.call irtcliSelect
      dsimp only
      split
      next heq => rwa [heq] at hqueue
      next heq =>
        rw [heq] at hqueue
        split
        · exact hqueue
        · exact hqueue
  | listIn partition offset max cap =>
      exact hsame _ (s.irtcliListIn_queue partition offset max cap)
  | getMeta id =>
      refine hsame _ ?_
      rw [Session.call, irtcliGetMeta_session]
      exact s.rtSubmit_queue _ _ _
  | setMeta id m =>
      refine hsame _ ?_
      rw [Session.call, irtcliSetMeta_session]
      exact s.rtSubmit_queue _ _ _

/-- Every sequence of calls adds its history. -/
theorem run_keeps (calls : List Call) : ∀ {past : List (Latest.Event IrtcliEntry)} {s : Session σ},
    Latest.Waiting IrtcliEntry.pointId past s.queued →
      Latest.Waiting IrtcliEntry.pointId (s.history L calls ++ past) (s.run L calls).queued ∧
        (s.run L calls).c.queue.cap = s.c.queue.cap := by
  induction calls with
  | nil => exact fun hwaiting => ⟨hwaiting, rfl⟩
  | cons call calls ih =>
      intro past s hwaiting
      obtain ⟨hnext, hcap⟩ := call_keeps (L := L) hwaiting call
      obtain ⟨hrest, hcap'⟩ := ih hnext
      rw [history, List.append_assoc]
      exact ⟨hrest, hcap'.trans hcap⟩

end Session

/-- A client that has been initialised has an empty queue. -/
theorem irtcliInit_queue {sockPath : CStr} {cap : Nat} {c : Irtcli}
    (hinit : irtcliInit sockPath cap = .ok c) : c.queue.entries = [] := by
  have hcount : c.queue.count = 0 := by
    unfold irtcliInit at hinit
    grind
  exact List.length_eq_zero_iff.mp (c.queue.length_entries.trans hcount)

/-! ## The write queue -/

/-- Whatever is called and whatever the other end does, the queue holds the newest value of
each point that has not been submitted, in order. -/
theorem keepsNewest {σ : Type} (L : Line σ) (line : σ) {sockPath : CStr} {cap : Nat} {c : Irtcli}
    (hinit : irtcliInit sockPath cap = .ok c) (calls : List Call) :
    ((Session.start c line).run L calls).KeepsNewest L c.queue.cap
      ((Session.start c line).history L calls) := by
  have hempty : (Session.start c line).queued = [] := irtcliInit_queue hinit
  have hstart : Latest.Waiting IrtcliEntry.pointId [] (Session.start c line).queued := by
    rw [hempty]
    exact .nil
  obtain ⟨hwaiting, hcap⟩ := Session.run_keeps (L := L) calls hstart
  rw [List.append_nil] at hwaiting
  refine ⟨?_, hwaiting, fun e => ?_, fun e hasync hroom => ?_, (Session.irtcliFlush_submits _).1,
    Session.attempts_eq_nil_iff, (Session.irtcliFlush_confirms _).since, fun e hfull => ?_⟩
  · have hcount := ((Session.start c line).run L calls).c.queue.count_le
    rw [hcap] at hcount
    rw [Session.queued, WriteQueue.length_entries]
    exact hcount
  · rw [← show _ = c.queue.cap from hcap]
    exact Session.writeEntry_full_iff e
  · rw [Session.writeEntry_async hasync] at hroom ⊢
    split at hroom
    next => exact absurd rfl hroom
    next hplace => rw [if_neg hplace]
  · rw [Session.writeEntry_refused hfull]
    exact ⟨rfl, rfl, rfl⟩

/-- A server that carries the first write out and refuses every other one. -/
def oneWrite : Script where
  connects := fun _ => some 3
  answers := fun n =>
    { zeros 0 (by decide) with status := if n = 0 then rtdbdStOk else rtdbdStDenied }

/-- A client with room for two entries. -/
def twoPlaces : Irtcli :=
  { newClient with queue := ⟨fun _ => default, 2, 0, 0, by decide, Nat.zero_le _, by decide⟩ }

theorem twoPlaces_init : irtcliInit .empty 2 = .ok twoPlaces := rfl

/-- Writes of four points around a flush. -/
def aroundFlush : List Call :=
  [.writeInt32 5 1 0, .writeBool 6 true 0, .writeInt32 5 2 0, .writeInt32 7 1 0, .flush,
    .writeInt32 8 3 0]

/-- The second value of point 5 takes the place of the first, and there is none for
point 7; point 6 is refused and stays ahead of point 8. -/
theorem keepsNewest_aroundFlush :
    (((Session.start twoPlaces .start).run oneWrite.line aroundFlush).KeepsNewest oneWrite.line 2
        ((Session.start twoPlaces .start).history oneWrite.line aroundFlush)) ∧
      ((Session.start twoPlaces .start).run oneWrite.line aroundFlush).queued =
        [⟨6, irtcliTypeBool, 1, 0⟩, ⟨8, irtcliTypeInt32, 3, 0⟩] ∧
      (Session.start twoPlaces .start).history oneWrite.line aroundFlush =
        [.queued ⟨8, irtcliTypeInt32, 3, 0⟩, .taken ⟨5, irtcliTypeInt32, 2, 0⟩,
          .queued ⟨5, irtcliTypeInt32, 2, 0⟩, .queued ⟨6, irtcliTypeBool, 1, 0⟩,
          .queued ⟨5, irtcliTypeInt32, 1, 0⟩] :=
  ⟨keepsNewest oneWrite.line .start twoPlaces_init aroundFlush, by decide +kernel,
    by decide +kernel⟩

end InduRtdb.Client
