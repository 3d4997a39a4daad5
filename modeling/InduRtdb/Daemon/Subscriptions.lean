/-
  Daemon/Subscriptions.lean --- the connections of the event loop over its runs.

  Source: `conn_add_sub`, `conn_del_sub`, `notify_broadcast`, `op_subscribe` and
  `main` of `rtdbd/src/rtdbd.c`.

  What a request does to the subscriptions and to the queues of all connections
  is said once (`handleRequest_subs`, `handleRequest_told`); the invariant of the
  table (`Tidy`) follows from it event by event.
-/
import InduRtdb.Daemon.Authority

set_option autoImplicit false

namespace InduRtdb.Daemon

open InduRtdb.Core InduRtdb.Api InduRtdb.Lib

/-! ## Adding and removing -/

/-- The last entry in the place of another one, and off the end: one entry less, in
another order. -/
theorem setLast_dropLast_perm (l : List Nat) {i : Nat} (hi : i < l.length) :
    (l.set i (l.getLast?.getD 0)).dropLast.Perm (l.eraseIdx i) := by
  obtain ⟨init, last, rfl⟩ : ∃ init last, l = init ++ [last] :=
    ⟨l.dropLast, l.getLast (List.ne_nil_of_length_pos (by omega)),
      (List.dropLast_append_getLast _).symm⟩
  rw [List.getLast?_concat, Option.getD_some]
  rw [List.length_append, List.length_singleton] at hi
  rcases Nat.lt_or_eq_of_le (Nat.le_of_lt_succ hi) with hlt | rfl
  · rw [List.set_append_left _ _ hlt, List.dropLast_concat, List.eraseIdx_append_of_lt_length hlt,
      List.set_eq_take_append_cons_drop, if_pos hlt, List.eraseIdx_eq_take_drop_succ]
    rw [List.append_assoc]
    exact (List.perm_append_singleton _ _).symm.append_left _
  · rw [List.set_append_right _ _ (Nat.le_refl _), Nat.sub_self, List.set_cons_zero,
      List.dropLast_concat, List.eraseIdx_append_of_length_le (Nat.le_refl _), Nat.sub_self,
      List.eraseIdx_zero, List.tail_cons, List.append_nil]

namespace RtdbdConn

variable {c : RtdbdConn} {pointId : Nat}

theorem hasSub_iff : c.hasSub pointId = true ↔ pointId ∈ c.subs := List.contains_iff_mem

/-- `conn_add_sub` adds a point that is not there yet and fits. -/
theorem addSub_subs (c : RtdbdConn) (pointId : Nat) :
    (c.addSub pointId).2.subs =
      if pointId ∉ c.subs ∧ c.subs.length < rtdbdSubMax then c.subs ++ [pointId] else c.subs := by
  unfold addSub
  split
  case isTrue hthere => rw [if_neg fun h => h.1 (hasSub_iff.mp hthere)]
  case isFalse hnew =>
    split
    case isTrue hfull => rw [if_neg fun h => Nat.not_lt.mpr hfull h.2]
    case isFalse hroom =>
      rw [if_pos ⟨fun h => hnew (hasSub_iff.mpr h), Nat.lt_of_not_le hroom⟩]

/-- It succeeds when the point is subscribed to afterwards. -/
theorem addSub_ok_iff : (c.addSub pointId).1 = true ↔ pointId ∈ (c.addSub pointId).2.subs := by
  unfold addSub
  split
  case isTrue hthere => exact iff_of_true rfl (hasSub_iff.mp hthere)
  case isFalse hnew =>
    split
    case isTrue hfull => exact iff_of_false Bool.false_ne_true fun h => hnew (hasSub_iff.mpr h)
    case isFalse hroom => exact iff_of_true rfl (by simp)

/-- `conn_del_sub` removes the first entry of the point. -/
theorem delSub_perm (c : RtdbdConn) (pointId : Nat) :
    (c.delSub pointId).subs.Perm (c.subs.erase pointId) := by
  rw [List.erase_eq_eraseIdx, List.idxOf?]
  unfold delSub
  dsimp only
  split
  case h_1 hnone =>
    rw [hnone]
  case h_2 i hfound =>
    rw [hfound]
    exact setLast_dropLast_perm _ (List.findIdx?_eq_some_iff_getElem.mp hfound).1

end RtdbdConn

/-- The subscriptions of a connection are in order. -/
structure Subscribed (subs : List Nat) : Prop where
  nodup : subs.Nodup
  length_le : subs.length ≤ rtdbdSubMax

theorem subscribed_nil : Subscribed [] := ⟨.nil, Nat.zero_le _⟩

theorem Subscribed.addSub {c : RtdbdConn} (h : Subscribed c.subs) (pointId : Nat) :
    Subscribed (c.addSub pointId).2.subs := by
  rw [c.addSub_subs]
  split
  case isTrue hadd =>
    obtain ⟨hnew, hroom⟩ := hadd
    constructor
    · exact h.nodup.append (List.nodup_singleton _) (List.disjoint_singleton.mpr hnew)
    · rw [List.length_append, List.length_singleton]
      exact hroom
  case isFalse => exact h

theorem Subscribed.delSub {c : RtdbdConn} (h : Subscribed c.subs) (pointId : Nat) :
    Subscribed (c.delSub pointId).subs := by
  have hperm := c.delSub_perm pointId
  constructor
  · exact hperm.nodup_iff.mpr (h.nodup.erase pointId)
  · rw [hperm.length_eq]
    exact Nat.le_trans List.length_erase_le h.length_le

/-- What is left behind `conn_del_sub`: all but the point. -/
theorem Subscribed.mem_delSub {c : RtdbdConn} (h : Subscribed c.subs) {pointId p : Nat} :
    p ∈ (c.delSub pointId).subs ↔ p ≠ pointId ∧ p ∈ c.subs := by
  rw [(c.delSub_perm pointId).mem_iff, h.nodup.mem_erase_iff]

/-! ## What a request does to the connections -/

/-- The point a `SUBSCRIBE` or an `UNSUBSCRIBE` is about. -/
def wordOf (input : List UInt8) : Nat := fieldAt (EventLoop.payloadOf input) 0 4

/-- The request is a `SUBSCRIBE` or an `UNSUBSCRIBE`. -/
def Resubscribing (opcode : Nat) : Prop :=
  opcode = rtdbdOpSubscribe ∨ opcode = rtdbdOpUnsubscribe

instance (opcode : Nat) : Decidable (Resubscribing opcode) := inferInstanceAs (Decidable (_ ∨ _))

namespace RtdbdCtx

/-- The connection behind `op_subscribe` with this point. -/
def resubscribed (cx : RtdbdCtx) (pointId : Nat) : RtdbdConn :=
  if cx.req.opcode = rtdbdOpSubscribe then (cx.conn.addSub pointId).2
  else cx.conn.delSub pointId

/-- What `op_subscribe` answers. -/
def resubscribeStatus (cx : RtdbdCtx) (pointId : Nat) : Nat :=
  if cx.req.opcode = rtdbdOpSubscribe ∧ (cx.conn.addSub pointId).1 = false then rtdbdStInternal
  else rtdbdStOk

/-- `op_subscribe` with its payload. -/
theorem opSubscribe_arrived {cx : RtdbdCtx} (hsize : cx.req.payloadLen = sizeofWord)
    (harrived : cx.Arrived) :
    opSubscribe cx = RtdbdCtx.respond
      { cx with
        d := (cx.setConn (cx.resubscribed (fieldAt cx.payload 0 4))).d
        sock := { cx.sock with input := cx.left } }
      (cx.resubscribeStatus (fieldAt cx.payload 0 4)) [] := by
  have hlong : sizeofWord ≤ cx.sock.input.length := hsize ▸ harrived
  rw [opSubscribe, withPayload, if_neg (not_not_intro hsize), Socket.recvAll, if_pos hlong,
    resubscribed, resubscribeStatus, payload, left, hsize]
  dsimp only
  split
  case isTrue hop =>
    cases hadd : cx.conn.addSub (fieldAt (cx.sock.input.take sizeofWord) 0 4) with
    | mk ok c =>
        have hconn : ∀ sock, RtdbdCtx.conn { cx with sock := sock } = cx.conn := fun _ => rfl
        rw [hconn, hadd]
        cases ok with
        | true => simp [hop, setConn]
        | false => simp [hop, setConn]
  case isFalse hop =>
    rw [if_neg fun h => hop h.1]
    rfl

/-- `op_subscribe` without it. -/
theorem opSubscribe_refused {cx : RtdbdCtx}
    (hnot : ¬ (cx.req.payloadLen = sizeofWord ∧ cx.Arrived)) :
    ∃ input, opSubscribe cx =
      RtdbdCtx.refuse { cx with sock := { cx.sock with input := input } } rtdbdStBadRequest := by
  unfold opSubscribe withPayload
  split
  case isTrue => exact ⟨cx.sock.input, rfl⟩
  case isFalse hsize =>
    have hsize := Decidable.of_not_not hsize
    have hshort : ¬ sizeofWord ≤ cx.sock.input.length := fun hlong =>
      hnot ⟨hsize, by rwa [Arrived, hsize]⟩
    refine ⟨[], ?_⟩
    rw [Socket.recvAll, if_neg hshort]

end RtdbdCtx

/-- Both opcodes are entered with `op_subscribe`. -/
theorem dispatch_resubscribing {cx : RtdbdCtx} (hop : Resubscribing cx.req.opcode) :
    dispatch cx = opSubscribe cx := by
  rcases hop with hop | hop
  · have hentry : kOps.find? (fun entry => entry.1 == rtdbdOpSubscribe) =
        some (rtdbdOpSubscribe, opSubscribe) := rfl
    exact dispatch_of_entry hentry hop
  · have hentry : kOps.find? (fun entry => entry.1 == rtdbdOpUnsubscribe) =
        some (rtdbdOpUnsubscribe, opSubscribe) := rfl
    exact dispatch_of_entry hentry hop

/-- What a broadcast does to a connection: it may push a notification for a point the
connection is subscribed to, and a free place stays as it is. -/
structure Told (c c' : RtdbdConn) : Prop where
  subs : c'.subs = c.subs
  outq : c'.outq = c.outq ∨
    ∃ st nt now, nt.pointId ∈ c.subs ∧ c'.outq = (outqPush c.outq st nt now).1
  free : c.fd < 0 → c' = c

theorem Told.refl (c : RtdbdConn) : Told c c := ⟨rfl, .inl rfl, fun _ => rfl⟩

theorem offer_told (nt : RtdbdNotify) (m : IndurtdbMeta) (now : Nat) (c : RtdbdConn)
    (st : RtdbdStats) : Told c (offer nt m now c st).1 := by
  unfold offer
  split
  case isTrue => exact .refl c
  case isFalse hopen =>
    split
    case isTrue => exact .refl c
    case isFalse hsub =>
      have hmem : nt.pointId ∈ c.subs := RtdbdConn.hasSub_iff.mp (of_not_bnot hsub)
      split
      · exact ⟨rfl, .inl rfl, fun hfree => absurd hfree hopen⟩
      · exact ⟨rfl, .inr ⟨st, nt, now, hmem, rfl⟩, fun hfree => absurd hfree hopen⟩

theorem notifyBroadcast_told (d : Rtdbd) (w : RtdbdWriteReq) (m : IndurtdbMeta) (now j : Nat) :
    Told (d.conns j) ((notifyBroadcast d w m now).conns j) := by
  have hconn : (notifyBroadcast d w m now).conns j = _ :=
    offerLoop_conns (notifyOf d.h w) m now d.stats rtdbdMaxClients 0 d.conns d.stats j
  rw [hconn]
  split
  · exact offer_told _ _ _ _ _
  · exact .refl _

section

variable {cx : RtdbdCtx} {reply : Reply}

/-- A decision with something to announce has changed no connection. -/
theorem Decided.announces (decided : Decided cx reply) :
    reply.announce = id ∨ reply.d.conns = cx.d.conns ∧
      ∀ d j, Told (d.conns j) ((reply.announce d).conns j) := by
  cases decided with
  | wrote => exact .inr ⟨rfl, fun d j => notifyBroadcast_told d _ _ _ j⟩
  | _ => exact .inl rfl

/-- A decision changes no connection but its own. -/
theorem Decided.conns_other (decided : Decided cx reply) {j : Nat} (hne : j ≠ cx.slot) :
    reply.d.conns j = cx.d.conns j := by
  cases decided with
  | subscribed => rw [setConn_conns, Function.update_of_ne hne]
  | selected => rw [setConn_conns, Function.update_of_ne hne]
  | changed =>
      rw [conns_logged]
      rfl
  | _ => rfl

/-- Only the two opcodes change the subscriptions. -/
theorem Decided.subs_kept (decided : Decided cx reply) (hop : ¬ Resubscribing cx.req.opcode)
    (j : Nat) : (reply.d.conns j).subs = (cx.d.conns j).subs := by
  rcases Decidable.em (j = cx.slot) with rfl | hne
  · cases decided with
    | subscribed _ opcode => exact absurd opcode hop
    | selected =>
        rw [setConn_conns, Function.update_self]
        rfl
    | changed =>
        rw [conns_logged]
        rfl
    | _ => rfl
  · rw [decided.conns_other hne]

/-- What a decision carried out does to a connection it does not change. -/
theorem Decided.told (decided : Decided cx reply) {j : Nat}
    (hsame : reply.d.conns j = cx.d.conns j) :
    Told (cx.d.conns j) ((reply.send cx).2.d.conns j) := by
  obtain ⟨k, room, -, -, hd⟩ := reply.send_eq cx
  rw [hd, ← hsame]
  split
  · rcases decided.announces with hquiet | ⟨-, htold⟩
    · rw [hquiet]
      exact .refl _
    · exact htold _ j
  · exact .refl _

end

section

variable {d : Rtdbd} {slot : Nat} {sock : Socket} {env : Env}

/-- A request pushes a notification only on a connection that is subscribed to its
point. -/
theorem handleRequest_outq (d : Rtdbd) (slot : Nat) (sock : Socket) (env : Env) (j : Nat) :
    ((handleRequest d slot sock env).d.conns j).outq = (d.conns j).outq ∨
      ∃ st nt now, nt.pointId ∈ (d.conns j).subs ∧
        ((handleRequest d slot sock env).d.conns j).outq =
          (outqPush (d.conns j).outq st nt now).1 := by
  rcases Decidable.em (HeaderArrives sock.input) with harrives | hnot
  · obtain ⟨reply, decided, hhandled⟩ := @handleRequest_of_header d slot sock env harrives
    rw [hhandled]
    rcases decided.announces with hquiet | ⟨hsame, -⟩
    · refine .inl ?_
      rw [reply.send_quiet hquiet]
      exact (decided.conns_kept j).2
    · exact (decided.told (congrFun hsame j)).outq
  · obtain ⟨st, input, -, hhandled⟩ := @handleRequest_of_not_header d slot sock env hnot
    rw [hhandled]
    exact .inl rfl

/-- What a request does to the connections of the others. -/
theorem handleRequest_other {j : Nat} (hne : j ≠ slot) :
    Told (d.conns j) ((handleRequest d slot sock env).d.conns j) := by
  rcases Decidable.em (HeaderArrives sock.input) with harrives | hnot
  · obtain ⟨reply, decided, hhandled⟩ := @handleRequest_of_header d slot sock env harrives
    rw [hhandled]
    exact decided.told (decided.conns_other hne)
  · obtain ⟨st, input, -, hhandled⟩ := @handleRequest_of_not_header d slot sock env hnot
    rw [hhandled]
    exact .refl _

/-- The payload of a request that arrives is the one its handler reads. -/
theorem payload_ofRequest (d : Rtdbd) (slot : Nat) (sock : Socket) (env : Env) :
    (RtdbdCtx.ofRequest d slot sock env).payload = EventLoop.payloadOf sock.input := rfl

/-- A request that keeps its connection has a header. -/
theorem headerArrives_of_keep (hkeep : (handleRequest d slot sock env).fate = .keep) :
    HeaderArrives sock.input := by
  by_contra hnot
  obtain ⟨st, input, -, hhandled⟩ := @handleRequest_of_not_header d slot sock env hnot
  rw [hhandled] at hkeep
  cases hkeep

/-- A `SUBSCRIBE` or `UNSUBSCRIBE` that keeps its connection has its payload. -/
theorem word_of_keep (hkeep : (handleRequest d slot sock env).fate = .keep)
    (hop : Resubscribing (headerOf sock.input).opcode) :
    (headerOf sock.input).payloadLen = sizeofWord ∧
      (RtdbdCtx.ofRequest d slot sock env).Arrived := by
  by_contra hnot
  obtain ⟨input, hrefused⟩ := @RtdbdCtx.opSubscribe_refused (.ofRequest d slot sock env) hnot
  rw [handleRequest_eq (headerArrives_of_keep hkeep), dispatch_resubscribing hop, hrefused] at hkeep
  cases hkeep

/-- The connection behind a `SUBSCRIBE` or `UNSUBSCRIBE` that keeps it. -/
theorem handleRequest_resubscribed (hkeep : (handleRequest d slot sock env).fate = .keep)
    (hop : Resubscribing (headerOf sock.input).opcode) :
    (handleRequest d slot sock env).d.conns slot =
      (RtdbdCtx.ofRequest d slot sock env).resubscribed (wordOf sock.input) := by
  obtain ⟨hsize, harrived⟩ := word_of_keep hkeep hop
  obtain ⟨k, room, hsent, -⟩ := respond_eq
    { RtdbdCtx.ofRequest d slot sock env with
      d := ((RtdbdCtx.ofRequest d slot sock env).setConn
        ((RtdbdCtx.ofRequest d slot sock env).resubscribed (wordOf sock.input))).d
      sock := { (RtdbdCtx.ofRequest d slot sock env).sock with
        input := (RtdbdCtx.ofRequest d slot sock env).left } }
    ((RtdbdCtx.ofRequest d slot sock env).resubscribeStatus (wordOf sock.input)) []
  rw [handleRequest_eq (headerArrives_of_keep hkeep), dispatch_resubscribing hop,
    RtdbdCtx.opSubscribe_arrived hsize harrived, payload_ofRequest, ← wordOf, hsent]
  dsimp only
  rw [setConn_conns]
  exact Function.update_self _ _ _

/-- The subscriptions behind a request that keeps its connection. -/
theorem handleRequest_own (hkeep : (handleRequest d slot sock env).fate = .keep) :
    ((handleRequest d slot sock env).d.conns slot).subs =
      if (headerOf sock.input).opcode = rtdbdOpSubscribe then
        ((d.conns slot).addSub (wordOf sock.input)).2.subs
      else if (headerOf sock.input).opcode = rtdbdOpUnsubscribe then
        ((d.conns slot).delSub (wordOf sock.input)).subs
      else (d.conns slot).subs := by
  by_cases hop : Resubscribing (headerOf sock.input).opcode
  · have hconn : (RtdbdCtx.ofRequest d slot sock env).conn = d.conns slot := rfl
    have hreq : (RtdbdCtx.ofRequest d slot sock env).req = headerOf sock.input := rfl
    rw [handleRequest_resubscribed hkeep hop, RtdbdCtx.resubscribed, hreq, hconn]
    split
    case isTrue => rfl
    case isFalse hnot => rw [if_pos (hop.resolve_left hnot)]
  · obtain ⟨reply, decided, hhandled⟩ :=
      @handleRequest_of_header d slot sock env (headerArrives_of_keep hkeep)
    rw [if_neg fun h => hop (.inl h), if_neg fun h => hop (.inr h), hhandled]
    rcases decided.announces with hquiet | ⟨hsame, -⟩
    · rw [reply.send_quiet hquiet]
      exact decided.subs_kept hop slot
    · exact (decided.told (congrFun hsame slot)).subs

/-- A `SUBSCRIBE` that keeps its connection and leaves it subscribed is answered with
success. -/
theorem statusOf_subscribe {s : EventLoop} {input : List UInt8} {room : Option Nat}
    (hkeep : (s.handled slot input room env).fate = .keep)
    (hop : (headerOf input).opcode = rtdbdOpSubscribe)
    (hadds : ((s.d.conns slot).addSub (wordOf input)).1 = true) :
    s.statusOf slot input env = some rtdbdStOk := by
  have harrives := headerArrives_of_keep hkeep
  obtain ⟨hsize, harrived⟩ := word_of_keep hkeep (.inl hop)
  have hconn : (RtdbdCtx.ofRequest s.d slot ⟨input, none, []⟩ env).conn = s.d.conns slot := rfl
  have hok : (RtdbdCtx.ofRequest s.d slot ⟨input, none, []⟩ env).resubscribeStatus
      (wordOf input) = rtdbdStOk := by
    refine if_neg fun h => ?_
    rw [hconn, hadds] at h
    cases h.2
  have hentered := @RtdbdCtx.opSubscribe_arrived (.ofRequest s.d slot ⟨input, none, []⟩ env)
    hsize harrived
  have hhandled := @handleRequest_eq s.d slot ⟨input, none, []⟩ env harrives
  rw [dispatch_resubscribing (.inl hop), hentered, payload_ofRequest, ← wordOf, hok,
    respond_unbounded rfl] at hhandled
  rw [EventLoop.statusOf, hhandled]
  rfl

end

/-- The other connections behind a request, whether its own is closed or not. -/
theorem EventLoop.after_request_other {s : EventLoop} {slot : Nat} {input : List UInt8}
    {room : Option Nat} {env : Env} {j : Nat} (hne : j ≠ slot) :
    (s.after (.request slot input room env)).d.conns j =
      (s.handled slot input room env).d.conns j := by
  by_cases hkeep : (s.handled slot input room env).fate = .keep
  · rw [after_request_keep hkeep]
  · simp [after, hkeep, closeConn, Function.update_of_ne hne]

/-- What an event does to the connections of the others. -/
theorem EventLoop.after_told {s : EventLoop} {e : LoopEvent} {j : Nat} (hne : j ≠ e.slot) :
    Told (s.d.conns j) ((s.after e).d.conns j) := by
  cases e with
  | accept slot fd => exact Function.update_of_ne hne _ s.d.conns ▸ .refl _
  | request slot input room env =>
      have hne : j ≠ slot := hne
      rw [after_request_other hne]
      exact handleRequest_other hne
  | flush slot results now => exact Function.update_of_ne hne _ s.d.conns ▸ .refl _

/-! ## What the run says -/

/-- The connection in a place is subscribed to a point: on this connection, a
`SUBSCRIBE` for it was answered with success, and no `UNSUBSCRIBE` for it came since. -/
def subscribedIn : List (EventLoop × LoopEvent) → Nat → Nat → Prop
  | [], _, _ => False
  | (s, e) :: past, slot, pointId =>
      match e with
      | .accept slot' _ => slot' ≠ slot ∧ subscribedIn past slot pointId
      | .request slot' input _ env =>
          if slot' = slot ∧ wordOf input = pointId ∧
              (headerOf input).opcode = rtdbdOpSubscribe ∧
              s.statusOf slot' input env = some rtdbdStOk then True
          else if slot' = slot ∧ wordOf input = pointId ∧
              (headerOf input).opcode = rtdbdOpUnsubscribe then False
          else subscribedIn past slot pointId
      | .flush _ _ _ => subscribedIn past slot pointId

/-- The connections agree with what the run says, and the free places are those of
`conn_init`. -/
structure Tidy (past : List (EventLoop × LoopEvent)) (s : EventLoop) : Prop where
  free : ∀ j, (s.d.conns j).fd < 0 → s.d.conns j = connInit
  subs : ∀ j, Subscribed (s.d.conns j).subs
  since : ∀ j pointId, pointId ∈ (s.d.conns j).subs → subscribedIn past j pointId

namespace Tidy

variable {past : List (EventLoop × LoopEvent)} {s : EventLoop}

/-- `conn_table_check` finds nothing. -/
theorem checked (h : Tidy past s) : connTableCheck s.d.conns rtdbdMaxClients = true := by
  refine List.all_eq_true.mpr fun i _ => ?_
  have hle := (h.subs i).length_le
  by_cases hfree : (s.d.conns i).fd < 0
  · rw [h.free i hfree]
    rfl
  · simp [hle, hfree]

/-- An event is the past of its own connection only. -/
theorem subscribedIn_of_ne {e : LoopEvent} {j pointId : Nat} (hne : j ≠ e.slot)
    (h : subscribedIn past j pointId) : subscribedIn ((s, e) :: past) j pointId := by
  cases e with
  | accept slot fd => exact ⟨Ne.symm hne, h⟩
  | request slot input room env =>
      rw [subscribedIn, if_neg fun hsub => hne hsub.1.symm, if_neg fun hun => hne hun.1.symm]
      exact h
  | flush slot results now => exact h

/-- An event leaves the table tidy when it leaves its own connection so. -/
theorem of_own (h : Tidy past s) {e : LoopEvent}
    (hfree : ((s.after e).d.conns e.slot).fd < 0 → (s.after e).d.conns e.slot = connInit)
    (hsubs : Subscribed ((s.after e).d.conns e.slot).subs)
    (hsince : ∀ pointId, pointId ∈ ((s.after e).d.conns e.slot).subs →
      subscribedIn ((s, e) :: past) e.slot pointId) : Tidy ((s, e) :: past) (s.after e) := by
  constructor
  · intro j hj
    rcases Decidable.em (j = e.slot) with rfl | hne
    · exact hfree hj
    · rw [(s.after_conn_of_ne hne).fd] at hj
      rw [(EventLoop.after_told hne).free hj]
      exact h.free j hj
  · intro j
    rcases Decidable.em (j = e.slot) with rfl | hne
    · exact hsubs
    · rw [(EventLoop.after_told hne).subs]
      exact h.subs j
  · intro j pointId hmem
    rcases Decidable.em (j = e.slot) with rfl | hne
    · exact hsince pointId hmem
    · rw [(EventLoop.after_told hne).subs] at hmem
      exact subscribedIn_of_ne hne (h.since j pointId hmem)

/-- A connection that is accepted has no past. -/
theorem accept (h : Tidy past s) {slot : Nat} {fd : Int} (hfd : 0 ≤ fd) :
    Tidy ((s, .accept slot fd) :: past) (s.after (.accept slot fd)) := by
  have hself : (s.after (.accept slot fd)).d.conns (LoopEvent.accept slot fd).slot = _ :=
    s.after_accept_conn slot fd
  refine h.of_own ?_ ?_ ?_
  · rw [hself]
    exact fun hfree => absurd hfree (Int.not_lt.mpr hfd)
  · rw [hself]
    exact subscribed_nil
  · rw [hself]
    exact fun pointId hmem => absurd hmem List.not_mem_nil

/-- A flush changes no subscription, or closes the connection. -/
theorem flush (h : Tidy past s) {slot : Nat} (results : List SendResult) (now : Nat)
    (hlive : s.Live slot) :
    Tidy ((s, .flush slot results now) :: past) (s.after (.flush slot results now)) := by
  have hself : (s.after (.flush slot results now)).d.conns
      (LoopEvent.flush slot results now).slot = _ := (s.after_flush slot results now).2
  refine h.of_own ?_ ?_ ?_
  · rw [hself]
    split
    · exact fun hfree => absurd hfree (Int.not_lt.mpr hlive.2)
    · exact fun _ => rfl
  · rw [hself]
    split
    · exact h.subs slot
    · exact subscribed_nil
  · rw [hself]
    split
    · exact fun pointId hmem => h.since slot pointId hmem
    · exact fun pointId hmem => absurd hmem List.not_mem_nil

/-- A request that keeps its connection. -/
theorem kept (h : Tidy past s) {slot : Nat} {input : List UInt8} {room : Option Nat} {env : Env}
    (hkeep : (s.handled slot input room env).fate = .keep) :
    Subscribed ((s.handled slot input room env).d.conns slot).subs ∧
      ∀ pointId, pointId ∈ ((s.handled slot input room env).d.conns slot).subs →
        subscribedIn ((s, .request slot input room env) :: past) slot pointId := by
  have hown : ((s.handled slot input room env).d.conns slot).subs = _ := handleRequest_own hkeep
  rw [hown]
  split
  case isTrue hsub =>
    refine ⟨(h.subs slot).addSub _, fun pointId hmem => ?_⟩
    rw [subscribedIn]
    split
    case isTrue => trivial
    case isFalse hnew =>
      rw [if_neg fun hun => by cases hsub.symm.trans hun.2.2]
      refine h.since slot pointId ?_
      rw [RtdbdConn.addSub_subs] at hmem
      split at hmem
      case isFalse => exact hmem
      case isTrue hadds =>
        rcases List.mem_append.mp hmem with hold | hadded
        · exact hold
        · obtain rfl := List.mem_singleton.mp hadded
          have hok : ((s.d.conns slot).addSub (wordOf input)).1 = true := by
            rw [RtdbdConn.addSub_ok_iff, RtdbdConn.addSub_subs, if_pos hadds]
            exact hmem
          exact absurd ⟨rfl, rfl, hsub, statusOf_subscribe hkeep hsub hok⟩ hnew
  case isFalse hnotsub =>
    split
    case isTrue hunsub =>
      refine ⟨(h.subs slot).delSub _, fun pointId hmem => ?_⟩
      obtain ⟨hne, hold⟩ := (h.subs slot).mem_delSub.mp hmem
      rw [subscribedIn, if_neg fun hsub => hnotsub hsub.2.2.1, if_neg fun hun => hne hun.2.1.symm]
      exact h.since slot pointId hold
    case isFalse hnotunsub =>
      refine ⟨h.subs slot, fun pointId hmem => ?_⟩
      rw [subscribedIn, if_neg fun hsub => hnotsub hsub.2.2.1,
        if_neg fun hun => hnotunsub hun.2.2]
      exact h.since slot pointId hmem

/-- The connections behind a request. -/
theorem request (h : Tidy past s) {slot : Nat} (input : List UInt8) (room : Option Nat) (env : Env)
    (hlive : s.Live slot) :
    Tidy ((s, .request slot input room env) :: past)
      (s.after (.request slot input room env)) := by
  by_cases hkeep : (s.handled slot input room env).fate = .keep
  · have hafter := EventLoop.after_request_keep hkeep
    have hfd : ((s.handled slot input room env).d.conns slot).fd = (s.d.conns slot).fd :=
      (handleRequest_conns s.d slot _ env slot).fd
    refine h.of_own (fun hfree => ?_) ?_ ?_
    · rw [hafter] at hfree
      exact absurd (Int.lt_of_le_of_lt (Int.le_of_eq hfd.symm) hfree) (Int.not_lt.mpr hlive.2)
    · rw [hafter]
      exact (h.kept hkeep).1
    · rw [hafter]
      exact (h.kept hkeep).2
  · have hself : (s.after (.request slot input room env)).d.conns
        (LoopEvent.request slot input room env).slot = connInit :=
      EventLoop.after_request_close hkeep
    refine h.of_own (fun _ => hself) ?_ ?_
    · rw [hself]
      exact subscribed_nil
    · rw [hself]
      exact fun pointId hmem => absurd hmem List.not_mem_nil

theorem after (h : Tidy past s) {e : LoopEvent} (hcan : s.Enabled e) :
    Tidy ((s, e) :: past) (s.after e) := by
  cases e with
  | accept slot fd => exact h.accept hcan.2.2.2
  | request slot input room env => exact h.request input room env hcan
  | flush slot results now => exact h.flush results now hcan.1

end Tidy

/-- The table is tidy at the end of every run from the start of the loop. -/
theorem tidy {d : Rtdbd} {past : List (EventLoop × LoopEvent)} {s : EventLoop}
    (hfree : ∀ j, d.conns j = connInit) (hrun : EventLoop.Runs (.start d) past s) :
    Tidy past s := by
  have hconns : ∀ j, (EventLoop.start d).d.conns j = connInit := hfree
  refine hrun.invariant ⟨fun j _ => hconns j, fun j => ?_, fun j pointId hmem => ?_⟩
    fun _ _ _ h hcan => h.after hcan
  · rw [hconns j]
    exact subscribed_nil
  · rw [hconns j] at hmem
    cases hmem

/-! ## The queues -/

/-- What becomes of the queue of a connection: entries leave at its head, and behind
those that are left a notification is added at most for a point the connection is
subscribed to. -/
inductive Queued (subscribed : Nat → Prop) (before after : List RtdbdNotify) : Prop where
  | left (suffix : after <:+ before)
  | enqueued {kept : List RtdbdNotify} (suffix : kept <:+ before) (nt : RtdbdNotify)
      (since : subscribed nt.pointId) (last : after = lastOf rtdbdOutqCap (kept ++ [nt]))

/-- Entries may have left before. -/
theorem Queued.of_suffix {subscribed : Nat → Prop} {before mid after : List RtdbdNotify}
    (hmid : mid <:+ before) (h : Queued subscribed mid after) : Queued subscribed before after := by
  cases h with
  | left hsuffix => exact .left (hsuffix.trans hmid)
  | enqueued hsuffix nt hsince hlast => exact .enqueued (hsuffix.trans hmid) nt hsince hlast

/-- A push adds the notification, or drops it. -/
theorem queued_outqPush {subscribed : Nat → Prop} {q : Outq} {st : RtdbdStats} {nt : RtdbdNotify}
    {now : Nat} (hsince : subscribed nt.pointId) :
    Queued subscribed q.toList (outqPush q st nt now).1.toList := by
  rw [toList_outqPush]
  split
  · exact .left List.suffix_rfl
  · exact .enqueued List.suffix_rfl nt hsince rfl

/-- A flush only takes entries away. -/
theorem after_flush_suffix (s : EventLoop) (slot : Nat) (results : List SendResult)
    (now j : Nat) :
    ((s.after (.flush slot results now)).d.conns j).outq.toList <:+
      (s.d.conns j).outq.toList := by
  rcases Decidable.em (j = slot) with rfl | hne
  · rw [(s.after_flush j results now).2]
    split
    · obtain ⟨sent, hlist, -⟩ := outqFlushLoop_frames results (s.d.conns j).outq
      exact ⟨sent, hlist.symm⟩
    · exact List.nil_suffix
  · have hother : (s.after (.flush slot results now)).d.conns j = s.d.conns j :=
      Function.update_of_ne hne _ s.d.conns
    rw [hother]

/-- Every event of a run treats the queues so. -/
theorem Tidy.queued {past : List (EventLoop × LoopEvent)} {s : EventLoop} (h : Tidy past s)
    (e : LoopEvent) (j : Nat) :
    Queued (subscribedIn past j) (s.d.conns j).outq.toList
      ((s.after e).d.conns j).outq.toList := by
  cases e with
  | accept slot fd =>
      rcases Decidable.em (j = slot) with rfl | hne
      · rw [s.after_accept_conn]
        exact .left List.nil_suffix
      · have hother : (s.after (.accept slot fd)).d.conns j = s.d.conns j :=
          Function.update_of_ne hne _ s.d.conns
        rw [hother]
        exact .left List.suffix_rfl
  | flush slot results now => exact .left (after_flush_suffix s slot results now j)
  | request slot input room env =>
      have hqueued : Queued (subscribedIn past j) (s.d.conns j).outq.toList
          ((s.handled slot input room env).d.conns j).outq.toList := by
        rcases handleRequest_outq s.d slot ⟨input, room, s.wire slot⟩ env j with
          hsame | ⟨st, nt, now, hmem, hpushed⟩
        · rw [EventLoop.handled, hsame]
          exact .left List.suffix_rfl
        · rw [EventLoop.handled, hpushed]
          exact queued_outqPush (h.since j nt.pointId hmem)
      by_cases hkeep : (s.handled slot input room env).fate = .keep
      · rw [EventLoop.after_request_keep hkeep]
        exact hqueued
      · rcases Decidable.em (j = slot) with rfl | hne
        · rw [EventLoop.after_request_close hkeep]
          exact .left List.nil_suffix
        · rw [EventLoop.after_request_other hne]
          exact hqueued

end InduRtdb.Daemon
