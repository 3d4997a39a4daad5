/-
  Daemon/Authority.lean --- who may change what, and the account of what was changed.

  Source: `op_write`, `op_set_meta`, `op_create_point`, `op_delete_point`,
  `op_rename_point`, `op_select` and `op_audit_dump` of `rtdbd/src/rtdbd.c`,
  `rtdbd/src/policy.c` and `rtdbd/src/audit.c`.

  The partition of a change comes from its payload or from the connection, where the
  last `SELECT` has left it.  Who asked for what, and how it was answered, is read off
  the run; the ring of the daemon is compared with that.
-/
import InduRtdb.Daemon.Loop

set_option autoImplicit false

namespace InduRtdb.Daemon

open InduRtdb.Core InduRtdb.Api InduRtdb.Lib

/-! ## What a request is about -/

/-- The partition a change is about: that of its payload, or the one selected. -/
def changePartition (opcode : Nat) (payload : List UInt8) (selected : UInt32) : UInt32 :=
  if opcode = rtdbdOpCreatePoint then (RtdbdCreateReq.ofBytes payload).partition
  else if opcode = rtdbdOpDeletePoint then (RtdbdDeleteReq.ofBytes payload).partition
  else if opcode = rtdbdOpRenamePoint then (RtdbdRenameReq.ofBytes payload).partition
  else selected

/-- The point a change is about. -/
def changePoint (opcode : Nat) (payload : List UInt8) : Nat :=
  if opcode = rtdbdOpCreatePoint then (RtdbdCreateReq.ofBytes payload).pointId
  else if opcode = rtdbdOpDeletePoint then (RtdbdDeleteReq.ofBytes payload).pointId
  else if opcode = rtdbdOpRenamePoint then (RtdbdRenameReq.ofBytes payload).pointId
  else if opcode = rtdbdOpSetMeta then (RtdbdSetMetaReq.ofBytes payload).pointId
  else (RtdbdWriteReq.ofBytes payload).pointId

theorem managed_about {opcode : Nat} {op : Managed} (hop : managedOf opcode = some op)
    (c : RtdbdConn) (payload : List UInt8) :
    op.partition c payload = changePartition opcode payload c.partition ∧
      op.pointId payload = changePoint opcode payload := by
  unfold managedOf at hop
  split at hop
  next hcode =>
    obtain rfl := Option.some.inj hop
    subst hcode
    exact ⟨rfl, rfl⟩
  · split at hop
    next hcode =>
      obtain rfl := Option.some.inj hop
      subst hcode
      exact ⟨rfl, rfl⟩
    · split at hop
      next hcode =>
        obtain rfl := Option.some.inj hop
        subst hcode
        exact ⟨rfl, rfl⟩
      · split at hop
        next hcode =>
          obtain rfl := Option.some.inj hop
          subst hcode
          exact ⟨rfl, rfl⟩
        · cases hop

namespace RtdbdCtx

/-- The peer may make the change it asks for. -/
def Authorised (cx : RtdbdCtx) (pid uid : Nat) : Prop :=
  cx.Permitted pid uid (changePartition cx.req.opcode cx.payload cx.conn.partition)
    (changePoint cx.req.opcode cx.payload)

/-- A change is carried out. -/
def Changes (cx : RtdbdCtx) : Prop := Changing cx.req.opcode ∧ cx.Carried

end RtdbdCtx

/-! ## What a request changes -/

theorem offer_partition (nt : RtdbdNotify) (m : IndurtdbMeta) (now : Nat) (c : RtdbdConn)
    (st : RtdbdStats) : (offer nt m now c st).1.partition = c.partition := by
  unfold offer
  split
  · rfl
  · split
    · rfl
    · split
      · rfl
      · rfl

/-- A broadcast leaves the selected partitions alone. -/
theorem notifyBroadcast_partition (d : Rtdbd) (w : RtdbdWriteReq) (m : IndurtdbMeta)
    (now j : Nat) :
    ((notifyBroadcast d w m now).conns j).partition = (d.conns j).partition := by
  have hconn : (notifyBroadcast d w m now).conns j = _ :=
    offerLoop_conns (notifyOf d.h w) m now d.stats rtdbdMaxClients 0 d.conns d.stats j
  rw [hconn]
  split
  · exact offer_partition _ _ _ _ _
  · rfl

/-- Two daemons agree on what is authorised and recorded. -/
structure SameAccount (d d' : Rtdbd) : Prop where
  h : d'.h = d.h
  audit : d'.audit = d.audit
  partition : ∀ j, (d'.conns j).partition = (d.conns j).partition

theorem SameAccount.refl (d : Rtdbd) : SameAccount d d := ⟨rfl, rfl, fun _ => rfl⟩

/-- What is announced is not part of the account. -/
theorem Decided.sent {cx : RtdbdCtx} {reply : Reply} (decided : Decided cx reply) :
    SameAccount reply.d (reply.send cx).2.d := by
  obtain ⟨k, room, -, -, hd⟩ := reply.send_eq cx
  rw [hd]
  split
  next =>
    cases decided with
    | wrote => exact ⟨rfl, rfl, notifyBroadcast_partition _ _ _ _⟩
    | _ => exact .refl _
  next => exact .refl _

theorem audit_logged (cx : RtdbdCtx) (text : Option (List UInt8)) :
    (cx.logged text).d.audit = cx.d.audit := by
  cases text with
  | none => rfl
  | some text => rfl

section

variable {cx : RtdbdCtx} {reply : Reply} {pid uid : Nat}

theorem RtdbdCtx.Permitted.of_write
    (h : cx.Permitted pid uid cx.conn.partition cx.writeReq.pointId)
    (hop : cx.req.opcode = rtdbdOpWrite) : cx.Authorised pid uid := by
  rw [RtdbdCtx.Authorised, hop]
  exact h

theorem RtdbdCtx.Permitted.of_managed {op : Managed}
    (h : cx.Permitted pid uid (op.partition cx.conn cx.payload) (op.pointId cx.payload))
    (hop : managedOf cx.req.opcode = some op) : cx.Authorised pid uid := by
  obtain ⟨hpartition, hpoint⟩ := managed_about hop cx.conn cx.payload
  rw [RtdbdCtx.Authorised, ← hpartition, ← hpoint]
  exact h

theorem changing_of_managed {opcode : Nat} {op : Managed} (hop : managedOf opcode = some op) :
    Changing opcode := .inr (hop ▸ rfl)

/-- The instance changes only for an authorised peer that asks for a change. -/
theorem Decided.h_kept (decided : Decided cx reply) :
    reply.d.h = cx.d.h ∨ Changing cx.req.opcode ∧ ∃ pid uid, cx.Authorised pid uid := by
  cases decided with
  | wrote _ _ opcode permitted => exact .inr ⟨.inl opcode, _, _, permitted.of_write opcode⟩
  | writeFailed _ opcode permitted => exact .inr ⟨.inl opcode, _, _, permitted.of_write opcode⟩
  | changed _ op _ opcode permitted =>
      exact .inr ⟨changing_of_managed opcode, _, _, permitted.of_managed opcode⟩
  | changeFailed _ op opcode permitted =>
      exact .inr ⟨changing_of_managed opcode, _, _, permitted.of_managed opcode⟩
  | _ => exact .inl rfl

theorem changeSize_ignored {opcode : Nat} (hop : LengthIgnored opcode) :
    changeSize opcode = none := by
  rcases hop with rfl | rfl
  · rfl
  · rfl

theorem changeSize_subscribed {opcode : Nat}
    (hop : opcode = rtdbdOpSubscribe ∨ opcode = rtdbdOpUnsubscribe) : changeSize opcode = none := by
  rcases hop with rfl | rfl
  · rfl
  · rfl

theorem Changing.size {opcode : Nat} (hop : Changing opcode) : changeSize opcode ≠ none := by
  rcases hop with rfl | hmanaged
  · exact Option.some_ne_none _
  · obtain ⟨op, hop⟩ := Option.isSome_iff_exists.mp hmanaged
    rw [RtdbdCtx.Carried.changeSize_managed hop]
    exact Option.some_ne_none _

/-- A change is carried out exactly when it is answered with success. -/
theorem Decided.ok_iff (decided : Decided cx reply) (hop : changeSize cx.req.opcode ≠ none) :
    reply.status < 2 ^ 16 ∧ (reply.status = rtdbdStOk ↔ cx.Carried) := by
  have hfailing : ∀ status, Failing status → ¬ cx.Carried →
      status < 2 ^ 16 ∧ (status = rtdbdStOk ↔ cx.Carried) := by
    intro status hfails hundone
    refine ⟨?_, iff_of_false hfails.ne_ok hundone⟩
    rcases hfails with rfl | rfl | rfl | rfl <;> decide
  have hdone : cx.Carried → rtdbdStOk < 2 ^ 16 ∧ (rtdbdStOk = rtdbdStOk ↔ cx.Carried) :=
    fun hcarried => ⟨by decide, iff_of_true rfl hcarried⟩
  cases decided with
  | refused _ _ _ _ failure undone => exact hfailing _ failure undone
  | answered _ _ _ _ _ _ _ failure undone => exact hfailing _ (failure hop) undone
  | ignoring opcode => exact absurd (changeSize_ignored opcode) hop
  | subscribed _ opcode => exact absurd (changeSize_subscribed opcode) hop
  | selected arrived size opcode conf => exact hdone (.selected arrived size opcode conf)
  | wrote arrived size opcode permitted m h stores =>
      exact hdone (.wrote arrived size opcode permitted m h stores)
  | changed arrived op size opcode permitted h changes =>
      exact hdone (.changed arrived op size opcode permitted h changes)
  | writeFailed _ opcode _ _ _ _ _ failure fails =>
      refine hfailing _ failure fun hcarried => ?_
      obtain ⟨pid, uid, -, m, h, hstores⟩ := hcarried.of_write opcode
      exact fails m (congrArg Prod.fst hstores)
  | changeFailed _ op opcode _ rc h changes fails failure =>
      refine hfailing _ failure fun hcarried => ?_
      obtain ⟨pid, uid, -, h', hok⟩ := hcarried.of_managed opcode
      exact fails (congrArg Prod.fst (changes.symm.trans hok))

/-- What is recorded is a change that is carried out for its peer. -/
theorem Decided.audit_kept (decided : Decided cx reply) :
    reply.d.audit = cx.d.audit ∧ ¬ cx.Changes ∨
      cx.Changes ∧ ∃ pid uid, cx.Authorised pid uid ∧ reply.d.audit =
        irtAuditRecord cx.d.audit pid uid
          (changePartition cx.req.opcode cx.payload cx.conn.partition)
          (changePoint cx.req.opcode cx.payload) cx.env.now := by
  have hfailed : reply.status ≠ rtdbdStOk → ¬ cx.Changes := fun hstatus hchanges =>
    hstatus ((decided.ok_iff hchanges.1.size).2.mpr hchanges.2)
  cases decided with
  | refused _ _ _ _ failure => exact .inl ⟨rfl, hfailed failure.ne_ok⟩
  | answered _ _ _ _ _ _ _ _ undone => exact .inl ⟨rfl, fun h => undone h.2⟩
  | ignoring opcode =>
      exact .inl ⟨rfl, fun h => h.1.size (changeSize_ignored opcode)⟩
  | subscribed _ opcode =>
      exact .inl ⟨rfl, fun h => h.1.size (changeSize_subscribed opcode)⟩
  | selected _ _ opcode =>
      refine .inl ⟨rfl, fun h => ?_⟩
      have hchanging := h.1
      rw [opcode] at hchanging
      exact absurd hchanging (by decide)
  | writeFailed _ _ _ _ _ _ _ failure => exact .inl ⟨rfl, hfailed failure.ne_ok⟩
  | changeFailed _ _ _ _ _ _ _ _ failure => exact .inl ⟨rfl, hfailed failure.ne_ok⟩
  | wrote arrived size opcode permitted m h stores =>
      refine .inr ⟨⟨.inl opcode, .wrote arrived size opcode permitted m h stores⟩, _, _,
        permitted.of_write opcode, ?_⟩
      rw [opcode]
      rfl
  | changed arrived op size opcode permitted h changes =>
      obtain ⟨hpartition, hpoint⟩ := managed_about opcode cx.conn cx.payload
      refine .inr ⟨⟨changing_of_managed opcode,
        .changed arrived op size opcode permitted h changes⟩, _, _,
        permitted.of_managed opcode, ?_⟩
      rw [audit_logged, ← hpartition, ← hpoint]
      rfl

/-- The request selects a partition. -/
def RtdbdCtx.Selects (cx : RtdbdCtx) : Prop := cx.req.opcode = rtdbdOpSelect ∧ cx.Carried

/-- The selected partition changes by a `SELECT` of the connection that is carried out. -/
theorem Decided.partition_kept (decided : Decided cx reply) :
    (∀ j, j ≠ cx.slot → (reply.d.conns j).partition = (cx.d.conns j).partition) ∧
      ((reply.d.conns cx.slot).partition = cx.conn.partition ∧ ¬ cx.Selects ∨
        cx.Selects ∧ (reply.d.conns cx.slot).partition = cx.selectReq) := by
  have hother : ∀ c j, j ≠ cx.slot →
      ((cx.setConn c).d.conns j).partition = (cx.d.conns j).partition := by
    intro c j hne
    rw [setConn_conns, Function.update_of_ne hne]
  have hsize : cx.req.opcode = rtdbdOpSelect → changeSize cx.req.opcode ≠ none := by
    intro hop
    rw [hop]
    exact Option.some_ne_none _
  have hfailed : reply.status ≠ rtdbdStOk → ¬ cx.Selects := fun hstatus hselects =>
    hstatus ((decided.ok_iff (hsize hselects.1)).2.mpr hselects.2)
  cases decided with
  | refused _ _ _ _ failure => exact ⟨fun _ _ => rfl, .inl ⟨rfl, hfailed failure.ne_ok⟩⟩
  | answered _ _ _ _ _ _ _ _ undone => exact ⟨fun _ _ => rfl, .inl ⟨rfl, fun h => undone h.2⟩⟩
  | ignoring opcode =>
      exact ⟨fun _ _ => rfl, .inl ⟨rfl, fun h => hsize h.1 (changeSize_ignored opcode)⟩⟩
  | subscribed _ opcode =>
      refine ⟨hother _, .inl ⟨?_, fun h => hsize h.1 (changeSize_subscribed opcode)⟩⟩
      rw [setConn_conns, Function.update_self]
  | selected arrived size opcode conf =>
      refine ⟨hother _, .inr ⟨⟨opcode, .selected arrived size opcode conf⟩, ?_⟩⟩
      rw [setConn_conns, Function.update_self]
  | wrote _ _ opcode => exact ⟨fun _ _ => rfl, .inl ⟨rfl, fun h => by cases opcode.symm.trans h.1⟩⟩
  | writeFailed _ _ _ _ _ _ _ failure => exact ⟨fun _ _ => rfl, .inl ⟨rfl, hfailed failure.ne_ok⟩⟩
  | changeFailed _ _ _ _ _ _ _ _ failure =>
      exact ⟨fun _ _ => rfl, .inl ⟨rfl, hfailed failure.ne_ok⟩⟩
  | changed _ op _ opcode =>
      refine ⟨fun j _ => by rw [conns_logged]; rfl, .inl ⟨by rw [conns_logged]; rfl, fun h => ?_⟩⟩
      rw [h.1] at opcode
      cases opcode

end

/-! ## Answers -/

/-- Where `send` takes everything, all of the response is sent. -/
theorem Reply.send_unbounded (reply : Reply) (cx : RtdbdCtx) (hroom : cx.sock.room = none) :
    (reply.send cx).2.sock.output =
      cx.sock.output ++ frameBytes reply.status reply.payload := by
  have hrespond : (RtdbdCtx.respond
      { cx with d := reply.d, sock := { cx.sock with input := reply.input } } reply.status
      reply.payload).2.sock.output = cx.sock.output ++ frameBytes reply.status reply.payload := by
    simp [RtdbdCtx.respond, Socket.sendAll, hroom, frameBytes]
  unfold Reply.send
  dsimp only
  split
  next => exact hrespond
  next =>
    split
    next cx' heq =>
      rw [heq] at hrespond
      exact hrespond
    next cx' heq =>
      rw [heq] at hrespond
      exact hrespond

/-- The status is read back from the response. -/
theorem fieldAt_status {status : Nat} (hstatus : status < 2 ^ 16) (payload : List UInt8) :
    fieldAt (frameBytes status payload) 6 2 = status := by
  have hfield : ((frameBytes status payload).drop 6).take 2 = le16 status := rfl
  rw [fieldAt, hfield, ofLe_le16 hstatus]

namespace EventLoop

/-- The status a request is answered with, if it is, where `send` takes all of the
answer. -/
def statusOf (s : EventLoop) (slot : Nat) (input : List UInt8) (env : Env) : Option Nat :=
  let sent := (handleRequest s.d slot ⟨input, none, []⟩ env).sock.output
  if sent = [] then none else some (fieldAt sent 6 2)

/-- The bytes behind the header that belong to a request. -/
def payloadOf (input : List UInt8) : List UInt8 :=
  (input.drop sizeofHdr).take (headerOf input).payloadLen

/-- What a handler is entered with in a step of the loop. -/
def ctx (s : EventLoop) (slot : Nat) (input : List UInt8) (room : Option Nat) (env : Env) :
    RtdbdCtx :=
  .ofRequest s.d slot ⟨input, room, s.wire slot⟩ env

/-- How much can be sent has no part in whether a change is carried out. -/
theorem carried_unbounded {d : Rtdbd} {slot : Nat} {sock sock' : Socket} {env : Env}
    (hinput : sock'.input = sock.input) (h : (RtdbdCtx.ofRequest d slot sock env).Carried) :
    (RtdbdCtx.ofRequest d slot sock' env).Carried := by
  obtain ⟨input, room, output⟩ := sock
  obtain ⟨_, room', output'⟩ := sock'
  subst hinput
  cases h with
  | wrote arrived size opcode permitted m h stores =>
      exact .wrote arrived size opcode ⟨permitted.peer, permitted.policy, permitted.conf⟩ m h stores
  | changed arrived op size opcode permitted h changes =>
      exact .changed arrived op size opcode ⟨permitted.peer, permitted.policy, permitted.conf⟩ h
        changes
  | selected arrived size opcode conf => exact .selected arrived size opcode conf

/-- A change or a `SELECT` is answered with success when it is carried out. -/
theorem statusOf_ok_iff (s : EventLoop) (slot : Nat) {input : List UInt8} (room : Option Nat)
    (env : Env) (hop : changeSize (headerOf input).opcode ≠ none) :
    s.statusOf slot input env = some rtdbdStOk ↔
      HeaderArrives input ∧ (s.ctx slot input room env).Carried := by
  rcases Decidable.em (HeaderArrives input) with harrives | hnot
  · obtain ⟨reply, decided, hhandled⟩ :=
      @handleRequest_of_header s.d slot ⟨input, none, []⟩ env harrives
    obtain ⟨hlt, hok⟩ := decided.ok_iff hop
    have hsent := reply.send_unbounded (.ofRequest s.d slot ⟨input, none, []⟩ env) rfl
    have hcarried : (RtdbdCtx.ofRequest s.d slot ⟨input, none, []⟩ env).Carried ↔
        (s.ctx slot input room env).Carried :=
      ⟨carried_unbounded rfl, carried_unbounded rfl⟩
    have hne : frameBytes reply.status reply.payload ≠ [] := by
      intro hnil
      have hlen := congrArg List.length hnil
      rw [length_frameBytes, List.length_nil] at hlen
      omega
    simp only [statusOf, hhandled, hsent]
    rw [show (RtdbdCtx.ofRequest s.d slot ⟨input, none, []⟩ env).sock.output = [] from rfl,
      List.nil_append, if_neg hne, fieldAt_status hlt, Option.some_inj, hok, hcarried]
    exact ⟨fun h => ⟨harrives, h⟩, fun h => h.2⟩
  · obtain ⟨st, input', -, hhandled⟩ :=
      @handleRequest_of_not_header s.d slot ⟨input, none, []⟩ env hnot
    simp only [statusOf, hhandled, if_pos]
    exact iff_of_false (fun h => by cases h) fun h => hnot h.1

end EventLoop

/-! ## What the run says -/

/-- The partition selected on the connection in a place: that of its last `SELECT` that
was answered with success, or zero. -/
def selectedIn : List (EventLoop × LoopEvent) → Nat → UInt32
  | [], _ => 0
  | (s, e) :: past, slot =>
      match e with
      | .accept slot' _ => if slot' = slot then 0 else selectedIn past slot
      | .request slot' input _ env =>
          if slot' = slot ∧ (headerOf input).opcode = rtdbdOpSelect ∧
              s.statusOf slot' input env = some rtdbdStOk then
            UInt32.ofNat (fieldAt (EventLoop.payloadOf input) 0 4)
          else selectedIn past slot
      | .flush _ _ _ => selectedIn past slot

/-- The partition a request on the connection in a place is about. -/
def partitionOf (past : List (EventLoop × LoopEvent)) (slot : Nat) (input : List UInt8) : UInt32 :=
  changePartition (headerOf input).opcode (EventLoop.payloadOf input) (selectedIn past slot)

/-- The point a request is about. -/
def pointOf (input : List UInt8) : Nat :=
  changePoint (headerOf input).opcode (EventLoop.payloadOf input)

/-- The record of an event: a request for a change that was answered with success. -/
def recordOf (past : List (EventLoop × LoopEvent)) (s : EventLoop) :
    LoopEvent → Option RtdbdAuditEntry
  | .request slot input _ env =>
      match env.peer with
      | none => none
      | some (pid, uid) =>
          if Changing (headerOf input).opcode ∧ s.statusOf slot input env = some rtdbdStOk then
            some
              { pid := pid
                uid := uid
                pointId := pointOf input
                partition := partitionOf past slot input
                tsNs := env.now }
          else none
  | .accept _ _ => none
  | .flush _ _ _ => none

/-- The changes a run has carried out, oldest first. -/
def carriedOut : List (EventLoop × LoopEvent) → List RtdbdAuditEntry
  | [] => []
  | (s, e) :: past => carriedOut past ++ (recordOf past s e).toList

/-! ## The account of the daemon -/

/-- The daemon's account agrees with what the run says. -/
structure Accounted (past : List (EventLoop × LoopEvent)) (s : EventLoop) : Prop where
  selected : ∀ slot, 0 ≤ (s.d.conns slot).fd →
    (s.d.conns slot).partition = selectedIn past slot
  audit : irtAuditDump s.d.audit rtdbdAuditCapacity = lastOf rtdbdAuditCapacity (carriedOut past)

/-- What a request leaves of the account. -/
theorem after_request_account (s : EventLoop) (slot : Nat) (input : List UInt8)
    (room : Option Nat) (env : Env) :
    (s.after (.request slot input room env)).d.h = (s.handled slot input room env).d.h ∧
      (s.after (.request slot input room env)).d.audit =
        (s.handled slot input room env).d.audit ∧
      ∀ j, 0 ≤ ((s.after (.request slot input room env)).d.conns j).fd →
        ((s.after (.request slot input room env)).d.conns j).partition =
          ((s.handled slot input room env).d.conns j).partition := by
  unfold EventLoop.after
  dsimp only
  split
  · exact ⟨rfl, rfl, fun _ _ => rfl⟩
  · refine ⟨rfl, rfl, fun j hfd => ?_⟩
    simp only [closeConn] at hfd ⊢
    rcases Decidable.em (j = slot) with rfl | hne
    · rw [Function.update_self] at hfd
      exact absurd hfd connInit_closed
    · rw [Function.update_of_ne hne]

/-- The account of one request. -/
structure RequestAccount (s : EventLoop) (slot : Nat) (input : List UInt8) (room : Option Nat)
    (env : Env) : Prop where
  h : (s.handled slot input room env).d.h = s.d.h ∨
    Changing (headerOf input).opcode ∧ ∃ pid uid, (s.ctx slot input room env).Authorised pid uid
  audit :
    (s.handled slot input room env).d.audit = s.d.audit ∧
        ¬ (HeaderArrives input ∧ (s.ctx slot input room env).Changes) ∨
      (HeaderArrives input ∧ (s.ctx slot input room env).Changes) ∧
        ∃ pid uid, (s.ctx slot input room env).Authorised pid uid ∧
          (s.handled slot input room env).d.audit =
            irtAuditRecord s.d.audit pid uid
              (changePartition (headerOf input).opcode (EventLoop.payloadOf input)
                (s.d.conns slot).partition)
              (pointOf input) env.now
  others : ∀ j, j ≠ slot →
    ((s.handled slot input room env).d.conns j).partition = (s.d.conns j).partition
  partition :
    ((s.handled slot input room env).d.conns slot).partition = (s.d.conns slot).partition ∧
        ¬ (HeaderArrives input ∧ (s.ctx slot input room env).Selects) ∨
      (HeaderArrives input ∧ (s.ctx slot input room env).Selects) ∧
        ((s.handled slot input room env).d.conns slot).partition =
          UInt32.ofNat (fieldAt (EventLoop.payloadOf input) 0 4)

theorem requestAccount (s : EventLoop) (slot : Nat) (input : List UInt8) (room : Option Nat)
    (env : Env) : RequestAccount s slot input room env := by
  rcases Decidable.em (HeaderArrives input) with harrives | hnot
  · obtain ⟨reply, decided, hhandled⟩ :=
      @handleRequest_of_header s.d slot ⟨input, room, s.wire slot⟩ env harrives
    have hd : (s.handled slot input room env).d = _ := congrArg Handled.d hhandled
    have hsent := decided.sent
    obtain ⟨hothers, hpartition⟩ := decided.partition_kept
    constructor
    · rw [hd, hsent.h]
      exact decided.h_kept
    · rw [hd, hsent.audit]
      simp only [harrives, true_and]
      exact decided.audit_kept
    · intro j hne
      rw [hd, hsent.partition]
      exact hothers j hne
    · rw [hd, hsent.partition]
      simp only [harrives, true_and]
      exact hpartition
  · obtain ⟨st, input', -, hhandled⟩ :=
      @handleRequest_of_not_header s.d slot ⟨input, room, s.wire slot⟩ env hnot
    have hd : (s.handled slot input room env).d = _ := congrArg Handled.d hhandled
    constructor
    · rw [hd]
      exact .inl rfl
    · rw [hd]
      exact .inl ⟨rfl, fun h => hnot h.1⟩
    · intro j _
      rw [hd]
    · rw [hd]
      exact .inl ⟨rfl, fun h => hnot h.1⟩

/-- The record of a request is that of a change that is carried out. -/
theorem recordOf_request (past : List (EventLoop × LoopEvent)) (s : EventLoop) (slot : Nat)
    (input : List UInt8) (room : Option Nat) (env : Env) :
    (HeaderArrives input ∧ (s.ctx slot input room env).Changes →
      ∀ pid uid, (s.ctx slot input room env).Authorised pid uid →
        recordOf past s (.request slot input room env) = some
          { pid := pid
            uid := uid
            pointId := pointOf input
            partition := partitionOf past slot input
            tsNs := env.now }) ∧
    (¬ (HeaderArrives input ∧ (s.ctx slot input room env).Changes) →
      recordOf past s (.request slot input room env) = none) := by
  constructor
  · intro hchanges pid uid hauthorised
    obtain ⟨harrives, hchanging, hcarried⟩ := hchanges
    have hpeer : env.peer = some (pid, uid) := hauthorised.peer
    have hchanging : Changing (headerOf input).opcode := hchanging
    have hok := (s.statusOf_ok_iff slot room env hchanging.size).mpr ⟨harrives, hcarried⟩
    simp only [recordOf, hpeer, hok, hchanging, and_self, if_true]
  · intro hnot
    simp only [recordOf]
    split
    next => rfl
    next =>
      refine if_neg fun h => hnot ?_
      obtain ⟨hchanging, hok⟩ := h
      obtain ⟨harrives, hcarried⟩ := (s.statusOf_ok_iff slot room env hchanging.size).mp hok
      exact ⟨harrives, hchanging, hcarried⟩

/-- Every step of the loop keeps the account. -/
theorem Accounted.after {past : List (EventLoop × LoopEvent)} {s : EventLoop} {e : LoopEvent}
    (h : Accounted past s) (hen : s.Enabled e) : Accounted ((s, e) :: past) (s.after e) := by
  cases e with
  | accept slot fd =>
      constructor
      · intro j hfd
        simp only [selectedIn]
        rcases Decidable.em (slot = j) with rfl | hne
        · rw [if_pos rfl, EventLoop.after_accept_conn]
          rfl
        · rw [if_neg hne]
          simp only [EventLoop.after, Function.update_of_ne (Ne.symm hne)] at hfd ⊢
          exact h.selected j hfd
      · rw [carriedOut, recordOf, Option.toList_none, List.append_nil]
        exact h.audit
  | flush slot results now =>
      constructor
      · intro j hfd
        simp only [selectedIn]
        rcases Decidable.em (j = slot) with rfl | hne
        · rw [(s.after_flush j results now).2] at hfd ⊢
          split at hfd
          next hsent =>
            rw [if_pos hsent]
            exact h.selected j hfd
          next => exact absurd hfd connInit_closed
        · simp only [EventLoop.after, Function.update_of_ne hne] at hfd ⊢
          exact h.selected j hfd
      · rw [carriedOut, recordOf, Option.toList_none, List.append_nil]
        exact h.audit
  | request slot input room env =>
      have haccount := requestAccount s slot input room env
      obtain ⟨-, haudit, hconns⟩ := after_request_account s slot input room env
      have hselect : (headerOf input).opcode = rtdbdOpSelect →
          changeSize (headerOf input).opcode ≠ none := by
        intro hop
        rw [hop]
        exact Option.some_ne_none _
      constructor
      · intro j hfd
        rw [hconns j hfd]
        simp only [selectedIn]
        rcases Decidable.em (slot = j) with rfl | hne
        · rcases haccount.partition with ⟨hsame, hnot⟩ | ⟨⟨harrives, hop, hcarried⟩, hpartition⟩
          · rw [hsame, if_neg, h.selected slot hen.2]
            intro hselects
            obtain ⟨-, hop, hok⟩ := hselects
            obtain ⟨harrives, hcarried⟩ := (s.statusOf_ok_iff slot room env (hselect hop)).mp hok
            exact hnot ⟨harrives, hop, hcarried⟩
          · have hok := (s.statusOf_ok_iff slot room env (hselect hop)).mpr ⟨harrives, hcarried⟩
            rw [hpartition, if_pos ⟨rfl, hop, hok⟩]
        · have hkept := s.after_conn_of_ne (e := .request slot input room env) (Ne.symm hne)
          rw [haccount.others j (Ne.symm hne), if_neg fun hselects => hne hselects.1]
          exact h.selected j (hkept.fd ▸ hfd)
      · rw [haudit, carriedOut]
        obtain ⟨hdone, hnone⟩ := recordOf_request past s slot input room env
        rcases haccount.audit with ⟨hsame, hnot⟩ | ⟨hchanges, pid, uid, hauthorised, hrecord⟩
        · rw [hsame, hnone hnot, Option.toList_none, List.append_nil]
          exact h.audit
        · rw [hrecord, irtAuditDump_record, hdone hchanges pid uid hauthorised, h.audit,
            lastOf_append_lastOf, Option.toList_some, partitionOf, h.selected slot hen.2]

/-- The account agrees at the end of every run from the start of the daemon. -/
theorem accounted {d : Rtdbd} {past : List (EventLoop × LoopEvent)} {s : EventLoop}
    (hclosed : ∀ slot, (d.conns slot).fd < 0) (hempty : d.audit = irtAuditInit)
    (hrun : EventLoop.Runs (.start d) past s) : Accounted past s := by
  refine hrun.invariant ⟨fun slot hfd => absurd hfd (Int.not_le.mpr (hclosed slot)), ?_⟩ ?_
  · rw [show (EventLoop.start d).d.audit = irtAuditInit from hempty, irtAuditDump_init]
    rfl
  · intro past s e h hen
    exact h.after hen

/-- The policy and the configuration allow the change. -/
def Rtdbd.MayChange (d : Rtdbd) (uid : Nat) (partition : UInt32) (pointId : Nat) : Prop :=
  irtPolicyAllows d.policy uid partition pointId = true ∧
    rtdbdConfPartitionAllowed d.conf partition = true

/-- What holds behind every run.  The instance changes only with a request for a change
that its peer may make in the partition of the request; a request that is turned down
changes nothing and is not recorded; and the dump is the last of the changes that were
carried out. -/
structure Lawful (past : List (EventLoop × LoopEvent)) (s : EventLoop) : Prop where
  authorised : ∀ e, s.Enabled e → (s.after e).d.h ≠ s.d.h →
    ∃ slot input room env pid uid, e = .request slot input room env ∧
      Changing (headerOf input).opcode ∧ env.peer = some (pid, uid) ∧
        s.d.MayChange uid (partitionOf past slot input) (pointOf input)
  refused : ∀ slot input room env, s.Live slot → Changing (headerOf input).opcode →
    (∀ pid uid, env.peer = some (pid, uid) →
      ¬ s.d.MayChange uid (partitionOf past slot input) (pointOf input)) →
    (s.after (.request slot input room env)).d.h = s.d.h ∧
      (s.after (.request slot input room env)).d.audit = s.d.audit
  dumped : ∀ slot input env, s.Live slot → HeaderArrives input →
    (headerOf input).opcode = rtdbdOpAuditDump →
      (s.handled slot input none env).sock.output = s.wire slot ++ frameBytes rtdbdStOk
        ((lastOf rtdbdAuditCapacity (carriedOut past)).flatMap RtdbdAuditEntry.toBytes)

/-- An authorised peer may make its change in the partition the run tells. -/
theorem Accounted.mayChange {past : List (EventLoop × LoopEvent)} {s : EventLoop}
    (h : Accounted past s) {slot : Nat} (hlive : s.Live slot) {input : List UInt8}
    {room : Option Nat} {env : Env} {pid uid : Nat}
    (hauthorised : (s.ctx slot input room env).Authorised pid uid) :
    env.peer = some (pid, uid) ∧
      s.d.MayChange uid (partitionOf past slot input) (pointOf input) := by
  rw [partitionOf, ← h.selected slot hlive.2]
  exact ⟨hauthorised.peer, hauthorised.policy, hauthorised.conf⟩

/-- **Authorisation and audit.**  Every run from the start of the daemon is lawful. -/
theorem lawful {h : IndurtdbH} {policy : IrtPolicy} {conf : RtdbdConf} {logbuf : IrtLogbuf}
    {maxPoints startNs : Nat} {past : List (EventLoop × LoopEvent)} {s : EventLoop}
    (hrun : EventLoop.Runs (.start (.start h policy conf logbuf maxPoints startNs)) past s) :
    Lawful past s := by
  have haccounted : Accounted past s :=
    accounted (fun _ => Int.not_le.mp connInit_closed) rfl hrun
  constructor
  · intro e hen hchanged
    cases e with
    | accept slot fd => exact absurd rfl hchanged
    | flush slot results now => exact absurd rfl hchanged
    | request slot input room env =>
        rw [(after_request_account s slot input room env).1] at hchanged
        rcases (requestAccount s slot input room env).h with hsame | ⟨hop, pid, uid, hauthorised⟩
        · exact absurd hsame hchanged
        · obtain ⟨hpeer, hmay⟩ := haccounted.mayChange hen hauthorised
          exact ⟨slot, input, room, env, pid, uid, rfl, hop, hpeer, hmay⟩
  · intro slot input room env hlive hop hdenied
    obtain ⟨hh, haudit, -⟩ := after_request_account s slot input room env
    have haccount := requestAccount s slot input room env
    have hnot : ∀ pid uid, ¬ (s.ctx slot input room env).Authorised pid uid := by
      intro pid uid hauthorised
      obtain ⟨hpeer, hmay⟩ := haccounted.mayChange hlive hauthorised
      exact hdenied pid uid hpeer hmay
    rw [hh, haudit]
    constructor
    · rcases haccount.h with hsame | ⟨-, pid, uid, hauthorised⟩
      · exact hsame
      · exact absurd hauthorised (hnot pid uid)
    · rcases haccount.audit with ⟨hsame, -⟩ | ⟨-, pid, uid, hauthorised, -⟩
      · exact hsame
      · exact absurd hauthorised (hnot pid uid)
  · intro slot input env hlive harrives hop
    have hentry : kOps.find? (fun entry => entry.1 == rtdbdOpAuditDump) =
      some (rtdbdOpAuditDump, opAuditDump) := rfl
    rw [EventLoop.handled, handleRequest_eq harrives, dispatch_of_entry hentry hop, opAuditDump,
      ← haccounted.audit]
    simp [RtdbdCtx.respond, RtdbdCtx.ofRequest, Socket.sendAll, frameBytes]

/-- A client connects and writes a point. -/
def writing : List LoopEvent := [.accept 0 5, .request 0 writeZero none operator]

theorem lawful_writing :
    Lawful (Trace.passed EventLoop.after writing (.start entered) [])
      (writing.foldl EventLoop.after (.start entered)) := by
  have hstart : EventLoop.Runs (.start entered) [] (.start entered) := .start
  exact lawful (hstart.follow writing (by decide +kernel))

end InduRtdb.Daemon
