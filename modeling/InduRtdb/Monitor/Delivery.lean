/-
  Monitor/Delivery.lean --- from the writers of a point to the calls of `on_notify`.

  Source: `op_write`, `notify_broadcast`, `outq_push` and `outq_flush` of
  `rtdbd/src/rtdbd.c`, and `NotifyListener` of `tools/rtdb-monitor/rtdb_client.py`.

  The listener's connection carries nothing but its subscriptions and their answers; every
  other frame on it was queued by a write.
-/
import InduRtdb.Daemon.Counters
import InduRtdb.Daemon.FrameIntegrity
import InduRtdb.Monitor.Listener

set_option autoImplicit false

namespace InduRtdb.Daemon

open InduRtdb.Core InduRtdb.Api InduRtdb.Lib

/-! ## What a connection is told -/

namespace EventLoop

/-- The request of an event stores its value and is answered, and the value is reported to
the connection in a place. -/
def Tells (s : EventLoop) (j slot : Nat) (input : List UInt8) (room : Option Nat) (env : Env) :
    Prop :=
  (s.handled slot input room env).d.stats.nWrites ≠ s.d.stats.nWrites ∧
    Socket.Takes ⟨input, room, s.wire slot⟩ sizeofHdr ∧ j < rtdbdMaxClients ∧
      Reports (writeOf input).pointId
        (indurtdbValueToDouble (writeOf input).type (writeOf input).valueBits)
        (metaOf s.d.h (writeOf input).pointId) (s.d.conns j)

instance (s : EventLoop) (j slot : Nat) (input : List UInt8) (room : Option Nat) (env : Env) :
    Decidable (s.Tells j slot input room env) :=
  inferInstanceAs (Decidable (_ ∧ _ ∧ _ ∧ _))

/-- The notification that an event has for the connection in a place. -/
def told (s : EventLoop) (j : Nat) : LoopEvent → List RtdbdNotify
  | .request slot input room env =>
      if s.Tells j slot input room env then
        [notifyOf (s.handled slot input room env).d.h (writeOf input)]
      else []
  | _ => []

end EventLoop

/-- The notifications for the connection in a place since it was accepted, oldest first. -/
def toldIn : List (EventLoop × LoopEvent) → Nat → List RtdbdNotify
  | [], _ => []
  | (s, e) :: past, j =>
      match e with
      | .accept slot _ => if slot = j then [] else toldIn past j
      | .request _ _ _ _ => toldIn past j ++ s.told j e
      | .flush _ _ _ => toldIn past j

/-- What a request does to a queue: it pushes what the connection is told, and where
nothing is dropped there was room. -/
structure Pushed (told : List RtdbdNotify) (roomy : Prop) (q q' : Outq) : Prop where
  nothing : told = [] → q' = q
  one : ∀ nt, told = [nt] → ∃ st now, q' = (outqPush q st nt now).1
  room : roomy → told ≠ [] → q.count ≠ rtdbdOutqCap

theorem EventLoop.handled_pushed (s : EventLoop) (slot : Nat) (input : List UInt8)
    (room : Option Nat) (env : Env) (j : Nat) :
    Pushed (s.told j (.request slot input room env))
      ((s.handled slot input room env).d.stats.notifyDrop = s.d.stats.notifyDrop)
      (s.d.conns j).outq ((s.handled slot input room env).d.conns j).outq := by
  rcases Decidable.em ((s.handled slot input room env).d.stats.nWrites = s.d.stats.nWrites) with
    hsame | hwrites
  · have hnone : s.told j (.request slot input room env) = [] :=
      if_neg fun htells => htells.1 hsame
    rw [hnone]
    refine ⟨fun _ => ?_, fun nt h => absurd h.symm (List.cons_ne_nil nt []),
      fun _ h => absurd rfl h⟩
    obtain ⟨stored, hbeside, heq | ⟨hmore, w, m, heq⟩⟩ :=
      handleRequest_told s.d slot ⟨input, room, s.wire slot⟩ env
    · have heq : (s.handled slot input room env).d = stored := heq
      rw [heq]
      exact hbeside.outq j
    · have heq : (s.handled slot input room env).d = notifyBroadcast stored w m env.now := heq
      have hgrows := (notifyBroadcast_counts stored w m env.now).nWrites
      rw [← heq, hsame, hmore] at hgrows
      omega
  · obtain ⟨stored, hconns, hdrop, hd⟩ := handleRequest_wrote hwrites
    have hd : (s.handled slot input room env).d = _ := hd
    rcases Decidable.em (s.Tells j slot input room env) with htells | hnot
    · obtain ⟨-, htakes, hj, hreports⟩ := id htells
      rw [if_pos htakes] at hd
      have htold : s.told j (.request slot input room env) =
          [notifyOf (s.handled slot input room env).d.h (writeOf input)] := if_pos htells
      have hh : (s.handled slot input room env).d.h = stored.h := by
        rw [hd]
        rfl
      rw [← hconns] at hreports
      have hreports : Reports (notifyOf stored.h (writeOf input)).pointId
          (notifyOf stored.h (writeOf input)).value
          (metaOf s.d.h (writeOf input).pointId) (stored.conns j) := hreports
      have hconn : (notifyBroadcast stored (writeOf input)
          (metaOf s.d.h (writeOf input).pointId) env.now).conns j = _ :=
        offerLoop_conns (notifyOf stored.h (writeOf input)) (metaOf s.d.h (writeOf input).pointId)
          env.now stored.stats rtdbdMaxClients 0 stored.conns stored.stats j
      rw [if_pos ⟨Nat.zero_le j, by omega⟩, offer_of_reports hreports] at hconn
      rw [htold, hh]
      refine ⟨fun h => absurd h (List.cons_ne_nil _ []), fun nt hnt => ?_, fun hroomy _ hfull => ?_⟩
      · obtain rfl := List.singleton_injective hnt
        exact ⟨stored.stats, env.now, by rw [hd, hconn, hconns]⟩
      · have hdropped := (notifyBroadcast_announced stored (writeOf input)
          (metaOf s.d.h (writeOf input).pointId) env.now).dropped
        rw [← hd, hroomy, hdrop] at hdropped
        have hcount := List.countP_eq_zero.mp (Nat.left_eq_add.mp hdropped) j
          (List.mem_range.mpr hj)
        rw [← hconns] at hfull
        exact hcount (decide_eq_true ⟨hreports, hfull⟩)
    · have hnone : s.told j (.request slot input room env) = [] := if_neg hnot
      rw [hnone]
      refine ⟨fun _ => ?_, fun nt h => absurd h.symm (List.cons_ne_nil nt []),
        fun _ h => absurd rfl h⟩
      rw [hd]
      split
      next htakes =>
        have hconn : (notifyBroadcast stored (writeOf input)
            (metaOf s.d.h (writeOf input).pointId) env.now).conns j = _ :=
          offerLoop_conns (notifyOf stored.h (writeOf input))
            (metaOf s.d.h (writeOf input).pointId) env.now stored.stats rtdbdMaxClients 0
            stored.conns stored.stats j
        rw [hconn]
        split
        next hj =>
          have hsilent : ¬ Reports (notifyOf stored.h (writeOf input)).pointId
              (notifyOf stored.h (writeOf input)).value
              (metaOf s.d.h (writeOf input).pointId) (stored.conns j) := by
            intro hreports
            rw [hconns] at hreports
            exact hnot ⟨hwrites, htakes, by omega, hreports⟩
          rw [offer_of_not_reports hsilent, hconns]
        next => rw [hconns]
      next => rw [hconns]

theorem EventLoop.told_cases (s : EventLoop) (j : Nat) (e : LoopEvent) :
    s.told j e = [] ∨ ∃ nt, s.told j e = [nt] := by
  cases e with
  | accept => exact .inl rfl
  | flush => exact .inl rfl
  | request slot input room env =>
      rcases Decidable.em (s.Tells j slot input room env) with htells | hnot
      · exact .inr ⟨_, if_pos htells⟩
      · exact .inl (if_neg hnot)

/-! ## What the listener asks for -/

/-- Whatever a subscription is answered, the payload is empty. -/
theorem opSubscribe_confirms (cx : RtdbdCtx) : ∃ (status : UInt16) (k : Nat),
    (opSubscribe cx).2.sock.output = cx.sock.output ++ (frameBytes status.toNat []).take k ∧
      ((opSubscribe cx).1 = .keep → k = (frameBytes status.toNat []).length) := by
  rcases Classical.em (cx.req.payloadLen = sizeofWord ∧ cx.Arrived) with harrived | hnot
  · rw [RtdbdCtx.opSubscribe_arrived harrived.1 harrived.2]
    obtain ⟨k, room, heq, hkeep⟩ := respond_eq
      { cx with
        d := (cx.setConn (cx.resubscribed (fieldAt cx.payload 0 4))).d
        sock := { cx.sock with input := cx.left } }
      (cx.resubscribeStatus (fieldAt cx.payload 0 4)) []
    have hstatus : (UInt16.ofNat (cx.resubscribeStatus (fieldAt cx.payload 0 4))).toNat =
        cx.resubscribeStatus (fieldAt cx.payload 0 4) := by
      unfold RtdbdCtx.resubscribeStatus
      split <;> rfl
    refine ⟨.ofNat (cx.resubscribeStatus (fieldAt cx.payload 0 4)), k, ?_, ?_⟩
    · rw [hstatus, heq]
    · rw [hstatus]
      exact hkeep
  · obtain ⟨input, hrefused⟩ := RtdbdCtx.opSubscribe_refused hnot
    rw [hrefused]
    obtain ⟨k, room, heq, -⟩ := respond_eq
      { cx with sock := { cx.sock with input := input } } rtdbdStBadRequest []
    refine ⟨.ofNat rtdbdStBadRequest, k, ?_, fun hkeep => by cases hkeep⟩
    exact congrArg (fun cx : RtdbdCtx => cx.sock.output) heq

theorem handleRequest_confirms {d : Rtdbd} {slot : Nat} {sock : Socket} {env : Env}
    (hop : Resubscribing (headerOf sock.input).opcode) : ∃ (status : UInt16) (k : Nat),
      (handleRequest d slot sock env).sock.output =
        sock.output ++ (frameBytes status.toNat []).take k ∧
      ((handleRequest d slot sock env).fate = .keep →
        k = (frameBytes status.toNat []).length ∧ Responds sock.input sock.room) := by
  rcases Decidable.em (HeaderArrives sock.input) with harrives | hnot
  · have hdispatch : dispatch (.ofRequest d slot sock env) =
        opSubscribe (.ofRequest d slot sock env) := dispatch_resubscribing hop
    obtain ⟨status, k, hout, hkeep⟩ := opSubscribe_confirms (.ofRequest d slot sock env)
    rw [handleRequest_eq harrives, hdispatch]
    refine ⟨status, k, hout, fun hfate => ⟨hkeep hfate, harrives, fun hroom => ?_⟩⟩
    obtain ⟨reply, decided, hsettles⟩ := dispatch_settles (.ofRequest d slot sock env)
    rw [← hdispatch, hsettles, (reply.send_of_no_room (.ofRequest d slot sock env) hroom).1] at hfate
    cases hfate
  · obtain ⟨st, input, -, hhandled⟩ := @handleRequest_of_not_header d slot sock env hnot
    rw [hhandled]
    refine ⟨0, 0, ?_, fun hkeep => by cases hkeep⟩
    rw [List.take_zero, List.append_nil]

end InduRtdb.Daemon

namespace InduRtdb.Monitor

open InduRtdb.Core InduRtdb.Api InduRtdb.Lib InduRtdb.Daemon

/-! ## The stream of the listener -/

/-- The connection in a place is the listener's: it only subscribes, and no answer of it is
sent while a notification is on its way in part. -/
def Listens (j : Nat) (s : EventLoop) : LoopEvent → Prop
  | .request slot input room _ => slot = j →
      Resubscribing (headerOf input).opcode ∧
        (Responds input room → (s.d.conns j).outq.sent = 0)
  | _ => True

instance (j : Nat) (s : EventLoop) : ∀ e, Decidable (Listens j s e)
  | .accept _ _ => .isTrue trivial
  | .request slot input room _ => inferInstanceAs (Decidable (slot = j →
      (_ ∨ _) ∧ (Responds input room → (s.d.conns j).outq.sent = 0)))
  | .flush _ _ _ => .isTrue trivial

/-- The bytes of a number are those of its remainder. -/
theorem le32_mod (n : Nat) : le32 (n % 2 ^ 32) = le32 n := by
  have hbyte : ∀ a b : Nat, a % 2 ^ 8 = b % 2 ^ 8 → UInt8.ofNat a = UInt8.ofNat b := by
    intro a b h
    apply UInt8.toNat_inj.mp
    rw [UInt8.toNat_ofNat', UInt8.toNat_ofNat', h]
  rw [le32, le32, hbyte (n % 2 ^ 32) n (by omega),
    hbyte (n % 2 ^ 32 / 2 ^ 8) (n / 2 ^ 8) (by omega),
    hbyte (n % 2 ^ 32 / 2 ^ 16) (n / 2 ^ 16) (by omega),
    hbyte (n % 2 ^ 32 / 2 ^ 24) (n / 2 ^ 24) (by omega)]

theorem le64_mod (n : Nat) : le64 (n % 2 ^ 64) = le64 n := by
  have hlow : n % 2 ^ 64 % 2 ^ 32 = n % 2 ^ 32 := by omega
  have hhigh : n % 2 ^ 64 / 2 ^ 32 % 2 ^ 32 = n / 2 ^ 32 % 2 ^ 32 := by omega
  rw [le64, le64, ← le32_mod (n % 2 ^ 64), hlow, le32_mod, ← le32_mod (n % 2 ^ 64 / 2 ^ 32), hhigh,
    le32_mod]

/-- A notification as it is sent: its fields in their C types. -/
def sentOf (nt : RtdbdNotify) : Sent :=
  .notify
    { nt with
      pointId := nt.pointId % 2 ^ 32
      timestampNs := nt.timestampNs % 2 ^ 64
      sourceTsNs := nt.sourceTsNs % 2 ^ 64 }
    ⟨Nat.mod_lt _ (by decide), Nat.mod_lt _ (by decide), Nat.mod_lt _ (by decide)⟩

theorem sentOf_bytes (nt : RtdbdNotify) : (sentOf nt).bytes = nt.frame := by
  have hbytes : ∀ a b c : Nat, RtdbdNotify.toBytes
      { nt with pointId := a % 2 ^ 32, timestampNs := b % 2 ^ 64, sourceTsNs := c % 2 ^ 64 } =
      RtdbdNotify.toBytes { nt with pointId := a, timestampNs := b, sourceTsNs := c } := by
    intro a b c
    simp only [RtdbdNotify.toBytes, le32_mod, le64_mod]
  exact congrArg (frameBytes rtdbdOpNotify) (hbytes nt.pointId nt.timestampNs nt.sourceTsNs)

/-- What `on_notify` is to be called with for notifications. -/
def infosOf (nts : List RtdbdNotify) : List NotifyInfo := (nts.map sentOf).filterMap Sent.info

/-- What has been sent to the listener and what is queued for it are what it was told: some
of it, and where nothing was dropped all of it. -/
def Delivers (dropless : Prop) (told : List RtdbdNotify) (q : Outq) (wire : List UInt8) : Prop :=
  ∃ frames : List Sent, wire = streamOf frames ++ (q.buf q.head).frame.take q.sent ∧
    (frames.filterMap Sent.info ++ infosOf q.toList).Sublist (infosOf told) ∧
      (dropless → frames.filterMap Sent.info ++ infosOf q.toList = infosOf told)

theorem infosOf_append (nts nts' : List RtdbdNotify) :
    infosOf (nts ++ nts') = infosOf nts ++ infosOf nts' := by
  rw [infosOf, List.map_append, List.filterMap_append, infosOf, infosOf]

theorem streamOf_append (frames frames' : List Sent) :
    streamOf (frames ++ frames') = streamOf frames ++ streamOf frames' := List.flatMap_append

theorem streamOf_sent (nts : List RtdbdNotify) :
    streamOf (nts.map sentOf) = nts.flatMap RtdbdNotify.frame := by
  rw [streamOf, List.flatMap_map]
  exact List.flatMap_congr fun nt _ => sentOf_bytes nt

namespace Delivers

variable {dropless dropless' : Prop} {told : List RtdbdNotify} {q q' : Outq} {wire : List UInt8}

theorem start (q : Outq) (hempty : q.toList = []) (hzero : q.sent = 0) :
    Delivers dropless [] q [] := by
  refine ⟨[], ?_, ?_, fun _ => ?_⟩
  · rw [hzero, List.take_zero]
    rfl
  · rw [hempty]
    exact List.Sublist.refl _
  · rw [hempty]
    rfl

/-- What is told is pushed, or dropped. -/
theorem pushed (h : Delivers dropless told q wire) {more : List RtdbdNotify} {roomy : Prop}
    (hpushed : Pushed more roomy q q') (hmore : more = [] ∨ ∃ nt, more = [nt])
    (hearlier : dropless' → dropless ∧ roomy) : Delivers dropless' (told ++ more) q' wire := by
  obtain ⟨frames, hwire, hsome, hall⟩ := h
  rcases hmore with rfl | ⟨nt, rfl⟩
  · rw [hpushed.nothing rfl, List.append_nil]
    exact ⟨frames, hwire, hsome, fun hless => hall (hearlier hless).1⟩
  · obtain ⟨st, now, rfl⟩ := hpushed.one nt rfl
    have hlist := toList_outqPush q st nt now
    refine ⟨frames, ?_, ?_, fun hless => ?_⟩
    · rw [take_head_outqPush]
      exact hwire
    · have hsuffix : (outqPush q st nt now).1.toList.Sublist (q.toList ++ [nt]) := by
        rw [hlist]
        split
        · exact List.sublist_append_left _ _
        · exact (List.drop_suffix _ _).sublist
      have hinfos : (infosOf (outqPush q st nt now).1.toList).Sublist
          (infosOf q.toList ++ infosOf [nt]) := by
        rw [← infosOf_append]
        exact (hsuffix.map sentOf).filterMap Sent.info
      rw [infosOf_append]
      refine ((List.Sublist.refl _).append hinfos).trans ?_
      rw [← List.append_assoc]
      exact hsome.append (List.Sublist.refl _)
    · have hroom := hpushed.room (hearlier hless).2 (List.cons_ne_nil nt [])
      have hle := q.count_le
      rw [if_neg fun hfull => hroom hfull.1, lastOf_of_length_le (by
        rw [List.length_append, List.length_singleton, Outq.length_toList]
        omega)] at hlist
      rw [hlist, infosOf_append, ← List.append_assoc, hall (hearlier hless).1, infosOf_append]

/-- A flush sends from the head of the queue. -/
theorem flush (h : Delivers dropless told q wire) (results : List SendResult)
    (hearlier : dropless' → dropless) :
    Delivers dropless' told (outqFlushLoop results q).2.1
      (wire ++ (outqFlushLoop results q).1) := by
  obtain ⟨frames, rfl, hsome, hall⟩ := h
  obtain ⟨done, hlist, hbytes⟩ := outqFlushLoop_frames results q
  have hinfos : (frames ++ done.map sentOf).filterMap Sent.info ++
      infosOf (outqFlushLoop results q).2.1.toList =
        frames.filterMap Sent.info ++ infosOf q.toList := by
    rw [hlist, infosOf_append, List.filterMap_append, List.append_assoc, infosOf, infosOf]
  refine ⟨frames ++ done.map sentOf, ?_, ?_, ?_⟩
  · rw [List.append_assoc, hbytes, streamOf_append, streamOf_sent, List.append_assoc]
  · rw [hinfos]
    exact hsome
  · rw [hinfos]
    exact fun hless => hall (hearlier hless)

/-- An answer of the listener falls between two frames. -/
theorem confirmed (h : Delivers dropless told q wire) (hzero : q.sent = 0) (status : UInt16) :
    Delivers dropless told q (wire ++ frameBytes status.toNat []) := by
  obtain ⟨frames, rfl, hsome, hall⟩ := h
  refine ⟨frames ++ [.confirmation status], ?_, ?_, ?_⟩
  · rw [hzero, List.take_zero, List.append_nil, List.append_nil, streamOf_append]
    simp only [streamOf, List.flatMap_singleton, Sent.bytes]
  · rw [List.filterMap_append]
    exact (List.append_nil _).symm ▸ hsome
  · rw [List.filterMap_append]
    exact (List.append_nil _).symm ▸ hall

end Delivers

/-! ## Runs -/

/-- What holds of the listener's place along a run. -/
structure Serves (drop : Nat) (j : Nat) (past : List (EventLoop × LoopEvent)) (s : EventLoop) :
    Prop where
  grows : drop ≤ s.d.stats.notifyDrop
  delivers : 0 ≤ (s.d.conns j).fd →
    Delivers (s.d.stats.notifyDrop = drop) (toldIn past j) (s.d.conns j).outq (s.wire j)

/-- A request drops what it drops, and its connection may drop more as it is closed. -/
theorem handled_notifyDrop_le (s : EventLoop) (slot : Nat) (input : List UInt8)
    (room : Option Nat) (env : Env) :
    s.d.stats.notifyDrop ≤ (s.handled slot input room env).d.stats.notifyDrop ∧
      (s.handled slot input room env).d.stats.notifyDrop ≤
        (s.after (.request slot input room env)).d.stats.notifyDrop := by
  have htold := (handleRequest_told s.d slot ⟨input, room, s.wire slot⟩ env).counts
  refine ⟨htold.notifyDrop, ?_⟩
  unfold EventLoop.after
  dsimp only
  split
  · exact Nat.le_refl _
  · exact (discardOutq_counts _ _ _).notifyDrop

section Serves

variable {drop j : Nat} {past : List (EventLoop × LoopEvent)} {s : EventLoop}

theorem Serves.accept (h : Serves drop j past s) (slot : Nat) (fd : Int) :
    Serves drop j ((s, .accept slot fd) :: past) (s.after (.accept slot fd)) := by
  refine ⟨h.grows, fun hopen => ?_⟩
  rcases eq_or_ne slot j with rfl | hne
  · have htold : toldIn ((s, .accept slot fd) :: past) slot = [] := if_pos rfl
    rw [htold, EventLoop.after_accept_conn, EventLoop.after_accept_wire]
    exact .start _ rfl rfl
  · have htold : toldIn ((s, .accept slot fd) :: past) j = toldIn past j := if_neg hne
    have hconn : (s.after (.accept slot fd)).d.conns j = s.d.conns j :=
      Function.update_of_ne (Ne.symm hne) _ s.d.conns
    have hwire : (s.after (.accept slot fd)).wire j = s.wire j :=
      EventLoop.after_wire_of_ne (Ne.symm hne)
    rw [hconn] at hopen
    rw [htold, hconn, hwire]
    exact h.delivers hopen

theorem Serves.flush (h : Serves drop j past s) (slot : Nat) (results : List SendResult)
    (now : Nat) :
    Serves drop j ((s, .flush slot results now) :: past) (s.after (.flush slot results now)) := by
  have hgrows := (s.after_grows (.flush slot results now)).notifyDrop
  have hearlier : (s.after (.flush slot results now)).d.stats.notifyDrop = drop →
      s.d.stats.notifyDrop = drop := fun hsame => by
    have hle := h.grows
    omega
  refine ⟨h.grows.trans hgrows, fun hopen => ?_⟩
  rcases eq_or_ne slot j with rfl | hne
  · obtain ⟨hwire, hconn⟩ := s.after_flush slot results now
    rw [hwire, hconn]
    rw [hconn] at hopen
    split at hopen
    next hsent =>
      rw [if_pos hsent]
      exact (h.delivers hopen).flush results hearlier
    next => exact absurd hopen connInit_closed
  · have hconn : (s.after (.flush slot results now)).d.conns j = s.d.conns j :=
      Function.update_of_ne (Ne.symm hne) _ s.d.conns
    have hwire : (s.after (.flush slot results now)).wire j = s.wire j :=
      EventLoop.after_wire_of_ne (Ne.symm hne)
    rw [hconn] at hopen ⊢
    obtain ⟨frames, hframes, hsome, hall⟩ := h.delivers hopen
    rw [hwire]
    exact ⟨frames, hframes, hsome, fun hless => hall (hearlier hless)⟩

theorem Serves.request (h : Serves drop j past s) {slot : Nat} {input : List UInt8}
    {room : Option Nat} {env : Env} (hlistens : Listens j s (.request slot input room env)) :
    Serves drop j ((s, .request slot input room env) :: past)
      (s.after (.request slot input room env)) := by
  obtain ⟨hle, hle'⟩ := handled_notifyDrop_le s slot input room env
  have hgrows := h.grows
  have hearlier : (s.after (.request slot input room env)).d.stats.notifyDrop = drop →
      s.d.stats.notifyDrop = drop ∧
        (s.handled slot input room env).d.stats.notifyDrop = s.d.stats.notifyDrop :=
    fun hsame => ⟨by omega, by omega⟩
  have hpushed := s.handled_pushed slot input room env j
  have htold := s.told_cases j (.request slot input room env)
  have hkept := handleRequest_conns s.d slot ⟨input, room, s.wire slot⟩ env j
  refine ⟨by omega, fun hopen => ?_⟩
  show Delivers _ (toldIn past j ++ s.told j (.request slot input room env)) _ _
  rcases eq_or_ne slot j with rfl | hne
  · rcases Decidable.em ((s.handled slot input room env).fate = .keep) with hfate | hfate
    · obtain ⟨hop, hapart⟩ := hlistens rfl
      rw [EventLoop.after_request_keep hfate] at hopen ⊢
      have hdelivers := h.delivers (hkept.fd ▸ hopen)
      obtain ⟨status, k, hout, hkeep⟩ :=
        @handleRequest_confirms s.d slot ⟨input, room, s.wire slot⟩ env hop
      obtain ⟨rfl, hresponds⟩ := hkeep hfate
      have hwire : (s.after (.request slot input room env)).wire slot =
          s.wire slot ++ frameBytes status.toNat [] := by
        rw [EventLoop.after_request_wire]
        exact hout.trans (by rw [List.take_length])
      rw [hwire]
      exact (hdelivers.confirmed (hapart hresponds) status).pushed hpushed htold
        fun hsame => ⟨by omega, by omega⟩
    · rw [EventLoop.after_request_close hfate] at hopen
      exact absurd hopen connInit_closed
  · have hwire : (s.after (.request slot input room env)).wire j = s.wire j :=
      EventLoop.after_wire_of_ne (Ne.symm hne)
    rw [EventLoop.after_request_other (Ne.symm hne)] at hopen ⊢
    rw [hwire]
    exact (h.delivers (hkept.fd ▸ hopen)).pushed hpushed htold hearlier

end Serves

/-- Along every run that leaves the listener's connection to the listener. -/
theorem serves_run {d : Rtdbd} (hfree : ∀ k, (d.conns k).fd < 0) {j : Nat}
    {past : List (EventLoop × LoopEvent)} {s : EventLoop}
    (hrun : EventLoop.Guarded (Listens j) (.start d) past s) :
    Serves d.stats.notifyDrop j past s := by
  refine hrun.invariant ⟨Nat.le_refl _, fun hopen => ?_⟩ fun past s e h hcan => ?_
  · exact absurd hopen (Int.not_le.mpr (hfree j))
  · cases e with
    | accept slot fd => exact h.accept slot fd
    | flush slot results now => exact h.flush slot results now
    | request slot input room env => exact h.request hcan.2

/-! ## What the listener hears -/

/-- The rest of the frame that has been sent in part. -/
def restOf (q : Outq) : List UInt8 :=
  if q.sent = 0 then [] else (q.buf q.head).frame.drop q.sent

theorem wholeWithin_length (frames : List Sent) :
    wholeWithin frames (streamOf frames).length = frames := by
  induction frames with
  | nil => rfl
  | cons frame frames ih =>
      rw [wholeWithin, streamOf_cons, List.length_append, if_pos (Nat.le_add_right _ _),
        Nat.add_sub_cancel_left, ih]

/-- A last frame that is not whole does not count. -/
theorem wholeWithin_append (last : Sent) : ∀ (frames : List Sent) (n : Nat),
    n < (streamOf frames).length + last.bytes.length →
      wholeWithin (frames ++ [last]) n = wholeWithin frames n := by
  intro frames
  induction frames with
  | nil =>
      intro n hn
      rw [List.nil_append, wholeWithin, wholeWithin, if_neg]
      simp only [streamOf, List.flatMap_nil, List.length_nil, Nat.zero_add] at hn
      omega
  | cons frame frames ih =>
      intro n hn
      rw [streamOf_cons, List.length_append] at hn
      rw [List.cons_append, wholeWithin, wholeWithin]
      split
      · rw [ih _ (by omega)]
      · rfl

/-- Every notification told stems from a request that stored the value it carries, of a
point the connection was subscribed to. -/
theorem mem_toldIn {past : List (EventLoop × LoopEvent)} {j : Nat} {nt : RtdbdNotify}
    (h : nt ∈ toldIn past j) : ∃ s slot input room env,
      (s, LoopEvent.request slot input room env) ∈ past ∧ s.Tells j slot input room env ∧
        nt = notifyOf (s.handled slot input room env).d.h (writeOf input) := by
  induction past with
  | nil => cases h
  | cons p past ih =>
      obtain ⟨s, e⟩ := p
      have hlater : nt ∈ toldIn past j → ∃ s' slot input room env,
          (s', LoopEvent.request slot input room env) ∈ (s, e) :: past ∧
            s'.Tells j slot input room env ∧
              nt = notifyOf (s'.handled slot input room env).d.h (writeOf input) := by
        intro hmem
        obtain ⟨s', slot, input, room, env, hp, htells, hnt⟩ := ih hmem
        exact ⟨s', slot, input, room, env, List.mem_cons_of_mem _ hp, htells, hnt⟩
      cases e with
      | accept slot fd =>
          have hmem : nt ∈ if slot = j then [] else toldIn past j := h
          split at hmem
          · cases hmem
          · exact hlater hmem
      | flush slot results now => exact hlater h
      | request slot input room env =>
          rcases List.mem_append.mp h with hmem | hmem
          · exact hlater hmem
          · have hmem : nt ∈ if s.Tells j slot input room env then
              [notifyOf (s.handled slot input room env).d.h (writeOf input)] else [] := hmem
            split at hmem
            next htells =>
              exact ⟨s, slot, input, room, env, List.mem_cons_self, htells,
                List.mem_singleton.mp hmem⟩
            next => cases hmem

/-- What the listener hears of what it was told. -/
structure HeardOf (dropless drained : Prop) (told : List RtdbdNotify) (heard : Heard) :
    Prop where
  /-- nothing else, nothing twice, and in order -/
  some : heard.calls.Sublist (infosOf told)
  /-- without a gap, if nothing was dropped -/
  gapless : dropless → heard.calls <+: infosOf told
  /-- and all of it once everything has been sent and received -/
  all : dropless → drained → heard.unread = [] → heard.calls = infosOf told

/-- With the rest of the frame that is on its way the bytes sent are a stream of frames, and
that frame is not whole before its rest has come. -/
theorem stream_of_part {frames : List Sent} {q : Outq} {wire : List UInt8}
    (hwire : wire = streamOf frames ++ (q.buf q.head).frame.take q.sent) : ∃ all,
      wire ++ restOf q = streamOf all ∧ (q.count = 0 → all = frames) ∧
        ∀ left, (restOf q).length ≤ left →
          wholeWithin all ((streamOf all).length - left) =
            wholeWithin frames ((streamOf all).length - left) := by
  rcases Nat.eq_zero_or_pos q.sent with hzero | hpart
  · refine ⟨frames, ?_, fun _ => rfl, fun _ _ => rfl⟩
    rw [hwire, restOf, if_pos hzero, hzero, List.take_zero, List.append_nil, List.append_nil]
  · have hlast := sentOf_bytes (q.buf q.head)
    have hframe : (q.buf q.head).frame.length = 44 := RtdbdNotify.length_frame _
    have hlength : (streamOf (frames ++ [sentOf (q.buf q.head)])).length =
        (streamOf frames).length + (sentOf (q.buf q.head)).bytes.length := by
      rw [streamOf_append, List.length_append, streamOf_cons, List.length_append]
      rfl
    have hrest : 0 < (restOf q).length := by
      rw [restOf, if_neg (Nat.ne_of_gt hpart), List.length_drop]
      have hlt : q.sent < 44 := q.sent_lt
      omega
    refine ⟨frames ++ [sentOf (q.buf q.head)], ?_, fun hdrained => ?_, fun left hleft => ?_⟩
    · rw [hwire, restOf, if_neg (Nat.ne_of_gt hpart), List.append_assoc, List.take_append_drop,
        streamOf_append, streamOf_cons, hlast]
      exact congrArg _ (List.append_nil _).symm
    · exact absurd (q.sent_zero hdrained) (Nat.ne_of_gt hpart)
    · have hwhole := (congrArg List.length hlast).trans hframe
      exact wholeWithin_append _ _ _ (by omega)

/-- **From the writers to `on_notify`.**  At every moment of every run in which the
listener's connection is open and carries only its subscriptions, whatever receives the
bytes sent so far come in: they are a stream of frames, of which the listener hears what has
been received; it is called for what its connection was told since it was accepted, in order
and at most once; with nothing dropped without a gap; and for all of it when the queue is
empty and all has been received.  Each call stems from a write that was stored. -/
theorem heard_of_run {d : Rtdbd} (hfree : ∀ k, (d.conns k).fd < 0) {j : Nat}
    {past : List (EventLoop × LoopEvent)} {s : EventLoop}
    (hrun : EventLoop.Guarded (Listens j) (.start d) past s) (hopen : 0 ≤ (s.d.conns j).fd)
    (outcomes : List Outcome)
    (hsent : (restOf (s.d.conns j).outq).length ≤
      (listen outcomes (s.wire j ++ restOf (s.d.conns j).outq)).unread.length) :
    (∃ frames taken, s.wire j ++ restOf (s.d.conns j).outq = streamOf frames ∧
      Hears frames outcomes taken (listen outcomes (s.wire j ++ restOf (s.d.conns j).outq))) ∧
    HeardOf (s.d.stats.notifyDrop = d.stats.notifyDrop) ((s.d.conns j).outq.count = 0)
      (toldIn past j) (listen outcomes (s.wire j ++ restOf (s.d.conns j).outq)) ∧
    ∀ info ∈ (listen outcomes (s.wire j ++ restOf (s.d.conns j).outq)).calls,
      ∃ s' slot input room env, (s', LoopEvent.request slot input room env) ∈ past ∧
        s'.Tells j slot input room env ∧
        (sentOf (notifyOf (s'.handled slot input room env).d.h (writeOf input))).info =
          some info := by
  obtain ⟨frames, hwire, hsome, hall⟩ := (serves_run hfree hrun).delivers hopen
  obtain ⟨all, hstream, hdone, hpart⟩ := stream_of_part hwire
  obtain ⟨taken, hhears⟩ := listen_hears all outcomes
  rw [hstream] at hsent ⊢
  -- what is heard are whole frames of those that have been sent
  have hcalls := hhears.calls
  rw [hpart _ hsent] at hcalls
  have hleads : (listen outcomes (streamOf all)).calls <+: frames.filterMap Sent.info := by
    rw [hcalls]
    exact ( wholeWithin_prefix frames _).filterMap Sent.info
  have hgenuine := (hleads.sublist.trans (List.sublist_append_left _ _)).trans hsome
  refine ⟨⟨all, taken, rfl, hhears⟩, ⟨hgenuine, fun hless => ?_, fun hless hdrained hread => ?_⟩,
    fun info hinfo => ?_⟩
  · rw [← hall hless]
    exact hleads.trans (List.prefix_append _ _)
  · have hempty : (s.d.conns j).outq.toList = [] := by
      rw [← List.length_eq_zero_iff, Outq.length_toList, hdrained]
    rw [hcalls, hread, hdone hdrained, List.length_nil, Nat.sub_zero, wholeWithin_length,
      ← hall hless, hempty]
    exact (List.append_nil _).symm
  · obtain ⟨sent, hsent, hinfo⟩ := List.mem_filterMap.mp (hgenuine.subset hinfo)
    obtain ⟨nt, hnt, rfl⟩ := List.mem_map.mp hsent
    obtain ⟨s', slot, input, room, env, hp, htells, rfl⟩ := mem_toldIn hnt
    exact ⟨s', slot, input, room, env, hp, htells, hinfo⟩

/-- The listener subscribes to a point, another client writes it, and the notification is
sent. -/
def overheard : List LoopEvent :=
  [.accept 0 5,
    .accept 1 6,
    .request 0 subscribeZero none operator,
    .request 1 writeZero none operator,
    .flush 0 [.took 44] 1]

/-- The loop behind it. -/
def overheardLoop : EventLoop := overheard.foldl EventLoop.after (.start entered)

/-- The bytes come in four receives, with a time-out behind the first frame. -/
def piecemeal : List Outcome := [.data 5, .data 32, .timeout, .data 32, .data 32]

theorem heard_of_run_piecemeal :
    (listen piecemeal (overheardLoop.wire 0 ++ restOf (overheardLoop.d.conns 0).outq)).calls =
      infosOf (toldIn (Trace.passed EventLoop.after overheard (.start entered) []) 0) ∧
    (toldIn (Trace.passed EventLoop.after overheard (.start entered) []) 0).length = 1 := by
  have hstart : EventLoop.Guarded (Listens 0) (.start entered) [] (.start entered) := .start
  have hrun := hstart.follow overheard (by decide +kernel)
  have hheard := heard_of_run entered_closed hrun (by decide +kernel) piecemeal
    (by decide +kernel)
  exact ⟨hheard.2.1.all (by decide +kernel) (by decide +kernel) (by decide +kernel),
    by decide +kernel⟩

end InduRtdb.Monitor
