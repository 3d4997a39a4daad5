/-
  Monitor/Requests.lean --- whose response a request of the Python client returns.

  Source: `RtdbClient._request` and `RtdbClient._recv_exact` of
  `tools/rtdb-monitor/rtdb_client.py`.

  The server answers the requests it has received as a whole in their order; a response may
  arrive at any time, also after the call it was for.  An exception leaves the socket open:
  what that call has not read, the next one reads.
-/
import InduRtdb.Lib.Run
import InduRtdb.Monitor.Receiving

set_option autoImplicit false

namespace InduRtdb.Monitor

open InduRtdb.Core InduRtdb.Daemon InduRtdb.Lib

/-! ## The server -/

/-- A response. -/
structure Response where
  magic : UInt32
  version : UInt16
  status : UInt16
  body : List UInt8
  short : body.length < 2 ^ 32

def Response.bytes (r : Response) : List UInt8 :=
  le32 r.magic.toNat ++ le16 r.version.toNat ++ le16 r.status.toNat ++ le32 r.body.length ++ r.body

/-- A response of this protocol. -/
def Response.of (status : UInt16) (body : List UInt8) (short : body.length < 2 ^ 32) : Response where
  magic := 0x52424431
  version := 3
  status := status
  body := body
  short := short

/-- A request with what it meets. -/
structure Attempt where
  opcode : Nat
  payload : List UInt8
  /-- `sendall` raises, with so many bytes sent -/
  sends : Option Nat
  /-- the response to it -/
  response : Response
  /-- the server hangs up, with so many bytes of the response sent -/
  arrives : Option Nat
  /-- what the calls of `recv` come to -/
  outcomes : List Outcome

/-- What the server sends. -/
def Attempt.arrived (a : Attempt) : List UInt8 :=
  match a.arrives with
  | none => a.response.bytes
  | some n => a.response.bytes.take n

/-! ## The client -/

/-- A byte on its way to the client, with the number of the request it answers, if it
answers one. -/
abbrev Tagged : Type := UInt8 × Option Nat

/-- A connection: the bytes on their way to the client, those sent to the server, how many
requests were made, whether each of them was sent as a whole, whether the server has hung
up, and whether a call still holds the lock. -/
structure Connection where
  unread : List Tagged
  sent : List UInt8
  requests : Nat
  inStep : Bool
  down : Bool
  busy : Bool

/-- Behind `connect`. -/
def Connection.fresh : Connection := ⟨[], [], 0, true, false, false⟩

/-- What `_request` comes to.  The bytes of the header and of the body are kept with their
tags. -/
inductive Requested where
  | returned (status : Nat) (hdr body : List Tagged)
  | raised
  | waiting
  deriving DecidableEq

namespace Connection

/-- The request goes out and is answered. -/
def answered (s : Connection) (a : Attempt) : Connection :=
  { s with
    unread := s.unread ++ (if s.down then [] else
      a.arrived.map fun b => (b, if s.inStep then some (s.requests + 1) else none))
    sent := s.sent ++ frameBytes a.opcode a.payload
    requests := s.requests + 1
    down := s.down || a.arrives.isSome }

/-- What follows the `sendall` of `_request`. -/
def receive (s : Connection) (outcomes : List Outcome) : Requested × Connection :=
  let hdr := recvLoop sizeofHdr outcomes [] s.unread
  match hdr.ended with
  | .waiting => (.waiting, { s with unread := hdr.unread, busy := true })
  | .timeout => (.raised, { s with unread := hdr.unread })
  | .closed => (.raised, { s with unread := hdr.unread })
  | .done =>
      let h := Hdr.unpack (hdr.buf.map Prod.fst)
      if h.magic ≠ rtdbdMagic then (.raised, { s with unread := hdr.unread })
      else if h.version ≠ rtdbdProtoVersion then (.raised, { s with unread := hdr.unread })
      else
        let body := recvBody h.plen hdr.outcomes hdr.unread
        match body.ended with
        | .waiting => (.waiting, { s with unread := body.unread, busy := true })
        | .timeout => (.raised, { s with unread := body.unread })
        | .closed => (.raised, { s with unread := body.unread })
        | .done => (.returned h.kind hdr.buf body.buf, { s with unread := body.unread })

/-- `_request`. -/
def request (s : Connection) (a : Attempt) : Requested × Connection :=
  match a.sends with
  | some n =>
      (.raised,
        { s with
          sent := s.sent ++ (frameBytes a.opcode a.payload).take n
          requests := s.requests + 1
          inStep := false })
  | none => (s.answered a).receive a.outcomes

/-- The connection behind a call. -/
def after (s : Connection) (a : Attempt) : Connection := (s.request a).2

/-- No call holds the lock. -/
def Idle (s : Connection) (_ : Attempt) : Prop := s.busy = false

/-- Every request so far was sent as a whole, and no byte of a response to one is still to
be read. -/
def Settled (s : Connection) : Prop := s.unread = [] ∧ s.inStep = true

/-- A call is made where nothing is left of the earlier ones. -/
def Orderly (s : Connection) (a : Attempt) : Prop := s.Idle a ∧ s.Settled

instance (s : Connection) (a : Attempt) : Decidable (Orderly s a) :=
  inferInstanceAs (Decidable (_ = _ ∧ _ = _ ∧ _ = _))

/-- A call that returns has read its own response, from the first byte to the last. -/
def ReturnsOwn (s : Connection) (a : Attempt) : Prop :=
  ∀ status hdr body, (s.request a).1 = .returned status hdr body →
    status = a.response.status.toNat ∧ body.map Prod.fst = a.response.body ∧
      ∀ b ∈ hdr ++ body, b.2 = some (s.requests + 1)

end Connection

/-! ## A response is read as a whole -/

namespace Response

/-- The bytes of the header. -/
def hdr (r : Response) : List UInt8 :=
  le32 r.magic.toNat ++ le16 r.version.toNat ++ le16 r.status.toNat ++ le32 r.body.length

theorem bytes_eq (r : Response) : r.bytes = r.hdr ++ r.body := rfl

theorem length_hdr (r : Response) : r.hdr.length = sizeofHdr := rfl

theorem unpack_hdr (r : Response) :
    Hdr.unpack r.hdr = ⟨r.magic.toNat, r.version.toNat, r.status.toNat, r.body.length⟩ :=
  Hdr.unpack_words r.magic.toNat_lt r.version.toNat_lt r.status.toNat_lt r.short

end Response

theorem Attempt.arrived_prefix (a : Attempt) : a.arrived <+: a.response.bytes := by
  unfold Attempt.arrived
  split
  · exact List.prefix_rfl
  · exact List.take_prefix _ _

namespace Connection

variable {s : Connection} {a : Attempt}

/-- Where the bytes of one response are all there is, a call that returns takes all of
them. -/
theorem receive_returned {tag : Option Nat} {arrived : List UInt8}
    (hunread : s.unread = arrived.map fun b => (b, tag)) {r : Response}
    (hstarts : arrived <+: r.bytes) {outcomes : List Outcome} {status : Nat}
    {hdr body : List Tagged} (hreturned : (s.receive outcomes).1 = .returned status hdr body) :
    status = r.status.toNat ∧ body.map Prod.fst = r.body ∧ (∀ b ∈ hdr ++ body, b.2 = tag) ∧
      (s.receive outcomes).2 = { s with unread := [] } := by
  have hfst : s.unread.map Prod.fst = arrived := by
    rw [hunread, List.map_map]
    exact List.map_id arrived
  have htags : ∀ b ∈ s.unread, b.2 = tag := by
    intro b hb
    rw [hunread] at hb
    obtain ⟨_, -, rfl⟩ := List.mem_map.mp hb
    rfl
  have hshort : s.unread.length ≤ sizeofHdr + r.body.length := by
    have hle := hstarts.length_le
    rw [← hfst, List.length_map, r.bytes_eq, List.length_append, r.length_hdr] at hle
    exact hle
  have hhdr := @recvLoop_done _ sizeofHdr outcomes s.unread
  unfold receive at hreturned ⊢
  dsimp only at hreturned ⊢
  generalize recvLoop sizeofHdr outcomes [] s.unread = first at hhdr hreturned ⊢
  obtain ⟨buf, ended, unread, more⟩ := first
  cases ended with
  | waiting => cases hreturned
  | timeout => cases hreturned
  | closed => cases hreturned
  | done =>
      obtain ⟨hbuf, hrest, hlong⟩ := hhdr rfl
      dsimp only at hbuf hrest
      subst hbuf hrest
      -- the header is the response's
      have hunpack : Hdr.unpack ((s.unread.take sizeofHdr).map Prod.fst) =
          ⟨r.magic.toNat, r.version.toNat, r.status.toNat, r.body.length⟩ := by
        have htake : arrived.take sizeofHdr = r.hdr := by
          obtain ⟨rest, hrest⟩ := hstarts
          have hle : sizeofHdr ≤ arrived.length := by rwa [← hfst, List.length_map]
          have hwhole : (arrived ++ rest).take sizeofHdr = arrived.take sizeofHdr :=
            List.take_append_of_le_length hle
          rw [← hwhole, hrest, r.bytes_eq, List.take_left' r.length_hdr]
        rw [List.map_take, hfst, htake, r.unpack_hdr]
      dsimp only at hreturned ⊢
      rw [hunpack] at hreturned ⊢
      dsimp only at hreturned ⊢
      split at hreturned
      case isTrue => cases hreturned
      case isFalse hmagic =>
        split at hreturned
        case isTrue => cases hreturned
        case isFalse hversion =>
          rw [if_neg hmagic, if_neg hversion]
          have hbody := @recvBody_done _ r.body.length more (s.unread.drop sizeofHdr)
          generalize recvBody r.body.length more (s.unread.drop sizeofHdr) = second
            at hbody hreturned ⊢
          obtain ⟨buf, ended, unread, rest⟩ := second
          cases ended with
          | waiting => cases hreturned
          | timeout => cases hreturned
          | closed => cases hreturned
          | done =>
              obtain ⟨hbuf, hrest, hwhole⟩ := hbody rfl
              dsimp only at hbuf hrest
              subst hbuf hrest
              obtain ⟨rfl, rfl, rfl⟩ := Requested.returned.inj hreturned
              rw [List.length_drop] at hwhole
              -- all of the response has arrived, and all of it is taken
              have hall : arrived = r.bytes := by
                apply hstarts.eq_of_length
                rw [← hfst, List.length_map, r.bytes_eq, List.length_append, r.length_hdr]
                omega
              have hnone : (s.unread.drop sizeofHdr).drop r.body.length = [] := by
                apply List.drop_eq_nil_of_le
                rw [List.length_drop]
                omega
              refine ⟨rfl, ?_, ?_, ?_⟩
              · rw [List.map_take, List.map_drop, hfst, hall, r.bytes_eq,
                  List.drop_left' r.length_hdr, List.take_length]
              · intro b hb
                rcases List.mem_append.mp hb with hb | hb
                · exact htags b (List.mem_of_mem_take hb)
                · exact htags b (List.mem_of_mem_drop (List.mem_of_mem_take hb))
              · rw [hnone]

/-- Nothing left of earlier calls: a call that returns has its own response, and leaves
nothing of it. -/
theorem request_settled (hsettled : s.Settled) :
    s.ReturnsOwn a ∧
      ∀ status hdr body, (s.request a).1 = .returned status hdr body → (s.after a).Settled := by
  obtain ⟨hunread, hstep⟩ := hsettled
  have hsent : ∀ n, a.sends = some n → (s.request a).1 = .raised := by
    intro n hn
    rw [request, hn]
  have hown : ∀ status hdr body, (s.request a).1 = .returned status hdr body →
      (status = a.response.status.toNat ∧ body.map Prod.fst = a.response.body ∧
        ∀ b ∈ hdr ++ body, b.2 = some (s.requests + 1)) ∧ (s.after a).Settled := by
    intro status hdr body hreturned
    rcases hsends : a.sends with - | n
    · have hrequest : s.request a = (s.answered a).receive a.outcomes := by
        rw [request, hsends]
      rw [hrequest] at hreturned
      have harrives : ∃ arrived, arrived <+: a.response.bytes ∧
          (s.answered a).unread = arrived.map fun b => (b, some (s.requests + 1)) := by
        by_cases hdown : s.down = true
        · refine ⟨[], List.nil_prefix, ?_⟩
          rw [answered, if_pos hdown, hunread]
          rfl
        · refine ⟨a.arrived, a.arrived_prefix, ?_⟩
          rw [answered, if_neg hdown, hunread, hstep]
          rfl
      obtain ⟨arrived, hstarts, htagged⟩ := harrives
      obtain ⟨hstatus, hbody, htags, hleft⟩ := receive_returned htagged hstarts hreturned
      refine ⟨⟨hstatus, hbody, htags⟩, ?_⟩
      rw [after, hrequest, hleft]
      exact ⟨rfl, hstep⟩
    · rw [hsent n hsends] at hreturned
      cases hreturned
  exact ⟨fun status hdr body h => (hown status hdr body h).1,
    fun status hdr body h => (hown status hdr body h).2⟩

end Connection

/-! ## Runs -/

/-- In every run of calls each of which finds nothing left of the earlier ones, every call
that returns has its own response; and behind a call that returns nothing is left. -/
theorem returnsOwn {past : List (Connection × Attempt)} {s : Connection}
    (hrun : Trace Connection.Orderly Connection.after .fresh past s) :
    ∀ call ∈ past, call.1.ReturnsOwn call.2 ∧
      ∀ status hdr body, (call.1.request call.2).1 = .returned status hdr body →
        (call.1.after call.2).Settled := by
  intro call hcall
  obtain ⟨-, -, -, hsettled⟩ := hrun.before hcall
  exact call.1.request_settled hsettled

/-! ## A response that comes late -/

/-- `find_by_name("A")`, which times out before anything arrives. -/
def findA : Attempt where
  opcode := rtdbdOpFindByName
  payload := byteArray 64 [65] ++ le32 0
  sends := none
  response := .of 0 (le32 7) (by decide)
  arrives := none
  outcomes := [.timeout]

/-- `find_by_name("B")`, which is received without a delay. -/
def findB : Attempt where
  opcode := rtdbdOpFindByName
  payload := byteArray 64 [66] ++ le32 0
  sends := none
  response := .of 0 (le32 9) (by decide)
  arrives := none
  outcomes := [.data 12, .data 4]

/-- Two calls that return, the second one in pieces, and one that times out. -/
def threeCalls : List Attempt :=
  [findB, { findA with outcomes := [.data 5, .data 7, .data 1, .data 3] }, findA]

/-- The status and the body that a call returns. -/
def returns (call : Connection × Attempt) : Option (Nat × List UInt8) :=
  match (call.1.request call.2).1 with
  | .returned status _ body => some (status, body.map Prod.fst)
  | .raised | .waiting => none

theorem returnsOwn_threeCalls :
    (Trace.passed Connection.after threeCalls .fresh []).map returns =
        [none, some (0, le32 7), some (0, le32 9)] ∧
      ∀ call ∈ Trace.passed Connection.after threeCalls .fresh [], call.1.ReturnsOwn call.2 := by
  have hstart : Trace Connection.Orderly Connection.after .fresh [] .fresh := .start
  have hrun := hstart.follow threeCalls (by decide +kernel)
  exact ⟨by decide +kernel, fun call hcall => (returnsOwn hrun call hcall).1⟩

/-- The answer to the first request is returned for the second. -/
theorem not_returnsOwn :
    ¬ ∀ (past : List (Connection × Attempt)) (s : Connection),
      Trace Connection.Idle Connection.after .fresh past s →
        ∀ call ∈ past, call.1.ReturnsOwn call.2 := by
  intro hall
  have hfirst : Trace Connection.Idle Connection.after .fresh [(.fresh, findA)]
      (Connection.fresh.after findA) := Trace.start.next findA rfl
  have hidle : (Connection.fresh.after findA).Idle findB := rfl
  have hrun := hfirst.next findB hidle
  have hreturned : ((Connection.fresh.after findA).request findB).1 =
      .returned 0 ((Response.of 0 (le32 7) (by decide)).hdr.map fun b => (b, some 1))
        ((le32 7).map fun b => (b, some 1)) := by
    decide +kernel
  have hown := hall _ _ hrun (Connection.fresh.after findA, findB) List.mem_cons_self _ _ _ hreturned
  exact absurd hown.2.1 (by decide +kernel)

end InduRtdb.Monitor
