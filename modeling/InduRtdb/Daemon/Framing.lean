/-
  Daemon/Framing.lean --- what a request consumes and what is sent back.

  Source: `op_*`, `kOps` and `handle_request` of `rtdbd/src/rtdbd.c`.

  Every handler sends one response, whole if the connection stays.  Most have read
  exactly the declared payload by then.
  `op_ping` and `op_audit_dump` read nothing behind the header and do not look at
  the declared length, so what a client declares there is taken for the next
  request.
-/
import InduRtdb.Daemon.Effects

set_option autoImplicit false

namespace InduRtdb.Daemon

open InduRtdb.Core InduRtdb.Api

/-! ## One request -/

/-- A handler that starts at `cx` sends a response, or the beginning of one, and
reads the `size` bytes of its payload if the connection stays. -/
structure Answers (cx : RtdbdCtx) (size : Nat) (r : Fate × RtdbdCtx) : Prop where
  sends : ∃ status payload k, payload.length < 2 ^ 32 ∧
    r.2.sock.output = cx.sock.output ++ (frameBytes status payload).take k ∧
    (r.1 = .keep → k = (frameBytes status payload).length)
  reads : r.1 = .keep → size ≤ cx.sock.input.length ∧ r.2.sock.input = cx.sock.input.drop size

/-- The bytes read behind the header of a request that keeps the connection. -/
def readBehind (req : RtdbdReqHdr) : Nat := if LengthIgnored req.opcode then 0 else req.payloadLen

/-- A decision to keep the connection is taken behind the payload, or behind the
header where the length is ignored. -/
theorem Decided.reads {cx : RtdbdCtx} {reply : Reply} (decided : Decided cx reply)
    (hrefused : reply.refused = false) :
    readBehind cx.req ≤ cx.sock.input.length ∧
      reply.input = cx.sock.input.drop (readBehind cx.req) := by
  have hdeclared : ¬ LengthIgnored cx.req.opcode → cx.Arrived →
      readBehind cx.req ≤ cx.sock.input.length ∧
        cx.left = cx.sock.input.drop (readBehind cx.req) := by
    intro hreads harrived
    rw [readBehind, if_neg hreads]
    exact ⟨harrived, rfl⟩
  cases decided with
  | refused => cases hrefused
  | ignoring opcode =>
      rw [readBehind, if_pos opcode]
      exact ⟨Nat.zero_le _, rfl⟩
  | answered arrived reads => exact hdeclared reads arrived
  | subscribed arrived opcode =>
      refine hdeclared ?_ arrived
      rcases opcode with heq | heq <;> rw [heq] <;> decide
  | selected arrived _ opcode => exact hdeclared (opcode ▸ by decide) arrived
  | wrote arrived _ opcode => exact hdeclared (opcode ▸ by decide) arrived
  | writeFailed arrived opcode => exact hdeclared (opcode ▸ by decide) arrived
  | changed arrived op _ opcode => exact hdeclared (managedOf_reads opcode) arrived
  | changeFailed arrived op opcode => exact hdeclared (managedOf_reads opcode) arrived

/-- The announced length fits its field. -/
theorem Decided.short {cx : RtdbdCtx} {reply : Reply} (decided : Decided cx reply) :
    reply.payload.length < 2 ^ 32 := by
  cases decided with
  | ignoring _ _ short => exact short
  | answered _ _ _ _ _ _ short => exact short
  | _ => exact Nat.two_pow_pos 32

theorem Settles.answers {cx : RtdbdCtx} {r : Fate × RtdbdCtx} (h : Settles cx r) :
    Answers cx (readBehind cx.req) r := by
  obtain ⟨reply, decided, rfl⟩ := h
  obtain ⟨k, room, hsock, hkeep, -⟩ := reply.send_eq cx
  constructor
  · refine ⟨reply.status, reply.payload, k, decided.short, ?_, fun h => (hkeep h).1⟩
    rw [hsock]
  · intro h
    obtain ⟨hle, hinput⟩ := decided.reads (hkeep h).2
    rw [hsock]
    exact ⟨hle, hinput⟩

/-- What is sent by a request that keeps the connection, and what is left to read. -/
theorem handleRequest_keep {d : Rtdbd} {slot : Nat} {sock : Socket} {env : Env}
    (hkeep : (handleRequest d slot sock env).fate = .keep) :
    sizeofHdr + readBehind (headerOf sock.input) ≤ sock.input.length ∧
      (handleRequest d slot sock env).sock.input =
        sock.input.drop (sizeofHdr + readBehind (headerOf sock.input)) ∧
      ∃ status payload, payload.length < 2 ^ 32 ∧
        (handleRequest d slot sock env).sock.output = sock.output ++ frameBytes status payload := by
  rcases Decidable.em (HeaderArrives sock.input) with harrives | hnot
  · obtain ⟨reply, decided, hhandled⟩ := @handleRequest_of_header d slot sock env harrives
    rw [hhandled] at hkeep ⊢
    obtain ⟨⟨status, payload, k, hlen, hout, hall⟩, hreads⟩ := Settles.answers ⟨reply, decided, rfl⟩
    obtain ⟨hle, hinput⟩ := hreads hkeep
    rw [hall hkeep, List.take_length] at hout
    simp only [RtdbdCtx.ofRequest, List.length_drop, List.drop_drop] at hle hinput
    have hlong := harrives.1
    exact ⟨by omega, hinput, status, payload, hlen, hout⟩
  · obtain ⟨st, input, -, hhandled⟩ := @handleRequest_of_not_header d slot sock env hnot
    rw [hhandled] at hkeep
    cases hkeep

/-! ## Requests along a stream -/

/-- What the stream does not decide about a request: the daemon and the place in its
table, how much may be sent, and what is found outside. -/
structure Circumstance where
  d : Rtdbd
  slot : Nat
  room : Option Nat
  env : Env

/-- The request whose header is at offset `n` of a stream. -/
def handledAt (stream : List UInt8) (n : Nat) (c : Circumstance) : Handled :=
  handleRequest c.d c.slot ⟨stream.drop n, c.room, []⟩ c.env

/-- The header at offset `n`. -/
def headerAt (stream : List UInt8) (n : Nat) : RtdbdReqHdr := headerOf (stream.drop n)

/-- The first byte behind the declared payload of the request at offset `n`. -/
def declaredEnd (stream : List UInt8) (n : Nat) : Nat :=
  n + sizeofHdr + (headerAt stream n).payloadLen

/-- The requests handled on a connection that is still open, the last one first,
each with the offset of its header; and the offset of the next header.  Between them
the daemon may have changed in any way. -/
inductive Requests (stream : List UInt8) : List (Nat × Circumstance) → Nat → Prop where
  | start : Requests stream [] 0
  | next {past : List (Nat × Circumstance)} {n : Nat} (run : Requests stream past n)
      (c : Circumstance) (kept : (handledAt stream n c).fate = .keep) :
      Requests stream ((n, c) :: past)
        (stream.length - (handledAt stream n c).sock.input.length)

/-- The offsets at which requests begin, as their headers declare. -/
inductive Boundary (stream : List UInt8) : Nat → Prop where
  | start : Boundary stream 0
  | next {n : Nat} (before : Boundary stream n) : Boundary stream (declaredEnd stream n)

/-- The request at `n` consumes its header and the declared payload, and sends one
response with as many payload bytes as it announces. -/
structure RequestFramed (stream : List UInt8) (n : Nat) (c : Circumstance) : Prop where
  arrived : declaredEnd stream n ≤ stream.length
  consumed : (handledAt stream n c).sock.input = stream.drop (declaredEnd stream n)
  responded : ∃ status payload, payload.length < 2 ^ 32 ∧
    (handledAt stream n c).sock.output = frameBytes status payload

/-- Framing holds along a run: every request is framed and starts at a boundary, and
so does the next one. -/
def StreamFramed (stream : List UInt8) (past : List (Nat × Circumstance)) (n : Nat) : Prop :=
  (∀ r ∈ past, RequestFramed stream r.1 r.2 ∧ Boundary stream r.1) ∧ Boundary stream n

/-- A request that keeps the connection is framed unless its handler ignores a
declared payload. -/
theorem requestFramed_iff {stream : List UInt8} {n : Nat} {c : Circumstance}
    (kept : (handledAt stream n c).fate = .keep) :
    RequestFramed stream n c ↔
      (LengthIgnored (headerAt stream n).opcode → (headerAt stream n).payloadLen = 0) := by
  obtain ⟨hle, hinput, hresponse⟩ := handleRequest_keep kept
  simp only [List.length_drop, List.drop_drop, List.nil_append] at hle hinput hresponse
  constructor
  · intro hframed hignored
    have hbehind : readBehind (headerAt stream n) = 0 := if_pos hignored
    have hlen := congrArg List.length (hinput.symm.trans hframed.consumed)
    have harrived := hframed.arrived
    simp only [List.length_drop, declaredEnd, headerAt] at hlen harrived hbehind ⊢
    omega
  · intro hmet
    have hbehind : readBehind (headerAt stream n) = (headerAt stream n).payloadLen := by
      unfold readBehind
      split
      next hignored => exact (hmet hignored).symm
      next => rfl
    have hend : n + (sizeofHdr + readBehind (headerOf (stream.drop n))) = declaredEnd stream n := by
      rw [show headerOf (stream.drop n) = headerAt stream n from rfl, hbehind, declaredEnd,
        Nat.add_assoc]
    have hhdr : sizeofHdr = 12 := rfl
    refine ⟨?_, ?_, hresponse⟩
    · omega
    · rw [← hend]
      exact hinput

/-- **Framing of requests.**  Along any run, every request is framed, and every header
is read where the payload before it ends, exactly when the two opcodes that ignore the
declared length are sent with an empty payload. -/
theorem streamFramed_iff {stream : List UInt8} {past : List (Nat × Circumstance)} {n : Nat}
    (hrun : Requests stream past n) :
    StreamFramed stream past n ↔
      ∀ r ∈ past, LengthIgnored (headerAt stream r.1).opcode →
        (headerAt stream r.1).payloadLen = 0 := by
  induction hrun with
  | start => exact ⟨fun _ r hr => absurd hr List.not_mem_nil,
      fun _ => ⟨fun r hr => absurd hr List.not_mem_nil, .start⟩⟩
  | @next past n hrun c kept ih =>
      have hlast := requestFramed_iff kept
      constructor
      · intro hframed r hr
        have hthis := hframed.1 r hr
        rcases List.mem_cons.mp hr with rfl | hr
        · exact hlast.mp hthis.1
        · have hbefore : StreamFramed stream past n :=
            ⟨fun r hr => hframed.1 r (List.mem_cons_of_mem _ hr),
              (hframed.1 (n, c) List.mem_cons_self).2⟩
          exact ih.mp hbefore r hr
      · intro hmet
        have hbefore := ih.mpr fun r hr => hmet r (List.mem_cons_of_mem _ hr)
        have hthis := hlast.mpr (hmet (n, c) List.mem_cons_self)
        have hnext : stream.length - (handledAt stream n c).sock.input.length =
            declaredEnd stream n := by
          have harrived := hthis.arrived
          rw [hthis.consumed, List.length_drop]
          omega
        refine ⟨fun r hr => ?_, ?_⟩
        · rcases List.mem_cons.mp hr with rfl | hr
          · exact ⟨hthis, hbefore.2⟩
          · exact hbefore.1 r hr
        · rw [hnext]
          exact .next hbefore.2

/-- A request of a peer whose credentials cannot be read, on a fresh daemon. -/
def strangerOnFresh : Circumstance where
  d := Rtdbd.fresh 16 4 1 ⟨[]⟩
  slot := 0
  room := none
  env := ⟨none, 0, 0⟩

/-- Two pings without a payload. -/
theorem streamFramed_iff_pings :
    StreamFramed (hdrBytes rtdbdOpPing 0 ++ hdrBytes rtdbdOpPing 0)
      [(12, strangerOnFresh), (0, strangerOnFresh)] 24 := by
  have hfirst : Requests (hdrBytes rtdbdOpPing 0 ++ hdrBytes rtdbdOpPing 0)
      [(0, strangerOnFresh)] 12 := .next .start strangerOnFresh (by decide +kernel)
  have hsecond : Requests (hdrBytes rtdbdOpPing 0 ++ hdrBytes rtdbdOpPing 0)
      [(12, strangerOnFresh), (0, strangerOnFresh)] 24 :=
    .next hfirst strangerOnFresh (by decide +kernel)
  exact (streamFramed_iff hsecond).mpr (by decide +kernel)

/-- A ping that declares twelve bytes: they are taken for the next request. -/
theorem not_streamFramed :
    ¬ ∀ (stream : List UInt8) (past : List (Nat × Circumstance)) (n : Nat),
      Requests stream past n → StreamFramed stream past n := by
  intro hframed
  have hrun : Requests (hdrBytes rtdbdOpPing 12 ++ hdrBytes rtdbdOpPing 0)
      [(0, strangerOnFresh)] 12 := .next .start strangerOnFresh (by decide +kernel)
  have hrequest := ((hframed _ _ _ hrun).1 _ List.mem_cons_self).1
  have hmet := (requestFramed_iff (by decide +kernel)).mp hrequest (by decide +kernel)
  revert hmet
  decide +kernel

end InduRtdb.Daemon
