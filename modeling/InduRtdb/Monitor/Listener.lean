/-
  Monitor/Listener.lean --- what the notification listener hears.

  Source: `NotifyListener._loop` and `NotifyListener._recv_exact` of
  `tools/rtdb-monitor/rtdb_client.py`, and the frame of `outq_flush` in
  `rtdbd/src/rtdbd.c`.

  A frame is heard when its last byte has been received.  A time-out ends the loop exactly
  when part of a frame has been received, whichever of the two receives it strikes.  What
  has been received is what the receives made have yielded.
-/
import InduRtdb.Monitor.Receiving
import InduRtdb.Monitor.Values

set_option autoImplicit false

namespace InduRtdb.Monitor

open InduRtdb.Core InduRtdb.Daemon

/-! ## The loop -/

abbrev sizeofNotify : Nat := 32

/-- What `NotifyListener._recv_exact` comes to: the bytes, `socket.timeout`, another
exception, or nothing yet. -/
inductive Exact where
  | bytes (buf : List UInt8)
  | idle
  | failed
  | waiting

/-- A time-out with part of the bytes received is an `RtdbError`. -/
def Recv.exact (r : Recv UInt8) : Exact :=
  match r.ended with
  | .done => .bytes r.buf
  | .timeout => if r.buf = [] then .idle else .failed
  | .closed => .failed
  | .waiting => .waiting

/-- How many bytes of the stream had not been received at the time-out, if there was one. -/
def Recv.timeouts (r : Recv UInt8) : List Nat :=
  if r.ended = .timeout then [r.unread.length] else []

/-- Where the loop is: in a receive, or behind its `break`.  `unfinished` is a loop that was
given too few turns. -/
inductive LoopState where
  | waiting
  | left
  | unfinished
  deriving DecidableEq

/-- The calls of `on_notify`, the bytes of the stream not received, and how many those were
at each time-out. -/
structure Heard where
  calls : List NotifyInfo
  unread : List UInt8
  timeouts : List Nat
  state : LoopState
  deriving DecidableEq

/-- Earlier time-outs are remembered. -/
def Heard.after (later : Heard) (r : Recv UInt8) : Heard :=
  { later with timeouts := r.timeouts ++ later.timeouts }

/-- What `_loop` does with a whole frame. -/
def Heard.afterFrame (later : Heard) (h : Hdr) (body : List UInt8) : Heard :=
  if h.kind = rtdbdOpNotify ∧ h.plen = sizeofNotify then
    { later with calls := unpackNotify body :: later.calls }
  else later

/-- `NotifyListener._loop`, with at most so many turns.  `stop` is an end of the connection:
it closes the socket. -/
def loop : Nat → List Outcome → List UInt8 → Heard
  | 0, _, unread => ⟨[], unread, [], .unfinished⟩
  | turns + 1, outcomes, unread =>
      let hdr := recvLoop sizeofHdr outcomes [] unread
      match hdr.exact with
      | .waiting => ⟨[], hdr.unread, hdr.timeouts, .waiting⟩
      | .idle => (loop turns hdr.outcomes hdr.unread).after hdr
      | .failed => ⟨[], hdr.unread, hdr.timeouts, .left⟩
      | .bytes bytes =>
          let h := Hdr.unpack bytes
          if h.magic ≠ rtdbdMagic ∨ h.version ≠ rtdbdProtoVersion then
            ⟨[], hdr.unread, hdr.timeouts, .left⟩
          else
            let body := recvBody h.plen hdr.outcomes hdr.unread
            match body.exact with
            | .waiting => ⟨[], body.unread, body.timeouts, .waiting⟩
            | .idle => ⟨[], body.unread, body.timeouts, .left⟩
            | .failed => ⟨[], body.unread, body.timeouts, .left⟩
            | .bytes bytes => (loop turns body.outcomes body.unread).afterFrame h bytes

/-- The loop on a stream.  Each turn but the last takes an outcome. -/
def listen (outcomes : List Outcome) (stream : List UInt8) : Heard :=
  loop (outcomes.length + 1) outcomes stream

/-! ## What has been received -/

/-- What a sequence of receives leaves of so many bytes, and how many were left at each
time-out: a receive asks for at least one byte, and yields what its outcome says and no more
than it asks for and than there is. -/
inductive Received : Nat → List Outcome → Nat → List Nat → Prop where
  | nil {left : Nat} : Received left [] left []
  | data {left size asked after : Nat} {more : List Outcome} {timeouts : List Nat}
      (asks : 0 < asked) (later : Received (left - min size asked) more after timeouts) :
      Received left (.data size :: more) after timeouts
  | timeout {left after : Nat} {more : List Outcome} {timeouts : List Nat}
      (later : Received left more after timeouts) :
      Received left (.timeout :: more) after (left :: timeouts)
  | closed {left after : Nat} {more : List Outcome} {timeouts : List Nat}
      (later : Received left more after timeouts) :
      Received left (.closed :: more) after timeouts

theorem Received.append {left between after : Nat} {first second : List Outcome}
    {timeouts timeouts' : List Nat} (h : Received left first between timeouts)
    (h' : Received between second after timeouts') :
    Received left (first ++ second) after (timeouts ++ timeouts') := by
  induction h with
  | nil => exact h'
  | data asks _ ih => exact .data asks (ih h')
  | timeout _ ih => exact .timeout (ih h')
  | closed _ ih => exact .closed (ih h')

/-- The receives that a loop of receives has made. -/
structure Recv.Took (r : Recv UInt8) (outcomes took : List Outcome) (unread : List UInt8) :
    Prop where
  split : outcomes = took ++ r.outcomes
  received : Received unread.length took r.unread.length r.timeouts
  closed : r.ended = .closed → .closed ∈ took

theorem recvLoop_took {n : Nat} : ∀ (outcomes : List Outcome) (buf unread : List UInt8),
    ∃ took, (recvLoop n outcomes buf unread).Took outcomes took unread := by
  intro outcomes
  induction outcomes with
  | nil =>
      intro buf unread
      rw [recvLoop]
      split
      · exact ⟨[], rfl, .nil, RecvEnd.noConfusion⟩
      · exact ⟨[], rfl, .nil, RecvEnd.noConfusion⟩
  | cons outcome more ih =>
      intro buf unread
      cases outcome with
      | timeout =>
          rw [recvLoop]
          split
          · exact ⟨[.timeout], rfl, .timeout .nil, RecvEnd.noConfusion⟩
          · exact ⟨[], rfl, .nil, RecvEnd.noConfusion⟩
      | closed =>
          rw [recvLoop]
          split
          · exact ⟨[.closed], rfl, .closed .nil, fun _ => List.mem_singleton.mpr rfl⟩
          · exact ⟨[], rfl, .nil, RecvEnd.noConfusion⟩
      | data size =>
          rw [recvLoop]
          split
          case isTrue hlt =>
            obtain ⟨took, htook⟩ :=
              ih (buf ++ unread.take (min size (n - buf.length)))
                (unread.drop (min size (n - buf.length)))
            have hreceived := htook.received
            rw [List.length_drop] at hreceived
            exact ⟨.data size :: took, congrArg (.data size :: ·) htook.split,
              .data (Nat.sub_pos_of_lt hlt) hreceived,
              fun h => List.mem_cons_of_mem _ (htook.closed h)⟩
          case isFalse => exact ⟨[], rfl, .nil, RecvEnd.noConfusion⟩

/-! ## The stream -/

/-- A frame on the connection of a listener: the answer to a subscription, or a
notification. -/
inductive Sent where
  | confirmation (status : UInt16)
  | notify (nt : RtdbdNotify)
      (fits : nt.pointId < 2 ^ 32 ∧ nt.timestampNs < 2 ^ 64 ∧ nt.sourceTsNs < 2 ^ 64)

namespace Sent

def bytes : Sent → List UInt8
  | confirmation status => frameBytes status.toNat []
  | notify nt _ => nt.frame

/-- What `on_notify` is to be called with. -/
def info : Sent → Option NotifyInfo
  | confirmation _ => none
  | notify nt _ =>
      some
        { id := nt.pointId
          type := nt.type.toNat
          typeName := typeName nt.type.toNat
          value := decodeValue nt.valueBits.toNat [] nt.type.toNat
          ts := nt.timestampNs
          sourceTs := nt.sourceTsNs }

end Sent

def streamOf (frames : List Sent) : List UInt8 := frames.flatMap Sent.bytes

/-- The frames that are whole within the first `n` bytes. -/
def wholeWithin : List Sent → Nat → List Sent
  | [], _ => []
  | frame :: frames, n =>
      if frame.bytes.length ≤ n then frame :: wholeWithin frames (n - frame.bytes.length) else []

/-- With so many bytes to come, part of a frame has been received and part has not. -/
def InsideFrame : List Sent → Nat → Prop
  | [], _ => False
  | frame :: frames, left =>
      (streamOf frames).length < left ∧ left < frame.bytes.length + (streamOf frames).length ∨
        InsideFrame frames left

/-- What is heard of a stream, by the receives that were made. -/
structure Hears (frames : List Sent) (outcomes taken : List Outcome) (r : Heard) : Prop where
  /-- those are the first of the ones given -/
  takes : taken <+: outcomes
  /-- what they have yielded is received -/
  received : Received (streamOf frames).length taken r.unread.length r.timeouts
  /-- a loop that waits has made them all -/
  waits : r.state = .waiting → taken = outcomes
  /-- the bytes not received are the last ones -/
  unread : r.unread <:+ streamOf frames
  /-- `on_notify` was called for the notifications received as a whole, in order -/
  calls : r.calls =
    (wholeWithin frames ((streamOf frames).length - r.unread.length)).filterMap Sent.info
  /-- which are those of a prefix of the stream -/
  isPrefix : wholeWithin frames ((streamOf frames).length - r.unread.length) <+: frames
  /-- the turns were enough -/
  finished : r.state ≠ .unfinished
  /-- with the connection open and no time-out inside a frame, the loop goes on receiving -/
  stays : .closed ∉ taken → (∀ left ∈ r.timeouts, ¬ InsideFrame frames left) →
    r.state = .waiting

/-! ## Frames -/

theorem streamOf_cons (frame : Sent) (frames : List Sent) :
    streamOf (frame :: frames) = frame.bytes ++ streamOf frames := List.flatMap_cons

/-- The frames that are whole are the first of the stream. -/
theorem wholeWithin_prefix : ∀ (frames : List Sent) (n : Nat), wholeWithin frames n <+: frames := by
  intro frames
  induction frames with
  | nil => exact fun n => List.prefix_rfl
  | cons frame frames ih =>
      intro n
      rw [wholeWithin]
      split
      · exact (List.prefix_cons_inj frame).mpr (ih _)
      · exact List.nil_prefix

/-- A notification is decoded as what it says. -/
theorem unpackNotify_toBytes {nt : RtdbdNotify}
    (fits : nt.pointId < 2 ^ 32 ∧ nt.timestampNs < 2 ^ 64 ∧ nt.sourceTsNs < 2 ^ 64) :
    some (unpackNotify nt.toBytes) = (Sent.notify nt fits).info := by
  have hid : fieldAt nt.toBytes 0 4 = nt.pointId := by
    have hfield : (nt.toBytes.drop 0).take 4 = le32 nt.pointId := rfl
    rw [fieldAt, hfield, ofLe_le32 fits.1]
  have htype : fieldAt nt.toBytes 4 1 = nt.type.toNat := by
    have hfield : (nt.toBytes.drop 4).take 1 = [nt.type] := rfl
    rw [fieldAt, hfield, ofLe, ofLe, Nat.mul_zero, Nat.add_zero]
  have hbits : fieldAt nt.toBytes 8 8 = nt.valueBits.toNat := by
    have hfield : (nt.toBytes.drop 8).take 8 = le64 nt.valueBits.toNat := rfl
    rw [fieldAt, hfield, ofLe_le64, Nat.mod_eq_of_lt nt.valueBits.toNat_lt]
  have hts : fieldAt nt.toBytes 16 8 = nt.timestampNs := by
    have hfield : (nt.toBytes.drop 16).take 8 = le64 nt.timestampNs := rfl
    rw [fieldAt, hfield, ofLe_le64, Nat.mod_eq_of_lt fits.2.1]
  have hsource : fieldAt nt.toBytes 24 8 = nt.sourceTsNs := by
    have hfield : (nt.toBytes.drop 24).take 8 = le64 nt.sourceTsNs := rfl
    rw [fieldAt, hfield, ofLe_le64, Nat.mod_eq_of_lt fits.2.2]
  simp only [unpackNotify, Sent.info, hid, htype, hbits, hts, hsource]

/-- Every frame is a header and the payload it announces. -/
structure Sent.Framed (frame : Sent) (kind : Nat) (payload : List UInt8) : Prop where
  bytes : frame.bytes = hdrBytes kind payload.length ++ payload
  unpack : Hdr.unpack (hdrBytes kind payload.length) = Hdr.of kind payload.length
  /-- it is heard exactly when the loop takes it for a notification -/
  info : frame.info =
    if kind = rtdbdOpNotify ∧ payload.length = sizeofNotify then some (unpackNotify payload)
    else none

theorem Sent.framed (frame : Sent) : ∃ kind payload, frame.Framed kind payload := by
  cases frame with
  | confirmation status =>
      have hempty : ¬ (status.toNat = rtdbdOpNotify ∧ ([] : List UInt8).length = sizeofNotify) :=
        fun h => absurd h.2 (by decide)
      exact ⟨status.toNat, [], rfl, Hdr.unpack_hdrBytes status.toNat_lt (by decide),
        (if_neg hempty).symm⟩
  | notify nt fits =>
      have hsize : nt.toBytes.length = sizeofNotify := nt.length_toBytes
      exact ⟨rtdbdOpNotify, nt.toBytes, rfl,
        Hdr.unpack_hdrBytes (by decide) (by rw [hsize]; decide),
        ((if_pos ⟨rfl, hsize⟩).trans (unpackNotify_toBytes fits)).symm⟩

theorem Sent.Framed.length {frame : Sent} {kind : Nat} {payload : List UInt8}
    (h : frame.Framed kind payload) : frame.bytes.length = sizeofHdr + payload.length := by
  rw [h.bytes, List.length_append]
  rfl

/-! ## What is heard -/

namespace Hears

variable {frame : Sent} {frames : List Sent} {outcomes more took taken : List Outcome} {r : Heard}

/-- Before the first frame has been received as a whole nothing is heard. -/
theorem cut {unread : List UInt8} {timeouts : List Nat} {state : LoopState}
    (hreceived : Received (streamOf frames).length took unread.length timeouts)
    (houtcomes : outcomes = took ++ more) (hwaits : state = .waiting → more = [])
    (hunread : unread <:+ streamOf frames)
    (hcut : ∀ f fs, frames = f :: fs → (streamOf fs).length < unread.length)
    (hfinished : state ≠ .unfinished)
    (hstays : .closed ∉ took → (∀ left ∈ timeouts, ¬ InsideFrame frames left) →
      state = .waiting) : Hears frames outcomes took ⟨[], unread, timeouts, state⟩ where
  takes := houtcomes ▸ List.prefix_append _ _
  received := hreceived
  waits := fun hwaiting => by rw [houtcomes, hwaits hwaiting, List.append_nil]
  unread := hunread
  calls := by
    cases frames with
    | nil => rfl
    | cons f fs =>
        have hlt := hcut f fs rfl
        have hle := hunread.length_le
        rw [streamOf_cons, List.length_append] at hle
        rw [wholeWithin, if_neg]
        · rfl
        · rw [streamOf_cons, List.length_append]
          dsimp only
          omega
  isPrefix := wholeWithin_prefix _ _
  finished := hfinished
  stays := hstays

/-- Behind the first frame the stream goes on. -/
theorem whole {later : Heard} {kind : Nat} {payload : List UInt8}
    (h : Hears frames more taken later)
    (hreceived : Received (streamOf (frame :: frames)).length took (streamOf frames).length [])
    (houtcomes : outcomes = took ++ more) (hframed : frame.Framed kind payload) :
    Hears (frame :: frames) outcomes (took ++ taken)
      (later.afterFrame (Hdr.of kind payload.length) payload) := by
  have hsame : (later.afterFrame (Hdr.of kind payload.length) payload).unread = later.unread ∧
      (later.afterFrame (Hdr.of kind payload.length) payload).timeouts = later.timeouts ∧
      (later.afterFrame (Hdr.of kind payload.length) payload).state = later.state := by
    unfold Heard.afterFrame
    split
    · exact ⟨rfl, rfl, rfl⟩
    · exact ⟨rfl, rfl, rfl⟩
  obtain ⟨hunread, htimeouts, hstate⟩ := hsame
  have hle := h.unread.length_le
  have hread : (streamOf (frame :: frames)).length - later.unread.length =
      frame.bytes.length + ((streamOf frames).length - later.unread.length) := by
    rw [streamOf_cons, List.length_append]
    omega
  refine ⟨?_, ?_, ?_, ?_, ?_, wholeWithin_prefix _ _, ?_, ?_⟩
  · rw [houtcomes]
    exact (List.prefix_append_right_inj took).mpr h.takes
  · rw [hunread, htimeouts]
    exact hreceived.append h.received
  · rw [hstate]
    exact fun hwaiting => by rw [houtcomes, h.waits hwaiting]
  · rw [hunread, streamOf_cons]
    exact h.unread.trans (List.suffix_append _ _)
  · rw [hunread, hread, wholeWithin, if_pos (Nat.le_add_right _ _), Nat.add_sub_cancel_left,
      List.filterMap_cons, hframed.info, ← h.calls]
    unfold Heard.afterFrame
    by_cases hnotify : kind = rtdbdOpNotify ∧ payload.length = sizeofNotify
    · rw [if_pos hnotify]
      exact congrArg Heard.calls (if_pos hnotify)
    · rw [if_neg hnotify]
      exact congrArg Heard.calls (if_neg hnotify)
  · rw [hstate]
    exact h.finished
  · rw [hstate, htimeouts]
    intro hopen hclear
    exact h.stays (fun hin => hopen (List.mem_append_right _ hin))
      fun left hleft hinside => hclear left hleft (.inr hinside)

/-- A time-out between frames changes nothing. -/
theorem idle {recv : Recv UInt8} (h : Hears frames more taken r)
    (hreceived : Received (streamOf frames).length took (streamOf frames).length recv.timeouts)
    (houtcomes : outcomes = took ++ more) : Hears frames outcomes (took ++ taken) (r.after recv)
    where
  takes := by
    rw [houtcomes]
    exact (List.prefix_append_right_inj took).mpr h.takes
  received := hreceived.append h.received
  waits := fun hwaiting => by rw [houtcomes, h.waits hwaiting]
  unread := h.unread
  calls := h.calls
  isPrefix := h.isPrefix
  finished := h.finished
  stays := fun hopen hclear =>
    h.stays (fun hin => hopen (List.mem_append_right _ hin))
      fun left hleft => hclear left (List.mem_append_right _ hleft)

end Hears

/-- A receive that is not done leaves the loop inside the frame it was for. -/
theorem Recv.Sound.inside {r : Recv UInt8} {n : Nat} {outcomes : List Outcome} {payload : List UInt8}
    {frames : List Sent} (h : r.Sound n outcomes [] (payload ++ streamOf frames))
    (hshort : r.ended ≠ .done) (hn : n ≤ payload.length) :
    (streamOf frames).length < r.unread.length ∧
      r.unread.length + r.buf.length = payload.length + (streamOf frames).length := by
  have hlength := congrArg List.length h.bytes
  rw [List.length_append, List.nil_append, List.length_append] at hlength
  have hlt := h.short hshort
  omega

/-- The loop with the header of a frame received. -/
theorem loop_body {frame : Sent} {frames : List Sent} {kind : Nat} {payload : List UInt8}
    (hframed : frame.Framed kind payload) {outcomes took more : List Outcome}
    (hreceived : Received (streamOf (frame :: frames)).length took
      (payload ++ streamOf frames).length [])
    (houtcomes : outcomes = took ++ more) {body : Recv UInt8} {turns : Nat}
    (hbody : body = recvBody (Hdr.of kind payload.length).plen more (payload ++ streamOf frames))
    (hlater : ∀ rest, rest <:+ more →
      ∃ taken, Hears frames rest taken (loop turns rest (streamOf frames))) :
    ∃ taken, Hears (frame :: frames) outcomes taken
      (match body.exact with
      | .waiting => ⟨[], body.unread, body.timeouts, .waiting⟩
      | .idle => ⟨[], body.unread, body.timeouts, .left⟩
      | .failed => ⟨[], body.unread, body.timeouts, .left⟩
      | .bytes bytes =>
          (loop turns body.outcomes body.unread).afterFrame (Hdr.of kind payload.length) bytes) := by
  have hplen : (Hdr.of kind payload.length).plen = payload.length := rfl
  rw [hplen, recvBody] at hbody
  by_cases hempty : payload.length = 0
  · -- nothing is received
    rw [if_pos hempty] at hbody
    subst hbody
    obtain rfl := List.length_eq_zero_iff.mp hempty
    obtain ⟨taken, hhears⟩ := hlater more List.suffix_rfl
    exact ⟨took ++ taken, hhears.whole hreceived houtcomes hframed⟩
  · rw [if_neg hempty] at hbody
    have hsound := recvLoop_sound (n := payload.length) more [] (payload ++ streamOf frames)
      (Nat.zero_le _)
    have hdone := @recvLoop_done _ payload.length more (payload ++ streamOf frames)
    obtain ⟨took', htook⟩ :=
      recvLoop_took (n := payload.length) more [] (payload ++ streamOf frames)
    rw [← hbody] at hsound hdone htook
    have hboth := hreceived.append htook.received
    rw [List.nil_append] at hboth
    have hsplit : outcomes = took ++ took' ++ body.outcomes := by
      rw [houtcomes, htook.split, List.append_assoc]
    have hunread : body.unread <:+ streamOf (frame :: frames) := by
      refine (List.suffix_append body.buf body.unread).trans ?_
      rw [hsound.bytes, List.nil_append, streamOf_cons, hframed.bytes, List.append_assoc]
      exact List.suffix_append _ _
    have hcut : body.ended ≠ .done → ∀ f fs, frame :: frames = f :: fs →
        (streamOf fs).length < body.unread.length := by
      intro hshort f fs heq
      obtain ⟨rfl, rfl⟩ := List.cons.inj heq
      exact (hsound.inside hshort (Nat.le_refl _)).1
    obtain ⟨buf, ended, unread, rest⟩ := body
    cases ended with
    | waiting =>
        exact ⟨_, .cut hboth hsplit (fun _ => hsound.waiting rfl) hunread (hcut nofun) nofun
          fun _ _ => rfl⟩
    | closed =>
        refine ⟨_, .cut hboth hsplit nofun hunread (hcut nofun) nofun fun hopen _ => ?_⟩
        exact absurd (List.mem_append_right _ (htook.closed rfl)) hopen
    | timeout =>
        -- behind the header every time-out is inside the frame
        have hinside : InsideFrame (frame :: frames) unread.length := by
          obtain ⟨hlt, hsum⟩ := hsound.inside (by exact nofun) (Nat.le_refl _)
          refine .inl ⟨hlt, ?_⟩
          rw [hframed.length]
          simp only [sizeofHdr] at hsum ⊢
          omega
        have hcutOff : Hears (frame :: frames) outcomes (took ++ took')
            ⟨[], unread, [unread.length], .left⟩ :=
          .cut hboth hsplit nofun hunread (hcut nofun) nofun fun _ hclear =>
            absurd hinside (hclear _ List.mem_cons_self)
        rcases buf with - | ⟨b, buf⟩
        · exact ⟨_, hcutOff⟩
        · exact ⟨_, hcutOff⟩
    | done =>
        obtain ⟨hbuf, hrest, -⟩ := hdone rfl
        rw [List.take_left' rfl] at hbuf
        rw [List.drop_left' rfl] at hrest
        dsimp only at hbuf hrest
        subst hbuf hrest
        obtain ⟨taken, hhears⟩ := hlater rest hsound.suffix
        exact ⟨_, hhears.whole hboth hsplit hframed⟩

/-- Every turn hears what has been received. -/
theorem loop_hears : ∀ (turns : Nat) (outcomes : List Outcome) (frames : List Sent),
    outcomes.length < turns →
      ∃ taken, Hears frames outcomes taken (loop turns outcomes (streamOf frames)) := by
  intro turns
  induction turns with
  | zero => exact fun _ _ h => absurd h (Nat.not_lt_zero _)
  | succ turns ih =>
      intro outcomes frames hturns
      have hsound := recvLoop_sound (n := sizeofHdr) outcomes [] (streamOf frames) (Nat.zero_le _)
      have hdone := @recvLoop_done _ sizeofHdr outcomes (streamOf frames)
      obtain ⟨took, htook⟩ := recvLoop_took (n := sizeofHdr) outcomes [] (streamOf frames)
      rw [loop]
      generalize recvLoop sizeofHdr outcomes [] (streamOf frames) = hdr at hsound hdone htook ⊢
      have hunread : hdr.unread <:+ streamOf frames := by
        refine (List.suffix_append hdr.buf hdr.unread).trans ?_
        rw [hsound.bytes, List.nil_append]
      have hcut : hdr.ended ≠ .done → ∀ f fs, frames = f :: fs →
          (streamOf fs).length < hdr.unread.length := by
        intro hshort f fs heq
        obtain ⟨kind, payload, hframed⟩ := f.framed
        rw [heq, streamOf_cons] at hsound
        have hlength := hframed.length
        exact (hsound.inside hshort (by omega)).1
      obtain ⟨hsplit, hreceived, hclosed⟩ := htook
      obtain ⟨buf, ended, unread, more⟩ := hdr
      cases ended with
      | waiting =>
          exact ⟨took, .cut hreceived hsplit (fun _ => hsound.waiting rfl) hunread (hcut nofun)
            nofun fun _ _ => rfl⟩
      | closed =>
          refine ⟨took, .cut hreceived hsplit nofun hunread (hcut nofun) nofun fun hopen _ => ?_⟩
          exact absurd (hclosed rfl) hopen
      | timeout =>
          have hfewer : more.length < outcomes.length :=
            hsound.moves (by decide) (by exact nofun)
          rcases buf with - | ⟨b, buf⟩
          · -- between two frames: the loop goes on
            have hsame : unread = streamOf frames := hsound.bytes
            subst hsame
            obtain ⟨taken, hhears⟩ := ih more frames (by omega)
            exact ⟨took ++ taken, hhears.idle hreceived hsplit⟩
          · -- inside the header: the loop is left
            refine ⟨took, .cut hreceived hsplit nofun hunread (hcut nofun) nofun
              fun _ hclear => ?_⟩
            refine absurd ?_ (hclear unread.length List.mem_cons_self)
            have hlength := congrArg List.length hsound.bytes
            rw [List.length_append, List.length_cons, List.nil_append] at hlength
            cases frames with
            | nil => exact absurd hlength (by simp [streamOf])
            | cons f fs =>
                rw [streamOf_cons, List.length_append] at hlength
                have hlt : (streamOf fs).length < unread.length := hcut nofun f fs rfl
                have hlength : unread.length + (buf.length + 1) =
                    f.bytes.length + (streamOf fs).length := (Nat.add_comm _ _).trans hlength
                exact .inl ⟨hlt, by omega⟩
      | done =>
          obtain ⟨hbuf, hrest, hlong⟩ := hdone rfl
          have hfewer : more.length < outcomes.length :=
            hsound.moves (by decide) (by exact nofun)
          cases frames with
          | nil => exact absurd hlong (by decide)
          | cons frame frames =>
              obtain ⟨kind, payload, hframed⟩ := frame.framed
              have hstream : streamOf (frame :: frames) =
                  hdrBytes kind payload.length ++ (payload ++ streamOf frames) := by
                rw [streamOf_cons, hframed.bytes, List.append_assoc]
              rw [hstream] at hbuf hrest
              have hhdr : (hdrBytes kind payload.length).length = sizeofHdr := rfl
              rw [List.take_left' hhdr] at hbuf
              rw [List.drop_left' hhdr] at hrest
              dsimp only at hbuf hrest
              subst hbuf hrest
              have hmatch : ¬ ((Hdr.of kind payload.length).magic ≠ rtdbdMagic ∨
                  (Hdr.of kind payload.length).version ≠ rtdbdProtoVersion) :=
                fun h => h.elim (fun h => h rfl) fun h => h rfl
              dsimp only [Recv.exact]
              rw [hframed.unpack, if_neg hmatch]
              refine loop_body hframed hreceived hsplit rfl fun rest hsuffix => ih rest frames ?_
              have hle : rest.length ≤ more.length := hsuffix.length_le
              omega

/-! ## The listener -/

/-- **Neither missed nor invented.**  Whatever frames are sent and however they are received,
the listener calls `on_notify` for those received as a whole, and goes on as long as it can. -/
theorem listen_hears (frames : List Sent) (outcomes : List Outcome) :
    ∃ taken, Hears frames outcomes taken (listen outcomes (streamOf frames)) :=
  loop_hears _ outcomes frames (Nat.lt_succ_self _)

/-- A notification of point 3. -/
def changed (value : UInt64) (now : Nat) (hnow : now < 2 ^ 64) : Sent :=
  .notify ⟨3, 1, value, now, 0⟩
    ⟨(by decide : 3 < 2 ^ 32), hnow, (by decide : 0 < 2 ^ 64)⟩

/-- The answer to a subscription and two notifications. -/
def threeFrames : List Sent :=
  [.confirmation 0, changed 7 100 (by decide), changed 8 200 (by decide)]

/-- Receives with a time-out before, between and inside frames. -/
def withPauses : List Outcome :=
  [.timeout, .data 12, .timeout, .data 5, .data 100, .data 20, .data 12, .timeout, .data 12,
    .data 3, .timeout, .data 29]

/-- The time-outs at 56 bytes received and before do no harm; the one at 71 ends the loop,
and the last receive is not made. -/
theorem listen_hears_threeFrames :
    (∃ taken, Hears threeFrames withPauses taken (listen withPauses (streamOf threeFrames))) ∧
      listen withPauses (streamOf threeFrames) =
        { calls := [⟨3, 1, "int32", .int 7, 100, 0⟩]
          unread := (streamOf threeFrames).drop 71
          timeouts := [100, 88, 44, 29]
          state := .left } :=
  ⟨listen_hears threeFrames withPauses, by decide +kernel⟩

end InduRtdb.Monitor
