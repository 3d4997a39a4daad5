/-
  Client/Place.lean --- where a session stands in its response stream.

  Source: `rt_submit`, `irtcli_list_in`, `submit_one`, `write_entry` and
  `irtcli_flush` of `client/src/client.c`.

  A call finds its connection with nothing left to read, or makes a new one.  If it
  reads its response to the end, or gives the connection up, the next call finds the
  same.  The argument is made once, for every other end, and carries along what the
  other end knows of the selected partition.
-/
import InduRtdb.Client.Irtcli

set_option autoImplicit false

namespace InduRtdb.Client

open InduRtdb.Core InduRtdb.Daemon

/-! ## What a receive path reads -/

/-- How much the receive path reads behind this header. -/
def Path.rest (path : Path) (resp : RtdbdRespHdr) : Nat :=
  match path with
  | .write => 0
  | .rewrite => 0
  | .fixed _ respLen => if resp.Succeeds then respLen else 0
  | .list cap => if resp.Succeeds ∧ resp.points ≤ cap then resp.points * sizeofPointInfo else 0

/-- What arrives is read to its end.  Where the request is not taken, the connection is
given up, except by the second attempt of a flush. -/
def Exchange.Consumed (x : Exchange) : Prop :=
  if x.arrival.sends then
    x.arrival.bytes.length ≤ sizeofHdr + x.path.rest (.ofBytes x.arrival.bytes)
  else x.path = .rewrite → x.arrival.bytes = []

instance (x : Exchange) : Decidable x.Consumed :=
  inferInstanceAs (Decidable
    (if x.arrival.sends = true then
      x.arrival.bytes.length ≤ sizeofHdr + x.path.rest (.ofBytes x.arrival.bytes)
    else x.path = .rewrite → x.arrival.bytes = []))

/-- The server has handled the request in the partition of the client, if at all. -/
def Exchange.Agreed (x : Exchange) : Prop :=
  ∀ partition, x.arrival.seen = some partition → partition = x.partition

instance (x : Exchange) : Decidable x.Agreed :=
  match hseen : x.arrival.seen with
  | none => .isTrue fun partition h => by rw [hseen] at h; cases h
  | some partition =>
      decidable_of_iff (partition = x.partition)
        ⟨fun heq _ h => by rw [hseen] at h; exact Option.some.inj h ▸ heq,
          fun h => h partition hseen⟩

/-- The header was read from the start of the response to its request. -/
def HeaderRead.Own (r : HeaderRead) : Prop :=
  r.origins = (List.range sizeofHdr).map fun i => ⟨r.request, i⟩

instance (r : HeaderRead) : Decidable r.Own := inferInstanceAs (Decidable (_ = _))

/-- The opcodes with an answer of fixed length, and that length. -/
abbrev fixedAnswers : List (Nat × Nat) :=
  [(rtdbdOpFindByName, sizeofWord), (rtdbdOpSelect, 0), (rtdbdOpGetMeta, 32), (rtdbdOpSetMeta, 0)]

/-- The opcode a receive path belongs to. -/
def Path.Sends (path : Path) (opcode : Nat) : Prop :=
  match path with
  | .write => opcode = rtdbdOpWrite
  | .rewrite => opcode = rtdbdOpWrite
  | .fixed opcode' respLen => opcode = opcode' ∧ (opcode', respLen) ∈ fixedAnswers
  | .list _ => opcode = rtdbdOpList

/-! ## Tagged bytes -/

@[simp] theorem length_tagged (request : Nat) (bytes : List UInt8) :
    (tagged request bytes).length = bytes.length := List.length_mapIdx

/-- The bytes of the header are those of the response. -/
theorem tagged_bytes (request : Nat) (bytes : List UInt8) :
    ((tagged request bytes).take sizeofHdr).map (·.1) = bytes.take sizeofHdr := by
  refine List.ext_getElem (by simp) fun i hi hi' => ?_
  simp [tagged]

/-- The bytes of the header are the first ones of the response. -/
theorem tagged_origins (request : Nat) {bytes : List UInt8} (hlen : sizeofHdr ≤ bytes.length) :
    ((tagged request bytes).take sizeofHdr).map (·.2) =
      (List.range sizeofHdr).map fun i => ⟨request, i⟩ := by
  refine List.ext_getElem (by simpa using hlen) fun i hi hi' => ?_
  simp [tagged]

/-- A field of the header is read from the first twelve bytes. -/
theorem fieldAt_take {bytes : List UInt8} {n offset size : Nat} (hfits : offset + size ≤ n) :
    fieldAt (bytes.take n) offset size = fieldAt bytes offset size := by
  rw [fieldAt, fieldAt, List.drop_take, List.take_take, Nat.min_eq_left (by omega)]

@[simp] theorem RtdbdRespHdr.ofBytes_take (bytes : List UInt8) :
    RtdbdRespHdr.ofBytes (bytes.take sizeofHdr) = .ofBytes bytes := by
  unfold RtdbdRespHdr.ofBytes
  rw [fieldAt_take (by decide), fieldAt_take (by decide), fieldAt_take (by decide),
    fieldAt_take (by decide)]

/-! ## One request -/

variable {σ : Type}

namespace Session

/-- Everything that can come of a request where nothing is left to read. -/
inductive Asked (L : Line σ) (s : Session σ) (path : Path) (opcode : Nat)
    (payload : List UInt8) : Option RtdbdRespHdr × Session σ → Prop where
  | unsent (line : σ) (arrival : Arrival) (request : L.request s.line opcode payload =
        (arrival, line)) (sends : arrival.sends = false) :
      Asked L s path opcode payload
        (none,
          { s with
            line := line
            unread := tagged (s.log.length + 1) arrival.bytes
            log := s.log ++ [⟨path, opcode, payload, arrival, s.c.partition⟩] })
  | lost (line : σ) (arrival : Arrival) (request : L.request s.line opcode payload =
        (arrival, line)) (sends : arrival.sends = true)
      (short : arrival.bytes.length < sizeofHdr) :
      Asked L s path opcode payload
        (none,
          { s with
            line := L.lose line
            unread := []
            log := s.log ++ [⟨path, opcode, payload, arrival, s.c.partition⟩] })
  | answered (line : σ) (arrival : Arrival) (request : L.request s.line opcode payload =
        (arrival, line)) (sends : arrival.sends = true)
      (long : sizeofHdr ≤ arrival.bytes.length) :
      Asked L s path opcode payload
        (some (.ofBytes arrival.bytes),
          { s with
            line := line
            unread := (tagged (s.log.length + 1) arrival.bytes).drop sizeofHdr
            log := s.log ++ [⟨path, opcode, payload, arrival, s.c.partition⟩]
            reads := s.reads ++
              [⟨s.log.length + 1, (List.range sizeofHdr).map fun i => ⟨s.log.length + 1, i⟩,
                .ofBytes arrival.bytes⟩] })

theorem asked (L : Line σ) {s : Session σ} (hunread : s.unread = []) (path : Path) (opcode : Nat)
    (payload : List UInt8) : Asked L s path opcode payload (s.ask L path opcode payload) := by
  obtain ⟨⟨arrival, line⟩, hrequest⟩ : ∃ r, L.request s.line opcode payload = r := ⟨_, rfl⟩
  simp only [ask, sendRequest, hrequest, hunread, List.nil_append]
  cases hsends : arrival.sends with
  | false => exact .unsent line arrival hrequest hsends
  | true =>
      simp only [recvHeader, recvAll, length_tagged]
      rcases Nat.lt_or_ge arrival.bytes.length sizeofHdr with hshort | hlong
      · rw [if_neg (Nat.not_le.mpr hshort)]
        exact .lost line arrival hrequest hsends hshort
      · rw [if_pos hlong]
        simp only [tagged_bytes, tagged_origins _ hlong, RtdbdRespHdr.ofBytes_take,
          List.length_append, List.length_singleton]
        exact .answered line arrival hrequest hsends hlong

end Session

/-! ## Standing in the stream -/

/-- The other end keeps `J` between its state and the partition of the client: a
connect made in a partition of `K` sets it up; a request keeps it and is handled in
that partition; a `SELECT` that succeeds moves it.  On the paths outside `D` its
answers have the length that is read. -/
structure Line.Keeps (L : Line σ) (J : σ → UInt32 → Prop) (K : UInt32 → Prop)
    (D : Path → Prop) : Prop where
  connect : ∀ l fd l' p, L.connect l = (some fd, l') → K p → J l' p
  lose : ∀ l p, J l p → J (L.lose l) p
  seen : ∀ l opcode payload p, J l p →
    ∀ partition, (L.request l opcode payload).1.seen = some partition → partition = p
  stays : ∀ l path opcode payload p, J l p → Path.Sends path opcode → opcode ≠ rtdbdOpSelect →
    J (L.request l opcode payload).2 p
  selects : ∀ l p q, J l p →
    sizeofHdr ≤ (L.request l rtdbdOpSelect (le32 q.toNat)).1.bytes.length →
      J (L.request l rtdbdOpSelect (le32 q.toNat)).2
        (if (RtdbdRespHdr.ofBytes
            (L.request l rtdbdOpSelect (le32 q.toNat)).1.bytes).Succeeds then q else p)
  fits : ∀ l path opcode payload p, J l p → path.Sends opcode → ¬ D path →
    (⟨path, opcode, payload, (L.request l opcode payload).1, p⟩ : Exchange).Consumed

namespace Session

/-- Every header was the right one, and every request was handled in the right
partition. -/
structure Sound (s : Session σ) : Prop where
  headers : ∀ r, r ∈ s.reads → r.Own
  agreed : ∀ x, x ∈ s.log → x.Agreed

/-- Nothing is left to read. -/
structure Ready (J : σ → UInt32 → Prop) (s : Session σ) : Prop where
  unread : s.unread = []
  line : J s.line s.c.partition

/-- A connection is ready for the next request. -/
structure Placed (J : σ → UInt32 → Prop) (s : Session σ) : Prop extends s.Sound where
  ready : s.c.connected = true → s.Ready J

/-- What is asked of the steps of a session. -/
structure Fits (K : UInt32 → Prop) (D : Path → Prop) (s : Session σ) : Prop where
  consumed : ∀ x, x ∈ s.log → D x.path → x.Consumed
  connects : ∀ p, p ∈ s.connects → K p

/-- The later session remembers what the earlier one does. -/
structure Extends (s s' : Session σ) : Prop where
  log : s.log <+: s'.log
  connects : s.connects <+: s'.connects

/-- Steps that fit lead from one placed session to another. -/
structure Leads (J : σ → UInt32 → Prop) (K : UInt32 → Prop) (D : Path → Prop)
    (s s' : Session σ) : Prop extends s.Extends s' where
  placed : s'.Fits K D → s.Placed J → s'.Placed J

variable {L : Line σ} {J : σ → UInt32 → Prop} {K : UInt32 → Prop} {D : Path → Prop}
  {s s' s'' : Session σ}

theorem Extends.refl (s : Session σ) : s.Extends s := ⟨List.prefix_rfl, List.prefix_rfl⟩

theorem Extends.trans (h : s.Extends s') (h' : s'.Extends s'') : s.Extends s'' :=
  ⟨h.log.trans h'.log, h.connects.trans h'.connects⟩

theorem Extends.fits (h : s.Extends s') (hfits : s'.Fits K D) : s.Fits K D :=
  ⟨fun x hx => hfits.consumed x (h.log.subset hx),
    fun p hp => hfits.connects p (h.connects.subset hp)⟩

theorem Leads.refl (s : Session σ) : Leads J K D s s := ⟨.refl s, fun _ h => h⟩

theorem Leads.trans (h : Leads J K D s s') (h' : Leads J K D s' s'') : Leads J K D s s'' :=
  ⟨h.toExtends.trans h'.toExtends,
    fun hfits hplaced => h'.placed hfits (h.placed (h'.toExtends.fits hfits) hplaced)⟩

/-- A session without a connection has nothing to be ready for. -/
theorem Sound.placed (h : s.Sound) (hdown : s.c.connected = false) : s.Placed J :=
  ⟨h, fun hup => by rw [hdown] at hup; cases hup⟩

theorem hangUp_down (s : Session σ) : s.hangUp.c.connected = false := by
  unfold hangUp
  split
  next => rfl
  next hfd => exact Bool.eq_false_iff.mpr fun hup => hfd (s.c.fd_nonneg hup)

/-- Hanging up changes the connection only. -/
theorem hangUp_kept (s : Session σ) :
    s.hangUp.log = s.log ∧ s.hangUp.reads = s.reads ∧ s.hangUp.connects = s.connects ∧
      s.hangUp.c.partition = s.c.partition ∧ s.hangUp.line = s.line := by
  unfold hangUp
  split
  · exact ⟨rfl, rfl, rfl, rfl, rfl⟩
  · exact ⟨rfl, rfl, rfl, rfl, rfl⟩

/-- Giving the connection up, or changing what is not the connection, leads on. -/
theorem Leads.of_down (hlog : s'.log = s.log) (hreads : s'.reads = s.reads)
    (hconnects : s'.connects = s.connects) (hdown : s'.c.connected = false) :
    Leads J K D s s' where
  log := hlog ▸ List.prefix_rfl
  connects := hconnects ▸ List.prefix_rfl
  placed := fun _ hplaced =>
    Sound.placed ⟨hreads ▸ hplaced.headers, hlog ▸ hplaced.agreed⟩ hdown

/-- A connect makes a connection that is ready, or leaves none. -/
theorem connect_leads (hL : L.Keeps J K D) (s : Session σ) :
    Leads J K D s (s.connect L).2 ∧
      ((s.connect L).1 = .ok ∧ (s.connect L).2.c.connected = true ∨
        (s.connect L).1 = .errIo ∧ (s.connect L).2.c.connected = false) := by
  obtain ⟨hlog, hreads, hconnects, hpartition, hline⟩ := s.hangUp_kept
  unfold connect
  dsimp only
  rw [hline]
  obtain ⟨⟨fd, line⟩, hconnect⟩ : ∃ r, L.connect s.line = r := ⟨_, rfl⟩
  rw [hconnect]
  cases fd with
  | none =>
      exact ⟨.of_down hlog hreads hconnects s.hangUp_down, .inr ⟨rfl, s.hangUp_down⟩⟩
  | some fd =>
      refine ⟨⟨⟨?_, ?_⟩, fun hfits hplaced => ⟨⟨?_, ?_⟩, fun _ => ⟨rfl, ?_⟩⟩⟩, .inl ⟨rfl, rfl⟩⟩
      · exact hlog ▸ List.prefix_rfl
      · exact hconnects ▸ List.prefix_append _ _
      · exact hreads ▸ hplaced.headers
      · exact hlog ▸ hplaced.agreed
      · refine hL.connect _ _ _ _ hconnect (hfits.connects _ ?_)
        exact List.mem_append_right _ (List.mem_singleton.mpr rfl)

theorem connect_partition (s : Session σ) :
    (s.connect L).2.c.partition = s.c.partition := by
  obtain ⟨-, -, -, hpartition, -⟩ := s.hangUp_kept
  unfold connect
  dsimp only
  split
  · exact hpartition
  · exact hpartition

/-- Before a request there is a connection, or the call gives up. -/
theorem ensureConnected_leads (hL : L.Keeps J K D) (s : Session σ) :
    Leads J K D s (s.ensureConnected L).2 ∧
      (s.ensureConnected L).2.c.connected = (s.ensureConnected L).1 ∧
      (s.ensureConnected L).2.c.partition = s.c.partition := by
  unfold ensureConnected
  split
  next hup => exact ⟨.refl s, hup, rfl⟩
  next =>
    obtain ⟨hleads, hresult⟩ := connect_leads hL s
    have hpartition : (s.connect L).2.c.partition = s.c.partition := s.connect_partition
    generalize s.connect L = r at hleads hresult hpartition ⊢
    obtain ⟨rc, s'⟩ := r
    obtain ⟨rfl, hup⟩ | ⟨rfl, hdown⟩ := hresult
    · exact ⟨hleads, hup, hpartition⟩
    · exact ⟨hleads, hdown, hpartition⟩

/-! ## Receive paths -/

/-- A request on a connection that is ready leaves the record sound. -/
theorem ask_sound (hL : L.Keeps J K D) (hsound : s.Sound) (hready : s.Ready J) (path : Path)
    (opcode : Nat) (payload : List UInt8) : (s.ask L path opcode payload).2.Sound := by
  have hasked := asked L hready.unread path opcode payload
  have hagreed : ∀ line arrival, L.request s.line opcode payload = (arrival, line) →
      ∀ x, x ∈ s.log ++ [⟨path, opcode, payload, arrival, s.c.partition⟩] → x.Agreed := by
    intro line arrival hrequest x hx
    rcases List.mem_append.mp hx with hx | hx
    · exact hsound.agreed x hx
    · obtain rfl := List.mem_singleton.mp hx
      have hseen := hL.seen s.line opcode payload s.c.partition hready.line
      rw [hrequest] at hseen
      exact hseen
  generalize s.ask L path opcode payload = r at hasked ⊢
  cases hasked with
  | unsent line arrival hrequest => exact ⟨hsound.headers, hagreed line arrival hrequest⟩
  | lost line arrival hrequest => exact ⟨hsound.headers, hagreed line arrival hrequest⟩
  | answered line arrival hrequest =>
      refine ⟨fun r hr => ?_, hagreed line arrival hrequest⟩
      rcases List.mem_append.mp hr with hr | hr
      · exact hsound.headers r hr
      · obtain rfl := List.mem_singleton.mp hr
        rfl

/-- The request of a receive path fits, by what is asked or by what the other end
keeps. -/
theorem consumed_of_fits (hL : L.Keeps J K D) (hready : s.Ready J) {path : Path} {opcode : Nat}
    {payload : List UInt8} (hsends : path.Sends opcode) {line : σ} {arrival : Arrival}
    (hrequest : L.request s.line opcode payload = (arrival, line)) (hfits : s'.Fits K D)
    (hlog : s'.log = s.log ++ [⟨path, opcode, payload, arrival, s.c.partition⟩]) :
    (⟨path, opcode, payload, arrival, s.c.partition⟩ : Exchange).Consumed := by
  rcases Classical.em (D path) with hD | hD
  · refine hfits.consumed _ ?_ hD
    rw [hlog]
    exact List.mem_append_right _ (List.mem_singleton.mpr rfl)
  · have hconsumed := hL.fits s.line path opcode payload s.c.partition hready.line hsends hD
    rw [hrequest] at hconsumed
    exact hconsumed

/-- A request is remembered, and the client is as it was. -/
theorem ask_kept (s : Session σ) (path : Path) (opcode : Nat) (payload : List UInt8) :
    (s.ask L path opcode payload).2.c = s.c ∧
      (s.ask L path opcode payload).2.connects = s.connects ∧
      (s.ask L path opcode payload).2.log =
        s.log ++ [⟨path, opcode, payload, (L.request s.line opcode payload).1, s.c.partition⟩] := by
  unfold ask sendRequest
  dsimp only
  split
  next heq =>
    obtain ⟨-, rfl⟩ := Prod.mk.inj heq
    exact ⟨rfl, rfl, rfl⟩
  next heq =>
    obtain ⟨-, rfl⟩ := Prod.mk.inj heq
    unfold recvHeader recvAll
    dsimp only
    split
    next heq =>
      split at heq
      · cases heq
      · obtain ⟨-, rfl⟩ := Prod.mk.inj heq
        exact ⟨rfl, rfl, rfl⟩
    next heq =>
      split at heq
      · obtain ⟨-, rfl⟩ := Prod.mk.inj heq
        exact ⟨rfl, rfl, rfl⟩
      · cases heq

theorem ask_extends (s : Session σ) (path : Path) (opcode : Nat) (payload : List UInt8) :
    s.Extends (s.ask L path opcode payload).2 := by
  obtain ⟨-, hconnects, hlog⟩ := s.ask_kept path opcode payload
  exact ⟨hlog ▸ List.prefix_append _ _, hconnects ▸ List.prefix_rfl⟩

/-- A request whose connection is then given up leads on. -/
theorem ask_leads (hL : L.Keeps J K D) (hup : s.c.connected = true) (path : Path) (opcode : Nat)
    (payload : List UInt8) :
    Leads J K D s (s.ask L path opcode payload).2.disconnected :=
  ⟨⟨(s.ask_extends path opcode payload).log, (s.ask_extends path opcode payload).connects⟩,
    fun _ hplaced =>
      have hsound := ask_sound hL hplaced.toSound (hplaced.ready hup) path opcode payload
      Sound.placed ⟨hsound.headers, hsound.agreed⟩ rfl⟩

/-- `submit_one` is a request; it fails when no header arrives. -/
theorem submitOne_ask (s : Session σ) (path : Path) (e : IrtcliEntry) :
    (s.submitOne L path e).2 = (s.ask L path rtdbdOpWrite e.toBytes).2 ∧
      ((s.submitOne L path e).1 = .errIo ↔ (s.ask L path rtdbdOpWrite e.toBytes).1 = none) := by
  unfold submitOne
  split
  next heq => rw [heq]; exact ⟨rfl, iff_of_true rfl rfl⟩
  next resp s' heq =>
    rw [heq]
    split
    · exact ⟨rfl, iff_of_false (fun h => by cases h) (Option.some_ne_none _)⟩
    · split
      · exact ⟨rfl, iff_of_false (fun h => by cases h) (Option.some_ne_none _)⟩
      · split
        · exact ⟨rfl, iff_of_false (fun h => by cases h) (Option.some_ne_none _)⟩
        · exact ⟨rfl, iff_of_false (fun h => by cases h) (Option.some_ne_none _)⟩

/-- A submission leads on where its connection is given up, and where it has an answer;
the second attempt leads on in any case. -/
theorem submitOne_leads (hL : L.Keeps J K D) (hup : s.c.connected = true) {path : Path}
    (hpath : path = .write ∨ path = .rewrite) (e : IrtcliEntry) :
    Leads J K D s (s.submitOne L path e).2.disconnected ∧
      (((s.submitOne L path e).1 = .errIo → path = .rewrite) →
        Leads J K D s (s.submitOne L path e).2) := by
  obtain ⟨hstate, hfails⟩ := s.submitOne_ask path e
  have hsends : path.Sends rtdbdOpWrite := by rcases hpath with rfl | rfl <;> rfl
  have hrest : ∀ resp, path.rest resp = 0 := by
    intro resp
    rcases hpath with rfl | rfl <;> rfl
  rw [hstate, hfails]
  refine ⟨ask_leads hL hup path rtdbdOpWrite e.toBytes, fun hanswer => ?_⟩
  refine ⟨s.ask_extends path rtdbdOpWrite e.toBytes, fun hfits hplaced => ?_⟩
  have hready := hplaced.ready hup
  have hsound := ask_sound hL hplaced.toSound hready path rtdbdOpWrite e.toBytes
  refine ⟨hsound, fun _ => ?_⟩
  have hconsumed := fun line arrival hrequest =>
    @consumed_of_fits _ _ _ _ _ _ _ hL hready path _ e.toBytes hsends line arrival hrequest hfits
  have hstays := hL.stays s.line path rtdbdOpWrite e.toBytes s.c.partition hready.line hsends
    (by decide)
  have hasked := asked L hready.unread path rtdbdOpWrite e.toBytes
  generalize s.ask L path rtdbdOpWrite e.toBytes = r at hanswer hconsumed hasked ⊢
  cases hasked with
  | unsent line arrival hrequest hnot =>
      have hall := hconsumed line arrival hrequest rfl
      rw [Exchange.Consumed, if_neg (by simp [hnot])] at hall
      rw [hrequest] at hstays
      refine ⟨?_, hstays⟩
      rw [hall (hanswer rfl)]
      rfl
  | lost line arrival hrequest =>
      rw [hrequest] at hstays
      exact ⟨rfl, hL.lose _ _ hstays⟩
  | answered line arrival hrequest hsent =>
      have hall := hconsumed line arrival hrequest rfl
      rw [Exchange.Consumed, if_pos hsent, hrest] at hall
      rw [hrequest] at hstays
      exact ⟨List.drop_eq_nil_of_le (by simpa using hall), hstays⟩

/-- A receive path that has its header leads on, if it reads the rest of a response that
fits, or gives the connection up, and the other end has followed it. -/
theorem answered_leads (hL : L.Keeps J K D) (hup : s.c.connected = true) {path : Path}
    {opcode : Nat} {payload : List UInt8} (hsends : path.Sends opcode) {resp : RtdbdRespHdr}
    (hask : s.ask L path opcode payload = (some resp, s')) (hlog : s''.log = s'.log)
    (hreads : s''.reads = s'.reads) (hconnects : s''.connects = s'.connects)
    (hrest : s''.c.connected = true → s'.unread.length ≤ path.rest resp →
      s''.unread = [] ∧ s''.line = s'.line)
    (hline : s''.c.connected = true → J s.line s.c.partition →
      sizeofHdr ≤ (L.request s.line opcode payload).1.bytes.length →
        resp = .ofBytes (L.request s.line opcode payload).1.bytes →
          J (L.request s.line opcode payload).2 s''.c.partition) :
    Leads J K D s s'' := by
  have hextends := s.ask_extends (L := L) path opcode payload
  obtain ⟨-, -, hasklog⟩ := s.ask_kept (L := L) path opcode payload
  rw [hask] at hextends hasklog
  refine ⟨⟨hlog ▸ hextends.log, hconnects ▸ hextends.connects⟩, fun hfits hplaced => ?_⟩
  have hready := hplaced.ready hup
  have hsound := ask_sound hL hplaced.toSound hready path opcode payload
  have hasked := asked L hready.unread path opcode payload
  rw [hask] at hsound hasked
  refine ⟨⟨hreads ▸ hsound.headers, hlog ▸ hsound.agreed⟩, fun hup' => ?_⟩
  cases hasked with
  | answered line arrival hrequest hsent hlong =>
      rw [hrequest] at hline
      have hall := consumed_of_fits hL hready hsends hrequest hfits hlog
      rw [Exchange.Consumed, if_pos hsent] at hall
      have hfew : ((tagged (s.log.length + 1) arrival.bytes).drop sizeofHdr).length ≤
          path.rest (.ofBytes arrival.bytes) := by
        rw [List.length_drop, length_tagged]
        exact Nat.sub_le_iff_le_add'.mpr hall
      obtain ⟨hunread, hsame⟩ := hrest hup' hfew
      exact ⟨hunread, hsame ▸ hline hup' hready.line hlong rfl⟩

/-- Where no more is left than is awaited, reading it leaves nothing. -/
theorem recvAll_rest {n : Nat} (hfew : s.unread.length ≤ n) :
    (s.recvAll L n).2.unread = [] := by
  unfold recvAll
  split
  · exact List.drop_eq_nil_of_le hfew
  · rfl

/-- Reading changes neither the record nor the client. -/
theorem recvAll_kept (s : Session σ) (n : Nat) :
    (s.recvAll L n).2.log = s.log ∧ (s.recvAll L n).2.reads = s.reads ∧
      (s.recvAll L n).2.connects = s.connects ∧ (s.recvAll L n).2.c = s.c ∧
        ((s.recvAll L n).1.isSome = true → (s.recvAll L n).2.line = s.line) := by
  unfold recvAll
  split
  · exact ⟨rfl, rfl, rfl, rfl, fun _ => rfl⟩
  · exact ⟨rfl, rfl, rfl, rfl, fun h => by cases h⟩

/-- The partition behind a request that selects `next` if it succeeds. -/
def selectedBy (r : Except IrtcliRc (Nat × List UInt8)) (next partition : UInt32) : UInt32 :=
  match r with
  | .ok (st, _) => if st = rtdbdStOk then next else partition
  | .error _ => partition

theorem selectedBy_self (r : Except IrtcliRc (Nat × List UInt8)) (partition : UInt32) :
    selectedBy r partition partition = partition := by
  cases r with
  | error rc => rfl
  | ok answer => exact ite_self partition

/-- `rt_submit` leads to where its caller has followed it. -/
theorem rtSubmit_leads (hL : L.Keeps J K D) (s : Session σ) {opcode respLen : Nat}
    (hfixed : (opcode, respLen) ∈ fixedAnswers) (payload : List UInt8) (next : UInt32)
    (hnext : ∀ l, J l s.c.partition →
      sizeofHdr ≤ (L.request l opcode payload).1.bytes.length →
        J (L.request l opcode payload).2
          (if (RtdbdRespHdr.ofBytes (L.request l opcode payload).1.bytes).Succeeds then next
            else s.c.partition)) :
    Leads J K D s ((s.rtSubmit L opcode payload respLen).2.withPartition
        (selectedBy (s.rtSubmit L opcode payload respLen).1 next s.c.partition)) ∧
      (s.rtSubmit L opcode payload respLen).2.c.partition = s.c.partition := by
  obtain ⟨hleads, hup, hpartition⟩ := ensureConnected_leads hL s
  unfold rtSubmit
  generalize s.ensureConnected L = r at hleads hup hpartition ⊢
  obtain ⟨up, s₁⟩ := r
  cases up with
  | false => exact ⟨hleads.trans (.of_down rfl rfl rfl hup), hpartition⟩
  | true =>
      dsimp only at hpartition hup hleads ⊢
      have hsends : (Path.fixed opcode respLen).Sends opcode := ⟨rfl, hfixed⟩
      have hfails := ask_leads hL hup (.fixed opcode respLen) opcode payload
      obtain ⟨hc, -, -⟩ := s₁.ask_kept (L := L) (.fixed opcode respLen) opcode payload
      obtain ⟨⟨answer, s₂⟩, hask⟩ : ∃ r, s₁.ask L (.fixed opcode respLen) opcode payload = r :=
        ⟨_, rfl⟩
      rw [hask] at hfails hc ⊢
      cases answer with
      | none =>
          exact ⟨hleads.trans (hfails.trans (.of_down rfl rfl rfl rfl)),
            (congrArg Irtcli.partition hc).trans hpartition⟩
      | some resp =>
          have hkept : s₂.c.partition = s.c.partition :=
            (congrArg Irtcli.partition hc).trans hpartition
          have hanswered := fun s'' => @answered_leads _ _ _ _ _ _ _ s'' hL hup _ _ _ hsends _ hask
          have hfollow : ∀ p : UInt32, p = (if resp.Succeeds then next else s.c.partition) →
              J s₁.line s₁.c.partition →
                sizeofHdr ≤ (L.request s₁.line opcode payload).1.bytes.length →
                  resp = .ofBytes (L.request s₁.line opcode payload).1.bytes →
                    J (L.request s₁.line opcode payload).2 p := by
            intro p hp hJ hlong hresp
            rw [hp, hresp]
            exact hnext s₁.line (hpartition ▸ hJ) hlong
          dsimp only
          split
          next hunknown =>
            have hnot : ¬ resp.Succeeds := fun h => hunknown h.1
            refine ⟨hleads.trans (hanswered _ rfl rfl rfl (fun _ hfew => ⟨?_, rfl⟩)
              fun _ => hfollow _ (if_neg hnot).symm), hkept⟩
            rw [Path.rest, if_neg hnot] at hfew
            exact List.eq_nil_of_length_eq_zero (Nat.le_zero.mp hfew)
          next hknown =>
            have hsucceeds : resp.Succeeds ↔ resp.status = rtdbdStOk :=
              and_iff_right (Decidable.not_not.mp hknown)
            split
            next hok =>
              obtain ⟨hlog, hreads, hconnects, hcr, hline⟩ := s₂.recvAll_kept (L := L) respLen
              have hrest := fun hfew => @recvAll_rest _ L s₂ respLen hfew
              generalize s₂.recvAll L respLen = r at hlog hreads hconnects hcr hline hrest ⊢
              obtain ⟨bytes, s₃⟩ := r
              have hkept' := (congrArg Irtcli.partition hcr).trans hkept
              have hyes : resp.Succeeds := hsucceeds.mpr hok.1
              cases bytes with
              | none =>
                  exact ⟨hleads.trans (hanswered _ hlog hreads hconnects (fun h => by cases h)
                    fun h => by cases h), hkept'⟩
              | some bytes =>
                  refine ⟨hleads.trans (hanswered _ hlog hreads hconnects
                    (fun _ hfew => ⟨hrest ?_, hline rfl⟩) fun _ => hfollow _ ?_), hkept'⟩
                  · rw [Path.rest, if_pos hyes] at hfew
                    exact hfew
                  · rw [if_pos hyes]
                    exact if_pos hok.1
            next hnot =>
              refine ⟨hleads.trans (hanswered _ rfl rfl rfl (fun _ hfew => ⟨?_, rfl⟩)
                fun _ => hfollow _ ?_), hkept⟩
              · have hnone : Path.rest (.fixed opcode respLen) resp = 0 := by
                  rw [Path.rest]
                  split
                  next hyes =>
                    exact Nat.eq_zero_of_not_pos fun hpos => hnot ⟨hsucceeds.mp hyes, hpos⟩
                  next => rfl
                rw [hnone] at hfew
                exact List.eq_nil_of_length_eq_zero (Nat.le_zero.mp hfew)
              · simp only [hsucceeds]
                rfl

/-- A request that selects nothing leads on. -/
theorem rtSubmit_leads_of_ne (hL : L.Keeps J K D) (s : Session σ) {opcode respLen : Nat}
    (hfixed : (opcode, respLen) ∈ fixedAnswers) (hop : opcode ≠ rtdbdOpSelect)
    (payload : List UInt8) : Leads J K D s (s.rtSubmit L opcode payload respLen).2 := by
  obtain ⟨hleads, hpartition⟩ := rtSubmit_leads hL s hfixed payload s.c.partition fun l hJ _ => by
    rw [ite_self]
    exact hL.stays l (.fixed opcode respLen) opcode payload _ hJ ⟨rfl, hfixed⟩ hop
  rw [selectedBy_self, ← hpartition] at hleads
  exact hleads

/-! ## Calls -/

theorem irtcliSelect_leads (hL : L.Keeps J K D) (s : Session σ) (partition : UInt32) :
    Leads J K D s (s.irtcliSelect L partition).2 := by
  obtain ⟨hleads, hpartition⟩ := rtSubmit_leads hL s (by decide : (rtdbdOpSelect, 0) ∈ fixedAnswers)
    (le32 partition.toNat) partition fun l hJ hlong => hL.selects l _ partition hJ hlong
  unfold irtcliSelect
  generalize s.rtSubmit L rtdbdOpSelect (le32 partition.toNat) 0 = r at hleads hpartition ⊢
  obtain ⟨result, s'⟩ := r
  have hself : s'.withPartition s.c.partition = s' := by
    rw [← hpartition]
    rfl
  cases result with
  | error rc =>
      rw [selectedBy, hself] at hleads
      exact hleads
  | ok answer =>
      obtain ⟨st, bytes⟩ := answer
      have hok : statusToCli st = .ok ↔ st = rtdbdStOk := by
        unfold statusToCli
        split
        next h => exact iff_of_true rfl h
        next h =>
          refine iff_of_false (fun hrc => ?_) h
          split at hrc
          · cases hrc
          · split at hrc
            · cases hrc
            · cases hrc
      simp only [hok]
      rw [selectedBy] at hleads
      split at hleads
      next h =>
        rw [if_pos h]
        exact hleads
      next h =>
        rw [if_neg h, ← hself]
        exact hleads

theorem irtcliListIn_leads (hL : L.Keeps J K D) (s : Session σ) (partition offset max : UInt32)
    (cap : Nat) : Leads J K D s (s.irtcliListIn L partition offset max cap).2 := by
  obtain ⟨hleads, hup, -⟩ := ensureConnected_leads hL s
  unfold irtcliListIn
  generalize s.ensureConnected L = r at hleads hup ⊢
  obtain ⟨up, s₁⟩ := r
  cases up with
  | false => exact hleads
  | true =>
      refine hleads.trans ?_
      dsimp only at hup ⊢
      have hfails := ask_leads hL hup (.list cap) rtdbdOpList (listReqBytes max offset partition)
      obtain ⟨hc, -, -⟩ :=
        s₁.ask_kept (L := L) (.list cap) rtdbdOpList (listReqBytes max offset partition)
      obtain ⟨⟨answer, s₂⟩, hask⟩ :
        ∃ r, s₁.ask L (.list cap) rtdbdOpList (listReqBytes max offset partition) = r := ⟨_, rfl⟩
      rw [hask] at hfails hc ⊢
      cases answer with
      | none => exact hfails
      | some resp =>
          have hanswered := fun s'' => @answered_leads _ _ _ _ _ _ _ s'' hL hup (.list cap) _ _ rfl
            _ hask
          have hstays : ∀ c : Irtcli, c = s₁.c → J s₁.line s₁.c.partition →
              J (L.request s₁.line rtdbdOpList (listReqBytes max offset partition)).2 c.partition := by
            rintro _ rfl hJ
            exact hL.stays s₁.line (.list cap) rtdbdOpList _ _ hJ rfl (by decide)
          -- where the rest is not read, there is none
          have hturned : Path.rest (.list cap) resp = 0 → Leads J K D s₁ s₂ := fun hnone =>
            hanswered s₂ rfl rfl rfl
              (fun _ hfew => ⟨List.eq_nil_of_length_eq_zero (Nat.le_zero.mp (hnone ▸ hfew)), rfl⟩)
              fun _ hJ _ _ => hstays s₂.c hc hJ
          dsimp only
          split
          next hunknown => exact hturned (if_neg fun h => hunknown h.1.1)
          next hknown =>
            split
            next hstatus => exact hturned (if_neg fun h => hstatus h.1.2)
            next hstatus =>
              split
              next hmany => exact hturned (if_neg fun h => Nat.not_lt.mpr h.2 hmany)
              next hroom =>
                have hall : Path.rest (.list cap) resp = resp.points * sizeofPointInfo :=
                  if_pos ⟨⟨Decidable.not_not.mp hknown, Decidable.not_not.mp hstatus⟩,
                    Nat.le_of_not_lt hroom⟩
                obtain ⟨hlog, hreads, hconnects, hcr, hline⟩ :=
                  s₂.recvAll_kept (L := L) (resp.points * sizeofPointInfo)
                have hrest := fun hfew => @recvAll_rest _ L s₂ (resp.points * sizeofPointInfo) hfew
                generalize s₂.recvAll L (resp.points * sizeofPointInfo) = r
                  at hlog hreads hconnects hcr hline hrest ⊢
                obtain ⟨bytes, s₃⟩ := r
                cases bytes with
                | none =>
                    exact hanswered _ hlog hreads hconnects (fun h => by cases h)
                      fun h => by cases h
                | some bytes =>
                    exact hanswered s₃ hlog hreads hconnects
                      (fun _ hfew => ⟨hrest (hall ▸ hfew), hline rfl⟩)
                      fun _ hJ _ _ => hstays s₃.c (hcr.trans hc) hJ

/-- What is not the connection may change. -/
theorem Leads.of_other (hlog : s'.log = s.log) (hreads : s'.reads = s.reads)
    (hconnects : s'.connects = s.connects) (hunread : s'.unread = s.unread)
    (hline : s'.line = s.line) (hup : s'.c.connected = s.c.connected)
    (hpartition : s'.c.partition = s.c.partition) : Leads J K D s s' where
  log := hlog ▸ List.prefix_rfl
  connects := hconnects ▸ List.prefix_rfl
  placed := fun _ hplaced =>
    ⟨⟨hreads ▸ hplaced.headers, hlog ▸ hplaced.agreed⟩, fun h =>
      have hready := hplaced.ready (hup ▸ h)
      ⟨hunread ▸ hready.unread, hline ▸ hpartition ▸ hready.line⟩⟩

theorem writeEntry_leads (hL : L.Keeps J K D) (s : Session σ) (e : IrtcliEntry) :
    Leads J K D s (s.writeEntry L e).2 := by
  unfold writeEntry
  split
  next =>
    split
    · exact .of_other rfl rfl rfl rfl rfl rfl rfl
    · exact .of_other rfl rfl rfl rfl rfl rfl rfl
  next =>
    obtain ⟨hleads, hup, -⟩ := ensureConnected_leads hL s
    generalize s.ensureConnected L = r at hleads hup ⊢
    obtain ⟨up, s₁⟩ := r
    cases up with
    | false => exact hleads
    | true =>
        obtain ⟨hlost, hsubmitted⟩ := submitOne_leads hL hup (.inl rfl) e
        dsimp only
        split
        next s₂ heq =>
          rw [heq] at hlost
          exact hleads.trans hlost
        next rc s₂ hrc heq =>
          rw [heq] at hsubmitted
          exact hleads.trans (hsubmitted fun h => absurd h hrc)

theorem submitOne_up (hup : s.c.connected = true) (path : Path) (e : IrtcliEntry) :
    (s.submitOne L path e).2.c.connected = true := by
  rw [(s.submitOne_ask path e).1, (s.ask_kept path rtdbdOpWrite e.toBytes).1]
  exact hup

/-- One entry of a flush; there is a connection behind one that was accepted. -/
theorem submitAgain_leads (hL : L.Keeps J K D) (hup : s.c.connected = true) (e : IrtcliEntry) :
    Leads J K D s (s.submitAgain L e).2 ∧
      ((s.submitAgain L e).1 = .ok → (s.submitAgain L e).2.c.connected = true) := by
  obtain ⟨hlost, hsubmitted⟩ := submitOne_leads hL hup (.inl rfl) e
  have hup' := submitOne_up (L := L) hup .write e
  unfold submitAgain
  generalize s.submitOne L .write e = r at hlost hsubmitted hup' ⊢
  obtain ⟨rc, s₁⟩ := r
  split
  next s₂ heq =>
    obtain ⟨rfl, rfl⟩ := Prod.mk.inj heq
    obtain ⟨hleads, hresult⟩ := connect_leads hL s₁.disconnected
    generalize s₁.disconnected.connect L = r at hleads hresult ⊢
    obtain ⟨rc, s₃⟩ := r
    obtain ⟨rfl, hup₃⟩ | ⟨rfl, -⟩ := hresult
    · obtain ⟨-, hagain⟩ := submitOne_leads hL hup₃ (.inr rfl) e
      exact ⟨(hlost.trans hleads).trans (hagain fun _ => rfl), fun _ => submitOne_up hup₃ _ e⟩
    · exact ⟨hlost.trans hleads, fun h => by cases h⟩
  next rc' s₂ hrc heq =>
    obtain ⟨rfl, rfl⟩ := Prod.mk.inj heq
    exact ⟨hsubmitted fun h => absurd h (by simpa using hrc), fun _ => hup'⟩

/-- Every turn of the loop of `irtcli_flush` leads on. -/
theorem flushLoop_leads (hL : L.Keeps J K D) (n : Nat) :
    ∀ (submitted : Nat) (s : Session σ), s.c.connected = true →
      Leads J K D s (flushLoop L n submitted s).2 := by
  induction n with
  | zero => exact fun _ s _ => .refl s
  | succ n ih =>
      intro submitted s hup
      unfold flushLoop
      split
      next => exact .refl s
      next e q _ =>
        have hpopped : Leads J K D s (s.withQueue q) := .of_other rfl rfl rfl rfl rfl rfl rfl
        have hupq : (s.withQueue q).c.connected = true := hup
        obtain ⟨hleads, hok⟩ := submitAgain_leads hL hupq e
        generalize (s.withQueue q).submitAgain L e = r at hleads hok ⊢
        obtain ⟨rc, s₁⟩ := r
        split
        next s₂ heq =>
          obtain ⟨rfl, rfl⟩ := Prod.mk.inj heq
          exact (hpopped.trans hleads).trans (ih _ _ (hok rfl))
        next rc' s₂ _ heq =>
          obtain ⟨rfl, rfl⟩ := Prod.mk.inj heq
          exact (hpopped.trans hleads).trans (.of_other rfl rfl rfl rfl rfl rfl rfl)

theorem irtcliFlush_leads (hL : L.Keeps J K D) (s : Session σ) :
    Leads J K D s (s.irtcliFlush L).2 := by
  unfold irtcliFlush
  split
  next => exact .refl s
  next =>
    obtain ⟨hleads, hup, -⟩ := ensureConnected_leads hL s
    generalize s.ensureConnected L = r at hleads hup ⊢
    obtain ⟨up, s₁⟩ := r
    cases up with
    | false => exact hleads
    | true => exact hleads.trans (flushLoop_leads hL _ _ _ hup)

theorem find_leads (hL : L.Keeps J K D) (s : Session σ) (partition : UInt32) (name : CStr) :
    Leads J K D s (s.irtcliFindByNameIn L partition name).2 := by
  rw [irtcliFindByNameIn_session]
  exact rtSubmit_leads_of_ne hL s (by decide : (rtdbdOpFindByName, sizeofWord) ∈ fixedAnswers)
    (by decide) (findReqBytes partition name)

/-- Every call leads on. -/
theorem call_leads (hL : L.Keeps J K D) (s : Session σ) (call : Call) :
    Leads J K D s (s.call L call) := by
  cases call with
  | connect => exact (connect_leads hL s).1
  | setAsync async => exact .of_other rfl rfl rfl rfl rfl rfl rfl
  | writeBool id value sourceTsNs => exact writeEntry_leads hL s _
  | writeInt32 id value sourceTsNs => exact writeEntry_leads hL s _
  | writeDouble id value sourceTsNs => exact writeEntry_leads hL s _
  | flush => exact irtcliFlush_leads hL s
  | findByNameIn partition name => exact find_leads hL s partition name
  | findByName name => exact find_leads hL s s.c.partition name
  | select partition => exact irtcliSelect_leads hL s partition
  | listIn partition offset max cap => exact irtcliListIn_leads hL s partition offset max cap
  | getMeta id =>
      rw [Session.call, irtcliGetMeta_session]
      exact rtSubmit_leads_of_ne hL s (by decide : (rtdbdOpGetMeta, 32) ∈ fixedAnswers)
        (by decide) (le32 id.toNat)
  | setMeta id m =>
      rw [Session.call, irtcliSetMeta_session]
      exact rtSubmit_leads_of_ne hL s (by decide : (rtdbdOpSetMeta, 0) ∈ fixedAnswers)
        (by decide) (setMetaReqBytes id m)

/-- Every sequence of calls leads on. -/
theorem run_leads (hL : L.Keeps J K D) (calls : List Call) :
    ∀ s : Session σ, Leads J K D s (s.run L calls) := by
  induction calls with
  | nil => exact fun s => .refl s
  | cons call calls ih => exact fun s => (call_leads hL s call).trans (ih _)

/-- A client that has been initialised has no connection. -/
theorem start_placed {sockPath : CStr} {cap : Nat} {c : Irtcli}
    (hinit : irtcliInit sockPath cap = .ok c) (line : σ) : (start c line).Placed J := by
  have hdown : c.connected = false := by
    unfold irtcliInit at hinit
    grind
  have hsound : (start c line).Sound := ⟨fun _ h => (List.not_mem_nil h).elim,
    fun _ h => (List.not_mem_nil h).elim⟩
  exact hsound.placed hdown

end Session

end InduRtdb.Client
