/-
  Monitor/Receiving.lean --- receiving a number of bytes from a socket with a time-out.

  Source: the loop that `RtdbClient._recv_exact` and `NotifyListener._recv_exact` of
  `tools/rtdb-monitor/rtdb_client.py` have in common.

  What each call of `sock.recv` comes to is given: some of the bytes asked for, a time-out,
  or the end of the connection.  Where no more calls are given, the loop is still waiting.
-/
import InduRtdb.Monitor.Protocol

set_option autoImplicit false

namespace InduRtdb.Monitor

/-- What a call of `sock.recv` comes to.  `data` yields that many bytes of those asked for
and not yet received, or all of them where there are fewer; a receive of no byte at all has
not returned yet.  `closed` stands for `b""` and for an `OSError`. -/
inductive Outcome where
  | data (size : Nat)
  | timeout
  | closed
  deriving DecidableEq

/-- Why a loop of receives ends. -/
inductive RecvEnd where
  | done
  | timeout
  | closed
  | waiting
  deriving DecidableEq

section

variable {α : Type}

/-- Where a loop of receives ends: the bytes in `buf`, those of the stream not received, and
the outcomes to come.  A byte may carry a note of where it comes from. -/
structure Recv (α : Type) where
  buf : List α
  ended : RecvEnd
  unread : List α
  outcomes : List Outcome
  deriving DecidableEq

/-- `while len(buf) < n`, with what `sock.recv(n - len(buf))` comes to. -/
def recvLoop (n : Nat) : List Outcome → List α → List α → Recv α
  | [], buf, unread => ⟨buf, if buf.length < n then .waiting else .done, unread, []⟩
  | .data size :: more, buf, unread =>
      if buf.length < n then
        recvLoop n more (buf ++ unread.take (min size (n - buf.length)))
          (unread.drop (min size (n - buf.length)))
      else ⟨buf, .done, unread, .data size :: more⟩
  | .timeout :: more, buf, unread =>
      if buf.length < n then ⟨buf, .timeout, unread, more⟩
      else ⟨buf, .done, unread, .timeout :: more⟩
  | .closed :: more, buf, unread =>
      if buf.length < n then ⟨buf, .closed, unread, more⟩
      else ⟨buf, .done, unread, .closed :: more⟩

/-- What a loop of receives leaves: nothing is lost, and the bytes asked for are there
exactly when it is done. -/
structure Recv.Sound (r : Recv α) (n : Nat) (outcomes : List Outcome) (buf unread : List α) :
    Prop where
  bytes : r.buf ++ r.unread = buf ++ unread
  grows : buf.length ≤ r.buf.length
  done : r.ended = .done → r.buf.length = n
  short : r.ended ≠ .done → r.buf.length < n
  suffix : r.outcomes <:+ outcomes
  closed : r.ended = .closed → .closed ∈ outcomes
  waiting : r.ended = .waiting → r.outcomes = []
  /-- unless there was nothing to receive, a call has been made -/
  moves : buf.length < n → r.ended ≠ .waiting → r.outcomes.length < outcomes.length

theorem recvLoop_sound {n : Nat} : ∀ (outcomes : List Outcome) (buf unread : List α),
    buf.length ≤ n → (recvLoop n outcomes buf unread).Sound n outcomes buf unread := by
  intro outcomes
  induction outcomes with
  | nil =>
      intro buf unread hle
      refine ⟨rfl, Nat.le_refl _, ?_, ?_, List.suffix_rfl, ?_, fun _ => rfl, ?_⟩
      · intro hdone
        rw [recvLoop] at hdone ⊢
        split at hdone
        case isTrue => cases hdone
        case isFalse hfull => exact Nat.le_antisymm hle (Nat.le_of_not_lt hfull)
      · intro hshort
        rw [recvLoop] at hshort ⊢
        split at hshort
        case isTrue hlt => exact hlt
        case isFalse => exact absurd rfl hshort
      · intro hclosed
        rw [recvLoop] at hclosed
        split at hclosed
        case isTrue => cases hclosed
        case isFalse => cases hclosed
      · intro hlt hwaiting
        rw [recvLoop] at hwaiting
        exact absurd (if_pos hlt) hwaiting
  | cons outcome more ih =>
      intro buf unread hle
      have hfull : ¬ buf.length < n → Recv.Sound ⟨buf, .done, unread, outcome :: more⟩ n
          (outcome :: more) buf unread := fun hfull =>
        ⟨rfl, Nat.le_refl _, fun _ => Nat.le_antisymm hle (Nat.le_of_not_lt hfull),
          fun h => absurd rfl h, List.suffix_rfl, nofun, nofun, fun hlt => absurd hlt hfull⟩
      cases outcome with
      | timeout =>
          rw [recvLoop]
          split
          case isTrue hlt =>
            exact ⟨rfl, Nat.le_refl _, nofun, fun _ => hlt, List.suffix_cons _ _, nofun, nofun,
              fun _ _ => Nat.lt_succ_self _⟩
          case isFalse h => exact hfull h
      | closed =>
          rw [recvLoop]
          split
          case isTrue hlt =>
            exact ⟨rfl, Nat.le_refl _, nofun, fun _ => hlt, List.suffix_cons _ _,
              fun _ => List.mem_cons_self, nofun, fun _ _ => Nat.lt_succ_self _⟩
          case isFalse h => exact hfull h
      | data size =>
          rw [recvLoop]
          split
          case isTrue hlt =>
            have hchunk : (unread.take (min size (n - buf.length))).length ≤ n - buf.length :=
              Nat.le_trans (List.length_take_le _ _) (Nat.min_le_right _ _)
            have hbuf : (buf ++ unread.take (min size (n - buf.length))).length ≤ n := by
              rw [List.length_append]
              omega
            have hrest := ih _ (unread.drop (min size (n - buf.length))) hbuf
            have hgrows := hrest.grows
            rw [List.length_append] at hgrows
            refine ⟨?_, by omega, hrest.done, hrest.short,
              hrest.suffix.trans (List.suffix_cons _ _),
              fun h => List.mem_cons_of_mem _ (hrest.closed h), hrest.waiting, ?_⟩
            · rw [hrest.bytes, List.append_assoc, List.take_append_drop]
            · intro _ _
              exact Nat.lt_succ_of_le hrest.suffix.length_le
          case isFalse h => exact hfull h

/-- From the start of a stream, the bytes asked for are its first. -/
theorem recvLoop_done {n : Nat} {outcomes : List Outcome} {unread : List α}
    (hdone : (recvLoop n outcomes [] unread).ended = .done) :
    (recvLoop n outcomes [] unread).buf = unread.take n ∧
      (recvLoop n outcomes [] unread).unread = unread.drop n ∧ n ≤ unread.length := by
  have hsound := recvLoop_sound (n := n) outcomes [] unread (Nat.zero_le n)
  have hlength := hsound.done hdone
  have hbytes := hsound.bytes
  generalize recvLoop n outcomes [] unread = r at hlength hbytes ⊢
  rw [List.nil_append] at hbytes
  refine ⟨?_, ?_, ?_⟩
  · rw [← hbytes, List.take_left' hlength]
  · rw [← hbytes, List.drop_left' hlength]
  · rw [← hbytes, List.length_append, hlength]
    exact Nat.le_add_right _ _

/-- What is to come once so many bytes have been received, if they are before a time-out and
before the end of the connection. -/
def arrives : Nat → List Outcome → Option (List Outcome)
  | 0, outcomes => some outcomes
  | left + 1, .data size :: more => arrives (left + 1 - size) more
  | _ + 1, _ => none

/-- Where the stream has the bytes that are asked for, only the outcomes decide whether they
are received. -/
theorem arrives_recvLoop {n : Nat} : ∀ (outcomes : List Outcome) (buf unread : List α),
    n ≤ buf.length + unread.length → arrives (n - buf.length) outcomes =
      if (recvLoop n outcomes buf unread).ended = .done then
        some (recvLoop n outcomes buf unread).outcomes
      else none := by
  have hfull : ∀ (outcomes : List Outcome) (buf : List α), ¬ buf.length < n →
      arrives (n - buf.length) outcomes = some outcomes := by
    intro outcomes buf h
    rw [Nat.sub_eq_zero_of_le (Nat.le_of_not_lt h), arrives]
  intro outcomes
  induction outcomes with
  | nil =>
      intro buf unread _
      rw [recvLoop]
      split
      case isTrue hlt =>
        obtain ⟨left, hleft⟩ := Nat.exists_eq_add_one.mpr (Nat.sub_pos_of_lt hlt)
        rw [hleft]
        rfl
      case isFalse h => exact hfull [] buf h
  | cons outcome more ih =>
      intro buf unread hlong
      rcases Nat.lt_or_ge buf.length n with hlt | hge
      · obtain ⟨left, hleft⟩ := Nat.exists_eq_add_one.mpr (Nat.sub_pos_of_lt hlt)
        cases outcome with
        | timeout =>
            rw [recvLoop, if_pos hlt, hleft]
            rfl
        | closed =>
            rw [recvLoop, if_pos hlt, hleft]
            rfl
        | data size =>
            rw [recvLoop, if_pos hlt, hleft, arrives, ← ih]
            · congr 1
              rw [List.length_append, List.length_take]
              omega
            · rw [List.length_append, List.length_take, List.length_drop]
              omega
      · rw [hfull _ _ (Nat.not_lt.mpr hge)]
        cases outcome with
        | timeout => rw [recvLoop, if_neg (Nat.not_lt.mpr hge), if_pos rfl]
        | closed => rw [recvLoop, if_neg (Nat.not_lt.mpr hge), if_pos rfl]
        | data size => rw [recvLoop, if_neg (Nat.not_lt.mpr hge), if_pos rfl]

theorem arrives_of_done {n : Nat} {outcomes : List Outcome} {unread : List α}
    (hdone : (recvLoop n outcomes [] unread).ended = .done) :
    arrives n outcomes = some (recvLoop n outcomes [] unread).outcomes := by
  have h := @arrives_recvLoop _ n outcomes [] unread
  rw [List.length_nil, Nat.zero_add, Nat.sub_zero, if_pos hdone] at h
  exact h (recvLoop_done hdone).2.2

theorem done_of_arrives {n : Nat} {outcomes rest : List Outcome} {unread : List α}
    (harrives : arrives n outcomes = some rest) (hlong : n ≤ unread.length) :
    (recvLoop n outcomes [] unread).ended = .done ∧
      (recvLoop n outcomes [] unread).outcomes = rest := by
  have h := @arrives_recvLoop _ n outcomes [] unread
  rw [List.length_nil, Nat.zero_add, Nat.sub_zero, harrives] at h
  have h := h hlong
  split at h
  case isTrue hdone => exact ⟨hdone, (Option.some.inj h).symm⟩
  case isFalse => cases h

/-- `self._recv_exact(plen) if plen else b""`. -/
def recvBody (plen : Nat) (outcomes : List Outcome) (unread : List α) : Recv α :=
  if plen = 0 then ⟨[], .done, unread, outcomes⟩ else recvLoop plen outcomes [] unread

theorem recvBody_done {plen : Nat} {outcomes : List Outcome} {unread : List α}
    (hdone : (recvBody plen outcomes unread).ended = .done) :
    (recvBody plen outcomes unread).buf = unread.take plen ∧
      (recvBody plen outcomes unread).unread = unread.drop plen ∧ plen ≤ unread.length := by
  unfold recvBody at hdone ⊢
  split
  case isTrue hempty =>
    subst hempty
    exact ⟨rfl, rfl, Nat.zero_le _⟩
  case isFalse hne =>
    rw [if_neg hne] at hdone
    exact recvLoop_done hdone

end

end InduRtdb.Monitor
