/-
  Client/Stream.lean --- the client and any sequence of well-framed responses.

  Source: `rt_submit`, `irtcli_list_in`, `submit_one`, `write_entry` and
  `irtcli_flush` of `client/src/client.c`.

  The other end is a script: what each `connect` returns, and how each request is
  answered.  A response that is longer than its receive path reads stays behind on
  a connection that is kept; where there is none, the client keeps its place.
-/
import InduRtdb.Client.Place

set_option autoImplicit false

namespace InduRtdb.Client

open InduRtdb.Core InduRtdb.Daemon

/-! ## Scripts -/

/-- How a request is answered: whether it is taken, a response of any kind, and how
much of it arrives if the connection breaks behind it. -/
structure Answer where
  sends : Bool
  magic : Nat
  version : Nat
  status : Nat
  payload : List UInt8
  arrives : Option Nat
  /-- The payload has the length that is announced. -/
  payload_lt : payload.length < 2 ^ 32

/-- The response. -/
def Answer.bytes (a : Answer) : List UInt8 :=
  le32 a.magic ++ le16 a.version ++ le16 a.status ++ le32 a.payload.length ++ a.payload

/-- The bytes of it that arrive. -/
def Answer.arrived (a : Answer) : List UInt8 :=
  match a.arrives with
  | none => a.bytes
  | some n => a.bytes.take n

/-- What each `connect` returns, and the answer of each request, in the order in which
they are made. -/
structure Script where
  connects : Nat → Option Nat
  answers : Nat → Answer

/-- How far a script has come, and whether there is a connection. -/
structure Progress where
  connects : Nat
  requests : Nat
  up : Bool

/-- The start of a script. -/
def Progress.start : Progress := ⟨0, 0, false⟩

/-- The other end that follows a script. -/
def Script.line (script : Script) : Line Progress where
  connect l :=
    (script.connects l.connects,
      { l with connects := l.connects + 1, up := (script.connects l.connects).isSome })
  request l _ _ :=
    let a := script.answers l.requests
    ({ sends := a.sends
       bytes := if l.up then a.arrived else []
       seen := none },
      { l with requests := l.requests + 1, up := l.up && a.sends && a.arrives.isNone })
  lose l := { l with up := false }

/-! ## The place of the client -/

namespace Session

variable {σ : Type}

/-- The client is disconnected or has read all that has been sent, and it has read
every response header from the start of its own response. -/
structure InPlace (s : Session σ) : Prop where
  unread : s.c.connected = true → s.unread = []
  headers : ∀ r, r ∈ s.reads → r.Own

end Session

/-- A script asks nothing of the partition; that its answers are read to their end is
a condition on each of them. -/
theorem Script.keeps (script : Script) :
    script.line.Keeps (fun _ _ => True) (fun _ => True) (fun _ => True) where
  connect := fun _ _ _ _ _ _ => trivial
  lose := fun _ _ _ => trivial
  seen := fun _ _ _ _ _ _ h => by cases h
  stays := fun _ _ _ _ _ _ _ _ => trivial
  selects := fun _ _ _ _ _ => trivial
  fits := fun _ _ _ _ _ _ _ h => absurd trivial h

/-- **The place in the stream.**  A client whose requests are all answered with what is
read keeps its place, through every sequence of calls. -/
theorem inPlace_of_consumed (script : Script) {sockPath : CStr} {cap : Nat} {c : Irtcli}
    (hinit : irtcliInit sockPath cap = .ok c) (calls : List Call)
    (hconsumed : ∀ x, x ∈ ((Session.start c .start).run script.line calls).log → x.Consumed) :
    ((Session.start c .start).run script.line calls).InPlace := by
  have hleads := Session.run_leads script.keeps calls (.start c .start)
  have hplaced := hleads.placed ⟨fun x hx _ => hconsumed x hx, fun _ _ => trivial⟩
    (Session.start_placed hinit _)
  exact ⟨fun hup => (hplaced.ready hup).unread, hplaced.headers⟩

/-! ## Two points for one -/

/-- A client without a connection needs no descriptor. -/
theorem fd_unused : false = true → (0 : Int) ≤ -1 := by
  intro h
  cases h

/-- A client behind `irtcli_init`, with a queue of one entry. -/
def newClient : Irtcli where
  fd := -1
  connected := false
  sockPath := .empty
  queue := ⟨fun _ => default, 1, 0, 0, Nat.one_pos, Nat.zero_le _, by decide⟩
  async := true
  partition := 0
  sockPath_lt := by decide
  fd_nonneg := fd_unused

theorem newClient_init : irtcliInit .empty 1 = .ok newClient := rfl

/-- Success with a payload of zeros. -/
def zeros (n : Nat) (hn : n < 2 ^ 32) : Answer where
  sends := true
  magic := rtdbdMagic
  version := rtdbdProtoVersion
  status := rtdbdStOk
  payload := List.replicate n 0
  arrives := none
  payload_lt := by rwa [List.length_replicate]

/-- A server with two points. -/
def twoPoints : Script where
  connects := fun _ => some 3
  answers := fun n => if n = 0 then zeros 152 (by decide) else zeros 32 (by decide)

theorem inPlace_of_consumed_twoPoints :
    ((Session.start newClient .start).run twoPoints.line
      [.connect, .listIn 0 0 2 2, .getMeta 0]).InPlace :=
  inPlace_of_consumed twoPoints newClient_init _ (by decide +kernel)

/-- Room for one point only: the metadata is read from the list of points. -/
theorem not_inPlace :
    ¬ ∀ (script : Script) (sockPath : CStr) (cap : Nat) (c : Irtcli),
      irtcliInit sockPath cap = .ok c → ∀ calls : List Call,
        ((Session.start c .start).run script.line calls).InPlace := by
  intro hall
  have hplace := hall twoPoints .empty 1 newClient newClient_init
    [.connect, .listIn 0 0 2 1, .getMeta 0]
  have hwrong : ¬ ∀ r, r ∈ ((Session.start newClient .start).run twoPoints.line
      [.connect, .listIn 0 0 2 1, .getMeta 0]).reads → r.Own := by decide +kernel
  exact hwrong hplace.headers

end InduRtdb.Client
