/-
  Daemon/Lives.lean --- what outlives a worker: its segment, and so the database.

  Source: `rtdbd/src/rtdbd.c` (`main` from its start to its end), `src/core/irt_shm.c`
  (`irt_shm_init`, `irt_shm_shutdown`) and `src/api/indurtdb.c` (`indurtdb_h_load_config`).

  Workers of one command line follow one another on a machine.  A worker that crashes, or
  that gives up at its start, leaves its segment behind, perhaps with the lock held; one
  that is told to stop removes the segment, if it is the owner.  A crash is between two
  requests, or behind the taking of the lock and before the first store.
-/
import InduRtdb.Daemon.Startup

set_option autoImplicit false

namespace InduRtdb.Daemon

open InduRtdb.Core InduRtdb.Api InduRtdb.Spec InduRtdb.Lib

/-! ## The machine -/

/-- The machine between two workers, or with one in its loop, which is the owner of the
segment or not. -/
inductive Host where
  | down (found : Option Segment)
  | up (owner : Bool) (loop : EventLoop)

/-- What happens to the machine. -/
inductive HostEvent where
  | start (m : Surroundings)
  | serve (e : LoopEvent)
  /-- the worker dies, with the write lock held or not -/
  | crash (held : Bool)
  /-- the worker leaves its loop and closes the instance -/
  | stop (unlinks : Bool)

namespace Host

/-- The segment a worker dies on. -/
def abandoned (seg : Segment) (held : Bool) : Segment :=
  if held then seg.setWriteSeq (irtSeqlockWriteBegin seg.hdr.writeSeq).2 else seg

def after (libc : Libc) (o : RtdbdOptions) : Host → HostEvent → Host
  | .down found, .start m =>
      let started := startWorker libc m o found
      match started.worker with
      | .ok d => .up started.owner (.start d)
      | .error _ => .down started.segment
  | .up owner loop, .serve e => .up owner (loop.after e)
  | .up _ loop, .crash held => .down (some (abandoned loop.d.h.seg held))
  | .up owner loop, .stop _ => .down (if owner then none else some loop.d.h.seg)
  | s, _ => s

/-- This can happen next. -/
def Enabled : Host → HostEvent → Prop
  | .down _, .start _ => True
  | .up _ loop, .serve e => loop.Enabled e
  | .up _ _, .crash _ => True
  | .up owner _, .stop unlinks => unlinks = owner
  | _, _ => False

instance : ∀ (s : Host) (e : HostEvent), Decidable (Enabled s e)
  | .down _, .start _ => inferInstanceAs (Decidable True)
  | .down _, .serve _ => inferInstanceAs (Decidable False)
  | .down _, .crash _ => inferInstanceAs (Decidable False)
  | .down _, .stop _ => inferInstanceAs (Decidable False)
  | .up _ loop, .serve e => inferInstanceAs (Decidable (loop.Enabled e))
  | .up _ _, .crash _ => inferInstanceAs (Decidable True)
  | .up _ _, .start _ => inferInstanceAs (Decidable False)
  | .up owner _, .stop unlinks => inferInstanceAs (Decidable (unlinks = owner))

/-- The lives of the workers of one command line. -/
abbrev Runs (libc : Libc) (o : RtdbdOptions) : List (Host × HostEvent) → Host → Prop :=
  Trace Enabled (after libc o) (.down none)

end Host

/-- A start finds the points as its configuration needs them: the id of an entry is free or
already has the key, up to its hash, and no other id has that key. -/
def ConfigFits (libc : Libc) (o : RtdbdOptions) : Host × HostEvent → Prop
  | (.down found, .start m) =>
      ∀ owner h, openInstance m o found = some (owner, h) →
        LoadMet h.shm (m.batch libc o) h.seg
  | _ => True

/-! ## What the clients make of it -/

/-- The rules of the last worker, and its service. -/
structure Outlook (n : Nat) where
  rules : Rules
  service : Service n

/-- A start loads the configuration over the database, a crash takes the connections only,
and the segment takes the database with it. -/
noncomputable def Outlook.after {n : Nat} (libc : Libc) (o : RtdbdOptions) (v : Outlook n) :
    HostEvent → Outlook n
  | .start m =>
      match m.policy o, m.conf o with
      | some policy, some conf =>
          if m.Opens o then
            ⟨⟨policy, conf⟩, ⟨v.service.db.load (m.batch libc o), fun _ => 0⟩⟩
          else v
      | _, _ => v
  | .serve e => { v with service := v.service.after v.rules e }
  | .crash _ => v
  | .stop unlinks =>
      if unlinks then { v with service := { v.service with db := .fresh n } } else v

section Lives

variable {libc : Libc} {o : RtdbdOptions}

variable (o) in
/-- The machine carries the outlook. -/
def HandedOn (v : Outlook o.maxPoints.toNat) : Host → Prop
  | .down found => Rests o v.service.db found
  | .up _ loop =>
      Provides v.rules v.service loop ∧
        OfLayout o.maxPoints.toNat o.maxSubs.toNat loop.d.h.seg

/-- The segment a worker leaves behind is kept, whatever becomes of the lock. -/
theorem Kept.abandoned {N M : Nat} {h : IndurtdbH} {db : Database N} (hstands : Stands h db)
    (hlayout : OfLayout N M h.seg) (held : Bool) : Kept M (Host.abandoned h.seg held) db := by
  refine ⟨⟨h.seg.hdr.writeSeq, hstands.rehead ?_ ?_ ?_ ?_ ?_ ?_ hstands.keys.even⟩, ?_⟩
  · exact hstands.size.symm
  · cases held <;> rfl
  · cases held <;> rfl
  · cases held <;> rfl
  · cases held <;> rfl
  · cases held <;> rfl
  · cases held with
    | true => exact hlayout.trans rfl
    | false => exact hlayout

variable {v : Outlook o.maxPoints.toNat}

/-- A start opens what is there, loads its configuration and serves, or leaves it all as it
is. -/
theorem HandedOn.start (hpasses : o.Passes) (hdelta : o.deltaPath = none)
    {found : Option Segment} {m : Surroundings} (h : HandedOn o v (.down found))
    (hfits : ConfigFits libc o (.down found, .start m)) :
    HandedOn o (v.after libc o (.start m)) (Host.after libc o (.down found) (.start m)) := by
  have hrests : Rests o v.service.db found := h
  unfold Host.after Outlook.after startWorker
  dsimp only
  rw [if_neg (not_not.mpr hpasses)]
  cases hpolicy : m.policy o with
  | none => exact h
  | some policy =>
      cases hconf : m.conf o with
      | none => exact h
      | some conf =>
          dsimp only
          rcases Decidable.em (m.Opens o) with hopens | hnot
          · obtain ⟨owner, opened, hopen, hstands, hlayout, -⟩ := hrests.opened hpasses hopens
            obtain ⟨hstands', hlayout', -⟩ :=
              prepare_keeps libc hpasses hdelta hstands hlayout (hfits owner opened hopen)
            rw [hopen, if_pos hopens]
            dsimp only
            generalize prepare libc m o opened = prepared at hstands' hlayout' ⊢
            obtain ⟨code, h'⟩ := prepared
            cases code with
            | none =>
                refine ⟨⟨rfl, hstands', fun slot hfd => ?_⟩, hlayout'⟩
                exact absurd hfd connInit_closed
            | some code => exact Kept.abandoned hstands' hlayout' false
          · have hnone : openInstance m o found = none := if_neg hnot
            rw [hnone, if_neg hnot]
            exact h

/-- Every event carries the outlook on. -/
theorem HandedOn.after (hpasses : o.Passes) (hdelta : o.deltaPath = none) {s : Host}
    {e : HostEvent} (h : HandedOn o v s) (hcan : Host.Enabled s e)
    (hfits : ConfigFits libc o (s, e)) :
    HandedOn o (v.after libc o e) (Host.after libc o s e) := by
  cases s with
  | down found =>
      cases e with
      | start m => exact h.start hpasses hdelta hfits
      | serve e => exact hcan.elim
      | crash held => exact hcan.elim
      | stop unlinks => exact hcan.elim
  | up owner loop =>
      obtain ⟨hprovides, hlayout⟩ := h
      cases e with
      | start m => exact hcan.elim
      | serve e => exact ⟨hprovides.after hcan, hlayout.trans (loop.after_layout e)⟩
      | crash held => exact Kept.abandoned hprovides.stands hlayout held
      | stop unlinks =>
          obtain rfl : unlinks = owner := hcan
          cases unlinks with
          | true => exact rfl
          | false => exact Kept.abandoned hprovides.stands hlayout false

end Lives

/-! ## Whole lives -/

end InduRtdb.Daemon
