/-
  Daemon/Workers.lean --- the supervisor and the workers it starts.

  Source: `rtdbd/src/rtdbd.c` (`supervise_loop`, `terminate_and_reap`, `write_pidfile`,
  `on_signal`).

  The supervisor runs against the kernel: its children end when they like and with any
  status, and signals reach it between any two of its steps.  A signal interrupts
  `waitpid` only while the supervisor is in it.  The ring of log lines, which nothing
  reads in this process, is left out.
-/
import InduRtdb.Lib.Run

set_option autoImplicit false

namespace InduRtdb.Daemon

open InduRtdb.Lib

/-! ## The kernel -/

abbrev rtdbdExitOk : Nat := 0
/-- An error of the arguments, or of the socket. -/
abbrev rtdbdExitError : Nat := 1
/-- The configuration has been refused. -/
abbrev rtdbdExitConfig : Nat := 2
abbrev rtdbdExitShm : Nat := 3
/-- The self-check at the start has failed. -/
abbrev rtdbdExitSelfcheck : Nat := 4

/-- What `waitpid` tells of a child that has ended. -/
inductive WaitStatus where
  | exited (code : Nat)
  | signaled (sig : Nat)
  deriving DecidableEq

/-- A child that has not been reaped. -/
inductive Child where
  | running
  | ended (status : WaitStatus)
  deriving DecidableEq

/-! ## The loop -/

/-- The place `supervise_loop` has come to. -/
inductive SupervisePlace where
  /-- at the head of the loop, before `g_stop` is read -/
  | top
  | forking
  /-- in `usleep`, before the head of the loop -/
  | sleeping
  /-- in the `waitpid` of the inner loop -/
  | waiting (child : Nat)
  /-- behind a `waitpid` that was interrupted, before `g_stop` is read -/
  | interrupted (child : Nat)
  /-- behind the inner loop -/
  | reaped (child : Nat) (status : WaitStatus)
  /-- at the head of `terminate_and_reap` -/
  | terminating (pid : Nat)
  /-- in its bounded wait -/
  | polling (pid waitedUs stepUs : Nat)
  /-- behind that, before `SIGKILL` -/
  | killing (pid : Nat)
  /-- in the `waitpid` behind `SIGKILL` -/
  | awaiting (pid : Nat)
  /-- at `supervisor_done` -/
  | stopping
  | returned (code : Nat)
  deriving DecidableEq

/-- The supervisor, the kernel's table of its children, and the two files. -/
structure Supervision where
  place : SupervisePlace
  /-- `g_stop` -/
  stop : Bool
  cur : Option Nat
  children : Nat → Option Child
  /-- `--pidfile` was given -/
  named : Bool
  /-- what the pid file says, if there is one -/
  pidfile : Option Nat
  /-- there is a file at `sock_path` -/
  socket : Bool

/-- The loop as it is entered, whatever files are left from before. -/
def Supervision.start (named : Bool) (pidfile : Option Nat) (socket : Bool) : Supervision where
  place := .top
  stop := false
  cur := none
  children := fun _ => none
  named := named
  pidfile := pidfile
  socket := socket

/-- The supervisor does not start another worker after this one. -/
def FatalStatus : WaitStatus → Prop
  | .exited code => code = rtdbdExitConfig ∨ code = rtdbdExitSelfcheck
  | .signaled _ => False

instance : ∀ status, Decidable (FatalStatus status)
  | .exited code =>
      inferInstanceAs (Decidable (code = rtdbdExitConfig ∨ code = rtdbdExitSelfcheck))
  | .signaled _ => inferInstanceAs (Decidable False)

/-- `WEXITSTATUS`, where the child exited. -/
def WaitStatus.code : WaitStatus → Nat
  | .exited code => code
  | .signaled _ => 0

namespace Supervision

/-- A child is reaped. -/
def reap (s : Supervision) (pid : Nat) (place : SupervisePlace) : Supervision :=
  { s with children := Function.update s.children pid none, place := place }

/-- `unlink(pidfile)`, where one was named. -/
def withoutPidfile (s : Supervision) : Option Nat := if s.named then none else s.pidfile

/-- `write_pidfile`; `wrote` is whether the file could be opened. -/
def writePidfile (s : Supervision) (pid : Nat) (wrote : Bool) : Option Nat :=
  if s.named ∧ wrote then some pid else s.pidfile

/-- What the supervisor does next, apart from `fork`; nothing while it is blocked. -/
def next (s : Supervision) : Option Supervision :=
  match s.place with
  | .top =>
      if s.stop then
        match s.cur with
        | some pid => some { s with cur := none, place := .terminating pid }
        | none => some { s with place := .stopping }
      else some { s with place := .forking }
  | .forking => none
  | .sleeping => some { s with place := .top }
  | .waiting child =>
      match s.children child with
      | none => some { s with cur := none, place := .terminating child }
      | some .running => none
      | some (.ended status) => some (s.reap child (.reaped child status))
  | .interrupted child =>
      if s.stop then some { s with cur := none, place := .terminating child }
      else some { s with place := .waiting child }
  | .reaped _ status =>
      if s.stop then some { s with cur := none, place := .stopping }
      else if FatalStatus status then
        some { s with
          cur := none, pidfile := s.withoutPidfile, socket := false
          place := .returned status.code }
      else some { s with cur := none, place := .sleeping }
  | .terminating pid =>
      if pid = 0 then some { s with place := .stopping }
      else some { s with place := .polling pid 0 200 }
  | .polling pid waitedUs stepUs =>
      if waitedUs < 500000 then
        match s.children pid with
        | none => some { s with place := .stopping }
        | some (.ended _) => some (s.reap pid .stopping)
        | some .running =>
            some { s with
              place := .polling pid (waitedUs + stepUs)
                (if stepUs < 10000 then stepUs * 5 else stepUs) }
      else some { s with place := .killing pid }
  | .killing pid => some { s with place := .awaiting pid }
  | .awaiting pid =>
      match s.children pid with
      | none => some { s with place := .stopping }
      | some .running => none
      | some (.ended _) => some (s.reap pid .stopping)
  | .stopping => some { s with pidfile := s.withoutPidfile, place := .returned rtdbdExitOk }
  | .returned _ => none

end Supervision

/-- What happens next.  `signal` is `SIGINT`, `SIGTERM` or, where it does not stop,
`SIGUSR1`; `socket` is a worker that makes or removes the file at `sock_path`. -/
inductive SuperviseEvent where
  | own
  | forkFails
  | forks (child : Nat) (wrote : Bool)
  | ends (pid : Nat) (status : WaitStatus)
  | signal (stops : Bool)
  | socket (pid : Nat) (present : Bool)
  deriving DecidableEq

/-- The state after an event, where it can happen. -/
def Supervision.step (s : Supervision) : SuperviseEvent → Option Supervision
  | .own => s.next
  | .forkFails =>
      if s.place = .forking then some { s with place := .sleeping } else none
  | .forks child wrote =>
      if s.place = .forking ∧ 0 < child ∧ s.children child = none then
        some { s with
          cur := some child
          children := Function.update s.children child (some .running)
          pidfile := s.writePidfile child wrote
          place := .waiting child }
      else none
  | .ends pid status =>
      if s.children pid = some .running then
        some { s with children := Function.update s.children pid (some (.ended status)) }
      else none
  | .signal stops =>
      some { s with
        stop := s.stop || stops
        place := match s.place with
          | .waiting child => .interrupted child
          | place => place }
  | .socket pid present =>
      if s.children pid = some .running then some { s with socket := present } else none

namespace Supervision

/-- The event can happen. -/
def Can (s : Supervision) (e : SuperviseEvent) : Prop := (s.step e).isSome = true

instance (s : Supervision) (e : SuperviseEvent) : Decidable (s.Can e) :=
  inferInstanceAs (Decidable (_ = _))

/-- The state after it. -/
def after (s : Supervision) (e : SuperviseEvent) : Supervision := (s.step e).getD s

/-- A run of the supervisor. -/
abbrev Runs (init : Supervision) : List (Supervision × SuperviseEvent) → Supervision → Prop :=
  Trace Can after init

end Supervision

/-! ## What a step can do -/

/-- The child that the code at this place holds. -/
def SupervisePlace.child : SupervisePlace → Option Nat
  | .waiting pid => some pid
  | .interrupted pid => some pid
  | .terminating pid => some pid
  | .polling pid _ _ => some pid
  | .killing pid => some pid
  | .awaiting pid => some pid
  | _ => none

/-- The supervisor holds on to its one child, and to no other process. -/
structure Tracked (s : Supervision) : Prop where
  held : ∀ pid, s.children pid ≠ none ↔ s.place.child = some pid
  pos : ∀ pid, s.place.child = some pid → 0 < pid
  idle : s.place = .top ∨ s.place = .forking ∨ s.place = .sleeping → s.cur = none
  steps : ∀ pid waitedUs stepUs, s.place = .polling pid waitedUs stepUs →
    stepUs = 200 ∨ stepUs = 1000 ∨ stepUs = 5000 ∨ stepUs = 25000

/-- The moves of a supervisor that holds on to its child. -/
inductive Moves (s : Supervision) : SuperviseEvent → Supervision → Prop where
  | stopsIdle (hplace : s.place = .top) (hstop : s.stop = true) :
      Moves s .own { s with place := .stopping }
  | turns (hplace : s.place = .top) (hstop : s.stop = false) :
      Moves s .own { s with place := .forking }
  | wakes (hplace : s.place = .sleeping) : Moves s .own { s with place := .top }
  | reaps {pid : Nat} {status : WaitStatus} (hplace : s.place = .waiting pid)
      (hchild : s.children pid = some (.ended status)) :
      Moves s .own (s.reap pid (.reaped pid status))
  | gives {pid : Nat} (hplace : s.place = .interrupted pid) (hstop : s.stop = true) :
      Moves s .own { s with cur := none, place := .terminating pid }
  | resumes {pid : Nat} (hplace : s.place = .interrupted pid) (hstop : s.stop = false) :
      Moves s .own { s with place := .waiting pid }
  | stopsReaped {pid : Nat} {status : WaitStatus} (hplace : s.place = .reaped pid status)
      (hstop : s.stop = true) : Moves s .own { s with cur := none, place := .stopping }
  | fails {pid : Nat} {status : WaitStatus} (hplace : s.place = .reaped pid status)
      (hstop : s.stop = false) (hfatal : FatalStatus status) :
      Moves s .own { s with
        cur := none, pidfile := s.withoutPidfile, socket := false
        place := .returned status.code }
  | respawns {pid : Nat} {status : WaitStatus} (hplace : s.place = .reaped pid status)
      (hstop : s.stop = false) (hfatal : ¬ FatalStatus status) :
      Moves s .own { s with cur := none, place := .sleeping }
  | terminates {pid : Nat} (hplace : s.place = .terminating pid) :
      Moves s .own { s with place := .polling pid 0 200 }
  | polls {pid waitedUs stepUs : Nat} (hplace : s.place = .polling pid waitedUs stepUs)
      (hwaited : waitedUs < 500000) (hchild : s.children pid = some .running) :
      Moves s .own { s with
        place := .polling pid (waitedUs + stepUs)
          (if stepUs < 10000 then stepUs * 5 else stepUs) }
  | pollReaps {pid waitedUs stepUs : Nat} {status : WaitStatus}
      (hplace : s.place = .polling pid waitedUs stepUs)
      (hchild : s.children pid = some (.ended status)) : Moves s .own (s.reap pid .stopping)
  | losesPatience {pid waitedUs stepUs : Nat} (hplace : s.place = .polling pid waitedUs stepUs)
      (hwaited : 500000 ≤ waitedUs) : Moves s .own { s with place := .killing pid }
  | kills {pid : Nat} (hplace : s.place = .killing pid) :
      Moves s .own { s with place := .awaiting pid }
  | awaitReaps {pid : Nat} {status : WaitStatus} (hplace : s.place = .awaiting pid)
      (hchild : s.children pid = some (.ended status)) : Moves s .own (s.reap pid .stopping)
  | returns (hplace : s.place = .stopping) :
      Moves s .own { s with pidfile := s.withoutPidfile, place := .returned rtdbdExitOk }
  | forkFails (hplace : s.place = .forking) : Moves s .forkFails { s with place := .sleeping }
  | forks {pid : Nat} {wrote : Bool} (hplace : s.place = .forking) (hpos : 0 < pid) :
      Moves s (.forks pid wrote) { s with
        cur := some pid
        children := Function.update s.children pid (some .running)
        pidfile := s.writePidfile pid wrote
        place := .waiting pid }
  | ends {pid : Nat} {status : WaitStatus} (hchild : s.children pid = some .running) :
      Moves s (.ends pid status)
        { s with children := Function.update s.children pid (some (.ended status)) }
  | interrupts {pid : Nat} {stops : Bool} (hplace : s.place = .waiting pid) :
      Moves s (.signal stops) { s with stop := s.stop || stops, place := .interrupted pid }
  | signalled {stops : Bool} (hplace : ∀ pid, s.place ≠ .waiting pid) :
      Moves s (.signal stops) { s with stop := s.stop || stops }
  | socket {pid : Nat} {present : Bool} (hchild : s.children pid = some .running) :
      Moves s (.socket pid present) { s with socket := present }

section

variable {s s' : Supervision} {e : SuperviseEvent}

theorem Tracked.isSome_children (h : Tracked s) (pid : Nat) (hplace : s.place.child = some pid) :
    ∃ child, s.children pid = some child :=
  Option.ne_none_iff_exists'.mp ((h.held pid).mpr hplace)

/-- The supervisor's own step is one of the moves. -/
theorem moves_of_next (h : Tracked s) (hnext : s.next = some s') : Moves s .own s' := by
  unfold Supervision.next at hnext
  split at hnext
  next hplace =>
    split at hnext
    next hstop =>
      split at hnext
      next pid hcur =>
        rw [h.idle (.inl hplace)] at hcur
        cases hcur
      next =>
        obtain rfl := Option.some.inj hnext
        exact .stopsIdle hplace hstop
    next hstop =>
      obtain rfl := Option.some.inj hnext
      exact .turns hplace (Bool.not_eq_true _ ▸ hstop)
  next => cases hnext
  next hplace =>
    obtain rfl := Option.some.inj hnext
    exact .wakes hplace
  next pid hplace =>
    obtain ⟨child, hchild⟩ := h.isSome_children pid (by rw [hplace]; rfl)
    rw [hchild] at hnext
    cases child with
    | running => cases hnext
    | ended status =>
        obtain rfl := Option.some.inj hnext
        exact .reaps hplace hchild
  next pid hplace =>
    split at hnext
    next hstop =>
      obtain rfl := Option.some.inj hnext
      exact .gives hplace hstop
    next hstop =>
      obtain rfl := Option.some.inj hnext
      exact .resumes hplace (Bool.not_eq_true _ ▸ hstop)
  next pid status hplace =>
    split at hnext
    next hstop =>
      obtain rfl := Option.some.inj hnext
      exact .stopsReaped hplace hstop
    next hstop =>
      have hstop : s.stop = false := Bool.not_eq_true _ ▸ hstop
      split at hnext
      next hfatal =>
        obtain rfl := Option.some.inj hnext
        exact .fails hplace hstop hfatal
      next hfatal =>
        obtain rfl := Option.some.inj hnext
        exact .respawns hplace hstop hfatal
  next pid hplace =>
    rw [if_neg (Nat.pos_iff_ne_zero.mp (h.pos pid (by rw [hplace]; rfl)))] at hnext
    obtain rfl := Option.some.inj hnext
    exact .terminates hplace
  next pid waitedUs stepUs hplace =>
    split at hnext
    next hwaited =>
      obtain ⟨child, hchild⟩ := h.isSome_children pid (by rw [hplace]; rfl)
      rw [hchild] at hnext
      cases child with
      | running =>
          obtain rfl := Option.some.inj hnext
          exact .polls hplace hwaited hchild
      | ended status =>
          obtain rfl := Option.some.inj hnext
          exact .pollReaps hplace hchild
    next hwaited =>
      obtain rfl := Option.some.inj hnext
      exact .losesPatience hplace (Nat.not_lt.mp hwaited)
  next pid hplace =>
    obtain rfl := Option.some.inj hnext
    exact .kills hplace
  next pid hplace =>
    obtain ⟨child, hchild⟩ := h.isSome_children pid (by rw [hplace]; rfl)
    rw [hchild] at hnext
    cases child with
    | running => cases hnext
    | ended status =>
        obtain rfl := Option.some.inj hnext
        exact .awaitReaps hplace hchild
  next hplace =>
    obtain rfl := Option.some.inj hnext
    exact .returns hplace
  next => cases hnext

/-- Every event is one of the moves. -/
theorem moves_of_step (h : Tracked s) (hstep : s.step e = some s') : Moves s e s' := by
  cases e with
  | own => exact moves_of_next h hstep
  | forkFails =>
      simp only [Supervision.step, Option.ite_none_right_eq_some, Option.some.injEq] at hstep
      obtain ⟨hplace, rfl⟩ := hstep
      exact .forkFails hplace
  | forks pid wrote =>
      simp only [Supervision.step, Option.ite_none_right_eq_some, Option.some.injEq] at hstep
      obtain ⟨⟨hplace, hpos, -⟩, rfl⟩ := hstep
      exact .forks hplace hpos
  | ends pid status =>
      simp only [Supervision.step, Option.ite_none_right_eq_some, Option.some.injEq] at hstep
      obtain ⟨hchild, rfl⟩ := hstep
      exact .ends hchild
  | signal stops =>
      simp only [Supervision.step, Option.some.injEq] at hstep
      subst hstep
      split
      next pid hplace => exact .interrupts hplace
      next hplace => exact .signalled hplace
  | socket pid present =>
      simp only [Supervision.step, Option.ite_none_right_eq_some, Option.some.injEq] at hstep
      obtain ⟨hchild, rfl⟩ := hstep
      exact .socket hchild

end

/-! ## One worker at a time -/

section

variable {s s' : Supervision} {e : SuperviseEvent} {named socket : Bool} {pidfile : Option Nat}

theorem tracked_start : Tracked (.start named pidfile socket) where
  held := fun pid => ⟨fun h => absurd rfl h, fun h => by cases h⟩
  pos := fun pid h => by cases h
  idle := fun _ => rfl
  steps := fun pid waitedUs stepUs h => by cases h

/-- Reaping the child that is held leaves no other. -/
theorem Tracked.reap (h : Tracked s) {pid : Nat} (hplace : s.place.child = some pid) (q : Nat) :
    Function.update s.children pid none q = none := by
  rcases Decidable.em (q = pid) with rfl | hne
  · exact Function.update_self ..
  · rw [Function.update_of_ne hne]
    refine Decidable.of_not_not fun hsome => hne ?_
    exact Option.some.inj (((h.held q).mp hsome).symm.trans hplace)

/-- A place without a child, in a state without children. -/
theorem tracked_of_childless (hplace : s.place.child = none) (hchildren : ∀ q, s.children q = none)
    (hidle : s.place = .top ∨ s.place = .forking ∨ s.place = .sleeping → s.cur = none) :
    Tracked s where
  held := fun q => by rw [hchildren q, hplace]; exact ⟨fun h => absurd rfl h, fun h => by cases h⟩
  pos := fun q h => by rw [hplace] at h; cases h
  idle := hidle
  steps := fun q waitedUs stepUs h => by rw [h] at hplace; cases hplace

theorem Tracked.childless (h : Tracked s) (hplace : s.place.child = none) (q : Nat) :
    s.children q = none := by
  refine Decidable.of_not_not fun hsome => ?_
  have hheld := (h.held q).mp hsome
  rw [hplace] at hheld
  cases hheld

/-- Another place that holds the same child. -/
theorem Tracked.moved (h : Tracked s) {pid : Nat} (hplace : s.place.child = some pid)
    (hchildren : ∀ q, s'.children q = none ↔ s.children q = none)
    (hplace' : s'.place.child = some pid)
    (hsteps : ∀ pid waitedUs stepUs, s'.place = .polling pid waitedUs stepUs →
      stepUs = 200 ∨ stepUs = 1000 ∨ stepUs = 5000 ∨ stepUs = 25000) : Tracked s' where
  held := fun q => by rw [Ne, hchildren q, ← Ne, h.held q, hplace, hplace']
  pos := fun q hq => h.pos q (by rw [hplace, ← hplace', hq])
  idle := fun hidle => by rcases hidle with hat | hat | hat <;> rw [hat] at hplace' <;> cases hplace'
  steps := hsteps

theorem Tracked.moves (h : Tracked s) (hmoves : Moves s e s') : Tracked s' := by
  cases hmoves with
  | stopsIdle hplace | turns hplace | wakes hplace =>
      refine tracked_of_childless rfl (h.childless (by rw [hplace]; rfl)) fun _ => ?_
      exact h.idle (by simp [hplace])
  | returns hplace =>
      refine tracked_of_childless rfl (h.childless (by rw [hplace]; rfl)) fun hidle => ?_
      simp at hidle
  | forkFails hplace =>
      refine tracked_of_childless rfl (h.childless (by rw [hplace]; rfl)) fun _ => ?_
      exact h.idle (.inr (.inl hplace))
  | stopsReaped hplace | fails hplace | respawns hplace =>
      exact tracked_of_childless rfl (h.childless (by rw [hplace]; rfl)) fun _ => rfl
  | reaps hplace =>
      refine tracked_of_childless rfl (h.reap (by rw [hplace]; rfl)) fun hidle => ?_
      simp [Supervision.reap] at hidle
  | pollReaps hplace | awaitReaps hplace =>
      refine tracked_of_childless rfl (h.reap (by rw [hplace]; rfl)) fun hidle => ?_
      simp [Supervision.reap] at hidle
  | gives hplace | resumes hplace | losesPatience hplace | kills hplace | interrupts hplace =>
      exact h.moved (by rw [hplace]; rfl) (fun _ => .rfl) rfl fun _ _ _ heq => by cases heq
  | terminates hplace =>
      refine h.moved (by rw [hplace]; rfl) (fun _ => .rfl) rfl fun _ _ _ heq => ?_
      cases heq
      exact .inl rfl
  | polls hplace =>
      refine h.moved (by rw [hplace]; rfl) (fun _ => .rfl) rfl fun _ _ _ heq => ?_
      cases heq
      rcases h.steps _ _ _ hplace with rfl | rfl | rfl | rfl <;> simp
  | @forks pid wrote hplace hpos =>
      have hnone := h.childless (by rw [hplace]; rfl)
      constructor
      · intro q
        change Function.update s.children pid (some .running) q ≠ none ↔ some pid = some q
        rcases Decidable.em (q = pid) with rfl | hne
        · rw [Function.update_self]
          exact ⟨fun _ => rfl, fun _ h => by cases h⟩
        · rw [Function.update_of_ne hne, hnone q]
          exact ⟨fun h => absurd rfl h, fun h => absurd (Option.some.inj h).symm hne⟩
      · intro q hq
        obtain rfl := Option.some.inj hq
        exact hpos
      · intro hidle
        simp at hidle
      · intro _ _ _ heq
        cases heq
  | @ends pid status hchild =>
      have hplace : s.place.child = some pid :=
        (h.held pid).mp (by rw [hchild]; exact Option.some_ne_none _)
      refine h.moved hplace (fun q => ?_) hplace h.steps
      change Function.update s.children pid _ q = none ↔ _
      rcases Decidable.em (q = pid) with rfl | hne
      · rw [Function.update_self, hchild]
        exact ⟨fun h => (by cases h), fun h => (by cases h)⟩
      · rw [Function.update_of_ne hne]
  | signalled => exact ⟨h.held, h.pos, h.idle, h.steps⟩
  | socket => exact ⟨h.held, h.pos, h.idle, h.steps⟩

/-- What the supervisor and its run are promised: no worker beside the one that its code
holds, none left behind when it returns, signals to that one only, and its number in the
pid file. -/
structure OneWorker (past : List (Supervision × SuperviseEvent)) (s : Supervision) : Prop where
  sole : ∀ p q, s.children p ≠ none → s.children q ≠ none → p = q
  signals : ∀ pid, s.place = .terminating pid ∨ s.place = .killing pid → s.children pid ≠ none
  held : ∀ pid, s.children pid ≠ none → s.place.child = some pid
  left : ∀ code, s.place = .returned code → ∀ pid, s.children pid = none
  pidfile : ∀ pid, s.children pid ≠ none → s.named = true →
    (∀ p ∈ past, p.2 ≠ .forks pid false) → s.pidfile = some pid

theorem step_after (hcan : s.Can e) : s.step e = some (s.after e) := by
  obtain ⟨s', hs'⟩ := Option.isSome_iff_exists.mp hcan
  rw [Supervision.after, hs', Option.getD_some]

theorem moves_after (h : Tracked s) (hcan : s.Can e) : Moves s e (s.after e) :=
  moves_of_step h (step_after hcan)

theorem tracked_of_runs {past : List (Supervision × SuperviseEvent)}
    (hrun : (Supervision.start named pidfile socket).Runs past s) : Tracked s :=
  hrun.invariant_state tracked_start fun _ _ h hcan => h.moves (moves_after h hcan)

/-- A move that neither forks nor removes the pid file leaves what it says. -/
theorem Moves.pidfile_eq (hmoves : Moves s e s') {pid : Nat} (hplace' : s'.place.child = some pid) :
    (∃ wrote, e = .forks pid wrote ∧ s'.pidfile = s.writePidfile pid wrote) ∨
      s.place.child = some pid ∧ s'.pidfile = s.pidfile := by
  cases hmoves with
  | stopsIdle | turns | wakes | stopsReaped | fails | respawns | returns | forkFails =>
      cases hplace'
  | reaps | pollReaps | awaitReaps => cases hplace'
  | gives hplace | resumes hplace | terminates hplace | polls hplace | losesPatience hplace
  | kills hplace | interrupts hplace =>
      rw [hplace]
      exact .inr ⟨hplace', rfl⟩
  | forks =>
      obtain rfl := Option.some.inj hplace'
      exact .inl ⟨_, rfl, rfl⟩
  | ends | signalled | socket => exact .inr ⟨hplace', rfl⟩

theorem Moves.named_eq (hmoves : Moves s e s') : s'.named = s.named := by
  cases hmoves <;> rfl

/-- A worker is started, and a signal comes that does not stop. -/
def signalledEvents : List SuperviseEvent := [.own, .forks 7 true, .signal false]

/-- **One worker at a time.**  Whatever the workers do and whenever signals come, the
supervisor has at most one worker, which it holds on to until it has reaped it. -/
theorem oneWorker {past : List (Supervision × SuperviseEvent)}
    (hrun : (Supervision.start named pidfile socket).Runs past s) : OneWorker past s := by
  have htracked := tracked_of_runs hrun
  have hfile : Tracked s ∧ ∀ pid, s.place.child = some pid → s.named = true →
      (∀ p ∈ past, p.2 ≠ .forks pid false) → s.pidfile = some pid := by
    refine hrun.invariant (P := fun past s => Tracked s ∧ ∀ pid, s.place.child = some pid →
      s.named = true → (∀ p ∈ past, p.2 ≠ .forks pid false) → s.pidfile = some pid) ?_ ?_
    · exact ⟨tracked_start, fun pid hplace => by cases hplace⟩
    · intro past s e h hcan
      obtain ⟨htracked, hfile⟩ := h
      have hmoves := moves_after htracked hcan
      refine ⟨htracked.moves hmoves, fun pid hplace hnamed hwrote => ?_⟩
      rw [hmoves.named_eq] at hnamed
      rcases hmoves.pidfile_eq hplace with ⟨wrote, rfl, heq⟩ | ⟨hbefore, heq⟩
      · have hsucceeded : wrote = true := by
          cases wrote with
          | true => rfl
          | false => exact absurd rfl (hwrote _ List.mem_cons_self)
        rw [heq, Supervision.writePidfile, if_pos ⟨hnamed, hsucceeded⟩]
      · rw [heq]
        exact hfile pid hbefore hnamed fun p hp => hwrote p (List.mem_cons_of_mem _ hp)
  constructor
  · intro p q hp hq
    exact Option.some.inj (((htracked.held p).mp hp).symm.trans ((htracked.held q).mp hq))
  · rintro pid (hplace | hplace)
    · exact (htracked.held pid).mpr (by rw [hplace]; rfl)
    · exact (htracked.held pid).mpr (by rw [hplace]; rfl)
  · exact fun pid => (htracked.held pid).mp
  · exact fun code hplace => htracked.childless (by rw [hplace]; rfl)
  · exact fun pid hpid => hfile.2 pid ((htracked.held pid).mp hpid)

/-- A worker is there, and `SIGUSR1` has come. -/
theorem oneWorker_signalled :
    OneWorker (Trace.passed Supervision.after signalledEvents (.start true none false) [])
        (signalledEvents.foldl Supervision.after (.start true none false)) ∧
      (signalledEvents.foldl Supervision.after (.start true none false)).pidfile = some 7 :=
  ⟨oneWorker (Trace.follow signalledEvents .start (by decide)), by decide⟩

end

/-! ## Which worker is the last -/

/-- The worker that a step takes for ended, and how it ended. -/
def endedAt (p : Supervision × SuperviseEvent) : Option (Nat × WaitStatus) :=
  match p.1.place, p.2 with
  | .reaped pid status, .own => some (pid, status)
  | _, _ => none

/-- The workers of a run that ended by themselves, the last one first. -/
def endings (past : List (Supervision × SuperviseEvent)) : List (Nat × WaitStatus) :=
  past.filterMap endedAt

/-- The worker that an event starts. -/
def SuperviseEvent.forked : SuperviseEvent → Option Nat
  | .forks pid _ => some pid
  | _ => none

/-- The workers of a run, the last one first. -/
def workers (past : List (Supervision × SuperviseEvent)) : List Nat :=
  past.filterMap fun p => p.2.forked

/-- How the supervisor replaces its workers and returns: a worker is started only when the
one before it has ended, and not with a fatal code; the supervisor returns such a code when
it was not told to stop, with both files removed, and 0 only when it was. -/
structure ReturnsRight (past : List (Supervision × SuperviseEvent)) (s : Supervision) : Prop where
  oneByOne : workers past = (endings past).map Prod.fst ∨
    ∃ pid, workers past = pid :: (endings past).map Prod.fst
  harmless : ∀ ending ∈ (endings past).tail, ¬ FatalStatus ending.2
  final : ∀ ending, (endings past).head? = some ending → FatalStatus ending.2 →
    s.place = .returned ending.2.code ∨
      s.stop = true ∧ (s.place = .stopping ∨ s.place = .returned rtdbdExitOk)
  stopped : s.place = .returned rtdbdExitOk → s.stop = true
  passedOn : ∀ code, s.place = .returned code → code ≠ rtdbdExitOk →
    (∃ pid, (endings past).head? = some (pid, .exited code)) ∧
      (code = rtdbdExitConfig ∨ code = rtdbdExitSelfcheck) ∧ s.socket = false
  removed : ∀ code, s.place = .returned code → s.named = true → s.pidfile = none

/-- The worker that is there, or has just been reaped. -/
def SupervisePlace.worker : SupervisePlace → Option Nat
  | .reaped pid _ => some pid
  | place => place.child

/-- `terminate_and_reap` is at work there. -/
def SupervisePlace.doomed : SupervisePlace → Bool
  | .terminating _ => true
  | .polling _ _ _ => true
  | .killing _ => true
  | .awaiting _ => true
  | _ => false

/-- How far the supervisor has come. -/
inductive Progress (past : List (Supervision × SuperviseEvent)) (s : Supervision) : Prop where
  | idle (hplace : s.place = .top ∨ s.place = .forking ∨ s.place = .sleeping)
      (hworkers : workers past = (endings past).map Prod.fst)
      (hharmless : ∀ ending ∈ endings past, ¬ FatalStatus ending.2)
  | busy (pid : Nat) (hplace : s.place.worker = some pid)
      (hstop : s.place.doomed = true → s.stop = true)
      (hworkers : workers past = pid :: (endings past).map Prod.fst)
      (hharmless : ∀ ending ∈ endings past, ¬ FatalStatus ending.2)
  | stopping (hplace : s.place = .stopping ∨
        s.place = .returned rtdbdExitOk ∧ (s.named = true → s.pidfile = none))
      (hstop : s.stop = true)
      (hworkers : workers past = (endings past).map Prod.fst ∨
        ∃ pid, workers past = pid :: (endings past).map Prod.fst)
      (hharmless : ∀ ending ∈ (endings past).tail, ¬ FatalStatus ending.2)
  | failed (pid code : Nat) (rest : List (Nat × WaitStatus))
      (hplace : s.place = .returned code) (hfatal : FatalStatus (.exited code))
      (hendings : endings past = (pid, .exited code) :: rest)
      (hworkers : workers past = (endings past).map Prod.fst)
      (hharmless : ∀ ending ∈ rest, ¬ FatalStatus ending.2)
      (hfiles : s.socket = false ∧ (s.named = true → s.pidfile = none))

section

variable {s s' : Supervision} {e : SuperviseEvent} {past : List (Supervision × SuperviseEvent)}

theorem endings_cons_of_none (h : endedAt (s, e) = none) :
    endings ((s, e) :: past) = endings past := List.filterMap_cons_none h

theorem workers_cons_of_none (h : e.forked = none) : workers ((s, e) :: past) = workers past :=
  List.filterMap_cons_none h

/-- No worker is taken for ended where the place is another. -/
theorem endedAt_of_place (hplace : ∀ pid status, s.place ≠ .reaped pid status) :
    endedAt (s, e) = none := by
  unfold endedAt
  split
  next heq _ => exact absurd heq (hplace _ _)
  next => rfl

theorem endings_reaped (past : List (Supervision × SuperviseEvent)) {s : Supervision} {pid : Nat}
    {status : WaitStatus} (hplace : s.place = .reaped pid status) :
    endings ((s, .own) :: past) = (pid, status) :: endings past := by
  refine List.filterMap_cons_some ?_
  unfold endedAt
  rw [hplace]

/-- Signals and the ends of children change neither list. -/
theorem endedAt_of_event (he : e ≠ .own) : endedAt (s, e) = none := by
  unfold endedAt
  split
  next heq => exact absurd heq he
  next => rfl

/-- A busy supervisor whose step is neither the end of the worker nor a fork. -/
theorem Progress.stays_busy {pid : Nat} (hplace : s.place.worker = some pid)
    (hplace' : s'.place.worker = some pid) (hended : endedAt (s, e) = none)
    (hforked : e.forked = none) (hstop : s'.place.doomed = true → s'.stop = true)
    (h : Progress past s) : Progress ((s, e) :: past) s' := by
  cases h with
  | idle hidle => rcases hidle with hat | hat | hat <;> rw [hat] at hplace <;> cases hplace
  | busy q hq _ hworkers hharmless =>
      obtain rfl := Option.some.inj (hplace.symm.trans hq)
      refine .busy pid hplace' hstop ?_ ?_
      · rw [workers_cons_of_none hforked, endings_cons_of_none hended, hworkers]
      · rw [endings_cons_of_none hended]
        exact hharmless
  | stopping hstopping =>
      rcases hstopping with hat | ⟨hat, -⟩ <;> rw [hat] at hplace <;> cases hplace
  | failed q code rest hat => rw [hat] at hplace; cases hplace

/-- The same for one that is idle. -/
theorem Progress.stays_idle (hplace : s.place = .top ∨ s.place = .forking ∨ s.place = .sleeping)
    (hplace' : s'.place = .top ∨ s'.place = .forking ∨ s'.place = .sleeping)
    (hended : endedAt (s, e) = none) (hforked : e.forked = none) (h : Progress past s) :
    Progress ((s, e) :: past) s' := by
  cases h with
  | idle _ hworkers hharmless =>
      refine .idle hplace' ?_ ?_
      · rw [workers_cons_of_none hforked, endings_cons_of_none hended, hworkers]
      · rw [endings_cons_of_none hended]
        exact hharmless
  | busy q hq => rcases hplace with hat | hat | hat <;> rw [hat] at hq <;> cases hq
  | stopping hstopping =>
      rcases hstopping with hat | ⟨hat, -⟩ <;> rcases hplace with hat' | hat' | hat' <;>
        rw [hat'] at hat <;> cases hat
  | failed q code rest hat =>
      rcases hplace with hat' | hat' | hat' <;> rw [hat'] at hat <;> cases hat

/-- What is known at a place with a worker. -/
theorem Progress.of_worker (h : Progress past s) (pid : Nat) (hplace : s.place.worker = some pid) :
    (s.place.doomed = true → s.stop = true) ∧
      workers past = pid :: (endings past).map Prod.fst ∧
      ∀ ending ∈ endings past, ¬ FatalStatus ending.2 := by
  cases h with
  | idle hidle => rcases hidle with hat | hat | hat <;> rw [hat] at hplace <;> cases hplace
  | busy q hq hstop hworkers hharmless =>
      obtain rfl := Option.some.inj (hplace.symm.trans hq)
      exact ⟨hstop, hworkers, hharmless⟩
  | stopping hstopping =>
      rcases hstopping with hat | ⟨hat, -⟩ <;> rw [hat] at hplace <;> cases hplace
  | failed q code rest hat => rw [hat] at hplace; cases hplace

/-- What is known where the supervisor is idle. -/
theorem Progress.of_idle (h : Progress past s)
    (hplace : s.place = .top ∨ s.place = .forking ∨ s.place = .sleeping) :
    workers past = (endings past).map Prod.fst ∧
      ∀ ending ∈ endings past, ¬ FatalStatus ending.2 := by
  cases h with
  | idle _ hworkers hharmless => exact ⟨hworkers, hharmless⟩
  | busy q hq => rcases hplace with hat | hat | hat <;> rw [hat] at hq <;> cases hq
  | stopping hstopping =>
      rcases hstopping with hat | ⟨hat, -⟩ <;> rcases hplace with hat' | hat' | hat' <;>
        rw [hat'] at hat <;> cases hat
  | failed q code rest hat =>
      rcases hplace with hat' | hat' | hat' <;> rw [hat'] at hat <;> cases hat

/-- The last worker of a supervisor that stops has been reaped. -/
theorem Progress.reaped_stopping (h : Progress past s) {pid : Nat}
    (hplace : s.place.worker = some pid) (hdoomed : s.place.doomed = true)
    (hplace' : s'.place = .stopping) (hstop' : s'.stop = s.stop) :
    Progress ((s, .own) :: past) s' := by
  obtain ⟨hstop, hworkers, hharmless⟩ := h.of_worker _ hplace
  have hended : endedAt (s, .own) = none := by
    refine endedAt_of_place fun q status hat => ?_
    rw [hat] at hdoomed
    cases hdoomed
  refine .stopping (.inl hplace') (hstop'.trans (hstop hdoomed)) ?_ ?_
  · rw [workers_cons_of_none rfl, endings_cons_of_none hended]
    exact .inr ⟨pid, hworkers⟩
  · rw [endings_cons_of_none hended]
    exact fun ending hmem => hharmless ending (List.mem_of_mem_tail hmem)

/-- What happens beside the supervisor leaves it where it is. -/
theorem Progress.aside (h : Progress past s) (he : e ≠ .own) (hforked : e.forked = none)
    (hplace : s'.place = s.place) (hstop : s.stop = true → s'.stop = true)
    (hnamed : s'.named = s.named) (hpidfile : s'.pidfile = s.pidfile)
    (hsocket : ∀ code, s.place = .returned code → s'.socket = s.socket) :
    Progress ((s, e) :: past) s' := by
  have hended : endings ((s, e) :: past) = endings past :=
    endings_cons_of_none (endedAt_of_event he)
  have hworkers : workers ((s, e) :: past) = workers past := workers_cons_of_none hforked
  cases h with
  | idle hidle hsame hharmless =>
      refine .idle (hplace ▸ hidle) ?_ ?_
      · rw [hworkers, hended, hsame]
      · rw [hended]
        exact hharmless
  | busy pid hpid hdoomed hsame hharmless =>
      refine .busy pid (hplace ▸ hpid) (fun h => hstop (hdoomed (hplace ▸ h))) ?_ ?_
      · rw [hworkers, hended, hsame]
      · rw [hended]
        exact hharmless
  | stopping hat hstopped hsame hharmless =>
      refine .stopping ?_ (hstop hstopped) ?_ ?_
      · rw [hplace, hnamed, hpidfile]
        exact hat
      · rw [hworkers, hended]
        exact hsame
      · rw [hended]
        exact hharmless
  | failed pid code rest hat hfatal hlast hsame hharmless hfiles =>
      refine .failed pid code rest (hplace ▸ hat) hfatal (hended ▸ hlast) ?_ hharmless ?_
      · rw [hworkers, hended, hsame]
      · rw [hsocket code hat, hnamed, hpidfile]
        exact hfiles

theorem Progress.moves (h : Progress past s) (htracked : Tracked s) (hmoves : Moves s e s') :
    Progress ((s, e) :: past) s' := by
  cases hmoves with
  | stopsIdle hplace hstop =>
      obtain ⟨hworkers, hharmless⟩ := h.of_idle (.inl hplace)
      have hended : endedAt (s, .own) = none := endedAt_of_place (by simp [hplace])
      refine .stopping (.inl rfl) hstop (.inl ?_) ?_
      · rw [workers_cons_of_none rfl, endings_cons_of_none hended, hworkers]
      · rw [endings_cons_of_none hended]
        exact fun ending hmem => hharmless ending (List.mem_of_mem_tail hmem)
  | turns hplace =>
      exact h.stays_idle (.inl hplace) (.inr (.inl rfl)) (endedAt_of_place (by simp [hplace])) rfl
  | wakes hplace =>
      exact h.stays_idle (.inr (.inr hplace)) (.inl rfl) (endedAt_of_place (by simp [hplace])) rfl
  | forkFails hplace =>
      exact h.stays_idle (.inr (.inl hplace)) (.inr (.inr rfl)) (endedAt_of_event (by simp)) rfl
  | @reaps pid status hplace =>
      exact h.stays_busy (by rw [hplace]; rfl) rfl (endedAt_of_place (by simp [hplace])) rfl
        fun hdoomed => by cases hdoomed
  | gives hplace hstop =>
      exact h.stays_busy (by rw [hplace]; rfl) rfl (endedAt_of_place (by simp [hplace])) rfl
        fun _ => hstop
  | resumes hplace =>
      exact h.stays_busy (by rw [hplace]; rfl) rfl (endedAt_of_place (by simp [hplace])) rfl
        fun hdoomed => by cases hdoomed
  | @stopsReaped pid status hplace hstop =>
      obtain ⟨-, hworkers, hharmless⟩ := h.of_worker pid (by rw [hplace]; rfl)
      have hended := endings_reaped past hplace
      refine .stopping (.inl rfl) hstop (.inl ?_) ?_
      · rw [workers_cons_of_none rfl, hended, hworkers]
        rfl
      · rw [hended]
        exact hharmless
  | @fails pid status hplace hstop hfatal =>
      obtain ⟨-, hworkers, hharmless⟩ := h.of_worker pid (by rw [hplace]; rfl)
      have hended := endings_reaped past hplace
      cases status with
      | signaled sig => exact False.elim hfatal
      | exited code =>
          refine .failed pid code (endings past) rfl hfatal hended ?_ hharmless ⟨rfl, ?_⟩
          · rw [workers_cons_of_none rfl, hended, hworkers]
            rfl
          · exact fun hnamed => if_pos hnamed
  | @respawns pid status hplace hstop hfatal =>
      obtain ⟨-, hworkers, hharmless⟩ := h.of_worker pid (by rw [hplace]; rfl)
      have hended := endings_reaped past hplace
      refine .idle (.inr (.inr rfl)) ?_ ?_
      · rw [workers_cons_of_none rfl, hended, hworkers]
        rfl
      · rw [hended]
        intro ending hmem
        rcases List.mem_cons.mp hmem with rfl | hmem
        · exact hfatal
        · exact hharmless ending hmem
  | terminates hplace =>
      have hdoomed := (h.of_worker _ (by rw [hplace]; rfl)).1 (by rw [hplace]; rfl)
      exact h.stays_busy (by rw [hplace]; rfl) rfl (endedAt_of_place (by simp [hplace])) rfl
        fun _ => hdoomed
  | polls hplace =>
      have hdoomed := (h.of_worker _ (by rw [hplace]; rfl)).1 (by rw [hplace]; rfl)
      exact h.stays_busy (by rw [hplace]; rfl) rfl (endedAt_of_place (by simp [hplace])) rfl
        fun _ => hdoomed
  | losesPatience hplace =>
      have hdoomed := (h.of_worker _ (by rw [hplace]; rfl)).1 (by rw [hplace]; rfl)
      exact h.stays_busy (by rw [hplace]; rfl) rfl (endedAt_of_place (by simp [hplace])) rfl
        fun _ => hdoomed
  | kills hplace =>
      have hdoomed := (h.of_worker _ (by rw [hplace]; rfl)).1 (by rw [hplace]; rfl)
      exact h.stays_busy (by rw [hplace]; rfl) rfl (endedAt_of_place (by simp [hplace])) rfl
        fun _ => hdoomed
  | pollReaps hplace =>
      exact h.reaped_stopping (by rw [hplace]; rfl) (by rw [hplace]; rfl) rfl rfl
  | awaitReaps hplace =>
      exact h.reaped_stopping (by rw [hplace]; rfl) (by rw [hplace]; rfl) rfl rfl
  | returns hplace =>
      have hended : endedAt (s, .own) = none := endedAt_of_place (by simp [hplace])
      cases h with
      | idle hidle => rcases hidle with hat | hat | hat <;> rw [hat] at hplace <;> cases hplace
      | busy q hq => rw [hplace] at hq; cases hq
      | failed q code rest hat => rw [hplace] at hat; cases hat
      | stopping _ hstop hworkers hharmless =>
          refine .stopping (.inr ⟨rfl, fun hnamed => if_pos hnamed⟩) hstop ?_ ?_
          · rw [workers_cons_of_none rfl, endings_cons_of_none hended]
            exact hworkers
          · rw [endings_cons_of_none hended]
            exact hharmless
  | @forks pid wrote hplace =>
      obtain ⟨hworkers, hharmless⟩ := h.of_idle (.inr (.inl hplace))
      have hended : endedAt (s, .forks pid wrote) = none := endedAt_of_event (by simp)
      refine .busy pid rfl (fun hdoomed => by cases hdoomed) ?_ ?_
      · rw [endings_cons_of_none hended, ← hworkers]
        exact List.filterMap_cons_some rfl
      · rw [endings_cons_of_none hended]
        exact hharmless
  | @interrupts pid stops hplace =>
      exact h.stays_busy (by rw [hplace]; rfl) rfl (endedAt_of_event (by simp)) rfl
        fun hdoomed => by cases hdoomed
  | ends =>
      exact h.aside (by simp) rfl rfl id rfl rfl fun _ _ => rfl
  | signalled =>
      refine h.aside (by simp) rfl rfl (fun hstop => ?_) rfl rfl fun _ _ => rfl
      exact Bool.or_eq_true_iff.mpr (.inl hstop)
  | @socket pid present hchild =>
      refine h.aside (by simp) rfl rfl id rfl rfl fun code hplace => ?_
      rw [htracked.childless (by rw [hplace]; rfl)] at hchild
      cases hchild

variable {named socket : Bool} {pidfile : Option Nat}

/-- A worker that crashes is replaced by one that ends with the code of the configuration. -/
def refusedEvents : List SuperviseEvent :=
  [.own, .forks 7 true, .ends 7 (.signaled 11), .own, .own, .own, .own, .forks 8 true,
    .ends 8 (.exited 2), .own, .own]

/-- **Respawned until it fails for good or is told to stop.** -/
theorem returnsRight (hrun : (Supervision.start named pidfile socket).Runs past s) :
    ReturnsRight past s := by
  have hboth : Tracked s ∧ Progress past s := by
    refine hrun.invariant (P := fun past s => Tracked s ∧ Progress past s) ?_ ?_
    · exact ⟨tracked_start, .idle (.inl rfl) rfl fun _ hmem => absurd hmem List.not_mem_nil⟩
    · intro past s e h hcan
      have hmoves := moves_after h.1 hcan
      exact ⟨h.1.moves hmoves, h.2.moves h.1 hmoves⟩
  obtain ⟨-, hprogress⟩ := hboth
  cases hprogress with
  | idle hplace hworkers hharmless =>
      have hnot : ∀ code, s.place ≠ .returned code := by
        rcases hplace with hat | hat | hat <;> simp [hat]
      exact
        { oneByOne := .inl hworkers
          harmless := fun ending hmem => hharmless ending (List.mem_of_mem_tail hmem)
          final := fun ending hlast hfatal =>
            absurd hfatal (hharmless ending (List.mem_of_mem_head? hlast))
          stopped := fun hat => absurd hat (hnot _)
          passedOn := fun code hat => absurd hat (hnot code)
          removed := fun code hat => absurd hat (hnot code) }
  | busy pid hplace _ hworkers hharmless =>
      have hnot : ∀ code, s.place ≠ .returned code := by
        intro code hat
        rw [hat] at hplace
        cases hplace
      exact
        { oneByOne := .inr ⟨pid, hworkers⟩
          harmless := fun ending hmem => hharmless ending (List.mem_of_mem_tail hmem)
          final := fun ending hlast hfatal =>
            absurd hfatal (hharmless ending (List.mem_of_mem_head? hlast))
          stopped := fun hat => absurd hat (hnot _)
          passedOn := fun code hat => absurd hat (hnot code)
          removed := fun code hat => absurd hat (hnot code) }
  | stopping hplace hstop hworkers hharmless =>
      have hreturned : ∀ code, s.place = .returned code →
          code = rtdbdExitOk ∧ (s.named = true → s.pidfile = none) := by
        intro code hat
        rcases hplace with hat' | ⟨hat', hfile⟩
        · rw [hat'] at hat
          cases hat
        · rw [hat'] at hat
          cases hat
          exact ⟨rfl, hfile⟩
      exact
        { oneByOne := hworkers
          harmless := hharmless
          final := fun _ _ _ => .inr ⟨hstop, hplace.imp id And.left⟩
          stopped := fun _ => hstop
          passedOn := fun code hat hcode => absurd (hreturned code hat).1 hcode
          removed := fun code hat => (hreturned code hat).2 }
  | failed pid code rest hplace hfatal hlast hworkers hharmless hfiles =>
      have hcode : ∀ code', s.place = .returned code' → code' = code := by
        intro code' hat
        rw [hplace] at hat
        cases hat
        rfl
      exact
        { oneByOne := .inl hworkers
          harmless := by rw [hlast]; exact hharmless
          final := fun ending hhead _ => by
            rw [hlast] at hhead
            obtain rfl := Option.some.inj hhead
            exact .inl hplace
          stopped := fun hat => by
            rw [← hcode _ hat] at hfatal
            rcases hfatal with h | h <;> cases h
          passedOn := fun code' hat _ => by
            rw [hcode code' hat, hlast]
            exact ⟨⟨pid, rfl⟩, hfatal, hfiles.1⟩
          removed := fun _ _ => hfiles.2 }

/-- The first worker crashes, the second refuses its configuration. -/
theorem returnsRight_refused :
    ReturnsRight (Trace.passed Supervision.after refusedEvents (.start true (some 4) true) [])
        (refusedEvents.foldl Supervision.after (.start true (some 4) true)) ∧
      (refusedEvents.foldl Supervision.after (.start true (some 4) true)).place =
        .returned rtdbdExitConfig :=
  ⟨returnsRight (Trace.follow refusedEvents .start (by decide)), by decide⟩

end

/-! ## How long it takes to stop -/

/-- The event is a step of the supervisor's own. -/
def SuperviseEvent.byItself : SuperviseEvent → Bool
  | .own => true
  | .forkFails => true
  | .forks _ _ => true
  | _ => false

/-- The polls that the bounded wait still makes. -/
def pollsLeft (waitedUs stepUs : Nat) : Nat :=
  if 10000 ≤ stepUs then (524999 - waitedUs) / 25000
  else if stepUs = 5000 then 1 + (524999 - (waitedUs + 5000)) / 25000
  else if stepUs = 1000 then 2 + (524999 - (waitedUs + 6000)) / 25000
  else 3 + (524999 - (waitedUs + 6200)) / 25000

/-- The steps that a supervisor told to stop can still make. -/
def SupervisePlace.stepsLeft : SupervisePlace → Nat
  | .top => 2
  | .forking => 30
  | .sleeping => 3
  | .waiting _ => 29
  | .interrupted _ => 29
  | .reaped _ _ => 2
  | .terminating _ => 28
  | .polling _ waitedUs stepUs => 4 + pollsLeft waitedUs stepUs
  | .killing _ => 3
  | .awaiting _ => 2
  | .stopping => 1
  | .returned _ => 0

/-- A supervisor that has been told to stop makes at most 30 more steps, starts at most one
more worker, and is held up by nothing but a worker that is still running. -/
structure StopsSoon (past : List (Supervision × SuperviseEvent)) (s : Supervision) : Prop where
  steps : past.countP (fun p => p.1.stop && p.2.byItself) ≤ 30
  forks : past.countP (fun p => p.1.stop && p.2.forked.isSome) ≤ 1
  heldUp : (∀ e, SuperviseEvent.byItself e = true → ¬ s.Can e) →
    (∃ code, s.place = .returned code) ∨
      ∃ pid, (s.place = .waiting pid ∨ s.place = .awaiting pid) ∧
        s.children pid = some .running

theorem pollsLeft_le (waitedUs stepUs : Nat) : pollsLeft waitedUs stepUs ≤ 23 := by
  unfold pollsLeft
  split
  · omega
  · split
    · omega
    · split <;> omega

/-- Each poll is one less. -/
theorem pollsLeft_next {waitedUs stepUs : Nat} (hwaited : waitedUs < 500000)
    (hsteps : stepUs = 200 ∨ stepUs = 1000 ∨ stepUs = 5000 ∨ stepUs = 25000) :
    1 + pollsLeft (waitedUs + stepUs) (if stepUs < 10000 then stepUs * 5 else stepUs) ≤
      pollsLeft waitedUs stepUs := by
  rcases hsteps with rfl | rfl | rfl | rfl
  · simp only [pollsLeft, Nat.reduceLT, Nat.reduceMul, Nat.reduceLeDiff, Nat.reduceEqDiff,
      if_true, if_false]
    omega
  · simp only [pollsLeft, Nat.reduceLT, Nat.reduceMul, Nat.reduceLeDiff, Nat.reduceEqDiff,
      if_true, if_false]
    omega
  · simp only [pollsLeft, Nat.reduceLT, Nat.reduceMul, Nat.reduceLeDiff, Nat.reduceEqDiff,
      if_true, if_false]
    omega
  · simp only [pollsLeft, Nat.reduceLT, Nat.reduceLeDiff, if_true, if_false]
    omega

theorem SupervisePlace.stepsLeft_le (place : SupervisePlace) : place.stepsLeft ≤ 30 := by
  cases place with
  | polling pid waitedUs stepUs =>
      have hle := pollsLeft_le waitedUs stepUs
      rw [stepsLeft]
      omega
  | _ => simp only [stepsLeft]; omega

section

variable {s s' : Supervision} {e : SuperviseEvent} {past : List (Supervision × SuperviseEvent)}

/-- A move of a supervisor told to stop uses up a step, if it is its own. -/
theorem Moves.stepsLeft (h : Tracked s) (hmoves : Moves s e s') (hstop : s.stop = true) :
    s'.stop = true ∧
      (if e.byItself then 1 else 0) + s'.place.stepsLeft ≤ s.place.stepsLeft := by
  cases hmoves with
  | turns _ hnot | resumes _ hnot | fails _ hnot | respawns _ hnot =>
      rw [hstop] at hnot
      cases hnot
  | stopsIdle hplace | wakes hplace | reaps hplace | gives hplace | stopsReaped hplace
  | kills hplace | awaitReaps hplace | returns hplace | forkFails hplace | forks hplace =>
      refine ⟨hstop, ?_⟩
      simp [hplace, SuperviseEvent.byItself, SupervisePlace.stepsLeft, Supervision.reap]
  | terminates hplace =>
      refine ⟨hstop, ?_⟩
      simp [hplace, SuperviseEvent.byItself, SupervisePlace.stepsLeft, pollsLeft]
  | polls hplace hwaited =>
      rw [hplace]
      refine ⟨hstop, ?_⟩
      have hnext := pollsLeft_next hwaited (h.steps _ _ _ hplace)
      simp only [SuperviseEvent.byItself, SupervisePlace.stepsLeft, if_true]
      omega
  | pollReaps hplace =>
      rw [hplace]
      refine ⟨hstop, ?_⟩
      simp only [SuperviseEvent.byItself, SupervisePlace.stepsLeft, Supervision.reap, if_true]
      omega
  | losesPatience hplace =>
      rw [hplace]
      refine ⟨hstop, ?_⟩
      simp only [SuperviseEvent.byItself, SupervisePlace.stepsLeft, if_true]
      omega
  | ends | socket => exact ⟨hstop, Nat.le_of_eq (Nat.zero_add _)⟩
  | interrupts hplace =>
      rw [hplace]
      exact ⟨by simp [hstop], Nat.le_of_eq (Nat.zero_add _)⟩
  | signalled => exact ⟨by simp [hstop], Nat.le_of_eq (Nat.zero_add _)⟩

/-- It comes to `fork` at most once more. -/
theorem Moves.forksLeft (hmoves : Moves s e s') (hstop : s.stop = true) :
    (if e.forked.isSome then 1 else 0) + (if s'.place = .forking then 1 else 0) ≤
      if s.place = .forking then 1 else 0 := by
  cases hmoves with
  | turns _ hnot | resumes _ hnot | fails _ hnot | respawns _ hnot =>
      rw [hstop] at hnot
      cases hnot
  | stopsIdle hplace | wakes hplace | reaps hplace | gives hplace | stopsReaped hplace
  | terminates hplace | polls hplace | pollReaps hplace | losesPatience hplace | kills hplace
  | awaitReaps hplace | returns hplace | forkFails hplace | forks hplace | interrupts hplace =>
      simp [hplace, SuperviseEvent.forked, Supervision.reap]
  | ends | socket | signalled => simp [SuperviseEvent.forked]

/-- A child that is waited for is running, or it can be reaped. -/
theorem Tracked.running (h : Tracked s) {pid : Nat} (hplace : s.place.child = some pid)
    (hended : ∀ status, s.children pid ≠ some (.ended status)) :
    s.children pid = some .running := by
  obtain ⟨child, hchild⟩ := h.isSome_children _ hplace
  cases child with
  | running => exact hchild
  | ended status => exact absurd hchild (hended status)

/-- What holds a supervisor up that has been told to stop. -/
theorem held_up (h : Tracked s)
    (hheld : ∀ e, SuperviseEvent.byItself e = true → ¬ s.Can e) :
    (∃ code, s.place = .returned code) ∨
      ∃ pid, (s.place = .waiting pid ∨ s.place = .awaiting pid) ∧
        s.children pid = some .running := by
  have hnext : s.next = none := Option.not_isSome_iff_eq_none.mp (hheld .own rfl)
  have hfork : s.place ≠ .forking := by
    intro hplace
    refine hheld .forkFails rfl ?_
    rw [Supervision.Can, Supervision.step, if_pos hplace]
    rfl
  unfold Supervision.next at hnext
  split at hnext
  next => split at hnext <;> first | cases hnext | (split at hnext <;> cases hnext)
  next hplace => exact absurd hplace hfork
  next => cases hnext
  next pid hplace =>
    refine .inr ⟨pid, .inl hplace, h.running (by rw [hplace]; rfl) fun status hchild => ?_⟩
    rw [hchild] at hnext
    cases hnext
  next => split at hnext <;> cases hnext
  next => split at hnext <;> first | cases hnext | (split at hnext <;> cases hnext)
  next => split at hnext <;> cases hnext
  next => split at hnext <;> first | cases hnext | (split at hnext <;> cases hnext)
  next => cases hnext
  next pid hplace =>
    refine .inr ⟨pid, .inr hplace, h.running (by rw [hplace]; rfl) fun status hchild => ?_⟩
    rw [hchild] at hnext
    cases hnext
  next => cases hnext
  next code hplace => exact .inl ⟨code, hplace⟩

variable {named socket : Bool} {pidfile : Option Nat}

/-- The supervisor is told to stop, and its worker ends only with the second signal. -/
def deafEvents : List SuperviseEvent :=
  [.own, .forks 7 true, .signal true] ++ List.replicate 27 .own ++
    [.ends 7 (.signaled 9), .own, .own]

/-- **Told to stop, it stops.**  The wait for a worker that does not end after the first
signal is bounded, and no worker is started behind it; only a worker that runs can hold the
supervisor up, until a further signal interrupts the wait. -/
theorem stopsSoon (hrun : (Supervision.start named pidfile socket).Runs past s) :
    StopsSoon past s := by
  have hinit : (Supervision.start named pidfile socket).stop ≠ true := Bool.false_ne_true
  refine ⟨?_, ?_, held_up (tracked_of_runs hrun)⟩
  · have hspent := hrun.countP_add_le (I := Tracked)
      (fun s => if s.stop then s.place.stepsLeft else 30) (fun p => p.1.stop && p.2.byItself)
      tracked_start (fun _ _ h hcan => h.moves (moves_after h hcan)) fun s e h hcan => ?_
    · rw [if_neg hinit] at hspent
      omega
    · dsimp only
      cases hstop : s.stop with
      | true =>
          obtain ⟨hstop', hless⟩ := (moves_after h hcan).stepsLeft h hstop
          rw [hstop', if_pos rfl, if_pos rfl, Bool.true_and]
          exact hless
      | false =>
          rw [Bool.false_and, if_neg Bool.false_ne_true, if_neg Bool.false_ne_true, Nat.zero_add]
          split
          · exact SupervisePlace.stepsLeft_le _
          · exact Nat.le_refl _
  · have hspent := hrun.countP_add_le (I := Tracked)
      (fun s => if s.stop then if s.place = .forking then 1 else 0 else 1)
      (fun p => p.1.stop && p.2.forked.isSome)
      tracked_start (fun _ _ h hcan => h.moves (moves_after h hcan)) fun s e h hcan => ?_
    · rw [if_neg hinit] at hspent
      omega
    · dsimp only
      cases hstop : s.stop with
      | true =>
          have hmoves := moves_after h hcan
          rw [(hmoves.stepsLeft h hstop).1, if_pos rfl, if_pos rfl, Bool.true_and]
          exact hmoves.forksLeft hstop
      | false =>
          rw [Bool.false_and, if_neg Bool.false_ne_true, if_neg Bool.false_ne_true, Nat.zero_add]
          split
          · split <;> omega
          · exact Nat.le_refl _

/-- A worker that does not heed the first signal. -/
theorem stopsSoon_deaf :
    StopsSoon (Trace.passed Supervision.after deafEvents (.start false none true) [])
        (deafEvents.foldl Supervision.after (.start false none true)) ∧
      (deafEvents.foldl Supervision.after (.start false none true)).place =
        .returned rtdbdExitOk :=
  ⟨stopsSoon (Trace.follow deafEvents .start (by decide)), by decide⟩

end

end InduRtdb.Daemon
