/-
  Monitor/HealthProbe.lean --- the probe that cron runs, and what its alerts tell.

  Source: `scripts/check_rtdbd_health.py`.

  The daemon counts its errors since its start; the probe keeps the counters of its last
  run in a file and takes the difference.  The file outlives the daemon, so a probe may
  compare the counters of two lives.  The state file is written by the probe alone.  A run
  of the probe is one event: no other run overlaps it, and the daemon is not started
  again while it lasts.
-/
import InduRtdb.Daemon.Counters
import InduRtdb.Monitor.Receiving
import InduRtdb.Monitor.Values
import Mathlib.Algebra.Order.Field.Rat

set_option autoImplicit false

namespace InduRtdb.Monitor

open InduRtdb.Core InduRtdb.Api InduRtdb.Daemon InduRtdb.Lib

/-! ## The snapshot -/

/-- The fields of a snapshot that are saved, `FIELDS`. -/
structure SavedFields where
  nWrites : Nat
  nNotifies : Nat
  decodeFail : Nat
  writeRejected : Nat
  writeError : Nat
  notifyDrop : Nat
  notifySendFail : Nat
  uptimeNs : Nat
  deriving DecidableEq

structure Snap extends SavedFields where
  health : Nat
  nConns : Nat
  deriving DecidableEq

/-- The fields whose rates are watched. -/
inductive RateField where
  | decodeFail
  | writeRejected
  | writeError
  | notifyDrop
  | notifySendFail
  deriving DecidableEq

/-- `RATE_FIELDS`. -/
def rateFields : List RateField :=
  [.decodeFail, .writeRejected, .writeError, .notifyDrop, .notifySendFail]

theorem mem_rateFields (k : RateField) : k ∈ rateFields := by cases k <;> decide

def SavedFields.get (f : SavedFields) : RateField → Nat
  | .decodeFail => f.decodeFail
  | .writeRejected => f.writeRejected
  | .writeError => f.writeError
  | .notifyDrop => f.notifyDrop
  | .notifySendFail => f.notifySendFail

/-- `HEALTH.size`. -/
abbrev sizeofHealth : Nat := 72

/-- `HEALTH.unpack`, under the names of `FIELDS`. -/
def Snap.unpack (bytes : List UInt8) : Snap where
  nWrites := fieldAt bytes 0 8
  nNotifies := fieldAt bytes 8 8
  decodeFail := fieldAt bytes 16 8
  writeRejected := fieldAt bytes 24 8
  writeError := fieldAt bytes 32 8
  notifyDrop := fieldAt bytes 40 8
  notifySendFail := fieldAt bytes 48 8
  uptimeNs := fieldAt bytes 56 8
  health := fieldAt bytes 64 4
  nConns := fieldAt bytes 68 4

/-! ## Asking for it -/

/-- Why there is no snapshot: a `ProbeError`, or an `OSError`. -/
inductive ProbeError where
  | noSocket
  | shortHead
  | badMagic (magic : Nat)
  | badStatus (status : Nat)
  | badLength (plen : Nat)
  | shortBody
  | os
  deriving DecidableEq

/-- `fetch`, where the path of the socket is there or not, `connect` and `sendall` succeed or
not, and `stream` arrives as `outcomes` say; nothing as long as it has not ended. -/
def fetch (present connects : Bool) (outcomes : List Outcome) (stream : List UInt8) :
    Option (Except ProbeError Snap) :=
  if present = false then some (.error .noSocket)
  else if connects = false then some (.error .os)
  else
    let head := recvLoop sizeofHdr outcomes [] stream
    match head.ended with
    | .waiting => none
    | .timeout => some (.error .os)
    | .closed => some (.error .shortHead)
    | .done =>
        let hdr := Hdr.unpack head.buf
        if hdr.magic ≠ rtdbdMagic then some (.error (.badMagic hdr.magic))
        else if hdr.kind ≠ rtdbdStOk then some (.error (.badStatus hdr.kind))
        else if hdr.plen ≠ sizeofHealth then some (.error (.badLength hdr.plen))
        else
          let body := recvLoop hdr.plen head.outcomes [] head.unread
          match body.ended with
          | .waiting => none
          | .timeout => some (.error .os)
          | .closed => some (.error .shortBody)
          | .done => some (.ok (.unpack body.buf))

/-! ## The alerts -/

/-- What the state file holds. -/
structure SavedState where
  ts : ℚ
  snap : SavedFields
  deriving DecidableEq

inductive AlertLevel where
  | crit
  | warn
  deriving DecidableEq

/-- The alerts, a rate with its value. -/
inductive AlertAbout where
  | unhealthy
  | degraded
  | rate (field : RateField) (perSecond : ℚ)
  deriving DecidableEq

structure Alert where
  level : AlertLevel
  about : AlertAbout
  deriving DecidableEq

/-- Notifications that are dropped are critical. -/
def rateLevel : RateField → AlertLevel
  | .notifyDrop => .crit
  | _ => .warn

/-- The turn of the loop over `RATE_FIELDS` for a field, `dt` seconds later. -/
def rateAlert (snap : Snap) (prev : SavedFields) (dt : ℚ) (k : RateField) : Option Alert :=
  let d : Int := snap.get k - prev.get k
  if d ≤ 0 then none else some ⟨rateLevel k, .rate k (d / dt)⟩

/-- The first part of `evaluate`. -/
def healthAlerts (snap : Snap) : List Alert :=
  if snap.health = rtdbdHealthUnhealthy then [⟨.crit, .unhealthy⟩]
  else if snap.health = rtdbdHealthDegraded then [⟨.warn, .degraded⟩]
  else []

/-- The rest of it: there is nothing to compare with at first, nor where the clock has gone
back. -/
def rateAlerts (snap : Snap) (prev : Option SavedState) (now : ℚ) : List Alert :=
  match prev with
  | none => []
  | some prev =>
      let dt := now - prev.ts
      if dt ≤ 0 then [] else rateFields.filterMap (rateAlert snap prev.snap dt)

/-- `evaluate`. -/
def evaluate (snap : Snap) (prev : Option SavedState) (now : ℚ) : List Alert :=
  healthAlerts snap ++ rateAlerts snap prev now

/-! ## One run of the probe -/

/-- Whether `--state` and `--prometheus` are given. -/
structure ProbeOptions where
  state : Bool
  prometheus : Bool

/-- What a run finds beside its socket: whether its files can be read and written, and the
time when it evaluates and when it saves. -/
structure ProbeEnv where
  reads : Bool
  exports : Bool
  saves : Bool
  now : ℚ
  saved : ℚ

/-- `load_state`. -/
def loadState (opts : ProbeOptions) (env : ProbeEnv) (file : Option SavedState) :
    Option SavedState :=
  if opts.state ∧ env.reads then file else none

/-- What a run leaves: its exit code, its alerts, whether it has saved the snapshot, and the
state file. -/
structure Verdict where
  code : Nat
  alerts : List Alert
  saved : Bool
  file : Option SavedState
  deriving DecidableEq

/-- `main` behind `fetch`.  A file that cannot be written ends the run with a traceback, and
the code is 1. -/
def probeMain (opts : ProbeOptions) (env : ProbeEnv) (file : Option SavedState) :
    Except ProbeError Snap → Verdict
  | .error _ => ⟨2, [], false, file⟩
  | .ok snap =>
      let alerts := evaluate snap (loadState opts env file) env.now
      if opts.prometheus ∧ env.exports = false then ⟨1, alerts, false, file⟩
      else if opts.state ∧ env.saves = false then ⟨1, alerts, false, file⟩
      else
        let code :=
          if alerts.any fun a => a.level = .crit then 1 else if alerts ≠ [] then 1 else 0
        if opts.state then ⟨code, alerts, true, some ⟨env.saved, snap.toSavedFields⟩⟩
        else ⟨code, alerts, false, file⟩

/-- The files that are wanted can be written. -/
def FilesWritten (opts : ProbeOptions) (env : ProbeEnv) : Prop :=
  (opts.prometheus = true → env.exports = true) ∧ (opts.state = true → env.saves = true)

instance (opts : ProbeOptions) (env : ProbeEnv) : Decidable (FilesWritten opts env) :=
  inferInstanceAs (Decidable (_ ∧ _))

/-- The code behind alerts. -/
def exitCode (alerts : List Alert) : Nat := if alerts = [] then 0 else 1

/-- What `main` can come to. -/
inductive Judged (opts : ProbeOptions) (env : ProbeEnv) (file : Option SavedState) :
    Except ProbeError Snap → Verdict → Prop where
  | undecided (err : ProbeError) : Judged opts env file (.error err) ⟨2, [], false, file⟩
  | unwritten (snap : Snap) (hnot : ¬ FilesWritten opts env) :
      Judged opts env file (.ok snap)
        ⟨1, evaluate snap (loadState opts env file) env.now, false, file⟩
  | kept (snap : Snap) (hwritten : FilesWritten opts env) :
      Judged opts env file (.ok snap)
        ⟨exitCode (evaluate snap (loadState opts env file) env.now),
          evaluate snap (loadState opts env file) env.now, false, file⟩
  | saved (snap : Snap) (hwritten : FilesWritten opts env) (hstate : opts.state = true) :
      Judged opts env file (.ok snap)
        ⟨exitCode (evaluate snap (loadState opts env file) env.now),
          evaluate snap (loadState opts env file) env.now, true,
          some ⟨env.saved, snap.toSavedFields⟩⟩

theorem probeMain_judged (opts : ProbeOptions) (env : ProbeEnv) (file : Option SavedState)
    (fetched : Except ProbeError Snap) :
    Judged opts env file fetched (probeMain opts env file fetched) := by
  cases fetched with
  | error err => exact .undecided err
  | ok snap =>
      unfold probeMain
      dsimp only
      generalize hprev : loadState opts env file = prev
      have hcode : (if (evaluate snap prev env.now).any fun a => a.level = .crit then 1
          else if evaluate snap prev env.now ≠ [] then 1 else 0) =
          exitCode (evaluate snap prev env.now) := by
        unfold exitCode
        cases evaluate snap prev env.now with
        | nil => rfl
        | cons a alerts => simp
      rw [hcode, ← hprev]
      split
      next hexport =>
        exact .unwritten snap fun hwritten => by
          rw [hwritten.1 hexport.1] at hexport
          cases hexport.2
      next hexport =>
        split
        next hsave =>
          exact .unwritten snap fun hwritten => by
            rw [hwritten.2 hsave.1] at hsave
            cases hsave.2
        next hsave =>
          have hwritten : FilesWritten opts env := by
            refine ⟨fun hon => ?_, fun hon => ?_⟩
            · exact Bool.eq_true_of_not_eq_false fun hoff => hexport ⟨hon, hoff⟩
            · exact Bool.eq_true_of_not_eq_false fun hoff => hsave ⟨hon, hoff⟩
          split
          next hstate => exact .saved snap hwritten hstate
          next => exact .kept snap hwritten

/-! ## Which alerts there are -/

section

variable {snap : Snap} {prev : Option SavedState} {now : ℚ}

theorem healthAlerts_about : (healthAlerts snap).map Alert.about =
    if snap.health = rtdbdHealthUnhealthy then [.unhealthy]
    else if snap.health = rtdbdHealthDegraded then [.degraded] else [] := by
  unfold healthAlerts
  split_ifs <;> rfl

/-- A rate is told of every field that has grown, and of no other. -/
theorem rate_mem_rateAlerts {k : RateField} {r : ℚ} :
    .rate k r ∈ (rateAlerts snap prev now).map Alert.about ↔
      ∃ f, prev = some f ∧ f.ts < now ∧ f.snap.get k < snap.get k ∧
        r = ((snap.get k : Int) - f.snap.get k : Int) / (now - f.ts) := by
  cases prev with
  | none => simp [rateAlerts]
  | some f =>
      unfold rateAlerts
      dsimp only
      rcases le_or_gt now f.ts with hback | hon
      · rw [if_pos (sub_nonpos.mpr hback)]
        constructor
        · intro h
          cases h
        · rintro ⟨f', hf', hlt, -⟩
          obtain rfl := Option.some.inj hf'
          exact absurd hlt (not_lt.mpr hback)
      · rw [if_neg (not_le.mpr (sub_pos.mpr hon))]
        constructor
        · intro h
          obtain ⟨a, ha, habout⟩ := List.mem_map.mp h
          obtain ⟨k', -, hk'⟩ := List.mem_filterMap.mp ha
          unfold rateAlert at hk'
          dsimp only at hk'
          split at hk'
          · cases hk'
          next hgrown =>
            obtain rfl := Option.some.inj hk'
            obtain ⟨rfl, rfl⟩ := AlertAbout.rate.inj habout
            exact ⟨f, rfl, hon, by omega, rfl⟩
        · rintro ⟨f', hf', -, hgrown, rfl⟩
          obtain rfl := Option.some.inj hf'
          refine List.mem_map.mpr ⟨⟨rateLevel k, .rate k _⟩,
            List.mem_filterMap.mpr ⟨k, mem_rateFields k, ?_⟩, rfl⟩
          unfold rateAlert
          dsimp only
          rw [if_neg (by omega)]

/-- The other alerts are about the health alone. -/
theorem not_mem_rateAlerts {about : AlertAbout} (h : about = .unhealthy ∨ about = .degraded) :
    about ∉ (rateAlerts snap prev now).map Alert.about := by
  intro hmem
  unfold rateAlerts at hmem
  split at hmem
  · cases hmem
  · dsimp only at hmem
    split at hmem
    · cases hmem
    · obtain ⟨a, ha, habout⟩ := List.mem_map.mp hmem
      obtain ⟨k, -, hk⟩ := List.mem_filterMap.mp ha
      unfold rateAlert at hk
      dsimp only at hk
      split at hk
      · cases hk
      · obtain rfl := Option.some.inj hk
        rcases h with rfl | rfl
        · cases habout
        · cases habout

theorem unhealthy_mem_evaluate : .unhealthy ∈ (evaluate snap prev now).map Alert.about ↔
    snap.health = rtdbdHealthUnhealthy := by
  have hrates : AlertAbout.unhealthy ∉ (rateAlerts snap prev now).map Alert.about :=
    not_mem_rateAlerts (.inl rfl)
  rw [evaluate, List.map_append, List.mem_append, or_iff_left hrates, healthAlerts_about]
  split_ifs with hdown hworse
  · simp [hdown]
  · simp [hdown]
  · simp [hdown]

theorem degraded_mem_evaluate : .degraded ∈ (evaluate snap prev now).map Alert.about ↔
    snap.health = rtdbdHealthDegraded := by
  have hrates : AlertAbout.degraded ∉ (rateAlerts snap prev now).map Alert.about :=
    not_mem_rateAlerts (.inr rfl)
  rw [evaluate, List.map_append, List.mem_append, or_iff_left hrates, healthAlerts_about]
  split_ifs with hdown hworse
  · simp [hdown]
  · simp [hworse]
  · simp [hworse]

theorem rate_mem_evaluate {k : RateField} {r : ℚ} :
    .rate k r ∈ (evaluate snap prev now).map Alert.about ↔
      .rate k r ∈ (rateAlerts snap prev now).map Alert.about := by
  have hhealth : AlertAbout.rate k r ∉ (healthAlerts snap).map Alert.about := by
    rw [healthAlerts_about]
    split_ifs <;> simp
  rw [evaluate, List.map_append, List.mem_append, or_iff_right hhealth]

end

/-! ## The daemon that is watched -/

/-- The daemon, while it is up, and the state file. -/
structure Station where
  loop : Option EventLoop
  file : Option SavedState

/-- What a run of the probe meets; `answered` is the place of its connection where the daemon
answers it, and what the daemon finds then. -/
structure ProbeRun where
  present : Bool
  connects : Bool
  answered : Option (Nat × Env)
  outcomes : List Outcome
  env : ProbeEnv

/-- What happens next: the daemon comes up, goes down or serves, or the probe runs. -/
inductive StationEvent where
  | launch (h : IndurtdbH) (policy : IrtPolicy) (conf : RtdbdConf) (logbuf : IrtLogbuf)
      (maxPoints startNs : Nat)
  | halt
  | serve (e : LoopEvent)
  | probe (q : ProbeRun)

/-- The request of the probe, as the daemon gets it. -/
def healthRequest (slot : Nat) (env : Env) : LoopEvent :=
  .request slot (frameBytes rtdbdOpHealth []) none env

namespace Station

/-- The daemon and the request of the probe, if it is answered. -/
def asked (s : Station) (q : ProbeRun) : Option (EventLoop × Nat × Env) :=
  match s.loop, q.answered with
  | some loop, some asked => some (loop, asked)
  | _, _ => none

/-- The response on the connection of the probe. -/
def response : Option (EventLoop × Nat × Env) → List UInt8
  | none => []
  | some (loop, slot, env) => (loop.after (healthRequest slot env)).wire slot

/-- The verdict of a run, when it has ended. -/
def verdict (opts : ProbeOptions) (s : Station) (q : ProbeRun) : Option Verdict :=
  (fetch q.present q.connects q.outcomes (response (s.asked q))).map
    (probeMain opts q.env s.file)

def after (opts : ProbeOptions) (s : Station) : StationEvent → Station
  | .launch h policy conf logbuf maxPoints startNs =>
      { s with loop := some (.start (.start h policy conf logbuf maxPoints startNs)) }
  | .halt => { s with loop := none }
  | .serve e => { s with loop := s.loop.map fun loop => loop.after e }
  | .probe q =>
      { loop := match s.asked q with
          | none => s.loop
          | some (loop, slot, env) => some (loop.after (healthRequest slot env))
        file := match s.verdict opts q with
          | none => s.file
          | some v => v.file }

/-- The connection of the probe is its own. -/
def Fresh : Option (EventLoop × Nat × Env) → Prop
  | none => True
  | some (loop, slot, _) => loop.Live slot ∧ loop.wire slot = []

instance : ∀ asked, Decidable (Fresh asked)
  | none => inferInstanceAs (Decidable True)
  | some (loop, slot, _) => inferInstanceAs (Decidable (loop.Live slot ∧ loop.wire slot = []))

/-- This can happen next; every run of the probe ends. -/
def Enabled (opts : ProbeOptions) (s : Station) : StationEvent → Prop
  | .launch .. => s.loop.isNone = true
  | .halt => True
  | .serve e => ∃ loop ∈ s.loop, loop.Enabled e
  | .probe q => Fresh (s.asked q) ∧ (s.verdict opts q).isSome = true

instance (opts : ProbeOptions) (s : Station) : ∀ e, Decidable (Enabled opts s e)
  | .launch .. => inferInstanceAs (Decidable (s.loop.isNone = true))
  | .halt => inferInstanceAs (Decidable True)
  | .serve e => inferInstanceAs (Decidable (∃ loop ∈ s.loop, loop.Enabled e))
  | .probe q => inferInstanceAs (Decidable (Fresh (s.asked q) ∧ (s.verdict opts q).isSome = true))

/-- The daemon has not been started yet, and nothing has been saved. -/
def start : Station := ⟨none, none⟩

/-- A daemon, its restarts and the runs of the probe, in any order. -/
abbrev Runs (opts : ProbeOptions) : List (Station × StationEvent) → Station → Prop :=
  Trace (Enabled opts) (after opts) start

/-- The part of the daemon in an event. -/
def part : Station × StationEvent → List (EventLoop × LoopEvent)
  | (s, .serve e) => (s.loop.map fun loop => (loop, e)).toList
  | (s, .probe q) => ((s.asked q).map fun a => (a.1, healthRequest a.2.1 a.2.2)).toList
  | _ => []

/-- The run of the probe saves its snapshot. -/
def saves (opts : ProbeOptions) (s : Station) (q : ProbeRun) : Bool :=
  match s.verdict opts q with
  | none => false
  | some v => v.saved

/-- What the daemon has been through since its start. -/
def life : List (Station × StationEvent) → List (EventLoop × LoopEvent)
  | [] => []
  | p :: past =>
      match p.2 with
      | .launch .. | .halt => []
      | .serve _ | .probe _ => part p ++ life past

/-- What it has been through since the last snapshot that was saved, or since its start. -/
def recent (opts : ProbeOptions) : List (Station × StationEvent) → List (EventLoop × LoopEvent)
  | [] => []
  | p :: past =>
      match p.2 with
      | .launch .. | .halt => []
      | .serve _ => part p ++ recent opts past
      | .probe q => if p.1.saves opts q then [] else part p ++ recent opts past

/-- A snapshot has been saved since the start of the daemon. -/
def Continued (opts : ProbeOptions) : List (Station × StationEvent) → Prop
  | [] => False
  | p :: past =>
      match p.2 with
      | .launch .. | .halt => False
      | .serve _ => Continued opts past
      | .probe q => p.1.saves opts q = true ∨ Continued opts past

end Station

/-! ## A snapshot is what the daemon has counted -/

def RateField.of (st : RtdbdStats) : RateField → Nat
  | .decodeFail => st.decodeFail
  | .writeRejected => st.writeRejected
  | .writeError => st.writeError
  | .notifyDrop => st.notifyDrop
  | .notifySendFail => st.notifySendFail

/-- The snapshot of a daemon. -/
def Snap.of (d : Rtdbd) (now : Nat) : Snap where
  nWrites := d.stats.nWrites % 2 ^ 64
  nNotifies := d.stats.nNotifies % 2 ^ 64
  decodeFail := d.stats.decodeFail % 2 ^ 64
  writeRejected := d.stats.writeRejected % 2 ^ 64
  writeError := d.stats.writeError % 2 ^ 64
  notifyDrop := d.stats.notifyDrop % 2 ^ 64
  notifySendFail := d.stats.notifySendFail % 2 ^ 64
  uptimeNs := d.uptime now % 2 ^ 64
  health := d.health now % 2 ^ 32
  nConns := d.nConns % 2 ^ 32

theorem Snap.get_of (d : Rtdbd) (now : Nat) (k : RateField) :
    (Snap.of d now).get k = k.of d.stats % 2 ^ 64 := by
  cases k <;> rfl

theorem length_healthBytes (d : Rtdbd) (now : Nat) :
    (d.healthBytes now).length = sizeofHealth := rfl

theorem Snap.unpack_healthBytes (d : Rtdbd) (now : Nat) :
    Snap.unpack (d.healthBytes now) = .of d now := by
  have hlong : ∀ {offset n : Nat}, ((d.healthBytes now).drop offset).take 8 = le64 n →
      fieldAt (d.healthBytes now) offset 8 = n % 2 ^ 64 := by
    intro offset n h
    rw [fieldAt, h, ofLe_le64]
  have hshort : ∀ {offset n : Nat}, ((d.healthBytes now).drop offset).take 4 = le32 n →
      fieldAt (d.healthBytes now) offset 4 = n % 2 ^ 32 := by
    intro offset n h
    rw [fieldAt, h, ofLe_le32_mod]
  have hwrites := @hlong 0 d.stats.nWrites rfl
  have hnotifies := @hlong 8 d.stats.nNotifies rfl
  have hdecode := @hlong 16 d.stats.decodeFail rfl
  have hrejected := @hlong 24 d.stats.writeRejected rfl
  have herror := @hlong 32 d.stats.writeError rfl
  have hdrop := @hlong 40 d.stats.notifyDrop rfl
  have hsend := @hlong 48 d.stats.notifySendFail rfl
  have huptime := @hlong 56 (d.uptime now) rfl
  have hhealth := @hshort 64 (d.health now) rfl
  have hconns := @hshort 68 d.nConns rfl
  rw [Snap.unpack, hwrites, hnotifies, hdecode, hrejected, herror, hdrop, hsend, huptime, hhealth,
    hconns, Snap.of]

/-- The socket is there and takes the request, and the bytes of a whole answer come before a
time-out and before the end of the connection. -/
structure Answering (present connects : Bool) (outcomes : List Outcome) : Prop where
  present : present = true
  connects : connects = true
  arrives : ((arrives sizeofHdr outcomes).bind (arrives sizeofHealth)).isSome = true

/-- A snapshot is the payload of the response. -/
theorem fetch_ok {present connects : Bool} {outcomes : List Outcome} {stream : List UInt8}
    {snap : Snap} (h : fetch present connects outcomes stream = some (.ok snap)) :
    snap = .unpack ((stream.drop sizeofHdr).take sizeofHealth) ∧
      sizeofHdr + sizeofHealth ≤ stream.length ∧ Answering present connects outcomes := by
  unfold fetch at h
  split at h
  · cases h
  next hpresent =>
    split at h
    · cases h
    next hconnects =>
      dsimp only at h
      split at h
      · cases h
      · cases h
      · cases h
      next hhead =>
        obtain ⟨-, hunread, hlong⟩ := recvLoop_done hhead
        split at h
        · cases h
        · split at h
          · cases h
          · split at h
            · cases h
            next hplen =>
              have hplen := not_not.mp hplen
              rw [hplen] at h
              split at h
              · cases h
              · cases h
              · cases h
              next hbody =>
                obtain ⟨hbuf, -, hrest⟩ := recvLoop_done hbody
                rw [hbuf, hunread] at h
                rw [hunread, List.length_drop] at hrest
                exact ⟨(Except.ok.inj (Option.some.inj h)).symm, by omega,
                  Bool.eq_true_of_not_eq_false hpresent, Bool.eq_true_of_not_eq_false hconnects,
                  by
                    rw [arrives_of_done hhead, Option.bind_some, arrives_of_done hbody]
                    rfl⟩

theorem drop_frameBytes (kind : Nat) (payload : List UInt8) :
    (frameBytes kind payload).drop sizeofHdr = payload := rfl

/-- A snapshot that the daemon sends is taken when it comes whole. -/
theorem fetch_frameBytes {present connects : Bool} {outcomes : List Outcome}
    {payload : List UInt8} (h : Answering present connects outcomes)
    (hpayload : payload.length = sizeofHealth) :
    ∃ snap, fetch present connects outcomes (frameBytes rtdbdStOk payload) = some (.ok snap) := by
  obtain ⟨rfl, rfl, hwhole⟩ := h
  obtain ⟨rest, hrest⟩ := Option.isSome_iff_exists.mp hwhole
  obtain ⟨between, hbetween, hbehind⟩ := Option.bind_eq_some_iff.mp hrest
  obtain ⟨hhead, hleft⟩ := @done_of_arrives _ _ _ _ (frameBytes rtdbdStOk payload) hbetween
    (by rw [length_frameBytes]; exact Nat.le_add_right _ _)
  obtain ⟨hbuf, hunread, -⟩ := recvLoop_done hhead
  rw [drop_frameBytes] at hunread
  have hhdr : Hdr.unpack (recvLoop sizeofHdr outcomes [] (frameBytes rtdbdStOk payload)).buf =
      .of rtdbdStOk sizeofHealth := by
    rw [hbuf, ← hpayload]
    exact Hdr.unpack_hdrBytes (by decide) (by rw [hpayload]; decide)
  obtain ⟨hbody, -⟩ := done_of_arrives hbehind hpayload.ge
  refine ⟨.unpack (recvLoop sizeofHealth between [] payload).buf, ?_⟩
  have hmagic : ¬ (Hdr.of rtdbdStOk sizeofHealth).magic ≠ rtdbdMagic := fun h => h rfl
  have hkind : ¬ (Hdr.of rtdbdStOk sizeofHealth).kind ≠ rtdbdStOk := fun h => h rfl
  have hplen : ¬ (Hdr.of rtdbdStOk sizeofHealth).plen ≠ sizeofHealth := fun h => h rfl
  unfold fetch
  dsimp only
  rw [if_neg (by decide), if_neg (by decide), hhead, hhdr]
  dsimp only
  rw [if_neg hmagic, if_neg hkind, if_neg hplen, hleft, hunread]
  have hsize : (Hdr.of rtdbdStOk sizeofHealth).plen = sizeofHealth := rfl
  rw [hsize, hbody]

/-- The daemon answers the probe with its snapshot, and stays as it is. -/
theorem after_healthRequest {loop : EventLoop} {slot : Nat} {env : Env}
    (hwire : loop.wire slot = []) :
    (loop.after (healthRequest slot env)).wire slot =
        frameBytes rtdbdStOk (loop.d.healthBytes env.now) ∧
      (loop.after (healthRequest slot env)).d = loop.d := by
  have hserved : dispatch (enteredWith loop.d slot env rtdbdOpHealth []) =
      (.keep, { enteredWith loop.d slot env rtdbdOpHealth [] with
        sock := ⟨[], none, frameBytes rtdbdStOk (loop.d.healthBytes env.now)⟩ }) := by
    rw [@dispatch_of_entry rtdbdOpHealth opHealth rfl _ rfl, opHealth_eq rfl,
      respond_unbounded rfl]
    have hout : (enteredWith loop.d slot env rtdbdOpHealth []).sock.output ++
        frameBytes rtdbdStOk (loop.d.healthBytes env.now) =
          frameBytes rtdbdStOk (loop.d.healthBytes env.now) := List.nil_append _
    change (Fate.keep, { enteredWith loop.d slot env rtdbdOpHealth [] with
      sock := Socket.mk [] none ((enteredWith loop.d slot env rtdbdOpHealth []).sock.output ++
        frameBytes rtdbdStOk (loop.d.healthBytes env.now)) }) = _
    rw [hout]
  have hhandled : loop.handled slot (frameBytes rtdbdOpHealth []) none env =
      ⟨.keep, loop.d, ⟨[], none, frameBytes rtdbdStOk (loop.d.healthBytes env.now)⟩⟩ := by
    rw [EventLoop.handled, hwire, handleRequest_frameBytes (by decide) (by decide), hserved]
    rfl
  constructor
  · rw [healthRequest, EventLoop.after_request_wire, hhandled]
  · rw [healthRequest, EventLoop.after_request_keep (by rw [hhandled]), hhandled]

namespace Station

variable {opts : ProbeOptions} {past : List (Station × StationEvent)} {s : Station} {q : ProbeRun}

theorem asked_eq_some {loop : EventLoop} {slot : Nat} {env : Env}
    (h : s.asked q = some (loop, slot, env)) :
    s.loop = some loop ∧ q.answered = some (slot, env) := by
  unfold asked at h
  split at h
  next hloop hanswered =>
    obtain ⟨rfl, rfl⟩ := Prod.mk.inj (Option.some.inj h)
    exact ⟨hloop, hanswered⟩
  · cases h

/-- Every snapshot is that of the daemon that is up. -/
theorem snapshot (hfresh : Fresh (s.asked q)) {snap : Snap}
    (hfetch : fetch q.present q.connects q.outcomes (response (s.asked q)) = some (.ok snap)) :
    ∃ loop slot env, s.asked q = some (loop, slot, env) ∧ snap = .of loop.d env.now := by
  obtain ⟨hsnap, hlong, -⟩ := fetch_ok hfetch
  cases hasked : s.asked q with
  | none =>
      rw [hasked] at hlong
      exact absurd hlong (by decide)
  | some asked =>
      obtain ⟨loop, slot, env⟩ := asked
      rw [hasked] at hfresh hsnap
      refine ⟨loop, slot, env, rfl, ?_⟩
      rw [hsnap, response, (after_healthRequest hfresh.2).1]
      rw [drop_frameBytes, ← length_healthBytes loop.d env.now, List.take_length,
        Snap.unpack_healthBytes]

/-- There is a snapshot exactly when the daemon is asked and its whole answer comes. -/
theorem snapshot_iff (hfresh : Fresh (s.asked q)) :
    (∃ snap, fetch q.present q.connects q.outcomes (response (s.asked q)) = some (.ok snap)) ↔
      (s.asked q).isSome = true ∧ Answering q.present q.connects q.outcomes := by
  constructor
  · rintro ⟨snap, hfetch⟩
    obtain ⟨loop, slot, env, hasked, -⟩ := snapshot hfresh hfetch
    exact ⟨Option.isSome_of_eq_some hasked, (fetch_ok hfetch).2.2⟩
  · rintro ⟨hasked, hanswering⟩
    obtain ⟨⟨loop, slot, env⟩, hasked⟩ := Option.isSome_iff_exists.mp hasked
    rw [hasked] at hfresh ⊢
    rw [response, (after_healthRequest hfresh.2).1]
    exact fetch_frameBytes hanswering (length_healthBytes loop.d env.now)

end Station

/-! ## What has been counted since -/

/-- How much of a kind the events have counted. -/
def tally (k : RateField) (events : List (EventLoop × LoopEvent)) : Nat :=
  (events.map fun p => k.of (p.1.after p.2).d.stats - k.of p.1.d.stats).sum

theorem RateField.of_grows {st st' : RtdbdStats} (h : st.Grows st') (k : RateField) :
    k.of st ≤ k.of st' := by
  cases k with
  | decodeFail => exact h.decodeFail
  | writeRejected => exact h.writeRejected
  | writeError => exact h.writeError
  | notifyDrop => exact h.notifyDrop
  | notifySendFail => exact h.notifySendFail

theorem tally_run {origin loop : EventLoop} {events : List (EventLoop × LoopEvent)}
    (hrun : EventLoop.Runs origin events loop) (k : RateField) :
    k.of origin.d.stats + tally k events = k.of loop.d.stats := by
  refine hrun.invariant (P := fun events loop =>
    k.of origin.d.stats + tally k events = k.of loop.d.stats) rfl fun past s e h _ => ?_
  have hstep := k.of_grows (s.after_grows e)
  simp only [tally, List.map_cons, List.sum_cons] at h ⊢
  omega

/-- What is known of a daemon that is up: its whole life, and what it has been through
since the snapshot in the file, or since its start. -/
structure Followed (opts : ProbeOptions) (past : List (Station × StationEvent)) (s : Station)
    (loop : EventLoop) : Prop where
  alive : ∃ h policy conf logbuf maxPoints startNs, EventLoop.Runs
    (.start (.start h policy conf logbuf maxPoints startNs)) (Station.life past) loop
  since : ∃ origin, EventLoop.Runs origin (Station.recent opts past) loop ∧
    (Station.Continued opts past → opts.state = true ∧
      ∃ f, s.file = some f ∧ ∀ k, f.snap.get k = k.of origin.d.stats % 2 ^ 64) ∧
    (¬ Station.Continued opts past → ∀ k, RateField.of origin.d.stats k = 0)

namespace Station

variable {opts : ProbeOptions} {past : List (Station × StationEvent)} {s : Station} {q : ProbeRun}

/-- A verdict is one that `main` can come to. -/
theorem judged {v : Verdict} (hverdict : s.verdict opts q = some v) :
    ∃ fetched, fetch q.present q.connects q.outcomes (response (s.asked q)) = some fetched ∧
      Judged opts q.env s.file fetched v := by
  obtain ⟨fetched, hfetch, rfl⟩ := Option.map_eq_some_iff.mp hverdict
  exact ⟨fetched, hfetch, probeMain_judged opts q.env s.file fetched⟩

theorem after_file {v : Verdict} (hverdict : s.verdict opts q = some v) :
    (s.after opts (.probe q)).file = v.file := by
  simp only [after, hverdict]

theorem saves_eq {v : Verdict} (hverdict : s.verdict opts q = some v) :
    s.saves opts q = v.saved := by
  simp only [saves, hverdict]

/-- A run that saves leaves the snapshot of the daemon that is up in the file. -/
theorem file_of_saves (hcan : s.Enabled opts (.probe q)) (hsaves : s.saves opts q = true) :
    ∃ loop slot env ts, s.asked q = some (loop, slot, env) ∧ opts.state = true ∧
      (s.after opts (.probe q)).file = some ⟨ts, (Snap.of loop.d env.now).toSavedFields⟩ := by
  obtain ⟨v, hverdict⟩ := Option.isSome_iff_exists.mp hcan.2
  obtain ⟨fetched, hfetch, hjudged⟩ := judged hverdict
  rw [saves_eq hverdict] at hsaves
  rw [after_file hverdict]
  cases hjudged with
  | undecided err => cases hsaves
  | unwritten snap hnot => cases hsaves
  | kept snap hwritten => cases hsaves
  | saved snap hwritten hstate =>
      obtain ⟨loop, slot, env, hasked, rfl⟩ := snapshot hcan.1 hfetch
      exact ⟨loop, slot, env, _, hasked, hstate, rfl⟩

theorem file_of_not_saves (hcan : s.Enabled opts (.probe q)) (hnot : s.saves opts q = false) :
    (s.after opts (.probe q)).file = s.file := by
  obtain ⟨v, hverdict⟩ := Option.isSome_iff_exists.mp hcan.2
  obtain ⟨fetched, -, hjudged⟩ := judged hverdict
  rw [saves_eq hverdict] at hnot
  rw [after_file hverdict]
  cases hjudged with
  | undecided err => rfl
  | unwritten snap hnot => rfl
  | kept snap hwritten => rfl
  | saved snap hwritten hstate => cases hnot

/-- A run that does not save is like any other event. -/
theorem of_not_saves (hnot : s.saves opts q = false) :
    (Continued opts ((s, .probe q) :: past) ↔ Continued opts past) ∧
      recent opts ((s, .probe q) :: past) = part (s, .probe q) ++ recent opts past := by
  constructor
  · simp only [Continued, hnot, Bool.false_eq_true, false_or]
  · rw [recent]
    dsimp only
    rw [hnot, if_neg Bool.false_ne_true]

/-- A daemon that serves is followed. -/
theorem followed_serve {e : LoopEvent} {loop : EventLoop} (hloop : s.loop = some loop)
    (hcan : loop.Enabled e) (h : Followed opts past s loop) :
    Followed opts ((s, .serve e) :: past) (s.after opts (.serve e)) (loop.after e) := by
  obtain ⟨⟨handle, policy, conf, logbuf, maxPoints, startNs, hlife⟩, origin, hsince, hfile,
    hnew⟩ := h
  have hpart : part (s, .serve e) = [(loop, e)] := by
    rw [part, hloop]
    rfl
  refine ⟨⟨handle, policy, conf, logbuf, maxPoints, startNs, ?_⟩, origin, ?_, hfile, hnew⟩
  · rw [life, hpart]
    exact hlife.next e hcan
  · rw [recent, hpart]
    exact hsince.next e hcan

/-- A daemon that is probed is followed, from the probe on if its snapshot is saved. -/
theorem followed_probe {loop : EventLoop} (hloop : (s.after opts (.probe q)).loop = some loop)
    (hcan : s.Enabled opts (.probe q))
    (h : ∀ loop, s.loop = some loop → Followed opts past s loop) :
    Followed opts ((s, .probe q) :: past) (s.after opts (.probe q)) loop := by
  cases hasked : s.asked q with
  | none =>
      have hsame : s.loop = some loop := by
        simpa only [after, hasked] using hloop
      have hpart : part (s, .probe q) = [] := by
        rw [part, hasked]
        rfl
      have hnot : s.saves opts q = false := by
        refine Bool.eq_false_iff.mpr fun hsaves => ?_
        obtain ⟨loop, slot, env, ts, hsome, -⟩ := file_of_saves hcan hsaves
        rw [hasked] at hsome
        cases hsome
      have hkept := file_of_not_saves hcan hnot
      obtain ⟨halive, origin, hsince, hfile, hnew⟩ := h loop hsame
      obtain ⟨hcontinued, hrecent⟩ := @of_not_saves opts past s q hnot
      refine ⟨?_, origin, ?_, ?_, ?_⟩
      · rw [life, hpart]
        exact halive
      · rw [hrecent, hpart]
        exact hsince
      · rw [hcontinued, hkept]
        exact hfile
      · rw [hcontinued]
        exact hnew
  | some asked =>
      obtain ⟨before, slot, env⟩ := asked
      obtain rfl : before.after (healthRequest slot env) = loop := by
        simpa only [after, hasked, Option.some.injEq] using hloop
      have hfresh : Fresh (some (before, slot, env)) := hasked ▸ hcan.1
      have henabled : before.Enabled (healthRequest slot env) := hfresh.1
      have hpart : part (s, .probe q) = [(before, healthRequest slot env)] := by
        rw [part, hasked]
        rfl
      obtain ⟨⟨handle, policy, conf, logbuf, maxPoints, startNs, hlife⟩, origin, hsince, hfile,
        hnew⟩ := h before (asked_eq_some hasked).1
      refine ⟨⟨handle, policy, conf, logbuf, maxPoints, startNs, ?_⟩, ?_⟩
      · rw [life, hpart]
        exact hlife.next _ henabled
      · cases hsaves : s.saves opts q with
        | false =>
            obtain ⟨hcontinued, hrecent⟩ := @of_not_saves opts past s q hsaves
            refine ⟨origin, ?_, ?_, ?_⟩
            · rw [hrecent, hpart]
              exact hsince.next _ henabled
            · rw [hcontinued, file_of_not_saves hcan hsaves]
              exact hfile
            · rw [hcontinued]
              exact hnew
        | true =>
            obtain ⟨loop', slot', env', ts, hsome, hstate, hsaved⟩ := file_of_saves hcan hsaves
            rw [hasked] at hsome
            obtain ⟨rfl, hrest⟩ := Prod.mk.inj (Option.some.inj hsome)
            refine ⟨before.after (healthRequest slot env), ?_, fun _ => ⟨hstate, _, hsaved, ?_⟩, ?_⟩
            · rw [recent]
              dsimp only
              rw [hsaves, if_pos rfl]
              exact .start
            · intro k
              rw [(after_healthRequest hfresh.2).2]
              exact Snap.get_of before.d env'.now k
            · intro hnot
              exact absurd (Or.inl hsaves) hnot

/-- Over every run, a daemon that is up is followed. -/
theorem followed (hrun : Runs opts past s) :
    ∀ loop, s.loop = some loop → Followed opts past s loop := by
  refine hrun.invariant (P := fun past s => ∀ loop, s.loop = some loop → Followed opts past s loop)
    ?_ ?_
  · intro loop h
    cases h
  · intro past s e ih hcan loop hloop
    cases e with
    | launch h policy conf logbuf maxPoints startNs =>
        obtain rfl := Option.some.inj hloop
        refine ⟨⟨h, policy, conf, logbuf, maxPoints, startNs, .start⟩, _, .start,
          fun hcontinued => hcontinued.elim, fun _ k => ?_⟩
        cases k <;> rfl
    | halt => cases hloop
    | serve e =>
        obtain ⟨before, hbefore, henabled⟩ := hcan
        have hbefore : s.loop = some before := hbefore
        obtain rfl : before.after e = loop := by
          simpa only [after, hbefore, Option.map_some, Option.some.injEq] using hloop
        exact followed_serve hbefore henabled (ih before hbefore)
    | probe q => exact followed_probe hloop hcan ih

end Station

/-! ## What a verdict tells -/

/-- What the verdict of a run tells of the daemon. -/
structure ProbeTold (opts : ProbeOptions) (past : List (Station × StationEvent)) (s : Station)
    (q : ProbeRun) (v : Verdict) : Prop where
  /-- the code is 2 exactly when the daemon is not up or not asked, or its answer does not come
  whole -/
  decides : v.code = 2 ↔
    ¬ ((s.asked q).isSome = true ∧ Answering q.present q.connects q.outcomes)
  /-- nothing is told then, and the file is kept -/
  undecided : v.code = 2 → v.alerts = [] ∧ v.file = s.file
  decided : v.code ≠ 2 → v.code = if v.alerts = [] ∧ FilesWritten opts q.env then 0 else 1
  /-- the health is that of the daemon which is up, at the time of the request -/
  health : v.code ≠ 2 → ∃ loop slot env, s.loop = some loop ∧ q.answered = some (slot, env) ∧
    (.unhealthy ∈ v.alerts.map Alert.about ↔ indurtdbHSelfCheck loop.d.h = false) ∧
    (.degraded ∈ v.alerts.map Alert.about ↔
      indurtdbHSelfCheck loop.d.h = true ∧ RecentError (Station.life past) env.now)
  /-- no rate is told of a kind that has not been counted since -/
  spares : ∀ k r, .rate k r ∈ v.alerts.map Alert.about → 0 < tally k (Station.recent opts past)
  /-- where the last snapshot is of this daemon, each kind is told that has been -/
  rates : v.code ≠ 2 → Station.Continued opts past → q.env.reads = true →
    ∃ f, s.file = some f ∧ (f.ts < q.env.now → ∀ k r, .rate k r ∈ v.alerts.map Alert.about ↔
      0 < tally k (Station.recent opts past) ∧
        r = tally k (Station.recent opts past) / (q.env.now - f.ts))

theorem Judged.ok {opts : ProbeOptions} {env : ProbeEnv} {file : Option SavedState} {snap : Snap}
    {v : Verdict} (h : Judged opts env file (.ok snap) v) :
    v.alerts = evaluate snap (loadState opts env file) env.now ∧
      v.code = if v.alerts = [] ∧ FilesWritten opts env then 0 else 1 := by
  cases h with
  | unwritten snap hnot => exact ⟨rfl, (if_neg fun h => hnot h.2).symm⟩
  | kept snap hwritten =>
      refine ⟨rfl, ?_⟩
      simp only [exitCode, hwritten, and_true]
  | saved snap hwritten hstate =>
      refine ⟨rfl, ?_⟩
      simp only [exitCode, hwritten, and_true]

theorem health_le (d : Rtdbd) (now : Nat) : d.health now ≤ 2 := by
  unfold Rtdbd.health classify
  dsimp only
  split_ifs <;> decide

section

variable {opts : ProbeOptions} {past : List (Station × StationEvent)} {s : Station} {q : ProbeRun}
  {loop : EventLoop}

/-- Under the bound of the counters, a rate compares what was saved with what is counted. -/
theorem rate_mem_of {k : RateField} {r : ℚ} {now : Nat} {prev : Option SavedState} {wall : ℚ}
    (hbound : ∀ k, RateField.of loop.d.stats k < 2 ^ 64) :
    .rate k r ∈ (evaluate (.of loop.d now) prev wall).map Alert.about ↔
      ∃ f, prev = some f ∧ f.ts < wall ∧ f.snap.get k < k.of loop.d.stats ∧
        r = ((k.of loop.d.stats : Int) - f.snap.get k : Int) / (wall - f.ts) := by
  rw [rate_mem_evaluate, rate_mem_rateAlerts, Snap.get_of, Nat.mod_eq_of_lt (hbound k)]

theorem Followed.rates (h : Followed opts past s loop)
    (hbound : ∀ k, RateField.of loop.d.stats k < 2 ^ 64) {now : Nat} {env : ProbeEnv}
    (hcontinued : Station.Continued opts past) (hreads : env.reads = true) :
    ∃ f, s.file = some f ∧ (f.ts < env.now → ∀ k r,
      .rate k r ∈ (evaluate (.of loop.d now) (loadState opts env s.file) env.now).map Alert.about ↔
        0 < tally k (Station.recent opts past) ∧
          r = tally k (Station.recent opts past) / (env.now - f.ts)) := by
  obtain ⟨-, origin, hsince, hfile, -⟩ := h
  obtain ⟨hstate, f, hf, hsaved⟩ := hfile hcontinued
  refine ⟨f, hf, fun hon k r => ?_⟩
  have htally := tally_run hsince k
  have hk := hbound k
  have hget : f.snap.get k = k.of origin.d.stats := by
    rw [hsaved k, Nat.mod_eq_of_lt (by omega)]
  have hload : loadState opts env s.file = some f := by
    rw [loadState, if_pos ⟨hstate, hreads⟩, hf]
  have hdiff : (k.of loop.d.stats : Int) - f.snap.get k =
      (tally k (Station.recent opts past) : Int) := by
    rw [hget]
    omega
  rw [rate_mem_of hbound, hload]
  constructor
  · rintro ⟨f', hf', -, hgrown, hr⟩
    obtain rfl := Option.some.inj hf'
    rw [hdiff, Int.cast_natCast] at hr
    exact ⟨by omega, hr⟩
  · rintro ⟨hpos, hr⟩
    refine ⟨f, rfl, hon, by omega, ?_⟩
    rw [hdiff, Int.cast_natCast]
    exact hr

theorem Followed.spares (h : Followed opts past s loop)
    (hbound : ∀ k, RateField.of loop.d.stats k < 2 ^ 64) {now : Nat} {env : ProbeEnv}
    {k : RateField} {r : ℚ}
    (hrate : .rate k r ∈
      (evaluate (.of loop.d now) (loadState opts env s.file) env.now).map Alert.about) :
    0 < tally k (Station.recent opts past) := by
  obtain ⟨-, origin, hsince, hfile, hnew⟩ := h
  obtain ⟨f, hload, -, hgrown, -⟩ := (rate_mem_of hbound).mp hrate
  have htally := tally_run hsince k
  have hk := hbound k
  rcases Classical.em (Station.Continued opts past) with hcontinued | hstarted
  · obtain ⟨-, f', hf', hsaved⟩ := hfile hcontinued
    have hfound : s.file = some f := by
      unfold loadState at hload
      split at hload
      · exact hload
      · cases hload
    obtain rfl := Option.some.inj (hf'.symm.trans hfound)
    rw [hsaved k, Nat.mod_eq_of_lt (by omega)] at hgrown
    omega
  · have hzero := hnew hstarted k
    omega

end

/-- **What the exit code of the probe tells.**  However the daemon serves, crashes and is
started again, and however the probe is run in between, a verdict is about the daemon that is
up: its health, the kinds of error it has counted since the last snapshot that was saved
or since its start, and no others; and with a snapshot of the same life in the file and the
clock gone on, every kind it has counted since, at its rate. -/
theorem probeTold_of_run {opts : ProbeOptions} {past : List (Station × StationEvent)} {s : Station}
    {q : ProbeRun} {v : Verdict} (hrun : Station.Runs opts past s)
    (hcan : s.Enabled opts (.probe q)) (hverdict : s.verdict opts q = some v)
    (hclock : ∀ slot env, q.answered = some (slot, env) → Clocked (Station.life past) env.now)
    (hbound : ∀ loop, s.loop = some loop → ∀ k, RateField.of loop.d.stats k < 2 ^ 64) :
    ProbeTold opts past s q v := by
  obtain ⟨fetched, hfetch, hjudged⟩ := Station.judged hverdict
  cases fetched with
  | error err =>
      cases hjudged with
      | undecided err =>
          refine ⟨⟨fun _ hwhole => ?_, fun _ => rfl⟩, fun _ => ⟨rfl, rfl⟩, fun h => absurd rfl h,
            fun h => absurd rfl h, ?_, fun h => absurd rfl h⟩
          · obtain ⟨snap, hsnap⟩ := (Station.snapshot_iff hcan.1).mpr hwhole
            rw [hsnap] at hfetch
            cases Option.some.inj hfetch
          · intro k r h
            cases h
  | ok snap =>
      have hwhole := (Station.snapshot_iff hcan.1).mp ⟨snap, hfetch⟩
      obtain ⟨loop, slot, env, hasked, rfl⟩ := Station.snapshot hcan.1 hfetch
      obtain ⟨hloop, hanswered⟩ := Station.asked_eq_some hasked
      have hfollowed := Station.followed hrun loop hloop
      obtain ⟨halerts, hcode⟩ := hjudged.ok
      have hne : v.code ≠ 2 := by
        rw [hcode]
        split_ifs <;> decide
      have hhealth : (Snap.of loop.d env.now).health = loop.d.health env.now :=
        Nat.mod_eq_of_lt (by have := health_le loop.d env.now; omega)
      obtain ⟨h, policy, conf, logbuf, maxPoints, startNs, hlife⟩ := hfollowed.alive
      have htold := healthTold hlife (hclock slot env hanswered)
      refine ⟨⟨fun h => absurd h hne, fun h => absurd hwhole h⟩, fun h => absurd h hne,
        fun _ => hcode,
        fun _ => ⟨loop, slot, env, hloop, hanswered, ?_, ?_⟩, ?_, ?_⟩
      · rw [halerts, unhealthy_mem_evaluate, hhealth]
        exact htold.unhealthy
      · rw [halerts, degraded_mem_evaluate, hhealth]
        exact htold.degraded
      · intro k r hrate
        rw [halerts] at hrate
        exact hfollowed.spares (hbound loop hloop) hrate
      · intro _ hcontinued hreads
        rw [halerts]
        exact hfollowed.rates (hbound loop hloop) hcontinued hreads

/-- A run of the probe that is answered in a place, at a time on the wall. -/
def answeredRun (slot : Nat) (wall : ℚ) : ProbeRun where
  present := true
  connects := true
  answered := some (slot, operator)
  outcomes := [.data 5, .data 7, .data 72]
  env := ⟨true, true, true, wall, wall⟩

/-- A client sends twelve bytes that are no header, before the probe runs and after it. -/
def misspokenTwice : List StationEvent :=
  [.launch entered.h entered.policy entered.conf entered.logbuf 16 1,
    .serve (.accept 0 5), .serve (.request 0 (List.replicate 12 0) none operator),
    .serve (.accept 0 6), .probe (answeredRun 0 10),
    .serve (.accept 1 7), .serve (.request 1 (List.replicate 12 0) none operator),
    .serve (.accept 1 8)]

/-- The verdict ten seconds later. -/
def secondVerdict : Verdict where
  code := 1
  alerts := [⟨.warn, .degraded⟩, ⟨.warn, .rate .decodeFail (1 / 10)⟩]
  saved := true
  file := some ⟨20, ⟨0, 0, 2, 0, 0, 0, 0, 0⟩⟩

theorem probeTold_of_run_misspoken :
    ProbeTold ⟨true, false⟩ (Trace.passed (Station.after ⟨true, false⟩) misspokenTwice .start [])
      (misspokenTwice.foldl (Station.after ⟨true, false⟩) .start) (answeredRun 1 20)
      secondVerdict := by
  have hstart : Station.Runs ⟨true, false⟩ [] .start := .start
  have hbound : ∀ loop ∈ (misspokenTwice.foldl (Station.after ⟨true, false⟩) .start).loop,
      ∀ k ∈ rateFields, RateField.of loop.d.stats k < 2 ^ 64 := by decide +kernel
  refine probeTold_of_run (hstart.follow misspokenTwice (by decide +kernel)) (by decide +kernel)
    (by decide +kernel) ?_ fun loop hloop k => hbound loop hloop k (mem_rateFields k)
  intro slot env hanswered
  obtain ⟨-, rfl⟩ := Prod.mk.inj (Option.some.inj hanswered)
  exact ⟨by decide +kernel, by decide +kernel⟩

end InduRtdb.Monitor
