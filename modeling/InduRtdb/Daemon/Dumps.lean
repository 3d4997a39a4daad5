/-
  Daemon/Dumps.lean --- what a bounded dump of the log and of the audit trail selects.

  Source: `rtdbd/src/logbuf.c`, `rtdbd/src/audit.c`, and `op_get_log` of
  `rtdbd/src/rtdbd.c`.

  Both rings keep the newest entries.  A dump of fewer than are kept starts at the
  oldest one in the log, and in the audit trail so that it ends with the newest.
-/
import InduRtdb.Daemon.Handlers

set_option autoImplicit false

namespace InduRtdb.Daemon

open InduRtdb.Core InduRtdb.Lib

/-! ## Histories -/

/-- A call of `irt_logbuf_emit`, with the reading of the wall clock. -/
structure LogCall where
  level : UInt8
  text : List UInt8
  wall : Nat

/-- The entry a call leaves. -/
def LogCall.entry (c : LogCall) : RtdbdLogEntry where
  tsNs := c.wall
  level := c.level
  msg := c.text.take 115

/-- `irt_logbuf_init`. -/
def irtLogbufInit : IrtLogbuf where
  entries := fun _ => ⟨0, 0, []⟩
  head := 0
  count := 0

/-- The log after some calls. -/
def logAfter (calls : List LogCall) : IrtLogbuf :=
  calls.foldl (fun b c => irtLogbufEmit b c.level c.text c.wall) irtLogbufInit

/-- A call of `irt_audit_record`. -/
structure AuditCall where
  pid : Nat
  uid : Nat
  partition : UInt32
  pointId : Nat
  tsNs : Nat

/-- The entry a call leaves. -/
def AuditCall.entry (c : AuditCall) : RtdbdAuditEntry where
  pid := c.pid
  uid := c.uid
  pointId := c.pointId
  partition := c.partition
  tsNs := c.tsNs

/-- The audit trail after some calls. -/
def auditAfter (calls : List AuditCall) : IrtAudit :=
  calls.foldl (fun a c => irtAuditRecord a c.pid c.uid c.partition c.pointId c.tsNs) irtAuditInit

/-- How many entries a request for `max` of them asks for. -/
def logBound (max : Nat) : Nat :=
  if max = 0 ∨ rtdbdLogCapacity < max then rtdbdLogCapacity else max

/-- The entries `op_get_log` answers with. -/
def getLogEntries (b : IrtLogbuf) (max : Nat) : List RtdbdLogEntry :=
  irtLogbufDump b (logBound max)

theorem opGetLog_eq : opGetLog = fun cx =>
    cx.withPayload sizeofWord fun bytes cx =>
      cx.respond rtdbdStOk
        ((getLogEntries cx.d.logbuf (fieldAt bytes 0 4)).flatMap RtdbdLogEntry.toBytes) := rfl

/-! ## What the rings keep -/

/-- The log keeps the newest entries; until it is full, they start at place 0. -/
structure LogKeeps (b : IrtLogbuf) (entries : List RtdbdLogEntry) : Prop where
  head_lt : b.head < rtdbdLogCapacity
  count_eq : b.count = min entries.length rtdbdLogCapacity
  filling : b.count < rtdbdLogCapacity → b.head = b.count
  kept : ringBehind rtdbdLogCapacity b.entries b.head b.count = lastOf rtdbdLogCapacity entries

theorem LogKeeps.emit {b : IrtLogbuf} {entries : List RtdbdLogEntry} (h : LogKeeps b entries)
    (c : LogCall) : LogKeeps (irtLogbufEmit b c.level c.text c.wall) (entries ++ [c.entry]) where
  head_lt := Nat.mod_lt _ (by decide)
  count_eq := by
    have hcount := h.count_eq
    rw [List.length_append, List.length_singleton]
    dsimp only [irtLogbufEmit]
    split <;> omega
  filling := by
    have hcount := h.count_eq
    have hfilling := h.filling
    dsimp only [irtLogbufEmit]
    intro hlt
    split at hlt
    case isTrue hroom =>
      rw [if_pos hroom, hfilling hroom]
      exact Nat.mod_eq_of_lt hlt
    case isFalse hfull => exact absurd hlt hfull
  kept := by
    have hcount : b.count ≤ rtdbdLogCapacity := h.count_eq ▸ Nat.min_le_right _ _
    have hstored : ringBehind rtdbdLogCapacity (Function.update b.entries b.head c.entry)
        ((b.head + 1) % rtdbdLogCapacity)
        (if b.count < rtdbdLogCapacity then b.count + 1 else b.count) = _ :=
      ringBehind_record c.entry h.head_lt hcount
    rw [h.kept, lastOf_append_lastOf] at hstored
    exact hstored

theorem logAfter_keeps (calls : List LogCall) :
    LogKeeps (logAfter calls) (calls.map LogCall.entry) := by
  induction calls using List.reverseRecOn with
  | nil => exact ⟨by decide, rfl, fun _ => rfl, rfl⟩
  | append_singleton calls c ih =>
      rw [logAfter, List.foldl_append, List.map_append]
      exact ih.emit c

/-- The audit trail keeps the newest entries. -/
theorem auditAfter_keeps (calls : List AuditCall) :
    irtAuditDump (auditAfter calls) rtdbdAuditCapacity =
      lastOf rtdbdAuditCapacity (calls.map AuditCall.entry) := by
  induction calls using List.reverseRecOn with
  | nil => rfl
  | append_singleton calls c ih =>
      have hstep := irtAuditDump_record (auditAfter calls) c.pid c.uid c.partition c.pointId c.tsNs
      rw [ih, lastOf_append_lastOf] at hstep
      rw [auditAfter, List.foldl_append, List.map_append]
      exact hstep

/-! ## What a dump selects -/

/-- A dump of the log gives the oldest entries it keeps. -/
theorem irtLogbufDump_eq {b : IrtLogbuf} {entries : List RtdbdLogEntry} (h : LogKeeps b entries)
    (cap : Nat) :
    irtLogbufDump b cap = (lastOf rtdbdLogCapacity entries).take (min b.count cap) := by
  have hcount : b.count ≤ rtdbdLogCapacity := h.count_eq ▸ Nat.min_le_right _ _
  have hn : (if b.count < cap then b.count else cap) = min b.count cap := by
    split <;> omega
  have hstart : ringBehind rtdbdLogCapacity b.entries b.head b.count =
      ringList rtdbdLogCapacity b.entries (if b.count = rtdbdLogCapacity then b.head else 0)
        b.count := by
    rw [ringBehind]
    split
    case isTrue hfull => rw [hfull, Nat.sub_self, Nat.add_zero]
    case isFalse hroom =>
      have hlap : b.head + (rtdbdLogCapacity - b.count) = rtdbdLogCapacity := by
        have := h.filling (by omega)
        omega
      rw [hlap, ← ringList_mod, Nat.mod_self]
  rw [← h.kept, hstart, take_ringList (Nat.min_le_left _ _), irtLogbufDump, hn]

/-- A dump of the audit trail gives the newest entries it keeps. -/
theorem irtAuditDump_lastOf (a : IrtAudit) (cap : Nat) :
    irtAuditDump a cap = lastOf cap (irtAuditDump a rtdbdAuditCapacity) := by
  have hcount := a.count_le
  obtain ⟨n, hn⟩ : ∃ n, n = min a.count cap := ⟨_, rfl⟩
  have hselect : (if a.count < cap then a.count else cap) = n := by
    split <;> omega
  have hplace : a.head + (rtdbdAuditCapacity - a.count) + (a.count - n) =
      a.head + rtdbdAuditCapacity - n := by omega
  have hskip : (ringBehind rtdbdAuditCapacity a.entries a.head a.count).length - cap =
      a.count - n := by
    rw [length_ringBehind]
    omega
  have hlast : (ringList rtdbdAuditCapacity a.entries
      (a.head + (rtdbdAuditCapacity - a.count)) a.count).drop (a.count - n) = _ :=
    lastOf_ringList (by omega)
  rw [irtAuditDump_all, lastOf, hskip, ringBehind, hlast, hplace, irtAuditDump]
  simp only [hselect, ringList_mod]

theorem irtAuditDump_eq (calls : List AuditCall) (cap : Nat) :
    irtAuditDump (auditAfter calls) cap =
      lastOf (min cap rtdbdAuditCapacity) (calls.map AuditCall.entry) := by
  rw [irtAuditDump_lastOf, auditAfter_keeps, lastOf_lastOf]

/-- After `count` calls, dumps with the bound `max` give the most recent entries, oldest
first, and where both rings are as large as the bound they select the same ones. -/
structure DumpsRecent (count max : Nat) : Prop where
  log : ∀ calls : List LogCall, calls.length = count →
    getLogEntries (logAfter calls) max =
      lastOf (min (logBound max) (min count rtdbdLogCapacity)) (calls.map LogCall.entry)
  audit : ∀ calls : List AuditCall, calls.length = count →
    irtAuditDump (auditAfter calls) max =
      lastOf (min max (min count rtdbdAuditCapacity)) (calls.map AuditCall.entry)
  same : 0 < max → max ≤ rtdbdLogCapacity → ∀ (logs : List LogCall) (audits : List AuditCall),
    logs.length = count → logs.map LogCall.wall = audits.map AuditCall.tsNs →
    (getLogEntries (logAfter logs) max).map RtdbdLogEntry.tsNs =
      (irtAuditDump (auditAfter audits) max).map RtdbdAuditEntry.tsNs

/-- The oldest entries kept are the newest ones only when the bound spares them all. -/
theorem take_lastOf_range {cap count n : Nat} (hn : 0 < n) (hcap : n < cap) (hcount : n < count) :
    (lastOf cap (List.range count)).take n ≠ lastOf n (List.range count) := by
  intro heq
  have hhead := congrArg (fun l => l[0]?) heq
  simp only [lastOf, List.length_range, List.getElem?_take, if_pos hn, List.getElem?_drop,
    Nat.add_zero] at hhead
  rw [List.getElem?_range (by omega), List.getElem?_range (by omega)] at hhead
  have hplace := Option.some.inj hhead
  omega

theorem getLogEntries_eq (calls : List LogCall) (max : Nat) :
    getLogEntries (logAfter calls) max =
      (lastOf rtdbdLogCapacity (calls.map LogCall.entry)).take
        (min (min calls.length rtdbdLogCapacity) (logBound max)) := by
  have hkeeps := logAfter_keeps calls
  rw [getLogEntries, irtLogbufDump_eq hkeeps, hkeeps.count_eq, List.length_map]

/-- With a bound that spares all it keeps, the log's dump is a recent one. -/
theorem getLogEntries_of_bound {calls : List LogCall} {max : Nat}
    (h : max = 0 ∨ rtdbdLogCapacity ≤ max ∨ calls.length ≤ max) :
    getLogEntries (logAfter calls) max =
      lastOf (min (logBound max) (min calls.length rtdbdLogCapacity))
        (calls.map LogCall.entry) := by
  have hspares : min calls.length rtdbdLogCapacity ≤ logBound max := by
    rw [logBound]
    split <;> omega
  have hlength : (lastOf rtdbdLogCapacity (calls.map LogCall.entry)).length =
      min calls.length rtdbdLogCapacity := by
    rw [lastOf, List.length_drop, List.length_map]
    omega
  have hplace : calls.length - rtdbdLogCapacity =
      calls.length - min calls.length rtdbdLogCapacity := by omega
  rw [getLogEntries_eq, Nat.min_eq_left hspares, Nat.min_eq_right hspares,
    List.take_of_length_le hlength.le, lastOf, lastOf, List.length_map, hplace]

/-- The dumps are recent ones exactly where the bound spares all the log keeps. -/
theorem dumpsRecent_iff (count max : Nat) :
    DumpsRecent count max ↔ max = 0 ∨ rtdbdLogCapacity ≤ max ∨ count ≤ max := by
  constructor
  · intro h
    by_contra hcuts
    obtain ⟨hpos, hcap, hcount⟩ : 0 < max ∧ max < rtdbdLogCapacity ∧ max < count := by omega
    have hbound : logBound max = max := if_neg (by omega)
    have hdump := h.log ((List.range count).map fun wall => ⟨0, [], wall⟩) (by simp)
    rw [getLogEntries_eq, List.length_map, List.length_range, hbound, Nat.min_eq_right (by omega),
      Nat.min_eq_left (by omega)] at hdump
    have htimes := congrArg (List.map RtdbdLogEntry.tsNs) hdump
    simp only [List.map_take, ← lastOf_map, List.map_map] at htimes
    have hwalls : (RtdbdLogEntry.tsNs ∘ LogCall.entry ∘ fun wall => ⟨0, [], wall⟩) = id := rfl
    rw [hwalls, List.map_id] at htimes
    exact take_lastOf_range hpos hcap hcount htimes
  · intro hspares
    have haudit : ∀ calls : List AuditCall, calls.length = count →
        irtAuditDump (auditAfter calls) max =
          lastOf (min max (min count rtdbdAuditCapacity)) (calls.map AuditCall.entry) := by
      intro calls hcount
      rw [irtAuditDump_eq, lastOf, lastOf, List.length_map, hcount]
      congr 1
      omega
    have hlog : ∀ calls : List LogCall, calls.length = count →
        getLogEntries (logAfter calls) max =
          lastOf (min (logBound max) (min count rtdbdLogCapacity)) (calls.map LogCall.entry) := by
      rintro calls rfl
      exact getLogEntries_of_bound hspares
    refine ⟨hlog, haudit, fun hpos hmax logs audits hcount htimes => ?_⟩
    have hbound : logBound max = max := if_neg (by omega)
    have hcount' : audits.length = count := by
      rw [← hcount, ← List.length_map LogCall.wall, htimes, List.length_map]
    -- The trail is the larger ring, but the bound is within both.
    have hselect : min max (min count rtdbdLogCapacity) =
        min max (min count rtdbdAuditCapacity) := by
      have hcapacity : rtdbdLogCapacity ≤ rtdbdAuditCapacity := by decide
      omega
    have hmap : (logs.map LogCall.entry).map RtdbdLogEntry.tsNs =
        (audits.map AuditCall.entry).map RtdbdAuditEntry.tsNs := by
      rw [List.map_map, List.map_map]
      exact htimes
    rw [hlog logs hcount, haudit audits hcount', hbound, ← lastOf_map, ← lastOf_map, hmap, hselect]

/-- Two calls and a request for one entry give the older one. -/
theorem not_dumpsRecent : ¬ DumpsRecent 2 1 := by
  intro h
  have hdump := h.log [⟨0, [], 1⟩, ⟨0, [], 2⟩] rfl
  exact absurd (congrArg (List.map RtdbdLogEntry.tsNs) hdump) (by decide +kernel)

end InduRtdb.Daemon
