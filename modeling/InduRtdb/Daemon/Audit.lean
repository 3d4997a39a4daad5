/-
  Daemon/Audit.lean --- who may change what, and the records of what was changed.

  Source: `irt_policy_allows` of `rtdbd/src/policy.c`,
  `rtdbd_conf_partition_allowed` of `rtdbd/src/rtdbd_conf.c`,
  `rtdbd/src/audit.c` and `rtdbd/src/logbuf.c`.
-/
import InduRtdb.Daemon.Protocol
import InduRtdb.Lib.Ring

set_option autoImplicit false

namespace InduRtdb.Daemon

open InduRtdb.Core InduRtdb.Lib

/-! ## Permissions -/

/-- `irt_policy_rule_t`. -/
structure IrtPolicyRule where
  uid : Nat
  partition : UInt32
  minId : Nat
  maxId : Nat
  wildcardPartition : Bool
  deriving DecidableEq

/-- `irt_policy_t`: the rules in the order of the file. -/
structure IrtPolicy where
  rules : List IrtPolicyRule

/-- `irt_policy_allows`: the first rule that matches allows, no rule denies. -/
def irtPolicyAllows (p : IrtPolicy) (uid : Nat) (partition : UInt32) (pointId : Nat) : Bool :=
  p.rules.any fun r =>
    r.uid == uid && (r.wildcardPartition || r.partition == partition) &&
      decide (r.minId ≤ pointId) && decide (pointId ≤ r.maxId)

/-- `rtdbd_conf_t`, as far as requests depend on it: the list of partitions. -/
structure RtdbdConf where
  partitions : List UInt32

/-- `rtdbd_conf_partition_allowed`: an empty list allows every partition. -/
def rtdbdConfPartitionAllowed (c : RtdbdConf) (p : UInt32) : Bool :=
  c.partitions.isEmpty || c.partitions.contains p

/-! ## The audit ring -/

/-- `irt_audit_t`. -/
structure IrtAudit where
  entries : Nat → RtdbdAuditEntry
  head : Nat
  count : Nat
  head_lt : head < rtdbdAuditCapacity
  count_le : count ≤ rtdbdAuditCapacity

/-- `irt_audit_init`. -/
def irtAuditInit : IrtAudit where
  entries := fun _ => default
  head := 0
  count := 0
  head_lt := by decide
  count_le := by decide

/-- `irt_audit_record`. -/
def irtAuditRecord (a : IrtAudit) (pid uid : Nat) (partition : UInt32) (pointId tsNs : Nat) :
    IrtAudit where
  entries := Function.update a.entries a.head
    { pid := pid, uid := uid, pointId := pointId, partition := partition, tsNs := tsNs }
  head := (a.head + 1) % rtdbdAuditCapacity
  count := if a.count < rtdbdAuditCapacity then a.count + 1 else a.count
  head_lt := Nat.mod_lt _ (by decide)
  count_le := by
    have hle := a.count_le
    split
    · assumption
    · exact hle

/-- `irt_audit_dump` into an array of `cap` entries. -/
def irtAuditDump (a : IrtAudit) (cap : Nat) : List RtdbdAuditEntry :=
  let n := if a.count < cap then a.count else cap
  ringList rtdbdAuditCapacity a.entries
    ((a.head + rtdbdAuditCapacity - n) % rtdbdAuditCapacity) n

theorem irtAuditDump_init : irtAuditDump irtAuditInit rtdbdAuditCapacity = [] := rfl

/-- A full dump reads the entries before `head`. -/
theorem irtAuditDump_all (a : IrtAudit) :
    irtAuditDump a rtdbdAuditCapacity =
      ringBehind rtdbdAuditCapacity a.entries a.head a.count := by
  have hle := a.count_le
  have hn : (if a.count < rtdbdAuditCapacity then a.count else rtdbdAuditCapacity) = a.count := by
    rcases Nat.lt_or_eq_of_le hle with hlt | heq
    · exact if_pos hlt
    · rw [heq]
      exact if_neg (Nat.lt_irrefl _)
  simp only [irtAuditDump, hn, ringList_mod, ringBehind, Nat.add_sub_assoc hle]

/-- Recording adds an entry behind those of the dump; beyond the capacity the oldest
one gives way. -/
theorem irtAuditDump_record (a : IrtAudit) (pid uid : Nat) (partition : UInt32)
    (pointId tsNs : Nat) :
    irtAuditDump (irtAuditRecord a pid uid partition pointId tsNs) rtdbdAuditCapacity =
      lastOf rtdbdAuditCapacity (irtAuditDump a rtdbdAuditCapacity ++
        [{ pid := pid, uid := uid, pointId := pointId, partition := partition, tsNs := tsNs }]) := by
  rw [irtAuditDump_all, irtAuditDump_all]
  exact ringBehind_record _ a.head_lt a.count_le

/-! ## The log ring -/

/-- `irt_logbuf_t`. -/
structure IrtLogbuf where
  entries : Nat → RtdbdLogEntry
  head : Nat
  count : Nat

/-- The decimal digits `%u` prints. -/
def decimal (n : Nat) : List UInt8 := (Nat.toDigits 10 n).map fun c => UInt8.ofNat c.toNat

/-- The bytes of a text of the source. -/
def textBytes (s : String) : List UInt8 := s.toList.map fun c => UInt8.ofNat c.toNat

/-- `irt_logbuf_emit` of a formatted text; `wall` is the wall clock.  At most 115
bytes of the text are kept. -/
def irtLogbufEmit (b : IrtLogbuf) (level : UInt8) (text : List UInt8) (wall : Nat) : IrtLogbuf where
  entries := Function.update b.entries b.head
    { tsNs := wall, level := level, msg := text.take 115 }
  head := (b.head + 1) % rtdbdLogCapacity
  count := if b.count < rtdbdLogCapacity then b.count + 1 else b.count

/-- `irt_logbuf_dump` into an array of `cap` entries. -/
def irtLogbufDump (b : IrtLogbuf) (cap : Nat) : List RtdbdLogEntry :=
  let n := if b.count < cap then b.count else cap
  let start := if b.count = rtdbdLogCapacity then b.head else 0
  ringList rtdbdLogCapacity b.entries start n

end InduRtdb.Daemon
