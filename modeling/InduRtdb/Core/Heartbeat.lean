/-
  Core/Heartbeat.lean --- the heartbeat table and the eviction of its dead entries.

  Source: `src/core/irt_subscription.c`.

  The age of an entry is an unsigned difference.  A reading that is behind a stored
  heartbeat makes it wrap, and the entry is taken for a dead one.
-/
import Mathlib.Algebra.Group.Nat.Defs
import Mathlib.Data.List.Basic
import Mathlib.Data.List.Induction

set_option autoImplicit false

namespace InduRtdb.Core

/-! ## The table -/

/-- The fields `pid` and `last_heartbeat_ns` of `irt_subscriber_entry_t`; an entry
with `pid` 0 is free. -/
structure IrtSubscriberEntry where
  pid : Int32
  lastHeartbeatNs : UInt64
  deriving DecidableEq

/-- A zeroed entry. -/
def IrtSubscriberEntry.free : IrtSubscriberEntry := ⟨0, 0⟩

/-- `irt_sub_update_heartbeat`, with the reading of the clock. -/
def irtSubUpdateHeartbeat (table : List IrtSubscriberEntry) (pid : Int32) (now : UInt64) :
    List IrtSubscriberEntry :=
  match table.findIdx? (fun e => e.pid = pid) with
  | some i => table.modify i fun e => { e with lastHeartbeatNs := now }
  | none =>
      match table.findIdx? (fun e => e.pid = 0) with
      | some i => table.set i ⟨pid, now⟩
      | none => table

/-- The test of `irt_sub_cleanup_zombies`. -/
def isZombie (timeoutNs now : UInt64) (e : IrtSubscriberEntry) : Prop :=
  e.pid ≠ 0 ∧ timeoutNs < now - e.lastHeartbeatNs

instance (timeoutNs now : UInt64) : DecidablePred (isZombie timeoutNs now) :=
  fun _ => inferInstanceAs (Decidable (_ ∧ _))

/-- `irt_sub_cleanup_zombies`, with the reading of the clock. -/
def irtSubCleanupZombies (table : List IrtSubscriberEntry) (timeoutNs now : UInt64) :
    List IrtSubscriberEntry :=
  if timeoutNs = 0 then table
  else table.map fun e => if isZombie timeoutNs now e then .free else e

/-- A call of some process, with the reading of its clock. -/
inductive HeartbeatCall where
  | update (pid : Int32) (now : UInt64)
  | cleanup (timeoutNs now : UInt64)

/-- What a call does to the table. -/
def HeartbeatCall.run (table : List IrtSubscriberEntry) : HeartbeatCall → List IrtSubscriberEntry
  | .update pid now => irtSubUpdateHeartbeat table pid now
  | .cleanup timeoutNs now => irtSubCleanupZombies table timeoutNs now

/-- The table of `maxSubscribers` entries after some calls. -/
def heartbeatsAfter (maxSubscribers : Nat) (calls : List HeartbeatCall) :
    List IrtSubscriberEntry :=
  calls.foldl HeartbeatCall.run (List.replicate maxSubscribers .free)

/-! ## Each process has one entry -/

/-- A non-zero pid is in one entry at most. -/
def OneEntryEach (table : List IrtSubscriberEntry) : Prop :=
  ∀ (i j : Nat) (e f : IrtSubscriberEntry), table[i]? = some e → table[j]? = some f →
    e.pid ≠ 0 → e.pid = f.pid → i = j

/-- Entries that keep their pid or lose it stay in one place each. -/
theorem OneEntryEach.of_pids {table table' : List IrtSubscriberEntry} (h : OneEntryEach table)
    (hpids : ∀ (i : Nat) (e' : IrtSubscriberEntry), table'[i]? = some e' → e'.pid ≠ 0 →
      ∃ e, table[i]? = some e ∧ e.pid = e'.pid) : OneEntryEach table' := by
  intro i j e' f' he' hf' hpid hsame
  obtain ⟨e, he, hepid⟩ := hpids i e' he' hpid
  obtain ⟨f, hf, hfpid⟩ := hpids j f' hf' (hsame ▸ hpid)
  exact h i j e f he hf (hepid ▸ hpid) (by rw [hepid, hfpid, hsame])

/-- What an update does: it renews the entry of its pid, else it takes a free one, else
nothing. -/
theorem irtSubUpdateHeartbeat_cases (table : List IrtSubscriberEntry) (pid : Int32)
    (now : UInt64) :
    (∃ (i : Nat) (e : IrtSubscriberEntry), table[i]? = some e ∧ e.pid = pid ∧
      irtSubUpdateHeartbeat table pid now = table.set i ⟨pid, now⟩) ∨
    ((∀ e ∈ table, e.pid ≠ pid) ∧ ∃ (i : Nat) (e : IrtSubscriberEntry), table[i]? = some e ∧
      e.pid = 0 ∧ irtSubUpdateHeartbeat table pid now = table.set i ⟨pid, now⟩) ∨
    ((∀ e ∈ table, e.pid ≠ pid) ∧ (∀ e ∈ table, e.pid ≠ 0) ∧
      irtSubUpdateHeartbeat table pid now = table) := by
  rw [irtSubUpdateHeartbeat]
  split
  case h_1 i hfind =>
    obtain ⟨hi, hfound, -⟩ := List.findIdx?_eq_some_iff_getElem.mp hfind
    have hpid : table[i].pid = pid := of_decide_eq_true hfound
    refine .inl ⟨i, table[i], List.getElem?_eq_getElem hi, hpid, ?_⟩
    rw [List.modify_eq_set_getElem?, List.getElem?_eq_getElem hi]
    exact congrArg (fun pid => table.set i ⟨pid, now⟩) hpid
  case h_2 hnone =>
    have habsent : ∀ e ∈ table, e.pid ≠ pid := by
      simpa [List.findIdx?_eq_none_iff] using hnone
    refine .inr ?_
    split
    case h_1 i hfind =>
      obtain ⟨hi, hpid, -⟩ := List.findIdx?_eq_some_iff_getElem.mp hfind
      exact .inl ⟨habsent, i, table[i], List.getElem?_eq_getElem hi, of_decide_eq_true hpid, rfl⟩
    case h_2 hfull =>
      exact .inr ⟨habsent, by simpa [List.findIdx?_eq_none_iff] using hfull, rfl⟩

theorem OneEntryEach.update {table : List IrtSubscriberEntry} (h : OneEntryEach table)
    (pid : Int32) (now : UInt64) : OneEntryEach (irtSubUpdateHeartbeat table pid now) := by
  obtain ⟨k, e, he, hepid, hset⟩ | ⟨habsent, k, e, he, hfree, hset⟩ | ⟨-, -, hsame⟩ :=
    irtSubUpdateHeartbeat_cases table pid now
  · -- The pid is where it was.
    rw [hset]
    refine h.of_pids fun i e' he' hpid => ?_
    rw [List.getElem?_set] at he'
    split at he'
    case isTrue hik =>
      subst hik
      obtain ⟨-, rfl⟩ : _ ∧ _ = e' := by simpa using he'
      exact ⟨e, he, hepid⟩
    case isFalse => exact ⟨e', he', rfl⟩
  · -- The pid is new, and all others are where they were.
    rw [hset]
    intro i j e₁ e₂ he₁ he₂ hpid hsame
    rw [List.getElem?_set] at he₁ he₂
    split at he₁ <;> split at he₂
    case isTrue.isTrue hi hj => rw [← hi, ← hj]
    case isTrue.isFalse hi _ =>
      obtain ⟨-, rfl⟩ : _ ∧ _ = e₁ := by simpa using he₁
      exact absurd hsame.symm (habsent e₂ (List.mem_of_getElem? he₂))
    case isFalse.isTrue hi _ =>
      obtain ⟨-, rfl⟩ : _ ∧ _ = e₂ := by simpa using he₂
      exact absurd hsame (habsent e₁ (List.mem_of_getElem? he₁))
    case isFalse.isFalse => exact h i j e₁ e₂ he₁ he₂ hpid hsame
  · rw [hsame]
    exact h

/-- What a clean-up leaves in a place. -/
theorem getElem?_cleanup {timeoutNs now : UInt64} (htimeout : timeoutNs ≠ 0)
    (table : List IrtSubscriberEntry) (i : Nat) :
    (irtSubCleanupZombies table timeoutNs now)[i]? =
      table[i]?.map fun e => if isZombie timeoutNs now e then .free else e := by
  rw [irtSubCleanupZombies, if_neg htimeout, List.getElem?_map]

theorem OneEntryEach.cleanup {table : List IrtSubscriberEntry} (h : OneEntryEach table)
    (timeoutNs now : UInt64) : OneEntryEach (irtSubCleanupZombies table timeoutNs now) := by
  rcases eq_or_ne timeoutNs 0 with rfl | htimeout
  · exact h
  refine h.of_pids fun i e' he' hpid => ?_
  rw [getElem?_cleanup htimeout] at he'
  obtain ⟨e, he, rfl⟩ := Option.map_eq_some_iff.mp he'
  refine ⟨e, he, ?_⟩
  split
  case isTrue hzombie =>
    rw [if_pos hzombie] at hpid
    exact absurd rfl hpid
  case isFalse => rfl

theorem OneEntryEach.run {table : List IrtSubscriberEntry} (h : OneEntryEach table)
    (call : HeartbeatCall) : OneEntryEach (call.run table) := by
  cases call with
  | update pid now => exact h.update pid now
  | cleanup timeoutNs now => exact h.cleanup timeoutNs now

theorem oneEntryEach_heartbeatsAfter (maxSubscribers : Nat) (calls : List HeartbeatCall) :
    OneEntryEach (heartbeatsAfter maxSubscribers calls) := by
  induction calls using List.reverseRecOn with
  | nil =>
      intro i j e f he _ hpid
      have hfree := List.eq_of_mem_replicate (List.mem_of_getElem? he)
      exact absurd (congrArg IrtSubscriberEntry.pid hfree) hpid
  | append_singleton calls call ih =>
      rw [heartbeatsAfter, List.foldl_append]
      exact ih.run call

/-! ## What an update and a clean-up owe -/

/-- An update that finds its pid or a free entry stores its reading. -/
theorem irtSubUpdateHeartbeat_stores {table : List IrtSubscriberEntry} {pid : Int32}
    (h : ∃ e ∈ table, e.pid = pid ∨ e.pid = 0) (now : UInt64) :
    ∃ i : Nat, (irtSubUpdateHeartbeat table pid now)[i]? = some ⟨pid, now⟩ := by
  obtain ⟨k, e, he, -, hset⟩ | ⟨-, k, e, he, -, hset⟩ | ⟨habsent, hfull, -⟩ :=
    irtSubUpdateHeartbeat_cases table pid now
  · obtain ⟨hk, -⟩ := List.getElem?_eq_some_iff.mp he
    exact ⟨k, by rw [hset, List.getElem?_set_self hk]⟩
  · obtain ⟨hk, -⟩ := List.getElem?_eq_some_iff.mp he
    exact ⟨k, by rw [hset, List.getElem?_set_self hk]⟩
  · obtain ⟨e, hmem, hpid | hpid⟩ := h
    · exact absurd hpid (habsent e hmem)
    · exact absurd hpid (hfull e hmem)

/-- Every entry is left as it is, or it is cleared and dead for longer than the timeout. -/
def ClearsOnlyTheDead (table : List IrtSubscriberEntry) (timeoutNs now : UInt64) : Prop :=
  ∀ (i : Nat) (e : IrtSubscriberEntry), table[i]? = some e →
    (irtSubCleanupZombies table timeoutNs now)[i]? = some e ∨
      ((irtSubCleanupZombies table timeoutNs now)[i]? = some .free ∧
        e.lastHeartbeatNs.toNat + timeoutNs.toNat < now.toNat)

/-- Where a stored heartbeat is ahead of the reading, the wrapped age is in the timeout. -/
def AheadWithin (table : List IrtSubscriberEntry) (timeoutNs now : UInt64) : Prop :=
  timeoutNs = 0 ∨ ∀ e ∈ table, e.pid ≠ 0 → now < e.lastHeartbeatNs →
    2 ^ 64 - (e.lastHeartbeatNs.toNat - now.toNat) ≤ timeoutNs.toNat

theorem clearsOnlyTheDead_iff (table : List IrtSubscriberEntry) (timeoutNs now : UInt64) :
    ClearsOnlyTheDead table timeoutNs now ↔ AheadWithin table timeoutNs now := by
  have hage : ∀ e : IrtSubscriberEntry, timeoutNs < now - e.lastHeartbeatNs ↔
      timeoutNs.toNat < (2 ^ 64 - e.lastHeartbeatNs.toNat + now.toNat) % 2 ^ 64 := fun e => by
    rw [UInt64.lt_iff_toNat_lt, UInt64.toNat_sub]
  constructor
  · intro hdead
    by_contra hahead
    obtain ⟨htimeout, e, hmem, hpid, hlt, hwrap⟩ : timeoutNs ≠ 0 ∧ ∃ e ∈ table, e.pid ≠ 0 ∧
        now < e.lastHeartbeatNs ∧
        timeoutNs.toNat + (e.lastHeartbeatNs.toNat - now.toNat) < 2 ^ 64 := by
      simpa [AheadWithin] using hahead
    rw [UInt64.lt_iff_toNat_lt] at hlt
    have hzombie : isZombie timeoutNs now e := by
      refine ⟨hpid, (hage e).mpr ?_⟩
      have := e.lastHeartbeatNs.toNat_lt
      omega
    obtain ⟨i, he⟩ := List.mem_iff_getElem?.mp hmem
    have hcleared : (irtSubCleanupZombies table timeoutNs now)[i]? = some .free := by
      rw [getElem?_cleanup htimeout, he, Option.map_some, if_pos hzombie]
    rcases hdead i e he with hkept | ⟨-, hlate⟩
    · rw [hcleared] at hkept
      exact hpid (congrArg IrtSubscriberEntry.pid (Option.some.inj hkept)).symm
    · omega
  · rintro hahead i e he
    rcases eq_or_ne timeoutNs 0 with rfl | htimeout
    · exact .inl he
    rw [getElem?_cleanup htimeout, he, Option.map_some]
    split
    case isFalse => exact .inl rfl
    case isTrue hzombie =>
      refine .inr ⟨rfl, ?_⟩
      obtain ⟨hpid, hold⟩ := hzombie
      rw [hage] at hold
      have hwithin := (hahead.resolve_left htimeout) e (List.mem_of_getElem? he) hpid
      rw [UInt64.lt_iff_toNat_lt] at hwithin
      have := e.lastHeartbeatNs.toNat_lt
      have := now.toNat_lt
      omega

/-! ## Runs -/

/-- What a call owes in a table. -/
def HeartbeatCall.Owed (table : List IrtSubscriberEntry) : HeartbeatCall → Prop
  | .update pid now => (∃ e ∈ table, e.pid = pid ∨ e.pid = 0) →
      ∃ i : Nat, (irtSubUpdateHeartbeat table pid now)[i]? = some ⟨pid, now⟩
  | .cleanup timeoutNs now => ClearsOnlyTheDead table timeoutNs now

/-- A clean-up's clock is not so far behind a stored heartbeat that its age wraps past
the timeout. -/
def HeartbeatCall.InTime (table : List IrtSubscriberEntry) : HeartbeatCall → Prop
  | .update _ _ => True
  | .cleanup timeoutNs now => AheadWithin table timeoutNs now

theorem HeartbeatCall.owed_iff (table : List IrtSubscriberEntry) (call : HeartbeatCall) :
    call.Owed table ↔ call.InTime table := by
  cases call with
  | update pid now => exact iff_of_true (fun h => irtSubUpdateHeartbeat_stores h now) trivial
  | cleanup timeoutNs now => exact clearsOnlyTheDead_iff table timeoutNs now

/-- After every call each process has one entry at most, and every call gives what it
owes. -/
structure EvictsOnlyTheDead (maxSubscribers : Nat) (calls : List HeartbeatCall) : Prop where
  one : ∀ before, before <+: calls → OneEntryEach (heartbeatsAfter maxSubscribers before)
  owed : ∀ before call, before ++ [call] <+: calls →
    call.Owed (heartbeatsAfter maxSubscribers before)

/-- Only the dead are evicted exactly when every clean-up is in time. -/
theorem evictsOnlyTheDead_iff (maxSubscribers : Nat) (calls : List HeartbeatCall) :
    EvictsOnlyTheDead maxSubscribers calls ↔ ∀ before call, before ++ [call] <+: calls →
      call.InTime (heartbeatsAfter maxSubscribers before) := by
  constructor
  · intro h before call hrun
    exact (call.owed_iff _).mp (h.owed before call hrun)
  · intro h
    exact ⟨fun before _ => oneEntryEach_heartbeatsAfter maxSubscribers before,
      fun before call hrun => (call.owed_iff _).mpr (h before call hrun)⟩

/-- A clean-up that reads its clock just before a heartbeat evicts the live entry. -/
theorem not_evictsOnlyTheDead :
    ¬ EvictsOnlyTheDead 1 [.update 7 10, .cleanup 5 9] := by
  intro h
  have hdead : ClearsOnlyTheDead (heartbeatsAfter 1 [.update 7 10]) 5 9 :=
    h.owed [.update 7 10] (.cleanup 5 9) (List.prefix_refl _)
  exact absurd (hdead 0 ⟨7, 10⟩ (by decide +kernel)) (by decide +kernel)

end InduRtdb.Core
