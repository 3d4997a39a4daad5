/-
  Client/CommandLine.lean --- the commands of `irtcli`, one after the other.

  Source: `client/src/irtcli_main.c`.

  The tool reads a word, does what it asks for over the one connection of its client, and
  reads the next.  It stops where a word is none of its own or a request fails.  What it
  does is a script that could be read as a whole first, in which every request names the
  partition of the last `select` before it.
-/
import InduRtdb.Client.Arguments
import InduRtdb.Client.Place

set_option autoImplicit false

namespace InduRtdb.Client

open InduRtdb.Core InduRtdb.Daemon InduRtdb.Lib

/-! ## The tool -/

/-- `cli_to_exit`. -/
def cliToExit : IrtcliRc → Nat
  | .ok => 0
  | .errArg => 1
  | .errFull => 2
  | .errIo => 3
  | .errDenied => 4
  | .errProto => 5
  | .errNotFound => 6
  | .queued => 1

/-- `IRTCLI_DEFAULT_SOCK`. -/
def irtcliDefaultSock : CStr := ⟨ascii "/run/indurtdb/default.sock", by decide⟩

/-- `IRTCLI_LIST_CAP`. -/
abbrev irtcliListCap : Nat := 4096

/-- A line that a command prints on `stdout`. -/
inductive Shown where
  | id (id : Nat)
  | point (p : IrtcliPointInfo)

/-- `parse_u32` of a word, where the caller wants a number. -/
def wordU32 (word : CStr) : Option UInt32 :=
  let parsed := parseU32 (some word) 0
  if parsed.1 = 0 then some parsed.2 else none

/-- Where the options end: with the help, with a word that is refused, or before the
commands. -/
inductive OptionsEnd where
  | help
  | usage
  | commands (sock : CStr) (partition : Option UInt32) (words : List CStr)

/-- The loop of `main` over the options. -/
def optionLoop (sock : CStr) (partition : Option UInt32) : List CStr → OptionsEnd
  | [] => .commands sock partition []
  | word :: rest =>
      if word.bytes = ascii "--help" then .help
      else if word.bytes = ascii "--sock" then
        match rest with
        | [] => .usage
        | path :: rest => optionLoop path partition rest
      else if word.bytes = ascii "--partition" then
        match rest with
        | [] => .usage
        | number :: rest =>
            match wordU32 number with
            | none => .usage
            | some n => optionLoop sock (some n) rest
      else if word.bytes.head? = some 45 ∧ 1 < word.bytes.length then .usage
      else .commands sock partition (word :: rest)

/-- What a run of the tool leaves: its exit code, the lines on `stdout`, and its client, if
there has been one. -/
structure CliRun (σ : Type) where
  code : Nat
  shown : List Shown
  session : Option (Session σ)

section

variable {σ : Type} (L : Line σ)

/-- `do_list`. -/
def Session.doList (s : Session σ) : Except IrtcliRc (List IrtcliPointInfo) × Session σ :=
  s.irtcliListIn L s.c.partition 0 4096 irtcliListCap

/-- The loop of `main` over the commands, with `irtcli_close` behind it. -/
def commandLoop : List CStr → Session σ → List Shown → CliRun σ
  | [], s, shown => ⟨0, shown, some s.hangUp⟩
  | word :: rest, s, shown =>
      if word.bytes = ascii "select" then
        match rest with
        | [] => ⟨1, shown, some s.hangUp⟩
        | number :: rest =>
            match wordU32 number with
            | none => ⟨1, shown, some s.hangUp⟩
            | some n =>
                let answer := s.irtcliSelect L n
                if answer.1 = .ok then commandLoop rest answer.2 shown
                else ⟨cliToExit answer.1, shown, some answer.2.hangUp⟩
      else if word.bytes = ascii "find" then
        match rest with
        | [] => ⟨1, shown, some s.hangUp⟩
        | name :: rest =>
            let answer := s.irtcliFindByName L name
            match answer.1 with
            | .error rc => ⟨cliToExit rc, shown, some answer.2.hangUp⟩
            | .ok id => commandLoop rest answer.2 (shown ++ [.id id])
      else if word.bytes = ascii "list" then
        let answer := s.doList L
        match answer.1 with
        | .error rc => ⟨cliToExit rc, shown, some answer.2.hangUp⟩
        | .ok points => commandLoop rest answer.2 (shown ++ points.map .point)
      else ⟨1, shown, some s.hangUp⟩

/-- `main`; `argv` is without the name of the tool. -/
def irtcliMain (argv : List CStr) (line : σ) : CliRun σ :=
  match optionLoop irtcliDefaultSock none argv with
  | .help => ⟨0, [], none⟩
  | .usage => ⟨1, [], none⟩
  | .commands sock partition words =>
      if words = [] then ⟨1, [], none⟩
      else
        match irtcliInit sock 0 with
        | .error rc => ⟨cliToExit rc, [], none⟩
        | .ok c =>
            match partition with
            | none => commandLoop L words (.start c line) []
            | some n =>
                let answer := (Session.start c line).irtcliSelect L n
                if answer.1 = .ok then commandLoop L words answer.2 []
                else ⟨cliToExit answer.1, [], some answer.2.hangUp⟩

end

/-! ## The script -/

/-- A command of the tool. -/
inductive CliCommand where
  | select (partition : UInt32)
  | find (name : CStr)
  | list

/-- The commands that can be read, and whether these are all the words. -/
structure CliScript where
  commands : List CliCommand
  complete : Bool

def CliScript.push (cmd : CliCommand) (script : CliScript) : CliScript :=
  { script with commands := cmd :: script.commands }

/-- The words as a script. -/
def readScript : List CStr → CliScript
  | [] => ⟨[], true⟩
  | word :: rest =>
      if word.bytes = ascii "select" then
        match rest with
        | [] => ⟨[], false⟩
        | number :: rest =>
            match wordU32 number with
            | none => ⟨[], false⟩
            | some n => (readScript rest).push (.select n)
      else if word.bytes = ascii "find" then
        match rest with
        | [] => ⟨[], false⟩
        | name :: rest => (readScript rest).push (.find name)
      else if word.bytes = ascii "list" then (readScript rest).push .list
      else ⟨[], false⟩

/-- The script of a command line, and the client it is for; nothing where no request can be
made. -/
def scriptOf (argv : List CStr) : Option (Irtcli × CliScript) :=
  match optionLoop irtcliDefaultSock none argv with
  | .commands sock partition words =>
      if words = [] then none
      else
        match irtcliInit sock 0 with
        | .error _ => none
        | .ok c =>
            match partition with
            | none => some (c, readScript words)
            | some n => some (c, (readScript words).push (.select n))
  | _ => none

/-- The partition behind a command. -/
def CliCommand.next (partition : UInt32) : CliCommand → UInt32
  | .select n => n
  | _ => partition

/-- What a script comes to: the first failure, what is shown, and the client. -/
structure Performed (σ : Type) where
  failure : Option IrtcliRc
  shown : List Shown
  session : Session σ

namespace Session

variable {σ : Type} (L : Line σ)

/-- A command, in the partition that has been selected. -/
def perform (s : Session σ) (partition : UInt32) :
    CliCommand → Except IrtcliRc (List Shown) × Session σ
  | .select n =>
      let answer := s.irtcliSelect L n
      (if answer.1 = .ok then .ok [] else .error answer.1, answer.2)
  | .find name =>
      let answer := s.irtcliFindByNameIn L partition name
      (answer.1.map fun id => [.id id], answer.2)
  | .list =>
      let answer := s.irtcliListIn L partition 0 4096 irtcliListCap
      (answer.1.map fun points => points.map .point, answer.2)

/-- The commands of a script, as long as they succeed. -/
def performAll : List CliCommand → UInt32 → Session σ → List Shown → Performed σ
  | [], _, s, shown => ⟨none, shown, s⟩
  | cmd :: rest, partition, s, shown =>
      let answer := s.perform L partition cmd
      match answer.1 with
      | .error rc => ⟨some rc, shown, answer.2⟩
      | .ok more => performAll rest (cmd.next partition) answer.2 (shown ++ more)

end Session

/-- The exit code of a script. -/
def CliScript.exitCode (script : CliScript) (failure : Option IrtcliRc) : Nat :=
  match failure with
  | some rc => cliToExit rc
  | none => if script.complete then 0 else 1

/-- The run of a tool that performs a script. -/
def CliScript.ran {σ : Type} (script : CliScript) (done : Performed σ) : CliRun σ :=
  ⟨script.exitCode done.failure, done.shown, some done.session.hangUp⟩

/-! ## A request leaves the selected partition alone -/

namespace Session

variable {σ : Type} (L : Line σ) (s : Session σ)

theorem ensureConnected_partition : (s.ensureConnected L).2.c.partition = s.c.partition := by
  have hconnect : (s.connect L).2.c.partition = s.c.partition := s.connect_partition
  unfold ensureConnected
  split
  · rfl
  · generalize s.connect L = connected at hconnect ⊢
    obtain ⟨rc, s'⟩ := connected
    split
    next heq =>
      cases heq
      exact hconnect
    next heq =>
      cases heq
      exact hconnect

theorem recvAll_partition (n : Nat) : (s.recvAll L n).2.c.partition = s.c.partition := by
  unfold recvAll
  split
  · rfl
  · rfl

theorem ask_partition (path : Path) (opcode : Nat) (payload : List UInt8) :
    (s.ask L path opcode payload).2.c.partition = s.c.partition :=
  congrArg Irtcli.partition (s.ask_kept path opcode payload).1

end Session

/-- An answer that leaves its client in a partition, and tells no failure as a success. -/
structure StaysIn {σ α : Type} (partition : UInt32) (answer : Except IrtcliRc α × Session σ) :
    Prop where
  stays : answer.2.c.partition = partition
  fails : ∀ rc, answer.1 = .error rc → rc ≠ .ok

namespace StaysIn

variable {σ α : Type} {s : Session σ} {partition : UInt32}

theorem ok (h : s.c.partition = partition) (a : α) : StaysIn partition (.ok a, s) where
  stays := h
  fails := fun _ hrc => by cases hrc

theorem error (h : s.c.partition = partition) {rc : IrtcliRc} (hne : rc ≠ .ok) :
    StaysIn partition ((.error rc, s) : Except IrtcliRc α × Session σ) where
  stays := h
  fails := fun _ hrc => Except.error.inj hrc ▸ hne

/-- A connection that breaks in the middle. -/
theorem lost (h : s.c.partition = partition) :
    StaysIn partition ((.error .errIo, s.disconnected) : Except IrtcliRc α × Session σ) :=
  .error (show s.disconnected.c.partition = partition from h) (by decide)

theorem map {β : Type} {answer : Except IrtcliRc α × Session σ} (h : StaysIn partition answer)
    (f : α → β) : StaysIn partition (answer.1.map f, answer.2) := by
  obtain ⟨answer, s⟩ := answer
  cases answer with
  | error rc => exact .error h.stays (h.fails rc rfl)
  | ok a => exact .ok h.stays (f a)

end StaysIn

namespace Session

variable {σ : Type} (L : Line σ) (s : Session σ)

theorem rtSubmit_staysIn (opcode : Nat) (payload : List UInt8) (respLen : Nat) :
    StaysIn s.c.partition (s.rtSubmit L opcode payload respLen) := by
  have hup := s.ensureConnected_partition L
  unfold rtSubmit
  generalize s.ensureConnected L = connected at hup ⊢
  obtain ⟨up, s₁⟩ := connected
  cases up with
  | false => exact .error hup (by decide)
  | true =>
      have hasked := s₁.ask_partition L (.fixed opcode respLen) opcode payload
      dsimp only at hup ⊢
      generalize s₁.ask L (.fixed opcode respLen) opcode payload = asked at hasked ⊢
      obtain ⟨answer, s₂⟩ := asked
      have hstays : s₂.c.partition = s.c.partition := hasked.trans hup
      cases answer with
      | none => exact .lost hstays
      | some resp =>
          dsimp only
          split
          · exact .error hstays (by decide)
          · split
            · have hreceived := s₂.recvAll_partition L respLen
              generalize s₂.recvAll L respLen = received at hreceived ⊢
              obtain ⟨bytes, s₃⟩ := received
              cases bytes with
              | none => exact .lost (hreceived.trans hstays)
              | some bytes => exact .ok (hreceived.trans hstays) _
            · exact .ok hstays _

theorem statusToCli_ne {st : Nat} (h : st ≠ rtdbdStOk) : statusToCli st ≠ .ok := by
  unfold statusToCli
  rw [if_neg h]
  split_ifs <;> decide

theorem irtcliFindByNameIn_staysIn (partition : UInt32) (name : CStr) :
    StaysIn s.c.partition (s.irtcliFindByNameIn L partition name) := by
  have hsubmit := s.rtSubmit_staysIn L rtdbdOpFindByName (findReqBytes partition name) sizeofWord
  unfold irtcliFindByNameIn
  generalize s.rtSubmit L rtdbdOpFindByName (findReqBytes partition name) sizeofWord =
    answer at hsubmit ⊢
  obtain ⟨answer, s₁⟩ := answer
  cases answer with
  | error rc => exact .error hsubmit.stays (hsubmit.fails rc rfl)
  | ok answer =>
      dsimp only
      split
      · exact .ok hsubmit.stays _
      next hstatus => exact .error hsubmit.stays (statusToCli_ne hstatus)

theorem irtcliListIn_staysIn (partition offset max : UInt32) (cap : Nat) :
    StaysIn s.c.partition (s.irtcliListIn L partition offset max cap) := by
  have hup := s.ensureConnected_partition L
  unfold irtcliListIn
  generalize s.ensureConnected L = connected at hup ⊢
  obtain ⟨up, s₁⟩ := connected
  cases up with
  | false => exact .error hup (by decide)
  | true =>
      have hasked := s₁.ask_partition L (.list cap) rtdbdOpList (listReqBytes max offset partition)
      dsimp only at hup ⊢
      generalize s₁.ask L (.list cap) rtdbdOpList _ = asked at hasked ⊢
      obtain ⟨answer, s₂⟩ := asked
      have hstays : s₂.c.partition = s.c.partition := hasked.trans hup
      cases answer with
      | none => exact .lost hstays
      | some resp =>
          dsimp only
          split
          · exact .error hstays (by decide)
          · split
            next hstatus => exact .error hstays (statusToCli_ne hstatus)
            next =>
              split
              · exact .error hstays (by decide)
              · have hreceived := s₂.recvAll_partition L (resp.points * sizeofPointInfo)
                generalize s₂.recvAll L (resp.points * sizeofPointInfo) = received at hreceived ⊢
                obtain ⟨bytes, s₃⟩ := received
                cases bytes with
                | none => exact .lost (hreceived.trans hstays)
                | some bytes => exact .ok (hreceived.trans hstays) _

/-- A `select` that succeeds leaves its client in the partition it names. -/
theorem irtcliSelect_partition {n : UInt32} (hok : (s.irtcliSelect L n).1 = .ok) :
    (s.irtcliSelect L n).2.c.partition = n := by
  have hfails := (s.rtSubmit_staysIn L rtdbdOpSelect (le32 n.toNat) 0).fails
  unfold irtcliSelect at hok ⊢
  obtain ⟨⟨answer, s₁⟩, hanswer⟩ : ∃ a, s.rtSubmit L rtdbdOpSelect (le32 n.toNat) 0 = a :=
    ⟨_, rfl⟩
  rw [hanswer] at hok hfails ⊢
  cases answer with
  | error rc => exact absurd hok (hfails rc rfl)
  | ok answer =>
      obtain ⟨st, bytes⟩ := answer
      dsimp only at hok ⊢
      rw [if_pos hok]
      rfl

/-- A command that succeeds leaves its client in the partition that follows, and one that
fails says so. -/
theorem perform_kept {partition : UInt32} (hpartition : s.c.partition = partition)
    (cmd : CliCommand) :
    (∀ more, (s.perform L partition cmd).1 = .ok more →
      (s.perform L partition cmd).2.c.partition = cmd.next partition) ∧
      ∀ rc, (s.perform L partition cmd).1 = .error rc → rc ≠ .ok := by
  cases cmd with
  | select n =>
      unfold perform
      dsimp only
      rcases Decidable.em ((s.irtcliSelect L n).1 = .ok) with hok | hnot
      · rw [if_pos hok]
        exact ⟨fun more _ => s.irtcliSelect_partition L hok, fun rc h => by cases h⟩
      · rw [if_neg hnot]
        refine ⟨fun more h => ?_, fun rc h => Except.error.inj h ▸ hnot⟩
        cases h
  | find name =>
      have hfind := (s.irtcliFindByNameIn_staysIn L partition name).map fun id => [Shown.id id]
      exact ⟨fun more _ => hfind.stays.trans hpartition, hfind.fails⟩
  | list =>
      have hlist := (s.irtcliListIn_staysIn L partition 0 4096 irtcliListCap).map
        fun points => points.map Shown.point
      exact ⟨fun more _ => hlist.stays.trans hpartition, hlist.fails⟩

end Session

/-! ## The tool performs its script -/

section

variable {σ : Type} (L : Line σ)

/-- One command ahead of a script. -/
theorem ran_push (script : CliScript) (cmd : CliCommand) (partition : UInt32) (s : Session σ)
    (shown : List Shown) :
    (script.push cmd).ran (s.performAll L (script.push cmd).commands partition shown) =
      match (s.perform L partition cmd).1 with
      | .error rc => ⟨cliToExit rc, shown, some (s.perform L partition cmd).2.hangUp⟩
      | .ok more => script.ran ((s.perform L partition cmd).2.performAll L script.commands
          (cmd.next partition) (shown ++ more)) := by
  rw [CliScript.push, Session.performAll]
  cases (s.perform L partition cmd).1 with
  | error rc => rfl
  | ok more => rfl

/-- A `select` that the tool does, whatever comes behind it. -/
theorem ran_select (script : CliScript) (n : UInt32) (s : Session σ) (shown : List Shown) :
    (script.push (.select n)).ran
        (s.performAll L (script.push (.select n)).commands s.c.partition shown) =
      if (s.irtcliSelect L n).1 = .ok then
        script.ran ((s.irtcliSelect L n).2.performAll L script.commands
          (s.irtcliSelect L n).2.c.partition shown)
      else ⟨cliToExit (s.irtcliSelect L n).1, shown, some (s.irtcliSelect L n).2.hangUp⟩ := by
  have hkept := (s.perform_kept L rfl (.select n)).1
  rw [ran_push]
  unfold Session.perform at hkept ⊢
  dsimp only at hkept ⊢
  rcases Decidable.em ((s.irtcliSelect L n).1 = .ok) with hok | hnot
  · rw [if_pos hok] at hkept
    rw [if_pos hok, if_pos hok]
    dsimp only
    rw [hkept [] rfl, List.append_nil]
  · rw [if_neg hnot, if_neg hnot]

/-- The loop over the commands does what the script of its words says. -/
theorem commandLoop_eq (words : List CStr) : ∀ (s : Session σ) (shown : List Shown),
    commandLoop L words s shown = (readScript words).ran
      (s.performAll L (readScript words).commands s.c.partition shown) := by
  induction words using readScript.induct with
  | case1 => exact fun _ _ => rfl
  | case2 word hselect =>
      intro s shown
      rw [commandLoop, readScript, if_pos hselect, if_pos hselect]
      rfl
  | case3 word hselect number rest hnone =>
      intro s shown
      rw [commandLoop, readScript, if_pos hselect, if_pos hselect]
      dsimp only
      rw [hnone]
      rfl
  | case4 word hselect number rest n hsome ih =>
      intro s shown
      rw [commandLoop, readScript, if_pos hselect, if_pos hselect]
      dsimp only
      rw [hsome]
      dsimp only
      rw [ran_select, ih]
  | case5 word hselect hfind =>
      intro s shown
      rw [commandLoop, readScript, if_neg hselect, if_neg hselect, if_pos hfind, if_pos hfind]
      rfl
  | case6 word hselect hfind name rest ih =>
      intro s shown
      have hkept := (s.perform_kept L rfl (.find name)).1
      rw [commandLoop, readScript, if_neg hselect, if_neg hselect, if_pos hfind, if_pos hfind]
      dsimp only
      rw [ran_push, Session.irtcliFindByName]
      unfold Session.perform at hkept ⊢
      dsimp only at hkept ⊢
      cases hanswer : (s.irtcliFindByNameIn L s.c.partition name).1 with
      | error rc => rfl
      | ok id =>
          rw [hanswer] at hkept
          have hnext := hkept _ rfl
          dsimp only [Except.map]
          rw [ih, hnext]
  | case7 word rest hselect hfind hlist ih =>
      intro s shown
      have hkept := (s.perform_kept L rfl .list).1
      unfold commandLoop readScript
      rw [if_neg hselect, if_neg hselect, if_neg hfind, if_neg hfind, if_pos hlist, if_pos hlist]
      dsimp only
      rw [ran_push, Session.doList]
      unfold Session.perform at hkept ⊢
      dsimp only at hkept ⊢
      cases hanswer : (s.irtcliListIn L s.c.partition 0 4096 irtcliListCap).1 with
      | error rc => rfl
      | ok points =>
          rw [hanswer] at hkept
          have hnext := hkept _ rfl
          dsimp only [Except.map]
          rw [ih, hnext]
  | case8 word rest hselect hfind hlist =>
      intro s shown
      unfold commandLoop readScript
      rw [if_neg hselect, if_neg hselect, if_neg hfind, if_neg hfind, if_neg hlist, if_neg hlist]
      rfl

/-- The failures of a script are failures. -/
theorem performAll_failure (commands : List CliCommand) : ∀ (s : Session σ) (partition : UInt32)
    (shown : List Shown), s.c.partition = partition → ∀ rc,
      (s.performAll L commands partition shown).failure = some rc → rc ≠ .ok := by
  induction commands with
  | nil =>
      intro s partition shown _ rc h
      cases h
  | cons cmd rest ih =>
      intro s partition shown hpartition rc h
      obtain ⟨hnext, hfails⟩ := s.perform_kept L hpartition cmd
      unfold Session.performAll at h
      dsimp only at h
      cases hanswer : (s.perform L partition cmd).1 with
      | error rc' =>
          rw [hanswer] at h
          exact Option.some.inj h ▸ hfails rc' hanswer
      | ok more =>
          rw [hanswer] at h
          exact ih _ _ _ (hnext more hanswer) rc h

theorem cliToExit_eq_zero {rc : IrtcliRc} : cliToExit rc = 0 ↔ rc = .ok := by
  cases rc <;> decide

theorem irtcliInit_partition {sock : CStr} {cap : Nat} {c : Irtcli}
    (h : irtcliInit sock cap = .ok c) : c.partition = 0 := by
  unfold irtcliInit at h
  dsimp only at h
  rcases Decidable.em (irtcliQueueCapMax < if cap = 0 then irtcliQueueCapDefault else cap) with
    hcap | hcap
  · rw [dif_pos hcap] at h
    cases h
  · rw [dif_neg hcap] at h
    rcases Decidable.em (irtcliSockPathMax ≤ sock.bytes.length) with hlong | hlong
    · rw [dif_pos hlong] at h
      cases h
    · rw [dif_neg hlong] at h
      exact (congrArg Irtcli.partition (Except.ok.inj h)).symm

end

/-- What a run of the tool comes to. -/
structure RunsScript {σ : Type} (L : Line σ) (argv : List CStr) (line : σ) : Prop where
  /-- words that are refused before the first command, or the help, ask nobody -/
  refused : scriptOf argv = none → (irtcliMain L argv line).session = none
  performs : ∀ c script, scriptOf argv = some (c, script) →
    irtcliMain L argv line =
      script.ran ((Session.start c line).performAll L script.commands 0 [])
  /-- the tool tells success exactly of a script that is read to its end and performed so -/
  succeeds : ∀ c script, scriptOf argv = some (c, script) →
    ((irtcliMain L argv line).code = 0 ↔ script.complete = true ∧
      ((Session.start c line).performAll L script.commands 0 []).failure = none)

/-- **The tool performs its command line.**  Whatever the other end answers and however often
the connection is lost, a run does the commands of its words from left to right until one
fails, each in the partition of the last `select` before it, `--partition` being a `select`
in front; and its exit code is 0 exactly if all the words were read and all the commands
succeeded. -/
theorem irtcliMain_runsScript {σ : Type} (L : Line σ) (argv : List CStr) (line : σ) :
    RunsScript L argv line := by
  have hperforms : ∀ c script, scriptOf argv = some (c, script) →
      c.partition = 0 ∧ irtcliMain L argv line =
        script.ran ((Session.start c line).performAll L script.commands 0 []) := by
    intro c script h
    unfold scriptOf at h
    unfold irtcliMain
    split at h
    next sock partition words hoptions =>
      split at h
      · cases h
      next hwords =>
        cases hinit : irtcliInit sock 0 with
        | error rc =>
            rw [hinit] at h
            cases h
        | ok c' =>
            rw [hinit] at h
            have hzero := irtcliInit_partition hinit
            have hstart : (Session.start c' line).c.partition = 0 := hzero
            rw [hoptions]
            dsimp only
            rw [if_neg hwords, hinit]
            cases partition with
            | none =>
                obtain ⟨rfl, rfl⟩ := Prod.mk.inj (Option.some.inj h)
                dsimp only
                rw [commandLoop_eq, hstart]
                exact ⟨hzero, rfl⟩
            | some n =>
                obtain ⟨rfl, rfl⟩ := Prod.mk.inj (Option.some.inj h)
                refine ⟨hzero, ?_⟩
                have hselect := ran_select L (readScript words) n (.start c' line) []
                rw [hstart] at hselect
                rw [hselect]
                dsimp only
                rw [commandLoop_eq]
    · cases h
  refine ⟨fun h => ?_, fun c script h => (hperforms c script h).2, fun c script h => ?_⟩
  · unfold scriptOf at h
    unfold irtcliMain
    split at h
    next sock partition words hoptions =>
      rw [hoptions]
      dsimp only
      split at h
      next hwords => rw [if_pos hwords]
      next hwords =>
        rw [if_neg hwords]
        cases hinit : irtcliInit sock 0 with
        | error rc => rfl
        | ok c =>
            rw [hinit] at h
            cases partition with
            | none => cases h
            | some n => cases h
    next hnot =>
      cases hoptions : optionLoop irtcliDefaultSock none argv with
      | help => rfl
      | usage => rfl
      | commands sock partition words => exact absurd hoptions (hnot sock partition words)
  · obtain ⟨hzero, hrun⟩ := hperforms c script h
    have hfails := performAll_failure L script.commands (.start c line) 0 [] hzero
    rw [hrun]
    unfold CliScript.ran CliScript.exitCode
    dsimp only
    cases hfailure : ((Session.start c line).performAll L script.commands 0 []).failure with
    | none => cases script.complete <;> simp
    | some rc =>
        constructor
        · intro hcode
          exact absurd (cliToExit_eq_zero.mp hcode) (hfails rc hfailure)
        · rintro ⟨-, hnone⟩
          cases hnone

end InduRtdb.Client
