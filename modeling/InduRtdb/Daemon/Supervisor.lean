/-
  Daemon/Supervisor.lean --- the options of a supervised worker.

  Source: `rtdbd/src/rtdbd.c` (`main`, `parse_u32_cli` and `supervise_loop`).

  `main` reads its options with `getopt_long`, which moves the other words behind them,
  and hands the vector to `supervise_loop`.  That takes out the words `--supervise` and
  `--pidfile` with the word behind it, wherever they stand, and keeps 30 words.
-/
import InduRtdb.Lib.Getopt
import InduRtdb.Lib.Strtoul

set_option autoImplicit false

namespace InduRtdb.Daemon

open InduRtdb.Lib InduRtdb.Lib.Getopt

/-! ## The options -/

/-- The options of `rtdbd`: the string of the short ones, and `long_opts`. -/
def rtdbdTable : Table where
  short := ascii "s:i:p:c:m:b:SP:F:D:"
  long :=
    [⟨ascii "socket", true, 115⟩, ⟨ascii "instance", true, 105⟩, ⟨ascii "policy", true, 112⟩,
      ⟨ascii "config", true, 99⟩, ⟨ascii "max-points", true, 109⟩,
      ⟨ascii "max-subs", true, 98⟩, ⟨ascii "supervise", false, 83⟩,
      ⟨ascii "pidfile", true, 80⟩, ⟨ascii "stats-file", true, 70⟩,
      ⟨ascii "delta-file", true, 68⟩]

/-- The size of `g_stats_file`. -/
abbrev rtdbdStatsFileSize : Nat := 256

/-- The variables of `main` that the options set. -/
structure RtdbdOptions where
  sockPath : Word
  instanceId : Word
  policyPath : Option Word
  configPath : Option Word
  maxPoints : UInt32
  maxSubs : UInt32
  supervise : Bool
  pidfile : Option Word
  statsFile : Word
  deltaPath : Option Word
  deriving DecidableEq

/-- Their values before the first option. -/
def RtdbdOptions.defaults : RtdbdOptions where
  sockPath := ascii "/run/indurtdb/default.sock"
  instanceId := ascii "default"
  policyPath := none
  configPath := none
  maxPoints := 10000
  maxSubs := 32
  supervise := false
  pidfile := none
  statsFile := ascii "/tmp/rtdbd.stats"
  deltaPath := none

/-- `parse_u32_cli`. -/
def parseU32Cli (s : Word) : Option UInt32 :=
  if s.isEmpty then none
  else
    let v := strtoul 10 s
    if v.rest = s ∨ v.rest ≠ [] then none
    else if v.erange ∨ 0xFFFFFFFF < v.value then none
    else some (UInt32.ofNat v.value)

/-- The body of the loop over the options; nothing where `main` ends with an error. -/
def applyOption (o : RtdbdOptions) (e : Event) : Option RtdbdOptions :=
  let optarg := e.arg.getD []
  if e.val = 115 then some { o with sockPath := optarg }
  else if e.val = 105 then some { o with instanceId := optarg }
  else if e.val = 112 then some { o with policyPath := some optarg }
  else if e.val = 99 then some { o with configPath := some optarg }
  else if e.val = 109 then (parseU32Cli optarg).map fun n => { o with maxPoints := n }
  else if e.val = 98 then (parseU32Cli optarg).map fun n => { o with maxSubs := n }
  else if e.val = 83 then some { o with supervise := true }
  else if e.val = 80 then some { o with pidfile := some optarg }
  else if e.val = 70 then some { o with statsFile := optarg.take (rtdbdStatsFileSize - 1) }
  else if e.val = 68 then some { o with deltaPath := some optarg }
  else some o

/-- The options that an argument vector, without its first word, gives. -/
def parseOptions (ws : List Word) : Option RtdbdOptions :=
  (rtdbdTable.getoptLong ws).foldlM applyOption .defaults

/-! ## The vector of the worker -/

abbrev superviseWord : Word := ascii "--supervise"

abbrev pidfileWord : Word := ascii "--pidfile"

/-- The loop that builds the vector, with room for `n` more words. -/
def workerLoop : Nat → List Word → List Word
  | 0, _ => []
  | _ + 1, [] => []
  | n + 1, w :: rest =>
      if w = superviseWord then workerLoop (n + 1) rest
      else if w = pidfileWord then
        match rest with
        | [] => []
        | _ :: rest => workerLoop (n + 1) rest
      else w :: workerLoop n rest

/-- The vector `supervise_loop` builds, without its first word. -/
def workerArgs (ws : List Word) : List Word := workerLoop 30 (rtdbdTable.permute ws)

/-- The options of a worker. -/
def RtdbdOptions.forWorker (o : RtdbdOptions) : RtdbdOptions :=
  { o with supervise := false, pidfile := none }

/-- The worker gets the options of the supervisor, and is none itself. -/
def WorkerSame (ws : List Word) : Prop :=
  ∃ o, parseOptions ws = some o ∧ parseOptions (workerArgs ws) = some o.forWorker

/-! ## What the words say -/

/-- The event is one of supervision. -/
def OfSupervisor (e : Event) : Prop := e.val = 83 ∨ e.val = 80

instance (e : Event) : Decidable (OfSupervisor e) := inferInstanceAs (Decidable (_ ∨ _))

/-- The group is what `supervise_loop` looks for. -/
def Taken (g : Group) : Prop := g.word = superviseWord ∨ g.word = pidfileWord

instance (g : Group) : Decidable (Taken g) := inferInstanceAs (Decidable (_ ∨ _))

/-- The groups that are left for the worker. -/
def leftGroups (ws : List Word) : List Group := (rtdbdTable.groups ws).filter fun g => ¬ Taken g

/-- No word gets another meaning: an option that is left has the argument it wants, or there is
no other word it could take; no argument is one of the two words; and what is left has room. -/
structure KeepsMeaning (ws : List Word) : Prop where
  complete : ∀ g ∈ rtdbdTable.groups ws, ¬ Taken g →
    (rtdbdTable.wordOptions g.word).wants.isSome = true → g.arg = none →
    (rtdbdTable.permuted ws).2 = []
  args : ∀ g ∈ rtdbdTable.groups ws, ¬ Taken g →
    ∀ a ∈ g.arg, a ≠ superviseWord ∧ a ≠ pidfileWord
  room : ((leftGroups ws).flatMap Group.words).length ≤ 30

/-- Supervision and the pid file are asked for by the words `--supervise` and `--pidfile`
alone. -/
def SpelledOut (ws : List Word) : Prop :=
  ∀ g ∈ rtdbdTable.groups ws, (∃ e ∈ rtdbdTable.groupEvents g, OfSupervisor e) → Taken g

/-! ## Options, event by event -/

section

variable {o o' : RtdbdOptions} {e : Event} {es : List Event}

theorem applyOption_supervise (o : RtdbdOptions) (arg : Option Word) :
    applyOption o ⟨83, arg⟩ = some { o with supervise := true } := rfl

theorem applyOption_pidfile (o : RtdbdOptions) (arg : Option Word) :
    applyOption o ⟨80, arg⟩ = some { o with pidfile := some (arg.getD []) } := rfl

theorem applyOption_ofSupervisor (he : OfSupervisor e) (h : applyOption o e = some o') :
    o'.forWorker = o.forWorker := by
  obtain ⟨val, arg⟩ := e
  rcases he with rfl | rfl
  · rw [applyOption_supervise] at h
    rw [← Option.some.inj h]
    rfl
  · rw [applyOption_pidfile] at h
    rw [← Option.some.inj h]
    rfl

/-- The other options leave supervision and the pid file alone, and do the rest for a worker
too. -/
theorem applyOption_other (he : ¬ OfSupervisor e) (h : applyOption o e = some o') :
    applyOption o.forWorker e = some o'.forWorker ∧ o'.supervise = o.supervise ∧
      o'.pidfile = o.pidfile := by
  obtain ⟨hS, hP⟩ := not_or.mp he
  unfold applyOption at h ⊢
  dsimp only at h ⊢
  rw [if_neg hS, if_neg hP] at h ⊢
  rcases eq_or_ne e.val 115 with hsocket | hsocket
  · rw [if_pos hsocket] at h ⊢
    rw [← Option.some.inj h]
    exact ⟨rfl, rfl, rfl⟩
  rw [if_neg hsocket] at h ⊢
  rcases eq_or_ne e.val 105 with hinstance | hinstance
  · rw [if_pos hinstance] at h ⊢
    rw [← Option.some.inj h]
    exact ⟨rfl, rfl, rfl⟩
  rw [if_neg hinstance] at h ⊢
  rcases eq_or_ne e.val 112 with hpolicy | hpolicy
  · rw [if_pos hpolicy] at h ⊢
    rw [← Option.some.inj h]
    exact ⟨rfl, rfl, rfl⟩
  rw [if_neg hpolicy] at h ⊢
  rcases eq_or_ne e.val 99 with hconfig | hconfig
  · rw [if_pos hconfig] at h ⊢
    rw [← Option.some.inj h]
    exact ⟨rfl, rfl, rfl⟩
  rw [if_neg hconfig] at h ⊢
  rcases eq_or_ne e.val 109 with hpoints | hpoints
  · rw [if_pos hpoints] at h ⊢
    obtain ⟨n, hn, rfl⟩ := Option.map_eq_some_iff.mp h
    rw [hn]
    exact ⟨rfl, rfl, rfl⟩
  rw [if_neg hpoints] at h ⊢
  rcases eq_or_ne e.val 98 with hsubs | hsubs
  · rw [if_pos hsubs] at h ⊢
    obtain ⟨n, hn, rfl⟩ := Option.map_eq_some_iff.mp h
    rw [hn]
    exact ⟨rfl, rfl, rfl⟩
  rw [if_neg hsubs] at h ⊢
  rcases eq_or_ne e.val 70 with hstats | hstats
  · rw [if_pos hstats] at h ⊢
    rw [← Option.some.inj h]
    exact ⟨rfl, rfl, rfl⟩
  rw [if_neg hstats] at h ⊢
  rcases eq_or_ne e.val 68 with hdelta | hdelta
  · rw [if_pos hdelta] at h ⊢
    rw [← Option.some.inj h]
    exact ⟨rfl, rfl, rfl⟩
  rw [if_neg hdelta] at h ⊢
  rw [← Option.some.inj h]
  exact ⟨rfl, rfl, rfl⟩

/-- Which options of supervision have been given. -/
theorem applyOption_flags (h : applyOption o e = some o') :
    (o'.supervise = true ↔ o.supervise = true ∨ e.val = 83) ∧
      (o'.pidfile.isSome = true ↔ o.pidfile.isSome = true ∨ e.val = 80) := by
  rcases Decidable.em (OfSupervisor e) with he | he
  · obtain ⟨val, arg⟩ := e
    have hne : (83 : UInt8) ≠ 80 := by decide
    rcases he with rfl | rfl
    · rw [applyOption_supervise] at h
      rw [← Option.some.inj h]
      exact ⟨⟨fun _ => .inr rfl, fun _ => rfl⟩, (or_iff_left hne).symm⟩
    · rw [applyOption_pidfile] at h
      rw [← Option.some.inj h]
      exact ⟨(or_iff_left hne.symm).symm, ⟨fun _ => .inr rfl, fun _ => rfl⟩⟩
  · obtain ⟨hS, hP⟩ := not_or.mp he
    obtain ⟨-, hsupervise, hpidfile⟩ := applyOption_other he h
    rw [hsupervise, hpidfile, or_iff_left hS, or_iff_left hP]
    exact ⟨Iff.rfl, Iff.rfl⟩

/-- Events of supervision and unknown options change nothing that the worker gets. -/
theorem foldlM_silent (hsilent : ∀ e ∈ es, OfSupervisor e ∨ e = .unknown)
    (h : es.foldlM applyOption o = some o') : o'.forWorker = o.forWorker := by
  induction es generalizing o with
  | nil => rw [← Option.some.inj h]
  | cons e es ih =>
      rw [List.foldlM_cons] at h
      obtain ⟨o₁, hstep, hrest⟩ := Option.bind_eq_some_iff.mp h
      have hkept : o₁.forWorker = o.forWorker := by
        rcases hsilent e List.mem_cons_self with he | rfl
        · exact applyOption_ofSupervisor he hstep
        · rw [← Option.some.inj hstep]
      rw [ih (fun e he => hsilent e (List.mem_cons_of_mem _ he)) hrest, hkept]

/-- The other events do to the worker's options what they do to the supervisor's. -/
theorem foldlM_forWorker (hother : ∀ e ∈ es, ¬ OfSupervisor e)
    (h : es.foldlM applyOption o = some o') :
    es.foldlM applyOption o.forWorker = some o'.forWorker := by
  induction es generalizing o with
  | nil => rw [← Option.some.inj h]; rfl
  | cons e es ih =>
      rw [List.foldlM_cons] at h ⊢
      obtain ⟨o₁, hstep, hrest⟩ := Option.bind_eq_some_iff.mp h
      rw [(applyOption_other (hother e List.mem_cons_self) hstep).1]
      exact ih (fun e he => hother e (List.mem_cons_of_mem _ he)) hrest

theorem foldlM_flags (h : es.foldlM applyOption o = some o') :
    (o'.supervise = true ↔ o.supervise = true ∨ ∃ e ∈ es, e.val = 83) ∧
      (o'.pidfile.isSome = true ↔ o.pidfile.isSome = true ∨ ∃ e ∈ es, e.val = 80) := by
  induction es generalizing o with
  | nil =>
      rw [← Option.some.inj h]
      simp
  | cons e es ih =>
      rw [List.foldlM_cons] at h
      obtain ⟨o₁, hstep, hrest⟩ := Option.bind_eq_some_iff.mp h
      obtain ⟨hS, hP⟩ := ih hrest
      obtain ⟨hS₁, hP₁⟩ := applyOption_flags hstep
      rw [hS, hP, hS₁, hP₁, List.exists_mem_cons_iff, List.exists_mem_cons_iff, or_assoc, or_assoc]
      exact ⟨Iff.rfl, Iff.rfl⟩

end

/-! ## Groups that are taken out -/

section

variable {g : Group} {gs : List Group} {ws : List Word}

theorem filter_taken (h : Taken g) :
    (g :: gs).filter (fun g => ¬ Taken g) = gs.filter fun g => ¬ Taken g :=
  List.filter_cons_of_neg fun hleft => of_decide_eq_true (p := ¬ Taken g) hleft h

theorem filter_kept (h : ¬ Taken g) :
    (g :: gs).filter (fun g => ¬ Taken g) = g :: gs.filter fun g => ¬ Taken g :=
  List.filter_cons_of_pos (decide_eq_true h)

/-- Of the groups that are taken out only supervision is read. -/
theorem events_taken (h : Taken g) :
    ∀ e ∈ rtdbdTable.groupEvents g, OfSupervisor e ∨ e = .unknown := by
  obtain ⟨w, arg⟩ := g
  rcases h with rfl | rfl
  · have hevents : rtdbdTable.groupEvents ⟨superviseWord, arg⟩ = [⟨83, none⟩] :=
      Table.groupEvents_plain arg rfl
    rw [hevents]
    exact fun e he => .inl (.inl (by rw [List.mem_singleton.mp he]))
  · cases arg with
    | none =>
        have hevents : rtdbdTable.groupEvents ⟨pidfileWord, none⟩ = [.unknown] :=
          Table.groupEvents_missing rfl
        rw [hevents]
        exact fun e he => .inr (List.mem_singleton.mp he)
    | some a =>
        have hevents : rtdbdTable.groupEvents ⟨pidfileWord, some a⟩ = [⟨80, some a⟩] :=
          Table.groupEvents_argument rfl
        rw [hevents]
        exact fun e he => .inl (.inr (by rw [List.mem_singleton.mp he]))

/-- What the groups that are left say, where no other group asks for supervision. -/
theorem foldlM_left {o o' : RtdbdOptions}
    (hspelled : ∀ g ∈ gs, (∃ e ∈ rtdbdTable.groupEvents g, OfSupervisor e) → Taken g)
    (h : (gs.flatMap rtdbdTable.groupEvents).foldlM applyOption o = some o') :
    ((gs.filter fun g => ¬ Taken g).flatMap rtdbdTable.groupEvents).foldlM applyOption
      o.forWorker = some o'.forWorker := by
  induction gs generalizing o with
  | nil => rw [← Option.some.inj h]; rfl
  | cons g gs ih =>
      rw [List.flatMap_cons, List.foldlM_append] at h
      obtain ⟨o₁, hstep, hrest⟩ := Option.bind_eq_some_iff.mp h
      have hleft := ih (fun g hg => hspelled g (List.mem_cons_of_mem _ hg)) hrest
      by_cases htaken : Taken g
      · rw [filter_taken htaken,
          ← foldlM_silent (events_taken htaken) hstep]
        exact hleft
      · have hother : ∀ e ∈ rtdbdTable.groupEvents g, ¬ OfSupervisor e := fun e he hof =>
          htaken (hspelled g List.mem_cons_self ⟨e, he, hof⟩)
        rw [filter_kept htaken, List.flatMap_cons,
          List.foldlM_append, foldlM_forWorker hother hstep]
        exact hleft

/-- The words `supervise_loop` keeps, if it has room. -/
def keptWords : List Word → List Word
  | [] => []
  | w :: rest =>
      if w = superviseWord then keptWords rest
      else if w = pidfileWord then
        match rest with
        | [] => []
        | _ :: rest => keptWords rest
      else w :: keptWords rest

theorem workerLoop_eq (n : Nat) (ws : List Word) : workerLoop n ws = (keptWords ws).take n := by
  fun_induction keptWords ws generalizing n with
  | case1 => cases n <;> rfl
  | case2 rest ih =>
      cases n with
      | zero => rfl
      | succ n =>
          rw [workerLoop.eq_def]
          dsimp only
          rw [if_pos rfl, ih]
  | case3 hne => cases n <;> rfl
  | case4 w rest hne ih =>
      cases n with
      | zero => rfl
      | succ n =>
          rw [workerLoop.eq_def]
          dsimp only
          rw [if_neg hne, if_pos rfl, ih]
  | case5 w rest hsup hpid ih =>
      cases n with
      | zero => rfl
      | succ n =>
          rw [workerLoop.eq_def]
          dsimp only
          rw [if_neg hsup, if_neg hpid, ih, List.take_succ_cons]

theorem keptWords_cons {w : Word} (hsup : w ≠ superviseWord) (hpid : w ≠ pidfileWord)
    (rest : List Word) : keptWords (w :: rest) = w :: keptWords rest := by
  rw [keptWords.eq_def]
  dsimp only
  rw [if_neg hsup, if_neg hpid]

/-- Nothing is made up. -/
theorem mem_of_mem_keptWords {w : Word} (h : w ∈ keptWords ws) : w ∈ ws := by
  fun_induction keptWords ws with
  | case1 => exact h
  | case2 rest ih => exact List.mem_cons_of_mem _ (ih h)
  | case3 hne => cases h
  | case4 x rest hne ih => exact List.mem_cons_of_mem _ (List.mem_cons_of_mem _ (ih h))
  | case5 x rest hsup hpid ih =>
      rcases List.mem_cons.mp h with rfl | h
      · exact List.mem_cons_self
      · exact List.mem_cons_of_mem _ (ih h)

theorem ended_keptWords (h : Table.Ended ws) : Table.Ended (keptWords ws) := by
  rcases h with ⟨rest, rfl⟩ | hnone
  · exact .inl ⟨_, keptWords_cons (by decide) (by decide) rest⟩
  · exact .inr fun w hw => hnone w (mem_of_mem_keptWords hw)

/-- Of groups whose arguments are not mistaken, those of supervision are taken out. -/
theorem keptWords_groups (hcomplete : ∀ g ∈ gs, rtdbdTable.Complete g)
    (hargs : ∀ g ∈ gs, ¬ Taken g → ∀ a ∈ g.arg, a ≠ superviseWord ∧ a ≠ pidfileWord)
    (tail : List Word) :
    keptWords (gs.flatMap Group.words ++ tail) =
      (gs.filter fun g => ¬ Taken g).flatMap Group.words ++ keptWords tail := by
  induction gs with
  | nil => rfl
  | cons g gs ih =>
      have hrest := ih (fun g hg => hcomplete g (List.mem_cons_of_mem _ hg))
        fun g hg => hargs g (List.mem_cons_of_mem _ hg)
      have hg := hcomplete g List.mem_cons_self
      have hwords := hargs g List.mem_cons_self
      rw [List.flatMap_cons, List.append_assoc]
      obtain ⟨w, arg⟩ := g
      have harg := hg.arg
      by_cases htaken : Taken ⟨w, arg⟩
      · rw [filter_taken htaken, ← hrest]
        rcases htaken with rfl | rfl
        · have hword : rtdbdTable.wordOptions superviseWord = ⟨[⟨83, none⟩], none⟩ := rfl
          rw [hword] at harg
          obtain rfl : arg = none :=
            Option.isNone_iff_eq_none.mp (Option.isSome_eq_false_iff.mp harg)
          exact (keptWords.eq_def _).trans (if_pos rfl)
        · have hword : rtdbdTable.wordOptions pidfileWord = ⟨[], some 80⟩ := rfl
          rw [hword] at harg
          obtain ⟨a, rfl⟩ := Option.isSome_iff_exists.mp harg
          have hne : pidfileWord ≠ superviseWord := by decide
          exact (keptWords.eq_def _).trans ((if_neg hne).trans (if_pos rfl))
      · obtain ⟨hsup, hpid⟩ := not_or.mp htaken
        rw [filter_kept htaken, List.flatMap_cons, List.append_assoc,
          ← hrest]
        change keptWords (w :: (arg.toList ++ _)) = w :: (arg.toList ++ _)
        rw [keptWords_cons hsup hpid]
        cases arg with
        | none => rfl
        | some a =>
            obtain ⟨hsup', hpid'⟩ := hwords htaken a rfl
            exact congrArg _ (keptWords_cons hsup' hpid' _)

end

/-! ## The options of the worker -/

/-- Of words with no option none is read, whatever is taken out. -/
theorem getoptLong_tail {tail : List Word} (htail : Table.Ended tail) (n : Nat) :
    rtdbdTable.getoptLong ((keptWords tail).take n) = [] :=
  Table.getoptLong_ended ((ended_keptWords htail).take n)

/-- What the worker reads: what is left. -/
theorem getoptLong_workerArgs {ws : List Word} (h : KeepsMeaning ws) :
    rtdbdTable.getoptLong (workerArgs ws) =
      (leftGroups ws).flatMap rtdbdTable.groupEvents := by
  have hargs := h.args
  have hroom := h.room
  rw [workerArgs, workerLoop_eq]
  rw [leftGroups] at hroom ⊢
  rcases Table.complete_or_last (t := rtdbdTable) ws with
    hcomplete | ⟨gs, w, hgs, hcomplete, hoption, hne, hwants, hfront, hnone⟩
  · obtain ⟨tail, hpermute, htail⟩ := rtdbdTable.permute_eq ws
    have hleft : ∀ g ∈ (rtdbdTable.groups ws).filter fun g => ¬ Taken g,
        rtdbdTable.Complete g := fun g hg => hcomplete g (List.mem_of_mem_filter hg)
    rw [hpermute, keptWords_groups hcomplete hargs, List.take_append,
      List.take_of_length_le hroom, Table.getoptLong_groups hleft, getoptLong_tail htail,
      List.append_nil]
  · have hleft : ∀ g ∈ gs.filter fun g => ¬ Taken g, rtdbdTable.Complete g := fun g hg =>
      hcomplete g (List.mem_of_mem_filter hg)
    have hargs' : ∀ g ∈ gs, ¬ Taken g → ∀ a ∈ g.arg, a ≠ superviseWord ∧ a ≠ pidfileWord :=
      fun g hg => hargs g (hgs ▸ List.mem_append_left _ hg)
    have hpermute : rtdbdTable.permute ws =
        gs.flatMap Group.words ++ w :: (rtdbdTable.permuted ws).2 := by
      rw [Table.permute, hfront, List.append_assoc, List.singleton_append]
    rw [hpermute, keptWords_groups hcomplete hargs']
    rw [hgs, List.filter_append] at hroom ⊢
    by_cases htaken : Taken ⟨w, none⟩
    · rw [filter_taken htaken, List.filter_nil,
        List.append_nil] at hroom ⊢
      -- `--pidfile` takes the first of the other words with it
      have hended : Table.Ended (keptWords (w :: (rtdbdTable.permuted ws).2)) := by
        refine .inr fun x hx => ?_
        rcases htaken with rfl | rfl
        · cases hwants
        · have hpid : pidfileWord ≠ superviseWord := by decide
          rw [keptWords.eq_def] at hx
          dsimp only at hx
          rw [if_neg hpid, if_pos rfl] at hx
          cases hrest : (rtdbdTable.permuted ws).2 with
          | nil => rw [hrest] at hx; cases hx
          | cons y rest =>
              rw [hrest] at hx hnone
              exact hnone x (List.mem_cons_of_mem _ (mem_of_mem_keptWords hx))
      rw [List.take_append, List.take_of_length_le hroom, Table.getoptLong_groups hleft,
        Table.getoptLong_ended (hended.take _), List.append_nil]
    · obtain ⟨hsup, hpid⟩ := not_or.mp htaken
      have hlast : ⟨w, none⟩ ∈ rtdbdTable.groups ws :=
        hgs ▸ List.mem_append_right _ List.mem_cons_self
      rw [h.complete _ hlast htaken hwants rfl, keptWords_cons hsup hpid]
      rw [filter_kept htaken, List.filter_nil,
        List.flatMap_append] at hroom ⊢
      change (_ ++ [w]).length ≤ 30 at hroom
      change rtdbdTable.getoptLong ((_ ++ [w]).take 30) = _
      rw [List.take_of_length_le hroom, Table.getoptLong_groups hleft,
        Table.getoptLong_last hoption hne hwants, List.flatMap_cons, List.flatMap_nil,
        List.append_nil]

/-- The worker gets the options of the supervisor where no word gets another meaning and
supervision is spelled out; and where no word gets another meaning, only there. -/
theorem workerSame_iff {ws : List Word} {o : RtdbdOptions} (hparse : parseOptions ws = some o) :
    (KeepsMeaning ws ∧ SpelledOut ws → WorkerSame ws) ∧
      (KeepsMeaning ws → WorkerSame ws → SpelledOut ws) := by
  constructor
  · rintro ⟨hkeeps, hspelled⟩
    refine ⟨o, hparse, ?_⟩
    rw [parseOptions, getoptLong_workerArgs hkeeps]
    rw [parseOptions, Table.getoptLong_eq] at hparse
    exact foldlM_left hspelled hparse
  · rintro hkeeps ⟨o', -, hworker⟩ g hg ⟨e, he, hof⟩
    by_contra htaken
    rw [parseOptions, getoptLong_workerArgs hkeeps] at hworker
    have hmem : e ∈ (leftGroups ws).flatMap rtdbdTable.groupEvents :=
      List.mem_flatMap.mpr ⟨g, List.mem_filter.mpr ⟨hg, decide_eq_true htaken⟩, he⟩
    obtain ⟨hsupervise, hpidfile⟩ := foldlM_flags hworker
    rcases hof with hS | hP
    · exact Bool.noConfusion (hsupervise.mpr (.inr ⟨e, hmem, hS⟩))
    · exact Bool.noConfusion (hpidfile.mpr (.inr ⟨e, hmem, hP⟩))

/-- `rtdbd --pidfile x -s y --supervise`. -/
theorem workerSame_spelledOut :
    WorkerSame [pidfileWord, ascii "x", ascii "-s", ascii "y", superviseWord] := by
  have hparse : parseOptions [pidfileWord, ascii "x", ascii "-s", ascii "y", superviseWord] =
      some { RtdbdOptions.defaults with
        sockPath := ascii "y", supervise := true, pidfile := some (ascii "x") } := by
    decide
  refine (workerSame_iff hparse).1 ⟨⟨?_, ?_, ?_⟩, ?_⟩
  · exact fun g _ _ _ _ => rfl
  · have hgroups : rtdbdTable.groups [pidfileWord, ascii "x", ascii "-s", ascii "y",
        superviseWord] = [⟨pidfileWord, some (ascii "x")⟩, ⟨ascii "-s", some (ascii "y")⟩,
          ⟨superviseWord, none⟩] := rfl
    rw [hgroups]
    decide
  · decide
  · unfold SpelledOut
    decide

/-- `rtdbd -S` makes every worker a supervisor. -/
theorem not_workerSame :
    parseOptions [ascii "-S"] = some { RtdbdOptions.defaults with supervise := true } ∧
      ¬ WorkerSame [ascii "-S"] := by
  refine ⟨by decide, ?_⟩
  rintro ⟨o, -, hworker⟩
  have hagain : parseOptions (workerArgs [ascii "-S"]) =
      some { RtdbdOptions.defaults with supervise := true } := by decide
  have hflag := congrArg RtdbdOptions.supervise (Option.some.inj (hagain.symm.trans hworker))
  cases hflag

end InduRtdb.Daemon
