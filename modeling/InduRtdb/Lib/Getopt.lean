/-
  Lib/Getopt.lean --- `getopt_long` for any table of options.

  Options and other words may be mixed; when all options have been read, the other words
  stand behind them, and a word `--` ends the options.  A group is an option word with
  the next word, where the option wants it as its argument: what is read is what the
  groups say (`getoptLong_eq`), and groups may be left out or put together
  (`getoptLong_groups`).
-/
import InduRtdb.Lib.Text

set_option autoImplicit false

namespace InduRtdb.Lib.Getopt

/-- A word of an argument vector. -/
abbrev Word := List UInt8

/-- `struct option`; its `flag` is null. -/
structure LongOption where
  name : Word
  hasArg : Bool
  val : UInt8

/-- `optstring` and `longopts`. -/
structure Table where
  short : List UInt8
  long : List LongOption

/-- What a call returns, with `optarg`. -/
structure Event where
  val : UInt8
  arg : Option Word
  deriving DecidableEq

/-- `'?'`: an unknown option, an ambiguous name, or a missing argument. -/
def Event.unknown : Event := ⟨63, none⟩

/-- The word that ends the options. -/
abbrev dashes : Word := [45, 45]

/-- The word begins with a dash and is more than that. -/
def isOption (w : Word) : Bool := w.head? = some 45 && w ≠ [45]

namespace Table

variable (t : Table)

/-- Does a short option take an argument?  `none` if there is no such option. -/
def shortArg (c : UInt8) : Option Bool :=
  if c = 58 ∨ c = 59 then none
  else match t.short.dropWhile (· ≠ c) with
    | [] => none
    | _ :: rest => some (rest.head? = some 58)

/-- The long option a name stands for: that of this name, or else the only one whose name
begins so. -/
def findLong (name : Word) : Option LongOption :=
  match t.long.find? fun o => o.name = name with
  | some o => some o
  | none =>
      match t.long.filter fun o => name.isPrefixOf o.name with
      | [o] => some o
      | _ => none

/-- The options of a word, and the option that still wants the next word. -/
structure WordOptions where
  events : List Event
  wants : Option UInt8

/-- A word of short options, behind its dash. -/
def shortWord : List UInt8 → WordOptions
  | [] => ⟨[], none⟩
  | c :: cs =>
      match t.shortArg c with
      | none => ⟨.unknown :: (shortWord cs).events, (shortWord cs).wants⟩
      | some false => ⟨⟨c, none⟩ :: (shortWord cs).events, (shortWord cs).wants⟩
      | some true => if cs.isEmpty then ⟨[], some c⟩ else ⟨[⟨c, some cs⟩], none⟩

/-- A long option, behind its dashes. -/
def longWord (body : List UInt8) : WordOptions :=
  match t.findLong (body.takeWhile (· ≠ 61)) with
  | none => ⟨[.unknown], none⟩
  | some o =>
      match body.dropWhile (· ≠ 61) with
      | [] => if o.hasArg then ⟨[], some o.val⟩ else ⟨[⟨o.val, none⟩], none⟩
      | _ :: arg => if o.hasArg then ⟨[⟨o.val, some arg⟩], none⟩ else ⟨[.unknown], none⟩

/-- The options of an option word. -/
def wordOptions (w : Word) : WordOptions :=
  if dashes.isPrefixOf w then t.longWord (w.drop 2) else t.shortWord (w.drop 1)

/-- What the calls of `getopt_long` return, one after another. -/
def getoptLong : List Word → List Event
  | [] => []
  | w :: rest =>
      if w = dashes then []
      else if ¬ isOption w then getoptLong rest
      else
        match (t.wordOptions w).wants with
        | none => (t.wordOptions w).events ++ getoptLong rest
        | some val =>
            match rest with
            | [] => (t.wordOptions w).events ++ [.unknown]
            | arg :: rest => (t.wordOptions w).events ++ ⟨val, some arg⟩ :: getoptLong rest

/-- The words when all options have been read: the options up to `--`, and the others. -/
def permuted : List Word → List Word × List Word
  | [] => ([], [])
  | w :: rest =>
      if w = dashes then ([dashes], rest)
      else if ¬ isOption w then ((permuted rest).1, w :: (permuted rest).2)
      else
        match (t.wordOptions w).wants with
        | none => (w :: (permuted rest).1, (permuted rest).2)
        | some _ =>
            match rest with
            | [] => ([w], [])
            | arg :: rest => (w :: arg :: (permuted rest).1, (permuted rest).2)

section Permuted

variable {t} {w arg : Word} {rest : List Word}

theorem permuted_dashes : t.permuted (dashes :: rest) = ([dashes], rest) := by
  rw [permuted.eq_def]
  exact if_pos rfl

theorem permuted_other (hdashes : w ≠ dashes) (hword : ¬ isOption w) :
    t.permuted (w :: rest) = ((t.permuted rest).1, w :: (t.permuted rest).2) := by
  rw [permuted.eq_def]
  exact (if_neg hdashes).trans (if_pos hword)

theorem permuted_option (hdashes : w ≠ dashes) (hword : isOption w = true)
    (hwants : (t.wordOptions w).wants = none) :
    t.permuted (w :: rest) = (w :: (t.permuted rest).1, (t.permuted rest).2) := by
  rw [permuted.eq_def]
  dsimp only
  rw [if_neg hdashes, if_neg (not_not.mpr hword), hwants]

theorem permuted_last {val : UInt8} (hdashes : w ≠ dashes) (hword : isOption w = true)
    (hwants : (t.wordOptions w).wants = some val) : t.permuted [w] = ([w], []) := by
  rw [permuted.eq_def]
  dsimp only
  rw [if_neg hdashes, if_neg (not_not.mpr hword), hwants]

theorem permuted_argument {val : UInt8} (hdashes : w ≠ dashes) (hword : isOption w = true)
    (hwants : (t.wordOptions w).wants = some val) :
    t.permuted (w :: arg :: rest) = (w :: arg :: (t.permuted rest).1, (t.permuted rest).2) := by
  rw [permuted.eq_def]
  dsimp only
  rw [if_neg hdashes, if_neg (not_not.mpr hword), hwants]

end Permuted

/-- The argument vector that `getopt_long` leaves. -/
def permute (ws : List Word) : List Word := (t.permuted ws).1 ++ (t.permuted ws).2

end Table

/-! ## Groups -/

/-- An option word, and the next word if it is its argument. -/
structure Group where
  word : Word
  arg : Option Word

def Group.words (g : Group) : List Word := g.word :: g.arg.toList

namespace Table

variable (t : Table)

/-- What is read of a group. -/
def groupEvents (g : Group) : List Event :=
  match (t.wordOptions g.word).wants, g.arg with
  | none, _ => (t.wordOptions g.word).events
  | some _, none => (t.wordOptions g.word).events ++ [.unknown]
  | some val, some arg => (t.wordOptions g.word).events ++ [⟨val, some arg⟩]

section GroupEvents

variable {t} {w arg : Word} {val : UInt8}

theorem groupEvents_plain (a : Option Word) (h : (t.wordOptions w).wants = none) :
    t.groupEvents ⟨w, a⟩ = (t.wordOptions w).events := by
  simp only [groupEvents, h]

theorem groupEvents_missing (h : (t.wordOptions w).wants = some val) :
    t.groupEvents ⟨w, none⟩ = (t.wordOptions w).events ++ [.unknown] := by
  simp only [groupEvents, h]

theorem groupEvents_argument (h : (t.wordOptions w).wants = some val) :
    t.groupEvents ⟨w, some arg⟩ = (t.wordOptions w).events ++ [⟨val, some arg⟩] := by
  simp only [groupEvents, h]

end GroupEvents

/-- The groups of an argument vector. -/
def groups : List Word → List Group
  | [] => []
  | w :: rest =>
      if w = dashes then []
      else if ¬ isOption w then groups rest
      else
        match (t.wordOptions w).wants with
        | none => ⟨w, none⟩ :: groups rest
        | some _ =>
            match rest with
            | [] => [⟨w, none⟩]
            | arg :: rest => ⟨w, some arg⟩ :: groups rest

/-- A group as it is read, with the argument that its option wants. -/
structure Complete (g : Group) : Prop where
  option : isOption g.word = true
  word : g.word ≠ dashes
  arg : g.arg.isSome = (t.wordOptions g.word).wants.isSome

/-- Words with no option: they begin with `--`, or none of them looks like an option. -/
def Ended (ws : List Word) : Prop :=
  (∃ rest, ws = dashes :: rest) ∨ ∀ w ∈ ws, isOption w = false

variable {t}

/-- What is read is what the groups say. -/
theorem getoptLong_eq (ws : List Word) :
    t.getoptLong ws = (t.groups ws).flatMap t.groupEvents := by
  fun_induction t.groups ws with
  | case1 => rfl
  | case2 rest => rw [getoptLong, if_pos rfl, List.flatMap_nil]
  | case3 w rest hdashes hword ih => rw [getoptLong, if_neg hdashes, if_pos hword, ih]
  | case4 w rest hdashes hword hwants ih =>
      rw [getoptLong, if_neg hdashes, if_neg hword, hwants, List.flatMap_cons, ih,
        groupEvents_plain none hwants]
  | case5 w hdashes hword val hwants =>
      rw [getoptLong, if_neg hdashes, if_neg hword, hwants, List.flatMap_singleton,
        groupEvents_missing hwants]
  | case6 w hdashes hword val hwants arg rest ih =>
      rw [getoptLong, if_neg hdashes, if_neg hword, hwants, List.flatMap_cons,
        groupEvents_argument hwants, List.append_assoc, List.singleton_append]
      dsimp only
      rw [ih]

/-- The words are the groups, and behind them there is no option. -/
theorem permute_eq (ws : List Word) :
    ∃ tail, t.permute ws = (t.groups ws).flatMap Group.words ++ tail ∧ Ended tail := by
  have hsplit : ∃ front, (t.permuted ws).1 = (t.groups ws).flatMap Group.words ++ front ∧
      (front = [dashes] ∨ front = [] ∧ ∀ w ∈ (t.permuted ws).2, isOption w = false) := by
    fun_induction t.groups ws with
    | case1 => exact ⟨[], rfl, .inr ⟨rfl, fun w hw => absurd hw List.not_mem_nil⟩⟩
    | case2 rest => exact ⟨[dashes], by rw [permuted_dashes]; rfl, .inl rfl⟩
    | case3 w rest hdashes hword ih =>
        obtain ⟨front, hfront, hend⟩ := ih
        rw [permuted_other hdashes hword]
        refine ⟨front, hfront, hend.imp_right fun h => ⟨h.1, ?_⟩⟩
        exact List.forall_mem_cons.mpr ⟨Bool.eq_false_iff.mpr hword, h.2⟩
    | case4 w rest hdashes hword hwants ih =>
        obtain ⟨front, hfront, hend⟩ := ih
        rw [permuted_option hdashes (not_not.mp hword) hwants]
        exact ⟨front, by rw [List.flatMap_cons, List.append_assoc, ← hfront]; rfl, hend⟩
    | case5 w hdashes hword val hwants =>
        rw [permuted_last hdashes (not_not.mp hword) hwants]
        exact ⟨[], rfl, .inr ⟨rfl, fun w hw => absurd hw List.not_mem_nil⟩⟩
    | case6 w hdashes hword val hwants arg rest ih =>
        obtain ⟨front, hfront, hend⟩ := ih
        rw [permuted_argument hdashes (not_not.mp hword) hwants]
        exact ⟨front, by rw [List.flatMap_cons, List.append_assoc, ← hfront]; rfl, hend⟩
  obtain ⟨front, hfront, hend⟩ := hsplit
  refine ⟨front ++ (t.permuted ws).2, ?_, ?_⟩
  · rw [permute, hfront, List.append_assoc]
  · rcases hend with rfl | ⟨rfl, hnone⟩
    · exact .inl ⟨_, rfl⟩
    · exact .inr hnone

/-- Every group is complete, or the last word of all is an option that wants an argument. -/
theorem complete_or_last (ws : List Word) :
    (∀ g ∈ t.groups ws, t.Complete g) ∨
      ∃ gs w, t.groups ws = gs ++ [⟨w, none⟩] ∧ (∀ g ∈ gs, t.Complete g) ∧
        isOption w = true ∧ w ≠ dashes ∧ (t.wordOptions w).wants.isSome = true ∧
        (t.permuted ws).1 = gs.flatMap Group.words ++ [w] ∧
        ∀ x ∈ (t.permuted ws).2, isOption x = false := by
  fun_induction t.groups ws with
  | case1 => exact .inl fun g hg => absurd hg List.not_mem_nil
  | case2 rest => exact .inl fun g hg => absurd hg List.not_mem_nil
  | case3 w rest hdashes hword ih =>
      rw [permuted_other hdashes hword]
      refine ih.imp_right ?_
      rintro ⟨gs, last, hgs, hcomplete, hoption, hne, hwants, hfront, hnone⟩
      refine ⟨gs, last, hgs, hcomplete, hoption, hne, hwants, hfront, ?_⟩
      exact List.forall_mem_cons.mpr ⟨Bool.eq_false_iff.mpr hword, hnone⟩
  | case4 w rest hdashes hword hwants ih =>
      rw [permuted_option hdashes (not_not.mp hword) hwants]
      have hg : t.Complete ⟨w, none⟩ := ⟨not_not.mp hword, hdashes, by rw [hwants]; rfl⟩
      rcases ih with hall | ⟨gs, last, hgs, hcomplete, hoption, hne, hlast, hfront, hnone⟩
      · exact .inl (List.forall_mem_cons.mpr ⟨hg, hall⟩)
      · refine .inr ⟨⟨w, none⟩ :: gs, last, congrArg _ hgs,
          List.forall_mem_cons.mpr ⟨hg, hcomplete⟩, hoption, hne, hlast, ?_, hnone⟩
        exact congrArg (w :: ·) hfront
  | case5 w hdashes hword val hwants =>
      rw [permuted_last hdashes (not_not.mp hword) hwants]
      exact .inr ⟨[], w, rfl, fun g hg => absurd hg List.not_mem_nil, not_not.mp hword, hdashes,
        by rw [hwants]; rfl, rfl, fun x hx => absurd hx List.not_mem_nil⟩
  | case6 w hdashes hword val hwants arg rest ih =>
      rw [permuted_argument hdashes (not_not.mp hword) hwants]
      have hg : t.Complete ⟨w, some arg⟩ := ⟨not_not.mp hword, hdashes, by rw [hwants]; rfl⟩
      rcases ih with hall | ⟨gs, last, hgs, hcomplete, hoption, hne, hlast, hfront, hnone⟩
      · exact .inl (List.forall_mem_cons.mpr ⟨hg, hall⟩)
      · refine .inr ⟨⟨w, some arg⟩ :: gs, last, congrArg _ hgs,
          List.forall_mem_cons.mpr ⟨hg, hcomplete⟩, hoption, hne, hlast, ?_, hnone⟩
        exact congrArg (fun ws => w :: arg :: ws) hfront

theorem Ended.take {ws : List Word} (h : Ended ws) (n : Nat) : Ended (ws.take n) := by
  rcases h with ⟨rest, rfl⟩ | hnone
  · cases n with
    | zero => exact .inr fun w hw => absurd hw List.not_mem_nil
    | succ n => exact .inl ⟨rest.take n, rfl⟩
  · exact .inr fun w hw => hnone w (List.mem_of_mem_take hw)

theorem getoptLong_ended {ws : List Word} (h : Ended ws) : t.getoptLong ws = [] := by
  rcases h with ⟨rest, rfl⟩ | hnone
  · rw [getoptLong, if_pos rfl]
  · induction ws with
    | nil => rfl
    | cons w ws ih =>
        have hw := hnone w List.mem_cons_self
        have hne : w ≠ dashes := by
          rintro rfl
          cases hw
        rw [getoptLong, if_neg hne, if_pos (by simp [hw])]
        exact ih fun w hw => hnone w (List.mem_cons_of_mem _ hw)

/-- The last word alone, when it wants an argument. -/
theorem getoptLong_last {w : Word} (hoption : isOption w = true) (hne : w ≠ dashes)
    (hwants : (t.wordOptions w).wants.isSome = true) :
    t.getoptLong [w] = t.groupEvents ⟨w, none⟩ := by
  obtain ⟨val, hval⟩ := Option.isSome_iff_exists.mp hwants
  rw [getoptLong, if_neg hne, if_neg (not_not.mpr hoption), hval, groupEvents_missing hval]

/-- Complete groups put one behind the other are read one after the other. -/
theorem getoptLong_groups {gs : List Group} (h : ∀ g ∈ gs, t.Complete g) (tail : List Word) :
    t.getoptLong (gs.flatMap Group.words ++ tail) =
      gs.flatMap t.groupEvents ++ t.getoptLong tail := by
  induction gs with
  | nil => rfl
  | cons g gs ih =>
      obtain ⟨w, arg⟩ := g
      have hg := h ⟨w, arg⟩ List.mem_cons_self
      have hrest := ih fun g hg => h g (List.mem_cons_of_mem _ hg)
      have hword : ¬ ¬ isOption w = true := not_not.mpr hg.option
      have hwants := hg.arg
      rw [List.flatMap_cons, List.flatMap_cons, List.append_assoc, List.append_assoc, ← hrest]
      change t.getoptLong (w :: (arg.toList ++ _)) = _
      rw [getoptLong, if_neg hg.word, if_neg hword]
      cases arg with
      | none =>
          have hnone : (t.wordOptions w).wants = none := by
            simpa using hwants.symm
          rw [hnone, groupEvents_plain none hnone]
          rfl
      | some arg =>
          obtain ⟨val, hval⟩ := Option.isSome_iff_exists.mp hwants.symm
          rw [hval, groupEvents_argument hval, List.append_assoc]
          rfl

end Table

end InduRtdb.Lib.Getopt
