/-
  Lib/Lines.lean --- reading a text file line by line through a buffer.

  `fgets` gives up to a line of a file, as much as the buffer holds.  A reader that
  discards what is left of a line that was too long sees the beginning of every line
  once (`forLines_eq`); one that does not sees the lines in pieces (`foldPieces_append`).
-/
import Mathlib.Data.List.Basic
import Mathlib.Data.List.TakeWhile

set_option autoImplicit false

namespace InduRtdb.Lib

/-! ## Lines -/

/-- `'\n'`. -/
abbrev lineBreak : UInt8 := 10

/-- The lines of a file, without their breaks; nothing behind the last break is no line. -/
def lines : List UInt8 → List (List UInt8)
  | [] => []
  | c :: rest =>
      if c = lineBreak then [] :: lines rest
      else match lines rest with
        | [] => [[c]]
        | l :: ls => (c :: l) :: ls

/-- The first line. -/
def firstLine (file : List UInt8) : List UInt8 := file.takeWhile (· ≠ lineBreak)

/-- What is left when bytes are read up to a line break. -/
def dropLine : List UInt8 → List UInt8
  | [] => []
  | c :: rest => if c = lineBreak then rest else dropLine rest

theorem firstLine_cons {c : UInt8} (h : c ≠ lineBreak) (rest : List UInt8) :
    firstLine (c :: rest) = c :: firstLine rest := by
  simp [firstLine, h]

theorem firstLine_break (rest : List UInt8) : firstLine (lineBreak :: rest) = [] := rfl

theorem not_mem_firstLine (file : List UInt8) : lineBreak ∉ firstLine file := fun hmem => by
  simpa using List.mem_takeWhile_imp hmem

theorem mem_of_mem_firstLine {file : List UInt8} {c : UInt8} (h : c ∈ firstLine file) : c ∈ file :=
  (List.takeWhile_prefix _).subset h

theorem lines_eq {file : List UInt8} (h : file ≠ []) :
    lines file = firstLine file :: lines (dropLine file) := by
  induction file with
  | nil => exact absurd rfl h
  | cons c rest ih =>
      by_cases hc : c = lineBreak
      · rw [lines, dropLine, if_pos hc, if_pos hc, hc, firstLine_break]
      · rw [lines, dropLine, if_neg hc, if_neg hc, firstLine_cons hc]
        cases rest with
        | nil => rfl
        | cons d rest => rw [ih (List.cons_ne_nil d rest)]

theorem dropLine_length_lt {file : List UInt8} (h : file ≠ []) :
    (dropLine file).length < file.length := by
  induction file with
  | nil => exact absurd rfl h
  | cons c rest ih =>
      rw [dropLine, List.length_cons]
      split
      case isTrue => exact Nat.lt_succ_self _
      case isFalse =>
        cases rest with
        | nil => exact Nat.lt_succ_self _
        | cons d rest => exact Nat.lt_succ_of_lt (ih (List.cons_ne_nil d rest))

theorem mem_of_mem_dropLine {file : List UInt8} {c : UInt8} (h : c ∈ dropLine file) :
    c ∈ file := by
  induction file with
  | nil => exact h
  | cons d rest ih =>
      rw [dropLine] at h
      split at h
      case isTrue => exact List.mem_cons_of_mem d h
      case isFalse => exact List.mem_cons_of_mem d (ih h)

/-- Nothing of the first line is needed to find its end. -/
theorem dropLine_drop {file : List UInt8} {n : Nat} (h : n ≤ (firstLine file).length) :
    dropLine (file.drop n) = dropLine file := by
  induction file generalizing n with
  | nil => rw [List.drop_nil]
  | cons c rest ih =>
      cases n with
      | zero => rfl
      | succ n =>
          by_cases hc : c = lineBreak
          · rw [hc, firstLine_break] at h
            exact absurd h (by simp)
          · rw [firstLine_cons hc, List.length_cons] at h
            rw [List.drop_succ_cons, dropLine, if_neg hc]
            exact ih (by omega)

/-! ## `fgets` -/

/-- The bytes up to and with the first line break, `n` at most, and those behind them. -/
def chunk : Nat → List UInt8 → List UInt8 × List UInt8
  | 0, rest => ([], rest)
  | _ + 1, [] => ([], [])
  | n + 1, c :: rest =>
      if c = lineBreak then ([c], rest) else (c :: (chunk n rest).1, (chunk n rest).2)

/-- What `fgets` stores, what is left of the file, and what `feof` answers then. -/
structure Fgets where
  line : List UInt8
  rest : List UInt8
  feof : Bool

/-- `fgets(line, size, f)`; the end of the file is met when bytes run out before the
buffer is full. -/
def fgets (size : Nat) (file : List UInt8) : Option Fgets :=
  if file.isEmpty then none
  else
    let (line, rest) := chunk (size - 1) file
    some ⟨line, rest, !line.contains lineBreak && line.length < size - 1⟩

/-- The C string at the start of a buffer. -/
def cstr (buf : List UInt8) : List UInt8 := buf.takeWhile (· ≠ 0)

theorem cstr_of_nulFree {buf : List UInt8} (h : (0 : UInt8) ∉ buf) : cstr buf = buf :=
  List.takeWhile_eq_self_iff.mpr fun c hc => by
    simpa using fun heq : c = 0 => h (heq ▸ hc)

/-- A line that is not longer than the buffer is read as it stands, with its break. -/
theorem chunk_short {file : List UInt8} {n : Nat} (h : (firstLine file).length < n) :
    chunk n file = (firstLine file ++ (file.drop (firstLine file).length).take 1,
      dropLine file) := by
  induction file generalizing n with
  | nil =>
      cases n with
      | zero => exact absurd h (Nat.not_lt_zero _)
      | succ n => rfl
  | cons c rest ih =>
      cases n with
      | zero => exact absurd h (Nat.not_lt_zero _)
      | succ n =>
          by_cases hc : c = lineBreak
          · subst hc
            simp [chunk, firstLine_break, dropLine]
          · rw [firstLine_cons hc, List.length_cons] at h
            rw [chunk, if_neg hc, ih (by omega), firstLine_cons hc, dropLine, if_neg hc]
            rfl

/-- A longer line fills the buffer. -/
theorem chunk_long {file : List UInt8} {n : Nat} (h : n ≤ (firstLine file).length) :
    chunk n file = ((firstLine file).take n, file.drop n) := by
  induction file generalizing n with
  | nil =>
      cases n with
      | zero => rfl
      | succ n => rfl
  | cons c rest ih =>
      cases n with
      | zero => rfl
      | succ n =>
          by_cases hc : c = lineBreak
          · rw [hc, firstLine_break] at h
            exact absurd h (by simp)
          · rw [firstLine_cons hc, List.length_cons] at h
            rw [chunk, if_neg hc, ih (by omega), firstLine_cons hc]
            rfl

/-- Behind the first line stands its break, or nothing. -/
theorem behind_firstLine (file : List UInt8) :
    (file.drop (firstLine file).length).take 1 = [lineBreak] ∨
      file.drop (firstLine file).length = [] := by
  induction file with
  | nil => exact .inr rfl
  | cons c rest ih =>
      by_cases hc : c = lineBreak
      · subst hc
        exact .inl rfl
      · rw [firstLine_cons hc]
        exact ih

/-! ## A reader that discards what does not fit -/

section

variable {σ ρ α : Type}

/-- `while (fgets(line, size, f))`, with the rest of an overlong line discarded.  The
body is given the line and whether it is overlong; it ends the loop or goes on. -/
def forLines (size : Nat) (body : σ → List UInt8 → Bool → ρ ⊕ σ) (done : σ → ρ) :
    Nat → σ → List UInt8 → ρ
  | 0, s, _ => done s
  | fuel + 1, s, file =>
      match fgets size file with
      | none => done s
      | some read =>
          let text := cstr read.line
          let overlong := !text.contains lineBreak && !read.feof
          match body s text overlong with
          | .inl r => r
          | .inr s =>
              forLines size body done fuel s (if overlong then dropLine read.rest else read.rest)

/-- A loop over a list that may end early. -/
def scan (body : σ → α → ρ ⊕ σ) (done : σ → ρ) : σ → List α → ρ
  | s, [] => done s
  | s, x :: xs =>
      match body s x with
      | .inl r => r
      | .inr s => scan body done s xs

/-- The line does not fit a buffer of `size` bytes. -/
def Overlong (size : Nat) (line : List UInt8) : Prop := size - 1 ≤ line.length

instance (size : Nat) (line : List UInt8) : Decidable (Overlong size line) :=
  inferInstanceAs (Decidable (_ ≤ _))

/-- What `fgets` gives of the first line, whether it is overlong, and where the line ends. -/
theorem fgets_firstLine {file : List UInt8} (hfile : file ≠ []) (hnul : (0 : UInt8) ∉ file)
    (size : Nat) :
    ∃ read, fgets size file = some read ∧
      (!(cstr read.line).contains lineBreak && !read.feof) =
        decide (Overlong size (firstLine file)) ∧
      (if Overlong size (firstLine file) then dropLine read.rest else read.rest) =
        dropLine file ∧
      (cstr read.line = (firstLine file).take (size - 1) ∨
        ¬ Overlong size (firstLine file) ∧
          cstr read.line = (firstLine file).take (size - 1) ++ [lineBreak]) := by
  have hempty : file.isEmpty = false := List.isEmpty_eq_false_iff.mpr hfile
  have hfirst : (0 : UInt8) ∉ firstLine file := fun hmem => hnul (mem_of_mem_firstLine hmem)
  have hnone := not_mem_firstLine file
  rcases Nat.lt_or_ge (firstLine file).length (size - 1) with hshort | hlong
  · have hfits : ¬ Overlong size (firstLine file) := Nat.not_le.mpr hshort
    have htake := List.take_of_length_le hshort.le
    simp only [decide_eq_false hfits, if_neg hfits, htake]
    rcases behind_firstLine file with hbehind | hbehind
    · have htext : cstr (firstLine file ++ [lineBreak]) = firstLine file ++ [lineBreak] :=
        cstr_of_nulFree (by simp [hfirst, lineBreak])
      refine ⟨⟨firstLine file ++ [lineBreak], dropLine file, false⟩, ?_, ?_, rfl,
        .inr ⟨hfits, htext⟩⟩
      · simp [fgets, hempty, chunk_short hshort, hbehind]
      · simp [htext]
    · refine ⟨⟨firstLine file, dropLine file, true⟩, ?_, by simp, rfl,
        .inl (cstr_of_nulFree hfirst)⟩
      simp [fgets, hempty, chunk_short hshort, hbehind, hnone, hshort]
  · have hover : Overlong size (firstLine file) := hlong
    have htext : cstr ((firstLine file).take (size - 1)) = (firstLine file).take (size - 1) :=
      cstr_of_nulFree fun hmem => hfirst (List.mem_of_mem_take hmem)
    have hnone' : lineBreak ∉ (firstLine file).take (size - 1) :=
      fun hmem => hnone (List.mem_of_mem_take hmem)
    simp only [decide_eq_true hover, if_pos hover]
    refine ⟨⟨(firstLine file).take (size - 1), file.drop (size - 1), false⟩, ?_, ?_,
      dropLine_drop hlong, .inl htext⟩
    · simp [fgets, hempty, chunk_long hlong, Nat.min_eq_left hlong]
    · simp [htext, hnone']

/-- Such a reader sees the beginning of every line. -/
theorem forLines_eq {size : Nat} {body : σ → List UInt8 → Bool → ρ ⊕ σ}
    (hbreak : ∀ s text, body s (text ++ [lineBreak]) false = body s text false)
    (done : σ → ρ) (fuel : Nat) (s : σ) (file : List UInt8) (hfuel : file.length ≤ fuel)
    (hnul : (0 : UInt8) ∉ file) :
    forLines size body done fuel s file =
      scan (fun s line => body s (line.take (size - 1)) (decide (Overlong size line))) done s
        (lines file) := by
  induction fuel generalizing s file with
  | zero =>
      obtain rfl := List.length_eq_zero_iff.mp (Nat.le_zero.mp hfuel)
      rfl
  | succ fuel ih =>
      rcases eq_or_ne file [] with rfl | hfile
      · rfl
      have hshorter := dropLine_length_lt hfile
      have hrest := fun s => ih s (dropLine file) (by omega)
        fun hmem => hnul (mem_of_mem_dropLine hmem)
      obtain ⟨read, hread, hover, hend, htext⟩ := fgets_firstLine hfile hnul size
      have hbody : body s (cstr read.line) (decide (Overlong size (firstLine file))) =
          body s ((firstLine file).take (size - 1))
            (decide (Overlong size (firstLine file))) := by
        rcases htext with htext | ⟨hfits, htext⟩
        · rw [htext]
        · rw [htext, decide_eq_false hfits, hbreak]
      rw [lines_eq hfile, scan]
      simp only [forLines, hread, hover, decide_eq_true_eq, hend, hbody]
      cases body s ((firstLine file).take (size - 1)) (decide (Overlong size (firstLine file))) with
      | inl r => rfl
      | inr s' => exact hrest s'

end

/-! ## A reader that takes what it is given -/

/-- The lines a loop over `fgets` sees. -/
def reads (size : Nat) : Nat → List UInt8 → List (List UInt8)
  | 0, _ => []
  | fuel + 1, file =>
      match fgets size file with
      | none => []
      | some read => cstr read.line :: reads size fuel read.rest

theorem cstr_append_break (line : List UInt8) :
    cstr (line ++ [lineBreak]) = cstr line ∨
      cstr (line ++ [lineBreak]) = cstr line ++ [lineBreak] := by
  rw [cstr, cstr, List.takeWhile_append]
  split
  case isTrue hall =>
    rw [(List.takeWhile_prefix _).eq_of_length hall]
    exact .inr rfl
  case isFalse => exact .inl rfl

/-- Where no line is overlong, a reader that does not mind line breaks sees the lines. -/
theorem foldl_reads {σ : Type} {size : Nat} {step : σ → List UInt8 → σ}
    (hbreak : ∀ s text, step s (text ++ [lineBreak]) = step s text) (fuel : Nat) (s : σ)
    (file : List UInt8) (hfuel : file.length ≤ fuel)
    (hshort : ∀ line ∈ lines file, ¬ Overlong size line) :
    (reads size fuel file).foldl step s =
      (lines file).foldl (fun s line => step s (cstr line)) s := by
  induction fuel generalizing s file with
  | zero =>
      obtain rfl := List.length_eq_zero_iff.mp (Nat.le_zero.mp hfuel)
      rfl
  | succ fuel ih =>
      rcases eq_or_ne file [] with rfl | hfile
      · rfl
      have hempty : file.isEmpty = false := List.isEmpty_eq_false_iff.mpr hfile
      have hshorter := dropLine_length_lt hfile
      rw [lines_eq hfile] at hshort ⊢
      have hfits := Nat.not_le.mp (hshort _ List.mem_cons_self)
      have hread : ∃ read, fgets size file = some read ∧ read.rest = dropLine file ∧
          step s (cstr read.line) = step s (cstr (firstLine file)) := by
        refine ⟨_, by simp only [fgets, hempty, chunk_short hfits]; rfl, rfl, ?_⟩
        rcases behind_firstLine file with hbehind | hbehind
        · rw [hbehind]
          rcases cstr_append_break (firstLine file) with hcut | hkept
          · rw [hcut]
          · rw [hkept, hbreak]
        · rw [hbehind, List.take_nil, List.append_nil]
      obtain ⟨read, hread, hrest, hstep⟩ := hread
      simp only [reads, hread, List.foldl_cons, hrest, hstep]
      exact ih _ _ (by omega) fun line hmem => hshort line (List.mem_cons_of_mem _ hmem)

/-! ## Texts of whole lines -/

/-- Every line of the text has its break. -/
def Whole (a : List UInt8) : Prop := ∀ c, a.getLast? = some c → c = lineBreak

theorem Whole.tail {c : UInt8} {a : List UInt8} (h : Whole (c :: a)) : Whole a := by
  intro d hd
  refine h d ?_
  rw [List.getLast?_cons, hd]
  rfl

theorem firstLine_append_break {c : List UInt8} (hc : lineBreak ∉ c) (b : List UInt8) :
    firstLine (c ++ lineBreak :: b) = c := by
  have hbefore : ∀ d ∈ c, decide (d ≠ lineBreak) = true := fun d hd =>
    decide_eq_true fun heq => hc (heq ▸ hd)
  rw [firstLine, List.takeWhile_append_of_pos hbefore]
  simp

theorem dropLine_append_break {c : List UInt8} (hc : lineBreak ∉ c) (b : List UInt8) :
    dropLine (c ++ lineBreak :: b) = b := by
  induction c with
  | nil => rfl
  | cons d c ih =>
      have hne : d ≠ lineBreak := fun heq => hc (heq ▸ List.mem_cons_self)
      rw [List.cons_append, dropLine, if_neg hne]
      exact ih fun hmem => hc (List.mem_cons_of_mem d hmem)

theorem lines_break {c : List UInt8} (hc : lineBreak ∉ c) (b : List UInt8) :
    lines (c ++ lineBreak :: b) = c :: lines b := by
  rw [lines_eq (by simp), firstLine_append_break hc, dropLine_append_break hc]

theorem firstLine_eq_self {c : List UInt8} (hc : lineBreak ∉ c) : firstLine c = c :=
  List.takeWhile_eq_self_iff.mpr fun d hd =>
    decide_eq_true fun heq : d = lineBreak => hc (heq ▸ hd)

theorem dropLine_eq_nil {c : List UInt8} (hc : lineBreak ∉ c) : dropLine c = [] := by
  have hle : c.length ≤ (firstLine c).length := by rw [firstLine_eq_self hc]
  have hdrop := dropLine_drop hle
  rw [← hdrop, List.drop_length]
  rfl

theorem lines_singleton {c : List UInt8} (hc : lineBreak ∉ c) (hne : c ≠ []) : lines c = [c] := by
  rw [lines_eq hne, firstLine_eq_self hc, dropLine_eq_nil hc]
  rfl

theorem lines_append {a : List UInt8} (ha : Whole a) (b : List UInt8) :
    lines (a ++ b) = lines a ++ lines b := by
  induction a with
  | nil => rfl
  | cons c a ih =>
      rw [List.cons_append, lines, lines, ih ha.tail]
      split
      case isTrue => rfl
      case isFalse hc =>
        have hne : a ≠ [] := fun hnil => hc (ha c (by rw [hnil]; rfl))
        rw [lines_eq hne]
        rfl

/-- A text with a break is its first line, the break and the rest. -/
theorem eq_firstLine {a : List UInt8} (h : lineBreak ∈ a) :
    a = firstLine a ++ lineBreak :: dropLine a := by
  induction a with
  | nil => cases h
  | cons c a ih =>
      rcases eq_or_ne c lineBreak with rfl | hc
      · rfl
      · have hrest : lineBreak ∈ a := (List.mem_cons.mp h).resolve_left hc.symm
        rw [firstLine_cons hc, dropLine, if_neg hc, List.cons_append, ← ih hrest]

theorem Whole.line {c a : List UInt8} (ha : Whole a) : Whole (c ++ lineBreak :: a) := by
  intro d hd
  rw [List.getLast?_append_of_ne_nil _ (List.cons_ne_nil _ _), List.getLast?_cons] at hd
  cases hlast : a.getLast? with
  | none =>
      rw [hlast] at hd
      exact (Option.some.inj hd).symm
  | some e =>
      rw [hlast] at hd
      obtain rfl := Option.some.inj hd
      exact ha e hlast

/-- Some lines of a file are those of a part in front. -/
theorem exists_front {file : List UInt8} {front back : List (List UInt8)}
    (h : lines file = front ++ back) :
    ∃ a b, file = a ++ b ∧ lines a = front ∧ (Whole a ∨ b = []) := by
  induction front generalizing file with
  | nil => exact ⟨[], file, rfl, rfl, .inl (by rintro _ ⟨⟩)⟩
  | cons line front ih =>
      have hne : file ≠ [] := by
        rintro rfl
        cases h
      rw [lines_eq hne, List.cons_append] at h
      obtain ⟨rfl, hrest⟩ := List.cons.inj h
      obtain ⟨a, b, hsplit, ha, hend⟩ := ih hrest
      have hnone := not_mem_firstLine file
      by_cases hbreak : lineBreak ∈ file
      · refine ⟨firstLine file ++ lineBreak :: a, b, ?_, ?_, hend.imp_left Whole.line⟩
        · rw [List.append_assoc, List.cons_append, ← hsplit]
          exact eq_firstLine hbreak
        · rw [lines_break hnone, ha]
      · rw [dropLine_eq_nil hbreak] at hsplit
        obtain ⟨rfl, rfl⟩ := List.append_eq_nil_iff.mp hsplit.symm
        refine ⟨file, [], (List.append_nil _).symm, ?_, .inr rfl⟩
        rw [lines_singleton hbreak hne, firstLine_eq_self hbreak, ← ha]
        rfl

/-- A line has no break, and what stands in it stands in the file. -/
theorem mem_lines {file line : List UInt8} (h : line ∈ lines file) :
    lineBreak ∉ line ∧ ∀ c ∈ line, c ∈ file := by
  rcases eq_or_ne file [] with rfl | hne
  · cases h
  · have hshorter := dropLine_length_lt hne
    rw [lines_eq hne] at h
    rcases List.mem_cons.mp h with rfl | hrest
    · exact ⟨not_mem_firstLine file, fun c => mem_of_mem_firstLine⟩
    · obtain ⟨hnone, hmem⟩ := mem_lines hrest
      exact ⟨hnone, fun c hc => mem_of_mem_dropLine (hmem c hc)⟩
termination_by file.length

theorem chunk_append (n : Nat) (file : List UInt8) :
    (chunk n file).1 ++ (chunk n file).2 = file := by
  induction file generalizing n with
  | nil => cases n <;> rfl
  | cons c rest ih =>
      cases n with
      | zero => rfl
      | succ n =>
          rw [chunk]
          split
          case isTrue => rfl
          case isFalse => rw [List.cons_append, ih]

/-- `fgets` takes something. -/
theorem fgets_rest_lt {size : Nat} (hsize : 2 ≤ size) {file : List UInt8} {read : Fgets}
    (h : fgets size file = some read) : read.rest.length < file.length := by
  cases file with
  | nil => cases h
  | cons c rest =>
      obtain ⟨n, hn⟩ : ∃ n, size - 1 = n + 1 := ⟨size - 2, by omega⟩
      have hread := Option.some.inj h
      have hlength := congrArg List.length (chunk_append (size - 1) (c :: rest))
      rw [List.length_append] at hlength
      have htaken : 0 < (chunk (size - 1) (c :: rest)).1.length := by
        rw [hn, chunk]
        split <;> exact Nat.succ_pos _
      rw [← hread]
      change (chunk (size - 1) (c :: rest)).2.length < _
      omega

theorem reads_fuel {size : Nat} (hsize : 2 ≤ size) {m n : Nat} {file : List UInt8}
    (hm : file.length ≤ m) (hn : file.length ≤ n) : reads size m file = reads size n file := by
  induction m generalizing n file with
  | zero =>
      obtain rfl := List.length_eq_zero_iff.mp (Nat.le_zero.mp hm)
      cases n <;> rfl
  | succ m ih =>
      cases n with
      | zero =>
          obtain rfl := List.length_eq_zero_iff.mp (Nat.le_zero.mp hn)
          rfl
      | succ n =>
          rw [reads, reads]
          cases hread : fgets size file with
          | none => rfl
          | some read =>
              have hlt := fgets_rest_lt hsize hread
              exact congrArg _ (ih (by omega) (by omega))

section

variable {σ : Type} {size : Nat} {step : σ → List UInt8 → σ}

/-- A loop over the pieces of a text. -/
def foldPieces (size : Nat) (step : σ → List UInt8 → σ) (s : σ) (text : List UInt8) : σ :=
  (reads size text.length text).foldl step s

theorem foldPieces_nil (s : σ) : foldPieces size step s [] = s := rfl

theorem foldPieces_cons (hsize : 2 ≤ size) {text : List UInt8} {read : Fgets}
    (h : fgets size text = some read) (s : σ) :
    foldPieces size step s text = foldPieces size step (step s (cstr read.line)) read.rest := by
  have hlt := fgets_rest_lt hsize h
  obtain ⟨n, hn⟩ : ∃ n, text.length = n + 1 := ⟨text.length - 1, by omega⟩
  rw [foldPieces, hn, reads, h]
  dsimp only
  rw [List.foldl_cons, reads_fuel hsize (by omega) (Nat.le_refl _)]
  rfl

/-- A piece that fits the buffer with its break. -/
theorem foldPieces_short (hsize : 2 ≤ size) {text : List UInt8} (hne : text ≠ [])
    (hshort : (firstLine text).length < size - 1) (s : σ) :
    foldPieces size step s text = foldPieces size step
      (step s (cstr (firstLine text ++ (text.drop (firstLine text).length).take 1)))
      (dropLine text) := by
  have hempty : text.isEmpty = false := List.isEmpty_eq_false_iff.mpr hne
  have hread : ∃ read, fgets size text = some read ∧ read.rest = dropLine text ∧
      read.line = firstLine text ++ (text.drop (firstLine text).length).take 1 :=
    ⟨_, by simp only [fgets, hempty, chunk_short hshort]; rfl, rfl, rfl⟩
  obtain ⟨read, hread, hrest, hline⟩ := hread
  rw [foldPieces_cons hsize hread, hrest, hline]

/-- A piece that fills the buffer. -/
theorem foldPieces_long (hsize : 2 ≤ size) {text : List UInt8} (hne : text ≠ [])
    (hlong : size - 1 ≤ (firstLine text).length) (s : σ) :
    foldPieces size step s text = foldPieces size step
      (step s (cstr ((firstLine text).take (size - 1)))) (text.drop (size - 1)) := by
  have hempty : text.isEmpty = false := List.isEmpty_eq_false_iff.mpr hne
  have hread : ∃ read, fgets size text = some read ∧ read.rest = text.drop (size - 1) ∧
      read.line = (firstLine text).take (size - 1) :=
    ⟨_, by simp only [fgets, hempty, chunk_long hlong]; rfl, rfl, rfl⟩
  obtain ⟨read, hread, hrest, hline⟩ := hread
  rw [foldPieces_cons hsize hread, hrest, hline]

/-- The pieces of a line are as long as the buffer, all but the last. -/
theorem reads_line (hsize : 2 ≤ size) {c : List UInt8} (hc : lineBreak ∉ c)
    (hnul : (0 : UInt8) ∉ c) (hne : c ≠ []) :
    reads size c.length c = c.take (size - 1) ::
      reads size (c.drop (size - 1)).length (c.drop (size - 1)) := by
  have hempty : c.isEmpty = false := List.isEmpty_eq_false_iff.mpr hne
  have hread : ∃ read, fgets size c = some read ∧ read.line = c.take (size - 1) ∧
      read.rest = c.drop (size - 1) := by
    rcases Nat.lt_or_ge c.length (size - 1) with hshort | hlong
    · have hfirst : (firstLine c).length < size - 1 := by rwa [firstLine_eq_self hc]
      have hchunk := chunk_short hfirst
      rw [firstLine_eq_self hc, dropLine_eq_nil hc, List.drop_length, List.take_nil,
        List.append_nil] at hchunk
      rw [List.take_of_length_le hshort.le, List.drop_of_length_le hshort.le]
      exact ⟨_, by simp only [fgets, hempty, hchunk]; rfl, rfl, rfl⟩
    · have hfirst : size - 1 ≤ (firstLine c).length := by rwa [firstLine_eq_self hc]
      have hchunk := chunk_long hfirst
      rw [firstLine_eq_self hc] at hchunk
      exact ⟨_, by simp only [fgets, hempty, hchunk]; rfl, rfl, rfl⟩
  obtain ⟨read, hread, hline, hrest⟩ := hread
  obtain ⟨n, hn⟩ : ∃ n, c.length = n + 1 := ⟨c.length - 1, by
    have := List.length_pos_iff.mpr hne
    omega⟩
  have hlt := fgets_rest_lt hsize hread
  have htaken : (0 : UInt8) ∉ c.take (size - 1) := fun hmem => hnul (List.mem_of_mem_take hmem)
  rw [hn, reads, hread]
  dsimp only
  rw [hline, cstr_of_nulFree htaken, hrest,
    reads_fuel hsize (by rw [← hrest]; omega) (Nat.le_refl _)]

variable (hsize : 2 ≤ size) (hbreak : ∀ s text, step s (text ++ [lineBreak]) = step s text)
  (hempty : ∀ s, step s [] = s)
include hsize hbreak hempty

/-- A reader that does not mind line breaks and empty pieces reads a line and then what
stands behind it. -/
theorem foldPieces_line (s : σ) {c : List UInt8} (hc : lineBreak ∉ c) (b : List UInt8) :
    foldPieces size step s (c ++ lineBreak :: b) =
      foldPieces size step (foldPieces size step s c) b := by
  have hfirst := firstLine_append_break hc b
  have hne : c ++ lineBreak :: b ≠ [] := by simp
  rcases Nat.lt_or_ge c.length (size - 1) with hshort | hlong
  · rw [foldPieces_short hsize hne (by rwa [hfirst]), hfirst, dropLine_append_break hc,
      List.drop_left]
    have hstep : step s (cstr (c ++ [lineBreak])) = step s (cstr c) := by
      rcases cstr_append_break c with hcut | hkept
      · rw [hcut]
      · rw [hkept, hbreak]
    have hpiece : foldPieces size step s c = step s (cstr c) := by
      rcases eq_or_ne c [] with rfl | hcne
      · exact (hempty s).symm
      · rw [foldPieces_short hsize hcne (by rwa [firstLine_eq_self hc]), firstLine_eq_self hc,
          dropLine_eq_nil hc, List.drop_length, List.take_nil, List.append_nil, foldPieces_nil]
    rw [hpiece, ← hstep]
    rfl
  · have hcne : c ≠ [] := by
      rintro rfl
      exact absurd hlong (by simp; omega)
    have hrest : lineBreak ∉ c.drop (size - 1) := fun hmem => hc (List.mem_of_mem_drop hmem)
    have hshorter : (c.drop (size - 1)).length < c.length := by
      rw [List.length_drop]
      omega
    rw [foldPieces_long hsize hne (by rwa [hfirst]), hfirst, List.drop_append_of_le_length hlong,
      foldPieces_line _ hrest b, foldPieces_long hsize hcne (by rwa [firstLine_eq_self hc]),
      firstLine_eq_self hc]
termination_by c.length

/-- Such a reader reads line by line. -/
theorem foldPieces_lines (s : σ) (text : List UInt8) :
    foldPieces size step s text = (lines text).foldl (foldPieces size step) s := by
  rcases eq_or_ne text [] with rfl | hne
  · rfl
  · have hshorter := dropLine_length_lt hne
    have hnone := not_mem_firstLine text
    by_cases hline : lineBreak ∈ text
    · have hfront := foldPieces_line hsize hbreak hempty s hnone (dropLine text)
      rw [← eq_firstLine hline] at hfront
      rw [hfront, lines_eq hne, List.foldl_cons, foldPieces_lines]
    · rw [lines_singleton hline hne]
      rfl
termination_by text.length

/-- Such a reader reads whole lines and then what stands behind them. -/
theorem foldPieces_append (s : σ) {a : List UInt8} (ha : Whole a) (b : List UInt8) :
    foldPieces size step s (a ++ b) = foldPieces size step (foldPieces size step s a) b := by
  rw [foldPieces_lines hsize hbreak hempty, lines_append ha, List.foldl_append,
    ← foldPieces_lines hsize hbreak hempty, ← foldPieces_lines hsize hbreak hempty]

end

end InduRtdb.Lib
