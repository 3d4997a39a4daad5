/-
  Core/DeltaFile.lean --- reading the delta log back, one `read` at a time.

  Source: `irt_delta_replay` of `src/core/irt_delta.c`.

  A `read` delivers any positive number of the bytes asked for or is interrupted;
  behind the outcomes that are listed it delivers all of them.  The file may have a
  position at which reading fails.  The callback gets the eighty bytes as they are
  and may fault.
-/
import InduRtdb.Core.Delta
import InduRtdb.Lib.Faults

set_option autoImplicit false

namespace InduRtdb.Core

open InduRtdb.Lib

/-! ## Records as they are in the file -/

/-- An `irt_delta_rec_t` that has been read. -/
@[ext]
structure RawRec where
  bytes : List UInt8
  length_bytes : bytes.length = sizeofDeltaRec

namespace RawRec

/-- The fields, with the name up to its NUL. -/
def fields (r : RawRec) : IrtDeltaRec := .ofBytes r.bytes

/-- The array `name`. -/
def name (r : RawRec) : List UInt8 := r.bytes.drop 16

theorem length_name (r : RawRec) : r.name.length = 64 := by
  rw [name, List.length_drop, r.length_bytes]
  rfl

theorem fields_name (r : RawRec) : r.fields.name = CStr.ofBytes r.name := by
  have htake : r.name.take 64 = r.name := List.take_of_length_le (Nat.le_of_eq r.length_name)
  exact congrArg CStr.ofBytes htake

/-- The record at the front of some bytes; what is missing is zero. -/
def front (bytes : List UInt8) : RawRec where
  bytes := (bytes ++ List.replicate sizeofDeltaRec 0).take sizeofDeltaRec
  length_bytes := by
    rw [List.length_take, List.length_append, List.length_replicate]
    exact Nat.min_eq_left (Nat.le_add_left _ _)

theorem bytes_front {bytes : List UInt8} (h : sizeofDeltaRec ≤ bytes.length) :
    (front bytes).bytes = bytes.take sizeofDeltaRec := List.take_append_of_le_length h

/-- The tests of `irt_delta_replay` on a full record. -/
def Recognised (r : RawRec) : Prop := r.fields.Recognised

instance (r : RawRec) : Decidable r.Recognised := inferInstanceAs (Decidable r.fields.Recognised)

end RawRec

/-- The complete records of a file, in order. -/
def completeRecords (file : List UInt8) : List RawRec :=
  (List.range (file.length / sizeofDeltaRec)).map fun i => .front (file.drop (sizeofDeltaRec * i))

/-- The longest prefix of complete records that are recognised. -/
def validPrefix (file : List UInt8) : List RawRec :=
  (completeRecords file).takeWhile fun r => decide r.Recognised

theorem completeRecords_short {file : List UInt8} (h : file.length < sizeofDeltaRec) :
    completeRecords file = [] := by
  rw [completeRecords, Nat.div_eq_of_lt h]
  rfl

theorem completeRecords_cons {file : List UInt8} (h : sizeofDeltaRec ≤ file.length) :
    completeRecords file = .front file :: completeRecords (file.drop sizeofDeltaRec) := by
  have hcount : file.length / sizeofDeltaRec =
      (file.drop sizeofDeltaRec).length / sizeofDeltaRec + 1 := by
    rw [List.length_drop, ← Nat.div_eq_sub_div (by decide) h]
  rw [completeRecords, hcount, List.range_succ_eq_map, List.map_cons, Nat.mul_zero,
    List.drop_zero, List.map_map, completeRecords]
  congr 1
  refine List.map_congr_left fun i _ => ?_
  rw [Function.comp_apply, List.drop_drop, Nat.mul_succ, Nat.add_comm]

/-! ## Reading -/

/-- An open file: its bytes, and where reading fails, if it does. -/
structure DeltaFile where
  bytes : List UInt8
  failsAt : Option Nat

namespace DeltaFile

/-- The bytes in front of the position at which reading fails. -/
def readable (file : DeltaFile) : List UInt8 :=
  match file.failsAt with
  | none => file.bytes
  | some position => file.bytes.take position

/-- Behind the readable bytes, a `read` fails; otherwise it finds the end of the file. -/
def fails (file : DeltaFile) : Bool :=
  match file.failsAt with
  | none => false
  | some position => decide (position ≤ file.bytes.length)

end DeltaFile

/-- What a `read` comes to where there is something to read. -/
inductive ReadOutcome where
  /-- so many more bytes than one, of those asked for -/
  | took (more : Nat)
  | eintr
  deriving DecidableEq

/-- Where the inner loop of `irt_delta_replay` ends. -/
structure Filled where
  got : List UInt8
  ioErr : Bool
  unread : List UInt8
  outcomes : List ReadOutcome

/-- The inner loop of `irt_delta_replay`: `fails` says what a `read` behind the last
byte comes to. -/
def fillRecord (fails : Bool) : List ReadOutcome → List UInt8 → List UInt8 → Filled
  | [], got, unread =>
      let want := sizeofDeltaRec - got.length
      ⟨got ++ unread.take want, fails && decide (unread.length < want), unread.drop want, []⟩
  | outcome :: outcomes, got, unread =>
      if got.length < sizeofDeltaRec then
        match outcome with
        | .eintr => fillRecord fails outcomes got unread
        | .took more =>
            if unread = [] then ⟨got, fails, [], outcomes⟩
            else
              let k := min (more + 1) (sizeofDeltaRec - got.length)
              fillRecord fails outcomes (got ++ unread.take k) (unread.drop k)
      else ⟨got, false, unread, outcome :: outcomes⟩

/-- How a replay ends. -/
inductive Ended where
  | returned (result : Int)
  /-- the callback has touched what it must not -/
  | fault
  /-- the turns ran out -/
  | running
  deriving DecidableEq

/-- A replay that has ended: the records handed to the callback, and what they led to. -/
structure Replayed (σ : Type) where
  ended : Ended
  handed : List RawRec
  ctx : σ

namespace DeltaFile

section

variable {σ : Type} (apply : RawRec → σ → Option (Bool × σ))

/-- The outer loop of `irt_delta_replay`, with `turns` turns at most. -/
def replayLoop (fails : Bool) : Nat → List ReadOutcome → List UInt8 → List RawRec → σ → Replayed σ
  | 0, _, _, handed, ctx => ⟨.running, handed, ctx⟩
  | turns + 1, outcomes, unread, handed, ctx =>
      let filled := fillRecord fails outcomes [] unread
      if filled.ioErr then ⟨.returned (-1), handed, ctx⟩
      else if hfull : filled.got.length = sizeofDeltaRec then
        let r : RawRec := ⟨filled.got, hfull⟩
        if r.Recognised then
          match apply r ctx with
          | none => ⟨.fault, handed ++ [r], ctx⟩
          | some (true, ctx) =>
              replayLoop fails turns filled.outcomes filled.unread (handed ++ [r]) ctx
          | some (false, ctx) => ⟨.returned handed.length, handed ++ [r], ctx⟩
        else ⟨.returned handed.length, handed, ctx⟩
      else ⟨.returned handed.length, handed, ctx⟩

/-- `irt_delta_replay`; a file that cannot be opened has no history.  Every turn but
the last takes a record's bytes. -/
def irtDeltaReplay (file : Option DeltaFile) (outcomes : List ReadOutcome) (ctx : σ) :
    Replayed σ :=
  match file with
  | none => ⟨.returned 0, [], ctx⟩
  | some file =>
      replayLoop apply file.fails (file.readable.length / sizeofDeltaRec + 1) outcomes
        file.readable [] ctx

end

end DeltaFile

/-! ## What the inner loop reads -/

/-- However the bytes come, the loop takes the missing ones, or all that are left. -/
theorem fillRecord_spec (fails : Bool) (outcomes : List ReadOutcome) :
    ∀ got unread : List UInt8, got.length ≤ sizeofDeltaRec →
      (fillRecord fails outcomes got unread).got =
          got ++ unread.take (sizeofDeltaRec - got.length) ∧
        (fillRecord fails outcomes got unread).unread =
          unread.drop (sizeofDeltaRec - got.length) ∧
        (fillRecord fails outcomes got unread).ioErr =
          (fails && decide (unread.length < sizeofDeltaRec - got.length)) := by
  induction outcomes with
  | nil => exact fun got unread _ => ⟨rfl, rfl, rfl⟩
  | cons outcome outcomes ih =>
      intro got unread hle
      unfold fillRecord
      split
      case isFalse hfull =>
        have hnone : sizeofDeltaRec - got.length = 0 := by omega
        rw [hnone, List.take_zero, List.drop_zero, List.append_nil]
        exact ⟨rfl, rfl, by simp⟩
      case isTrue hmore =>
        cases outcome with
        | eintr => exact ih got unread hle
        | took more =>
            dsimp only
            split
            case isTrue hempty =>
              subst hempty
              rw [List.take_nil, List.drop_nil, List.append_nil, List.length_nil]
              have hpos : 0 < sizeofDeltaRec - got.length := by omega
              exact ⟨rfl, rfl, by rw [decide_eq_true hpos, Bool.and_true]⟩
            case isFalse hne =>
              have hpos : 0 < unread.length := List.length_pos_iff.mpr hne
              generalize hk : min (more + 1) (sizeofDeltaRec - got.length) = k
              have hklen : (got ++ unread.take k).length = got.length + min k unread.length := by
                rw [List.length_append, List.length_take]
              have hkle : (got ++ unread.take k).length ≤ sizeofDeltaRec := by omega
              obtain ⟨hgot, hunread, herr⟩ := ih (got ++ unread.take k) (unread.drop k) hkle
              rcases Nat.le_total k unread.length with hall | hshort
              · have hrest : sizeofDeltaRec - (got ++ unread.take k).length =
                    sizeofDeltaRec - got.length - k := by omega
                have hsum : k + (sizeofDeltaRec - got.length - k) =
                    sizeofDeltaRec - got.length := by omega
                rw [hgot, hunread, herr, hrest, List.append_assoc, ← List.take_add, hsum,
                  List.drop_drop, hsum, List.length_drop]
                refine ⟨rfl, rfl, ?_⟩
                congr 1
                exact decide_eq_decide.mpr (by omega)
              · have hdrop : unread.drop k = [] := List.drop_eq_nil_of_le hshort
                have htake : unread.take k = unread := List.take_of_length_le hshort
                have hwhole : unread.length ≤ sizeofDeltaRec - got.length := by omega
                rw [hgot, hunread, herr, hdrop, htake, List.take_nil, List.drop_nil,
                  List.append_nil, List.take_of_length_le hwhole,
                  List.drop_eq_nil_of_le hwhole, List.length_nil, List.length_append]
                refine ⟨rfl, rfl, ?_⟩
                congr 1
                exact decide_eq_decide.mpr (by omega)

/-! ## What the outer loop hands over -/

theorem validPrefix_short {file : List UInt8} (h : file.length < sizeofDeltaRec) :
    validPrefix file = [] := by
  rw [validPrefix, completeRecords_short h]
  rfl

theorem validPrefix_cons {file : List UInt8} (h : sizeofDeltaRec ≤ file.length) :
    validPrefix file =
      if (RawRec.front file).Recognised then
        .front file :: validPrefix (file.drop sizeofDeltaRec)
      else [] := by
  rw [validPrefix, completeRecords_cons h, List.takeWhile_cons]
  split
  case isTrue hrec => rw [if_pos (of_decide_eq_true hrec), validPrefix]
  case isFalse hrec => rw [if_neg fun h => hrec (decide_eq_true h)]

section

variable {σ : Type}

/-- The callback is safe on every record, each in the state the ones before it led to. -/
def SafeAll (safe : RawRec → σ → Prop) (step : RawRec → σ → σ) : σ → List RawRec → Prop
  | _, [] => True
  | ctx, r :: recs => safe r ctx ∧ SafeAll safe step (step r ctx) recs

/-- What a replay of the file returns: -1 where it comes to a read that fails, and
otherwise the number of records in the longest valid prefix. -/
def DeltaFile.result (fails : Bool) (bytes : List UInt8) : Int :=
  if fails ∧ (validPrefix bytes).length = bytes.length / sizeofDeltaRec then -1
  else (validPrefix bytes).length

namespace DeltaFile

variable {apply : RawRec → σ → Option (Bool × σ)} {safe : RawRec → σ → Prop}
  {step : RawRec → σ → σ}

/-- The outer loop in front of some bytes, with records handed over before. -/
theorem replayLoop_spec
    (happly : ∀ r ctx, r.Recognised → Yields (apply r ctx) (safe r ctx) (true, step r ctx))
    (fails : Bool) (turns : Nat) :
    ∀ outcomes unread handed ctx, unread.length / sizeofDeltaRec < turns →
      (SafeAll safe step ctx (validPrefix unread) →
        replayLoop apply fails turns outcomes unread handed ctx =
          ⟨.returned (if fails ∧ (validPrefix unread).length = unread.length / sizeofDeltaRec then -1
              else (handed ++ validPrefix unread).length),
            handed ++ validPrefix unread,
            (validPrefix unread).foldl (fun ctx r => step r ctx) ctx⟩) ∧
      (¬ SafeAll safe step ctx (validPrefix unread) →
        (replayLoop apply fails turns outcomes unread handed ctx).ended = .fault) := by
  induction turns with
  | zero => exact fun _ _ _ _ h => absurd h (Nat.not_lt_zero _)
  | succ turns ih =>
      intro outcomes unread handed ctx hturns
      obtain ⟨hgot, hunread, herr⟩ := fillRecord_spec fails outcomes [] unread (Nat.zero_le _)
      rw [List.nil_append, List.length_nil, Nat.sub_zero] at hgot
      rw [List.length_nil, Nat.sub_zero] at hunread herr
      rw [replayLoop]
      dsimp only
      generalize fillRecord fails outcomes [] unread = filled at hgot hunread herr
      obtain ⟨got, ioErr, rest, outcomes'⟩ := filled
      dsimp only at hgot hunread herr ⊢
      subst hgot hunread herr
      rcases Nat.lt_or_ge unread.length sizeofDeltaRec with hshort | hlong
      · -- the end of the readable bytes
        have hnone : ¬ (unread.take sizeofDeltaRec).length = sizeofDeltaRec := by
          rw [List.length_take]
          omega
        have hzero : unread.length / sizeofDeltaRec = 0 := Nat.div_eq_of_lt hshort
        rw [validPrefix_short hshort, hzero, dif_neg hnone, decide_eq_true hshort, Bool.and_true,
          List.append_nil]
        refine ⟨fun _ => ?_, fun hnot => absurd trivial hnot⟩
        cases fails with
        | false => rfl
        | true => rfl
      · have hfull : (unread.take sizeofDeltaRec).length = sizeofDeltaRec := by
          rw [List.length_take, Nat.min_eq_left hlong]
        have hfront : (⟨unread.take sizeofDeltaRec, hfull⟩ : RawRec) = .front unread :=
          RawRec.ext (RawRec.bytes_front hlong).symm
        have hcount : unread.length / sizeofDeltaRec =
            (unread.drop sizeofDeltaRec).length / sizeofDeltaRec + 1 := by
          rw [List.length_drop, ← Nat.div_eq_sub_div (by decide) hlong]
        rw [decide_eq_false (Nat.not_lt.mpr hlong), Bool.and_false, if_neg Bool.false_ne_true,
          dif_pos hfull, hfront, validPrefix_cons hlong]
        split
        case isFalse =>
          refine ⟨fun _ => ?_, fun hnot => absurd trivial hnot⟩
          rw [List.append_nil, List.length_nil, hcount, if_neg fun h => Nat.succ_ne_zero _ h.2.symm]
          rfl
        case isTrue hrec =>
          have hyields := happly (.front unread) ctx hrec
          by_cases hsafe : safe (.front unread) ctx
          · rw [hyields.eq_some hsafe]
            dsimp only
            obtain ⟨hrun, hfault⟩ := ih outcomes' (unread.drop sizeofDeltaRec)
              (handed ++ [.front unread]) (step (.front unread) ctx) (by omega)
            constructor
            · intro hall
              rw [hrun hall.2, List.length_cons, hcount, List.append_assoc, List.singleton_append,
                List.foldl_cons]
              simp only [Nat.add_right_cancel_iff]
            · exact fun hnot => hfault fun hall => hnot ⟨hsafe, hall⟩
          · rw [hyields.eq_none hsafe]
            exact ⟨fun hall => absurd hall.1 hsafe, fun _ => rfl⟩

/-- A replay ends as it should exactly where the callback is safe on every record it is
handed. -/
theorem irtDeltaReplay_iff
    (happly : ∀ r ctx, r.Recognised → Yields (apply r ctx) (safe r ctx) (true, step r ctx))
    (file : DeltaFile) (outcomes : List ReadOutcome) (ctx : σ) :
    irtDeltaReplay apply (some file) outcomes ctx =
        ⟨.returned (result file.fails file.readable), validPrefix file.readable,
          (validPrefix file.readable).foldl (fun ctx r => step r ctx) ctx⟩ ↔
      SafeAll safe step ctx (validPrefix file.readable) := by
  obtain ⟨hrun, hfault⟩ := replayLoop_spec happly file.fails _ outcomes file.readable [] ctx
    (Nat.lt_succ_self _)
  constructor
  · intro heq
    refine Classical.byContradiction fun hnot => ?_
    have hended := hfault hnot
    rw [irtDeltaReplay] at heq
    rw [heq] at hended
    cases hended
  · exact fun hall => hrun hall

/-- Whatever the bytes are, the turns suffice. -/
theorem irtDeltaReplay_ends
    (happly : ∀ r ctx, r.Recognised → Yields (apply r ctx) (safe r ctx) (true, step r ctx))
    (file : DeltaFile) (outcomes : List ReadOutcome) (ctx : σ) :
    (irtDeltaReplay apply (some file) outcomes ctx).ended ≠ .running := by
  obtain ⟨hrun, hfault⟩ := replayLoop_spec happly file.fails _ outcomes file.readable [] ctx
    (Nat.lt_succ_self _)
  rw [irtDeltaReplay]
  by_cases hall : SafeAll safe step ctx (validPrefix file.readable)
  · rw [hrun hall]
    exact nofun
  · rw [hfault hall]
    exact nofun

end DeltaFile

/-- The records of the log without their bytes: the same ones, once and in order. -/
theorem irtDeltaReplay_eq {step : IrtDeltaRec → σ → σ} (file : List UInt8) (ctx : σ)
    {apply : IrtDeltaRec → σ → Bool × σ}
    (happly : ∀ rec ctx, rec.Recognised → apply rec ctx = (true, step rec ctx)) :
    irtDeltaReplay apply file ctx =
      ((validPrefix file).length,
        (validPrefix file).foldl (fun ctx r => step r.fields ctx) ctx) := by
  have hloop : ∀ (n : Nat) (file : List UInt8) (ctx : σ), file.length / sizeofDeltaRec = n →
      irtDeltaReplayLoop apply n file ctx =
        ((validPrefix file).length,
          (validPrefix file).foldl (fun ctx r => step r.fields ctx) ctx) := by
    intro n
    induction n with
    | zero =>
        intro file ctx hn
        have hshort : file.length < sizeofDeltaRec :=
          (Nat.div_eq_zero_iff_lt (by decide)).mp hn
        rw [validPrefix_short hshort]
        rfl
    | succ n ih =>
        intro file ctx hn
        have hlong : sizeofDeltaRec ≤ file.length := by
          rcases Nat.lt_or_ge file.length sizeofDeltaRec with hshort | hlong
          · rw [Nat.div_eq_of_lt hshort] at hn
            cases hn
          · exact hlong
        have hfields : IrtDeltaRec.ofBytes (file.take sizeofDeltaRec) =
            (RawRec.front file).fields := by
          rw [RawRec.fields, RawRec.bytes_front hlong]
        have hrest : (file.drop sizeofDeltaRec).length / sizeofDeltaRec = n := by
          rw [List.length_drop, ← Nat.add_right_cancel_iff, ← Nat.div_eq_sub_div (by decide) hlong]
          exact hn
        rw [irtDeltaReplayLoop, validPrefix_cons hlong, hfields]
        dsimp only
        by_cases hrec : (RawRec.front file).Recognised
        · have hrec' : (RawRec.front file).fields.Recognised := hrec
          rw [if_pos hrec, if_pos hrec', happly _ _ hrec']
          dsimp only
          rw [ih _ _ hrest]
          rfl
        · have hrec' : ¬ (RawRec.front file).fields.Recognised := hrec
          rw [if_neg hrec, if_neg hrec']
          rfl
  exact hloop _ file ctx rfl

end

end InduRtdb.Core
