/-
  Lib/Crc.lean --- CRC-32 (IEEE 802.3), one message bit at a time.

  The register is reflected: message bits enter at the low end, lowest bit of each byte
  first, and the polynomial is `0xEDB88320`.  An implementation that mixes a whole byte in
  and then turns the register eight times computes the same (`foldl_bits`).
-/
import InduRtdb.Lib.Bytes
import Mathlib.Data.Nat.Digits.Defs
import Mathlib.Logic.Function.Iterate

set_option autoImplicit false

namespace InduRtdb.Lib.Crc

/-- One turn of the register, with nothing coming in. -/
def turn (r : UInt32) : UInt32 :=
  if r &&& 1 = 1 then (r >>> 1) ^^^ 0xEDB88320 else r >>> 1

/-- One turn of the register with a message bit. -/
def step (r : UInt32) (bit : UInt32) : UInt32 :=
  if (r ^^^ bit) &&& 1 = 1 then (r >>> 1) ^^^ 0xEDB88320 else r >>> 1

/-- The bits of a byte, lowest first. -/
def bits (byte : UInt8) : List UInt32 :=
  (List.range 8).map fun i => (byte.toUInt32 >>> UInt32.ofNat i) &&& 1

/-- The checksum of a byte string. -/
def crc32 (data : Bytes) : UInt32 :=
  (data.flatMap bits).foldl step 0xFFFFFFFF ^^^ 0xFFFFFFFF

/-- What is mixed into the register ahead of time is shifted along with it. -/
theorem turn_xor (r x : UInt32) : turn (r ^^^ x) = step r (x &&& 1) ^^^ (x >>> 1) := by
  have hlow : (r ^^^ (x &&& 1)) &&& 1 = (r ^^^ x) &&& 1 := by
    apply UInt32.toBitVec_inj.mp
    simp only [UInt32.toBitVec_and, UInt32.toBitVec_xor]
    ext i hi
    simp only [BitVec.getElem_and, BitVec.getElem_xor]
    cases (UInt32.toBitVec 1)[i] with
    | false => simp
    | true => simp
  have hshift : (r ^^^ x) >>> 1 = (r >>> 1) ^^^ (x >>> 1) := by
    apply UInt32.toNat_inj.mp
    simp only [UInt32.toNat_shiftRight, UInt32.toNat_xor, Nat.shiftRight_xor_distrib]
  rw [turn, step, hlow, hshift]
  split
  · rw [UInt32.xor_assoc, UInt32.xor_assoc, UInt32.xor_comm (x >>> 1)]
  · rfl

/-- Mixing a byte in and turning the register eight times consumes its bits. -/
theorem foldl_bits (r : UInt32) (byte : UInt8) :
    (bits byte).foldl step r = Nat.iterate turn 8 (r ^^^ byte.toUInt32) := by
  have hturns : ∀ n, n ≤ 8 → Nat.iterate turn n (r ^^^ byte.toUInt32) =
      ((List.range n).map fun i => (byte.toUInt32 >>> UInt32.ofNat i) &&& 1).foldl step r ^^^
        (byte.toUInt32 >>> UInt32.ofNat n) := by
    intro n
    induction n with
    | zero =>
        intro _
        have hzero : byte.toUInt32 >>> UInt32.ofNat 0 = byte.toUInt32 := by
          apply UInt32.toNat_inj.mp
          simp
        rw [hzero]
        rfl
    | succ n ih =>
        intro hn
        have hnext : (byte.toUInt32 >>> UInt32.ofNat n) >>> 1 =
            byte.toUInt32 >>> UInt32.ofNat (n + 1) := by
          apply UInt32.toNat_inj.mp
          have hmod : n % 2 ^ 32 % 32 = n := by omega
          have hmod' : (n + 1) % 2 ^ 32 % 32 = n + 1 := by omega
          simp only [UInt32.toNat_shiftRight, UInt32.toNat_ofNat', hmod, hmod']
          rw [← Nat.shiftRight_add]
          rfl
        rw [Function.iterate_succ_apply', ih (by omega), turn_xor, hnext, List.range_succ,
          List.map_append, List.foldl_append]
        rfl
  have hgone : byte.toUInt32 >>> UInt32.ofNat 8 = 0 := by
    apply UInt32.toNat_inj.mp
    have hlt := byte.toNat_lt
    simp only [UInt32.toNat_shiftRight, UInt8.toNat_toUInt32, UInt32.toNat_ofNat']
    rw [Nat.shiftRight_eq_div_pow]
    exact Nat.div_eq_of_lt hlt
  rw [hturns 8 (Nat.le_refl 8), hgone, UInt32.xor_zero]
  rfl

/-- The checksum as a fold over the bytes. -/
theorem crc32_eq_foldl (data : Bytes) :
    crc32 data = data.foldl (fun r byte => Nat.iterate turn 8 (r ^^^ byte.toUInt32)) 0xFFFFFFFF
      ^^^ 0xFFFFFFFF := by
  have hfold : ∀ r : UInt32, (data.flatMap bits).foldl step r =
      data.foldl (fun r byte => Nat.iterate turn 8 (r ^^^ byte.toUInt32)) r := by
    induction data with
    | nil => exact fun _ => rfl
    | cons byte rest ih =>
        intro r
        rw [List.flatMap_cons, List.foldl_append, foldl_bits, ih]
        rfl
  rw [crc32, hfold]

/-! ## Bursts

A burst is a change confined to a run of consecutive bits.  The register after up to 32
bits is the register before them with the bits mixed in ahead, turned once for each bit;
as a turn can be undone, two registers that differ before a turn differ after it.  So a
burst no longer than the register always shows. -/

theorem xor_left_inj {r r' x : UInt32} (h : r ^^^ x = r' ^^^ x) : r = r' := by
  calc r = (r ^^^ x) ^^^ x := by rw [UInt32.xor_assoc, UInt32.xor_self, UInt32.xor_zero]
    _ = (r' ^^^ x) ^^^ x := by rw [h]
    _ = r' := by rw [UInt32.xor_assoc, UInt32.xor_self, UInt32.xor_zero]

theorem toNat_and_one (r : UInt32) : (r &&& 1).toNat = r.toNat % 2 := by
  rw [UInt32.toNat_and, ← Nat.and_one_is_mod]
  rfl

theorem toNat_shiftRight_one (r : UInt32) : (r >>> 1).toNat = r.toNat / 2 := by
  rw [UInt32.toNat_shiftRight]
  exact Nat.shiftRight_eq_div_pow _ 1

/-- A turn can be undone: the polynomial's top bit tells which bit went out. -/
theorem turn_injective : Function.Injective turn := by
  have hclear : ∀ r : UInt32, (r >>> 1).toNat.testBit 31 = false := by
    intro r
    apply Nat.testBit_lt_two_pow
    rw [toNat_shiftRight_one]
    have := r.toNat_lt
    omega
  have htop : ∀ r : UInt32, (turn r).toNat.testBit 31 = true ↔ r &&& 1 = 1 := by
    intro r
    unfold turn
    split
    case isTrue h =>
      rw [UInt32.toNat_xor, Nat.testBit_xor, hclear]
      exact ⟨fun _ => h, fun _ => rfl⟩
    case isFalse h =>
      rw [hclear]
      exact ⟨fun h' => absurd h' Bool.false_ne_true, fun h' => absurd h' h⟩
  intro r r' heq
  have hlow : r &&& 1 = 1 ↔ r' &&& 1 = 1 := by rw [← htop, ← htop, heq]
  have hrest : r >>> 1 = r' >>> 1 := by
    unfold turn at heq
    by_cases hodd : r &&& 1 = 1
    · rw [if_pos hodd, if_pos (hlow.mp hodd)] at heq
      exact xor_left_inj heq
    · rwa [if_neg hodd, if_neg (fun h => hodd (hlow.mpr h))] at heq
  have hhalf := congrArg UInt32.toNat hrest
  have hone : ∀ s : UInt32, s &&& 1 = 1 ↔ s.toNat % 2 = 1 := by
    intro s
    rw [← UInt32.toNat_inj, toNat_and_one]
    rfl
  rw [hone, hone] at hlow
  rw [toNat_shiftRight_one, toNat_shiftRight_one] at hhalf
  apply UInt32.toNat_inj.mp
  omega

/-- A list of message bits. -/
def IsBits (m : List UInt32) : Prop := ∀ b ∈ m, b = 0 ∨ b = 1

theorem isBits_bits (byte : UInt8) : IsBits (bits byte) := by
  intro b hb
  obtain ⟨i, -, rfl⟩ := List.mem_map.mp hb
  have hvalue := toNat_and_one (byte.toUInt32 >>> UInt32.ofNat i)
  have hcases : ((byte.toUInt32 >>> UInt32.ofNat i) &&& 1).toNat = 0 ∨
      ((byte.toUInt32 >>> UInt32.ofNat i) &&& 1).toNat = 1 := by omega
  exact hcases.imp (fun h => UInt32.toNat_inj.mp h) fun h => UInt32.toNat_inj.mp h

theorem isBits_flatMap (data : Bytes) : IsBits (data.flatMap bits) := by
  intro b hb
  obtain ⟨byte, -, hin⟩ := List.mem_flatMap.mp hb
  exact isBits_bits byte b hin

/-- The bits as a number, the first one lowest. -/
def word (m : List UInt32) : Nat := Nat.ofDigits 2 (m.map UInt32.toNat)

theorem word_cons (b : UInt32) (m : List UInt32) : word (b :: m) = b.toNat + 2 * word m := rfl

theorem IsBits.digits {m : List UInt32} (h : IsBits m) : ∀ d ∈ m.map UInt32.toNat, d < 2 := by
  intro d hd
  obtain ⟨b, hb, rfl⟩ := List.mem_map.mp hd
  rcases h b hb with rfl | rfl
  · exact Nat.zero_lt_two
  · exact Nat.one_lt_two

theorem word_lt {m : List UInt32} (h : IsBits m) : word m < 2 ^ m.length := by
  have hlt := Nat.ofDigits_lt_base_pow_length Nat.one_lt_two h.digits
  rwa [List.length_map] at hlt

theorem word_inj {m m' : List UInt32} (h : IsBits m) (h' : IsBits m')
    (hlength : m.length = m'.length) (heq : word m = word m') : m = m' := by
  have hmap := Nat.ofDigits_inj_of_len_eq Nat.one_lt_two
    (by rw [List.length_map, List.length_map, hlength]) h.digits h'.digits heq
  exact (List.map_inj_right fun _ _ hn => UInt32.toNat_inj.mp hn).mp hmap

/-- Up to 32 bits can be mixed in ahead of the turns. -/
theorem foldl_step_word : ∀ (m : List UInt32) (r : UInt32), IsBits m → m.length ≤ 32 →
    m.foldl step r = Nat.iterate turn m.length (r ^^^ UInt32.ofNat (word m)) := by
  intro m
  induction m with
  | nil =>
      intro r _ _
      exact (UInt32.xor_zero).symm
  | cons b m ih =>
      intro r hbits hlength
      have hrest : IsBits m := fun x hx => hbits x (List.mem_cons_of_mem b hx)
      have hlt := word_lt hrest
      have hshort : 2 ^ m.length ≤ 2 ^ 31 :=
        Nat.pow_le_pow_right Nat.zero_lt_two (by rw [List.length_cons] at hlength; omega)
      have hb : b.toNat < 2 := hbits.digits _ (List.mem_map_of_mem List.mem_cons_self)
      have hword : (UInt32.ofNat (word (b :: m))).toNat = b.toNat + 2 * word m := by
        rw [UInt32.toNat_ofNat', word_cons]
        omega
      have hlow : UInt32.ofNat (word (b :: m)) &&& 1 = b := by
        apply UInt32.toNat_inj.mp
        rw [toNat_and_one, hword]
        omega
      have hnext : UInt32.ofNat (word (b :: m)) >>> 1 = UInt32.ofNat (word m) := by
        apply UInt32.toNat_inj.mp
        rw [toNat_shiftRight_one, hword, UInt32.toNat_ofNat']
        omega
      rw [List.foldl_cons, ih (step r b) hrest (by rw [List.length_cons] at hlength; omega),
        List.length_cons, Function.iterate_succ_apply, turn_xor, hlow, hnext]

/-- Bits that differ leave different registers behind. -/
theorem foldl_step_ne {m m' : List UInt32} (h : IsBits m) (h' : IsBits m')
    (hlength : m.length = m'.length) (hle : m.length ≤ 32) (hne : m ≠ m') (r : UInt32) :
    m.foldl step r ≠ m'.foldl step r := by
  rw [foldl_step_word m r h hle, foldl_step_word m' r h' (hlength ▸ hle), ← hlength]
  intro heq
  have hmixed := turn_injective.iterate m.length heq
  have hpow : 2 ^ m.length ≤ 2 ^ 32 := Nat.pow_le_pow_right Nat.zero_lt_two hle
  have hlt := word_lt h
  have hlt' := word_lt h'
  rw [← hlength] at hlt'
  rw [UInt32.xor_comm r, UInt32.xor_comm r] at hmixed
  have hwords := congrArg UInt32.toNat (xor_left_inj hmixed)
  rw [UInt32.toNat_ofNat', UInt32.toNat_ofNat', Nat.mod_eq_of_lt (by omega),
    Nat.mod_eq_of_lt (by omega)] at hwords
  exact hne (word_inj h h' hlength hwords)

/-- Registers that differ still differ after the same bits. -/
theorem foldl_step_injective {m : List UInt32} (h : IsBits m) :
    Function.Injective fun r : UInt32 => m.foldl step r := by
  induction m with
  | nil => exact fun _ _ heq => heq
  | cons b m ih =>
      intro r r' heq
      have hstep : step r b = step r' b :=
        ih (fun x hx => h x (List.mem_cons_of_mem b hx)) heq
      have hone : ∀ s : UInt32, step s b = turn (s ^^^ b) := by
        intro s
        have hturn := turn_xor s b
        rcases h b List.mem_cons_self with rfl | rfl
        · rw [hturn]
          exact (UInt32.xor_zero).symm
        · rw [hturn]
          exact (UInt32.xor_zero).symm
      rw [hone, hone] at hstep
      exact xor_left_inj (turn_injective hstep)

/-- Two messages agree in every bit outside of the `n` from the `w`-th on, the bits of each
byte counted from the lowest, in the order in which the checksum takes them in. -/
def AgreeOutside (w n : Nat) (data data' : Bytes) : Prop :=
  ∀ i, i < w ∨ w + n ≤ i → (data.flatMap bits)[i]? = (data'.flatMap bits)[i]?

theorem length_flatMap_bits (data : Bytes) : (data.flatMap bits).length = 8 * data.length := by
  induction data with
  | nil => rfl
  | cons byte rest ih =>
      rw [List.flatMap_cons, List.length_append, ih, List.length_cons]
      have hbyte : (bits byte).length = 8 := rfl
      omega

/-- A byte is told by its bits. -/
theorem bits_injective : Function.Injective bits := by
  intro a b heq
  have hturned := congrArg (fun m => m.foldl step 0) heq
  rw [foldl_bits, foldl_bits, UInt32.zero_xor, UInt32.zero_xor] at hturned
  exact UInt8.toUInt32_inj.mp (turn_injective.iterate 8 hturned)

theorem flatMap_bits_inj : ∀ {data data' : Bytes},
    data.flatMap bits = data'.flatMap bits → data = data' := by
  intro data
  induction data with
  | nil =>
      intro data' heq
      have hlength := congrArg List.length heq
      rw [length_flatMap_bits, length_flatMap_bits, List.length_nil] at hlength
      exact (List.length_eq_zero_iff.mp (by omega)).symm
  | cons byte rest ih =>
      intro data' heq
      cases data' with
      | nil =>
          have hlength := congrArg List.length heq
          rw [length_flatMap_bits, length_flatMap_bits, List.length_nil, List.length_cons]
            at hlength
          omega
      | cons byte' rest' =>
          rw [List.flatMap_cons, List.flatMap_cons] at heq
          obtain ⟨hbyte, hrest⟩ := List.append_inj heq rfl
          rw [bits_injective hbyte, ih hrest]

/-- The checksum shows every burst that is no longer than the register. -/
theorem crc32_ne_of_burst {data data' : Bytes} {w n : Nat} (hn : n ≤ 32)
    (hlength : data.length = data'.length) (hout : AgreeOutside w n data data')
    (hne : data ≠ data') : crc32 data ≠ crc32 data' := by
  have hbits := isBits_flatMap data
  have hbits' := isBits_flatMap data'
  have hsame : (data.flatMap bits).length = (data'.flatMap bits).length := by
    rw [length_flatMap_bits, length_flatMap_bits, hlength]
  have hdiffer : data.flatMap bits ≠ data'.flatMap bits := fun heq => hne (flatMap_bits_inj heq)
  unfold crc32
  unfold AgreeOutside at hout
  generalize data.flatMap bits = m at *
  generalize data'.flatMap bits = m' at *
  -- what stands before, in and after the window
  have hbefore : m.take w = m'.take w := by
    apply List.ext_getElem?
    intro i
    rw [List.getElem?_take, List.getElem?_take]
    split
    case isTrue hi => exact hout i (.inl hi)
    case isFalse => rfl
  have hafter : m.drop (w + n) = m'.drop (w + n) := by
    apply List.ext_getElem?
    intro i
    rw [List.getElem?_drop, List.getElem?_drop]
    exact hout (w + n + i) (.inr (by omega))
  have hsplit : ∀ l : List UInt32,
      l = l.take w ++ ((l.drop w).take n ++ l.drop (w + n)) := by
    intro l
    rw [← List.drop_drop, List.take_append_drop, List.take_append_drop]
  have hwindow : (m.drop w).take n ≠ (m'.drop w).take n := by
    intro heq
    apply hdiffer
    rw [hsplit m, hsplit m', hbefore, heq, hafter]
  intro heq
  have hfold := xor_left_inj heq
  rw [hsplit m, hsplit m', List.foldl_append, List.foldl_append, List.foldl_append,
    List.foldl_append, hbefore, hafter] at hfold
  have hinside := foldl_step_injective
    (fun b hb => hbits' b (List.mem_of_mem_drop hb)) hfold
  refine foldl_step_ne (fun b hb => hbits b (List.mem_of_mem_drop (List.mem_of_mem_take hb)))
    (fun b hb => hbits' b (List.mem_of_mem_drop (List.mem_of_mem_take hb))) ?_ ?_ hwindow _ hinside
  · rw [List.length_take, List.length_take, List.length_drop, List.length_drop, hsame]
  · exact Nat.le_trans (List.length_take_le _ _) hn

end InduRtdb.Lib.Crc
