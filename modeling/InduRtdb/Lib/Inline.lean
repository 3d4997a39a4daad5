/-
  Lib/Inline.lean --- inline lists: items between brackets, separated by commas.

  `scanList` reads such a list from the front of a text and says what stands behind it.
  The grammar is `ListText`; a reader of single items that is sound and complete for
  its own grammar makes `scanList` sound and complete for lists of them.
-/
import InduRtdb.Lib.Text
import Mathlib.Data.List.TakeWhile

set_option autoImplicit false

namespace InduRtdb.Lib

/-- `','`. -/
abbrev comma : UInt8 := 44

section

variable {α : Type}

/-! ## The scanner -/

/-- The items up to the closing bracket, `room` of them at most. -/
def scanItems (blank : UInt8 → Bool) (close : UInt8)
    (item : List UInt8 → Option (α × List UInt8)) :
    Nat → Nat → List UInt8 → Option (List α × List UInt8)
  | 0, _, _ => none
  | fuel + 1, room, p =>
      match item (p.dropWhile blank) with
      | none => none
      | some (a, p) =>
          match room, p.dropWhile blank with
          | 0, _ => none
          | _ + 1, [] => none
          | room + 1, c :: p =>
              if c = comma then
                (scanItems blank close item fuel room p).map fun r => (a :: r.1, r.2)
              else if c = close then some ([a], p)
              else none

/-- A list in brackets, and what stands behind it. -/
def scanList (blank : UInt8 → Bool) (opening close : UInt8)
    (item : List UInt8 → Option (α × List UInt8)) (room : Nat) (v : List UInt8) :
    Option (List α × List UInt8) :=
  match v.dropWhile blank with
  | [] => none
  | c :: p =>
      if c ≠ opening then none
      else match p.dropWhile blank with
        | [] => none
        | d :: q =>
            if d = close then some ([], q)
            else scanItems blank close item p.length room p

/-! ## The grammar -/

/-- A text of items separated by commas, with blanks around them, then the closing
bracket and `rest`. -/
inductive ItemsText (blank : UInt8 → Bool) (close : UInt8) (Item : List UInt8 → α → Prop)
    (rest : List UInt8) : List UInt8 → List α → Prop where
  | last {pre text post : List UInt8} {a : α} (hpre : ∀ c ∈ pre, blank c = true)
      (hitem : Item text a) (hpost : ∀ c ∈ post, blank c = true) :
      ItemsText blank close Item rest (pre ++ (text ++ (post ++ close :: rest))) [a]
  | more {pre text post later : List UInt8} {a : α} {as : List α}
      (hpre : ∀ c ∈ pre, blank c = true) (hitem : Item text a)
      (hpost : ∀ c ∈ post, blank c = true)
      (hlater : ItemsText blank close Item rest later as) :
      ItemsText blank close Item rest (pre ++ (text ++ (post ++ comma :: later))) (a :: as)

/-- A list in brackets, with `rest` behind it. -/
def ListText (blank : UInt8 → Bool) (opening close : UInt8) (Item : List UInt8 → α → Prop)
    (v : List UInt8) (as : List α) (rest : List UInt8) : Prop :=
  ∃ pre body, (∀ c ∈ pre, blank c = true) ∧ v = pre ++ opening :: body ∧
    ((as = [] ∧ ∃ mid, (∀ c ∈ mid, blank c = true) ∧ body = mid ++ close :: rest) ∨
      ItemsText blank close Item rest body as)

/-- A reader of single items that follows their grammar. -/
structure ReadsItems (blank : UInt8 → Bool) (close : UInt8)
    (item : List UInt8 → Option (α × List UInt8)) (Item : List UInt8 → α → Prop) : Prop where
  sound : ∀ p a rest, item p = some (a, rest) → ∃ text, p = text ++ rest ∧ Item text a
  complete : ∀ text a rest, Item text a →
    (∃ c q, rest = c :: q ∧ (blank c = true ∨ c = comma ∨ c = close)) →
    item (text ++ rest) = some (a, rest)
  starts : ∀ text a, Item text a → ∃ c q, text = c :: q ∧ blank c = false ∧ c ≠ close

/-! ## The scanner follows the grammar -/

theorem dropWhile_blanks {blank : UInt8 → Bool} {pre q : List UInt8} {c : UInt8}
    (hpre : ∀ c ∈ pre, blank c = true) (hc : blank c = false) :
    (pre ++ c :: q).dropWhile blank = c :: q := by
  rw [dropWhile_append_of_all hpre, List.dropWhile_cons, hc]
  rfl

/-- A text begins with its blanks. -/
theorem eq_blanks_append (blank : UInt8 → Bool) (p : List UInt8) :
    ∃ pre, (∀ c ∈ pre, blank c = true) ∧ p = pre ++ p.dropWhile blank :=
  ⟨p.takeWhile blank, fun _ hc => List.mem_takeWhile_imp hc,
    (List.takeWhile_append_dropWhile).symm⟩

section

variable {blank : UInt8 → Bool} {opening close : UInt8}
  {item : List UInt8 → Option (α × List UInt8)} {Item : List UInt8 → α → Prop}
  {rest p : List UInt8} {as : List α}

theorem itemsText_of_scanItems (hreads : ReadsItems blank close item Item) (fuel room : Nat)
    (h : scanItems blank close item fuel room p = some (as, rest)) :
    ItemsText blank close Item rest p as ∧ as.length ≤ room := by
  induction fuel generalizing room p as with
  | zero => cases h
  | succ fuel ih =>
      obtain ⟨pre, hpre, hp⟩ := eq_blanks_append blank p
      rw [scanItems] at h
      split at h
      case h_1 => cases h
      case h_2 a q hitem =>
        obtain ⟨text, htext, ha⟩ := hreads.sound _ _ _ hitem
        obtain ⟨post, hpost, hq⟩ := eq_blanks_append blank q
        split at h
        case h_1 => cases h
        case h_2 => cases h
        case h_3 room c q' hrest =>
          rw [hp, htext, hq, hrest]
          split at h
          case isTrue hcomma =>
            subst hcomma
            obtain ⟨⟨as', rest'⟩, hscan, heq⟩ := Option.map_eq_some_iff.mp h
            obtain ⟨rfl, rfl⟩ := Prod.mk.inj heq
            obtain ⟨hlater, hroom⟩ := ih room hscan
            exact ⟨.more hpre ha hpost hlater, Nat.succ_le_succ hroom⟩
          case isFalse =>
            split at h
            case isTrue hclose =>
              subst hclose
              obtain ⟨rfl, rfl⟩ := Prod.mk.inj (Option.some.inj h)
              exact ⟨.last hpre ha hpost, Nat.succ_le_succ (Nat.zero_le _)⟩
            case isFalse => cases h

/-- One turn over a well-formed item. -/
theorem scanItems_item (hreads : ReadsItems blank close item Item) {fuel room : Nat}
    {pre text post q : List UInt8} {a : α} {c : UInt8} (hpre : ∀ c ∈ pre, blank c = true)
    (hitem : Item text a) (hpost : ∀ c ∈ post, blank c = true) (hblank : blank c = false)
    (hc : c = comma ∨ c = close) :
    scanItems blank close item (fuel + 1) (room + 1) (pre ++ (text ++ (post ++ c :: q))) =
      if c = comma then
        (scanItems blank close item fuel room q).map fun r => (a :: r.1, r.2)
      else if c = close then some ([a], q)
      else none := by
  obtain ⟨d, text', htext, hd, -⟩ := hreads.starts _ _ hitem
  have hstart : (pre ++ (text ++ (post ++ c :: q))).dropWhile blank =
      text ++ (post ++ c :: q) := by
    rw [htext, List.cons_append, dropWhile_blanks hpre hd]
  have hread : item (text ++ (post ++ c :: q)) = some (a, post ++ c :: q) := by
    refine hreads.complete _ _ _ hitem ?_
    cases post with
    | nil => exact ⟨c, q, rfl, .inr hc⟩
    | cons b post => exact ⟨b, _, rfl, .inl (hpost b List.mem_cons_self)⟩
  simp only [scanItems, hstart, hread, dropWhile_blanks hpost hblank]

theorem scanItems_of_itemsText (hreads : ReadsItems blank close item Item)
    (hclose : blank close = false) (hcomma : blank comma = false) (hne : close ≠ comma)
    {fuel room : Nat} (h : ItemsText blank close Item rest p as) (hfuel : p.length ≤ fuel)
    (hroom : as.length ≤ room) :
    scanItems blank close item fuel room p = some (as, rest) := by
  induction h generalizing fuel room with
  | @last pre text post a hpre hitem hpost =>
      simp only [List.length_append, List.length_cons] at hfuel
      obtain ⟨fuel, rfl⟩ : ∃ n, fuel = n + 1 := ⟨fuel - 1, by omega⟩
      obtain ⟨room, rfl⟩ : ∃ n, room = n + 1 := ⟨room - 1, (Nat.sub_add_cancel hroom).symm⟩
      rw [scanItems_item hreads hpre hitem hpost hclose (.inr rfl), if_neg hne, if_pos rfl]
  | @more pre text post later a as hpre hitem hpost _ ih =>
      simp only [List.length_append, List.length_cons] at hfuel
      obtain ⟨fuel, rfl⟩ : ∃ n, fuel = n + 1 := ⟨fuel - 1, by omega⟩
      obtain ⟨room, rfl⟩ : ∃ n, room = n + 1 :=
        ⟨room - 1, (Nat.sub_add_cancel (Nat.le_trans (Nat.succ_pos _) hroom)).symm⟩
      rw [scanItems_item hreads hpre hitem hpost hcomma (.inl rfl), if_pos rfl,
        ih (by omega) (Nat.le_of_succ_le_succ hroom)]
      rfl

theorem ItemsText.starts (hreads : ReadsItems blank close item Item)
    (h : ItemsText blank close Item rest p as) :
    as ≠ [] ∧ ∃ c q, p.dropWhile blank = c :: q ∧ c ≠ close := by
  cases h with
  | last hpre hitem hpost =>
      obtain ⟨c, text', rfl, hc, hne⟩ := hreads.starts _ _ hitem
      exact ⟨List.cons_ne_nil _ _, c, _, dropWhile_blanks hpre hc, hne⟩
  | more hpre hitem hpost hlater =>
      obtain ⟨c, text', rfl, hc, hne⟩ := hreads.starts _ _ hitem
      exact ⟨List.cons_ne_nil _ _, c, _, dropWhile_blanks hpre hc, hne⟩

/-- The scanner reads exactly the lists of the grammar that have room. -/
theorem scanList_eq_some_iff (hreads : ReadsItems blank close item Item)
    (hopening : blank opening = false) (hclose : blank close = false)
    (hcomma : blank comma = false) (hne : close ≠ comma) {room : Nat} {v : List UInt8} :
    scanList blank opening close item room v = some (as, rest) ↔
      ListText blank opening close Item v as rest ∧ as.length ≤ room := by
  constructor
  · intro h
    obtain ⟨pre, hpre, hv⟩ := eq_blanks_append blank v
    rw [scanList] at h
    split at h
    case h_1 => cases h
    case h_2 c body hbody =>
      split at h
      case isTrue => cases h
      case isFalse hc =>
        obtain rfl := not_not.mp hc
        rw [hbody] at hv
        obtain ⟨mid, hmid, hp⟩ := eq_blanks_append blank body
        split at h
        case h_1 => cases h
        case h_2 d q hq =>
          rw [hq] at hp
          split at h
          case isTrue hd =>
            subst hd
            obtain ⟨rfl, rfl⟩ := Prod.mk.inj (Option.some.inj h)
            exact ⟨⟨pre, body, hpre, hv, .inl ⟨rfl, mid, hmid, hp⟩⟩, Nat.zero_le _⟩
          case isFalse =>
            obtain ⟨hitems, hroom⟩ := itemsText_of_scanItems hreads _ room h
            exact ⟨⟨pre, body, hpre, hv, .inr hitems⟩, hroom⟩
  · rintro ⟨⟨pre, body, hpre, rfl, ⟨rfl, mid, hmid, rfl⟩ | hitems⟩, hroom⟩
    · simp only [scanList, dropWhile_blanks hpre hopening, dropWhile_blanks hmid hclose, ne_eq,
        not_true_eq_false, if_false, if_true]
    · obtain ⟨-, c, q, hstart, hc⟩ := hitems.starts hreads
      simp only [scanList, dropWhile_blanks hpre hopening, hstart, ne_eq, not_true_eq_false,
        if_false, if_neg hc]
      exact scanItems_of_itemsText hreads hclose hcomma hne hitems (Nat.le_refl _) hroom

/-- With less room, the lists that fit are read as they were. -/
theorem scanList_room (hreads : ReadsItems blank close item Item)
    (hopening : blank opening = false) (hclose : blank close = false)
    (hcomma : blank comma = false) (hne : close ≠ comma) {less room : Nat} (hless : less ≤ room)
    (v : List UInt8) :
    scanList blank opening close item less v =
      (scanList blank opening close item room v).filter fun r => r.1.length ≤ less := by
  ext ⟨as, rest⟩
  simp only [Option.filter_eq_some_iff, decide_eq_true_eq,
    scanList_eq_some_iff hreads hopening hclose hcomma hne]
  constructor
  · rintro ⟨hlist, hle⟩
    exact ⟨⟨hlist, hle.trans hless⟩, hle⟩
  · rintro ⟨⟨hlist, -⟩, hle⟩
    exact ⟨hlist, hle⟩

end

end

end InduRtdb.Lib
