/-
  Lib/Probe.lean --- open addressing with tombstones, over any table.

  A table is a function from positions to cells; a search visits the positions
  `seq 0, seq 1, ...` of a probe sequence.  A search for an entry stops at the
  first empty cell; a search for a free cell remembers the first tombstone it
  passed.  Nothing here says how the sequence is computed or what an entry is.

  The notion everything rests on is `Reach`: a position is reachable when no
  empty cell stands before it.  It survives every change that does not create
  an empty cell (`Reach.mono`), which is why deletion leaves a tombstone.
-/
import Mathlib.Data.Nat.Find

set_option autoImplicit false

namespace InduRtdb.Probe

/-- One cell of a table. -/
inductive Cell (α : Type) where
  /-- never used since the table was cleared -/
  | empty
  /-- used once, free now -/
  | tomb
  | live (entry : α)
  deriving DecidableEq

/-- The outcome of a search for the place of an entry. -/
inductive Place where
  /-- an entry that matches is already at this position -/
  | hit (i : Nat)
  /-- no entry matches; this cell may be used -/
  | free (i : Nat)
  /-- no entry matches and no cell is free -/
  | full
  deriving DecidableEq

variable {α : Type}

/-- Search for a matching entry in probe steps `d, ..., d + n - 1`. -/
def find (seq : Nat → Nat) (cell : Nat → Cell α) (p : α → Bool) : Nat → Nat → Option Nat
  | 0, _ => none
  | n + 1, d =>
      match cell (seq d) with
      | .empty => none
      | .tomb => find seq cell p n (d + 1)
      | .live a => if p a then some (seq d) else find seq cell p n (d + 1)

/-- Search for the place of an entry in probe steps `d, ..., d + n - 1`, with
the first tombstone seen before step `d`. -/
def place (seq : Nat → Nat) (cell : Nat → Cell α) (p : α → Bool) :
    Nat → Nat → Option Nat → Place
  | 0, _, none => .full
  | 0, _, some t => .free t
  | n + 1, d, t =>
      match cell (seq d) with
      | .empty => .free (t.getD (seq d))
      | .tomb => place seq cell p n (d + 1) (t.or (some (seq d)))
      | .live a => if p a then .hit (seq d) else place seq cell p n (d + 1) t

/-- The entries tested in probe steps `d, ..., d + n - 1`. -/
def tested (seq : Nat → Nat) (cell : Nat → Cell α) (p : α → Bool) : Nat → Nat → List α
  | 0, _ => []
  | n + 1, d =>
      match cell (seq d) with
      | .empty => []
      | .tomb => tested seq cell p n (d + 1)
      | .live a => a :: if p a then [] else tested seq cell p n (d + 1)

/-- Position `i` is met within the first `n` probe steps before any empty
cell. -/
def Reach (seq : Nat → Nat) (cell : Nat → Cell α) (n i : Nat) : Prop :=
  ∃ k, k < n ∧ seq k = i ∧ ∀ j, j < k → cell (seq j) ≠ .empty

variable {seq : Nat → Nat} {cell cell' : Nat → Cell α} {p : α → Bool}

/-- Reachability survives every change that empties no cell. -/
theorem Reach.mono {n i : Nat} (h : Reach seq cell n i)
    (hcells : ∀ j, cell' j = .empty → cell j = .empty) : Reach seq cell' n i := by
  obtain ⟨k, hk, hseq, hbefore⟩ := h
  exact ⟨k, hk, hseq, fun j hj hempty => hbefore j hj (hcells _ hempty)⟩

/-! ## Tables that look alike -/

/-- A search sees the cells of its sequence only. -/
theorem find_congr (h : ∀ d, cell (seq d) = cell' (seq d)) :
    ∀ n d, find seq cell p n d = find seq cell' p n d := by
  intro n
  induction n with
  | zero => exact fun _ => rfl
  | succ n ih =>
      intro d
      rw [find, find, h d, ih (d + 1)]

theorem place_congr (h : ∀ d, cell (seq d) = cell' (seq d)) :
    ∀ n d t, place seq cell p n d t = place seq cell' p n d t := by
  intro n
  induction n with
  | zero =>
      intro d t
      cases t with
      | none => rfl
      | some t => rfl
  | succ n ih =>
      intro d t
      rw [place, place, h d, ih (d + 1), ih (d + 1)]

/-! ## Searching for an entry -/

/-- What `find` returns is a reachable matching entry. -/
theorem find_some :
    ∀ (n d i : Nat), find seq cell p n d = some i →
      (∀ j, j < d → cell (seq j) ≠ .empty) →
      ∃ a, cell i = .live a ∧ p a = true ∧ Reach seq cell (d + n) i := by
  intro n
  induction n with
  | zero => intro d i h _; simp [find] at h
  | succ n ih =>
      intro d i h hbefore
      rw [find] at h
      have hnext : cell (seq d) ≠ .empty → find seq cell p n (d + 1) = some i →
          ∃ a, cell i = .live a ∧ p a = true ∧ Reach seq cell (d + (n + 1)) i := by
        intro hne hrest
        have := ih (d + 1) i hrest (by
          intro j hj
          rcases Nat.lt_succ_iff_lt_or_eq.mp hj with hlt | heq
          · exact hbefore j hlt
          · rw [heq]; exact hne)
        rwa [Nat.add_right_comm, Nat.add_assoc] at this
      cases hcell : cell (seq d) with
      | empty => simp [hcell] at h
      | tomb =>
          rw [hcell] at h
          exact hnext (by simp [hcell]) h
      | live a =>
          simp only [hcell] at h
          split at h
          · rename_i hp
            have hi : seq d = i := Option.some.inj h
            exact ⟨a, hi ▸ hcell, hp, d, by omega, hi, hbefore⟩
          · exact hnext (by simp [hcell]) h

/-- When `find` returns nothing, every matching entry lies behind an empty
cell. -/
theorem find_none :
    ∀ (n d k : Nat) (a : α), find seq cell p n d = none → d ≤ k → k < d + n →
      cell (seq k) = .live a → p a = true → ∃ j, d ≤ j ∧ j < k ∧ cell (seq j) = .empty := by
  intro n
  induction n with
  | zero => intro d k a _ hd hk; omega
  | succ n ih =>
      intro d k a h hd hk hlive hp
      rw [find] at h
      have hnext : find seq cell p n (d + 1) = none → k ≠ d →
          ∃ j, d ≤ j ∧ j < k ∧ cell (seq j) = .empty := by
        intro hrest hne
        obtain ⟨j, hj, hjk, hempty⟩ := ih (d + 1) k a hrest (by omega) (by omega) hlive hp
        exact ⟨j, by omega, hjk, hempty⟩
      cases hcell : cell (seq d) with
      | empty =>
          refine ⟨d, le_rfl, ?_, hcell⟩
          by_contra hge
          have : k = d := by omega
          rw [this, hcell] at hlive
          cases hlive
      | tomb =>
          simp only [hcell] at h
          exact hnext h (by rintro rfl; rw [hcell] at hlive; cases hlive)
      | live b =>
          simp only [hcell] at h
          split at h
          · cases h
          · rename_i hpb
            refine hnext h ?_
            rintro rfl
            rw [hcell] at hlive
            cases hlive
            exact hpb hp

/-- A reachable match is found. -/
theorem find_isSome {n i : Nat} {a : α} (hreach : Reach seq cell n i)
    (hlive : cell i = .live a) (hp : p a = true) : ∃ k, find seq cell p n 0 = some k := by
  cases hfind : find seq cell p n 0 with
  | some k => exact ⟨k, rfl⟩
  | none =>
      obtain ⟨k, hk, hseq, hbefore⟩ := hreach
      obtain ⟨j, _, hjk, hempty⟩ :=
        find_none n 0 k a hfind (Nat.zero_le _) (by omega) (by rw [hseq]; exact hlive) hp
      exact absurd hempty (hbefore j hjk)

/-- What is tested stands in the table. -/
theorem mem_tested {a : α} : ∀ n d, a ∈ tested seq cell p n d → ∃ k, cell (seq k) = .live a := by
  intro n
  induction n with
  | zero => exact fun _ h => absurd h List.not_mem_nil
  | succ n ih =>
      intro d h
      rw [tested] at h
      cases hcell : cell (seq d) with
      | empty =>
          rw [hcell] at h
          exact absurd h List.not_mem_nil
      | tomb =>
          rw [hcell] at h
          exact ih (d + 1) h
      | live b =>
          rw [hcell] at h
          rcases List.mem_cons.mp h with rfl | hrest
          · exact ⟨d, hcell⟩
          · split at hrest
            · exact absurd hrest List.not_mem_nil
            · exact ih (d + 1) hrest

/-- A search that has found nothing has tested every entry another one tests. -/
theorem tested_subset {q : α → Bool} :
    ∀ n d, find seq cell p n d = none → tested seq cell q n d ⊆ tested seq cell p n d := by
  intro n
  induction n with
  | zero => exact fun _ _ => List.Subset.refl _
  | succ n ih =>
      intro d h
      rw [find] at h
      rw [tested, tested]
      cases hcell : cell (seq d) with
      | empty => exact List.Subset.refl _
      | tomb =>
          rw [hcell] at h
          exact ih (d + 1) h
      | live a =>
          rw [hcell] at h
          dsimp only at h ⊢
          split at h
          · cases h
          · rename_i hp
            rw [if_neg hp]
            refine List.cons_subset_cons a ?_
            split
            · exact List.nil_subset _
            · exact ih (d + 1) h

/-! ## Searching for a place -/

/-- A search for a place and a search for an entry see the same match. -/
theorem place_hit_iff_find :
    ∀ (n d : Nat) (t : Option Nat) (i : Nat),
      place seq cell p n d t = .hit i ↔ find seq cell p n d = some i := by
  intro n
  induction n with
  | zero => intro d t i; cases t <;> simp [place, find]
  | succ n ih =>
      intro d t i
      rw [place, find]
      cases cell (seq d) with
      | empty => simp
      | tomb => exact ih (d + 1) _ i
      | live a =>
          cases hp : p a with
          | true => simp [hp]
          | false => simpa [hp] using ih (d + 1) t i

/-- A free place is a reachable cell that holds no entry. -/
theorem place_free :
    ∀ (n d : Nat) (t : Option Nat) (i : Nat), place seq cell p n d t = .free i →
      (∀ j, j < d → cell (seq j) ≠ .empty) →
      (∀ k, t = some k → cell k = .tomb ∧ Reach seq cell (d + n) k) →
      (cell i = .empty ∨ cell i = .tomb) ∧ Reach seq cell (d + n) i := by
  intro n
  induction n with
  | zero =>
      intro d t i h _ htomb
      cases t with
      | none => simp [place] at h
      | some k =>
          have hk : k = i := by simpa [place] using h
          subst hk
          exact ⟨Or.inr (htomb k rfl).1, (htomb k rfl).2⟩
  | succ n ih =>
      intro d t i h hbefore htomb
      rw [place] at h
      have hstep : cell (seq d) ≠ .empty →
          ∀ j, j < d + 1 → cell (seq j) ≠ .empty := by
        intro hne j hj
        rcases Nat.lt_succ_iff_lt_or_eq.mp hj with hlt | heq
        · exact hbefore j hlt
        · rw [heq]; exact hne
      have hlen : d + 1 + n = d + (n + 1) := by omega
      have hhere : Reach seq cell (d + (n + 1)) (seq d) := ⟨d, by omega, rfl, hbefore⟩
      cases hcell : cell (seq d) with
      | empty =>
          simp only [hcell, Place.free.injEq] at h
          cases t with
          | none =>
              have hi : seq d = i := h
              exact ⟨Or.inl (hi ▸ hcell), hi ▸ hhere⟩
          | some k =>
              have hi : k = i := h
              subst hi
              exact ⟨Or.inr (htomb k rfl).1, (htomb k rfl).2⟩
      | tomb =>
          simp only [hcell] at h
          have := ih (d + 1) _ i h (hstep (by simp [hcell])) (by
            intro k hk
            rw [hlen]
            cases t with
            | none =>
                have : seq d = k := by simpa using hk
                exact this ▸ ⟨hcell, hhere⟩
            | some k' => exact htomb k (by simpa using hk))
          rwa [hlen] at this
      | live a =>
          simp only [hcell] at h
          split at h
          · cases h
          · have := ih (d + 1) t i h (hstep (by simp [hcell])) (by rwa [hlen])
            rwa [hlen] at this

/-- When every search step fails to match and no tombstone was kept, all cells
visited hold entries. -/
theorem place_full :
    ∀ (n d : Nat) (t : Option Nat), place seq cell p n d t = .full →
      t = none ∧ ∀ k, d ≤ k → k < d + n → ∃ a, cell (seq k) = .live a ∧ p a = false := by
  intro n
  induction n with
  | zero =>
      intro d t h
      cases t with
      | none => exact ⟨rfl, fun k hd hk => by omega⟩
      | some k => simp [place] at h
  | succ n ih =>
      intro d t h
      rw [place] at h
      cases hcell : cell (seq d) with
      | empty => simp [hcell] at h
      | tomb =>
          simp only [hcell] at h
          have := (ih (d + 1) _ h).1
          cases t <;> simp at this
      | live a =>
          simp only [hcell] at h
          split at h
          · cases h
          · rename_i hp
            obtain ⟨hnone, hrest⟩ := ih (d + 1) t h
            refine ⟨hnone, fun k hd hk => ?_⟩
            rcases Nat.eq_or_lt_of_le hd with heq | hlt
            · exact ⟨a, heq ▸ hcell, by simpa using hp⟩
            · exact hrest k hlt (by omega)

/-! ## Cyclic sequences -/

/-- Linear probing: start at `home` and wrap around after `cap` positions. -/
def linear (cap home d : Nat) : Nat := (home + d) % cap

theorem linear_lt {cap : Nat} (hcap : 0 < cap) (home d : Nat) : linear cap home d < cap :=
  Nat.mod_lt _ hcap

/-- Linear probing visits every position within `cap` steps. -/
theorem linear_surj {cap i : Nat} (home : Nat) (hi : i < cap) :
    ∃ d, d < cap ∧ linear cap home d = i := by
  have hcap : 0 < cap := by omega
  refine ⟨(i + (cap - home % cap)) % cap, Nat.mod_lt _ hcap, ?_⟩
  have hhome : home % cap < cap := Nat.mod_lt _ hcap
  have hsum : home % cap + (i + (cap - home % cap)) = i + cap := by omega
  calc (home + (i + (cap - home % cap)) % cap) % cap
      = (home % cap + (i + (cap - home % cap))) % cap := by
        rw [Nat.add_mod_mod, ← Nat.mod_add_mod]
    _ = i := by rw [hsum, Nat.add_mod_right, Nat.mod_eq_of_lt hi]

end InduRtdb.Probe
