/-
  Spec/Replay.lean --- what a replay of a history restores when it starts from a
  state in which some ids already stand where the history leaves them.

  A naming gives every id a name or none.  A history is a list of changes, each
  legal where it was made.  Its replay starts from another naming: every id has
  there either the name it had before the history or the one it has after it.
  A change replayed there may not apply, or may be refused.  The replay ends
  where the history ended if and only if every refused change is mended by a
  later one.
-/
import Mathlib.Logic.Function.Basic

set_option autoImplicit false

namespace InduRtdb.Spec

/-- One change of the name of an id. -/
inductive Change (Name : Type) where
  | create (id : Nat) (name : Name)
  | delete (id : Nat)
  | rename (id : Nat) (name : Name)

namespace Change

variable {Name : Type}

/-- The id that is changed. -/
def id : Change Name → Nat
  | create id _ => id
  | delete id => id
  | rename id _ => id

/-- What the id is called afterwards. -/
def result : Change Name → Option Name
  | create _ name => some name
  | delete _ => none
  | rename _ name => some name

/-- The naming after a change that is made. -/
def apply (f : Nat → Option Name) (c : Change Name) : Nat → Option Name :=
  Function.update f c.id c.result

theorem apply_id (f : Nat → Option Name) (c : Change Name) : c.apply f c.id = c.result :=
  Function.update_self ..

theorem apply_of_ne (f : Nat → Option Name) {c : Change Name} {i : Nat} (h : i ≠ c.id) :
    c.apply f i = f i := Function.update_of_ne h ..

/-- The id is named, or not, as the change wants it. -/
def Legal (f : Nat → Option Name) : Change Name → Prop
  | create id _ => f id = none
  | delete id => f id ≠ none
  | rename id _ => f id ≠ none

/-- A replay of the change has something to do.  Deleting what is gone already
does no harm. -/
def Applies (g : Nat → Option Name) : Change Name → Prop
  | create id _ => g id = none
  | delete _ => True
  | rename id _ => g id ≠ none

/-- A replay of the change puts an id right again that now stands at `v`:
a deletion always does, a renaming does when there is something to rename. -/
def Mends (v : Option Name) (i : Nat) (c : Change Name) : Prop :=
  c.id = i ∧ match c with
    | create _ _ => False
    | delete _ => True
    | rename _ _ => v ≠ none

end Change

variable {Name : Type}

/-- The changes can be made one after another. -/
def LegalRun (f : Nat → Option Name) : List (Change Name) → Prop
  | [] => True
  | c :: cs => c.Legal f ∧ LegalRun (c.apply f) cs

/-- The naming after some changes. -/
def afterChanges (f : Nat → Option Name) (cs : List (Change Name)) : Nat → Option Name :=
  cs.foldl Change.apply f

/-- What the replay of one change may do: nothing if it is refused or does not
apply, and the change otherwise.  Only a change that would give a new name is
refused. -/
structure ReplayStep (g : Nat → Option Name) (c : Change Name) (refused : Prop)
    (g' : Nat → Option Name) : Prop where
  skipped : refused ∨ ¬ c.Applies g → g' = g
  applied : ¬ refused → c.Applies g → g' = c.apply g
  refusable : refused → c.result ≠ none ∧ g c.id ≠ c.result

/-- A replayed change leaves the other ids alone. -/
theorem ReplayStep.of_ne {g g' : Nat → Option Name} {c : Change Name} {refused : Prop} {i : Nat}
    (h : ReplayStep g c refused g') (hne : i ≠ c.id) : g' i = g i := by
  classical
  by_cases hskip : refused ∨ ¬ c.Applies g
  · rw [h.skipped hskip]
  · obtain ⟨hnot, happlies⟩ := not_or.mp hskip
    rw [h.applied hnot (not_not.mp happlies), Change.apply_of_ne g hne]

/-! ## Every refusal is mended -/

/-- Every id stands where the history has it now, or where the history leaves
it, or is about to be mended. -/
def Settling (f g last : Nat → Option Name) (cs : List (Change Name)) : Prop :=
  ∀ i, g i = f i ∨ g i = last i ∨ (f i ≠ none ∧ ∃ d ∈ cs, d.Mends (g i) i)

theorem Settling.step {f g g' last : Nat → Option Name} {c : Change Name}
    {cs : List (Change Name)} {refused : Prop} (h : Settling f g last (c :: cs))
    (hlegal : c.Legal f) (hstep : ReplayStep g c refused g')
    (hmended : refused → ∃ d ∈ cs, d.Mends (g c.id) c.id) :
    Settling (c.apply f) g' last cs := by
  classical
  intro i
  rcases eq_or_ne i c.id with rfl | hne
  · by_cases hrefused : refused
    · obtain ⟨d, hd, hmends⟩ := hmended hrefused
      refine Or.inr (Or.inr ⟨?_, d, hd, ?_⟩)
      · rw [Change.apply_id]
        exact (hstep.refusable hrefused).1
      · rwa [hstep.skipped (Or.inl hrefused)]
    · by_cases happlies : c.Applies g
      · refine Or.inl ?_
        rw [hstep.applied hrefused happlies, Change.apply_id, Change.apply_id]
      · -- the change does not apply, so the id was not where the history has it
        rw [hstep.skipped (Or.inr happlies)]
        cases c with
        | create i name =>
            refine Or.inr (Or.inl ?_)
            rcases h i with hsync | hlast | ⟨hnamed, _⟩
            · exact absurd (hsync.trans hlegal) happlies
            · exact hlast
            · exact absurd hlegal hnamed
        | delete i => exact absurd trivial happlies
        | rename i name =>
            have hgone : g i = none := not_not.mp happlies
            rcases h i with hsync | hlast | ⟨_, d, hd, hmends⟩
            · exact absurd (hsync.symm.trans hgone) hlegal
            · exact Or.inr (Or.inl hlast)
            · refine Or.inr (Or.inr ⟨?_, d, ?_, hmends⟩)
              · rw [Change.apply_id]
                exact Option.some_ne_none name
              · rcases List.mem_cons.mp hd with rfl | hd
                · exact absurd hgone hmends.2
                · exact hd
  · rw [hstep.of_ne hne, Change.apply_of_ne f hne]
    rcases h i with hsync | hlast | ⟨hnamed, d, hd, hmends⟩
    · exact Or.inl hsync
    · exact Or.inr (Or.inl hlast)
    · refine Or.inr (Or.inr ⟨hnamed, d, ?_, hmends⟩)
      rcases List.mem_cons.mp hd with rfl | hd
      · exact absurd hmends.1.symm hne
      · exact hd

/-- When the changes are used up, every id stands where the history left it. -/
theorem Settling.done {g last : Nat → Option Name} (h : Settling last g last []) : g = last := by
  funext i
  rcases h i with hsync | hlast | ⟨_, d, hd, _⟩
  · exact hsync
  · exact hlast
  · cases hd

/-! ## A refusal nobody mends -/

/-- The id is named in the history, stands at something else in the replay, and
no later change puts it right. -/
def Stuck (f g : Nat → Option Name) (cs : List (Change Name)) (i : Nat) : Prop :=
  f i ≠ none ∧ g i ≠ f i ∧ ∀ d ∈ cs, ¬ d.Mends (g i) i

/-- A change that is refused and not mended leaves its id stuck. -/
theorem ReplayStep.stuck {f g g' : Nat → Option Name} {c : Change Name}
    {cs : List (Change Name)} {refused : Prop} (hstep : ReplayStep g c refused g')
    (hrefused : refused) (hmended : ¬ ∃ d ∈ cs, d.Mends (g c.id) c.id) :
    Stuck (c.apply f) g' cs c.id := by
  obtain ⟨hnamed, hdiff⟩ := hstep.refusable hrefused
  rw [hstep.skipped (Or.inl hrefused), Stuck, Change.apply_id]
  exact ⟨hnamed, hdiff, fun d hd hmends => hmended ⟨d, hd, hmends⟩⟩

theorem Stuck.step {f g g' : Nat → Option Name} {c : Change Name} {cs : List (Change Name)}
    {refused : Prop} {i : Nat} (h : Stuck f g (c :: cs) i) (hlegal : c.Legal f)
    (hstep : ReplayStep g c refused g') : Stuck (c.apply f) g' cs i := by
  obtain ⟨hnamed, hdiff, hlost⟩ := h
  have hrest : ∀ d ∈ cs, ¬ d.Mends (g i) i := fun d hd => hlost d (List.mem_cons_of_mem _ hd)
  rcases eq_or_ne i c.id with rfl | hne
  · have hnot := hlost c (List.mem_cons_self ..)
    cases c with
    | create i name => exact absurd hlegal hnamed
    | delete i => exact absurd ⟨rfl, trivial⟩ hnot
    | rename i name =>
        -- nothing is left to rename, so the replay skips the renaming
        have hgone : g i = none := by
          by_contra hnamed'
          exact hnot ⟨rfl, hnamed'⟩
        have hskip : g' = g := hstep.skipped (Or.inr (not_not.mpr hgone))
        rw [hskip, Stuck, Change.apply_id]
        refine ⟨Option.some_ne_none name, ?_, hrest⟩
        change g i ≠ some name
        rw [hgone]
        exact (Option.some_ne_none name).symm
  · rw [Stuck, hstep.of_ne hne, Change.apply_of_ne f hne]
    exact ⟨hnamed, hdiff, hrest⟩

/-! ## Whole replays -/

/-- A replay of some changes, together with the statement that every change
refused in it is mended by a later one. -/
inductive ReplayRun {Name : Type} :
    (Nat → Option Name) → List (Change Name) → Prop → (Nat → Option Name) → Prop where
  | nil (g : Nat → Option Name) : ReplayRun g [] True g
  | cons {g g₁ g' : Nat → Option Name} {c : Change Name} {cs : List (Change Name)}
      {refused mended : Prop} (step : ReplayStep g c refused g₁) (rest : ReplayRun g₁ cs mended g') :
      ReplayRun g (c :: cs) ((refused → ∃ d ∈ cs, d.Mends (g c.id) c.id) ∧ mended) g'

namespace ReplayRun

variable {g g' : Nat → Option Name} {cs : List (Change Name)} {mended : Prop}

/-- A replay in which every refusal is mended ends where the history ended. -/
theorem settles (hrun : ReplayRun g cs mended g') :
    ∀ f last : Nat → Option Name, LegalRun f cs → Settling f g last cs →
      afterChanges f cs = last → mended → g' = last := by
  induction hrun with
  | nil g =>
      intro f last _ hsettling hlast _
      obtain rfl : f = last := hlast
      exact hsettling.done
  | cons step _ ih =>
      intro f last hlegal hsettling hlast hmended
      exact ih _ last hlegal.2 (hsettling.step hlegal.1 step hmended.1) hlast hmended.2

/-- An id that is stuck is still wrong at the end. -/
theorem stays_stuck (hrun : ReplayRun g cs mended g') :
    ∀ (f : Nat → Option Name) (i : Nat), LegalRun f cs → Stuck f g cs i →
      g' i ≠ afterChanges f cs i := by
  induction hrun with
  | nil g => exact fun f i _ hstuck => hstuck.2.1
  | cons step _ ih => exact fun f i hlegal hstuck => ih _ i hlegal.2 (hstuck.step hlegal.1 step)

/-- A replay that ends where the history ended has mended every refusal. -/
theorem mended_of_eq (hrun : ReplayRun g cs mended g') :
    ∀ f : Nat → Option Name, LegalRun f cs → g' = afterChanges f cs → mended := by
  induction hrun with
  | nil g => exact fun _ _ _ => trivial
  | cons step rest ih =>
      intro f hlegal heq
      refine ⟨fun hrefused => ?_, ih _ hlegal.2 heq⟩
      by_contra hlost
      exact rest.stays_stuck _ _ hlegal.2 (step.stuck hrefused hlost) (congrFun heq _)

/-- A replay that starts with every id where it was before the history or where
it is after it ends where the history ended if and only if every refusal is
mended. -/
theorem eq_iff (hrun : ReplayRun g cs mended g') {f : Nat → Option Name} (hlegal : LegalRun f cs)
    (hstart : ∀ i, g i = f i ∨ g i = afterChanges f cs i) :
    g' = afterChanges f cs ↔ mended := by
  refine ⟨hrun.mended_of_eq f hlegal, fun hmended => ?_⟩
  refine hrun.settles f _ hlegal (fun i => ?_) rfl hmended
  rcases hstart i with hbefore | hafter
  · exact Or.inl hbefore
  · exact Or.inr (Or.inl hafter)

end ReplayRun

end InduRtdb.Spec
