import CountTree.Proofs.ReportPaths

/-!
The order of observations. `Radix.LastLess` compares two lists of digits at the last place where
they differ, and `Radix.value_lt_iff` says that positions are in this order: all digits below a
place together stay below the weight of the place. `observation_order` is the main statement, about
the positions of argument tuples and about the observations that the report of counts lists.
-/

set_option autoImplicit false
set_option relaxedAutoImplicit false

namespace CountTree

open Component

namespace Radix

/-- There is a last place where the lists differ, and there the first has the smaller entry. -/
def LastLess (digits digits' : List Nat) : Prop :=
  ∃ place digit digit' : Nat, digits[place]? = some digit ∧ digits'[place]? = some digit' ∧
    digit < digit' ∧ ∀ later, place < later → digits[later]? = digits'[later]?

theorem LastLess.ne {digits digits' : List Nat} (h : LastLess digits digits') :
    digits ≠ digits' := by
  rintro rfl
  obtain ⟨place, digit, digit', hdigit, hdigit', hless, -⟩ := h
  exact hless.ne (Option.some.inj (hdigit.symm.trans hdigit'))

theorem not_lastLess_nil (digits' : List Nat) : ¬ LastLess [] digits' := by
  rintro ⟨place, digit, digit', hdigit, -⟩
  cases hdigit

/-- The first digits matter only if the others are the same. -/
theorem lastLess_cons {digit digit' : Nat} {digits digits' : List Nat} :
    LastLess (digit :: digits) (digit' :: digits') ↔
      LastLess digits digits' ∨ digits = digits' ∧ digit < digit' := by
  constructor
  · rintro ⟨place, entry, entry', hentry, hentry', hless, hlater⟩
    rcases place with _ | place
    · obtain rfl := Option.some.inj hentry
      obtain rfl := Option.some.inj hentry'
      exact .inr ⟨List.ext_getElem? fun later ↦ hlater (later + 1) (Nat.succ_pos later), hless⟩
    · exact .inl ⟨place, entry, entry', hentry, hentry', hless, fun later hless ↦
        hlater (later + 1) (Nat.succ_lt_succ hless)⟩
  · rintro (⟨place, entry, entry', hentry, hentry', hless, hlater⟩ | ⟨rfl, hless⟩)
    · refine ⟨place + 1, entry, entry', hentry, hentry', hless, fun later hplace ↦ ?_⟩
      obtain ⟨later, rfl⟩ := Nat.exists_eq_add_one_of_ne_zero (Nat.ne_zero_of_lt hplace)
      exact hlater later (Nat.lt_of_succ_lt_succ hplace)
    · refine ⟨0, digit, digit', rfl, rfl, hless, fun later hplace ↦ ?_⟩
      obtain ⟨later, rfl⟩ := Nat.exists_eq_add_one_of_ne_zero (Nat.ne_zero_of_lt hplace)
      rfl

/-- A digit below the radix decides only between multiples of the radix that are the same. -/
theorem digit_add_lt_iff {radix digit digit' rest rest' : Nat} (hdigit : digit < radix)
    (hdigit' : digit' < radix) : digit + radix * rest < digit' + radix * rest' ↔
      rest < rest' ∨ rest = rest' ∧ digit < digit' := by
  have hstep {digit digit' rest rest' : Nat} (hdigit : digit < radix) (hrest : rest < rest') :
      digit + radix * rest < digit' + radix * rest' :=
    calc digit + radix * rest
      _ < radix + radix * rest := Nat.add_lt_add_right hdigit _
      _ = radix * (rest + 1) := by rw [Nat.mul_add_one, Nat.add_comm]
      _ ≤ radix * rest' := Nat.mul_le_mul_left _ hrest
      _ ≤ digit' + radix * rest' := Nat.le_add_left _ _
  rcases Nat.lt_trichotomy rest rest' with hrest | rfl | hrest
  · exact iff_of_true (hstep hdigit hrest) (.inl hrest)
  · rw [Nat.add_lt_add_iff_right]
    exact ⟨fun hless ↦ .inr ⟨rfl, hless⟩, fun hless ↦ hless.elim (absurd · (lt_irrefl _)) (·.2)⟩
  · exact iff_of_false (hstep hdigit' hrest).not_gt fun hless ↦
      hless.elim hrest.not_gt fun hsame ↦ hrest.ne hsame.1.symm

/-- The order of positions is the order of their digits at the last place where these differ. -/
theorem value_lt_iff {digits digits' radices : List Nat} (h : InRange digits radices)
    (h' : InRange digits' radices) :
    value digits radices < value digits' radices ↔ LastLess digits digits' := by
  induction h using InRange.induction generalizing digits' with
  | nil =>
    rcases digits' with _ | ⟨digit', digits'⟩
    · exact iff_of_false (lt_irrefl 0) (not_lastLess_nil [])
    · exact h'.elim
  | @cons digit radix digits radices hdigit hrest ih =>
    rcases digits' with _ | ⟨digit', digits'⟩
    · exact h'.elim
    · have hsame : value digits radices = value digits' radices ↔ digits = digits' :=
        ⟨value_injective hrest h'.2, fun hdigits ↦ by rw [hdigits]⟩
      rw [value, value, digit_add_lt_iff hdigit h'.1, lastLess_cons, ih h'.2, hsame]

end Radix

/-! ### The observations of an action -/

namespace Component

variable {root node : Component} {action : Action} {path : List String}

theorem Observes.lastLess {observations : List (List Nat × Nat)}
    (h : node.Observes action observations) :
    observations.Pairwise fun first second ↦ Radix.LastLess first.1 second.1 := by
  refine h.increasing.imp_of_mem fun {first second} hfirst hsecond hless ↦ ?_
  exact (Radix.value_lt_iff ((h.mem_iff first.1 first.2).mp hfirst).1
    ((h.mem_iff second.1 second.2).mp hsecond).1).mp hless

/-- An action with arguments has the sequence of its observations in the report, and no key if
there is none. -/
theorem follow?_action (h : Reachable root) (hfind : root.find path = some node)
    (haction : action ∈ node.actions) (harity : action.arity ≠ 0) :
    ∃ observations, node.Observes action observations ∧
      (Document.mapping (Report.actionCounts root)).follow?
          (root.name :: (path ++ [action.name])) =
        if observations = [] then none else some (.sequence (observations.map observationDocument))
    := by
  have hnode := (h.wellFormed.find hfind).here
  have hfollow : (Document.mapping (Report.actionCounts root)).follow?
      (root.name :: (path ++ [action.name])) = node.shown action := by
    rw [← List.cons_append, Document.follow?_append, ← Report.ofKind,
      Report.follow?_ofKind_path h.wellFormed hfind, Option.bind_some, Report.entry,
      Document.follow?_cons, hnode.get?_action haction]
    rcases node.shown action with _ | field <;> rfl
  have hshows := hnode.shows_shown haction
  rw [hfollow]
  generalize node.shown action = field at hshows
  cases hshows with
  | count hzero _ => exact absurd hzero harity
  | observations _ hobserves hne => exact ⟨_, hobserves, by rw [if_neg hne]⟩
  | absent _ hobserves => exact ⟨[], hobserves, rfl⟩

end Component

/-- The positions of the argument tuples of an action are in the order of the last place where the
tuples differ, and with them the observations of the action in the report of counts of every tree
in which a component has the action: strictly increasing, and no tuple twice. -/
theorem observation_order (action : Action) :
    (∀ arguments arguments', Radix.InRange arguments action.cardinalities →
      Radix.InRange arguments' action.cardinalities →
        ∃ position position', action.index arguments = .ok position ∧
          action.index arguments' = .ok position' ∧
          (position < position' ↔
            arguments ≠ arguments' ∧ Radix.LastLess arguments arguments')) ∧
      ∀ root path node, Reachable root → root.find path = some node → action ∈ node.actions →
        action.arity ≠ 0 → ∃ observations, node.Observes action observations ∧
          (Document.mapping (Report.actionCounts root)).follow?
              (root.name :: (path ++ [action.name])) =
            (if observations = [] then none
              else some (.sequence (observations.map observationDocument))) ∧
          (observations.Pairwise fun first second ↦ Radix.LastLess first.1 second.1) ∧
          (observations.map Prod.fst).Nodup := by
  refine ⟨fun arguments arguments' hrange hrange' ↦ ?_,
    fun root path node h hfind haction harity ↦ ?_⟩
  · refine ⟨_, _, Action.index_of_inRange hrange, Action.index_of_inRange hrange', ?_⟩
    rw [Radix.value_lt_iff hrange hrange']
    exact ⟨fun hless ↦ ⟨hless.ne, hless⟩, fun hless ↦ hless.2⟩
  · obtain ⟨observations, hobserves, hfollow⟩ := follow?_action h hfind haction harity
    exact ⟨observations, hobserves, hfollow, hobserves.lastLess, hobserves.once⟩

/-- The last argument decides: the tuple `[1, 0]` comes before `[0, 1]`, and the report lists them
in this order after both were counted. -/
theorem observation_order_sample :
    let action : Action := ⟨"access", [2, 3], 6, by decide⟩
    let tree := Sample.tree [0, 7, 4, 0, 0, 0] [0]
    Radix.InRange [1, 0] action.cardinalities ∧ Radix.InRange [0, 1] action.cardinalities ∧
      Radix.LastLess [1, 0] [0, 1] ∧ Reachable tree ∧ action.arity ≠ 0 ∧
      ∃ observations, (Document.mapping (Report.actionCounts tree)).follow?
          ["top", "spad", "access"] = (if observations = [] then none
            else some (.sequence (observations.map observationDocument))) ∧
        observations.Pairwise (fun first second ↦ Radix.LastLess first.1 second.1) ∧
        ([1, 0], 7) ∈ observations ∧ ([0, 1], 4) ∈ observations := by
  intro action tree
  have hrange : Radix.InRange [1, 0] action.cardinalities := by decide
  have hrange' : Radix.InRange [0, 1] action.cardinalities := by decide
  have hreachable : Reachable tree := by
    have hfirst : focus (record "access" [1, 0] 7) ["spad"]
        (Sample.tree [0, 0, 0, 0, 0, 0] [0]) =
          some (.ok () (Sample.tree [0, 7, 0, 0, 0, 0] [0])) := rfl
    have hsecond : focus (record "access" [0, 1] 4) ["spad"]
        (Sample.tree [0, 7, 0, 0, 0, 0] [0]) = some (.ok () tree) := rfl
    exact .record (.record Sample.reachable_tree hfirst) hsecond
  obtain ⟨horder, hreport⟩ := observation_order action
  obtain ⟨position, position', hposition, hposition', hless⟩ := horder _ _ hrange hrange'
  obtain rfl : 1 = position := Except.ok.inj (.trans rfl hposition)
  obtain rfl : 2 = position' := Except.ok.inj (.trans rfl hposition')
  obtain ⟨observations, hobserves, hfollow, hincreasing, -⟩ :=
    hreport tree ["spad"] _ hreachable rfl List.mem_cons_self (by decide)
  exact ⟨hrange, hrange', (hless.mp (by decide)).2, hreachable, by decide, observations, hfollow,
    hincreasing, (hobserves.mem_iff _ _).mpr ⟨hrange, rfl, by decide⟩,
    (hobserves.mem_iff _ _).mpr ⟨hrange', rfl, by decide⟩⟩

end CountTree
