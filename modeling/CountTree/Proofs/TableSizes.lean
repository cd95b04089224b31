import CountTree.Proofs.Indexing
import Mathlib.Algebra.BigOperators.Group.List.Basic
import Mathlib.Data.List.Induction

/-!
Which cardinalities make an action. The size of a table is computed from the left with a running
product, and `Radix.StopsAt` is the place where that ends early: at a zero, or at a product that is
no word. Since no factor before the end is zero, the running product never falls, so that it ends
early exactly where the exact product is zero or no word (`Radix.size?_eq_some_iff_prod`).
`Action.create_exact` is the main statement: the exact product alone decides, and with it neither
the answer nor the table's size depends on the order of the cardinalities.
-/

set_option autoImplicit false
set_option relaxedAutoImplicit false

namespace CountTree

namespace Radix

variable {radices front back : List Nat} {place place' : Nat}

/-! ### The exact product decides -/

theorem size?_eq_some_iff_prod {total : Nat} :
    size? radices = some total ↔ radices.prod = total ∧ 0 < total ∧ total ≤ Word.top := by
  rw [size?_eq_some_iff, size_eq_prod]
  constructor
  · rintro ⟨hpos, rfl, hfit⟩
    exact ⟨rfl, size_eq_prod radices ▸ size_pos hpos, hfit⟩
  · rintro ⟨rfl, hpos, hfit⟩
    exact ⟨radices_pos (by rwa [size_eq_prod]), rfl, hfit⟩

/-! ### Where the running product ends -/

/-- The radices before the place have a size; the radix there is zero or leads past the words. -/
def StopsAt (radices : List Nat) (place : Nat) : Prop :=
  ∃ product radix, size? (radices.take place) = some product ∧ radices[place]? = some radix ∧
    (radix = 0 ∨ Word.top < product * radix)

theorem size?_append_singleton (front : List Nat) (radix : Nat) :
    size? (front ++ [radix]) =
      (size? front).bind fun product ↦ if radix = 0 then none else Word.mul? product radix := by
  simp only [size?, List.foldlM_append, List.foldlM_cons, List.foldlM_nil, bind_pure]
  rfl

theorem exists_size?_of_append {total : Nat} (h : size? (front ++ back) = some total) :
    ∃ product, size? front = some product := by
  rw [size?, List.foldlM_append] at h
  obtain ⟨product, hproduct, -⟩ := Option.bind_eq_some_iff.mp h
  exact ⟨product, hproduct⟩

theorem StopsAt.size?_eq_none (h : StopsAt radices place) :
    size? (radices.take (place + 1)) = none := by
  obtain ⟨product, radix, hproduct, hradix, hstop⟩ := h
  rw [List.take_add_one, hradix, Option.toList_some, size?_append_singleton, hproduct,
    Option.bind_some]
  rcases hstop with rfl | hstop
  · exact if_pos rfl
  · split
    · rfl
    · exact if_neg (Nat.not_le.mpr hstop)

/-- Past the place where it has stopped the walk does not come. -/
theorem StopsAt.le (h : StopsAt radices place) (h' : StopsAt radices place') : place' ≤ place := by
  by_contra hlt
  obtain ⟨product, -, hproduct, -⟩ := h'
  have hsplit := List.take_append_drop (place + 1) (radices.take place')
  rw [List.take_take, Nat.min_eq_left (Nat.not_le.mp hlt)] at hsplit
  rw [← hsplit] at hproduct
  obtain ⟨product, hproduct⟩ := exists_size?_of_append hproduct
  rw [h.size?_eq_none] at hproduct
  cases hproduct

theorem StopsAt.append (h : StopsAt front place) : StopsAt (front ++ back) place := by
  obtain ⟨product, radix, hproduct, hradix, hstop⟩ := h
  have hplace : place < front.length := (List.getElem?_eq_some_iff.mp hradix).1
  refine ⟨product, radix, ?_, ?_, hstop⟩
  · rwa [List.take_append_of_le_length hplace.le]
  · rwa [List.getElem?_append_left hplace]

theorem exists_stopsAt (h : size? radices = none) : ∃ place, StopsAt radices place := by
  induction radices using List.reverseRecOn with
  | nil => cases h
  | append_singleton front radix ih =>
    rcases hfront : size? front with _ | product
    · obtain ⟨place, hplace⟩ := ih hfront
      exact ⟨place, hplace.append⟩
    · refine ⟨front.length, product, radix, by rwa [List.take_left], by simp, ?_⟩
      rw [size?_append_singleton, hfront, Option.bind_some] at h
      by_contra hstop
      obtain ⟨hzero, hfit⟩ := not_or.mp hstop
      rw [if_neg hzero, Word.mul?_eq_some_iff.mpr ⟨rfl, Nat.not_lt.mp hfit⟩] at h
      cases h

end Radix

namespace Action

variable {name : String} {cardinalities : List Nat}

theorem exists_create_iff :
    (∃ action, create name cardinalities = .ok action) ↔
      ∃ total, Radix.size? cardinalities = some total := by
  unfold create
  split
  · rename_i total htotal
    exact iff_of_true ⟨_, rfl⟩ ⟨total, htotal⟩
  · rename_i hnone
    simp [hnone]

theorem create_eq_error_iff {cause : ModelError} :
    create name cardinalities = .error cause ↔
      Radix.size? cardinalities = none ∧ cause = .invalidCardinality name cardinalities := by
  unfold create
  split
  · rename_i total htotal
    simp [htotal]
  · rename_i hnone
    simp [hnone, eq_comm]

theorem create_eq_ok_iff {action : Action} :
    create name cardinalities = .ok action ↔
      action.name = name ∧ action.cardinalities = cardinalities := by
  constructor
  · intro h
    unfold create at h
    split at h
    · obtain rfl := Except.ok.inj h
      exact ⟨rfl, rfl⟩
    · simp at h
  · rintro ⟨rfl, rfl⟩
    exact action.create_eq_ok

theorem tableSize_of_create {action : Action} (h : create name cardinalities = .ok action) :
    action.tableSize = cardinalities.prod := by
  rw [← action.size_cardinalities, (create_eq_ok_iff.mp h).2, Radix.size_eq_prod]

/-- The exact product of the cardinalities decides whether they make an action, and it is the size
of the table. Whatever else is refused with its cardinalities as they were, at the one place where
the running product stops. In another order the cardinalities are accepted or refused alike and
make a table of the same size, although the running product may stop elsewhere. -/
theorem create_exact (name : String) (cardinalities : List Nat) :
    ((∃ action, create name cardinalities = .ok action) ↔
        0 < cardinalities.prod ∧ cardinalities.prod ≤ Word.top) ∧
      (∀ action, create name cardinalities = .ok action →
        action.name = name ∧ action.cardinalities = cardinalities ∧
          action.tableSize = cardinalities.prod) ∧
      (∀ cause, create name cardinalities = .error cause →
        cause = .invalidCardinality name cardinalities ∧
          ∃! place, Radix.StopsAt cardinalities place) ∧
      (∀ reordered, cardinalities.Perm reordered →
        ((∃ action, create name cardinalities = .ok action) ↔
            ∃ action, create name reordered = .ok action) ∧
          ∀ action action', create name cardinalities = .ok action →
            create name reordered = .ok action' → action.tableSize = action'.tableSize) ∧
      ∃ first second : List Nat, first.Perm second ∧
        ∃ place place', Radix.StopsAt first place ∧ Radix.StopsAt second place' ∧
          place ≠ place' := by
  have haccept (cardinalities : List Nat) :
      (∃ action, create name cardinalities = .ok action) ↔
        0 < cardinalities.prod ∧ cardinalities.prod ≤ Word.top := by
    rw [exists_create_iff]
    simp only [Radix.size?_eq_some_iff_prod, exists_eq_left']
  refine ⟨haccept cardinalities, fun action haction ↦ ?_, fun cause hcause ↦ ?_,
    fun reordered hperm ↦ ⟨?_, fun action action' haction haction' ↦ ?_⟩, ?_⟩
  · obtain ⟨hname, hcardinalities⟩ := create_eq_ok_iff.mp haction
    exact ⟨hname, hcardinalities, tableSize_of_create haction⟩
  · obtain ⟨hnone, rfl⟩ := create_eq_error_iff.mp hcause
    obtain ⟨place, hplace⟩ := Radix.exists_stopsAt hnone
    exact ⟨rfl, place, hplace, fun place' hplace' ↦ (hplace.le hplace').antisymm
      (hplace'.le hplace)⟩
  · rw [haccept, haccept, hperm.prod_eq]
  · rw [tableSize_of_create haction, tableSize_of_create haction', hperm.prod_eq]
  · exact ⟨[4294967296, 4294967296, 0], [0, 4294967296, 4294967296], by decide, 1, 0,
      ⟨4294967296, 4294967296, by decide, rfl, .inr (by decide)⟩, ⟨1, 0, rfl, rfl, .inl rfl⟩,
      by decide⟩

/-- A table whose size is the largest word, its cardinalities in either order. -/
theorem create_exact_sample :
    [4294967295, 4294967297].Perm [4294967297, 4294967295] ∧
      ((∃ action, create "access" [4294967295, 4294967297] = .ok action) ↔
        ∃ action, create "access" [4294967297, 4294967295] = .ok action) :=
  ⟨by decide, ((create_exact "access" [4294967295, 4294967297]).2.2.2.1 _ (by decide)).1⟩

end Action

end CountTree
