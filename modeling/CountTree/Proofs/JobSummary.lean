import CountTree.Proofs.JobRun
import CountTree.Proofs.SummaryCounts

/-!
The summary of a design that has run jobs. A job that succeeds makes five recordings of one each,
and none of them is refused, so that the cells of the design add up to five for each job in the log
(`Serving.cellSum_eq`). No row and no total of such a design is cut off: the summary is, row by row,
what the report of counts adds up to (`Summary.ofTree_eq_exactRows`).
-/

set_option autoImplicit false
set_option relaxedAutoImplicit false

namespace CountTree

open Component ProcessingElement CompletedJob

/-! ### Recordings that all succeed -/

/-- Recordings on counters that are there and can take all of it all succeed. -/
theorem runAll_fst_of_fits {root : Component} {recordings : List Recording}
    (h : Everywhere WellFormed root)
    (hcounters : ∀ recording ∈ recordings, root.HasCounter recording.address)
    (hfits : Fits root recordings) : (runAll recordings root).1 = recordings := by
  induction recordings generalizing root with
  | nil => rfl
  | cons recording recordings ih =>
    obtain ⟨count, htally⟩ := hasCounter_iff.mp (hcounters recording List.mem_cons_self)
    have hsucceeds : recording.succeeds root = true :=
      (Recording.succeeds_iff h).mpr ⟨count, htally, hfits.of_mem List.mem_cons_self htally⟩
    have hkept : ∀ other ∈ recordings, (recording.after root).HasCounter other.address := by
      intro other hother
      obtain ⟨initial, hinitial⟩ :=
        hasCounter_iff.mp (hcounters other (List.mem_cons_of_mem _ hother))
      exact hasCounter_iff.mpr ⟨_, by rw [hfits.tally_after h, hinitial, Option.map_some]⟩
    rw [runAll]
    dsimp only
    rw [if_pos hsucceeds, ih (Recording.wellFormed_after h) hkept (hfits.tail h)]

theorem CompletedJob.sum_delta_log (element : ProcessingElement) (log : List CompletedJob) :
    ((log.flatMap (recordings element)).map Recording.delta).sum = 5 * log.length := by
  induction log with
  | nil => rfl
  | cons done log ih =>
    have hdone : ((done.recordings element).map Recording.delta).sum = 5 := rfl
    rw [List.flatMap_cons, List.map_append, List.sum_append, hdone, ih, List.length_cons]
    omega

namespace Runner

variable {start runner : Runner} {log : List CompletedJob}

/-- The cells of a design hold five for each job of the log. -/
theorem Serving.cellSum_eq (hready : start.Ready) (h : Serving start log runner)
    (hlength : log.length < 2 ^ 63) : runner.design.cellSum = 5 * log.length := by
  have hstart := hready.fresh.reachable.wellFormed
  have hcounters : ∀ recording ∈ log.flatMap (recordings start.element),
      start.design.HasCounter recording.address := by
    intro recording hmem
    obtain ⟨done, -, hrecording⟩ := List.mem_flatMap.mp hmem
    exact hready.hasCounter done recording hrecording
  rw [h.design_eq, cellSum_runAll hstart, hready.fresh.unused.cellSum_eq_zero hstart,
    runAll_fst_of_fits hstart hcounters (hready.fits hlength), sum_delta_log, Nat.zero_add]

end Runner

/-! ### Rows that are not cut off -/

namespace Component

variable {root node : Component} {path : List String} {leaf : Leaf} {action : Action}

/-- What is reported of one action is part of what the tree holds. -/
theorem reported_le_cellSum (h : Everywhere WellFormed root) (hfind : root.find path = some node)
    (hleaf : node.leaf? = some leaf) (haction : action ∈ leaf.schema.actions) :
    root.reported path action.name ≤ root.cellSum := by
  obtain ⟨place, hplace⟩ := List.mem_iff_getElem?.mp haction
  obtain ⟨row, -, hrow, -⟩ := ((h.find hfind).here.counters_fit leaf hleaf).row hplace
  have hcells : leaf.counters.cells place = some row := hrow
  have hmem : row ∈ root.places.flatMap fun place ↦ place.2.rows := by
    refine List.mem_flatMap.mpr ⟨(path, node), (mem_places_iff h).mpr hfind, ?_⟩
    rw [rows, hleaf]
    exact List.mem_of_getElem? hrow
  rw [reported_eq h hfind hleaf hplace, hcells, Option.getD_some, cellSum, List.sum_flatten]
  exact List.single_le_sum (fun _ _ ↦ Nat.zero_le _) _ (List.mem_map_of_mem hmem)

end Component

namespace Summary

/-- The rows of a component, each with the sum of what the report of the tree has for its action. -/
def exactRows (root : Component) (place : List String × Component) : Summary :=
  match place.2.leaf? with
  | none => []
  | some leaf => leaf.schema.actions.map fun action ↦
    ⟨"/".intercalate (root.name :: place.1), leaf.classTag, action.name,
      root.reported place.1 action.name⟩

theorem ofTree_eq_exactRows {root : Component} (h : Everywhere WellFormed root)
    (hsum : root.cellSum ≤ Word.top) : ofTree root = root.places.flatMap (exactRows root) := by
  rw [ofTree_eq h]
  refine List.flatMap_congr fun place hplace ↦ ?_
  have hfind := (mem_places_iff h).mp hplace
  rw [reportedRows, exactRows]
  rcases hleaf : place.2.leaf? with _ | leaf
  · rfl
  · refine List.map_congr_left fun action haction ↦ ?_
    rw [Nat.min_eq_left ((reported_le_cellSum h hfind hleaf haction).trans hsum)]

end Summary

end CountTree
