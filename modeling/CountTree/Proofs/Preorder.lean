import CountTree.Proofs.ReportPaths
import Mathlib.Data.List.Flatten

/-!
The components of a tree in the order in which they are met. `Component.places` lists a component
before what is below it, and a child with all that is below it before the next child;
`Document.keyPaths` lists the paths of keys of a document in the same way. The places of a
well-formed tree are what its paths find (`mem_places_iff`), each path once
(`nodup_places`), and the keys of the report of counts come in the order of the places
(`places_sublist_keyPaths`).
-/

set_option autoImplicit false
set_option relaxedAutoImplicit false

namespace CountTree

open Component

namespace Component

mutual

/-- The components of a tree and the paths that lead to them, a component before its children. -/
def places : Component → List (List String × Component)
  | ⟨name, kind, children⟩ => ([], ⟨name, kind, children⟩) :: placesBelow children

def placesBelow : List Component → List (List String × Component)
  | [] => []
  | child :: children =>
    child.places.map (Prod.map (child.name :: ·) id) ++ placesBelow children

end

theorem placesBelow_eq (children : List Component) :
    placesBelow children =
      children.flatMap fun child ↦ child.places.map (Prod.map (child.name :: ·) id) := by
  induction children with
  | nil => rfl
  | cons child children ih => rw [placesBelow, ih, List.flatMap_cons]

theorem places_eq (root : Component) :
    root.places = ([], root) ::
      root.children.flatMap fun child ↦ child.places.map (Prod.map (child.name :: ·) id) := by
  obtain ⟨name, kind, children⟩ := root
  rw [places, placesBelow_eq]

theorem map_fst_places (root : Component) :
    root.places.map Prod.fst = [] ::
      root.children.flatMap fun child ↦ (child.places.map Prod.fst).map (child.name :: ·) := by
  rw [places_eq, List.map_cons, List.map_flatMap]
  simp only [List.map_map]
  rfl

variable {root node : Component} {path : List String}

/-- A place is a path and what it finds. -/
theorem mem_places_iff (h : Everywhere WellFormed root) :
    (path, node) ∈ root.places ↔ root.find path = some node := by
  induction path generalizing root with
  | nil =>
    have hbelow : ([], node) ∉ root.children.flatMap fun child ↦
        child.places.map (Prod.map (child.name :: ·) id) := by
      intro hmem
      obtain ⟨child, -, hmem⟩ := List.mem_flatMap.mp hmem
      obtain ⟨place, -, heq⟩ := List.mem_map.mp hmem
      exact List.cons_ne_nil _ _ (congrArg Prod.fst heq)
    rw [places_eq, List.mem_cons, or_iff_left hbelow, find, Option.some.injEq, Prod.mk.injEq,
      eq_comm (a := node), and_iff_right rfl]
  | cons name path ih =>
    rw [places_eq, List.mem_cons, find_cons, Option.bind_eq_some_iff]
    constructor
    · rintro (heq | hmem)
      · exact absurd (congrArg Prod.fst heq) (List.cons_ne_nil _ _)
      · obtain ⟨child, hchild, hmem⟩ := List.mem_flatMap.mp hmem
        obtain ⟨⟨path', node'⟩, hplace, heq⟩ := List.mem_map.mp hmem
        simp only [Prod.map, id_eq, Prod.mk.injEq, List.cons.injEq] at heq
        obtain ⟨⟨rfl, rfl⟩, rfl⟩ := heq
        exact ⟨child, child_of_mem h.here.names_nodup hchild, (ih (h.of_mem hchild)).mp hplace⟩
    · rintro ⟨child, hchild, hfind⟩
      have hmem := mem_children_of_child hchild
      have hname : child.name = name := by simpa using List.find?_some hchild
      refine .inr (List.mem_flatMap.mpr ⟨child, hmem, List.mem_map.mpr ⟨(path, node), ?_, ?_⟩⟩)
      · exact (ih (h.of_mem hmem)).mpr hfind
      · rw [hname]
        rfl

end Component

/-- Paths below different keys are different. -/
theorem nodup_paths {α : Type} {key : α → String} {below : α → List (List String)}
    {entries : List α} (hkeys : (entries.map key).Nodup)
    (hbelow : ∀ entry ∈ entries, (below entry).Nodup) :
    ([] :: entries.flatMap fun entry ↦ (below entry).map (key entry :: ·)).Nodup := by
  rw [List.nodup_cons]
  constructor
  · intro hmem
    obtain ⟨entry, -, hmem⟩ := List.mem_flatMap.mp hmem
    obtain ⟨path, -, heq⟩ := List.mem_map.mp hmem
    exact List.cons_ne_nil _ _ heq
  · rw [List.nodup_flatMap]
    refine ⟨fun entry hentry ↦ (hbelow entry hentry).map (List.cons_injective), ?_⟩
    refine (List.pairwise_map.mp hkeys).imp fun hne ↦ List.disjoint_left.mpr ?_
    intro path hpath hpath'
    obtain ⟨rest, -, rfl⟩ := List.mem_map.mp hpath
    obtain ⟨rest', -, heq⟩ := List.mem_map.mp hpath'
    exact hne (List.cons.inj heq).1.symm

theorem Component.nodup_places {root : Component} (h : Everywhere WellFormed root) :
    (root.places.map Prod.fst).Nodup := by
  induction h with
  | intro here _ ih =>
    rw [map_fst_places]
    exact nodup_paths here.names_nodup ih

/-! ### The keys of a document -/

namespace Document

mutual

/-- The paths of keys that lead somewhere in a document, a key before what is below it. -/
def keyPaths : Document → List (List String)
  | mapping entries => [] :: keyPathsBelow entries
  | text _ => [[]]
  | number _ => [[]]
  | sequence _ => [[]]

def keyPathsBelow : List (String × Document) → List (List String)
  | [] => []
  | (key, content) :: entries => content.keyPaths.map (key :: ·) ++ keyPathsBelow entries

end

theorem keyPathsBelow_eq (entries : Mapping) :
    keyPathsBelow entries =
      entries.flatMap fun entry ↦ entry.2.keyPaths.map (entry.1 :: ·) := by
  induction entries with
  | nil => rfl
  | cons entry entries ih => rw [keyPathsBelow, ih, List.flatMap_cons]

theorem keyPaths_mapping (entries : Mapping) :
    (mapping entries).keyPaths =
      [] :: entries.flatMap fun entry ↦ entry.2.keyPaths.map (entry.1 :: ·) := by
  rw [keyPaths, keyPathsBelow_eq]

end Document

namespace Report

variable {root node : Component} {action : Action}

/-- Nothing below the key of an action has two keys of one name. -/
theorem nodup_keyPaths_shown (h : node.WellFormed) (haction : action ∈ node.actions)
    {field : Document} (hfield : node.shown action = some field) : field.keyPaths.Nodup := by
  have hshows := h.shows_shown haction
  rw [hfield] at hshows
  rcases hshows with _ | _
  · rw [Document.keyPaths_mapping]
    simp [Document.keyPaths]
  · rw [Document.keyPaths]
    exact List.nodup_singleton _

theorem nodup_keyPaths_entry (h : Everywhere WellFormed root) :
    (Document.mapping (countsEntry root)).keyPaths.Nodup := by
  induction h with
  | intro here _ ih =>
    rename_i node _
    rw [Document.keyPaths_mapping]
    refine nodup_paths here.accounted.keys_nodup fun entry hentry ↦ ?_
    rw [here.accounted.entry_eq, List.mem_append] at hentry
    rcases hentry with hown | hchild
    · obtain ⟨action, haction, hshown⟩ := List.mem_filterMap.mp hown
      obtain ⟨field, hfield, rfl⟩ := Option.map_eq_some_iff.mp hshown
      exact nodup_keyPaths_shown here haction hfield
    · obtain ⟨child, hmem, rfl⟩ := List.mem_map.mp hchild
      exact ih child hmem

/-- The report of counts nests the components in the order of their places. -/
theorem places_sublist_keyPaths_entry (h : Everywhere WellFormed root) :
    (root.places.map Prod.fst).Sublist (Document.mapping (countsEntry root)).keyPaths := by
  induction h with
  | intro here _ ih =>
    rename_i node _
    rw [Document.keyPaths_mapping, map_fst_places, here.accounted.entry_eq, List.flatMap_append]
    refine List.Sublist.cons_cons _ (.trans ?_ (List.sublist_append_right _ _))
    rw [childEntries, List.flatMap_map]
    exact List.Sublist.flatMap_right _ fun child hchild ↦ (ih child hchild).map _

/-! ### The whole report -/

theorem keyPaths_actionCounts (root : Component) :
    (Document.mapping (actionCounts root)).keyPaths =
      [] :: (Document.mapping (countsEntry root)).keyPaths.map (root.name :: ·) := by
  have hreport : actionCounts root = [(root.name, .mapping (countsEntry root))] := rfl
  rw [hreport, Document.keyPaths_mapping, List.flatMap_singleton]

theorem nodup_keyPaths (h : Everywhere WellFormed root) :
    (Document.mapping (actionCounts root)).keyPaths.Nodup := by
  rw [keyPaths_actionCounts]
  refine List.nodup_cons.mpr ⟨fun hmem ↦ ?_, (nodup_keyPaths_entry h).map List.cons_injective⟩
  obtain ⟨path, -, heq⟩ := List.mem_map.mp hmem
  exact List.cons_ne_nil _ _ heq

theorem places_sublist_keyPaths (h : Everywhere WellFormed root) :
    (root.places.map fun place ↦ root.name :: place.1).Sublist
      (Document.mapping (actionCounts root)).keyPaths := by
  have hbelow := (places_sublist_keyPaths_entry h).map (root.name :: ·)
  rw [List.map_map] at hbelow
  rw [keyPaths_actionCounts]
  exact hbelow.cons _

end Report

end CountTree
