import CountTree.Proofs.SummaryCounts

/-!
Looking up a row of the summary. A row is told by the name of its action and by the names that lead
to its leaf, joined with slashes. The lookup gives the first such row, and so the total of the first
leaf of that name (`Summary.count_eq_findSome?`). Names without a slash can be told apart again when
they are joined (`eq_of_joined_eq`), and then every leaf has rows of its own: `count_joined` is the
main statement. `count_of_joined_eq` is a tree where two leaves share their joined names.
-/

set_option autoImplicit false
set_option relaxedAutoImplicit false

namespace CountTree

open Component

/-! ### Joined names -/

namespace Component

/-- The names from the root along a path, joined with slashes. -/
def joined (root : Component) (path : List String) : String :=
  "/".intercalate (root.name :: path)

/-- No name below the root has a slash in it. -/
def NoSlashBelow (root : Component) : Prop :=
  ∀ child ∈ root.children, Everywhere (fun node ↦ '/' ∉ node.name.toList) child

/-- The total of an action of the component itself, if it has that action. -/
def total? (node : Component) (action : String) : Option Nat :=
  node.leaf?.bind fun leaf ↦
    (leaf.schema.position action).map fun found ↦ leaf.counters.total found.1

variable {root node : Component} {path path' : List String}

theorem NoSlashBelow.not_mem_path (h : root.NoSlashBelow) (hfind : root.find path = some node) :
    ∀ name ∈ path, '/' ∉ name.toList := by
  induction path generalizing root with
  | nil => exact fun name hname ↦ absurd hname List.not_mem_nil
  | cons name path ih =>
    rw [find_cons] at hfind
    obtain ⟨child, hchild, hfind⟩ := Option.bind_eq_some_iff.mp hfind
    have hbelow := h child (mem_children_of_child hchild)
    have hname : child.name = name := by simpa using List.find?_some hchild
    exact List.forall_mem_cons.mpr ⟨hname ▸ hbelow.here, ih (fun _ ↦ hbelow.of_mem) hfind⟩

/-- Joined names without a slash are those between the slashes. -/
theorem splitOn_joined (hpath : ∀ name ∈ path, '/' ∉ name.toList) (hne : path ≠ []) :
    ("/".intercalate path).toList.splitOn '/' = path.map String.toList := by
  have hslash : "/".toList = ['/'] := rfl
  rw [String.toList_intercalate, hslash]
  exact List.splitOn_intercalate '/' (by simpa using hpath) (by simpa using hne)

theorem joined_of_ne_nil (root : Component) (hne : path ≠ []) :
    root.joined path = root.name ++ "/" ++ "/".intercalate path :=
  String.intercalate_cons_of_ne_nil hne

theorem joined_ne_name (root : Component) (hne : path ≠ []) : root.joined path ≠ root.name := by
  intro heq
  rw [joined_of_ne_nil root hne] at heq
  have hlength := congrArg String.length heq
  have hslash : "/".length = 1 := rfl
  rw [String.length_append, String.length_append, hslash] at hlength
  omega

theorem eq_of_joined_eq (hpath : ∀ name ∈ path, '/' ∉ name.toList)
    (hpath' : ∀ name ∈ path', '/' ∉ name.toList) (heq : root.joined path = root.joined path') :
    path = path' := by
  by_cases hnil : path = []
  · by_cases hnil' : path' = []
    · rw [hnil, hnil']
    · subst hnil
      exact absurd heq.symm (joined_ne_name root hnil')
  · by_cases hnil' : path' = []
    · subst hnil'
      exact absurd heq (joined_ne_name root hnil)
    · rw [joined_of_ne_nil root hnil, joined_of_ne_nil root hnil', String.append_right_inj] at heq
      have hsplit : path.map String.toList = path'.map String.toList := by
        rw [← splitOn_joined hpath hnil, heq, splitOn_joined hpath' hnil']
      exact List.map_injective_iff.mpr (fun _ _ ↦ String.toList_inj.mp) hsplit

end Component

/-! ### The first row -/

namespace Summary

variable {root node : Component} {path : List String} {component action : String}

theorem find?_rowsFrom (name : String) (leaf : Leaf) (place : Nat) (actions : List Action)
    (component action : String) : ((rowsFrom name leaf place actions).find? fun row ↦
        row.component = component && row.action = action).map SummaryRow.count =
      if name = component then
        (Schema.positionFrom action place actions).map fun found ↦ leaf.counters.total found.1
      else none := by
  induction actions generalizing place with
  | nil => simp [rowsFrom, Schema.positionFrom]
  | cons declared actions ih =>
    rw [rowsFrom, Schema.positionFrom, List.find?_cons]
    by_cases hname : name = component
    · by_cases haction : declared.name = action
      · simp [hname, haction]
      · simpa [hname, haction] using ih (place + 1)
    · simpa [hname] using ih (place + 1)

theorem find?_ownRows (name : String) (node : Component) (component action : String) :
    ((ownRows name node.kind).find? fun row ↦
        row.component = component && row.action = action).map SummaryRow.count =
      if name = component then node.total? action else none := by
  rw [total?, leaf?]
  rcases node.kind with _ | leaf
  · simp [ownRows, Kind.leaf?]
  · rw [ownRows, find?_rowsFrom]
    rfl

/-- The lookup gives the total of the first component that goes by that name and has the action. -/
theorem count_eq_findSome? (root : Component) (component action : String) :
    (ofTree root).count component action = root.places.findSome? fun place ↦
      if root.joined place.1 = component then place.2.total? action else none := by
  rw [count, ofTree, below_eq, List.find?_flatMap, List.map_findSome?]
  congr 1
  funext place
  exact find?_ownRows _ _ _ _

variable {leaf : Leaf} {declared : Action} {place : Nat}

theorem total?_eq (hleaf : node.leaf? = some leaf)
    (hplace : leaf.schema.actions[place]? = some declared) :
    node.total? declared.name = some (leaf.counters.total place) := by
  rw [total?, hleaf, Option.bind_some, Schema.position_eq_some_iff.mpr ⟨hplace, rfl⟩]
  rfl

/-- An action is found on its own leaf if no other leaf with that action goes by the same name. -/
theorem count_joined_of_unshared (h : Everywhere WellFormed root)
    (hfind : root.find path = some node) (hleaf : node.leaf? = some leaf)
    (hplace : leaf.schema.actions[place]? = some declared)
    (hunshared : ∀ path' node', root.find path' = some node' →
      root.joined path' = root.joined path → (node'.total? declared.name).isSome → path' = path) :
    (ofTree root).count (root.joined path) declared.name = some (leaf.counters.total place) := by
  have hown : (if root.joined path = root.joined path then node.total? declared.name else none) =
      some (leaf.counters.total place) := by rw [if_pos rfl, total?_eq hleaf hplace]
  rw [count_eq_findSome?]
  rcases hfound : root.places.findSome? _ with _ | total
  · rw [List.findSome?_eq_none_iff] at hfound
    have hnone := hfound (path, node) ((mem_places_iff h).mpr hfind)
    rw [hown] at hnone
    cases hnone
  · obtain ⟨⟨path', node'⟩, hmem, hother⟩ := List.exists_of_findSome?_eq_some hfound
    have hfind' := (mem_places_iff h).mp hmem
    dsimp only at hother
    split at hother
    · rename_i hjoined
      obtain rfl := hunshared path' node' hfind' hjoined (by rw [hother]; rfl)
      obtain rfl := Option.some.inj (hfind'.symm.trans hfind)
      rw [← hother, total?_eq hleaf hplace]
    · cases hother

end Summary

/-- What the lookup of a row gives. It is always the total of the first component, in the order of
the report, that goes by these joined names and has the action; this is the leaf that was meant if
no other leaf with an action of that name goes by the same. When no name below the root has a slash
in it, no two components go by the same joined names, so that every action of every leaf is found
with its own total. -/
theorem count_joined {root : Component} (h : Reachable root) :
    (∀ component action, (Summary.ofTree root).count component action =
      root.places.findSome? fun place ↦
        if root.joined place.1 = component then place.2.total? action else none) ∧
    (∀ path node leaf place declared, root.find path = some node → node.leaf? = some leaf →
      leaf.schema.actions[place]? = some declared →
      (∀ path' node', root.find path' = some node' → root.joined path' = root.joined path →
        (node'.total? declared.name).isSome → path' = path) →
      (Summary.ofTree root).count (root.joined path) declared.name =
        some (leaf.counters.total place)) ∧
    (root.NoSlashBelow →
      (∀ path node path' node', root.find path = some node → root.find path' = some node' →
        root.joined path = root.joined path' → path = path') ∧
      ∀ path node leaf place declared, root.find path = some node → node.leaf? = some leaf →
        leaf.schema.actions[place]? = some declared →
        (Summary.ofTree root).count (root.joined path) declared.name =
          some (leaf.counters.total place)) := by
  have hroot := h.wellFormed
  refine ⟨Summary.count_eq_findSome? root, fun path node leaf place declared hfind hleaf hplace ↦
    Summary.count_joined_of_unshared hroot hfind hleaf hplace, fun hslash ↦ ?_⟩
  have hinjective : ∀ path node path' node', root.find path = some node →
      root.find path' = some node' → root.joined path = root.joined path' → path = path' :=
    fun path node path' node' hfind hfind' ↦
      eq_of_joined_eq (hslash.not_mem_path hfind) (hslash.not_mem_path hfind')
  refine ⟨hinjective, fun path node leaf place declared hfind hleaf hplace ↦ ?_⟩
  exact Summary.count_joined_of_unshared hroot hfind hleaf hplace fun path' node' hfind' hjoined _ ↦
    hinjective path' node' path node hfind' hfind hjoined

/-- Two leaves of one name, at different depths, that count the same action. -/
theorem count_joined_sample :
    let schema : Schema := ⟨[Action.simple "tick"], by decide⟩
    let leaf (count : Nat) : Component := ⟨"a", .leaf ⟨"MAC", .empty, schema, ⟨[[count]]⟩⟩, []⟩
    let tree (first second : Nat) : Component :=
      ⟨"top", .container, [leaf first, ⟨"b", .container, [leaf second]⟩]⟩
    Reachable (tree 3 4) ∧ (tree 3 4).NoSlashBelow ∧
      (Summary.ofTree (tree 3 4)).count "top/a" "tick" = some 3 ∧
      (Summary.ofTree (tree 3 4)).count "top/b/a" "tick" = some 4 := by
  intro schema leaf tree
  have hleaf : Fresh (leaf 0) :=
    .of_leaf (show Component.leaf "a" "MAC" .empty schema = _ from rfl)
  have hinner : Fresh ⟨"b", .container, [leaf 0]⟩ :=
    .of_children (by simpa using hleaf) (by decide) "b"
  have houter : Fresh (tree 0 0) := .of_children (by simpa using ⟨hleaf, hinner⟩) (by decide) "top"
  have hfirst : focus (record "tick" [] 3) ["a"] (tree 0 0) = some (.ok () (tree 3 0)) := rfl
  have hsecond : focus (record "tick" [] 4) ["b", "a"] (tree 3 0) =
      some (.ok () (tree 3 4)) := rfl
  have htree : Reachable (tree 3 4) := .record (.record houter.reachable hfirst) hsecond
  have hclear (count : Nat) : Everywhere (fun node ↦ '/' ∉ node.name.toList) (leaf count) :=
    .intro (show '/' ∉ "a".toList by decide) fun _ h ↦ absurd h List.not_mem_nil
  have hslash : (tree 3 4).NoSlashBelow := by
    refine List.forall_mem_cons.mpr ⟨hclear 3, List.forall_mem_singleton.mpr ?_⟩
    exact .intro (by decide) (List.forall_mem_singleton.mpr (hclear 4))
  have htotals := ((count_joined htree).2.2 hslash).2
  exact ⟨htree, hslash, htotals ["a"] _ _ 0 _ rfl rfl rfl, htotals ["b", "a"] _ _ 0 _ rfl rfl rfl⟩

/-- A leaf that has a slash in its name stands before the leaf whose joined names are the same. The
lookup gives its total for both. -/
theorem count_of_joined_eq :
    let schema : Schema := ⟨[Action.simple "tick"], by decide⟩
    let state (count : Nat) : Leaf := ⟨"MAC", .empty, schema, ⟨[[count]]⟩⟩
    let first : Component := ⟨"a/b", .leaf (state 0), []⟩
    let second : Component := ⟨"b", .leaf (state 1), []⟩
    let tree : Component := ⟨"top", .container, [first, ⟨"a", .container, [second]⟩]⟩
    Reachable tree ∧ tree.find ["a/b"] = some first ∧ tree.find ["a", "b"] = some second ∧
      tree.joined ["a/b"] = tree.joined ["a", "b"] ∧
      second.leaf? = some (state 1) ∧ schema.actions[0]? = some (Action.simple "tick") ∧
      (state 1).counters.total 0 = 1 ∧
      (Summary.ofTree tree).count (tree.joined ["a", "b"]) "tick" = some 0 := by
  intro schema state first second tree
  have hleaf (name : String) : Fresh ⟨name, .leaf (state 0), []⟩ :=
    .of_leaf (show Component.leaf name "MAC" .empty schema = _ from rfl)
  have hinner : Fresh ⟨"a", .container, [⟨"b", .leaf (state 0), []⟩]⟩ :=
    .of_children (by simpa using hleaf "b") (by decide) "a"
  have houter :
      Fresh ⟨"top", .container, [first, ⟨"a", .container, [⟨"b", .leaf (state 0), []⟩]⟩]⟩ :=
    .of_children (by simpa using ⟨hleaf "a/b", hinner⟩) (by decide) "top"
  have hrun : focus (count "tick" []) ["a", "b"]
      ⟨"top", .container, [first, ⟨"a", .container, [⟨"b", .leaf (state 0), []⟩]⟩]⟩ =
        some (.ok () tree) := rfl
  exact ⟨.record houter.reachable hrun, rfl, rfl, by decide, rfl, rfl, by decide, by decide⟩

end CountTree
