import CountTree.Proofs.Preorder
import CountTree.Proofs.Tally
import CountTree.Proofs.Unused
import CountTree.Summary
import Mathlib.Algebra.BigOperators.Group.List.Basic

/-!
What the summary says of a tree. The summary adds up the cells of the tree and stops at the largest
word, in each row and again over the rows; the report of counts lists the cells that are not zero.
Stopping early loses nothing (`Word.min_sum_map_min`), so that a row is the exact sum of what the
report has for its action, cut off once, and the total is the exact sum of all cells, cut off once.
That sum grows by the amounts that were recorded (`cellSum_runAll`). `summary_exact` is the main
statement.
-/

set_option autoImplicit false
set_option relaxedAutoImplicit false

namespace CountTree

open Component

/-! ### Sums that stop at the largest word -/

namespace Word

theorem foldl_addSaturating {start : Nat} (h : start ≤ top) (counts : List Nat) :
    counts.foldl addSaturating start = min (start + counts.sum) top := by
  induction counts generalizing start with
  | nil => exact (Nat.min_eq_left h).symm
  | cons count counts ih =>
    have hnext : addSaturating start count ≤ top := Nat.min_le_right _ _
    rw [List.foldl_cons, ih hnext, List.sum_cons, addSaturating]
    omega

/-- Terms that were cut off add up to the same, once the sum is cut off. -/
theorem min_sum_map_min {α : Type} (f : α → Nat) (terms : List α) :
    min (terms.map fun term ↦ min (f term) top).sum top = min (terms.map f).sum top := by
  induction terms with
  | nil => rfl
  | cons term terms ih =>
    rw [List.map_cons, List.map_cons, List.sum_cons, List.sum_cons]
    omega

end Word

theorem Counters.total_eq (counters : Counters) (place : Nat) :
    counters.total place = min ((counters.cells place).getD []).sum Word.top := by
  rw [total, Word.foldl_addSaturating (Nat.zero_le _), Nat.zero_add]

theorem sum_map_filter_zipIdx (row : List Nat) (start : Nat) :
    (((row.zipIdx start).filter (·.1 ≠ 0)).map Prod.fst).sum = row.sum := by
  induction row generalizing start with
  | nil => rfl
  | cons count row ih =>
    by_cases hzero : count = 0
    · simpa [hzero] using ih (start + 1)
    · simpa [hzero] using ih (start + 1)

/-- A row is the sum of its nonzero cells. -/
theorem Counters.sum_nonzero (counters : Counters) (place : Nat) :
    ((counters.nonzero place).map Prod.snd).sum = ((counters.cells place).getD []).sum := by
  rw [nonzero, List.map_map]
  exact sum_map_filter_zipIdx _ 0

/-! ### Counts in the report -/

namespace Document

/-- The number under the key of a count; zero when there is none. -/
def countIn : Document → Nat
  | mapping entries =>
    match Keyed.get? entries Report.countKey with
    | some (number n) => n
    | _ => 0
  | _ => 0

/-- The sum of the counts in the field of an action, which has one count or a list of them. -/
def countsIn : Document → Nat
  | sequence items => (items.map countIn).sum
  | document => document.countIn

end Document

namespace Component

/-- The exact sum of the counts that the report of a tree has for an action of the component at a
path; zero where the action is absent. -/
def reported (root : Component) (path : List String) (action : String) : Nat :=
  ((Document.mapping (Report.actionCounts root)).follow? (root.name :: (path ++ [action]))).elim 0
    Document.countsIn

variable {root node : Component} {path : List String} {leaf : Leaf} {action : Action}
  {place : Nat}

/-- The field of an action has all of its row. -/
theorem countsIn_shown (h : node.WellFormed) (hleaf : node.leaf? = some leaf)
    (hplace : leaf.schema.actions[place]? = some action) :
    (node.shown action).elim 0 Document.countsIn =
      ((leaf.counters.cells place).getD []).sum := by
  rw [shown_eq hleaf hplace, Report.actionField]
  by_cases harity : action.arity = 0
  · obtain ⟨row, -, hrow, hlength⟩ := (h.counters_fit leaf hleaf).row hplace
    have hsize : action.tableSize = 1 := by
      rw [(h.tableSize_eq leaf hleaf action (List.mem_of_getElem? hplace)).2,
        List.length_eq_zero_iff.mp harity, List.prod_nil]
    obtain ⟨count, rfl⟩ := List.length_eq_one_iff.mp (hlength.trans hsize)
    have hcells : leaf.counters.cells place = some [count] := hrow
    have hget : leaf.counters.get place 0 = some count := by
      rw [Counters.get, hcells]
      rfl
    rw [if_pos harity, hget, hcells]
    simp [Document.countsIn, Document.countIn, Keyed.get?, Keyed.insert]
  · have hobservation (cell : Nat × Nat) : (Report.observation action cell).countIn = cell.2 := rfl
    rw [if_neg harity, ← Counters.sum_nonzero]
    rcases leaf.counters.nonzero place with _ | ⟨cell, cells⟩
    · rfl
    · simp only [Option.elim, Document.countsIn, List.map_map, Function.comp_def, hobservation]

theorem reported_eq (h : Everywhere WellFormed root) (hfind : root.find path = some node)
    (hleaf : node.leaf? = some leaf) (hplace : leaf.schema.actions[place]? = some action) :
    root.reported path action.name = ((leaf.counters.cells place).getD []).sum := by
  have hnode := (h.find hfind).here
  have haction : action ∈ node.actions :=
    mem_actions_iff.mpr ⟨leaf, hleaf, List.mem_of_getElem? hplace⟩
  have hfollow : (Document.mapping (Report.actionCounts root)).follow?
      (root.name :: (path ++ [action.name])) = node.shown action := by
    have hget : Keyed.get? (Report.entry .actionCounts node) action.name = node.shown action :=
      hnode.get?_action haction
    have hentry : (Document.mapping (Report.entry .actionCounts node)).follow? [action.name] =
        node.shown action := by
      rw [Document.follow?_cons, hget]
      exact Option.bind_fun_some _
    refine (Report.follow?_ofKind .actionCounts root _).trans ?_
    rw [Document.follow?_append, Report.follow?_entry h hfind, Option.bind_some, hentry]
  rw [reported, hfollow, countsIn_shown hnode hleaf hplace]

end Component

/-! ### Rows -/

namespace Summary

/-- The rows of a component, with what the report of the tree has for each of its actions. -/
def reportedRows (root : Component) (place : List String × Component) : Summary :=
  match place.2.leaf? with
  | none => []
  | some leaf => leaf.schema.actions.map fun action ↦
    ⟨"/".intercalate (root.name :: place.1), leaf.classTag, action.name,
      min (root.reported place.1 action.name) Word.top⟩

theorem intercalate_eq (name : String) (path : List String) :
    "/".intercalate (name :: path) = path.foldl (fun parent name ↦ parent ++ "/" ++ name) name := by
  induction path generalizing name with
  | nil => rfl
  | cons next path ih => exact ih (name ++ "/" ++ next)

theorem belowAll_eq (parent : String) (children : List Component) :
    belowAll parent children =
      children.flatMap fun child ↦ below (parent ++ "/" ++ child.name) child := by
  induction children with
  | nil => rfl
  | cons child children ih => rw [belowAll, ih, List.flatMap_cons]

/-- The rows come in the order of the places. -/
theorem below_eq (component : String) (node : Component) :
    below component node = node.places.flatMap fun place ↦
      ownRows ("/".intercalate (component :: place.1)) place.2.kind := by
  induction node using Component.induction generalizing component with
  | node name kind children ih =>
    rw [below, places_eq, List.flatMap_cons, belowAll_eq, List.flatMap_assoc]
    refine congrArg (ownRows component kind ++ ·) (List.flatMap_congr fun child hchild ↦ ?_)
    rw [ih child hchild, List.flatMap_map]
    simp only [intercalate_eq]
    rfl

theorem rowsFrom_eq (component : String) (leaf : Leaf) (place : Nat) (actions : List Action) :
    rowsFrom component leaf place actions = (actions.zipIdx place).map fun indexed ↦
      ⟨component, leaf.classTag, indexed.1.name, leaf.counters.total indexed.2⟩ := by
  induction actions generalizing place with
  | nil => rfl
  | cons action actions ih => rw [rowsFrom, ih, List.zipIdx_cons, List.map_cons]

theorem ownRows_eq {root : Component} (h : Everywhere WellFormed root)
    {place : List String × Component} (hplace : place ∈ root.places) :
    ownRows ("/".intercalate (root.name :: place.1)) place.2.kind = reportedRows root place := by
  obtain ⟨path, node⟩ := place
  have hfind := (mem_places_iff h).mp hplace
  rw [reportedRows]
  rcases hleaf : node.leaf? with _ | leaf
  · rcases hkind : node.kind with _ | leaf
    · rfl
    · rw [leaf?_eq_some_iff.mpr hkind] at hleaf
      cases hleaf
  · have hactions : leaf.schema.actions = leaf.schema.actions.zipIdx.map Prod.fst :=
      (List.zipIdx_map_fst 0 _).symm
    dsimp only
    rw [leaf?_eq_some_iff.mp hleaf, ownRows, rowsFrom_eq]
    conv_rhs => rw [hactions, List.map_map]
    refine List.map_congr_left fun indexed hindexed ↦ ?_
    rw [Function.comp_apply, Counters.total_eq,
      reported_eq h hfind hleaf (List.mk_mem_zipIdx_iff_getElem?.mp hindexed)]

theorem ofTree_eq {root : Component} (h : Everywhere WellFormed root) :
    ofTree root = root.places.flatMap (reportedRows root) := by
  rw [ofTree, below_eq]
  exact List.flatMap_congr fun place ↦ ownRows_eq h

theorem total_eq (summary : Summary) :
    summary.total = min (summary.map SummaryRow.count).sum Word.top := by
  rw [total, ← List.foldl_map, Word.foldl_addSaturating (Nat.zero_le _), Nat.zero_add]

end Summary

/-! ### All cells of a tree -/

namespace Component

/-- The rows of counters of a leaf; a container has none. -/
def rows (node : Component) : List (List Nat) :=
  match node.leaf? with
  | none => []
  | some leaf => leaf.counters.rows

/-- The exact sum of all cells of all leaves. -/
def cellSum (root : Component) : Nat := (root.places.flatMap fun place ↦ place.2.rows).flatten.sum

variable {root node : Component} {path : List String}

theorem cellSum_eq (root : Component) :
    root.cellSum = root.rows.flatten.sum + (root.children.map cellSum).sum := by
  have hbelow (children : List Component) :
      ((children.flatMap fun child ↦ child.places.map (Prod.map (child.name :: ·) id)).flatMap
        fun place ↦ place.2.rows).flatten.sum = (children.map cellSum).sum := by
    induction children with
    | nil => rfl
    | cons child children ih =>
      rw [List.flatMap_cons, List.flatMap_append, List.flatten_append, List.sum_append, ih,
        List.flatMap_map, List.map_cons, List.sum_cons]
      rfl
  rw [cellSum, places_eq, List.flatMap_cons, List.flatten_append, List.sum_append, hbelow]

/-- The counts of a component's rows, one for each action. -/
theorem map_count_ownRows (h : node.WellFormed) (component : String) :
    (Summary.ownRows component node.kind).map SummaryRow.count =
      node.rows.map fun row ↦ min row.sum Word.top := by
  rw [rows]
  rcases hkind : node.kind with _ | leaf
  · rw [leaf?, hkind]
    rfl
  · have hleaf : node.leaf? = some leaf := leaf?_eq_some_iff.mpr hkind
    have hfit := h.counters_fit leaf hleaf
    rw [hleaf, Summary.ownRows, Summary.rowsFrom_eq, List.map_map]
    refine List.ext_getElem? fun place ↦ ?_
    rw [List.getElem?_map, List.getElem?_map, List.getElem?_zipIdx]
    rcases haction : leaf.schema.actions[place]? with _ | action
    · rw [hfit.row_none haction]
      rfl
    · obtain ⟨row, -, hrow, -⟩ := hfit.row haction
      have hcells : leaf.counters.cells place = some row := hrow
      rw [hrow, Option.map_some, Option.map_some, Option.map_some, Function.comp_apply,
        Nat.zero_add, Counters.total_eq, hcells, Option.getD_some]

theorem total_ofTree (h : Everywhere WellFormed root) :
    (Summary.ofTree root).total = min root.cellSum Word.top := by
  have hcounts : (Summary.ofTree root).map SummaryRow.count =
      (root.places.flatMap fun place ↦ place.2.rows).map fun row ↦ min row.sum Word.top := by
    rw [Summary.ofTree, Summary.below_eq, List.map_flatMap, List.map_flatMap]
    refine List.flatMap_congr fun place hplace ↦ map_count_ownRows ?_ _
    exact (h.find ((mem_places_iff h).mp hplace)).here
  rw [Summary.total_eq, hcounts, Word.min_sum_map_min, cellSum, List.sum_flatten]

/-! ### What a recording adds -/

theorem sum_map_modify {α : Type} (measure : α → Nat) (change : α → α) {items : List α}
    {index delta : Nat} {item : α} (hitem : items[index]? = some item)
    (hchange : measure (change item) = measure item + delta) :
    ((items.modify index change).map measure).sum = (items.map measure).sum + delta := by
  induction items generalizing index with
  | nil => simp at hitem
  | cons first items ih =>
    rcases index with _ | index
    · obtain rfl := Option.some.inj hitem
      rw [List.modify_zero_cons, List.map_cons, List.sum_cons, hchange, List.map_cons,
        List.sum_cons]
      omega
    · rw [List.modify_succ_cons, List.map_cons, List.sum_cons, ih hitem, List.map_cons,
        List.sum_cons, Nat.add_assoc]

theorem sum_rows_set {counters : Counters} {place index count : Nat} (delta : Nat)
    (hget : counters.get place index = some count) :
    (counters.set place index (count + delta)).rows.flatten.sum =
      counters.rows.flatten.sum + delta := by
  obtain ⟨row, hrow, hcell⟩ := Option.bind_eq_some_iff.mp hget
  have hset : (row.set index (count + delta)).sum = row.sum + delta := by
    rw [List.set_eq_modify]
    simpa using sum_map_modify id (fun _ ↦ count + delta) hcell rfl
  rw [List.sum_flatten, List.sum_flatten]
  exact sum_map_modify List.sum _ hrow hset

theorem sum_map_adjustFirst {change : Component → Component} (measure : Component → Nat)
    {name : String} {nodes : List Component} {child : Component} {delta : Nat}
    (hchild : nodes.find? (·.name = name) = some child)
    (hchange : measure (change child) = measure child + delta) :
    ((adjustFirst name change nodes).map measure).sum = (nodes.map measure).sum + delta := by
  induction nodes with
  | nil => simp at hchild
  | cons first nodes ih =>
    by_cases hfirst : first.name = name
    · rw [List.find?_cons_of_pos (by simpa using hfirst)] at hchild
      obtain rfl := Option.some.inj hchild
      rw [adjustFirst, if_pos hfirst, List.map_cons, List.sum_cons, hchange, List.map_cons,
        List.sum_cons]
      omega
    · rw [List.find?_cons_of_neg (by simpa using hfirst)] at hchild
      rw [adjustFirst, if_neg hfirst, List.map_cons, List.sum_cons, ih hchild, List.map_cons,
        List.sum_cons, Nat.add_assoc]

/-- What a change adds to the cells of one component it adds to the cells of the tree. -/
theorem cellSum_adjust {change : Component → Component} {delta : Nat}
    (hfind : root.find path = some node) (hchildren : (change node).children = node.children)
    (hrows : (change node).rows.flatten.sum = node.rows.flatten.sum + delta) :
    (root.adjust change path).cellSum = root.cellSum + delta := by
  induction path generalizing root with
  | nil =>
    obtain rfl := Option.some.inj hfind
    rw [adjust_nil, cellSum_eq, hchildren, hrows, cellSum_eq root]
    omega
  | cons name path ih =>
    rw [find_cons] at hfind
    obtain ⟨child, hchild, hfind⟩ := Option.bind_eq_some_iff.mp hfind
    have hown : (root.adjust change (name :: path)).rows = root.rows := rfl
    have hbelow := sum_map_adjustFirst cellSum hchild (ih hfind)
    rw [cellSum_eq, hown, adjust_cons, hbelow, cellSum_eq root, Nat.add_assoc]

end Component

namespace Recording

variable {recording : Recording} {root : Component}

/-- A recording that succeeds adds its amount to the cells of the tree; any other adds nothing. -/
theorem cellSum_after (h : Everywhere WellFormed root) :
    (recording.after root).cellSum =
      root.cellSum + if recording.succeeds root then recording.delta else 0 := by
  by_cases haccepts : Tally.Accepts root.tally recording
  · obtain ⟨count, htally, hfit⟩ := id haccepts
    obtain ⟨node, hnode, hvalue⟩ := tally_eq_some_iff.mp htally
    obtain ⟨cell, hcell, hget⟩ := (counterValue_eq_ok_iff (h.find hnode).here).mp hvalue
    have hstep := record_of_cell_of_le hcell hget hfit
    have hrows : (Component.after recording.step node).rows.flatten.sum =
        node.rows.flatten.sum + recording.delta := by
      have hold : node.rows = cell.leaf.counters.rows := by
        rw [rows, (cell_eq_ok_iff.mp hcell).1]
      rw [hold, Component.after, step, hstep]
      exact sum_rows_set recording.delta hget
    rw [if_pos ((succeeds_iff h).mpr haccepts), after_eq_adjust]
    exact cellSum_adjust hnode (children_after_record _ _ _ _) hrows
  · have hrefused : ¬ recording.succeeds root = true := fun hsucceeds ↦
      haccepts ((succeeds_iff h).mp hsucceeds)
    rw [if_neg hrefused, after_of_not_accepts h haccepts, Nat.add_zero]

end Recording

namespace Component

variable {root : Component}

/-- After a run, the cells of a tree have grown by the amounts of what succeeded. -/
theorem cellSum_runAll (h : Everywhere WellFormed root) (recordings : List Recording) :
    (runAll recordings root).2.cellSum =
      root.cellSum + ((runAll recordings root).1.map Recording.delta).sum := by
  induction recordings generalizing root with
  | nil => rfl
  | cons recording recordings ih =>
    rw [runAll]
    dsimp only
    rw [ih (Recording.wellFormed_after h), Recording.cellSum_after h]
    by_cases hsucceeds : recording.succeeds root = true
    · rw [if_pos hsucceeds, if_pos hsucceeds, List.map_cons, List.sum_cons, Nat.add_assoc]
    · rw [if_neg hsucceeds, if_neg hsucceeds, Nat.add_zero]

theorem Unused.cellSum_eq_zero (hunused : root.Unused) (h : Everywhere WellFormed root) :
    root.cellSum = 0 := by
  refine List.sum_eq_zero fun count hcount ↦ ?_
  obtain ⟨row, hrow, hcount⟩ := List.mem_flatten.mp hcount
  obtain ⟨⟨path, node⟩, hmem, hrow⟩ := List.mem_flatMap.mp hrow
  have hfind := (mem_places_iff h).mp hmem
  have hnode := (h.find hfind).here
  rw [rows] at hrow
  rcases hleaf : node.leaf? with _ | leaf
  · simp [hleaf] at hrow
  · simp only [hleaf] at hrow
    obtain ⟨place, hplace⟩ := List.mem_iff_getElem?.mp hrow
    obtain ⟨index, hindex⟩ := List.mem_iff_getElem?.mp hcount
    have hget : leaf.counters.get place index = some count := by
      rw [Counters.get, Counters.cells, hplace, Option.bind_some, hindex]
    have hfit := hnode.counters_fit leaf hleaf
    rcases haction : leaf.schema.actions[place]? with _ | action
    · rw [hfit.row_none haction] at hplace
      cases hplace
    · have hcell := cell_digits hleaf haction (hfit.lt_of_get haction hget)
      exact hunused ⟨path, action.name, _⟩ count (tally_eq_some_iff.mpr ⟨node, hfind,
        (counterValue_eq_ok_iff hnode).mpr ⟨_, hcell, hget⟩⟩)

end Component

/-- The summary agrees with the report of counts, and both with what has been recorded. The places
of a tree are what its paths find, each path once, and the report nests them in their order. The
summary has a row for each action of each leaf in that order, with the sum of what the report shows
for it; the total is the sum of all cells. On a tree that starts from zero the total is the sum of
the amounts that were recorded with success. Each of these numbers is exact, and cut off once at
the largest word. -/
theorem summary_exact {root : Component} (h : Reachable root) :
    (∀ path node, (path, node) ∈ root.places ↔ root.find path = some node) ∧
      (root.places.map Prod.fst).Nodup ∧
      (root.places.map fun place ↦ root.name :: place.1).Sublist
        (Document.mapping (Report.actionCounts root)).keyPaths ∧
      (Document.mapping (Report.actionCounts root)).keyPaths.Nodup ∧
      Summary.ofTree root = root.places.flatMap (Summary.reportedRows root) ∧
      (Summary.ofTree root).total = min root.cellSum Word.top ∧
      (root.Unused → ∀ recordings, (Summary.ofTree (runAll recordings root).2).total =
        min ((runAll recordings root).1.map Recording.delta).sum Word.top) := by
  have hroot := h.wellFormed
  refine ⟨fun _ _ ↦ mem_places_iff hroot, nodup_places hroot, ?_, ?_, Summary.ofTree_eq hroot,
    total_ofTree hroot, fun hunused recordings ↦ ?_⟩
  · exact Report.places_sublist_keyPaths hroot
  · exact Report.nodup_keyPaths hroot
  · rw [total_ofTree (wellFormed_runAll hroot recordings), cellSum_runAll hroot,
      hunused.cellSum_eq_zero hroot, Nat.zero_add]

/-- A run that fills one cell of an action and adds to another one: the sum of the row passes the
largest word, and so does the total, each of which is cut off once. -/
theorem summary_exact_sample :
    let tree := Sample.tree [0, 0, 0, 0, 0, 0] [0]
    let recordings : List Recording := [⟨⟨["spad"], "access", [1, 2]⟩, Word.top⟩,
      ⟨⟨["spad"], "access", [1, 2]⟩, 1⟩, ⟨⟨["spad"], "access", [0, 0]⟩, 3⟩,
      ⟨⟨["spad"], "tick", []⟩, 5⟩]
    let counted := Sample.tree [3, 0, 0, 0, 0, Word.top] [5]
    Reachable tree ∧ tree.Unused ∧ (runAll recordings tree).2 = counted ∧
      ((runAll recordings tree).1.map Recording.delta).sum = Word.top + 8 ∧
      (Summary.ofTree counted).total = Word.top ∧ Reachable counted ∧
      counted.reported ["spad"] "access" = Word.top + 3 ∧
      Summary.ofTree counted =
        [⟨"top/spad", "SRAM", "access", Word.top⟩, ⟨"top/spad", "SRAM", "tick", 5⟩] := by
  intro tree recordings counted
  have hfresh : Fresh tree := .of_children (by
    simpa using Fresh.of_leaf (show Component.leaf "spad" "SRAM" Attributes.empty Sample.schema =
      .ok (Sample.leaf [0, 0, 0, 0, 0, 0] [0]) by decide)) (by decide) "top"
  have hrun : (runAll recordings tree).2 = counted := by decide
  have hcounted : Reachable counted := hrun ▸ reachable_runAll hfresh.reachable recordings
  have htotal := (summary_exact hfresh.reachable).2.2.2.2.2.2 hfresh.unused recordings
  rw [hrun] at htotal
  refine ⟨hfresh.reachable, hfresh.unused, hrun, by decide, htotal.trans (by decide), hcounted,
    by decide, ?_⟩
  rw [(summary_exact hcounted).2.2.2.2.1]
  decide

end CountTree
