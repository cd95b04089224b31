import CountTree.Proofs.ArchitectureReport
import CountTree.Proofs.CountReport

/-!
Reports at paths. Both reports give a component its own fields and then a key for each child
(`Report.entry_eq`), so that the names along a path of the tree are keys along a path of the report
and lead to the entry of the component (`Report.follow?_entry`). A change of the component at a path
changes the report there and nowhere else: `Document.replace` puts a new value at the end of a path
of keys (`Report.entry_adjust`). `reports_compositional` is the main statement. It says what this
comes to when a component records and when it gets a child.
-/

set_option autoImplicit false
set_option relaxedAutoImplicit false

namespace CountTree

open Component

namespace Keyed

variable {α : Type}

/-- Changes what stands under a key, if there is something. -/
def change (key : String) (f : α → α) : Keyed α → Keyed α
  | [] => []
  | entry :: entries =>
    if entry.1 = key then (key, f entry.2) :: entries else entry :: change key f entries

variable {key other : String} {f : α → α}

theorem get?_change_self (entries : Keyed α) :
    get? (change key f entries) key = (get? entries key).map f := by
  induction entries with
  | nil => rfl
  | cons entry entries ih =>
    by_cases h : entry.1 = key
    · simp [change, get?, h]
    · rw [change, if_neg h]
      simpa [get?, h] using ih

theorem get?_change_of_ne (h : other ≠ key) (entries : Keyed α) :
    get? (change key f entries) other = get? entries other := by
  induction entries with
  | nil => rfl
  | cons entry entries ih =>
    by_cases hentry : entry.1 = key
    · simp [change, get?, hentry, Ne.symm h]
    · rw [change, if_neg hentry]
      by_cases hother : entry.1 = other
      · simp [get?, hother]
      · simpa [get?, hother] using ih

/-- A key that does not stand among the first entries is changed among the others. -/
theorem change_append {first : Keyed α} (h : key ∉ keys first) (second : Keyed α) :
    change key f (first ++ second) = first ++ change key f second := by
  induction first with
  | nil => rfl
  | cons entry first ih =>
    rw [keys, List.map_cons, List.mem_cons, not_or] at h
    rw [List.cons_append, change, if_neg (Ne.symm h.1), ih h.2, List.cons_append]

end Keyed

namespace Document

/-- Puts a document at the end of a path of keys, in place of the one that is there. -/
def replace : Document → List String → Document → Document
  | _, [], new => new
  | mapping entries, key :: path, new => mapping (Keyed.change key (·.replace path new) entries)
  | document, _ :: _, _ => document

theorem follow?_cons (entries : Mapping) (key : String) (path : List String) :
    follow? (mapping entries) (key :: path) = (Keyed.get? entries key).bind (·.follow? path) := rfl

/-- What a path leads to is found again under any keys that lead from there. -/
theorem follow?_append (document : Document) (path rest : List String) :
    document.follow? (path ++ rest) = (document.follow? path).bind (·.follow? rest) := by
  induction path generalizing document with
  | nil => rfl
  | cons key path ih =>
    cases document with
    | mapping entries =>
      rw [List.cons_append, follow?_cons, follow?_cons, Option.bind_assoc]
      exact Option.bind_congr fun value _ ↦ ih value
    | text content => rfl
    | number n => rfl
    | sequence items => rfl

theorem follow?_replace_self {document : Document} {path : List String}
    (h : (document.follow? path).isSome) (new : Document) :
    (document.replace path new).follow? path = some new := by
  induction path generalizing document with
  | nil => rfl
  | cons key path ih =>
    cases document with
    | mapping entries =>
      rw [follow?_cons] at h
      obtain ⟨value, hvalue⟩ := Option.isSome_iff_exists.mp (Option.isSome_of_isSome_bind h)
      rw [hvalue, Option.bind_some] at h
      rw [replace, follow?_cons, Keyed.get?_change_self, hvalue, Option.map_some, Option.bind_some,
        ih h]
    | text content => exact absurd h Bool.false_ne_true
    | number n => exact absurd h Bool.false_ne_true
    | sequence items => exact absurd h Bool.false_ne_true

/-- Keys that lead neither into the new document nor towards it lead where they led before. -/
theorem follow?_replace_of_not_prefix (document new : Document) {path other : List String}
    (h : ¬ path <+: other) (h' : ¬ other <+: path) :
    (document.replace path new).follow? other = document.follow? other := by
  induction path generalizing document other with
  | nil => exact absurd List.nil_prefix h
  | cons key path ih =>
    rcases other with _ | ⟨key', other⟩
    · exact absurd List.nil_prefix h'
    · cases document with
      | mapping entries =>
        rw [replace, follow?_cons, follow?_cons]
        by_cases hkey : key' = key
        · subst hkey
          have hrest (document : Document) :
              (document.replace path new).follow? other = document.follow? other :=
            ih document (fun hprefix ↦ h (List.cons_prefix_cons.mpr ⟨rfl, hprefix⟩))
              fun hprefix ↦ h' (List.cons_prefix_cons.mpr ⟨rfl, hprefix⟩)
          rw [Keyed.get?_change_self, Option.bind_map]
          exact Option.bind_congr fun value _ ↦ hrest value
        · rw [Keyed.get?_change_of_ne hkey]
      | text content => rfl
      | number n => rfl
      | sequence items => rfl

/-- A path of keys leads to a new value, and apart from that nothing has changed. -/
structure Replaced (old : Document) (path : List String) (value new : Document) : Prop where
  eq_replace : new = old.replace path value
  there : new.follow? path = some value
  elsewhere : ∀ keys, ¬ path <+: keys → ¬ keys <+: path → new.follow? keys = old.follow? keys

theorem Replaced.of_eq {old new value : Document} {path : List String}
    (h : (old.follow? path).isSome) (hnew : new = old.replace path value) :
    Replaced old path value new where
  eq_replace := hnew
  there := by rw [hnew, follow?_replace_self h]
  elsewhere _ hinto htowards := by rw [hnew, follow?_replace_of_not_prefix old value hinto htowards]

end Document

namespace Report

/-! ### The entries of both reports -/

/-- The entry of a component in a report. -/
def entry : ReportKind → Component → Mapping
  | .architecture => architectureEntry
  | .actionCounts => countsEntry

/-- What the entry of a component has before its children. -/
def ownFields : ReportKind → Component → Mapping
  | .architecture => ownEntries
  | .actionCounts => actionEntries

def childEntry (kind : ReportKind) (child : Component) : String × Document :=
  (child.name, .mapping (entry kind child))

variable {kind : ReportKind} {root node child : Component} {path : List String}

theorem ofKind_eq (kind : ReportKind) (root : Component) :
    ofKind kind root = [childEntry kind root] := by
  cases kind <;> rfl

theorem keys_childEntry (kind : ReportKind) (children : List Component) :
    Keyed.keys (children.map (childEntry kind)) = children.map Component.name := by
  rw [Keyed.keys, List.map_map]
  rfl

theorem entry_eq (h : node.WellFormed) (kind : ReportKind) :
    entry kind node = ownFields kind node ++ node.children.map (childEntry kind) := by
  cases kind with
  | architecture => exact h.described.entry_eq
  | actionCounts => exact h.accounted.entry_eq

theorem keys_nodup (h : node.WellFormed) (kind : ReportKind) :
    (Keyed.keys (entry kind node)).Nodup := by
  cases kind with
  | architecture => exact h.described.keys_nodup
  | actionCounts => exact h.accounted.keys_nodup

/-- A report is built from texts and from what actions show, by mappings without a key twice. -/
theorem childEntry_induction {motive : Document → Prop} (text : ∀ content, motive (.text content))
    (shows : ∀ (node : Component) action document, node.WellFormed →
      node.Shows action (some document) → motive document)
    (mapping : ∀ entries : Mapping, (Keyed.keys entries).Nodup →
      (∀ entry ∈ entries, motive entry.2) → motive (.mapping entries))
    (h : Everywhere WellFormed root) (kind : ReportKind) : motive (childEntry kind root).2 := by
  have hown (node : Component) (hnode : node.WellFormed) :
      ∀ entry ∈ ownFields kind node, motive entry.2 := by
    intro entry hentry
    cases kind with
    | architecture =>
      rw [ownFields, ownEntries] at hentry
      split at hentry
      · exact absurd hentry List.not_mem_nil
      · rename_i leaf _
        rcases List.mem_pair.mp hentry with rfl | rfl
        · exact text _
        · refine mapping _ ?_ fun entry hattribute ↦ ?_
          · rw [attributeEntries, Keyed.keys, List.map_map]
            exact leaf.attributes.keys_nodup
          · obtain ⟨given, -, rfl⟩ := List.mem_map.mp hattribute
            exact text _
    | actionCounts =>
      obtain ⟨action, haction, hshown⟩ := List.mem_filterMap.mp hentry
      obtain ⟨field, hfield, rfl⟩ := Option.map_eq_some_iff.mp hshown
      exact shows node action field hnode (hfield ▸ hnode.shows_shown haction)
  induction root using Component.induction with
  | node name state children ih =>
    refine mapping _ (keys_nodup h.here kind) fun entry hentry ↦ ?_
    rw [entry_eq h.here, List.mem_append] at hentry
    rcases hentry with hentry | hchild
    · exact hown _ h.here entry hentry
    · obtain ⟨child, hmem, rfl⟩ := List.mem_map.mp hchild
      exact ih child hmem (h.of_mem hmem)

/-- No child of a component is called like one of its own fields. -/
theorem not_mem_ownFields (h : node.WellFormed) {name : String}
    (hname : name ∈ node.children.map Component.name) :
    name ∉ Keyed.keys (ownFields kind node) := by
  have hnodup := keys_nodup h kind
  rw [entry_eq h, Keyed.keys_append, keys_childEntry, List.nodup_append'] at hnodup
  exact fun hown ↦ hnodup.2.2 hown hname

theorem get?_entry (h : node.WellFormed) {name : String} (hchild : node.child name = some child) :
    Keyed.get? (entry kind node) name = some (.mapping (entry kind child)) := by
  have hname : child.name = name := by simpa using List.find?_some hchild
  rw [Keyed.get?_eq_some_iff (keys_nodup h kind), entry_eq h, ← hname]
  exact List.mem_append_right _ (List.mem_map_of_mem (mem_children_of_child hchild))

/-- The names along a path lead to the entry of the component there. -/
theorem follow?_entry (h : Everywhere WellFormed root) (hfind : root.find path = some node) :
    (Document.mapping (entry kind root)).follow? path = some (.mapping (entry kind node)) := by
  induction path generalizing root with
  | nil => rw [Option.some.inj hfind]; rfl
  | cons name path ih =>
    rw [find_cons] at hfind
    obtain ⟨child, hchild, hfind⟩ := Option.bind_eq_some_iff.mp hfind
    rw [Document.follow?_cons, get?_entry h.here hchild, Option.bind_some]
    exact ih (h.of_mem (mem_children_of_child hchild)) hfind

theorem follow?_ofKind (kind : ReportKind) (root : Component) (path : List String) :
    (Document.mapping (ofKind kind root)).follow? (root.name :: path) =
      (Document.mapping (entry kind root)).follow? path := by
  rw [ofKind_eq, Document.follow?_cons]
  simp [Keyed.get?, childEntry]

theorem follow?_ofKind_path (h : Everywhere WellFormed root) (hfind : root.find path = some node)
    (kind : ReportKind) : (Document.mapping (ofKind kind root)).follow? (root.name :: path) =
      some (.mapping (entry kind node)) := by
  rw [follow?_ofKind, follow?_entry h hfind]

/-! ### Changes of one component -/

theorem map_childEntry_adjustFirst {change : Component → Component} {name : String}
    {f : Document → Document} (hname : ∀ node, (change node).name = node.name)
    {children : List Component} (hchild : ∀ child, children.find? (·.name = name) = some child →
      Document.mapping (entry kind (change child)) = f (.mapping (entry kind child))) :
    (adjustFirst name change children).map (childEntry kind) =
      Keyed.change name f (children.map (childEntry kind)) := by
  induction children with
  | nil => rfl
  | cons first children ih =>
    by_cases hfirst : first.name = name
    · have hentry := hchild first (List.find?_cons_of_pos (by simpa using hfirst))
      rw [adjustFirst, if_pos hfirst, List.map_cons, List.map_cons, Keyed.change,
        if_pos (show (childEntry kind first).1 = name from hfirst), childEntry, hname, hentry,
        hfirst]
      rfl
    · have hrest := ih fun child hfind ↦ hchild child (by
        rwa [List.find?_cons_of_neg (by simpa using hfirst)])
      rw [adjustFirst, if_neg hfirst, List.map_cons, List.map_cons, hrest, Keyed.change,
        if_neg (show ¬ (childEntry kind first).1 = name from hfirst)]

/-- A change at a path changes the entry of the component there, and all else stays. -/
theorem entry_adjust {change : Component → Component}
    (hname : ∀ node, (change node).name = node.name) (h : Everywhere WellFormed root)
    (h' : Everywhere WellFormed (root.adjust change path)) (hfind : root.find path = some node) :
    Document.mapping (entry kind (root.adjust change path)) =
      (Document.mapping (entry kind root)).replace path (.mapping (entry kind (change node))) := by
  induction path generalizing root with
  | nil => rw [Option.some.inj hfind]; rfl
  | cons name path ih =>
    rw [find_cons] at hfind
    obtain ⟨child, hchild, hfind⟩ := Option.bind_eq_some_iff.mp hfind
    have hmem := mem_children_of_child hchild
    have hmem' : name ∈ root.children.map Component.name :=
      List.mem_map.mpr ⟨child, hmem, by simpa using List.find?_some hchild⟩
    have hbelow : (root.adjust change (name :: path)).children.map (childEntry kind) =
        Keyed.change name (·.replace path (.mapping (entry kind (change node))))
          (root.children.map (childEntry kind)) := by
      refine map_childEntry_adjustFirst (name_adjust hname path) fun other hother ↦ ?_
      obtain rfl := Option.some.inj (hother.symm.trans hchild)
      have hadjusted : (root.adjust change (name :: path)).child name =
          some (other.adjust change path) := by
        rw [child_adjust_self hname, hchild, Option.map_some]
      exact ih (h.of_mem hmem) (h'.of_mem (mem_children_of_child hadjusted)) hfind
    have hown : ownFields kind (root.adjust change (name :: path)) = ownFields kind root := by
      cases kind <;> rfl
    rw [entry_eq h'.here, hbelow, hown, entry_eq h.here, Document.replace,
      Keyed.change_append (not_mem_ownFields h.here hmem')]

/-- The same for a whole report, which has the entry of the root under its name. -/
theorem ofKind_adjust {change : Component → Component}
    (hname : ∀ node, (change node).name = node.name) (h : Everywhere WellFormed root)
    (h' : Everywhere WellFormed (root.adjust change path)) (hfind : root.find path = some node)
    (kind : ReportKind) :
    Document.Replaced (.mapping (ofKind kind root)) (root.name :: path)
      (.mapping (entry kind (change node))) (.mapping (ofKind kind (root.adjust change path))) := by
  refine .of_eq (by rw [follow?_ofKind_path h hfind]; rfl) ?_
  rw [ofKind_eq, ofKind_eq, childEntry, childEntry, name_adjust hname,
    entry_adjust hname h h' hfind, Document.replace, Keyed.change, if_pos rfl]

end Report

namespace Component

/-- A step at a path that succeeds does so on the component there. -/
theorem ok_of_focus {ε α : Type} {step : Run ε Component α} {path : List String}
    {root root' node : Component} {value : α} (h : focus step path root = some (.ok value root'))
    (hfind : root.find path = some node) :
    step node = .ok value (after step node) ∧ root' = root.adjust (after step) path := by
  have hstate := state_of_focus h
  rw [focus_eq, hfind, Option.map_some] at h
  refine ⟨?_, hstate⟩
  rw [after]
  rcases hstep : step node with ⟨value', node'⟩ | ⟨cause, node'⟩ <;> rw [hstep] at h <;> cases h
  rfl

/-! ### Recording -/

/-- What the report of counts has of some actions, in their order. -/
def shownEntries (node : Component) (actions : List Action) : Mapping :=
  actions.filterMap fun action ↦ (node.shown action).map (action.name, ·)

variable {root node child : Component} {path : List String} {action : String}
  {arguments : List Nat} {delta : Nat}

theorem shownEntries_append (node : Component) (first second : List Action) :
    node.shownEntries (first ++ second) = node.shownEntries first ++ node.shownEntries second :=
  List.filterMap_append

/-- The field of an action is made from its own row. -/
theorem actionField_congr {counters counters' : Counters} {place : Nat}
    (h : counters.cells place = counters'.cells place) (action : Action) :
    Report.actionField counters place action = Report.actionField counters' place action := by
  rw [Report.actionField, Report.actionField, Counters.get, Counters.get, Counters.nonzero,
    Counters.nonzero, h]

theorem actions_after_record (action : String) (arguments : List Nat) (delta : Nat)
    (node : Component) : (after (record action arguments delta) node).actions = node.actions := by
  rcases record_cases action arguments delta node with ⟨cause, h⟩ | ⟨cell, counters, hcell, -, h⟩
  · rw [after, h, Outcome.state]
  · rw [after, h, actions, actions, (cell_eq_ok_iff.mp hcell).1]
    rfl

/-- Recording one action does not show on another. -/
theorem shown_after_record_of_ne {other : Action} (hne : other.name ≠ action) :
    (after (record action arguments delta) node).shown other = node.shown other := by
  rcases record_cases action arguments delta node with
    ⟨cause, h⟩ | ⟨cell, counters, hcell, hadd, h⟩
  · rw [after, h, Outcome.state]
  · obtain ⟨hleaf, hplace, hname, -⟩ := cell_eq_ok_iff.mp hcell
    obtain ⟨count, -, -, rfl⟩ := Counters.add_eq_ok_iff.mp hadd
    rw [after, h, shown, shown, hleaf]
    refine Option.bind_congr fun found hfound ↦ actionField_congr ?_ other
    obtain ⟨hother, hsame⟩ := Schema.position_eq_some_iff.mp hfound
    have hrow : cell.place ≠ found.1 := by
      intro heq
      rw [heq, hother] at hplace
      exact hne (by rw [← hsame, Option.some.inj hplace, hname])
    simp [Counters.cells, Counters.set, hrow]

theorem shownEntries_after_record {actions : List Action}
    (hne : ∀ other ∈ actions, other.name ≠ action) :
    (after (record action arguments delta) node).shownEntries actions =
      node.shownEntries actions := by
  refine List.filterMap_congr fun other hother ↦ ?_
  rw [shown_after_record_of_ne (hne other hother)]

theorem childEntries_after_record (action : String) (arguments : List Nat) (delta : Nat)
    (node : Component) :
    (after (record action arguments delta) node).childEntries = node.childEntries := by
  rw [childEntries, children_after_record, childEntries]

/-- An entry, divided at one of the actions. -/
theorem countsEntry_eq_of_actions_eq (h : node.WellFormed) {before rest : List Action}
    {declared : Action} (hactions : node.actions = before ++ declared :: rest) :
    Report.countsEntry node = node.shownEntries before ++ node.shownEntries [declared] ++
      node.shownEntries rest ++ node.childEntries := by
  have hown : node.actionEntries = node.shownEntries (before ++ ([declared] ++ rest)) :=
    congrArg node.shownEntries hactions
  rw [h.accounted.entry_eq, hown, shownEntries_append, shownEntries_append,
    ← List.append_assoc (node.shownEntries before)]

/-- A recorded action stands in the schema once, between actions of other names. -/
theorem exists_declared_of_record {node' : Component} (h : node.WellFormed)
    (hrecord : record action arguments delta node = .ok () node') :
    ∃ before declared rest, node.actions = before ++ declared :: rest ∧
      declared.name = action ∧ ∀ other ∈ before ++ rest, other.name ≠ action := by
  rcases record_cases action arguments delta node with
    ⟨cause, herror⟩ | ⟨cell, counters, hcell, -, -⟩
  · rw [hrecord] at herror
    cases herror
  · obtain ⟨hleaf, hplace, hname, -⟩ := cell_eq_ok_iff.mp hcell
    have hmem : cell.action ∈ node.actions :=
      mem_actions_iff.mpr ⟨cell.leaf, hleaf, List.mem_of_getElem? hplace⟩
    obtain ⟨before, rest, hsplit⟩ := List.append_of_mem hmem
    have hnodup := h.nodup_actions
    rw [hsplit, List.map_append, List.map_cons] at hnodup
    refine ⟨before, cell.action, rest, hsplit, hname, fun other hother heq ↦ ?_⟩
    have hdistinct := (List.nodup_middle.mp hnodup)
    rw [List.nodup_cons, ← List.map_append] at hdistinct
    exact hdistinct.1 (List.mem_map.mpr ⟨other, hother, heq.trans hname.symm⟩)

end Component

/-- The description of the architecture shows nothing of the counters. -/
theorem sameHierarchy_of_skeleton_eq {root root' : Component}
    (h : root.skeleton = root'.skeleton) : SameHierarchy root root' := by
  induction root using Component.induction generalizing root' with
  | node name kind children ih =>
    obtain ⟨name', kind', children'⟩ := root'
    obtain rfl : name = name' := by simpa using congrArg Component.name h
    have hkind : kind.skeleton = kind'.skeleton := by simpa using congrArg Component.kind h
    have hmap : children.map skeleton = children'.map skeleton := by
      simpa using congrArg Component.children h
    have hchildren : List.Forall₂ SameHierarchy children children' :=
      forall₂_of_map_eq_map hmap fun child hchild _ _ ↦ ih child hchild
    rcases kind with _ | leaf <;> rcases kind' with _ | leaf'
    · exact .container name hchildren
    · simp [Kind.skeleton] at hkind
    · simp [Kind.skeleton] at hkind
    · simp only [Kind.skeleton, Kind.leaf.injEq, Leaf.mk.injEq] at hkind
      exact .leaf name hkind.1 hkind.2.1 hchildren

theorem architecture_eq_of_skeleton_eq {root root' : Component}
    (h : root.skeleton = root'.skeleton) : Report.architecture root = Report.architecture root' :=
  congrArg (fun entry ↦ [entry]) (sameHierarchy_of_skeleton_eq h).entry_eq

/-! ### Attaching -/

theorem Report.entry_after_attach {node child : Component} (h : node.WellFormed)
    (hattach : attach child node = .ok () (after (attach child) node)) (kind : ReportKind) :
    Report.entry kind (after (attach child) node) =
      Report.entry kind node ++ [Report.childEntry kind child] := by
  have hown : Report.ownFields kind (after (attach child) node) = Report.ownFields kind node ∧
      (after (attach child) node).children = node.children ++ [child] := by
    rcases attach_cases child node with ⟨cause, herror⟩ | ⟨-, -, hok⟩
    · rw [herror] at hattach
      cases hattach
    · rw [after, hok]
      cases kind <;> exact ⟨rfl, rfl⟩
  rw [Report.entry_eq h.attach, hown.1, hown.2, List.map_append, ← List.append_assoc,
    ← Report.entry_eq h]
  rfl

/-! ### The whole statement -/

/-- Reports are compositional and local. The names along a path lead, in either report of the whole
tree, to what they lead to in the report of the component alone. What has been recorded on that
component does not show in the description of the architecture, and in the report of counts it shows
only under the key of the action, between the actions that stand around it in the schema; there may
be nothing under that key before. A child that is attached shows in both reports as the last key of
the component's entry. -/
theorem reports_compositional {root node : Component} {path : List String} (h : Reachable root)
    (hfind : root.find path = some node) :
    (∀ kind, (Document.mapping (Report.ofKind kind root)).follow? (root.name :: path) =
        some (.mapping (Report.entry kind node)) ∧
      (Document.mapping (Report.ofKind kind node)).follow? [node.name] =
        some (.mapping (Report.entry kind node))) ∧
    (∀ action arguments delta root',
      focus (record action arguments delta) path root = some (.ok () root') →
        Report.architecture root' = Report.architecture root ∧
        ∃ node' before declared rest, root'.find path = some node' ∧
          node.actions = before ++ declared :: rest ∧ declared.name = action ∧
          node'.Shows declared (node'.shown declared) ∧
          Report.countsEntry node = node.shownEntries before ++ node.shownEntries [declared] ++
            node.shownEntries rest ++ node.childEntries ∧
          Document.Replaced (.mapping (Report.actionCounts root)) (root.name :: path)
            (.mapping (node.shownEntries before ++ node'.shownEntries [declared] ++
              node.shownEntries rest ++ node.childEntries))
            (.mapping (Report.actionCounts root'))) ∧
    ∀ child root', Reachable child → focus (attach child) path root = some (.ok () root') →
      ∀ kind, Document.Replaced (.mapping (Report.ofKind kind root)) (root.name :: path)
        (.mapping (Report.entry kind node ++ [Report.childEntry kind child]))
        (.mapping (Report.ofKind kind root')) := by
  have hroot := h.wellFormed
  have hnode := (hroot.find hfind).here
  refine ⟨fun kind ↦ ⟨Report.follow?_ofKind_path hroot hfind kind, ?_⟩, ?_, ?_⟩
  · rw [Report.follow?_ofKind]
    rfl
  · intro action arguments delta root' hrun
    obtain ⟨hrecord, rfl⟩ := ok_of_focus hrun hfind
    have hname := name_after_record action arguments delta
    have hroot' := hroot.record action arguments delta path
    have hfind' : (root.adjust (after (record action arguments delta)) path).find path =
        some (after (record action arguments delta) node) := by
      rw [find_adjust_self hname, hfind, Option.map_some]
    obtain ⟨before, declared, rest, hactions, hdeclared, hne⟩ :=
      exists_declared_of_record hnode hrecord
    have hactions' := (actions_after_record action arguments delta node).trans hactions
    have hmem : declared ∈ (after (record action arguments delta) node).actions := by
      rw [hactions']
      exact List.mem_append_right _ List.mem_cons_self
    have hentry := countsEntry_eq_of_actions_eq hnode.record hactions'
    rw [childEntries_after_record,
      shownEntries_after_record fun other hother ↦ hne other (List.mem_append_left _ hother),
      shownEntries_after_record fun other hother ↦ hne other (List.mem_append_right _ hother)]
      at hentry
    refine ⟨architecture_eq_of_skeleton_eq (skeleton_record action arguments delta path root),
      _, before, declared, rest, hfind', hactions, hdeclared, hnode.record.shows_shown hmem,
      countsEntry_eq_of_actions_eq hnode hactions, ?_⟩
    rw [← hentry]
    exact Report.ofKind_adjust hname hroot hroot' hfind .actionCounts
  · intro child root' hchild hrun kind
    obtain ⟨hattach, rfl⟩ := ok_of_focus hrun hfind
    rw [← Report.entry_after_attach hnode hattach kind]
    exact Report.ofKind_adjust (name_after_attach child) hroot
      (hroot.attach hchild.wellFormed path) hfind kind

/-- A first access on the leaf of a tree makes its key appear before that of the other action, and a
child of the leaf comes after both. -/
theorem reports_compositional_sample :
    let tree := Sample.tree [0, 0, 0, 0, 0, 0] [0]
    let counted := Sample.tree [0, 0, 0, 4, 0, 0] [0]
    let leaf := Sample.leaf [0, 0, 0, 0, 0, 0] [0]
    let extended : Component := ⟨"top", .container, [{ leaf with children := [.container "port"] }]⟩
    Reachable tree ∧ tree.find ["spad"] = some leaf ∧
      (Document.mapping (Report.actionCounts tree)).follow? ["top", "spad"] =
        some (.mapping [("tick", .mapping [("count", .number 0)])]) ∧
      focus (record "access" [1, 1] 4) ["spad"] tree = some (.ok () counted) ∧
      Report.architecture counted = Report.architecture tree ∧
      (Document.mapping (Report.actionCounts counted)).follow? ["top", "spad"] =
        some (.mapping [("access", .sequence [observationDocument ([1, 1], 4)]),
          ("tick", .mapping [("count", .number 0)])]) ∧
      focus (attach (.container "port")) ["spad"] tree = some (.ok () extended) ∧
      (Document.mapping (Report.actionCounts extended)).follow? ["top", "spad"] =
        some (.mapping [("tick", .mapping [("count", .number 0)]), ("port", .mapping [])]) := by
  intro tree counted leaf extended
  have hfind : tree.find ["spad"] = some leaf := rfl
  have hrecord : focus (record "access" [1, 1] 4) ["spad"] tree = some (.ok () counted) := rfl
  have hattach : focus (attach (.container "port")) ["spad"] tree = some (.ok () extended) := rfl
  obtain ⟨hfollow, hrecorded, hattached⟩ := reports_compositional Sample.reachable_tree hfind
  have hextended := hattached _ extended (.container "port") hattach .actionCounts
  exact ⟨Sample.reachable_tree, hfind, (hfollow .actionCounts).1, hrecord,
    (hrecorded "access" [1, 1] 4 counted hrecord).1, rfl, hattach, hextended.there⟩

end CountTree
