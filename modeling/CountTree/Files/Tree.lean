import CountTree.Keyed

/-!
Directory trees. Each place of a tree may hold an entry, and a location leads to a place by one
name after the other. Setting the entry of a location changes what that location holds and nothing
else.
-/

set_option autoImplicit false
set_option relaxedAutoImplicit false

namespace CountTree

/-- A regular file, a directory, or a device: a file that keeps nothing of what is written to it. -/
inductive FileEntry where
  | file (content : ByteArray)
  | directory
  | device (content : ByteArray)

/-- The names that lead from the root to a place. -/
abbrev Location := List String

inductive FileTree where
  | node (entry : Option FileEntry) (below : List (String × FileTree))

namespace FileTree

def empty : FileTree := node none []

def get? : Location → FileTree → Option FileEntry
  | [], node entry _ => entry
  | name :: rest, node _ below => (Keyed.get? below name).bind (get? rest)

/-- Sets what a location holds. -/
def set (entry : Option FileEntry) : Location → FileTree → FileTree
  | [], node _ below => node entry below
  | name :: rest, node held below =>
    node held (Keyed.insert name (set entry rest ((Keyed.get? below name).getD empty)) below)

theorem get?_empty (location : Location) : get? location empty = none := by
  cases location <;> rfl

theorem get?_set_self (entry : Option FileEntry) (location : Location) (tree : FileTree) :
    get? location (set entry location tree) = entry := by
  induction location generalizing tree with
  | nil => cases tree; rfl
  | cons name rest ih => cases tree; simp [set, get?, Keyed.get?_insert_self, ih]

theorem get?_set_of_ne {location other : Location} (entry : Option FileEntry) (tree : FileTree)
    (h : other ≠ location) : get? other (set entry location tree) = get? other tree := by
  induction location generalizing other tree with
  | nil =>
    cases other with
    | nil => exact (h rfl).elim
    | cons first names => cases tree; rfl
  | cons name rest ih =>
    cases other with
    | nil => cases tree; rfl
    | cons first names =>
      obtain ⟨held, below⟩ := tree
      by_cases hname : first = name
      · subst hname
        have hrest : names ≠ rest := fun hnames ↦ h (hnames ▸ rfl)
        rw [set, get?, Keyed.get?_insert_self, Option.bind_some, ih _ hrest, get?]
        cases Keyed.get? below first <;> simp [get?_empty]
      · simp [set, get?, Keyed.get?_insert_of_ne _ _ hname]

mutual

/-- The entries of a tree that stands at a location, those of directories before what is in
them. -/
def entriesFrom (location : Location) : FileTree → List (Location × FileEntry)
  | node entry below => (entry.map (location, ·)).toList ++ entriesBelow location below

def entriesBelow (location : Location) : List (String × FileTree) → List (Location × FileEntry)
  | [] => []
  | part :: parts => entriesOfPart location part ++ entriesBelow location parts

def entriesOfPart (location : Location) : String × FileTree → List (Location × FileEntry)
  | (name, tree) => entriesFrom (location ++ [name]) tree

end

def entries (tree : FileTree) : List (Location × FileEntry) := entriesFrom [] tree

end FileTree

end CountTree
