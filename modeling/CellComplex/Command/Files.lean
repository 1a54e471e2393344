import CellComplex.Knowledge.Error

/-!
# Files

What a command sees of the file system: what stands at a path, and for a regular file its size and
its bytes. A folder held in memory answers in the same way as a disk.

* `Folder.find`: what stands at a path, walked component by component.
* `FileState.text`: the text of a file that is regular, not too large and well formed, in that
  order.
-/

namespace CellComplex

/-! ## 1. Single files -/

/-- What stands at a path. -/
inductive FileState where
  | missing
  /-- A folder, or anything else that is not a regular file. -/
  | other
  | regular (size : Nat) (contents : ByteArray)

/-- The largest knowledge document: 16 MiB. -/
def knowledgeLimit : Nat := 16 * 1024 * 1024

/-- The largest configuration document: 1 MiB. -/
def configurationLimit : Nat := 1024 * 1024

/-- The text of the file at a path. -/
def FileState.text (state : FileState) (path : String) (limit : Nat) :
    Except KnowledgeError String :=
  match state with
  | .missing => .error (.unreadable path)
  | .other => .error (.notAFile path)
  | .regular size contents =>
    if limit < size then .error (.fileTooLarge size limit)
    else
      match String.fromUTF8? contents with
      | some text => .ok text
      | none => .error (.unreadable path)

/-! ## 2. Folders -/

/-- A file or a folder with what is in it. -/
inductive FileTree where
  | file (contents : ByteArray)
  | folder (entries : List (String × FileTree))

namespace FileTree

/-- What a path ends at, as a state. -/
def state : FileTree → FileState
  | file contents => .regular contents.size contents
  | folder _ => .other

/-- An entry of a folder. -/
def entry? (name : String) : FileTree → Option FileTree
  | file _ => none
  | folder entries => entries.lookup name

/-- Puts a tree at the end of a path, folders being made on the way. -/
def insert (tree : FileTree) : List String → FileTree → FileTree
  | [], _ => tree
  | name :: path, here =>
    let entries := match here with
      | file _ => []
      | folder entries => entries
    let inner := insert tree path ((entries.lookup name).getD (folder []))
    folder ((name, inner) :: entries.filter (·.1 ≠ name))

end FileTree

/-- A place in a tree: what is there, and the folders above, innermost first. -/
structure Place where
  here : FileTree
  above : List FileTree

namespace Place

/-- A folder of which nothing is known. -/
def unknown : Place := ⟨.folder [], []⟩

/-- Goes one component along a path; only folders have components. Above the outermost folder that
is known lie folders of which nothing is known. -/
def go? (p : Place) (component : String) : Option Place :=
  match p.here with
  | .file _ => none
  | .folder _ =>
    if component = "" || component = "." then some p
    else if component = ".." then
      match p.above with
      | [] => some unknown
      | parent :: rest => some ⟨parent, rest⟩
    else (p.here.entry? component).map fun tree => ⟨tree, p.here :: p.above⟩

end Place

/-- What stands at a path that starts in a folder. Of what lies outside only the folders are known
to stand there, and nothing in them. -/
def FileTree.find (root : FileTree) (path : String) : FileState :=
  let start : Place := if path.startsWith "/" then .unknown else ⟨root, []⟩
  match (path.splitOn "/").foldlM Place.go? start with
  | some place => place.here.state
  | none => .missing

end CellComplex
