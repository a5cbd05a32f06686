import ChangeCapture.Dictionary
import ChangeCapture.Storage.FilePath

/-!
# Trees of files

The files and directories under a working directory, each under the list of names that leads to it.
The order of such lists puts a directory before what it holds, and that before the directory's next
sibling.

## Main definitions

* `FileNode`, `FileTree`, `FileTree.Attempt`.
* `FileTree.read`, `FileTree.write`, `FileTree.rename`, `FileTree.createDirs`.
-/

namespace ChangeCapture

/-- What stands at a place. -/
inductive FileNode where
  | file (content : Bytes)
  | directory
  deriving DecidableEq, Repr

/-- The files and directories under a working directory, by place. -/
abbrev FileTree := Dictionary (List String) FileNode

namespace FileTree

/-- What an operation of several steps left behind, and the fault of the step that failed. -/
structure Attempt where
  tree : FileTree
  fault : Option FileFault := none
  deriving DecidableEq, Repr

/-- What stands at a place; the working directory is a directory. -/
def node? (t : FileTree) (place : List String) : Option FileNode :=
  if place.isEmpty then some .directory else Dictionary.get? place t

/-! ### Following a path -/

/-- The place that one more component leads to from a directory. -/
def enter (place : List String) (component : String) : Except FileFault (List String) :=
  if component = "." then .ok place
  else if component = ".." then .ok place.dropLast
  else if component.utf8ByteSize > FilePath.nameLimit then .error .tooLong
  else .ok (place ++ [component])

/-- Whether a place holds a directory, and the fault if not. -/
def expectDirectory (t : FileTree) (place : List String) : Except FileFault Unit :=
  match t.node? place with
  | some .directory => .ok ()
  | some (.file _) => .error .notDirectory
  | none => .error .notFound

/-- Follows components from a directory: all but the last have to lead to directories. -/
def walk (t : FileTree) (place : List String) : List String → Except FileFault (List String)
  | [] => .ok place
  | [last] => enter place last
  | component :: rest =>
    match enter place component with
    | .error fault => .error fault
    | .ok place =>
      match t.expectDirectory place with
      | .ok () => walk t place rest
      | .error fault => .error fault

/-- The place that a path leads to. -/
def locate (t : FileTree) (p : FilePath) : Except FileFault (List String) :=
  match p.fault? with
  | some fault => .error fault
  | none => if p.text.isEmpty then .error .notFound else t.walk [] p.components

/-! ### Files -/

/-- **The content of a file.** -/
def read (t : FileTree) (p : FilePath) : Except FileFault Bytes :=
  match t.locate p with
  | .error fault => .error fault
  | .ok place =>
    match t.node? place with
    | none => .error .notFound
    | some .directory => .error .isDirectory
    | some (.file content) => if p.endsInSlash then .error .notDirectory else .ok content

/-- **Writes a file**, in place of one that is there. -/
def write (t : FileTree) (p : FilePath) (content : Bytes) : Except FileFault FileTree :=
  match t.locate p with
  | .error fault => .error fault
  | .ok place =>
    if p.endsInSlash || t.node? place = some .directory then .error .isDirectory
    else .ok (Dictionary.put place (.file content) t)

/-- **Gives a file another path**, in place of a file that is there. Both paths have to end in
names. -/
def rename (t : FileTree) (source target : FilePath) : Except FileFault FileTree :=
  match t.locate source, t.locate target with
  | .error fault, _ | .ok _, .error fault => .error fault
  | .ok a, .ok b =>
    if !(source.endsInName && target.endsInName) then .error .busy
    else
      match t.node? a with
      | none => .error .notFound
      | some .directory => .error .isDirectory
      | some (.file content) =>
        if source.endsInSlash || target.endsInSlash then .error .notDirectory
        else if t.node? b = some .directory then .error .isDirectory
        else .ok (Dictionary.put b (.file content) (Dictionary.erase a t))

/-! ### Directories -/

/-- Makes the directory that components lead to, in a directory that is there. -/
def createDir (t : FileTree) (components : List String) : Except FileFault FileTree :=
  match t.walk [] components with
  | .error fault => .error fault
  | .ok place =>
    match t.node? place with
    | some _ => .error .alreadyExists
    | none => .ok (Dictionary.put place .directory t)

/-- Whether components lead to a directory. -/
def holdsDirectory (t : FileTree) (components : List String) : Bool :=
  match t.walk [] components with
  | .ok place => t.node? place = some .directory
  | .error _ => false

/-- Makes a directory unless it is there. -/
def ensureDir (t : FileTree) (components : List String) : Attempt :=
  match t.createDir components with
  | .ok t => ⟨t, none⟩
  | .error fault => ⟨t, if t.holdsDirectory components then none else some fault⟩

/-- Ensures the directory of some components, which come last first. If what leads there is missing,
that is made before it, and stays even if the directory itself cannot be made. -/
def ensureDirs (t : FileTree) : List String → Attempt
  | [] => ⟨t, none⟩
  | last :: above =>
    let components := (last :: above).reverse
    let direct := t.ensureDir components
    if direct.fault = some .notFound then
      let lead := ensureDirs t above
      if lead.fault.isNone then lead.tree.ensureDir components else lead
    else direct

/-- **Makes a directory and those that lead to it**, as far as they are missing. -/
def createDirs (t : FileTree) (p : FilePath) : Attempt :=
  match p.fault? with
  | some fault => ⟨t, some fault⟩
  | none => t.ensureDirs p.components.reverse

end FileTree

end ChangeCapture
