import ChangeCapture.Error

/-!
# File paths

A path is text whose components stand between slashes; an empty component says nothing. A component
is a name or one of two steps: a single dot stays in a directory, two dots leave it. The parent of a
path and its sibling with another extension are texts again.

## Main definitions

* `FilePath.components`, `FilePath.endsInName`, `FilePath.fault?`.
* `FilePath.fileName?`, `FilePath.parent?`.
* `FilePath.extensionOf`, `FilePath.withExtension`.
-/

namespace ChangeCapture

/-- The text of a path, relative to a working directory. -/
structure FilePath where
  text : String
  deriving DecidableEq, Repr

namespace FilePath

/-- The characters of a text between slashes. -/
def splitSlashes : List Char → List (List Char)
  | [] => [[]]
  | c :: cs =>
    if c = '/' then [] :: splitSlashes cs
    else
      match splitSlashes cs with
      | [] => [[c]]
      | part :: parts => (c :: part) :: parts

/-- The components that say something, the steps included. -/
def components (p : FilePath) : List String :=
  (splitSlashes p.text.toList).filterMap fun part =>
    if part.isEmpty then none else some (String.ofList part)

/-- Whether a component is a step and no name. -/
def isStep (component : String) : Bool :=
  component = "." || component = ".."

/-- Whether a path ends in a name: a directory entry can be put there or taken away. -/
def endsInName (p : FilePath) : Bool :=
  match p.components.getLast? with
  | some component => !isStep component
  | none => false

/-- Whether a path ends in a slash, and so can only name a directory. -/
def endsInSlash (p : FilePath) : Bool :=
  p.text.toList.getLast? == some '/'

/-- How many bytes a name may have. -/
def nameLimit : Nat := 255

/-- How many bytes a path may have. -/
def pathLimit : Nat := 4095

/-- Why a text is no path at all: the null character is in none, and a path has a longest length. -/
def fault? (p : FilePath) : Option FileFault :=
  if p.text.toList.contains '\x00' then some .invalidPath
  else if p.text.utf8ByteSize > pathLimit then some .tooLong
  else none

/-- A reversed text without the slashes, and the dots that stand alone after a slash, at its end. -/
def dropIdle : List Char → List Char
  | '/' :: cs => dropIdle cs
  | '.' :: '/' :: cs => dropIdle cs
  | cs => cs

/-- A reversed text as the reversed last component and what stands before it. -/
def lastPart (p : FilePath) : List Char × List Char :=
  let cs := dropIdle p.text.toList.reverse
  (cs.takeWhile (· ≠ '/'), cs.dropWhile (· ≠ '/'))

/-- The last component, if it names something. -/
def fileName? (p : FilePath) : Option (List Char) :=
  let name := (p.lastPart).1.reverse
  if name.isEmpty || name = ['.'] || name = ['.', '.'] then none else some name

/-- The path of the directory that holds what a path names; it is empty for a single component. -/
def parent? (p : FilePath) : Option FilePath :=
  let (name, before) := p.lastPart
  if name.isEmpty then none else some ⟨String.ofList (dropIdle before).reverse⟩

/-- A file name as what stands before its last dot and what follows it. A name without a dot, and
one whose only dot comes first, has no extension. -/
def splitExtension (name : List Char) : List Char × Option (List Char) :=
  let after := (name.reverse.takeWhile (· ≠ '.')).reverse
  let before := name.take (name.length - after.length - 1)
  if before.isEmpty then (name, none) else (before, some after)

/-- The extension of a path. -/
def extensionOf (p : FilePath) : Option (List Char) :=
  p.fileName?.bind fun name => (splitExtension name).2

/-- A path whose name ends in a dot and the given extension, in place of what followed the last dot
of the name. A path that names nothing stays. -/
def setExtension (extension : List Char) (p : FilePath) : FilePath :=
  match p.fileName? with
  | none => p
  | some name =>
    ⟨String.ofList (p.lastPart.2.reverse ++ (splitExtension name).1 ++ '.' :: extension)⟩

/-- **The sibling of a path with another extension.** The old extension is cut off before the new
one is set on what is left, so a name that is then only dots stays as it is. -/
def withExtension (extension : String) (p : FilePath) : FilePath :=
  match p.extensionOf with
  | none => setExtension extension.toList p
  | some old =>
    setExtension extension.toList ⟨String.ofList (p.text.toList.take (p.text.length - old.length))⟩

end FilePath

end ChangeCapture
