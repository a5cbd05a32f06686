import ChangeCapture.Json.Printer
import ChangeCapture.Storage.Entries
import ChangeCapture.Storage.FileTree

/-!
# Stores in a file

The entries of a file store are kept in memory and, as a whole, in one file: a JSON object from keys
to values, both in hexadecimal, on a line for each. Writing goes through a temporary sibling that
then takes the file's place, so the file is never half written.

## Main definitions

* `FileStore`, `FileStore.load`, `FileStore.start`, `FileStore.set`.
* `FileStore.content`: the bytes of the file.
* `FileStore.save`: the steps of a write to disk.
-/

namespace ChangeCapture

/-- A store in a file, with the entries as it knows them. -/
structure FileStore where
  path : FilePath
  entries : Entries := []
  deriving DecidableEq, Repr

namespace FileStore

/-! ### The format -/

/-- One line of the file. -/
def contentLine (entry : Bytes × Bytes) : List Char :=
  ['\n', ' ', ' ', '"'] ++ Hex.encodeChars entry.1 ++ ['"', ':', ' ', '"'] ++
    Hex.encodeChars entry.2 ++ ['"']

/-- **The text of the file**: an object, a member on each line, in the order of the keys. -/
def contentChars (entries : Entries) : List Char :=
  match entries.map contentLine with
  | [] => ['\x7b', '\x7d']
  | lines => '\x7b' :: ([','].intercalate lines ++ ['\n', '\x7d'])

/-- The bytes of the file. -/
def content (entries : Entries) : Bytes :=
  Utf8.encodeChars (contentChars entries)

/-- The bytes of a text in hexadecimal. -/
def decodeHex (text : String) : Except OffsetError Bytes :=
  match Hex.decode text with
  | .ok bytes => .ok bytes
  | .error fault => .error (.corrupt (.notHex text fault))

/-- Decodes members one after the other, the key of each before its value. -/
def decodeMembers (entries : Entries) : List (String × String) → Except OffsetError Entries
  | [] => .ok entries
  | (k, v) :: members =>
    match decodeHex k with
    | .error e => .error e
    | .ok key =>
      match decodeHex v with
      | .error e => .error e
      | .ok value => decodeMembers (Dictionary.put key value entries) members

/-- **The entries that the bytes of a file spell.** An empty file has none. -/
def decode (bytes : Bytes) : Except OffsetError Entries :=
  if bytes.isEmpty then .ok []
  else
    match Json.whole Json.expectTexts bytes with
    | .error failure => .error (.serialization failure)
    | .ok members => decodeMembers [] members

/-! ### Operations -/

/-- The entries in the file at a path. A missing file has none. -/
def load (tree : FileTree) (path : FilePath) : Except OffsetError Entries :=
  match tree.read path with
  | .ok bytes => decode bytes
  | .error .notFound => .ok []
  | .error fault => .error (.file fault)

/-- **Reads the file anew.** If that fails the store keeps what it knows. -/
def start (tree : FileTree) (s : FileStore) : Except OffsetError FileStore :=
  match load tree s.path with
  | .ok entries => .ok { s with entries }
  | .error e => .error e

/-- The temporary sibling of a path. -/
def temporary (path : FilePath) : FilePath :=
  path.withExtension "tmp"

/-- Makes the directory of a path; a path of one component needs none. -/
def prepare (tree : FileTree) (path : FilePath) : FileTree.Attempt :=
  match path.parent? with
  | none => ⟨tree, none⟩
  | some parent => if parent.text.isEmpty then ⟨tree, none⟩ else tree.createDirs parent

/-- **Writes all entries to disk**: makes the directory, writes the temporary sibling, and gives it
the path. A step that fails leaves what the steps before it did. -/
def save (tree : FileTree) (path : FilePath) (entries : Entries) : FileTree.Attempt :=
  let prepared := prepare tree path
  if prepared.fault.isSome then prepared
  else
    match prepared.tree.write (temporary path) (content entries) with
    | .error fault => ⟨prepared.tree, some fault⟩
    | .ok tree =>
      match tree.rename (temporary path) path with
      | .error fault => ⟨tree, some fault⟩
      | .ok tree => ⟨tree, none⟩

/-- What a write left behind. -/
structure Written where
  store : FileStore
  tree : FileTree
  error : Option OffsetError := none
  deriving DecidableEq, Repr

/-- **Adds entries and writes all to disk.** The store knows them even if the disk refuses. -/
def set (tree : FileTree) (s : FileStore) (new : Entries) : Written :=
  let entries := Dictionary.merge s.entries new
  let saved := save tree s.path entries
  { store := { s with entries }, tree := saved.tree, error := saved.fault.map .file }

/-- The entries under some keys. -/
def get (s : FileStore) (keys : List Bytes) : Entries :=
  s.entries.select keys

end FileStore

end ChangeCapture
