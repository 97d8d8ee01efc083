import SapioTee.Lib.FileTree
import SapioTee.Lib.JsonText
import SapioTee.Model.Verifier

/-!
# Reviewed source snapshots (`scripts/source_snapshot.py`)

One file system: the source worktree, the snapshot and everything else are
paths of one tree. Every call that takes a path goes through the links it
meets, as Linux does; `lstat` and the calls that make something new leave a
link at the end of the path alone. Of a file's mode only the executable bit
is kept, and directories have none.

`World` adds a trace to the tree: which files were opened to be read and
which were created, by the place that was found. A name in a tree is a
component of a parsed path, which lets through two names no directory has,
`..` and those with a null character; the script refuses the first and finds
nothing under the second. What a link points to may go up.

SHA-256, `Path.resolve`, `repr` and the reading and printing of fractions
are outside code.
-/

namespace SapioTee.Snapshot

open Lib

/-! ## Paths -/

/-- A component of a parsed path. -/
abbrev Name := { s : List Char // s ≠ [] ∧ s ≠ ['.'] ∧ '/' ∉ s }

/-- A piece between two slashes, unless the parser drops it. -/
def component (s : List Char) : Option Name :=
  if h : s ≠ [] ∧ s ≠ ['.'] ∧ '/' ∉ s then some ⟨s, h⟩ else none

/-- An absolute path. -/
abbrev AbsPath := List Name

structure PurePosixPath where
  root : String
  tail : List Name

def join (names : List Name) : String :=
  String.ofList (['/'].intercalate (names.map Subtype.val))

/-- `PurePosixPath(value)`: two leading slashes are a root of their own,
any other number is one. -/
def purePosixPath (value : String) : PurePosixPath where
  root :=
    match (value.toList.takeWhile (· == '/')).length with
    | 0 => ""
    | 2 => "//"
    | _ => "/"
  tail := (value.toList.splitOn '/').filterMap component

namespace PurePosixPath

def str (path : PurePosixPath) : String :=
  if path.root = "" ∧ path.tail = [] then "." else path.root ++ join path.tail

def parents (path : PurePosixPath) : List PurePosixPath :=
  (List.range path.tail.length).reverse.map fun i =>
    ⟨path.root, path.tail.take i⟩

end PurePosixPath

/-- The text of an absolute path. -/
def pathStr (path : AbsPath) : String := "/" ++ join path

/-! ## The file system -/

inductive Leaf where
  | file (data : Bytes) (executable : Bool)
  | link (target : FileTree.Target Name)
  | special
  deriving DecidableEq

abbrev Tree := FileTree Name Leaf

def linkTarget : Leaf → Option (FileTree.Target Name)
  | .link target => some target
  | _ => none

/-- What Python brings. -/
structure Python where
  sha256 : Bytes → Hash
  float : List Char → Json
  floatRepr : Rat → List Char
  resolve : Tree → String → Option AbsPath
  repr : String → String

inductive Access where
  | read (path : AbsPath)
  | wrote (path : AbsPath)
  deriving DecidableEq

structure World where
  tree : Tree
  trace : List Access

/-- As many links as one lookup passes. -/
def maxLinks : Nat := 40

/-- The place a path leads to. -/
def locate (t : Tree) (final : Bool) (path : AbsPath) : Except Error AbsPath :=
  match t.follow linkTarget final maxLinks [] (path.map .into) with
  | some place => .ok place
  | none => .error (.upstream "OSError")

/-- `stat`, and `lstat`, which does not follow a link at the end. -/
def stat (t : Tree) (final : Bool) (path : AbsPath) :
    Except Error (Node Leaf) := do
  let place ← locate t final path
  match t.node place with
  | some node => pure node
  | none => .error (.upstream "FileNotFoundError")

def lstat (t : Tree) (path : AbsPath) : Except Error (Node Leaf) :=
  stat t false path

/-- What was opened, and what was read of it. -/
structure Opened where
  path : AbsPath
  data : Bytes
  executable : Bool

/-- `open(path, "rb").read()` and the mode of what was opened. -/
def readFile (t : Tree) (path : AbsPath) : Except Error Opened := do
  let place ← locate t true path
  match t.node place with
  | some (.leaf (.file data executable)) => pure ⟨place, data, executable⟩
  | _ => .error (.upstream "OSError")

/-- A new node, in a directory that exists, and its place. -/
def create (t : Tree) (path : AbsPath) (node : Node Leaf) :
    Except Error (AbsPath × Tree) :=
  if hne : path = [] then .error (.upstream "FileExistsError")
  else do
    let parent ← locate t true path.dropLast
    if h : t.node parent = some .dir ∧
        t.node (parent ++ [path.getLast hne]) = none then
      .ok (parent ++ [path.getLast hne],
        t.add parent (path.getLast hne) node h.1 h.2)
    else .error (.upstream "OSError")

def mkdir (t : Tree) (path : AbsPath) : Except Error Tree := do
  let (_, tree) ← create t path .dir
  pure tree

/-- `mkdir(parents=True, exist_ok=True)`, from the top. -/
def mkdirParents (t : Tree) (above : AbsPath) : List Name → Except Error Tree
  | [] => .ok t
  | name :: rest =>
      match stat t true (above ++ [name]) with
      | .ok .dir => mkdirParents t (above ++ [name]) rest
      | .ok (.leaf _) => .error (.upstream "FileExistsError")
      | .error _ => do
          let t' ← mkdir t (above ++ [name])
          mkdirParents t' (above ++ [name]) rest

/-- `open(path, "xb").write(data)`. -/
def writeNew (t : Tree) (path : AbsPath) (data : Bytes) :
    Except Error (AbsPath × Tree) :=
  create t path (.leaf (.file data false))

def chmod (t : Tree) (path : AbsPath) (executable : Bool) :
    Except Error Tree := do
  let place ← locate t true path
  match h : t.node place with
  | some (.leaf (.file data old)) =>
      pure (t.replace place (.file data old) (.file data executable) h)
  | some .dir => pure t
  | _ => .error (.upstream "OSError")

section

variable (P : Python)

/-! ## JSON files -/

/-- The text of a file opened as UTF-8. Its newlines are translated, which
no JSON text shows: a line end is whitespace or an error. -/
def decodeUtf8 (data : Bytes) : Option String :=
  String.fromUTF8? ⟨data.toArray⟩

def loads (data : Bytes) : Option Json := do
  let text ← decodeUtf8 data
  JsonText.loads P.float text.toList

/-- `json.load`. -/
def load (data : Bytes) : Except Error Json :=
  match loads P data with
  | some value => .ok value
  | none => .error (.upstream "ValueError")

/-- `json.dump` with an indent and sorted names, and the newline after. -/
def dumps (value : Json) : Bytes :=
  utf8 (String.ofList
    (JsonText.render (JsonText.indented P.floatRepr) 0 value.sortKeys ++
      ['\n']))

/-- `Path(text).resolve(strict=True)`. -/
def resolveStrict (t : Tree) (text : String) : Except Error AbsPath :=
  match P.resolve t text with
  | some path =>
      if (t.node path).isSome then .ok path
      else .error (.upstream "FileNotFoundError")
  | none => .error (.upstream "OSError")

/-! ## Inventories -/

def manifestFile : String := "source-manifest.json"

def manifestName : Name := ⟨"source-manifest.json".toList, by decide⟩

def relativePath (value : Json) : Except Error PurePosixPath := do
  let text ← present value.str?
    "source paths must be nonempty relative POSIX paths"
  require (text != "") "source paths must be nonempty relative POSIX paths"
  let path := purePosixPath text
  require (path.root == "" && !path.tail.isEmpty && path.str == text &&
      path.tail.all fun part =>
        part.val != ['.'] && part.val != ['.', '.'])
    ("invalid source path: " ++ P.repr text)
  require (text != manifestFile)
    (manifestFile ++ " is reserved for snapshot provenance")
  pure path

/-- The loop of `file_content` over the parts of a path. -/
def walk (t : Tree) (path : AbsPath) : List Name → Except Error AbsPath
  | [] => .ok path
  | part :: rest => do
      let node ← lstat t (path ++ [part])
      if rest.isEmpty then
        match node with
        | .leaf (.file _ _) => .ok (path ++ [part])
        | _ => .error (.message
            ("source is not a regular file: " ++ pathStr (path ++ [part])))
      else
        match node with
        | .dir => walk t (path ++ [part]) rest
        | _ => .error (.message
            ("source parent is not a real directory: " ++
              pathStr (path ++ [part])))

def fileContent (t : Tree) (root : AbsPath) (relative : String) :
    Except Error Opened := do
  let parsed ← relativePath P (.str relative)
  let path ← walk t root parsed.tail
  readFile t path

structure Entry where
  path : String
  sha256 : String
  executable : Bool
  deriving DecidableEq

def digest (data : Bytes) : String := hexEncode (P.sha256 data).toList

def entryFor (t : Tree) (root : AbsPath) (relative : String) :
    Except Error Entry := do
  let opened ← fileContent P t root relative
  pure ⟨relative, digest P opened.data, opened.executable⟩

/-- One turn of the loop of `entries_by_path`. -/
def addEntry (result : List (String × Entry)) (entry : Json) :
    Except Error (List (String × Entry)) := do
  let members ← dict entry ["path", "sha256", "executable"]
    "invalid source inventory entry"
  let path ← item members "path"
  let parsed ← relativePath P path
  let flag ← item members "executable"
  require (!(result.map Prod.fst).contains parsed.str && flag.bool?.isSome)
    "duplicate source path or invalid executable flag"
  let digest ← item members "sha256"
  let digest ← present digest.str? "invalid source digest"
  require (lowercaseHex64 digest) "invalid source digest"
  pure (result ++ [(parsed.str,
    ⟨path.str?.getD "", digest, flag.bool?.getD false⟩)])

def entriesByPath (entries : Json) :
    Except Error (List (String × Entry)) := do
  match entries with
  | .arr items =>
      let result ← items.foldlM (addEntry P) []
      require ((result.map Prod.fst).contains "Cargo.toml")
        "each snapshot must include its Cargo.toml"
      pure result
  | _ => .error (.message "files must be an explicit array")

/-! ## Verifying -/

def expectedDirs (entries : List (String × Entry)) : List String :=
  entries.flatMap fun entry =>
    ((purePosixPath entry.1).parents.map PurePosixPath.str).filter (· != ".")

/-- One turn of the loop over `snapshot.rglob("*")`. -/
def scan (dirs : List String) (snapshot : AbsPath) (actual : List String)
    (found : List Name × Node Leaf) : Except Error (List String) :=
  match found.2 with
  | .dir => do
      require (dirs.contains (join found.1))
        ("unreviewed snapshot directory: " ++ pathStr (snapshot ++ found.1))
      pure actual
  | .leaf (.file _ _) => .ok (join found.1 :: actual)
  | _ => .error (.message ("snapshot contains a link or special file: " ++
      pathStr (snapshot ++ found.1)))

/-- Equality of the sets two lists hold. -/
def sameSet (xs ys : List String) : Bool :=
  (xs.all fun x => ys.contains x) && ys.all fun y => xs.contains y

/-- The bytes of the manifest. -/
def provenance (t : Tree) (snapshot : AbsPath) : Except Error Bytes := do
  let node ← lstat t (snapshot ++ [manifestName])
  match node with
  | .leaf (.file _ _) => do
      let opened ← readFile t (snapshot ++ [manifestName])
      pure opened.data
  | _ => .error (.message "snapshot provenance must be a regular file")

/-- The entries of a version 1 manifest. -/
def manifestEntries (manifest : Json) :
    Except Error (List (String × Entry)) := do
  let members ← dict manifest ["version", "files"]
    "unsupported snapshot provenance"
  let version ← item members "version"
  require (version.int? == some 1) "unsupported snapshot provenance"
  let files ← item members "files"
  entriesByPath P files

def checkEntry (t : Tree) (snapshot : AbsPath) (entry : String × Entry) :
    Except Error Unit := do
  let actual ← entryFor P t snapshot entry.1
  require (actual == entry.2)
    ("snapshot differs from reviewed inventory: " ++ pathStr snapshot ++ "/" ++
      entry.1)

def verifySnapshot (t : Tree) (text : String) : Except Error AbsPath := do
  let snapshot ← resolveStrict P t text
  let data ← provenance t snapshot
  let manifest ← load P data
  let entries ← manifestEntries P manifest
  let actual ← (t.below snapshot).foldlM
    (scan (expectedDirs entries) snapshot) []
  require (sameSet actual (manifestFile :: entries.map Prod.fst))
    ("snapshot has missing or unreviewed files: " ++ pathStr snapshot)
  entries.forM (checkEntry P t snapshot)
  pure snapshot

/-! ## Creating -/

def sapioTee : Name := ⟨"sapio_tee".toList, by decide⟩

/-- `LAYOUT`. -/
def layout : List (String × Name) := [("tee", sapioTee)]

/-- One turn of the loop over the entries of a repository. -/
def copyEntry (name : String) (root snapshot : AbsPath) (w : World)
    (entry : String × Entry) : Except Error World := do
  let opened ← fileContent P w.tree root entry.1
  require (digest P opened.data == entry.2.sha256 &&
      opened.executable == entry.2.executable)
    ("source changed after review: " ++ name ++ ":" ++ entry.1 ++
      "; make and review a new plan")
  let target := snapshot ++ (purePosixPath entry.1).tail
  let tree ← mkdirParents w.tree [] target.dropLast
  let (place, tree) ← writeNew tree target opened.data
  let tree ← chmod tree target opened.executable
  pure ⟨tree, w.trace ++ [.read opened.path, .wrote place]⟩

def writeJson (w : World) (path : AbsPath) (value : Json) :
    Except Error World := do
  let (place, tree) ← writeNew w.tree path (dumps P value)
  let tree ← chmod tree path false
  pure ⟨tree, w.trace ++ [.wrote place]⟩

def manifestOf (files : Json) : Json :=
  .obj [("version", .int 1), ("files", files)]

/-- One turn of the loop over `LAYOUT`. -/
def createSnapshot (repositories : Members) (destination : AbsPath)
    (w : World) (place : String × Name) : Except Error World := do
  let repository ← item repositories place.1
  let members ← dict repository ["root", "files"]
    "invalid repository inventory"
  let root ← item members "root"
  let root ← outside (root.str?.elim (.error "TypeError") .ok)
  let root ← resolveStrict P w.tree root
  require (!root.isPrefixOf destination)
    "snapshots must be outside the source worktrees"
  let files ← item members "files"
  let entries ← entriesByPath P files
  let snapshot := destination ++ [place.2]
  let tree ← mkdir w.tree snapshot
  let w ← entries.foldlM (copyEntry P place.1 root snapshot) ⟨tree, w.trace⟩
  let w ← writeJson P w (snapshot ++ [manifestName]) (manifestOf files)
  let tree ← chmod w.tree (snapshot ++ [manifestName]) false
  pure ⟨tree, w.trace⟩

def createSnapshots (w : World) (plan : Json) (destination : String) :
    Except Error (AbsPath × World) := do
  let members ← dict plan ["version", "repositories"]
    "unsupported source plan"
  let version ← item members "version"
  require (version.int? == some 1) "unsupported source plan"
  let repositories ← item members "repositories"
  let repositories ← dict repositories (layout.map Prod.fst)
    "source plan must select only tee; dependencies use public git pins"
  let destination ← outside
    ((P.resolve w.tree destination).elim (.error "OSError") .ok)
  let tree ← mkdir w.tree destination
  let w ← layout.foldlM (createSnapshot P repositories destination)
    ⟨tree, w.trace⟩
  pure (destination, w)

end

end SapioTee.Snapshot
