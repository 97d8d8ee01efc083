import SapioTee.Model.Snapshot

/-!
# Plans (`plan_sources` of `scripts/source_snapshot.py`)

A plan lists the files that git knows of and that look like code, and the
files that were named on the command line. What git lists is outside code: a
function of the tree, since the index and the ignore rules are files too.
-/

namespace SapioTee.Snapshot

open Lib

def codeSuffixes : List String := [".rs", ".wasm", ".wat", ".py", ".sh"]

def buildNames : List String :=
  ["Cargo.toml", "Cargo.lock", "flake.nix", "flake.lock", "enclaver.yaml"]

namespace PurePosixPath

/-- The last component. -/
def name (path : PurePosixPath) : String :=
  String.ofList (path.tail.getLast?.elim [] Subtype.val)

/-- The name from its last dot on, unless that dot is its first or its last
character. -/
def suffix (path : PurePosixPath) : String :=
  let name := path.name.toList
  let rest := (name.reverse.takeWhile (· != '.')).reverse
  if !rest.isEmpty && rest.length + 1 < name.length then
    String.ofList ('.' :: rest)
  else ""

end PurePosixPath

def isCode (path : PurePosixPath) : Bool :=
  codeSuffixes.contains path.suffix || buildNames.contains path.name

def Entry.json (entry : Entry) : Json :=
  .obj [("path", .str entry.path), ("sha256", .str entry.sha256),
    ("executable", .bool entry.executable)]

/-- `path.exists()`. -/
def pathExists (t : Tree) (path : AbsPath) : Bool :=
  (stat t true path).toOption.isSome

/-- `path.is_symlink()`. -/
def isSymlink (t : Tree) (path : AbsPath) : Bool :=
  match lstat t path with
  | .ok (.leaf (.link _)) => true
  | _ => false

section

variable (P : Python)

/-- One turn of the loop over `includes`: `include.partition(":")`. -/
def readInclude (text : String) : Except Error (String × String) := do
  let name := text.toList.takeWhile (· != ':')
  let relative ← present ((text.toList.drop name.length).tail?)
    "--include must be tee:PATH"
  require ((layout.map Prod.fst).contains (String.ofList name))
    "--include must be tee:PATH"
  let path ← relativePath P (.str (String.ofList relative))
  pure (String.ofList name, path.str)

/-- One turn of the loop over what git lists. -/
def candidate (t : Tree) (root : AbsPath) (raw : Bytes) :
    Except Error (Option String) :=
  if raw.isEmpty then .ok none
  else do
    let relative ← outside ((decodeUtf8 raw).elim
      (.error "UnicodeDecodeError") .ok)
    let path ← relativePath P (.str relative)
    if isCode path && (pathExists t (root ++ path.tail) ||
        isSymlink t (root ++ path.tail)) then
      pure (some relative)
    else pure none

/-- `sorted` of a set. -/
def sortedSet (names : List String) : List String :=
  names.dedup.insertionSort (· ≤ ·)

variable (lsFiles : Tree → AbsPath → Except String Bytes)

/-- One turn of the loop over `roots`. -/
def planRepository (t : Tree) (explicit : List (String × String))
    (supplied : String × String) : Except Error (String × Json) := do
  let root ← resolveStrict P t supplied.2
  let listing ← outside (lsFiles t root)
  let found ← (listing.splitOn 0).mapM (candidate P t root)
  let named := (explicit.filter (·.1 == supplied.1)).map Prod.snd
  let files ← (sortedSet (named ++ found.reduceOption)).mapM
    (entryFor P t root)
  pure (supplied.1, .obj [("root", .str (pathStr root)),
    ("files", .arr (files.map Entry.json))])

def planSources (t : Tree) (roots : List (String × String))
    (includes : List String) : Except Error Json := do
  let explicit ← includes.mapM (readInclude P)
  let repositories ← roots.mapM (planRepository P lsFiles t explicit)
  pure (.obj [("version", .int 1), ("repositories", .obj repositories)])

end

end SapioTee.Snapshot
