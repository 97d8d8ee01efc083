import SapioTee.Lib.Regex
import SapioTee.Model.Verifier

/-!
# The action-pin lint (`scripts/check_pinned_actions.py`)

`main` reads the lines of the files it is given and tests each with two
patterns: `uses` takes a key at the front of the line and the reference
after it, `usesShape` finds a key anywhere and is asked only where `uses`
finds nothing. `scanFiles` and `readText` are what the directory and its
files hold, and `repr` is Python's.
-/

namespace SapioTee.Lint

open Lib

/-! ## The patterns -/

/-- `["']?` -/
def quoteMark : Regex := (Regex.one fun c => c == '\x22' || c == '\x27').opt

def space : Regex := .many isSpace

def colon : Regex := .one (· == ':')

/-- The letters of a text, compared by `same`. -/
def letters (text : String) (same : Char → Char → Bool) : Regex :=
  .seqs (text.toList.map fun letter => .one (same letter))

/-- What `IGNORECASE` takes for a lowercase letter; the long s is an s. -/
def ignoreCase (letter c : Char) : Bool :=
  c == letter || c == letter.toUpper || (letter == 's' && c == 'ſ')

/-- `[0-9a-f]` in either case. -/
def hexDigit (c : Char) : Bool := (hexValue c).isSome

def sha : Regex :=
  .seqs ([.start] ++ List.replicate 40 (.one hexDigit) ++ [.stop])

/-- `[^\s"'#},]` -/
def referenceChar (c : Char) : Bool :=
  !(isSpace c || c == '\x22' || c == '\x27' || c == '#' || c == '\x7d' ||
    c == ',')

/-- `USES` up to its colon. -/
def usesLead : Regex :=
  .seqs [.start, space, (Regex.one (· == '-')).opt, space,
    (Regex.seq (.one (· == '\x7b')) space).opt, quoteMark,
    letters "uses" (· == ·), quoteMark, space]

def uses : Regex :=
  .seqs [usesLead.seq colon, space, quoteMark, (Regex.plus referenceChar).group]

/-- `[\s{,]` -/
def boundary (c : Char) : Bool := isSpace c || c == '\x7b' || c == ','

/-- `USES_SHAPE` up to its colon. -/
def shapeLead : Regex :=
  .seqs [Regex.start.alt (.one boundary), quoteMark, letters "uses" ignoreCase,
    quoteMark, space]

def usesShape : Regex := shapeLead.seq colon

/-! ## Lines -/

/-- The characters `str.splitlines` ends a line at. -/
def lineBreak (c : Char) : Bool :=
  let n := c.toNat
  (10 ≤ n && n ≤ 13) || (28 ≤ n && n ≤ 30) || n == 0x85 || n == 0x2028 ||
    n == 0x2029

/-- `splitlines` with a line begun, backwards. -/
def splitlinesFrom (line : List Char) : List Char → List (List Char)
  | [] => if line = [] then [] else [line.reverse]
  | '\r' :: '\n' :: cs => line.reverse :: splitlinesFrom [] cs
  | c :: cs =>
      if lineBreak c then line.reverse :: splitlinesFrom [] cs
      else splitlinesFrom (c :: line) cs

/-- `str.splitlines`. -/
def splitlines (text : String) : List (List Char) :=
  splitlinesFrom [] text.toList

def lstrip (line : List Char) : List Char := line.dropWhile isSpace

def strip (line : List Char) : List Char :=
  (lstrip (lstrip line).reverse).reverse

/-- `line.lstrip().startswith("#")`. -/
def comment (line : List Char) : Bool := (lstrip line).head? == some '#'

/-- `rpartition(separator)[2]`: what follows the last separator, all of it
where there is none. -/
def afterLast (separator : Char) (text : List Char) : List Char :=
  (text.reverse.takeWhile (· != separator)).reverse

/-! ## The lint -/

section

variable (repr : List Char → String)

/-- What is reported of one line. -/
def lineFailure (workflow : String) (lineNumber : Nat) (line : List Char) :
    Option String :=
  match uses.matchStart line with
  | none =>
      if (usesShape.search line).isSome && !comment line then
        some (workflow ++ ":" ++ toString lineNumber ++
          ": unparsable uses: line " ++ repr (strip line))
      else none
  | some found =>
      let reference := found.captured.getD []
      if ['.', '/'].isPrefixOf reference then none
      else if (sha.matchStart (afterLast '@' reference)).isSome then none
      else
        some (workflow ++ ":" ++ toString lineNumber ++ ": unpinned action " ++
          repr reference)

variable (readText : String → String)

def fileFailures (workflow : String) : List String :=
  ((splitlines (readText workflow)).zipIdx 1).filterMap fun entry =>
    lineFailure repr workflow entry.2 entry.1

structure Outcome where
  code : Nat
  stdout : List String
  stderr : List String

/-- `dict.fromkeys` keeps the first of each path. -/
def main (scanFiles : List String) : Outcome :=
  match scanFiles.eraseDups.flatMap (fileFailures repr readText) with
  | [] => ⟨0, ["all action references are commit-SHA pinned"], []⟩
  | failures =>
      ⟨1, [], failures ++
        ["pin every action to a full commit SHA (keep the tag as a # comment)"]⟩

end

end SapioTee.Lint
