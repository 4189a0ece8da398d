import Chunkwise.Outline.Finding
import Chunkwise.Pattern
import Chunkwise.Text.Word

/-!
# Sources nested by indentation

The lines of a Python source are read one by one. Comments, docstrings and blank lines declare nothing; any other
line may declare a class or a function at the depth of its indentation, or import or export names.
-/

namespace Chunkwise.Indented

open Pattern

/-! ## Line patterns -/

inductive Slot where
  | name
  | async
  | parents
  | source
  | items
deriving Repr, DecidableEq

def namePattern : Pattern Slot :=
  capture .name (one Text.isAsciiWordStart ++ run Text.isAsciiWord)

def isLineChar (c : Char) : Bool := c != '\n'

/-- A class header: the name, parents in parentheses if any, and a colon. -/
def classPattern : Pattern Slot :=
  blanks ++ word "class" ++ gap ++ namePattern ++ blanks ++
    maybe (word "(" ++ capture .parents (run (· != ')')) ++ word ")") ++ blanks ++ word ":"

def functionPattern : Pattern Slot :=
  blanks ++ maybe (capture .async (word "async" ++ gap)) ++ word "def" ++ gap ++ namePattern ++ blanks ++ word "("

def fromImportPattern : Pattern Slot :=
  blanks ++ word "from" ++ gap ++ capture .source (run1 fun c => Text.isWord c || c == '.') ++ gap ++
    word "import" ++ gap ++ capture .items (run1 isLineChar) ++ atEnd

def importPattern : Pattern Slot :=
  blanks ++ word "import" ++ gap ++ capture .items (run1 isLineChar) ++ atEnd

def exportListPattern : Pattern Slot :=
  word "__all__" ++ blanks ++ word "=" ++ blanks ++ oneOf "[(" ++ capture .items (run isLineChar) ++ oneOf "])"

/-! ## Declarations -/

/-- The depth of a line: how many blank characters it begins with. -/
def depth (line : Text) : Nat := line.length - line.stripStart.length

def isHidden (name : Text) : Bool := name.head? == some '_'

def isSpecial (name : Text) : Bool := "__".toList.isPrefixOf name && "__".toList.isSuffixOf name

def manner (name : Text) (isAsync : Bool) : Manner :=
  if isAsync then .async
  else if isSpecial name then .special
  else if isHidden name then .hidden
  else .regular

def declared? (line : Text) : Option Declared :=
  match classPattern.match? line with
  | some caps => some (.classType (caps.text .name) (Text.items (caps.text .parents)))
  | none =>
    (functionPattern.match? line).map fun caps =>
      let name := caps.text .name
      .function name (manner name (caps.get? .async).isSome)

/-- The export that goes with a declaration: one at the outermost depth, of a name that is not hidden. -/
def exportOf? (d : Declaration) : Option ExportEntry :=
  if d.depth == 0 && !isHidden d.what.name then
    match d.what with
    | .classType name _ => some ⟨name, .classExport, d.line + 1⟩
    | .function name _ => some ⟨name, .functionExport, d.line + 1⟩
    | .heading _ => none
  else none

/-! ## Imports and export lists -/

/-- The name that an item takes, without the name that it is known by here. -/
def takenName (item : Text) : Text := (Text.beforeText " as ".toList item).strip

def importsOf (line : Text) (number : Nat) : List ImportEntry :=
  match fromImportPattern.match? line with
  | some caps =>
    let listed := ((caps.text .items).strip.trim (isOneOf "()\\")).strip
    [⟨caps.text .source, (Text.items listed).map takenName, number⟩]
  | none =>
    match importPattern.match? line with
    | some caps =>
      (Text.items (caps.text .items)).map fun item =>
        let source := takenName item
        ⟨source, [Text.afterLast '.' source], number⟩
    | none => []

def exportListOf (line : Text) (number : Nat) : List ExportEntry :=
  match exportListPattern.match? line with
  | some caps => (Text.items (caps.text .items)).map fun item => ⟨item.trim (isOneOf "'\""), .listed, number⟩
  | none => []

/-! ## Docstrings -/

def docQuotes : List Text := ["\"\"\"".toList, "'''".toList]

/-- The quotes that open a docstring at the beginning of a stripped line, after one letter at most. -/
def openingQuote? (stripped : Text) : Option Text :=
  ["".toList, "r".toList, "u".toList, "b".toList, "f".toList].findSome? fun letter =>
    docQuotes.find? fun quote => (letter ++ quote).isPrefixOf stripped

/-! ## Scanning -/

def codeFinding (i : Nat) (line : Text) : Finding :=
  match declared? line with
  | some what =>
    let d : Declaration := ⟨i, depth line, what⟩
    ⟨some d, [], (exportOf? d).toList⟩
  | none => ⟨none, importsOf line (i + 1), exportListOf line (i + 1)⟩

/-- What is found on the line with index `i`, and the quotes of the docstring that is open after it. -/
def step (docQuote : Option Text) (i : Nat) (line : Text) : Option Text × Finding :=
  let stripped := line.strip
  match docQuote with
  | some quote => (if Text.occursIn quote stripped then none else some quote, .none)
  | none =>
    if stripped.isEmpty || stripped.head? == some '#' then (none, .none)
    else
      match openingQuote? stripped with
      | some quote => (if Text.countFrom quote 0 stripped < 2 then some quote else none, .none)
      | none => (none, codeFinding i line)

def findingsFrom (docQuote : Option Text) (i : Nat) : List Text → List Finding
  | [] => []
  | line :: rest =>
    let (docQuote', found) := step docQuote i line
    found :: findingsFrom docQuote' (i + 1) rest

def findings (lines : List Text) : List Finding := findingsFrom none 0 lines

end Chunkwise.Indented
