import Chunkwise.Outline.Comments
import Chunkwise.Outline.Finding
import Chunkwise.Pattern
import Chunkwise.Text.Word

/-!
# Sources nested by braces

The lines of a JavaScript, TypeScript, Java, Kotlin or C# source are read without their comments. A declaration
stands at the depth of the braces that are open before its line; a line may import and export names besides.
-/

namespace Chunkwise.Braced

open Pattern

/-! ## Vocabulary -/

/-- Words that stand before a parenthesis without naming a function. -/
def controlWords : List String := [
  "if", "for", "while", "switch", "catch", "return", "function", "else", "do", "try", "finally", "with", "new",
  "typeof", "await", "yield", "throw", "case", "delete", "void", "sizeof", "lock", "using", "foreach",
  "synchronized", "when", "super", "this"]

/-- Words that may stand before a declaration. -/
def modifierWords : List String := [
  "public", "private", "protected", "internal", "static", "final", "abstract", "override", "virtual", "async",
  "synchronized", "suspend", "open", "inline", "sealed", "readonly", "partial", "extern", "unsafe", "export",
  "default", "declare", "native", "operator", "infix", "tailrec", "data", "inner", "enum", "annotation"]

/-- Words one of which stands before a method whose opening brace is on the next line. -/
def methodWords : List String := [
  "public", "private", "protected", "internal", "static", "override", "virtual", "async", "abstract", "sealed",
  "final", "synchronized"]

inductive Slot where
  | name
  | extended
  | implemented
  | listed
  | source
  | named
  | wholeModule
  | defaultName
  | moreNamed
  | isDefault
deriving Repr, DecidableEq

/-! ## Building blocks -/

def wordRun : Pattern Slot := run1 Text.isWord

def nameRun (slot : Slot) : Pattern Slot := capture slot wordRun

def wordRunWith (others : String) : Pattern Slot := run1 fun c => Text.isWord c || isOneOf others c

def runNot (others : String) : Pattern Slot := run fun c => !isOneOf others c

def run1Not (others : String) : Pattern Slot := run1 fun c => !isOneOf others c

def spaced (ws : List String) : Pattern Slot := anyWord ws ++ gap

def modifiers : Pattern Slot := many (spaced modifierWords)

def variableWord : Pattern Slot := anyWord ["const", "let", "var"]

def typeNote : Pattern Slot := maybe (word ":" ++ blanks ++ run1Not "=")

/-! ## Function patterns -/

def functionDeclaration : Pattern Slot :=
  blanks ++ maybe (word "export" ++ gap) ++ maybe (word "default" ++ gap) ++ maybe (word "async" ++ gap) ++
    word "function" ++ blanks ++ maybe (word "*") ++ blanks ++ nameRun .name ++ blanks ++ word "("

def arrowFunction : Pattern Slot :=
  blanks ++ maybe (word "export" ++ gap) ++ variableWord ++ gap ++ nameRun .name ++ blanks ++ typeNote ++ word "=" ++
    blanks ++ maybe (word "async" ++ gap) ++ either (word "(" ++ runNot ")" ++ word ")") wordRun ++ blanks ++
    typeNote ++ word "=>"

def functionValue : Pattern Slot :=
  blanks ++ maybe (word "export" ++ gap) ++ variableWord ++ gap ++ nameRun .name ++ blanks ++ word "=" ++ blanks ++
    maybe (word "async" ++ gap) ++ word "function" ++ notBefore Text.isWord

def functionMember : Pattern Slot :=
  blanks ++ nameRun .name ++ blanks ++ word ":" ++ blanks ++ maybe (word "async" ++ gap) ++ word "function" ++
    blanks ++ maybe (word "*") ++ blanks ++ word "("

/-- A function under the keyword `fun`, with type parameters and a receiver or without. -/
def funDeclaration : Pattern Slot :=
  blanks ++ modifiers ++ word "fun" ++ gap ++ maybe (word "<" ++ run1Not ">" ++ word ">" ++ blanks) ++
    maybe (wordRunWith "." ++ word ".") ++ nameRun .name ++ blanks ++ word "("

def methodHead : Pattern Slot :=
  maybe (wordRunWith "<>[],.?" ++ gap) ++ nameRun .name ++ blanks ++ maybe (word "<" ++ runNot ">" ++ word ">") ++
    blanks ++ word "(" ++ runNot ";" ++ word ")" ++ blanks

def throwsClause : Pattern Slot := word "throws" ++ gap ++ wordRunWith "., "

/-- A method whose body opens on its line. -/
def methodDeclaration : Pattern Slot :=
  blanks ++ modifiers ++ methodHead ++ maybe (word ":" ++ blanks ++ wordRunWith "<>[]|?,. ") ++ blanks ++
    maybe throwsClause ++ blanks ++ firstOf [word "\x7b", word "=>"] ++ blanks ++ maybe (word "\x7d" ++ blanks) ++
    atEnd

/-- A method whose body opens on the next line; it needs a modifier. -/
def hangingMethod : Pattern Slot :=
  blanks ++ spaced methodWords ++ many (spaced methodWords) ++ methodHead ++ maybe throwsClause ++ atEnd

/-- The ways to declare a function, in the order in which they are tried. -/
def functionPatterns : List (Pattern Slot) := [
  functionDeclaration, arrowFunction, functionValue, functionMember, funDeclaration, methodDeclaration, hangingMethod]

/-! ## Type patterns -/

/-- The names that a type builds on, as few characters as the rest of the line allows. -/
def parentRun (slot : Slot) (others : String) : Pattern Slot :=
  capture slot (few1 fun c => Text.isWord c || isOneOf others c)

def typePattern : Pattern Slot :=
  blanks ++ modifiers ++ anyWord ["class", "interface", "struct", "record", "object", "enum"] ++ gap ++
    nameRun .name ++ maybe (blanks ++ word "<" ++ runNot ">" ++ word ">") ++
    maybe (gap ++ word "extends" ++ gap ++ parentRun .extended ".<>, ") ++
    maybe (gap ++ word "implements" ++ gap ++ parentRun .implemented ".<>, ") ++
    maybe (blanks ++ word ":" ++ blanks ++ parentRun .listed ".<>(), ") ++ blanks ++
    firstOf [word "\x7b", atEnd, word "("]

/-! ## Import patterns -/

def quoteMark : Pattern Slot := oneOf "'\""

def quotedSource : Pattern Slot := quoteMark ++ capture .source (run1Not "'\"") ++ quoteMark

def bracedNames (slot : Slot) : Pattern Slot := word "\x7b" ++ capture slot (runNot "\x7d") ++ word "\x7d"

def namedImport : Pattern Slot :=
  blanks ++ word "import" ++ gap ++ maybe (word "type" ++ gap) ++
    firstOf [
      bracedNames .named,
      word "*" ++ gap ++ word "as" ++ gap ++ nameRun .wholeModule,
      nameRun .defaultName ++ maybe (blanks ++ word "," ++ blanks ++ bracedNames .moreNamed)] ++
    gap ++ word "from" ++ gap ++ quotedSource

/-- An import of a module for its effects. -/
def effectImport : Pattern Slot := blanks ++ word "import" ++ gap ++ quotedSource

def requiredModule : Pattern Slot :=
  blanks ++ variableWord ++ gap ++
    capture .named (either (word "\x7b" ++ runNot "\x7d" ++ word "\x7d") wordRun) ++ blanks ++ word "=" ++ blanks ++
    word "require" ++ blanks ++ word "(" ++ blanks ++ quotedSource ++ blanks ++ word ")"

def dottedImport : Pattern Slot :=
  blanks ++ word "import" ++ gap ++ maybe (word "static" ++ gap) ++ capture .source (wordRunWith ".") ++
    maybe (word ".*") ++ blanks ++ maybe (word ";") ++ blanks ++ atEnd

def usingDirective : Pattern Slot :=
  blanks ++ word "using" ++ gap ++ maybe (word "static" ++ gap) ++ capture .source (wordRunWith ".") ++ blanks ++
    word ";"

/-! ## Export patterns -/

def exportPattern : Pattern Slot :=
  blanks ++ word "export" ++ gap ++ maybe (capture .isDefault (word "default" ++ gap)) ++
    maybe (maybe (word "async" ++ gap) ++
      firstOf [word "const", word "let", word "var", word "function" ++ maybe (word "*"), word "class",
        word "interface", word "type", word "enum"] ++ gap) ++
    nameRun .name

def exportsAssignment : Pattern Slot :=
  blanks ++ anyWord ["module.exports", "exports"] ++ maybe (word "." ++ nameRun .name) ++ blanks ++ word "="

def publicType : Pattern Slot :=
  blanks ++ word "public" ++ gap ++ many (wordRun ++ gap) ++
    anyWord ["class", "interface", "enum", "record", "struct"] ++ gap ++ nameRun .name

/-! ## Declarations -/

/-- The names that a type builds on: those it extends, implements and lists after a colon, without arguments. -/
def parents (caps : Captures Slot) : List Text :=
  ([Slot.extended, .implemented, .listed].flatMap fun slot =>
    (Text.items (caps.text slot)).map fun item => (Text.before '(' item).strip).filter (!·.isEmpty)

/-- How a function is declared, by the words and marks on its line. -/
def manner (code : Text) : Manner :=
  if code.holds "async" then .async
  else if code.holds "=>" then .arrow
  else if code.holds "function*" then .generator
  else if code.holds "export" then .exported
  else .regular

/-- The function that a line declares: the first pattern that names something other than a control word. -/
def functionName? (code : Text) : Option Text :=
  functionPatterns.findSome? fun p =>
    match p.match? code with
    | some caps =>
      let name := caps.text .name
      if controlWords.any (·.toList == name) then none else some name
    | none => none

def declared? (code : Text) : Option Declared :=
  match typePattern.match? code with
  | some caps => some (.classType (caps.text .name) (parents caps))
  | none => (functionName? code).map fun name => .function name (manner code)

/-! ## Imports and exports -/

/-- The names in a list that may be renamed by `as` or by a colon. -/
def takenNames (listed : Text) : List Text :=
  (Text.items listed).map fun item => (Text.before ':' (Text.beforeText " as ".toList item)).strip

def lastPart (source : Text) : Text := Text.afterLast '.' source

def import? (code : Text) (number : Nat) : Option ImportEntry :=
  match namedImport.match? code with
  | some caps =>
    let single (slot : Slot) : List Text := (caps.get? slot).toList
    let taken := takenNames (caps.text .named) ++ takenNames (caps.text .moreNamed)
    some ⟨caps.text .source, single .defaultName ++ single .wholeModule ++ taken, number⟩
  | none =>
  match effectImport.match? code with
  | some caps => some ⟨caps.text .source, [], number⟩
  | none =>
  match requiredModule.match? code with
  | some caps =>
    let target := caps.text .named
    let items := if target.head? == some '\x7b' then takenNames (target.trim (isOneOf "\x7b\x7d")) else [target]
    some ⟨caps.text .source, items, number⟩
  | none =>
  match dottedImport.match? code with
  | some caps => some ⟨caps.text .source, [lastPart (caps.text .source)], number⟩
  | none =>
    (usingDirective.match? code).map fun caps => ⟨caps.text .source, [lastPart (caps.text .source)], number⟩

def export? (code : Text) (number : Nat) : Option ExportEntry :=
  match exportPattern.match? code with
  | some caps => some ⟨caps.text .name, if (caps.get? .isDefault).isSome then .asDefault else .named, number⟩
  | none =>
  match exportsAssignment.match? code with
  | some caps => some ⟨(caps.get? .name).getD "module.exports".toList, .commonjs, number⟩
  | none => (publicType.match? code).map fun caps => ⟨caps.text .name, .publicType, number⟩

/-! ## Scanning -/

/-- What is open at the beginning of a line. -/
structure Inside where
  /-- How many braces are open; never less than none. -/
  braces : Nat
  /-- Whether a block comment is open. -/
  comment : Bool
deriving Repr, DecidableEq

def codeFinding (i depth : Nat) (code : Text) : Finding :=
  ⟨(declared? code).map fun what => ⟨i, depth, what⟩, (import? code (i + 1)).toList, (export? code (i + 1)).toList⟩

/-- What is found on the line with index `i`, and what is open after it. -/
def step (inside : Inside) (i : Nat) (line : Text) : Inside × Finding :=
  let (code, comment) := Comments.strip line inside.comment
  if code.strip.isEmpty then ({ inside with comment }, .none)
  else (⟨inside.braces + code.count '\x7b' - code.count '\x7d', comment⟩, codeFinding i inside.braces code)

def findingsFrom (inside : Inside) (i : Nat) : List Text → List Finding
  | [] => []
  | line :: rest =>
    let (inside', found) := step inside i line
    found :: findingsFrom inside' (i + 1) rest

def findings (lines : List Text) : List Finding := findingsFrom ⟨0, false⟩ 0 lines

end Chunkwise.Braced
