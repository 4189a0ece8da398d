import Chunkwise.Fault
import Chunkwise.Outline.Braced
import Chunkwise.Outline.Headings
import Chunkwise.Outline.Indented
import Chunkwise.Text.Path

/-!
# The outline of a content

A scanner turns the lines of a content into findings, and these are gathered into an outline. A content with any
character that is not blank has at least one block: without declarations, the whole file is one section.
-/

namespace Chunkwise

namespace Scanner

/-- The kinds of file that are known by their extensions, for the scanner of braces. -/
def bracedTypes : List (Text × FileType) := [
  ("js".toList, .javascript), ("jsx".toList, .javascript), ("mjs".toList, .javascript), ("cjs".toList, .javascript),
  ("ts".toList, .typescript), ("tsx".toList, .typescript), ("java".toList, .java), ("kt".toList, .kotlin),
  ("kts".toList, .kotlin), ("cs".toList, .csharp)]

/-- The kinds of file that are known by their extensions, for the scanner of headings. -/
def headingTypes : List (Text × FileType) := [
  ("css".toList, .stylesheet), ("scss".toList, .stylesheet), ("sass".toList, .stylesheet),
  ("less".toList, .stylesheet), ("html".toList, .markup), ("htm".toList, .markup), ("xml".toList, .markup),
  ("vue".toList, .markup), ("svelte".toList, .markup), ("json".toList, .config), ("yaml".toList, .config),
  ("yml".toList, .config), ("toml".toList, .config), ("ini".toList, .config), ("cfg".toList, .config),
  ("conf".toList, .config), ("env".toList, .config), ("md".toList, .documentation), ("rst".toList, .documentation),
  ("txt".toList, .documentation)]

def fileType (scanner : Scanner) (filename : Text) : FileType :=
  match scanner with
  | indented => .python
  | braced => (bracedTypes.lookup filename.extension).getD .javascript
  | headings => (headingTypes.lookup filename.extension).getD .generic

/-- Whether a scanner reads source code only, and so refuses a content with NUL characters. -/
def readsSource : Scanner → Bool
  | headings => false
  | indented | braced => true

def findings : Scanner → List Text → List Finding
  | indented => Indented.findings
  | braced => Braced.findings
  | headings => Headings.findings

end Scanner

namespace Outline

def wholeFile (filename : Text) (lines : List Text) : Block :=
  let name := filename.baseName
  ⟨.sectionBlock, name, 0, (lines.length - 1 : Nat), blockImportance name .sectionBlock, 0⟩

/-- The outline of a file of which nothing is known but its name. -/
def blank (scanner : Scanner) (filename : Text) : Outline where
  filename := filename
  scanner := scanner
  fileType := scanner.fileType filename
  functions := []
  classes := []
  imports := []
  exports := []
  blocks := []
  complexity := 0
  priority := filePriority filename 0 0

/-- How much a file declares: a function counts twice, a class three times, an import and an export once each. -/
def declaredWeight (functions classes imports exports : Nat) : Nat := functions * 2 + classes * 3 + imports + exports

/-- The outline that a scanner makes of a content that it accepts. -/
def ofLines (scanner : Scanner) (filename content : Text) : Outline :=
  let lines := content.lines
  let findings := scanner.findings lines
  let ds := declarations findings
  let functions := ds.filterMap (·.function?)
  let classes := ds.filterMap (·.class?)
  let imports := findings.flatMap (·.imports)
  let exports := findings.flatMap (·.exports)
  let tracked := blocksOf ds (lines.length - 1)
  let blocks := if tracked.isEmpty && !content.isBlankText then [wholeFile filename lines] else tracked
  let complexity :=
    match scanner with
    | .headings => blocks.length
    | _ => declaredWeight functions.length classes.length imports.length exports.length
  { filename, scanner, fileType := scanner.fileType filename, functions, classes, imports, exports, blocks, complexity
    priority := filePriority filename complexity exports.length }

/-- The outline that a scanner makes of a content, or the reason why it refuses it. -/
def ofContent (scanner : Scanner) (filename content : Text) : Except Fault Outline :=
  if content.isEmpty then .ok (blank scanner filename)
  else if scanner.readsSource && content.contains '\x00' then .error (.notSource filename)
  else .ok (ofLines scanner filename content)

end Outline

end Chunkwise
