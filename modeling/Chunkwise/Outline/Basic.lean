import Chunkwise.Text.Basic

/-!
# Outlines

The outline of a file lists what its lines declare: functions, classes, imports and exports, and the blocks of
lines that the declarations head. Lines of entries count from one, lines of blocks from zero.
-/

namespace Chunkwise

/-! ## Blocks -/

/-- What a block of lines holds. -/
inductive BlockKind where
  | functionBlock
  | classBlock
  | sectionBlock
deriving Repr, DecidableEq

namespace BlockKind

def word : BlockKind → Text
  | functionBlock => "function".toList
  | classBlock => "class".toList
  | sectionBlock => "section".toList

def ofWord? (w : Text) : Option BlockKind :=
  [functionBlock, classBlock, sectionBlock].find? (·.word == w)

theorem ofWord?_word (k : BlockKind) : ofWord? k.word = some k := by cases k <;> decide

end BlockKind

/-- A run of lines under one declaration, both ends included. -/
structure Block where
  kind : BlockKind
  name : Text
  startLine : Int
  endLine : Int
  importance : Int
  depth : Int
deriving Repr, DecidableEq

/-! ## Entries -/

inductive Manner where
  | regular
  | async
  | special
  | hidden
  | arrow
  | generator
  | exported
deriving Repr, DecidableEq

def Manner.word : Manner → Text
  | .regular => "regular".toList
  | .async => "async".toList
  | .special => "special".toList
  | .hidden => "private".toList
  | .arrow => "arrow".toList
  | .generator => "generator".toList
  | .exported => "exported".toList

structure FunctionEntry where
  name : Text
  line : Nat
  manner : Manner
deriving Repr, DecidableEq

/-- A declared class and the names that it inherits from. -/
structure ClassEntry where
  name : Text
  line : Nat
  parents : List Text
deriving Repr, DecidableEq

/-- An imported module and the names taken from it. -/
structure ImportEntry where
  source : Text
  items : List Text
  line : Nat
deriving Repr, DecidableEq

inductive ExportKind where
  | classExport
  | functionExport
  | listed
  | asDefault
  | named
  | commonjs
  | publicType
deriving Repr, DecidableEq

def ExportKind.word : ExportKind → Text
  | .classExport => "class".toList
  | .functionExport => "function".toList
  | .listed => "all".toList
  | .asDefault => "default".toList
  | .named => "named".toList
  | .commonjs => "commonjs".toList
  | .publicType => "public".toList

structure ExportEntry where
  name : Text
  kind : ExportKind
  line : Nat
deriving Repr, DecidableEq

/-! ## Files -/

inductive FileType where
  | python
  | javascript
  | typescript
  | java
  | kotlin
  | csharp
  | stylesheet
  | markup
  | config
  | documentation
  | generic
deriving Repr, DecidableEq

def FileType.word : FileType → Text
  | .python => "python".toList
  | .javascript => "javascript".toList
  | .typescript => "typescript".toList
  | .java => "java".toList
  | .kotlin => "kotlin".toList
  | .csharp => "csharp".toList
  | .stylesheet => "stylesheet".toList
  | .markup => "markup".toList
  | .config => "config".toList
  | .documentation => "documentation".toList
  | .generic => "generic".toList

/-- A way of reading the lines of a file: by indentation, by braces, or for headings only. -/
inductive Scanner where
  | indented
  | braced
  | headings
deriving Repr, DecidableEq

/-- What the lines of one file declare. -/
structure Outline where
  filename : Text
  scanner : Scanner
  fileType : FileType
  functions : List FunctionEntry
  classes : List ClassEntry
  imports : List ImportEntry
  exports : List ExportEntry
  blocks : List Block
  complexity : Nat
  priority : Int
deriving Repr, DecidableEq

end Chunkwise
