import Chunkwise.Collection.Header
import Chunkwise.Keyed
import Chunkwise.Text.Blank
import Chunkwise.Text.Path

/-!
# Files of a collection

A file extends from its header to the next header, or to the end of the text. So the files of a collection are
contiguous; what precedes the first header belongs to no file.
-/

namespace Chunkwise

/-- One file of a collection. Offsets are positions in the text of the collection. -/
structure SourceFile where
  filename : Text
  /-- The file's own text, without the header and the separator after it. -/
  content : Text
  start : Int
  stop : Int
  /-- Where the text after the header begins. -/
  body : Int
  /-- The name under which the file is known in the collection. -/
  key : Text
  metadata : Keyed Text
deriving Repr, DecidableEq

namespace SourceFile

/-- The number of characters of the whole entry. -/
def size (f : SourceFile) : Int := f.stop - f.start

def extension (f : SourceFile) : Text := f.filename.baseName.extension

def isBinary (f : SourceFile) : Bool := f.metadata.get? "type".toList == some "binary".toList

end SourceFile

namespace Collection

def separator : Text := ['\n', '\n']

/-! ## Metadata -/

/-- The name and the value of a field, around the first colon: a field without colon or without name says nothing. -/
def field? (line : Text) : Option (Text × Text) :=
  match Text.cut? ':' line with
  | some (name, value) => if name.strip.isEmpty then none else some (name.strip, value.strip)
  | none => none

/-- The fields that the field lines of a header write. -/
def fieldsOf (lines : List Text) : List (Text × Text) :=
  lines.flatMap fun line => (Text.splitBy Text.isLineBreak line).filterMap field?

/-- The metadata of a file: its fields, the last of each name, and its filename. -/
def metadataOf (h : Header) : Keyed Text := (Keyed.ofList (fieldsOf h.fields)).put "filename".toList h.name.strip

/-! ## Keys -/

/-- The name by which a file asks to be known: its relative path, or else its filename. -/
def wantedKey (h : Header) : Text := (((metadataOf h).get? "relative_path".toList).getD []).orElse h.name.strip

/-- The key of a file whose wanted key came up `earlier` times before: from the second time on a number follows it. -/
def numberedKey (wanted : Text) (earlier : Nat) : Text :=
  if earlier = 0 then wanted else wanted ++ '#' :: Text.decimal (earlier + 1)

/-! ## Reading -/

/-- The files that begin with the given headers of a text, when the wanted keys in `used` came up before. -/
def filesFrom (text : Text) (used : List Text) : List (Nat × Header) → List SourceFile
  | [] => []
  | (start, h) :: rest =>
    let body := start + h.text.length
    let stop := (rest.head?.map (·.1)).getD text.length
    let wanted := wantedKey h
    { filename := h.name.strip
      content := Text.dropEnding separator (Text.slice text body stop)
      start := start
      stop := stop
      body := body
      key := numberedKey wanted (used.count wanted)
      metadata := metadataOf h } :: filesFrom text (wanted :: used) rest

def parse (text : Text) : List SourceFile := filesFrom text [] (Header.findAll text)

end Collection

end Chunkwise
