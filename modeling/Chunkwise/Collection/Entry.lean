import Chunkwise.Collection.SourceFile
import Chunkwise.Size

/-!
# Writing entries

An entry of a collection is a header with the fields of a file, the body, and a separator. The body of a binary
file, and of one that could not be read, is a note in place of the content.
-/

namespace Chunkwise

/-- What is written about a file. -/
structure Entry where
  filename : Text
  /-- The content, when it could be read. -/
  content : Option Text
  directory : Text := []
  relativePath : Text := []
  fullPath : Text := []
  tags : List Text := []
  binary : Bool := false
deriving Repr, DecidableEq

namespace Entry

def fieldLine (name : String) (value : Text) : Text := name.toList ++ ':' :: ' ' :: value

/-- The field lines after the filename. A path that is not given falls back to the next shorter one. -/
def fields (e : Entry) : List Text :=
  let relative := e.relativePath.orElse e.filename
  [fieldLine "directory" e.directory,
    fieldLine "relative_path" relative,
    fieldLine "full_path" (e.fullPath.orElse relative)] ++
  (if e.tags.isEmpty then [] else [fieldLine "classification" (Text.join ", ".toList e.tags)]) ++
  (if e.binary then [fieldLine "type" "binary".toList, fieldLine "size" (Size.text 0)]
   else
    match e.content with
    | none => []
    | some content =>
      [fieldLine "type" "text".toList,
        fieldLine "original_lines" (Text.decimal content.lines.length),
        fieldLine "size" (Size.text content.length)])

def body (e : Entry) : Text :=
  if e.binary then "// Binary file - content not included\n".toList
  else e.content.getD "// Could not read file content\n".toList

def header (e : Entry) : Header := ⟨e.filename, e.fields⟩

def text (e : Entry) : Text := e.header.text ++ e.body ++ Collection.separator

end Entry

/-- The text of a collection: entries one after the other, behind a preamble. -/
def Collection.build (preamble : Text) (entries : List Entry) : Text := preamble ++ entries.flatMap (·.text)

end Chunkwise
