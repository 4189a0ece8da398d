import Chunkwise.Text.Basic

/-!
# References

A file refers to another one by importing it or by calling a function that it defines. Once the files are spread
over chunks, a reference leads from one chunk to another.
-/

namespace Chunkwise

inductive ReferenceKind where
  | importing
  | calling
deriving Repr, DecidableEq

namespace ReferenceKind

def word : ReferenceKind → Text
  | importing => "import".toList
  | calling => "function_call".toList

def ofWord? (w : Text) : Option ReferenceKind := [importing, calling].find? (·.word == w)

theorem ofWord?_word (k : ReferenceKind) : ofWord? k.word = some k := by cases k <;> decide

end ReferenceKind

/-- A reference from one file to another, before chunks are known. Files are named by their keys. -/
structure FileReference where
  kind : Option ReferenceKind
  source : Text
  target : Text
  items : List Text := []
  function : Option Text := none
  line : Int := 0
deriving Repr, DecidableEq

def FileReference.description (r : FileReference) : Text :=
  match r.kind with
  | some .importing =>
    if r.items.isEmpty then "imports ".toList ++ r.target
    else "imports ".toList ++ Text.join ", ".toList r.items ++ " from ".toList ++ r.target
  | some .calling => "calls function ".toList ++ r.function.getD "None".toList ++ " in ".toList ++ r.target
  | none => "references ".toList ++ r.target

/-- A reference from the chunk that holds it to another chunk. -/
structure CrossReference where
  kind : Option ReferenceKind
  targetChunk : Int
  targetFile : Text
  sourceFile : Text
  description : Text
deriving Repr, DecidableEq

end Chunkwise
