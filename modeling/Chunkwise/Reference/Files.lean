import Chunkwise.Outline.Basic
import Chunkwise.Reference.Basic
import Chunkwise.Reference.Calls
import Chunkwise.Reference.Lookup

/-!
# References between files

A file refers to each file that one of its imports stands for, and to each file that alone defines a function which
it calls and does not define itself.
-/

namespace Chunkwise.Reference

/-- The names of the functions that a file defines, by its outline. -/
def functionNames (outline : Option Outline) : List Text :=
  match outline with
  | some o => o.functions.map (·.name)
  | none => []

/-! ## Imports -/

def importReferences (files : List SourceFile) (outlines : Keyed Outline) (f : SourceFile) : List FileReference :=
  match outlines.get? f.key with
  | none => []
  | some outline =>
    outline.imports.filterMap fun i =>
      match lookupModule files (some f.key) i.source with
      | some target =>
        if target.isEmpty then none
        else some {
          kind := some .importing, source := f.key, target := target, items := i.items.filter (!·.isEmpty),
          line := i.line }
      | none => none

/-! ## Calls -/

def definers (files : List SourceFile) (outlines : Keyed Outline) (name : Text) : List Text :=
  (files.filter fun f => (functionNames (outlines.get? f.key)).contains name).map (·.key)

/-- Whether calls of a name are followed: the name is long enough and not between two pairs of underscores. -/
def isTrackable (minLength : Int) (name : Text) : Bool :=
  decide (minLength ≤ name.length) && !("__".toList.isPrefixOf name && "__".toList.isSuffixOf name)

/-- The key of the only file that defines a function whose calls are followed. -/
def definer? (files : List SourceFile) (outlines : Keyed Outline) (minLength : Int) (name : Text) : Option Text :=
  if isTrackable minLength name then
    match definers files outlines name with
    | [key] => some key
    | _ => none
  else none

/-- The references that a file makes by its calls, in the order of the names. -/
def callReferences (files : List SourceFile) (outlines : Keyed Outline) (minLength : Int) (f : SourceFile) :
    List FileReference :=
  let own := functionNames (outlines.get? f.key)
  ((calledNames f.content).eraseDups.mergeSort Text.le).filterMap fun name =>
    match definer? files outlines minLength name with
    | some target =>
      if target == f.key || own.contains name then none
      else some { kind := some .calling, source := f.key, target := target, function := some name }
    | none => none

/-! ## All references -/

def append (m : Keyed (List FileReference)) (key : Text) (more : List FileReference) :
    Keyed (List FileReference) := m.update key fun old => old.getD [] ++ more

/-- The references of the files of a collection: for each key its imports, then its calls. -/
def ofFiles (files : List SourceFile) (outlines : Keyed Outline) (minLength : Int) : Keyed (List FileReference) :=
  let imports := files.foldl (fun m f => append m f.key (importReferences files outlines f)) []
  files.foldl (fun m f => append m f.key (callReferences files outlines minLength f)) imports

end Chunkwise.Reference
