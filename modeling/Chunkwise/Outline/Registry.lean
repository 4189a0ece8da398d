import Chunkwise.Keyed
import Chunkwise.Outline.OfContent

/-!
# Choosing a scanner

The extension of a file decides how its lines are read. A file whose extension is not registered, whose content is
binary, or whose scanner refuses the content is searched for headings, so that every file has an outline.
-/

namespace Chunkwise

/-- Scanners by extension, in the order of registration. -/
abbrev Registry := Keyed Scanner

def Scanner.extensions : Scanner → List Text
  | .indented => [".py".toList, ".pyx".toList, ".pyi".toList]
  | .braced =>
    [".js".toList, ".jsx".toList, ".mjs".toList, ".cjs".toList, ".ts".toList, ".tsx".toList, ".java".toList,
      ".kt".toList, ".kts".toList, ".cs".toList]
  | .headings => []

namespace Registry

/-- An extension as the registry writes it: without points in front, in small letters. -/
def normalize (extension : Text) : Text := Text.lower (extension.dropWhile (· == '.'))

/-- Registers a scanner for an extension; an extension that is registered again keeps its place. -/
def register (r : Registry) (extension : Text) (scanner : Scanner) : Registry := r.put (normalize extension) scanner

def builtIn : Registry :=
  [Scanner.indented, .braced].foldl
    (fun r scanner => scanner.extensions.foldl (fun r extension => r.register extension scanner) r) []

def supports (r : Registry) (extension : Text) : Bool := (r.get? (normalize extension)).isSome

/-- The scanner for an extension: the one for headings when there is no other. -/
def scannerFor (r : Registry) (extension : Text) : Scanner := (r.get? (normalize extension)).getD .headings

end Registry

namespace Outline

def ofFile (r : Registry) (filename content : Text) (binary : Bool) : Outline :=
  let scanner := if binary then .headings else r.scannerFor filename.baseName.suffix
  match ofContent scanner filename content with
  | .ok outline => outline
  | .error _ => ofLines .headings filename content

end Outline

end Chunkwise
