import Chunkwise.Collection.SourceFile

/-!
# Looking up modules

An import names a module, and the module is looked for among the files of the collection. A file whose base name
equals the last part of the module's name is preferred; without one, a file will do whose base name is part of the
module's name or has the last part in it.
-/

namespace Chunkwise.Reference

/-! ## Names -/

def isPathSeparator (c : Char) : Bool := c == '/' || c == '\\'

def moduleExtensions : List Text := [
  "js".toList, "jsx".toList, "mjs".toList, "cjs".toList, "ts".toList, "tsx".toList, "py".toList, "java".toList,
  "kt".toList, "cs".toList, "json".toList]

/-- A module's name as it is compared: stripped and in small letters. -/
def normalizeModule (name : Text) : Text := name.strip.lower

/-- Without an extension that an import may spell out. A line feed after the extension stays. -/
def dropExtension (name : Text) : Text :=
  let (body, ending) := if name.getLast? == some '\n' then (name.dropLast, ['\n']) else (name, [])
  if body.contains '.' && moduleExtensions.contains (Text.afterLast '.' body) then
    body.take (body.length - (Text.afterLast '.' body).length - 1) ++ ending
  else name

/-- The last part of a module's name, between points and path separators. -/
def moduleTail (name : Text) : Text :=
  let last := ((Text.splitBy isPathSeparator (Text.trimEnd (· == '/') name)).getLast?).getD []
  let tail := dropExtension last
  (((Text.splitBy (· == '.') tail).filter (!·.isEmpty)).getLast?).getD tail

/-- Whether a file with this base name is better known by the name of its directory. -/
def isPackageIndex (base : Text) : Bool := base == "index".toList || base == "__init__".toList

/-- The names by which a file can be imported: its base name up to the first point, and the directory's name where
    that is better known. -/
def importNames (f : SourceFile) : List Text :=
  let base := Text.before '.' f.filename.baseName.lower
  let path := ((f.metadata.get? "relative_path".toList).getD []).orElse f.key
  let parts := (Text.splitBy isPathSeparator path.lower).filter (!·.isEmpty)
  (if base.isEmpty then [] else [base]) ++
    (if isPackageIndex base && 2 ≤ parts.length then (parts[parts.length - 2]?).toList else [])

/-! ## Lookup -/

/-- The keys of files, each with a name by which the file can be imported, except those of one key. -/
def candidates (files : List SourceFile) (exclude : Option Text) : List (Text × Text) :=
  (files.filter fun f => exclude != some f.key).flatMap fun f => (importNames f).map fun name => (f.key, name)

/-- Whether a name is close enough to a module whose last part is `tail`. -/
def isNear (normalized tail name : Text) : Bool :=
  3 ≤ name.length && (Text.occursIn name normalized || Text.occursIn tail name)

def lookupModule (files : List SourceFile) (exclude : Option Text) (name : Text) : Option Text :=
  let normalized := normalizeModule name
  if normalized.isEmpty then none
  else
    let tail := moduleTail normalized
    let known := candidates files exclude
    match known.find? (·.2 == tail) with
    | some (key, _) => some key
    | none => if tail.length < 3 then none else (known.find? fun c => isNear normalized tail c.2).map (·.1)

end Chunkwise.Reference
