import Chunkwise.Collection.Entry
import Chunkwise.Proofs.Keyed
import Chunkwise.Proofs.Size
import Chunkwise.Proofs.Text.Parts

/-!
# Written fields are read back

The field lines of an entry name each field once. Read back they give the metadata of the file: every field with the
value that was written, and the filename after them.
-/

namespace Chunkwise

/-! ## One field -/

/-- A name for a field: a value that is not empty and has no colon. -/
structure IsFieldName (name : Text) : Prop where
  isValue : Text.IsValue name
  nonempty : name ≠ []
  uncut : ':' ∉ name

instance (name : Text) : Decidable (IsFieldName name) :=
  decidable_of_iff (Text.IsValue name ∧ name ≠ [] ∧ ':' ∉ name)
    ⟨fun is => ⟨is.1, is.2.1, is.2.2⟩, fun is => ⟨is.isValue, is.nonempty, is.uncut⟩⟩

namespace Collection

variable {name value : Text}

/-- The line of a field. -/
def line (name value : Text) : Text := name ++ ':' :: ' ' :: value

theorem field?_line (isName : IsFieldName name) (isValue : Text.IsValue value) :
    field? (line name value) = some (name, value) := by
  have blank : Text.strip (' ' :: value) = value := by rw [Text.strip_cons (by decide), isValue.stripped]
  simp only [field?, line, Text.cut?_append isName.uncut, isName.isValue.stripped, blank]
  rw [if_neg (by simpa using isName.nonempty)]

theorem unbroken_line (isName : IsFieldName name) (isValue : Text.IsValue value) :
    ∀ c ∈ line name value, Text.isLineBreak c = false := by
  intro c member
  simp only [line, List.mem_append, List.mem_cons] at member
  rcases member with inName | rfl | rfl | inValue
  · exact isName.isValue.unbroken c inName
  · decide
  · decide
  · exact isValue.unbroken c inValue

/-- Lines of fields are read back as these fields. -/
theorem fieldsOf_lines {fields : List (Text × Text)} (proper : ∀ f ∈ fields, IsFieldName f.1 ∧ Text.IsValue f.2) :
    fieldsOf (fields.map fun f => line f.1 f.2) = fields := by
  induction fields with
  | nil => rfl
  | cons f rest ih =>
    obtain ⟨⟨isName, isValue⟩, later⟩ := List.forall_mem_cons.mp proper
    unfold fieldsOf at ih ⊢
    rw [List.map_cons, List.flatMap_cons, ih later, Text.splitBy_of_plain (unbroken_line isName isValue)]
    simp [field?_line isName isValue]

end Collection

/-! ## The fields of an entry -/

namespace Entry

/-- The fields that the header of an entry writes after the filename. -/
def written (e : Entry) : List (Text × Text) :=
  let relative := e.relativePath.orElse e.filename
  [("directory".toList, e.directory), ("relative_path".toList, relative),
    ("full_path".toList, e.fullPath.orElse relative)] ++
  (if e.tags.isEmpty then [] else [("classification".toList, Text.join ", ".toList e.tags)]) ++
  (if e.binary then [("type".toList, "binary".toList), ("size".toList, Size.text 0)]
   else
    match e.content with
    | none => []
    | some content =>
      [("type".toList, "text".toList), ("original_lines".toList, Text.decimal content.lines.length),
        ("size".toList, Size.text content.length)])

/-- What is known of a file from the header of its entry. -/
def metadata (e : Entry) : Keyed Text := e.written ++ [("filename".toList, e.filename)]

/-- The name by which the file of an entry asks to be known. -/
def wanted (e : Entry) : Text := e.relativePath.orElse e.filename

/-- An entry is read back as it was written: its fields are values, and its body with the separator after it holds no
    header. -/
structure Writable (e : Entry) : Prop where
  filename : Text.IsValue e.filename
  directory : Text.IsValue e.directory
  relativePath : Text.IsValue e.relativePath
  fullPath : Text.IsValue e.fullPath
  classification : Text.IsValue (Text.join ", ".toList e.tags)
  body : Header.findAll (e.body ++ Collection.separator) = []

instance (e : Entry) : Decidable e.Writable :=
  decidable_of_iff (Text.IsValue e.filename ∧ Text.IsValue e.directory ∧ Text.IsValue e.relativePath ∧
      Text.IsValue e.fullPath ∧ Text.IsValue (Text.join ", ".toList e.tags) ∧
      Header.findAll (e.body ++ Collection.separator) = [])
    ⟨fun is => ⟨is.1, is.2.1, is.2.2.1, is.2.2.2.1, is.2.2.2.2.1, is.2.2.2.2.2⟩, fun is =>
      ⟨is.filename, is.directory, is.relativePath, is.fullPath, is.classification, is.body⟩⟩

theorem fields_eq (e : Entry) : e.fields = e.written.map fun f => Collection.line f.1 f.2 := by
  unfold fields written
  cases e.tags.isEmpty <;> cases e.binary <;> cases e.content <;> rfl

theorem isValue_orElse {t other : Text} (first : Text.IsValue t) (second : Text.IsValue other) :
    Text.IsValue (t.orElse other) := by
  unfold Text.orElse
  split
  · exact second
  · exact first

/-- The names of fields, in the order in which they are written. -/
def fieldNames : List Text :=
  ["directory".toList, "relative_path".toList, "full_path".toList, "classification".toList, "type".toList,
    "original_lines".toList, "size".toList]

theorem isFieldName_of_mem : ∀ name ∈ fieldNames, IsFieldName name := by decide

theorem names_written (e : Entry) : (e.written.map (·.1)).Sublist fieldNames := by
  unfold written
  cases e.tags.isEmpty <;> cases e.binary <;> cases e.content <;>
    simp only [Bool.false_eq_true, ↓reduceIte, List.map_append, List.map_cons, List.map_nil] <;> decide

theorem isValue_written {e : Entry} (writable : e.Writable) : ∀ f ∈ e.written, Text.IsValue f.2 := by
  have relative := isValue_orElse writable.relativePath writable.filename
  intro f member
  simp only [written, List.mem_append, List.mem_cons, List.not_mem_nil, or_false] at member
  rcases member with ((rfl | rfl | rfl) | tagged) | sort
  · exact writable.directory
  · exact relative
  · exact isValue_orElse writable.fullPath relative
  · split at tagged
    · cases tagged
    · obtain rfl := List.mem_singleton.mp tagged
      exact writable.classification
  · split at sort
    · simp only [List.mem_cons, List.not_mem_nil, or_false] at sort
      rcases sort with rfl | rfl
      · decide
      · exact Size.isValue_text 0
    · split at sort
      · cases sort
      · simp only [List.mem_cons, List.not_mem_nil, or_false] at sort
        rcases sort with rfl | rfl | rfl
        · decide
        · exact (figures_decimal _).solid.isValue
        · exact Size.isValue_text _

/-- The metadata of a file are the written fields. -/
theorem metadataOf_header {e : Entry} (writable : e.Writable) : Collection.metadataOf e.header = e.metadata := by
  have names := e.names_written
  have proper : ∀ f ∈ e.written, IsFieldName f.1 ∧ Text.IsValue f.2 := by
    intro f member
    have named : f.1 ∈ e.written.map (·.1) := List.mem_map_of_mem member
    exact ⟨isFieldName_of_mem _ (names.subset named), isValue_written writable f member⟩
  have distinct : (e.written.map (·.1)).Nodup := names.nodup (by decide)
  have new : "filename".toList ∉ Keyed.keys e.written := by
    intro member
    exact absurd (names.subset member) (by decide)
  unfold Collection.metadataOf
  show (Keyed.ofList (Collection.fieldsOf e.fields)).put _ e.filename.strip = _
  rw [fields_eq, Collection.fieldsOf_lines proper, Keyed.ofList_of_nodup distinct, writable.filename.stripped,
    Keyed.put_of_not_mem new]
  rfl

theorem wantedKey_header {e : Entry} (writable : e.Writable) : Collection.wantedKey e.header = e.wanted := by
  have relative : e.metadata.get? "relative_path".toList = some e.wanted := by
    unfold metadata written
    simp only [List.cons_append, Keyed.get?_cons]
    rw [if_neg (by decide), if_pos trivial]
    rfl
  unfold Collection.wantedKey
  rw [metadataOf_header writable, relative]
  show e.wanted.orElse e.filename.strip = e.wanted
  rw [writable.filename.stripped]
  unfold wanted Text.orElse
  split
  · split <;> rfl
  · rfl

end Entry

end Chunkwise
