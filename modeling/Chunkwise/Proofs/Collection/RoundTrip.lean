import Chunkwise.Proofs.Collection.Fields
import Chunkwise.Proofs.Collection.Headers
import Chunkwise.Proofs.Text.Slice

/-!
# A collection is read back as it was written

The lines of a collection are those of the preamble and, for each entry, those of its header and of its body with the
separator. The search for headers finds the headers of the entries and nothing else: what precedes the first one and
each body have none of their own, and none can reach across into the next entry.
-/

namespace Chunkwise.Entry

/-! ## The lines of an entry -/

/-- The lines of the body and of the separator after it. -/
def bodyLines (e : Entry) : List Text := (e.body ++ ['\n']).lines

/-- The lines of an entry. -/
def lines (e : Entry) : List Text := e.header.lines ++ e.bodyLines

theorem terminated_bodyLines (e : Entry) : Text.terminated e.bodyLines = e.body ++ Collection.separator := by
  rw [bodyLines, Text.terminated_lines, List.append_assoc]
  rfl

theorem text_eq_terminated (e : Entry) : e.text = Text.terminated e.lines := by
  rw [lines, Text.terminated_append, terminated_bodyLines, ← Header.text_eq_terminated, ← List.append_assoc]
  rfl

variable {e : Entry} {entries : List Entry}

theorem not_feed_of_isValue {t : Text} (isValue : Text.IsValue t) : '\n' ∉ t := by
  intro member
  exact absurd (isValue.unbroken _ member) (by decide)

theorem mem_fields {f : Text} (member : f ∈ e.fields) :
    ∃ name value, name ∈ fieldNames ∧ (name, value) ∈ e.written ∧ f = Collection.line name value := by
  rw [fields_eq] at member
  obtain ⟨⟨name, value⟩, inWritten, rfl⟩ := List.mem_map.mp member
  exact ⟨name, value, e.names_written.subset (List.mem_map_of_mem inWritten), inWritten, rfl⟩

theorem fields_ne_headerRule : ∀ f ∈ e.header.fields, f ≠ headerRule := by
  intro f member same
  obtain ⟨name, value, _, _, rfl⟩ := mem_fields member
  have colon : ':' ∈ headerRule := by
    rw [← same]
    simp [Collection.line]
  exact absurd (List.eq_of_mem_replicate colon) (by decide)

theorem no_feed_of_mem_lines (writable : e.Writable) : ∀ l ∈ e.lines, '\n' ∉ l := by
  intro l member
  rcases List.mem_append.mp member with inHeader | inBody
  · simp only [Header.lines, List.mem_append, List.mem_cons, List.not_mem_nil, or_false] at inHeader
    rcases inHeader with ((rfl | rfl) | inFields) | rfl | rfl
    · decide
    · intro feed
      rcases List.mem_append.mp feed with inMarker | inName
      · exact absurd inMarker (by decide)
      · exact not_feed_of_isValue writable.filename inName
    · obtain ⟨name, value, named, inWritten, rfl⟩ := mem_fields inFields
      intro feed
      have unbroken := Collection.unbroken_line (isFieldName_of_mem name named) (isValue_written writable _ inWritten)
      exact absurd (unbroken _ feed) (by decide)
    · decide
    · decide
  · exact Text.no_feed_of_mem_lines inBody

/-! ## The headers of a collection -/

/-- The headers of entries, the first of which begins at `offset`. -/
def headers (offset : ℕ) : List Entry → List (ℕ × Header)
  | [] => []
  | e :: rest => (offset, e.header) :: headers (offset + e.text.length) rest

theorem opens_entries (entries : List Entry) : Header.Opens (entries.flatMap lines ++ [[]]) := by
  cases entries with
  | nil => exact Or.inl rfl
  | cons e rest =>
    rw [List.flatMap_cons, lines, List.append_assoc, List.append_assoc]
    exact Header.opens_lines e.header _

theorem scan_bodyLines (writable : e.Writable) (offset : ℕ) :
    Header.scan offset 0 (e.bodyLines ++ [[]]) = [] := by
  have alone : Header.scan 0 0 (e.bodyLines ++ [[]]) = [] := by
    have plain : ∀ l ∈ e.bodyLines, '\n' ∉ l := fun _ => Text.no_feed_of_mem_lines
    have body := writable.body
    rwa [← terminated_bodyLines, Header.findAll, Text.lines_terminated_nil plain] at body
  rw [← Nat.add_zero offset, Header.scan_shift, alone]
  rfl

/-- The search finds the headers of the entries and no others. -/
theorem scan_entries (writable : ∀ e ∈ entries, e.Writable) (offset : ℕ) :
    Header.scan offset 0 (entries.flatMap lines ++ [[]]) = headers offset entries := by
  induction entries generalizing offset with
  | nil => rfl
  | cons e rest ih =>
    obtain ⟨here, later⟩ := List.forall_mem_cons.mp writable
    have after : offset + e.header.text.length + (Text.terminated e.bodyLines).length = offset + e.text.length := by
      rw [text_eq_terminated, lines, Text.terminated_append, ← Header.text_eq_terminated, List.length_append]
      omega
    calc Header.scan offset 0 ((e :: rest).flatMap lines ++ [[]])
        = Header.scan offset 0 (e.header.lines ++ (e.bodyLines ++ (rest.flatMap lines ++ [[]]))) := by
          rw [List.flatMap_cons, lines, List.append_assoc, List.append_assoc]
      _ = (offset, e.header) ::
          Header.scan (offset + e.header.text.length) 0 (e.bodyLines ++ (rest.flatMap lines ++ [[]])) :=
          Header.scan_header offset fields_ne_headerRule (by simp)
      _ = (offset, e.header) :: Header.scan (offset + e.text.length) 0 (rest.flatMap lines ++ [[]]) := by
          rw [Header.scan_append _ (opens_entries rest), scan_bodyLines here, List.nil_append, after]
      _ = headers offset (e :: rest) := by
          rw [ih later]
          rfl

theorem flatMap_text (entries : List Entry) :
    entries.flatMap (·.text) = Text.terminated (entries.flatMap lines) := by
  rw [Text.terminated, List.flatMap_assoc]
  exact List.flatMap_congr fun e _ => e.text_eq_terminated

/-- The headers of a collection are those of its entries, behind a preamble that has none. -/
theorem findAll_build {preamble : Text} (ended : preamble = [] ∨ preamble.getLast? = some '\n')
    (headerless : Header.findAll preamble = []) (writable : ∀ e ∈ entries, e.Writable) :
    Header.findAll (Collection.build preamble entries) = headers preamble.length entries := by
  obtain ⟨front, plain, rfl⟩ := Text.exists_terminated ended
  have plainEntries : ∀ l ∈ entries.flatMap lines, '\n' ∉ l := by
    intro l member
    obtain ⟨e, inEntries, inLines⟩ := List.mem_flatMap.mp member
    exact no_feed_of_mem_lines (writable e inEntries) l inLines
  have whole : (Collection.build (Text.terminated front) entries).lines = front ++ (entries.flatMap lines ++ [[]]) := by
    rw [Collection.build, flatMap_text, Text.lines_terminated plain, Text.lines_terminated_nil plainEntries]
  have alone : Header.scan 0 0 (front ++ [[]]) = [] := by
    rw [← headerless, Header.findAll, Text.lines_terminated_nil plain]
  rw [Header.findAll, whole, Header.scan_append 0 (opens_entries entries), alone, List.nil_append, scan_entries writable,
    Nat.zero_add]

/-! ## The files of a collection -/

/-- The file that an entry is read back as when it begins at `start` and its wanted key came up `earlier` times
    before. -/
def file (e : Entry) (start earlier : ℕ) : SourceFile where
  filename := e.filename
  content := e.body
  start := start
  stop := start + e.text.length
  body := start + e.header.text.length
  key := Collection.numberedKey e.wanted earlier
  metadata := e.metadata

/-- The files of entries, the first of which begins at `start`, when the wanted keys in `used` came up before. -/
def files (start : ℕ) (used : List Text) : List Entry → List SourceFile
  | [] => []
  | e :: rest => e.file start (used.count e.wanted) :: files (start + e.text.length) (e.wanted :: used) rest

theorem slice_append (front middle rest : Text) :
    Text.slice (front ++ (middle ++ rest)) front.length (front.length + middle.length) = middle := by
  rw [Text.slice, List.drop_left, Nat.add_sub_cancel_left, List.take_left]

theorem slice_body (front rest : Text) (e : Entry) :
    Text.slice (front ++ (e.text ++ rest)) (front.length + e.header.text.length) (front.length + e.text.length) =
      e.body ++ Collection.separator := by
  have split : front ++ (e.text ++ rest) =
      (front ++ e.header.text) ++ ((e.body ++ Collection.separator) ++ rest) := by
    simp only [text, List.append_assoc]
  have length : front.length + e.text.length =
      (front ++ e.header.text).length + (e.body ++ Collection.separator).length := by
    simp only [text, List.length_append]
    omega
  rw [split, length, ← List.length_append, slice_append]

/-- The headers of entries are read as their files. -/
theorem filesFrom_headers (writable : ∀ e ∈ entries, e.Writable) (front : Text) (used : List Text) :
    Collection.filesFrom (front ++ entries.flatMap (·.text)) used (headers front.length entries) =
      files front.length used entries := by
  induction entries generalizing front used with
  | nil => rfl
  | cons e rest ih =>
    obtain ⟨here, later⟩ := List.forall_mem_cons.mp writable
    have stop : ((headers (front.length + e.text.length) rest).head?.map (·.1)).getD
        (front ++ (e :: rest).flatMap (·.text)).length = front.length + e.text.length := by
      cases rest with
      | nil => simp [headers]
      | cons next more => rfl
    have others := ih later (front ++ e.text) (e.wanted :: used)
    rw [List.length_append, List.append_assoc] at others
    simp only [headers, Collection.filesFrom, stop, wantedKey_header here, metadataOf_header here]
    rw [List.flatMap_cons, others, slice_body, Text.dropEnding_append]
    simp only [files, file, header, here.filename.stripped, Nat.cast_add]

theorem getElem?_files (start : ℕ) (used : List Text) (entries : List Entry) (i : ℕ) :
    (files start used entries)[i]? = entries[i]?.map fun e =>
      e.file (start + ((entries.take i).flatMap (·.text)).length)
        (used.count e.wanted + ((entries.take i).map wanted).count e.wanted) := by
  induction entries generalizing start used i with
  | nil => rfl
  | cons first rest ih =>
    cases i with
    | zero => rfl
    | succ i =>
      rw [files, List.getElem?_cons_succ, ih, List.getElem?_cons_succ]
      congr 1
      funext e
      rw [List.take_succ_cons, List.flatMap_cons, List.length_append, List.map_cons, List.count_cons, List.count_cons,
        Nat.add_assoc, Nat.add_right_comm, Nat.add_assoc]

theorem length_files (start : ℕ) (used : List Text) (entries : List Entry) :
    (files start used entries).length = entries.length := by
  induction entries generalizing start used with
  | nil => rfl
  | cons e rest ih => simp [files, ih]

theorem keys_files (start : ℕ) {used : List Text} (distinct : (entries.map wanted).Nodup)
    (new : ∀ e ∈ entries, e.wanted ∉ used) : (files start used entries).map (·.key) = entries.map wanted := by
  induction entries generalizing start used with
  | nil => rfl
  | cons e rest ih =>
    rw [List.map_cons, List.nodup_cons] at distinct
    obtain ⟨fresh, others⟩ := distinct
    obtain ⟨here, later⟩ := List.forall_mem_cons.mp new
    have unused : ∀ f ∈ rest, f.wanted ∉ e.wanted :: used := by
      intro f member again
      rcases List.mem_cons.mp again with same | before
      · exact fresh (same ▸ List.mem_map_of_mem member)
      · exact later f member before
    rw [files, List.map_cons, ih _ others unused, List.map_cons, file, List.count_eq_zero_of_not_mem here]
    rfl

end Chunkwise.Entry

namespace Chunkwise.Collection

theorem parse_build_eq {preamble : Text} {entries : List Entry}
    (ended : preamble = [] ∨ preamble.getLast? = some '\n') (headerless : Header.findAll preamble = [])
    (writable : ∀ e ∈ entries, e.Writable) :
    parse (build preamble entries) = Entry.files preamble.length [] entries := by
  rw [parse, Entry.findAll_build ended headerless writable, build, Entry.filesFrom_headers writable]

/-- A collection is read back as it was written: one file for each entry, in order, with the filename, the body and
    the fields that were written, from where the entries before it end to where its own entry ends. Its key is the
    wanted one, with a number behind it when an earlier entry wants the same. -/
theorem parse_build {preamble : Text} {entries : List Entry}
    (ended : preamble = [] ∨ preamble.getLast? = some '\n') (headerless : Header.findAll preamble = [])
    (writable : ∀ e ∈ entries, e.Writable) :
    (parse (build preamble entries)).length = entries.length ∧
    (∀ i e, entries[i]? = some e → ∃ f : SourceFile, (parse (build preamble entries))[i]? = some f ∧
      f.filename = e.filename ∧ f.content = e.body ∧ f.metadata = e.metadata ∧
      f.start = ((preamble.length + ((entries.take i).flatMap (·.text)).length : ℕ) : ℤ) ∧
      f.stop = f.start + (e.text.length : ℤ) ∧ f.body = f.start + (e.header.text.length : ℤ) ∧
      f.key = numberedKey e.wanted (((entries.take i).map (·.wanted)).count e.wanted)) ∧
    ((entries.map (·.wanted)).Nodup →
      (parse (build preamble entries)).map (·.key) = entries.map (·.wanted)) := by
  rw [parse_build_eq ended headerless writable]
  refine ⟨Entry.length_files .., ?_, fun distinct => Entry.keys_files _ distinct (by simp)⟩
  intro i e here
  refine ⟨_, by rw [Entry.getElem?_files, here]; rfl, rfl, rfl, rfl, rfl, rfl, rfl, ?_⟩
  simp [Entry.file]

/-- Two entries that want the same key, one of them with equals signs and empty lines in its body. -/
theorem parse_build_same_name :
    ∃ f, (parse (build "Notes\n".toList
        [⟨"a.py".toList, some "====\nx = 1\n\n\n".toList, [], [], [], ["core".toList], false⟩,
          ⟨"a.py".toList, none, [], [], [], [], true⟩]))[1]? = some f ∧
      f.filename = "a.py".toList ∧ f.content = "// Binary file - content not included\n".toList ∧
      f.key = "a.py#2".toList := by
  have headerless : Header.findAll "Notes\n".toList = [] := by decide
  have first : Entry.Writable ⟨"a.py".toList, some "====\nx = 1\n\n\n".toList, [], [], [], ["core".toList], false⟩ := by
    decide
  have second : Entry.Writable ⟨"a.py".toList, none, [], [], [], [], true⟩ := by decide
  obtain ⟨-, each, -⟩ := parse_build (Or.inr (by decide)) headerless
    (List.forall_mem_cons.mpr ⟨first, List.forall_mem_singleton.mpr second⟩)
  obtain ⟨f, found, filename, content, -, -, -, -, key⟩ := each 1 _ rfl
  exact ⟨f, found, filename, content, key⟩

end Chunkwise.Collection
