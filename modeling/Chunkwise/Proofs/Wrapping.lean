import Chunkwise.Proofs.Number.Decimal
import Chunkwise.Proofs.Size
import Chunkwise.Proofs.Text.Parts
import Chunkwise.Wrapping

/-!
# Where the content of a wrapped chunk begins

The content of a chunk follows the heading for it, a title and a rule on a line below. What stands before is written in
lines, and whatever a file name or a description says, it begins its line with words of the wrapping. So no line but
the one after the number of the chunk is a rule, and the first such heading in the wrapped text is that of the content.
-/

namespace Chunkwise

/-! ## Headings of two lines -/

namespace Text

variable {title below line s t : Text}

/-- Texts that go on after a line have the same line and go on in the same way. -/
theorem eq_of_begins_line (left : '\n' ∉ title) (right : '\n' ∉ line)
    (written : title ++ '\n' :: below <+: line ++ '\n' :: t) : title = line ∧ below <+: t := by
  have plain {l : Text} (absent : '\n' ∉ l) : ∀ c ∈ l, (c == '\n') = false :=
    fun c member => beq_false_of_ne fun same => absent (same ▸ member)
  obtain ⟨rest, is⟩ := written
  rw [List.append_assoc, List.cons_append] at is
  have lines := congrArg Text.lines is
  rw [Text.lines, Text.lines, splitBy_append (plain left) (by decide),
    splitBy_append (plain right) (by decide)] at lines
  obtain ⟨rfl, -⟩ := List.cons_eq_cons.mp lines
  exact ⟨rfl, rest, by simpa using is⟩

/-- A heading of a title and what stands below it is not met on a line that does not end with the title, or below which
    something else stands. -/
theorem firstAt?_line (titled : title ≠ []) (left : '\n' ∉ title) (right : '\n' ∉ line)
    (other : ¬ (title <:+ line ∧ below <+: t)) :
    firstAt? (title ++ '\n' :: below) (line ++ '\n' :: t) =
      (firstAt? (title ++ '\n' :: below) t).map (· + (line ++ ['\n']).length) := by
  induction line with
  | nil =>
    have absent : (title ++ '\n' :: below).isPrefixOf ('\n' :: t) = false := by
      by_contra here
      have written := List.isPrefixOf_iff_prefix.mp (Bool.eq_true_of_not_eq_false here)
      exact titled (eq_of_begins_line left List.not_mem_nil (by simpa using written)).1
    rw [List.nil_append, firstAt?_cons, absent]
    rfl
  | cons c more ih =>
    have absent : (title ++ '\n' :: below).isPrefixOf (c :: (more ++ '\n' :: t)) = false := by
      by_contra here
      have written := List.isPrefixOf_iff_prefix.mp (Bool.eq_true_of_not_eq_false here)
      obtain ⟨same, follows⟩ := eq_of_begins_line left right written
      exact other ⟨same ▸ List.suffix_rfl, follows⟩
    have later := ih (fun feed => right (List.mem_cons_of_mem c feed))
      fun both => other ⟨both.1.trans (List.suffix_cons c more), both.2⟩
    rw [List.cons_append, firstAt?_cons, absent, later]
    simp [Function.comp_def, Nat.add_assoc]

/-- What follows the first occurrence of `needle`, if there is one. -/
def afterFirst? (needle t : Text) : Option Text := (firstAt? needle t).map fun i => t.drop (i + needle.length)

theorem afterFirst?_line (titled : title ≠ []) (left : '\n' ∉ title) (right : '\n' ∉ line)
    (other : ¬ (title <:+ line ∧ below <+: t)) :
    afterFirst? (title ++ '\n' :: below) (line ++ '\n' :: t) = afterFirst? (title ++ '\n' :: below) t := by
  have skipped : line ++ '\n' :: t = (line ++ ['\n']) ++ t := List.append_cons ..
  rw [afterFirst?, firstAt?_line titled left right other, afterFirst?, Option.map_map, skipped]
  congr 1
  funext i
  rw [Function.comp_apply, Nat.add_right_comm, Nat.add_comm, ← List.drop_drop, List.drop_left]

theorem afterFirst?_self (some : s ≠ []) (t : Text) : afterFirst? s (s ++ t) = .some t := by
  have first : firstAt? s (s ++ t) = .some 0 := by
    cases s with
    | nil => exact absurd rfl some
    | cons c rest =>
      have begins : (c :: rest).isPrefixOf (c :: (rest ++ t)) = true :=
        List.isPrefixOf_iff_prefix.mpr (List.prefix_append (c :: rest) t)
      rw [List.cons_append, firstAt?_cons, if_pos begins]
  rw [afterFirst?, first, Option.map_some, Nat.zero_add, List.drop_left]

theorem not_suffix_append {c : Char} {front rest : Text} (last : s.getLast? = some c) (some : rest ≠ [])
    (absent : c ∉ rest) : ¬ s <:+ front ++ rest := by
  rintro ⟨lead, same⟩
  have nonempty : s ≠ [] := by
    rintro rfl
    cases last
  have ends := congrArg List.getLast? same
  rw [List.getLast?_append_of_ne_nil _ nonempty, last, List.getLast?_append_of_ne_nil _ some] at ends
  exact absent (List.mem_of_getLast? ends.symm)

end Text

namespace Wrapping

def title : Text := "CHUNK CONTENT:".toList

/-- What stands below the title: the rule and an empty line. -/
def below : Text := sectionRule ++ '\n' :: ['\n']

theorem contentHeading_eq : contentHeading = title ++ '\n' :: below := rfl

theorem afterFirst?_skip {line t : Text} (unbroken : '\n' ∉ line) (other : ¬ (title <:+ line ∧ below <+: t)) :
    Text.afterFirst? contentHeading (line ++ '\n' :: t) = Text.afterFirst? contentHeading t := by
  rw [contentHeading_eq]
  exact Text.afterFirst?_line (by decide) (by decide) unbroken other

/-! ## Lines that are no rules -/

/-- A line that does not begin as a rule does. -/
def Plain (l : Text) : Prop := '\n' ∉ l ∧ l.head? ≠ some '='

instance (l : Text) : Decidable (Plain l) := inferInstanceAs (Decidable (_ ∧ _))

theorem Plain.append {front rest : Text} (plain : Plain front) (some : front ≠ []) (unbroken : '\n' ∉ rest) :
    Plain (front ++ rest) := by
  refine ⟨List.not_mem_append plain.1 unbroken, ?_⟩
  rw [List.head?_append_of_ne_nil _ some]
  exact plain.2

theorem plain_words {w : List Char} (plain : Plain w) : Plain (String.ofList w).toList := by
  rwa [String.toList_ofList]

theorem plain_words_append {w : List Char} {rest : Text} (plain : Plain w) (some : w ≠ []) (unbroken : '\n' ∉ rest) :
    Plain ((String.ofList w).toList ++ rest) := by
  rw [String.toList_ofList]
  exact plain.append some unbroken

theorem Plain.not_below {l : Text} (plain : Plain l) (t : Text) : ¬ below <+: l ++ '\n' :: t := by
  intro written
  obtain ⟨rfl, -⟩ := Text.eq_of_begins_line (by decide) plain.1 written
  exact plain.2 rfl

/-- A text that is written in plain lines. -/
def InPlainLines (t : Text) : Prop := ∃ ls : List Text, (∀ l ∈ ls, Plain l) ∧ t = Text.terminated ls

theorem InPlainLines.append {s t : Text} (left : InPlainLines s) (right : InPlainLines t) : InPlainLines (s ++ t) := by
  obtain ⟨ls, plain, rfl⟩ := left
  obtain ⟨ms, plain', rfl⟩ := right
  exact ⟨ls ++ ms, List.forall_mem_append.mpr ⟨plain, plain'⟩, (Text.terminated_append ls ms).symm⟩

theorem inPlainLines_nil : InPlainLines [] := ⟨[], List.forall_mem_nil _, rfl⟩

theorem inPlainLines_feed : InPlainLines ['\n'] := ⟨[[]], List.forall_mem_singleton.mpr (by decide), rfl⟩

/-- Lines that are joined, with an empty line after them. -/
theorem inPlainLines_joinLines {ls : List Text} (some : ls ≠ []) (plain : ∀ l ∈ ls, Plain l) :
    InPlainLines (joinLines ls ++ ['\n', '\n']) := by
  have ended : joinLines ls ++ ['\n', '\n'] = Text.terminated ls ++ ['\n'] := by
    rw [Text.terminated_eq_join some, List.append_assoc]
    rfl
  rw [ended]
  exact InPlainLines.append ⟨ls, plain, rfl⟩ inPlainLines_feed

/-- What is written in plain lines before a text that begins with no rule holds no heading. -/
theorem InPlainLines.afterFirst? {s t : Text} (plain : InPlainLines s) (unruled : ¬ below <+: t) :
    Text.afterFirst? contentHeading (s ++ t) = Text.afterFirst? contentHeading t ∧ ¬ below <+: s ++ t := by
  obtain ⟨ls, plain, rfl⟩ := plain
  induction ls with
  | nil => exact ⟨rfl, unruled⟩
  | cons l rest ih =>
    obtain ⟨here, later⟩ := List.forall_mem_cons.mp plain
    obtain ⟨same, unruled'⟩ := ih later
    rw [Text.terminated_cons, List.append_assoc, List.cons_append, ← same]
    exact ⟨afterFirst?_skip here.1 fun both => unruled' both.2, here.not_below _⟩

/-! ## The wrapping of a chunk -/

/-- What the wrapping of a chunk says about it is in one line each. -/
structure InLines (c : Chunk) : Prop where
  names : ∀ name ∈ c.fileNames, '\n' ∉ name
  summary : '\n' ∉ c.summary
  descriptions : ∀ r ∈ c.references, '\n' ∉ r.description

variable {c : Chunk} {listed index total : ℤ}

theorem no_feed_sizeText (size : ℕ) : '\n' ∉ Size.text size :=
  fun feed => absurd ((Size.isValue_text size).unbroken _ feed) (by decide)

theorem inPlainLines_pacing (index : ℤ) : InPlainLines (pacing index) := by
  let front : Text := "I'm providing a semantic chunk of my project files. ".toList ++
    "IMPORTANT: Just respond with \"Ready for semantic chunk ".toList ++ Text.decimalInt (index + 2) ++
    "\" after receiving this chunk. Do not analyze until I say \"".toList ++ completionMarker
  have written : pacing index = joinLines [front ++ "\".".toList] ++ ['\n', '\n'] := by
    rw [joinLines, Text.join, List.intercalate_singleton]
    exact (List.append_assoc front "\".".toList ['\n', '\n']).symm
  rw [written]
  refine inPlainLines_joinLines (List.cons_ne_nil _ _) (List.forall_mem_singleton.mpr ?_)
  simp only [front, List.append_assoc]
  refine plain_words_append (by decide) (by decide) ?_
  simp only [List.mem_append, not_or]
  exact ⟨Text.no_feed_words (by decide), no_feed_decimalInt _, Text.no_feed_words (by decide),
    Text.no_feed_words (by decide), Text.no_feed_words (by decide)⟩

/-- The lines of the metadata that every chunk has. -/
def metadataLines (c : Chunk) : List Text :=
  ["CHUNK METADATA:".toList, "- Files: ".toList ++ Text.join ", ".toList c.fileNames,
    "- Size: ".toList ++ Size.text c.size, "- Semantic Summary: ".toList ++ c.summary]

theorem plain_of_mem_metadataLines (inLines : InLines c) : ∀ l ∈ metadataLines c, Plain l := by
  have files : '\n' ∉ Text.join ", ".toList c.fileNames := Text.no_feed_join (by decide) inLines.names
  simp only [metadataLines, List.forall_mem_cons]
  exact ⟨plain_words (by decide), plain_words_append (by decide) (by decide) files,
    plain_words_append (by decide) (by decide) (no_feed_sizeText c.size),
    plain_words_append (by decide) (by decide) inLines.summary, List.forall_mem_nil _⟩

-- Stated of any words, because rewriting would compare the words of the wrapping with each other.
private theorem four_lines {first first' second third third' fourth fourth' u v w rest : Text}
    (firstEnds : first' = first ++ ['\n']) (thirdBegins : third' = '\n' :: third)
    (fourthBegins : fourth' = '\n' :: fourth) :
    first' ++ second ++ u ++ third' ++ v ++ fourth' ++ w ++ ['\n'] ++ rest =
      Text.terminated [first, second ++ u, third ++ v, fourth ++ w] ++ rest := by
  subst firstEnds thirdBegins fourthBegins
  simp [Text.terminated]

theorem metadata_eq (c : Chunk) :
    metadata c = Text.terminated (metadataLines c) ++
      (if c.references.isEmpty then []
       else "- Cross-references: ".toList ++ Text.decimal c.references.length ++
        " reference(s) to other chunks\n".toList) := by
  refine four_lines ?_ ?_ ?_
  · rw [String.toList_ofList, String.toList_ofList]
    rfl
  · rw [String.toList_ofList, String.toList_ofList]
  · rw [String.toList_ofList, String.toList_ofList]

theorem inPlainLines_metadata (inLines : InLines c) : InPlainLines (metadata c) := by
  rw [metadata_eq]
  refine InPlainLines.append ⟨_, plain_of_mem_metadataLines inLines, rfl⟩ ?_
  split
  · exact inPlainLines_nil
  · have count : Plain ("- Cross-references: ".toList ++ (Text.decimal c.references.length ++
        " reference(s) to other chunks".toList)) :=
      plain_words_append (by decide) (by decide)
        (List.not_mem_append (no_feed_decimal _) (Text.no_feed_words (by decide)))
    have ended : " reference(s) to other chunks\n".toList = " reference(s) to other chunks".toList ++ ['\n'] := by
      rw [String.toList_ofList, String.toList_ofList]
      rfl
    refine ⟨[_], List.forall_mem_singleton.mpr count, ?_⟩
    simp only [Text.terminated_cons, Text.terminated_nil, ended, List.append_assoc]

theorem plain_placeLine (index total : ℤ) : Plain (placeLine index total) := by
  unfold placeLine
  split
  · exact plain_words (by decide)
  · split
    · exact plain_words (by decide)
    · simp only [List.append_assoc]
      refine plain_words_append (by decide) (by decide) ?_
      simp only [List.mem_append, List.mem_cons, not_or]
      exact ⟨no_feed_decimalInt _, ⟨by decide, no_feed_decimalInt _⟩, Text.no_feed_words (by decide)⟩

theorem plain_of_mem_referenceLines {references : List CrossReference}
    (descriptions : ∀ r ∈ references, '\n' ∉ r.description) : ∀ l ∈ referenceLines listed references, Plain l := by
  unfold referenceLines
  split
  · exact List.forall_mem_nil _
  · have numbers : '\n' ∉ Text.join ", ".toList ((referencedNumbers references).map Text.decimalInt) :=
      Text.no_feed_join (by decide) (List.forall_mem_map.mpr fun n _ => no_feed_decimalInt n)
    refine List.forall_mem_cons.mpr ⟨plain_words_append (by decide) (by decide) numbers, ?_⟩
    refine List.forall_mem_map.mpr fun r taken => plain_words_append (by decide) (by decide) (descriptions r ?_)
    unfold Text.takeSigned at taken
    split at taken <;> exact List.mem_of_mem_take taken

theorem mem_keys_of_mem_primaryFiles {shares : Keyed FileShare} {name : Text} (member : name ∈ primaryFiles shares) :
    name ∈ shares.keys := by
  obtain ⟨entry, taken, rfl⟩ := List.mem_map.mp member
  exact List.mem_map.mpr ⟨entry, (List.mergeSort_perm ..).mem_iff.mp (List.mem_of_mem_take taken), rfl⟩

theorem inPlainLines_instructions (inLines : InLines c) :
    InPlainLines (instructions listed c index total ++ ['\n', '\n']) := by
  have primary : '\n' ∉ Text.join " and ".toList (primaryFiles c.shares) :=
    Text.no_feed_join (by decide) fun name member => inLines.names name (mem_keys_of_mem_primaryFiles member)
  have context : Plain ("SEMANTIC CONTEXT: ".toList ++ c.summary) :=
    plain_words_append (by decide) (by decide) inLines.summary
  refine inPlainLines_joinLines (List.append_ne_nil_of_right_ne_nil _ (List.cons_ne_nil _ _)) ?_
  simp only [List.forall_mem_append, List.forall_mem_singleton]
  refine ⟨⟨⟨⟨?place, plain_of_mem_referenceLines inLines.descriptions⟩, ?focus⟩, ?approach⟩, plain_words (by decide)⟩
  case place => exact List.forall_mem_cons.mpr ⟨plain_placeLine index total, List.forall_mem_singleton.mpr context⟩
  case focus =>
    split
    · exact List.forall_mem_nil _
    · exact List.forall_mem_singleton.mpr (plain_words_append (by decide) (by decide) primary)
  case approach =>
    split
    · exact List.forall_mem_nil _
    · exact List.forall_mem_singleton.mpr (plain_words (by decide))

theorem inPlainLines_codeRules : InPlainLines (joinLines codeRules ++ ['\n', '\n']) := by
  refine inPlainLines_joinLines (List.cons_ne_nil _ _) ?_
  simp only [codeRules, List.forall_mem_cons]
  exact ⟨plain_words (by decide), plain_words (by decide), plain_words (by decide), plain_words (by decide),
    List.forall_mem_nil _⟩

/-! ## The heading of the content -/

/-- The line that numbers a chunk, above the first rule. -/
def numberLine (index total : ℤ) : Text :=
  "SEMANTIC CHUNK ".toList ++ Text.decimalInt (index + 1) ++ '/' :: Text.decimalInt total

theorem plain_numberLine (index total : ℤ) : Plain (numberLine index total) := by
  have apart : numberLine index total =
      "SEMANTIC CHUNK ".toList ++ (Text.decimalInt (index + 1) ++ '/' :: Text.decimalInt total) :=
    List.append_assoc ..
  rw [apart]
  exact plain_words_append (by decide) (by decide) (List.not_mem_append (no_feed_decimalInt _)
    (List.not_mem_cons_of_ne_of_not_mem (by decide) (no_feed_decimalInt _)))

/-- The line that numbers a chunk ends with a digit, and a title does not. -/
theorem not_title_suffix (index total : ℤ) : ¬ title <:+ numberLine index total := by
  have some : Text.decimalInt total ≠ [] := by
    cases total with
    | ofNat n => exact Nat.toDigits_ne_nil
    | negSucc n => exact List.cons_ne_nil _ _
  have colon : ':' ∉ Text.decimalInt total := fun member => absurd (isDigit_or_of_mem_decimalInt member) (by decide)
  have apart : numberLine index total =
      ("SEMANTIC CHUNK ".toList ++ Text.decimalInt (index + 1) ++ ['/']) ++ Text.decimalInt total :=
    List.append_cons _ '/' _
  rw [apart]
  exact Text.not_suffix_append (by decide : title.getLast? = .some ':') some colon

/-- What stands in the wrapped text between the first rule and the heading of the content. -/
def between (listed : ℤ) (c : Chunk) (index total : ℤ) : Text :=
  ['\n'] ++ (metadata c ++ (['\n'] ++ ((instructions listed c index total ++ ['\n', '\n']) ++
    (joinLines codeRules ++ ['\n', '\n']))))

theorem inPlainLines_between (inLines : InLines c) : InPlainLines (between listed c index total) :=
  inPlainLines_feed.append ((inPlainLines_metadata inLines).append (inPlainLines_feed.append
    ((inPlainLines_instructions inLines).append inPlainLines_codeRules)))

theorem opening_eq (listed : ℤ) (c : Chunk) (index total : ℤ) :
    opening listed c index total = (if index = total - 1 then [] else pacing index) ++
      (numberLine index total ++
        '\n' :: (sectionRule ++ '\n' :: (between listed c index total ++ contentHeading))) := by
  unfold opening numberLine between
  generalize (if index = total - 1 then [] else pacing index) = lead
  have feeds : "\n\n".toList = ['\n', '\n'] := rfl
  rw [feeds]
  generalize "SEMANTIC CHUNK ".toList = number
  simp only [List.append_assoc, List.cons_append, List.nil_append]

/-- What follows the first heading in the wrapped text is the content, and the completion in the last chunk. -/
theorem afterFirst?_wrap (inLines : InLines c) :
    Text.afterFirst? contentHeading (wrap listed c index total) =
      some (c.content ++ if index = total - 1 then completion else []) := by
  generalize ending : (if index = total - 1 then completion else []) = tail
  have lead : InPlainLines (if index = total - 1 then [] else pacing index) := by
    split
    · exact inPlainLines_nil
    · exact inPlainLines_pacing index
  have unruled : ¬ below <+: contentHeading ++ (c.content ++ tail) := by
    have plain : Plain title := plain_words (by decide)
    rw [contentHeading_eq, List.append_assoc]
    exact plain.not_below _
  let rest := between listed c index total ++ (contentHeading ++ (c.content ++ tail))
  have written : wrap listed c index total = (if index = total - 1 then [] else pacing index) ++
      (numberLine index total ++ '\n' :: (sectionRule ++ '\n' :: rest)) := by
    rw [wrap, opening_eq, ending]
    simp only [rest, List.append_assoc, List.cons_append]
  -- The first rule follows the line with the number, which does not end with a title.
  calc Text.afterFirst? contentHeading (wrap listed c index total)
      = Text.afterFirst? contentHeading (numberLine index total ++ '\n' :: (sectionRule ++ '\n' :: rest)) := by
        rw [written]
        exact (lead.afterFirst? ((plain_numberLine index total).not_below _)).1
    _ = Text.afterFirst? contentHeading (sectionRule ++ '\n' :: rest) :=
        afterFirst?_skip (plain_numberLine index total).1 fun both => not_title_suffix index total both.1
    _ = Text.afterFirst? contentHeading rest :=
        afterFirst?_skip (by decide) fun both => absurd both.1 (by decide)
    _ = Text.afterFirst? contentHeading (contentHeading ++ (c.content ++ tail)) :=
        ((inPlainLines_between inLines).afterFirst? unruled).1
    _ = some (c.content ++ tail) := Text.afterFirst?_self (by decide) _

end Wrapping

end Chunkwise
