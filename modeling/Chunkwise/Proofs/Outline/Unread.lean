import Chunkwise.Proofs.Outline.Lines
import Chunkwise.Proofs.Text.Occurrences

/-!
# Comments and docstrings are not read

The text of comments and of docstrings has no part in the outline of a source that is nested by indentation. Two sources
with equally many lines have the same outline when each line is the same in both, or is a comment in both, or lies in a
docstring and ends it in neither. The scans of the two go on side by side: the same docstring is open before every line.
-/

namespace Chunkwise

namespace Indented

/-! ## Lines that are not read -/

/-- The first character that is not blank is a number sign. -/
def IsComment (line : Text) : Prop := line.find? (!Text.isBlank ·) = some '#'

instance (line : Text) : Decidable (IsComment line) := inferInstanceAs (Decidable (_ = _))

/-- The quotes of the docstring that is open behind a line, given those of the one that is open before it: a docstring is
    opened by quotes at the beginning, after one letter at most, when the line holds them only once, and it lasts up to
    the next line with the same quotes. -/
def quoteAfter (quote : Option Text) (line : Text) : Option Text :=
  match quote with
  | some quote => if quote <:+: line.strip then none else some quote
  | none => (openingQuote? line.strip).filter fun quote => Text.countFrom quote 0 line.strip < 2

/-- The quotes of the docstring that is open before the line with index `i`. -/
def quoteBefore (lines : List Text) (i : ℕ) : Option Text := (lines.take i).foldl quoteAfter none

/-- Two lines that a scan does not tell apart: the same line, or two comments outside docstrings, or two lines within a
    docstring that do not end it. -/
def Alike : Option Text → Text → Text → Prop
  | none, a, b => a = b ∨ IsComment a ∧ IsComment b
  | some quote, a, b => a = b ∨ ¬ quote <:+: a ∧ ¬ quote <:+: b

instance (quote : Option Text) (a b : Text) : Decidable (Alike quote a b) :=
  match quote with
  | none => inferInstanceAs (Decidable (_ ∨ _ ∧ _))
  | some _ => inferInstanceAs (Decidable (_ ∨ _ ∧ _))

/-- Equally many lines that are alike one by one. -/
def SameCode (lines others : List Text) : Prop :=
  lines.length = others.length ∧
    ∀ (i : ℕ) (a b : Text), lines[i]? = some a → others[i]? = some b → Alike (quoteBefore lines i) a b

instance (lines others : List Text) : Decidable (SameCode lines others) :=
  decidable_of_iff (lines.length = others.length ∧
    ∀ i < lines.length, ∀ a ∈ lines[i]?, ∀ b ∈ others[i]?, Alike (quoteBefore lines i) a b)
    (and_congr_right fun _ =>
      ⟨fun alike i a b here there => alike i (List.getElem?_eq_some_iff.mp here).1 a here b there,
        fun alike i _ a here b there => alike i a b here there⟩)

/-! ## One line -/

variable {quote : Option Text} {a b : Text} {lines others : List Text}

theorem head?_of_isComment (comment : IsComment a) : a.strip.head? = some '#' := by rw [Text.head?_strip, comment]

/-- What is open behind a line depends on the quotes alone: a comment and a line of blanks begin with none. -/
theorem step_fst (quote : Option Text) (i : ℕ) (line : Text) : (step quote i line).1 = quoteAfter quote line := by
  cases quote with
  | some quote => simp only [step, quoteAfter, Text.occursIn_iff]
  | none =>
    simp only [step, quoteAfter]
    generalize line.strip = stripped
    cases stripped with
    | nil => rfl
    | cons c rest =>
      by_cases comment : c = '#'
      · subst comment
        rfl
      · rw [if_neg (by simpa using comment)]
        cases openingQuote? (c :: rest) with
        | none => rfl
        | some quote => by_cases once : Text.countFrom quote 0 (c :: rest) < 2 <;> simp [Option.filter, once]

theorem not_occursIn_strip {quote line : Text} (absent : ¬ quote <:+: line) : Text.occursIn quote line.strip = false := by
  rw [Bool.eq_false_iff, Ne, Text.occursIn_iff]
  exact fun inside => absent (inside.trans (Text.strip_infix line))

/-- A scan does not tell two lines apart that are alike: neither what it finds nor what is open behind them. -/
theorem step_congr (alike : Alike quote a b) (i : ℕ) : step quote i a = step quote i b := by
  cases quote with
  | none =>
    rcases alike with rfl | ⟨comment, comment'⟩
    · rfl
    · simp [step, head?_of_isComment comment, head?_of_isComment comment']
  | some quote =>
    rcases alike with rfl | ⟨absent, absent'⟩
    · rfl
    · simp [step, not_occursIn_strip absent, not_occursIn_strip absent']

/-! ## Many lines -/

/-- Lines that are alike one by one when `quote` are the quotes of the docstring that is open before the first one. -/
def AlikeFrom (quote : Option Text) : List Text → List Text → Prop
  | [], [] => True
  | a :: lines, b :: others => Alike quote a b ∧ AlikeFrom (quoteAfter quote a) lines others
  | _, _ => False

theorem alikeFrom_of_getElem? (length : lines.length = others.length)
    (alike : ∀ (i : ℕ) (a b : Text), lines[i]? = some a → others[i]? = some b →
      Alike ((lines.take i).foldl quoteAfter quote) a b) : AlikeFrom quote lines others := by
  induction lines generalizing others quote with
  | nil => rw [List.eq_nil_of_length_eq_zero length.symm, AlikeFrom]; trivial
  | cons a rest ih =>
    cases others with
    | nil => cases length
    | cons b more =>
      refine ⟨alike 0 a b rfl rfl, ih (Nat.succ.inj length) fun i c d here there => ?_⟩
      have later := alike (i + 1) c d here there
      rwa [List.take_succ_cons, List.foldl_cons] at later

theorem AlikeFrom.findingsFrom_eq (alike : AlikeFrom quote lines others) (i : ℕ) :
    findingsFrom quote i lines = findingsFrom quote i others := by
  fun_induction AlikeFrom quote lines others generalizing i with
  | case1 => rfl
  | case2 quote a lines b others ih =>
    obtain ⟨here, later⟩ := alike
    simp only [findingsFrom, ← step_congr here i, step_fst, ih later]
  | case3 => exact alike.elim

theorem not_isBlankText_of_isComment (comment : IsComment a) : ¬ a.isBlankText := by
  intro blank
  have member : '#' ∈ a := List.mem_of_find?_eq_some comment
  exact absurd (List.all_eq_true.mp blank '#' member) (by decide)

theorem quoteAfter_of_isBlankText (blank : a.isBlankText) : quoteAfter none a = none := by
  have nothing : a.strip = [] := by
    by_contra some
    obtain ⟨c, member, solid⟩ := Text.exists_of_strip_ne_nil some
    rw [List.all_eq_true.mp blank c member] at solid
    cases solid
  rw [quoteAfter, nothing]
  rfl

/-- Comments are not blank, and neither is a line that opens a docstring, so blank lines are alike only if they are the
    same. -/
theorem AlikeFrom.eq_of_blank (alike : AlikeFrom none lines others)
    (blank : (∀ l ∈ lines, l.isBlankText) ∨ ∀ l ∈ others, l.isBlankText) : lines = others := by
  induction lines generalizing others with
  | nil =>
    cases others with
    | nil => rfl
    | cons b more => exact alike.elim
  | cons a rest ih =>
    cases others with
    | nil => exact alike.elim
    | cons b more =>
      obtain ⟨here, later⟩ := alike
      rw [List.forall_mem_cons, List.forall_mem_cons] at blank
      obtain rfl : a = b := by
        rcases here with same | ⟨comment, comment'⟩
        · exact same
        · rcases blank with ⟨blank, -⟩ | ⟨blank, -⟩
          · exact absurd blank (not_isBlankText_of_isComment comment)
          · exact absurd blank (not_isBlankText_of_isComment comment')
      rw [quoteAfter_of_isBlankText (blank.elim And.left And.left)] at later
      rw [ih later (blank.imp And.right And.right)]

end Indented

/-! ## Outlines -/

theorem Text.isBlankText_of_mem_lines {t l : Text} (blank : t.isBlankText) (member : l ∈ t.lines) : l.isBlankText :=
  List.all_eq_true.mpr fun c inLine => List.all_eq_true.mp blank c (mem_of_mem_splitBy member c inLine)

namespace Outline

open Indented

theorem ofContent_of_plain {content : Text} (plain : '\x00' ∉ content) (filename : Text) :
    ofContent .indented filename content =
      .ok (if content.isEmpty then blank .indented filename else ofLines .indented filename content) := by
  have plain' : content.contains '\x00' = false := by simpa using plain
  rw [ofContent, plain', Bool.and_false]
  split <;> rfl

/-- Two sources that differ only in comments outside of docstrings and in what stands within docstrings have the same
    outline. -/
theorem ofContent_eq_of_sameCode {filename content other : Text} (plain : '\x00' ∉ content) (plain' : '\x00' ∉ other)
    (same : SameCode content.lines other.lines) :
    ∃ o, ofContent .indented filename content = .ok o ∧ ofContent .indented filename other = .ok o := by
  have alike : AlikeFrom none content.lines other.lines := alikeFrom_of_getElem? same.1 same.2
  rw [ofContent_of_plain plain, ofContent_of_plain plain']
  refine ⟨_, rfl, congrArg _ ?_⟩
  by_cases blank : content.isBlankText ∨ other.isBlankText
  · rw [Text.lines_inj (alike.eq_of_blank (blank.imp (fun b _ => Text.isBlankText_of_mem_lines b)
      fun b _ => Text.isBlankText_of_mem_lines b))]
  · obtain ⟨solid, solid'⟩ := not_or.mp blank
    have findings : Scanner.indented.findings content.lines = Scanner.indented.findings other.lines :=
      alike.findingsFrom_eq 0
    rw [Text.isEmpty_eq_false solid, Text.isEmpty_eq_false solid', if_neg Bool.false_ne_true, if_neg Bool.false_ne_true]
    simp only [ofLines, wholeFile, findings, same.1, solid, solid']

/-- A class that is only named in a comment or in a docstring is not declared. -/
theorem ofContent_eq_of_sameCode_documented :
    let content : Text := "# one\ndef f():\n    r\"\"\"\nclass A:\n    \"\"\"\n".toList
    let other : Text := "  #class B:\ndef f():\n    r\"\"\"\nimport b\n    \"\"\"\n".toList
    '\x00' ∉ content ∧ '\x00' ∉ other ∧ SameCode content.lines other.lines ∧
      ∃ o, ofContent .indented "a.py".toList content = .ok o ∧ ofContent .indented "a.py".toList other = .ok o := by
  intro content other
  have plain : '\x00' ∉ content := by decide +kernel
  have plain' : '\x00' ∉ other := by decide +kernel
  have same : SameCode content.lines other.lines := by decide +kernel
  exact ⟨plain, plain', same, ofContent_eq_of_sameCode plain plain' same⟩

end Outline

end Chunkwise
