import Chunkwise.Proofs.Collection.Files
import Chunkwise.Proofs.Contiguous

/-!
# Every header is found

A header stands at a line start of a text when its lines follow there: the rule, the filename, fields none of which is
a rule, the second rule and an empty line. The search may go on behind a header that it has found, because no header
begins within another one. So it finds the headers that stand in a text, all of them and nothing else, and the files
of a collection are the stretches from one such header to the next.
-/

namespace Chunkwise

/-- A line start is the beginning of the text or follows a line feed. -/
def Text.IsLineStart (t : Text) (p : ℕ) : Prop := p = 0 ∨ t[p - 1]? = some '\n'

/-- What precedes a line start is made of terminated lines. -/
theorem Text.IsLineStart.exists_terminated {t : Text} {p : ℕ} (start : t.IsLineStart p) :
    ∃ ls : List Text, (∀ l ∈ ls, '\n' ∉ l) ∧ t.take p = terminated ls := by
  refine Text.exists_terminated ?_
  cases p with
  | zero => exact Or.inl List.take_zero
  | succ q =>
    have feed : t[q]? = some '\n' := start.resolve_left (Nat.succ_ne_zero q)
    exact Or.inr (by simp [List.take_add_one, feed])

theorem Text.isLineStart_terminated (ls : List Text) (t : Text) :
    (terminated ls ++ t).IsLineStart (terminated ls).length := by
  rcases ls.eq_nil_or_concat with rfl | ⟨before, l, rfl⟩
  · exact Or.inl rfl
  · right
    have last : terminated (before ++ [l]) = (terminated before ++ l) ++ ['\n'] := by
      rw [terminated_append, List.append_assoc]
      simp [terminated]
    rw [List.concat_eq_append, last, List.length_append, List.length_singleton, Nat.add_sub_cancel, List.append_assoc,
      List.getElem?_append_right (le_refl _), Nat.sub_self]
    rfl

namespace Header

/-- The text from position `p` on begins with the header, at a line start. -/
structure Stands (h : Header) (t : Text) (p : ℕ) : Prop where
  lineStart : t.IsLineStart p
  written : h.text <+: t.drop p
  name : '\n' ∉ h.name
  fields : ∀ f ∈ h.fields, '\n' ∉ f ∧ f ≠ headerRule

/-! ## Headers among lines -/

theorem no_feed_of_mem_lines {h : Header} (name : '\n' ∉ h.name) (fields : ∀ f ∈ h.fields, '\n' ∉ f) :
    ∀ l ∈ h.lines, '\n' ∉ l := by
  intro l member
  simp only [lines, List.mem_append, List.mem_cons, List.not_mem_nil, or_false] at member
  rcases member with ((rfl | rfl) | inFields) | rfl | rfl
  · decide
  · intro feed
    rcases List.mem_append.mp feed with inMarker | inName
    · exact absurd inMarker (by decide)
    · exact name inName
  · exact fields l inFields
  · decide
  · decide

theorem text_length_pos (h : Header) : 0 < h.text.length := by simp [text_eq_terminated, lines, Text.terminated]

/-- A header stands in a text where its lines are among the lines of the text, with a line after them. -/
theorem stands_iff {h : Header} {t : Text} {p : ℕ} :
    h.Stands t p ↔ (∀ f ∈ h.fields, f ≠ headerRule) ∧
      ∃ before l more, t.lines = before ++ (h.lines ++ l :: more) ∧ p = (Text.terminated before).length := by
  constructor
  · rintro ⟨start, ⟨rest, written⟩, name, fields⟩
    obtain ⟨before, plain, is⟩ := start.exists_terminated
    obtain ⟨l, more, restLines⟩ := List.exists_cons_of_ne_nil (Text.splitBy_ne_nil (· == '\n') rest)
    refine ⟨fun f member => (fields f member).2, before, l, more, ?_, ?_⟩
    · have split : t = Text.terminated before ++ (Text.terminated h.lines ++ rest) := by
        rw [← is, ← text_eq_terminated, written, List.take_append_drop]
      rw [split, Text.lines_terminated plain,
        Text.lines_terminated (no_feed_of_mem_lines name fun f member => (fields f member).1), ← restLines]
      rfl
    · have some := text_length_pos h
      have inside := congrArg List.length written
      rw [List.length_append, List.length_drop] at inside
      rw [← is, List.length_take, min_eq_left (by omega)]
  · rintro ⟨plain, before, l, more, is, rfl⟩
    have each : ∀ m ∈ h.lines, '\n' ∉ m := by
      intro m member
      refine Text.no_feed_of_mem_lines (t := t) ?_
      rw [is]
      exact List.mem_append_right _ (List.mem_append_left _ member)
    -- Every line is written with a line feed, the last one because another line follows the header.
    obtain ⟨rest, split⟩ : ∃ rest, t = Text.terminated before ++ (h.text ++ rest) := by
      have whole := Text.terminated_lines t
      rw [is, Text.terminated_append, Text.terminated_append, Text.terminated_eq_join (List.cons_ne_nil l more),
        ← text_eq_terminated, ← List.append_assoc, ← List.append_assoc] at whole
      exact ⟨_, by rw [← List.append_cancel_right whole, List.append_assoc]⟩
    refine ⟨?_, ?_, ?_, ?_⟩
    · rw [split]
      exact Text.isLineStart_terminated before _
    · rw [split, List.drop_left]
      exact List.prefix_append h.text rest
    · intro feed
      exact each (nameMarker ++ h.name) (by simp [lines]) (List.mem_append_right _ feed)
    · intro f member
      exact ⟨each f (by simp [lines, member]), plain f member⟩

/-! ## No header within another one -/

/-- Where a header begins behind the beginning of another one, it begins behind that one's last line. -/
theorem exists_append_of_lines_append {g h : Header} {before rest others : List Text}
    (plain : ∀ f ∈ g.fields, f ≠ headerRule) (behind : before ≠ [])
    (same : before ++ (h.lines ++ rest) = g.lines ++ others) : ∃ between, before = g.lines ++ between := by
  rcases List.append_eq_append_iff.mp same with ⟨tail, isLines, after⟩ | ⟨between, is, -⟩
  · cases tail with
    | nil =>
      refine ⟨[], ?_⟩
      rw [List.append_nil] at isLines ⊢
      exact isLines.symm
    | cons rule tail =>
      -- The first line of `h` would be the second rule of `g`, and so its second line the empty one.
      exfalso
      obtain ⟨first, more, rfl⟩ := List.exists_cons_of_ne_nil behind
      obtain ⟨rfl, named⟩ : rule = headerRule ∧ (nameMarker ++ h.name) :: (h.fields ++ [headerRule, []] ++ rest) =
          tail ++ others := by simpa [lines, eq_comm] using after
      obtain ⟨-, front⟩ : headerRule = first ∧
          ((nameMarker ++ g.name) :: g.fields) ++ headerRule :: [[]] = more ++ headerRule :: tail := by
        simpa [lines] using isLines
      have unruled : headerRule ∉ (nameMarker ++ g.name) :: g.fields := by
        intro member
        rcases List.mem_cons.mp member with equal | inFields
        · have marked : nameMarker <+: headerRule := ⟨g.name, equal.symm⟩
          exact absurd marked (by decide)
        · exact plain headerRule inFields rfl
      have empty : headerRule ∉ [([] : Text)] := by simp [headerRule]
      obtain ⟨-, -, rfl⟩ := (List.append_cons_inj_of_notMem unruled empty).mp front
      exact absurd (List.cons_eq_cons.mp named).1 (List.append_ne_nil_of_left_ne_nil (by decide) h.name)
  · exact ⟨between, is⟩

/-! ## The course of the search -/

/-- How a search through lines goes that begin at `offset`, and what it finds. -/
inductive Finds : ℕ → List Text → List (ℕ × Header) → Prop where
  | done {offset : ℕ} : Finds offset [] []
  | pass {offset : ℕ} {line : Text} {rest : List Text} {found : List (ℕ × Header)}
      (unread : ofLines? (line :: rest) = none) (after : Finds (offset + line.length + 1) rest found) :
      Finds offset (line :: rest) found
  | find {offset : ℕ} {h : Header} {l : Text} {more : List Text} {found : List (ℕ × Header)}
      (plain : ∀ f ∈ h.fields, f ≠ headerRule) (after : Finds (offset + h.text.length) (l :: more) found) :
      Finds offset (h.lines ++ l :: more) ((offset, h) :: found)

theorem finds_scan (offset : ℕ) (ls : List Text) : Finds offset ls (scan offset 0 ls) := by
  induction size : ls.length using Nat.strong_induction_on generalizing offset ls with
  | _ n ih =>
    cases ls with
    | nil => exact .done
    | cons line rest =>
      cases read : ofLines? (line :: rest) with
      | none =>
        simp only [scan, read]
        exact .pass read (ih rest.length (by rw [← size, List.length_cons]; omega) _ _ rfl)
      | some h =>
        obtain ⟨plain, l, more, is⟩ := ofLines?_eq_some.mp read
        rw [is, scan_header offset plain (List.cons_ne_nil l more)]
        refine .find plain (ih (l :: more).length ?_ _ _ rfl)
        have whole := congrArg List.length is
        simp only [lines, List.length_append, List.length_cons] at whole size ⊢
        omega

namespace Finds

variable {offset : ℕ} {ls : List Text} {found : List (ℕ × Header)}

/-- Every header among the lines is found. -/
theorem complete (finds : Finds offset ls found) {h : Header} {before more : List Text} {l : Text}
    (plain : ∀ f ∈ h.fields, f ≠ headerRule) (is : ls = before ++ (h.lines ++ l :: more)) :
    (offset + (Text.terminated before).length, h) ∈ found := by
  induction finds generalizing before with
  | done => simp [lines] at is
  | @pass offset line rest _ unread _ ih =>
    cases before with
    | nil =>
      rw [ofLines?_eq_some.mpr ⟨plain, l, more, is⟩] at unread
      cases unread
    | cons _ front =>
      obtain ⟨rfl, behind⟩ := List.cons_eq_cons.mp is
      have further : offset + (Text.terminated (line :: front)).length =
          offset + line.length + 1 + (Text.terminated front).length := by
        rw [Text.terminated_cons, List.length_append, List.length_cons]
        omega
      rw [further]
      exact ih behind
  | @find _ g first rest _ plainFirst _ ih =>
    by_cases here : before = []
    · subst here
      have read := ofLines?_eq_some.mpr ⟨plain, l, more, is⟩
      rw [ofLines?_eq_some.mpr ⟨plainFirst, first, rest, rfl⟩] at read
      cases read
      exact List.mem_cons_self
    · obtain ⟨between, rfl⟩ := exists_append_of_lines_append plainFirst here is.symm
      rw [List.append_assoc] at is
      have later := ih (List.append_cancel_left is)
      rw [Text.terminated_append, List.length_append, ← Nat.add_assoc]
      exact List.mem_cons_of_mem _ later

/-- What is found comes in order: a header ends before the next one begins. -/
theorem ordered (finds : Finds offset ls found) :
    (∀ e ∈ found, offset ≤ e.1) ∧ found.Pairwise fun a b => a.1 + a.2.text.length ≤ b.1 := by
  induction finds with
  | done => exact ⟨by simp, .nil⟩
  | pass _ _ ih => exact ⟨fun e member => by have := ih.1 e member; omega, ih.2⟩
  | find _ _ ih =>
    refine ⟨List.forall_mem_cons.mpr ⟨le_refl _, fun e member => ?_⟩, .cons ih.1 ih.2⟩
    have := ih.1 e member
    omega

end Finds

/-- The search finds the headers that stand in a text, all of them and nothing else. -/
theorem mem_findAll_iff {t : Text} {p : ℕ} {h : Header} : (p, h) ∈ findAll t ↔ h.Stands t p := by
  rw [stands_iff]
  constructor
  · intro member
    obtain ⟨plain, before, l, more, is, rfl⟩ := mem_scan member
    exact ⟨plain, before, l, more, is, Nat.zero_add _⟩
  · rintro ⟨plain, before, l, more, is, rfl⟩
    have found := (finds_scan 0 t.lines).complete plain is
    rwa [Nat.zero_add] at found

/-- The headers that are found come in order, none of them within another one. -/
theorem pairwise_findAll (t : Text) : (findAll t).Pairwise fun a b => a.1 + a.2.text.length ≤ b.1 :=
  (finds_scan 0 t.lines).ordered.2

end Header

namespace Collection

/-! ## Files -/

variable {text : Text} {used : List Text} {found : List (ℕ × Header)}

/-- What a file takes from the text: its content is what follows the header, up to the end, without one separator at the
    end. -/
structure Spans (text : Text) (f : SourceFile) : Prop where
  start_nonneg : 0 ≤ f.start
  start_lt : f.start < f.body
  body_le : f.body ≤ f.stop
  content : Text.slice text f.body.toNat f.stop.toNat = f.content ++ separator ∨
    Text.slice text f.body.toNat f.stop.toNat = f.content ∧ ¬ separator <:+ f.content

theorem dropEnding_spec (ending t : Text) :
    t = Text.dropEnding ending t ++ ending ∨ t = Text.dropEnding ending t ∧ ¬ ending <:+ Text.dropEnding ending t := by
  unfold Text.dropEnding
  split
  · rename_i ended
    obtain ⟨front, rfl⟩ := List.isSuffixOf_iff_suffix.mp ended
    exact Or.inl (by simp)
  · rename_i other
    exact Or.inr ⟨rfl, by simpa using other⟩

theorem map_filesFrom (text : Text) (used : List Text) (found : List (ℕ × Header)) :
    (filesFrom text used found).map (fun f => (f.start, f.body)) =
      found.map fun e => ((e.1 : ℤ), (e.1 : ℤ) + e.2.text.length) := by
  induction found generalizing used with
  | nil => rfl
  | cons e rest ih => simp [filesFrom, ih]

theorem spans_filesFrom (order : found.Pairwise fun a b => a.1 + a.2.text.length ≤ b.1)
    (within : ∀ e ∈ found, e.1 + e.2.text.length ≤ text.length) : ∀ f ∈ filesFrom text used found, Spans text f := by
  induction found generalizing used with
  | nil => simp [filesFrom]
  | cons e rest ih =>
    obtain ⟨next, ordered⟩ := List.pairwise_cons.mp order
    obtain ⟨here, later⟩ := List.forall_mem_cons.mp within
    refine List.forall_mem_cons.mpr ⟨?_, ih ordered later⟩
    have some := e.2.text_length_pos
    refine ⟨Int.natCast_nonneg _, by simp only; omega, ?_, ?_⟩
    · simp only
      cases rest with
      | nil => exact_mod_cast here
      | cons second more => exact_mod_cast next second List.mem_cons_self
    · simp only [Int.toNat_natCast]
      exact dropEnding_spec separator _

theorem contiguous_filesFrom {e : ℕ × Header} {rest : List (ℕ × Header)}
    (order : (e :: rest).Pairwise fun a b => a.1 + a.2.text.length ≤ b.1)
    (within : ∀ d ∈ e :: rest, d.1 + d.2.text.length ≤ text.length) :
    Contiguous SourceFile.start SourceFile.stop (e.1 : ℤ) text.length (filesFrom text used (e :: rest)) := by
  induction rest generalizing e used with
  | nil =>
    have here := within e List.mem_cons_self
    refine ⟨rfl, ?_, rfl⟩
    simp only [List.head?_nil, Option.map_none, Option.getD_none]
    omega
  | cons second more ih =>
    obtain ⟨next, ordered⟩ := List.pairwise_cons.mp order
    obtain ⟨_, later⟩ := List.forall_mem_cons.mp within
    have here := next second List.mem_cons_self
    refine ⟨rfl, ?_, ih ordered later⟩
    simp only [List.head?_cons, Option.map_some, Option.getD_some]
    omega

theorem spans_of_mem_parse : ∀ f ∈ parse text, Spans text f :=
  spans_filesFrom (Header.pairwise_findAll text) fun _ member => Header.le_of_mem_findAll member

/-- The files of a collection follow each other up to the end of the text. -/
theorem contiguous_parse (text : Text) :
    ∃ first, Contiguous SourceFile.start SourceFile.stop first (text.length : ℤ) (parse text) := by
  have order := Header.pairwise_findAll text
  have within : ∀ e ∈ Header.findAll text, e.1 + e.2.text.length ≤ text.length :=
    fun _ member => Header.le_of_mem_findAll member
  unfold parse
  cases found : Header.findAll text with
  | nil => exact ⟨_, rfl⟩
  | cons e rest =>
    rw [found] at order within
    exact ⟨_, contiguous_filesFrom order within⟩

/-- The files of a collection begin, in order, where the headers of its grammar stand, at all of these places and
    nowhere else; the body of a file begins behind its header. A file ends where the next one begins, the last one at
    the end of the text, and its content is its body without one separator at the end. -/
theorem parse_exact (text : Text) :
    ((parse text).map (·.start)).Pairwise (· < ·) ∧
    (∀ start body : ℤ, (∃ f ∈ parse text, f.start = start ∧ f.body = body) ↔
      ∃ (p : ℕ) (h : Header), h.Stands text p ∧ start = p ∧ body = p + h.text.length) ∧
    (∃ first, Contiguous SourceFile.start SourceFile.stop first (text.length : ℤ) (parse text)) ∧
    ∀ f ∈ parse text, Spans text f := by
  have spans : ∀ f ∈ parse text, Spans text f := spans_of_mem_parse
  obtain ⟨first, chain⟩ := contiguous_parse text
  refine ⟨?_, ?_, ⟨first, chain⟩, spans⟩
  · rw [List.pairwise_map]
    refine chain.pairwise.imp_of_mem ?_
    intro f g member _ follows
    obtain ⟨_, before, within, _⟩ := spans f member
    omega
  · intro start body
    have places : (∃ f ∈ parse text, f.start = start ∧ f.body = body) ↔
        (start, body) ∈ (parse text).map fun f => (f.start, f.body) := by simp
    rw [places, parse, map_filesFrom, List.mem_map]
    constructor
    · rintro ⟨⟨p, h⟩, member, same⟩
      obtain ⟨rfl, rfl⟩ := Prod.mk.inj same
      exact ⟨p, h, Header.mem_findAll_iff.mp member, rfl, rfl⟩
    · rintro ⟨p, h, stands, rfl, rfl⟩
      exact ⟨(p, h), Header.mem_findAll_iff.mpr stands, rfl⟩

end Collection

end Chunkwise
