import Chunkwise.Proofs.Collection.Grammar
import Chunkwise.Proofs.Collection.Keys
import Chunkwise.Proofs.Text.Slice

/-!
# One collection behind another

A text that begins with a file header may be put behind any text that is empty or ends with a line feed. No header
reaches across the seam, whatever the first text ends in. So the files of the first text stay as they are, and those of
the second text follow them at their new places. Only the numbers that tell files of one name apart go on counting.
-/

namespace Chunkwise

/-! ## Headers on both sides of a seam -/

namespace Header

/-- The lines of a text that begins with a header are the header's and at least one more. -/
theorem Stands.lines_eq {h : Header} {t : Text} (stands : h.Stands t 0) :
    (∀ f ∈ h.fields, f ≠ headerRule) ∧ ∃ l more, t.lines = h.lines ++ l :: more := by
  obtain ⟨plain, before, l, more, is, first⟩ := stands_iff.mp stands
  cases before with
  | nil => exact ⟨plain, l, more, is⟩
  | cons line others =>
    rw [Text.terminated_cons, List.length_append, List.length_cons] at first
    omega

/-- The headers of two texts, the second of which begins with one, are found when the texts are put together. -/
theorem findAll_append {a b : Text} (ended : a = [] ∨ a.getLast? = some '\n') {h : Header} (headed : h.Stands b 0) :
    findAll (a ++ b) = findAll a ++ (findAll b).map fun e => (a.length + e.1, e.2) := by
  obtain ⟨front, plain, rfl⟩ := Text.exists_terminated ended
  obtain ⟨-, l, more, is⟩ := headed.lines_eq
  have opens : Opens b.lines := is ▸ opens_lines h (l :: more)
  have behind := scan_shift (Text.terminated front).length 0 0 b.lines
  rw [Nat.add_zero] at behind
  rw [findAll, findAll, findAll, Text.lines_terminated plain, Text.lines_terminated_nil plain, scan_append 0 opens,
    Nat.zero_add, behind]

theorem head?_findAll {t : Text} {h : Header} (headed : h.Stands t 0) : (findAll t).head? = some (0, h) := by
  obtain ⟨plain, l, more, is⟩ := headed.lines_eq
  rw [findAll, is, scan_header 0 plain (List.cons_ne_nil l more), List.head?_cons]

end Header

/-! ## Files on both sides of a seam -/

/-- The file when its text is put behind `k` characters. -/
def SourceFile.moved (k : ℕ) (f : SourceFile) : SourceFile :=
  { f with start := k + f.start, stop := k + f.stop, body := k + f.body }

/-- The file when its wanted key came up `earlier` times before. -/
def SourceFile.keyed (earlier : ℕ) (f : SourceFile) : SourceFile :=
  { f with key := Collection.numberedKey f.wanted earlier }

namespace Collection

variable {a b : Text} {found : List (ℕ × Header)}

/-- The files of the first text end where the second text begins. -/
theorem filesFrom_append {later : List (ℕ × Header)} (order : found.Pairwise fun d e => d.1 + d.2.text.length ≤ e.1)
    (within : ∀ e ∈ found, e.1 + e.2.text.length ≤ a.length) (seam : later.head?.map (·.1) = some a.length)
    (used : List Text) :
    filesFrom (a ++ b) used (found ++ later) =
      filesFrom a used found ++ filesFrom (a ++ b) ((found.map fun e => wantedKey e.2).reverse ++ used) later := by
  induction found generalizing used with
  | nil => rfl
  | cons e rest ih =>
    obtain ⟨-, ordered⟩ := List.pairwise_cons.mp order
    obtain ⟨-, inside⟩ := List.forall_mem_cons.mp within
    have stop : ((rest ++ later).head?.map (·.1)).getD (a ++ b).length = (rest.head?.map (·.1)).getD a.length := by
      cases rest with
      | nil => rw [List.nil_append, seam]; rfl
      | cons next more => rfl
    have before : (rest.head?.map (·.1)).getD a.length ≤ a.length := by
      cases rest with
      | nil => exact le_refl _
      | cons next more => exact (Nat.le_add_right ..).trans (inside next List.mem_cons_self)
    simp only [List.cons_append, filesFrom, stop, Text.slice_append_left before, ih ordered inside]
    simp

/-- The files of the second text are moved behind the first one. -/
theorem filesFrom_moved (used : List Text) :
    filesFrom (a ++ b) used (found.map fun e => (a.length + e.1, e.2)) =
      (filesFrom b used found).map (SourceFile.moved a.length) := by
  induction found generalizing used with
  | nil => rfl
  | cons e rest ih =>
    have stop : ((rest.map fun e => (a.length + e.1, e.2)).head?.map (·.1)).getD (a ++ b).length =
        a.length + (rest.head?.map (·.1)).getD b.length := by
      cases rest with
      | nil => exact List.length_append
      | cons next more => rfl
    simp only [List.map_cons, filesFrom, stop, ih, Nat.add_assoc, Text.slice_append_right, SourceFile.moved]
    simp

theorem length_filesFrom (text : Text) (used : List Text) (found : List (ℕ × Header)) :
    (filesFrom text used found).length = found.length := by
  simpa using congrArg List.length (map_wanted_filesFrom text used found)

/-- The names that came up before are counted in the keys of files and in nothing else. -/
theorem getElem?_filesFrom (text : Text) (used other : List Text) (found : List (ℕ × Header)) (i : ℕ) :
    (filesFrom text used found)[i]? = (filesFrom text other found)[i]?.map fun f =>
      f.keyed (used.count f.wanted + ((found.take i).map fun e => wantedKey e.2).count f.wanted) := by
  induction found generalizing used other i with
  | nil => rfl
  | cons e rest ih =>
    cases i with
    | zero => rfl
    | succ i =>
      rw [filesFrom, filesFrom, List.getElem?_cons_succ, List.getElem?_cons_succ, ih _ (wantedKey e.2 :: other)]
      congr 1
      funext f
      rw [List.take_succ_cons, List.map_cons, List.count_cons, List.count_cons, Nat.add_right_comm, Nat.add_assoc]

/-- Behind a text that is empty or ends with a line feed, a text that begins with a header is read as it is read alone,
    and so is the text before it: the files of the first text come first, unchanged, and then those of the second text,
    the same but for where they stand. The key of such a file is the name it asks for, with a number that counts the
    earlier files of both texts instead of those of its own text. -/
theorem parse_append (ended : a = [] ∨ a.getLast? = some '\n') (headed : ∃ h : Header, h.Stands b 0) :
    ∃ later, parse (a ++ b) = parse a ++ later ∧ later.length = (parse b).length ∧
      ∀ (i : ℕ) (f : SourceFile), (parse b)[i]? = some f →
        f = f.keyed ((((parse b).take i).map (·.wanted)).count f.wanted) ∧
        later[i]? = some ((f.moved a.length).keyed
          (((parse a).map (·.wanted)).count f.wanted + (((parse b).take i).map (·.wanted)).count f.wanted)) := by
  obtain ⟨h, stands⟩ := headed
  let asked := ((Header.findAll a).map fun e => wantedKey e.2).reverse
  have whole : parse (a ++ b) = parse a ++ (filesFrom b asked (Header.findAll b)).map (SourceFile.moved a.length) := by
    have within : ∀ e ∈ Header.findAll a, e.1 + e.2.text.length ≤ a.length :=
      fun _ member => Header.le_of_mem_findAll member
    have seam : ((Header.findAll b).map fun e => (a.length + e.1, e.2)).head?.map (·.1) = some a.length := by
      rw [List.head?_map, Header.head?_findAll stands]
      rfl
    rw [parse, Header.findAll_append ended stands, filesFrom_append (Header.pairwise_findAll a) within seam,
      List.append_nil, filesFrom_moved]
    rfl
  refine ⟨_, whole, ?_, ?_⟩
  · rw [List.length_map, parse, length_filesFrom, length_filesFrom]
  · intro i f here
    have names : ((Header.findAll b).take i).map (fun e => wantedKey e.2) = ((parse b).take i).map (·.wanted) := by
      rw [parse, List.map_take, List.map_take, map_wanted_filesFrom]
    have counted : asked.count f.wanted = ((parse a).map (·.wanted)).count f.wanted := by
      rw [parse, map_wanted_filesFrom]
      exact List.count_reverse
    constructor
    · have alone := getElem?_filesFrom b [] [] (Header.findAll b) i
      rw [names, ← parse, here, Option.map_some, List.count_nil, Nat.zero_add] at alone
      exact Option.some.inj alone
    · rw [List.getElem?_map, getElem?_filesFrom b asked [] (Header.findAll b) i, ← parse, here, names]
      simp only [Option.map_some, counted]
      rfl

/-- A file named `x` with a line and a header that is not finished. -/
def unfinishedText : Text :=
  (Header.mk ['x'] []).text ++ ['1', '\n'] ++ headerRule ++ '\n' :: nameMarker ++ ['y', '\n']

/-- Another file named `x`, with one character. -/
def finishedText : Text := (Header.mk ['x'] []).text ++ ['2']

theorem stands_finishedText : (Header.mk ['x'] []).Stands finishedText 0 where
  lineStart := Or.inl rfl
  written := List.prefix_append ..
  name := by decide
  fields := by simp

/-- The second header does not finish the one that the first text ends in, and its file gets the next number. -/
theorem parse_append_unfinished :
    ∃ f, parse (unfinishedText ++ finishedText) = parse unfinishedText ++ [f] ∧
      f.content = ['2'] ∧ f.start = (unfinishedText.length : ℤ) ∧ f.key = ['x', '#', '2'] := by
  obtain ⟨later, whole, length, each⟩ :=
    parse_append (a := unfinishedText) (Or.inr (by decide)) ⟨_, stands_finishedText⟩
  have first : (parse unfinishedText).map (·.wanted) = [['x']] := by decide +kernel
  have second : (parse finishedText).map (fun g => (g.wanted, g.content, g.start)) = [(['x'], ['2'], 0)] := by
    decide +kernel
  obtain ⟨g, alone, is⟩ := List.map_eq_singleton_iff.mp second
  obtain ⟨wanted, content, start⟩ : g.wanted = ['x'] ∧ g.content = ['2'] ∧ g.start = 0 := by simpa using is
  rw [alone] at length each
  obtain ⟨f, rfl⟩ := List.length_eq_one_iff.mp length
  obtain ⟨-, moved⟩ := each 0 g rfl
  obtain rfl := Option.some.inj moved
  refine ⟨_, whole, content, by simp [SourceFile.keyed, SourceFile.moved, start], ?_⟩
  have number : numberedKey ['x'] 1 = ['x', '#', '2'] := by decide
  rw [first, wanted]
  exact (congrArg (numberedKey · 1) wanted).trans number

end Collection

end Chunkwise
