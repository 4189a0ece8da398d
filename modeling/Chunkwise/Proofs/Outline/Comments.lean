import Chunkwise.Outline.Comments
import Mathlib.Tactic

/-!
# Comments are found from the left

A plain scanner reads a line character by character and knows only the character before and whether a block comment is
open. The stripping of comments searches for marks instead, and takes all marks of a line comment for a part of an
address up to the next block comment once there has been an address. So it is a scanner with one more zone, and the two
agree unless a line comment begins behind an address.
-/

namespace Chunkwise.Comments

open Text

/-- What is kept of a line that begins with `front`, all of which is kept. -/
def keep (front : Text) (result : Text × Bool) : Text × Bool := (front ++ result.1, result.2)

variable {a b : Text × Bool} {front : Text}

theorem keep_inj : keep front a = keep front b ↔ a = b := by simp [keep, Prod.ext_iff]

theorem keep_prefix_keep : (keep front a).1 <+: (keep front b).1 ↔ a.1 <+: b.1 := List.prefix_append_right_inj front

/-! ## The scanner -/

/-- The code of what follows the character `previous`, and whether a block comment is open at its end. Outside block
    comments, a line mark ends the code unless it directly follows a colon, and a block mark opens a block comment. -/
def scan (previous : Option Char) : Bool → Text → Text × Bool
  | inBlock, [] => ([], inBlock)
  | false, '/' :: '/' :: rest =>
    if previous = some ':' then keep ['/'] (scan (some '/') false ('/' :: rest)) else ([], false)
  | false, '/' :: '*' :: rest => scan none true rest
  | false, c :: rest => keep [c] (scan (some c) false rest)
  | true, '*' :: '/' :: rest => scan (some '/') false rest
  | true, _ :: rest => scan none true rest

/-! ## The scanner with addresses -/

/-- The part of a line that a position is in. An address begins at a line mark that directly follows a colon, and lasts
    up to the next block mark. -/
inductive Zone where
  | code (previous : Option Char)
  | address (previous : Option Char)
  | block
deriving Repr, DecidableEq

namespace Zone

/-- The character before the position, outside of block comments. -/
def previous : Zone → Option Char
  | code previous | address previous => previous
  | block => none

def inBlock : Zone → Bool
  | code _ | address _ => false
  | block => true

/-- The zone behind the character `previous`, when no address goes on there. -/
def start (previous : Option Char) (inBlock : Bool) : Zone := if inBlock then block else code previous

/-- The code of what follows, and whether a block comment is open at its end, when addresses are kept whole. -/
def read : Zone → Text → Text × Bool
  | zone, [] => ([], zone.inBlock)
  | code previous, '/' :: '/' :: rest =>
    if previous = some ':' then keep ['/'] (read (address (some '/')) ('/' :: rest)) else ([], false)
  | code _, '/' :: '*' :: rest => read block rest
  | code _, c :: rest => keep [c] (read (code (some c)) rest)
  | address _, '/' :: '*' :: rest => read block rest
  | address _, c :: rest => keep [c] (read (address (some c)) rest)
  | block, '*' :: '/' :: rest => read (code (some '/')) rest
  | block, _ :: rest => read block rest

/-- Whether an address holds a line mark that does not directly follow a colon, before the code ends. -/
def hides : Zone → Text → Bool
  | _, [] => false
  | code previous, '/' :: '/' :: rest => previous == some ':' && hides (address (some '/')) ('/' :: rest)
  | code _, '/' :: '*' :: rest => hides block rest
  | code _, c :: rest => hides (code (some c)) rest
  | address previous, '/' :: '/' :: rest => previous != some ':' || hides (address (some '/')) ('/' :: rest)
  | address _, '/' :: '*' :: rest => hides block rest
  | address _, c :: rest => hides (address (some c)) rest
  | block, '*' :: '/' :: rest => hides (code (some '/')) rest
  | block, _ :: rest => hides block rest

/-- The two scanners go on side by side up to a line mark that an address hides. There the plain one ends the code, and
    the other one keeps the slash. -/
theorem read_scan (zone : Zone) (t : Text) :
    (zone.read t = scan zone.previous zone.inBlock t ↔ zone.hides t = false) ∧
      (scan zone.previous zone.inBlock t).1 <+: (zone.read t).1 := by
  -- One case for each equation of `hides`. A line mark is the only thing that the two read in different ways.
  fun_induction hides zone t with
  | case1 zone => cases zone <;> simp [read, scan, inBlock]
  | case2 previous rest ih =>
    simp only [Zone.previous, inBlock, read, scan] at *
    by_cases colon : previous = some ':'
    · rw [if_pos colon, if_pos colon, keep_inj, keep_prefix_keep, colon]
      simpa using ih
    · simp [colon]
  | case3 _ rest ih => exact ih
  | case4 previous c rest noLine noBlock ih =>
    simp only [Zone.previous, inBlock, read, scan, keep_inj, keep_prefix_keep] at *
    exact ih
  | case5 previous rest ih =>
    have kept : (address previous).read ('/' :: '/' :: rest) = keep ['/'] ((address (some '/')).read ('/' :: rest)) :=
      rfl
    simp only [Zone.previous, inBlock, scan] at *
    by_cases colon : previous = some ':'
    · rw [if_pos colon, kept, keep_inj, keep_prefix_keep, colon]
      simpa using ih
    · simp [kept, colon, keep]
  | case6 _ rest ih => exact ih
  | case7 previous c rest noLine noBlock ih =>
    simp only [Zone.previous, inBlock, read, scan, keep_inj, keep_prefix_keep] at *
    exact ih
  | case8 rest ih => exact ih
  | case9 c rest noClose ih =>
    simp only [Zone.previous, inBlock, read, scan] at *
    exact ih

end Zone

/-! ## The searches for marks -/

theorem isPrefixOf_pair {c d : Char} {t : Text} : [c, d].isPrefixOf t ↔ ∃ rest, t = c :: d :: rest := by
  rw [List.isPrefixOf_iff_prefix]
  exact exists_congr fun rest => eq_comm

theorem not_pair {c d e : Char} {rest : Text} (misses : ¬ [c, d].isPrefixOf (e :: rest)) (more : Text) (first : e = c)
    (second : rest = d :: more) : False :=
  misses (isPrefixOf_pair.mpr ⟨more, by rw [first, second]⟩)

theorem read_block (t : Text) :
    Zone.block.read t =
      match firstAt? blockClose t with
      | some stop => (Zone.code (some '/')).read (t.drop (stop + 2))
      | none => ([], true) := by
  induction t with
  | nil => rfl
  | cons c rest ih =>
    rw [firstAt?_cons]
    split_ifs with closes
    · obtain ⟨more, same⟩ := isPrefixOf_pair.mp closes
      rw [same]
      rfl
    · have goesOn : Zone.block.read (c :: rest) = Zone.block.read rest := by
        rw [Zone.read]
        exact not_pair closes
      rw [goesOn, ih]
      cases firstAt? blockClose rest <;> rfl

theorem read_address (previous : Option Char) (t : Text) :
    (Zone.address previous).read t =
      match firstAt? blockOpen t with
      | some start => keep (t.take start) (Zone.block.read (t.drop (start + 2)))
      | none => (t, false) := by
  induction t generalizing previous with
  | nil => rfl
  | cons c rest ih =>
    rw [firstAt?_cons]
    split_ifs with opens
    · obtain ⟨more, same⟩ := isPrefixOf_pair.mp opens
      rw [same]
      rfl
    · have goesOn : (Zone.address previous).read (c :: rest) = keep [c] ((Zone.address (some c)).read rest) := by
        rw [Zone.read]
        exact not_pair opens
      rw [goesOn, ih]
      cases firstAt? blockOpen rest <;> rfl

/-- The character before position `i` of a text that follows the character `previous`. -/
def charBefore (previous : Option Char) (t : Text) : ℕ → Option Char
  | 0 => previous
  | i + 1 => t[i]?

theorem charBefore_cons (previous : Option Char) (c : Char) (t : Text) (i : ℕ) :
    charBefore previous (c :: t) (i + 1) = charBefore (some c) t i := by
  cases i <;> rfl

/-- Where a line comment begins in a text that follows the character `previous`. -/
def lineCommentAfter? (previous : Option Char) (t : Text) : Option ℕ :=
  (firstAt? lineMark t).filter fun i => (firstAt? blockOpen t).all (i < ·) && charBefore previous t i != some ':'

/-- The character before the text is of account only when it is a colon. -/
theorem lineComment?_eq {previous : Option Char} (noColon : previous ≠ some ':') (t : Text) :
    lineComment? t = lineCommentAfter? previous t := by
  have follows (i : ℕ) : followsColon t i = (charBefore previous t i == some ':') := by
    cases i with
    | zero => simpa [followsColon, charBefore] using noColon
    | succ j => simp [followsColon, charBefore]
  unfold lineComment? lineCommentAfter?
  cases firstAt? lineMark t with
  | none => rfl
  | some i => cases firstAt? blockOpen t <;> simp [follows, Option.filter, bne]

theorem lineCommentAfter?_cons (previous : Option Char) (c : Char) (rest : Text) :
    lineCommentAfter? previous (c :: rest) =
      if lineMark.isPrefixOf (c :: rest) then if previous = some ':' then none else some 0
      else if blockOpen.isPrefixOf (c :: rest) then none
      else (lineCommentAfter? (some c) rest).map (· + 1) := by
  unfold lineCommentAfter?
  rw [firstAt?_cons, firstAt?_cons]
  by_cases line : lineMark.isPrefixOf (c :: rest)
  · obtain ⟨more, same⟩ := isPrefixOf_pair.mp line
    have noBlock : blockOpen.isPrefixOf (c :: rest) = false := by rw [same]; rfl
    rw [if_pos line, noBlock, if_pos line]
    cases firstAt? blockOpen rest <;> simp [Option.filter, charBefore]
  · rw [if_neg line, if_neg line]
    by_cases block : blockOpen.isPrefixOf (c :: rest)
    · rw [if_pos block, if_pos block]
      cases firstAt? lineMark rest <;> simp [Option.filter]
    · rw [if_neg block, if_neg block, Option.filter_map]
      cases firstAt? blockOpen rest <;> simp [Function.comp_def, charBefore_cons]

/-- Code that no line comment ends is read like an address. -/
theorem read_code (previous : Option Char) (t : Text) :
    (Zone.code previous).read t =
      match lineCommentAfter? previous t with
      | some i => (t.take i, false)
      | none => (Zone.address previous).read t := by
  induction t generalizing previous with
  | nil => rfl
  | cons c rest ih =>
    rw [lineCommentAfter?_cons]
    split_ifs with line colon block
    · obtain ⟨more, same⟩ := isPrefixOf_pair.mp line
      rw [same, colon]
      rfl
    · obtain ⟨more, same⟩ := isPrefixOf_pair.mp line
      rw [same, Zone.read, if_neg colon]
      rfl
    · obtain ⟨more, same⟩ := isPrefixOf_pair.mp block
      rw [same]
      rfl
    · rw [Zone.read, Zone.read, ih]
      · cases lineCommentAfter? (some c) rest <;> rfl
      · exact not_pair block
      · exact not_pair line
      · exact not_pair block

/-! ## The stripping of comments -/

theorem strip_eq_read {previous : Option Char} (noColon : previous ≠ some ':') (left : Text) (inBlock : Bool) :
    strip left inBlock = (Zone.start previous inBlock).read left := by
  have slash : some '/' ≠ some ':' := by decide
  fun_induction strip left inBlock generalizing previous with
  | case1 inBlock => cases inBlock <;> rfl
  | case2 left some missing => rw [Zone.start, if_pos rfl, read_block, missing]
  | case3 left some stop found ih =>
    rw [Zone.start, if_pos rfl, read_block, found, ih slash]
    rfl
  | case4 left inBlock some outside i ends =>
    rw [Zone.start, if_neg outside, read_code, ← lineComment?_eq noColon, ends]
  | case5 left inBlock some outside noEnd missing =>
    rw [Zone.start, if_neg outside, read_code, ← lineComment?_eq noColon, noEnd, read_address, missing]
  | case6 left inBlock some outside noEnd start found code stillIn after ih =>
    rw [ih noColon] at after
    rw [Zone.start, if_neg outside, read_code, ← lineComment?_eq noColon, noEnd, read_address, found]
    exact (congrArg (keep (left.take start)) after).symm

/-- Nothing that the scanner keeps is lost, and more is kept just if an address hides a line comment. -/
theorem strip_eq_scan_iff (line : Text) (inBlock : Bool) :
    (strip line inBlock = scan none inBlock line ↔ (Zone.start none inBlock).hides line = false) ∧
      (scan none inBlock line).1 <+: (strip line inBlock).1 := by
  have plain : none ≠ some ':' := nofun
  rw [strip_eq_read plain]
  have both := (Zone.start none inBlock).read_scan line
  cases inBlock <;> exact both

/-- The line comment behind an address is kept, also where neither a slash nor a star directly follows the mark of the
    address. -/
theorem strip_ne_scan_of_address :
    let line : Text := "get('http://a') // b".toList
    ¬ ":///".toList <:+: line ∧ ¬ "://*".toList <:+: line ∧
      scan none false line = ("get('http://a') ".toList, false) ∧ strip line false = (line, false) ∧
      strip line false ≠ scan none false line := by
  intro line
  have plain : none ≠ some ':' := nofun
  have kept : strip line false = (line, false) := by
    rw [strip_eq_read plain]
    decide +kernel
  rw [kept]
  decide +kernel

end Chunkwise.Comments
