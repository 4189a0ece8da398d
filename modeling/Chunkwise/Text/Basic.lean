/-!
# Texts

A text is the list of its characters, so that every length and position counts characters. Here are the ways of
taking a text apart: at a character, at a class of characters, at the ends, and by position.
-/

namespace Chunkwise

/-- A text is the list of its characters. -/
abbrev Text := List Char

namespace Text

/-- No text that can be held at all has as many characters as that, `2 ^ 63`: a position in it is a signed word. -/
def lengthLimit : Nat := 0x8000000000000000

def orElse (t other : Text) : Text := if t.isEmpty then other else t

/-! ## Pieces -/

/-- The text with every `sep` between two parts of `parts`. -/
def join (sep : Text) (parts : List Text) : Text := sep.intercalate parts

/-- One more character in front of a text that is divided into pieces. -/
def addToPieces (p : Char → Bool) (c : Char) (pieces : List Text) : List Text :=
  if p c then [] :: pieces
  else
    match pieces with
    | [] => [[c]]
    | piece :: others => (c :: piece) :: others

/-- The pieces between the characters in `p`: one more than there are such characters. -/
def splitBy (p : Char → Bool) (t : Text) : List Text := t.foldr (addToPieces p) [[]]

theorem splitBy_cons (p : Char → Bool) (c : Char) (t : Text) :
    splitBy p (c :: t) = addToPieces p c (splitBy p t) := rfl

theorem splitBy_ne_nil (p : Char → Bool) (t : Text) : splitBy p t ≠ [] := by
  cases t with
  | nil => simp [splitBy]
  | cons c rest =>
    rw [splitBy_cons]
    unfold addToPieces
    split
    · simp
    · split <;> simp

/-- Nothing but the separators is lost. -/
theorem join_splitBy (sep : Char) (t : Text) : join [sep] (splitBy (· == sep) t) = t := by
  induction t with
  | nil => rfl
  | cons c rest ih =>
    rw [splitBy_cons]
    unfold addToPieces
    have nonempty := splitBy_ne_nil (· == sep) rest
    generalize splitBy (· == sep) rest = pieces at ih nonempty
    cases pieces with
    | nil => exact absurd rfl nonempty
    | cons piece others =>
      by_cases h : c = sep
      · subst h
        simp only [beq_self_eq_true, ↓reduceIte, join, List.intercalate_cons_cons]
        simpa [join] using ih
      · have h' : (c == sep) = false := by simpa using h
        simp only [h', Bool.false_eq_true, ↓reduceIte]
        cases others with
        | nil => simpa [join] using ih
        | cons second more =>
          simp only [join, List.intercalate_cons_cons, List.cons_append] at ih ⊢
          rw [ih]

def lines (t : Text) : List Text := splitBy (· == '\n') t

/-- What precedes the first `sep`, and what follows it. -/
def cut? (sep : Char) : Text → Option (Text × Text)
  | [] => none
  | c :: rest => if c == sep then some ([], rest) else (cut? sep rest).map fun (l, r) => (c :: l, r)

/-- What precedes the first `sep`: everything when there is none. -/
def before (sep : Char) (t : Text) : Text := t.takeWhile (· != sep)

/-- What follows the last `sep`: everything when there is none. -/
def afterLast (sep : Char) (t : Text) : Text := (t.reverse.takeWhile (· != sep)).reverse

/-! ## Ends -/

def trimEnd (p : Char → Bool) (t : Text) : Text := (t.reverse.dropWhile p).reverse

def trim (p : Char → Bool) (t : Text) : Text := trimEnd p (t.dropWhile p)

def dropEnding (ending t : Text) : Text :=
  if ending.isSuffixOf t then t.take (t.length - ending.length) else t

/-! ## Occurrences -/

def occursIn (needle : Text) : Text → Bool
  | [] => needle.isEmpty
  | c :: rest => needle.isPrefixOf (c :: rest) || occursIn needle rest

def holds (t : Text) (w : String) : Bool := occursIn w.toList t

def holdsAny (t : Text) (ws : List String) : Bool := ws.any t.holds

/-- Where `needle` first occurs in a text whose first position is `i`. -/
def firstAtFrom (needle : Text) (i : Nat) : Text → Option Nat
  | [] => if needle.isEmpty then some i else none
  | c :: rest => if needle.isPrefixOf (c :: rest) then some i else firstAtFrom needle (i + 1) rest

def firstAt? (needle t : Text) : Option Nat := firstAtFrom needle 0 t

theorem firstAtFrom_eq (needle : Text) (i : Nat) (t : Text) :
    firstAtFrom needle i t = (firstAt? needle t).map (· + i) := by
  unfold firstAt?
  suffices ∀ j, firstAtFrom needle (j + i) t = (firstAtFrom needle j t).map (· + i) by simpa using this 0
  induction t with
  | nil => intro j; unfold firstAtFrom; split <;> simp
  | cons c rest ih =>
    intro j
    unfold firstAtFrom
    split
    · simp
    · rw [← ih (j + 1)]; congr 1; omega

theorem firstAt?_cons (needle : Text) (c : Char) (t : Text) :
    firstAt? needle (c :: t) =
      if needle.isPrefixOf (c :: t) then some 0 else (firstAt? needle t).map (· + 1) := by
  rw [← firstAtFrom_eq]; rfl

/-- Where `needle` last occurs in a text whose first position is `i`, or else before it at `found`. -/
def lastAtFrom (needle : Text) (i : Nat) (found : Option Nat) : Text → Option Nat
  | [] => if needle.isEmpty then some i else found
  | c :: rest => lastAtFrom needle (i + 1) (if needle.isPrefixOf (c :: rest) then some i else found) rest

def lastAt? (needle t : Text) : Option Nat := lastAtFrom needle 0 none t

/-- How often the non-empty `needle` occurs, counted from the left without overlap; `skip` characters still belong
    to the occurrence before. -/
def countFrom (needle : Text) (skip : Nat) : Text → Nat
  | [] => 0
  | c :: rest =>
    match skip with
    | k + 1 => countFrom needle k rest
    | 0 => if needle.isPrefixOf (c :: rest) then countFrom needle (needle.length - 1) rest + 1
           else countFrom needle 0 rest

/-- What precedes the first occurrence of `needle`: everything when there is none. -/
def beforeText (needle t : Text) : Text :=
  match firstAt? needle t with
  | some i => t.take i
  | none => t

/-! ## Order -/

/-- The order of texts by their first differing characters, a beginning before what it begins. -/
def le : Text → Text → Bool
  | [], _ => true
  | _ :: _, [] => false
  | a :: s, b :: t => if a == b then le s t else decide (a.toNat < b.toNat)

/-! ## Positions -/

def slice (t : Text) (start stop : Nat) : Text := (t.drop start).take (stop - start)

/-- The place a signed position stands for: a negative one counts back from the end, and neither leaves the text. -/
def place (t : Text) (i : Int) : Nat :=
  if i < 0 then (i + t.length).toNat else min i.toNat t.length

/-- The first `n` entries; a negative `n` leaves out the last `-n` instead. -/
def takeSigned {α : Type} (n : Int) (l : List α) : List α :=
  if n < 0 then l.take (l.length - n.natAbs) else l.take n.toNat

/-! ## Numbers -/

def decimal (n : Nat) : Text := Nat.toDigits 10 n

/-- The decimal digits of an integer, with a minus sign in front of a negative one. -/
def decimalInt : Int → Text
  | .ofNat n => decimal n
  | .negSucc n => '-' :: decimal (n + 1)

end Text

end Chunkwise
