import Chunkwise.Text.Blank

/-!
# Line patterns

A pattern describes how a line begins: characters of a class, sequences, ordered alternatives and repetitions, with
the parts that a reader wants captured under slots. Alternatives are tried in order and a repetition prefers
more rounds or fewer, so the first way to match that is found is the preferred one.
-/

namespace Chunkwise

/-- A pattern whose captured parts are named by `κ`. -/
inductive Pattern (κ : Type) where
  /-- The empty text. -/
  | empty
  /-- One character of a class. -/
  | one (p : Char → Bool)
  /-- As many characters of a class as possible. -/
  | run (p : Char → Bool)
  /-- As few characters of a class as possible. -/
  | few (p : Char → Bool)
  /-- One pattern after the other. -/
  | seq (a b : Pattern κ)
  /-- The first pattern, or else the second. -/
  | either (a b : Pattern κ)
  /-- As many rounds as possible of a pattern that takes at least one character. -/
  | many (a : Pattern κ)
  /-- A pattern whose text is captured. -/
  | capture (slot : κ) (a : Pattern κ)
  /-- The empty text where no character of a class follows. -/
  | notBefore (p : Char → Bool)
  /-- The empty text at the end. -/
  | atEnd

namespace Pattern

variable {κ α : Type}

instance : Append (Pattern κ) := ⟨seq⟩

/-! ## Captured parts -/

/-- A captured part: its slot, the text from its beginning on, and the text after it. -/
structure Part (κ : Type) where
  slot : κ
  start : Text
  after : Text

def Part.text (p : Part κ) : Text := p.start.take (p.start.length - p.after.length)

/-- The parts captured so far, the latest first. -/
abbrev Captures (κ : Type) := List (Part κ)

def Captures.get? [BEq κ] (caps : Captures κ) (slot : κ) : Option Text :=
  (caps.find? fun p => p.slot == slot).map (·.text)

/-- The text captured last under a slot, empty when there is none. -/
def Captures.text [BEq κ] (caps : Captures κ) (slot : κ) : Text := (caps.get? slot).getD []

/-! ## Matching -/

/-- How to go on after a part of a pattern. -/
abbrev Goal (κ α : Type) := Captures κ → Text → Option α

/-- The first success of `goal` after characters of a class, where more characters are preferred. -/
def longestFirst (p : Char → Bool) (goal : Text → Option α) : Text → Option α
  | [] => goal []
  | c :: rest => if p c then longestFirst p goal rest <|> goal (c :: rest) else goal (c :: rest)

/-- The first success of `goal` after characters of a class, where fewer characters are preferred. -/
def shortestFirst (p : Char → Bool) (goal : Text → Option α) : Text → Option α
  | [] => goal []
  | c :: rest => goal (c :: rest) <|> if p c then shortestFirst p goal rest else none

/-- The first success of `goal` after rounds of a step, at most `rounds` of them, where more rounds are preferred. -/
def mostRounds (step : Captures κ → Text → Goal κ α → Option α) :
    Nat → Captures κ → Text → Goal κ α → Option α
  | 0, caps, s, goal => goal caps s
  | rounds + 1, caps, s, goal =>
    (step caps s fun caps' s' => mostRounds step rounds caps' s' goal) <|> goal caps s

/-- The first success of `goal` over the ways to match at the beginning of a text, in order of preference. Each
    round of a repetition takes a character, so there are no more rounds than characters. -/
def search : Pattern κ → Captures κ → Text → Goal κ α → Option α
  | .empty, caps, s, goal => goal caps s
  | .one _, _, [], _ => none
  | .one p, caps, c :: rest, goal => if p c then goal caps rest else none
  | .run p, caps, s, goal => longestFirst p (goal caps) s
  | .few p, caps, s, goal => shortestFirst p (goal caps) s
  | .seq a b, caps, s, goal => search a caps s fun caps' s' => search b caps' s' goal
  | .either a b, caps, s, goal => search a caps s goal <|> search b caps s goal
  | .many a, caps, s, goal => mostRounds (fun caps' s' goal' => search a caps' s' goal') s.length caps s goal
  | .capture slot a, caps, s, goal => search a caps s fun caps' s' => goal (⟨slot, s, s'⟩ :: caps') s'
  | .notBefore p, caps, s, goal => if s.head?.any p then none else goal caps s
  | .atEnd, caps, s, goal => if s.isEmpty then goal caps s else none

def match? (p : Pattern κ) (s : Text) : Option (Captures κ) := p.search [] s fun caps _ => some caps

/-! ## Building blocks -/

def literal (t : Text) : Pattern κ := t.foldr (fun c p => seq (one (· == c)) p) empty

def word (w : String) : Pattern κ := literal w.toList

def firstOf : List (Pattern κ) → Pattern κ
  | [] => one fun _ => false
  | [p] => p
  | p :: rest => either p (firstOf rest)

def anyWord (ws : List String) : Pattern κ := firstOf (ws.map word)

def maybe (p : Pattern κ) : Pattern κ := either p empty

def run1 (p : Char → Bool) : Pattern κ := seq (one p) (run p)

def few1 (p : Char → Bool) : Pattern κ := seq (one p) (few p)

def upTo (p : Pattern κ) : Nat → Pattern κ
  | 0 => empty
  | 1 => p
  | n + 1 => seq p (maybe (upTo p n))

def isOneOf (chars : String) (c : Char) : Bool := chars.toList.contains c

def oneOf (chars : String) : Pattern κ := one (isOneOf chars)

def blanks : Pattern κ := run Text.isBlank

def gap : Pattern κ := run1 Text.isBlank

end Pattern

end Chunkwise
