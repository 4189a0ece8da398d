import Chunkwise.Outline.Basic
import Chunkwise.Text.Case

/-!
# Importance

Blocks and files are ranked from 1 to 10. A block's rank comes from its name and kind alone; a file's rank from its
name and from how much it declares.
-/

namespace Chunkwise

def clampRank (n : Int) : Int := max 1 (min 10 n)

/-- The points that count when a condition holds. -/
def points (condition : Bool) (n : Int) : Int := if condition then n else 0

def entryPointWords : List String := [
  "main", "index", "init", "constructor", "setup", "configure",
  "render", "componentdidmount", "useeffect", "ngoninit", "oncreate",
  "onstart", "onresume"]

/-- Words in the names of the larger parts of a program. -/
def partWords : List String := [
  "handler", "controller", "service", "manager", "factory",
  "component", "view", "model", "api", "route"]

/-- The rank of a block: classes start higher, entry points and larger parts gain, hidden functions, tests and
    helpers lose. -/
def blockImportance (name : Text) (kind : BlockKind) : Int :=
  let small := name.lower
  clampRank (5
    + points (kind == .classBlock) 3
    - points (kind == .functionBlock && name.head? == some '_') 2
    - points (small.holds "test") 1
    - points (small.holds "util" || small.holds "helper") 1
    + points (small.holdsAny entryPointWords) 3
    + points (small.holdsAny partWords) 2)

/-- The rank of a file: entry points and settings gain, as do files that declare much; tests lose. -/
def filePriority (filename : Text) (complexity exports : Nat) : Int :=
  let small := filename.lower
  clampRank (5
    + points (small.holds "index" || small.holds "main" || small.holds "app") 3
    + (if 20 < complexity then 2 else if 10 < complexity then 1 else 0)
    + points (5 < exports) 1
    - points (small.holds "test" || small.holds "spec") 2
    + points (small.holds "config" || small.holds "setting") 1)

end Chunkwise
