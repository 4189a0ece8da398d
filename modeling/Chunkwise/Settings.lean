import Chunkwise.Argument.Integer
import Chunkwise.Keyed
import Chunkwise.Strategy
import Chunkwise.Text.Case

/-!
# Settings

The settings of a program are read from its environment. A variable that is not set leaves a default, and one that
is set to something else than it should be is refused in the order in which the settings are read.
-/

namespace Chunkwise

structure Settings where
  chunkSize : Int
  minChunkSize : Int
  strategy : Text
  /-- The importance from which on blocks are boundaries. -/
  threshold : Int
  /-- How many references of a chunk are listed. -/
  maxReferences : Int
  /-- The length from which on calls of a name are followed. -/
  minCallName : Int
  logLevel : Text
  debug : Bool
deriving Repr, DecidableEq

namespace Settings

/-- The size that chunks aim at when nothing else is asked for. -/
def defaultChunkSize : Int := 100000

/-- The integer in a variable, or the default of a variable that is not set. -/
def readInt (env : Keyed Text) (name : String) (default : Int) : Except Fault Int :=
  match env.get? name.toList with
  | some t => t.toInt
  | none => .ok default

/-- The text in a variable, or the default of a variable that is not set. -/
def readText (env : Keyed Text) (name default : String) : Text := (env.get? name.toList).getD default.toList

/-- The settings that an environment makes. The smallest chunk size follows the chunk size. -/
def ofEnvironment (env : Keyed Text) : Except Fault Settings := do
  let chunkSize ← readInt env "CHUNK_SIZE" defaultChunkSize
  let minChunkSize ← readInt env "MIN_CHUNK_SIZE" chunkSize
  let threshold ← readInt env "BOUNDARY_IMPORTANCE_THRESHOLD" 7
  let maxReferences ← readInt env "MAX_INSTRUCTION_REFERENCES" 3
  let minCallName ← readInt env "MIN_CALL_NAME_LENGTH" 3
  return {
    chunkSize, minChunkSize, threshold, maxReferences, minCallName
    strategy := readText env "CHUNKING_STRATEGY" "semantic"
    logLevel := readText env "LOG_LEVEL" "INFO"
    debug := (readText env "DEBUG_MODE" "false").lower == "true".toList }

def defaultStrategy (s : Settings) : Except Fault Strategy := Strategy.ofArgument (.text s.strategy)

/-! ## Levels of messages -/

def levels : List (String × Nat) := [
  ("NOTSET", 0), ("DEBUG", 10), ("INFO", 20), ("WARN", 30), ("WARNING", 30), ("ERROR", 40), ("FATAL", 50),
  ("CRITICAL", 50)]

/-- The layout of messages that has a name of its own beside the levels. -/
def basicLayout : Text := "%(levelname)s:%(name)s:%(message)s".toList

/-- The number of a level by its name in capitals: a name that is not known stands for `INFO`, and the two names of
    layouts are refused. -/
def levelNumber (name : Text) : Except Fault Nat :=
  if name == "BASIC_FORMAT".toList then .error (.notLevel basicLayout)
  else if name == "_STYLES".toList then .error .wrongType
  else
    match levels.find? fun (level, _) => level.toList == name with
    | some (_, number) => .ok number
    | none => .ok 20

/-- The level of the messages that are shown: the one asked for, or else the most detailed one while debugging, or
    else the one in the settings. -/
def messageLevel (s : Settings) (asked : Text) : Except Fault Nat :=
  levelNumber (asked.orElse (if s.debug then "DEBUG".toList else s.logLevel)).upper

end Settings

end Chunkwise
