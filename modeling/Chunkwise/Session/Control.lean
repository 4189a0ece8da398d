import Chunkwise.Session.Basic

/-!
# Requests that run passes

Each request gives the session after it and an answer: whether new chunks were installed, or why it was refused.
While a pass is running, requests for another one are ignored; such requests can come in at the beginning of any pass.
A pass that fails is recorded and leaves the chunks as they are; without chunks, the whole content becomes one. The
record puts the size into words, and so does a request for another size that is ignored: a size that cannot be written
is refused there.
-/

namespace Chunkwise

/-- A request's effect: the session after it, and its answer. -/
abbrev Effect (α : Type) := Session × Except Fault α

/-- An effect whose answer is put into other words. -/
def Effect.map {α β : Type} (f : α → β) (e : Effect α) : Effect β := (e.1, e.2.map f)

namespace Session

/-! ## Passes -/

/-- What a pass over the content gives, as the session stands. -/
def outcomeAt (size : Argument) (s : Session) : Except Fault Outcome :=
  match s.engine.stop with
  | some reason => .error (.stopped reason)
  | none => Pass.run Pass.defaultThreshold s.content size (.text s.strategy.word) s.analysis

def install (o : Outcome) (s : Session) : Session :=
  { s with
    chunks := o.chunks
    size := o.target.value
    analysis := some o.analysis
    outcome := some o
    failure := none }.clampIndex

def recordFailure (size : Argument) (cause : Fault) (s : Session) : Session :=
  { s with
    failure := some ⟨size, cause⟩
    chunks := if s.chunks.isEmpty then wholeContent s.content else s.chunks }

/-- Ends a pass. The outcome is installed even when its size has no written form, which the answer then says. A failure
    is recorded only at a size that can be written. -/
def finishPass (size : Argument) (result : Except Fault Outcome) (s : Session) : Effect Bool :=
  let idle := { s with busy := false }
  match result with
  | .error cause =>
    if size.isWritable then ((idle.recordFailure size cause).clampIndex, .ok false)
    else (idle.clampIndex, .error .numberLength)
  | .ok o => (idle.install o, (Size.write o.target.value).map fun _ => true)

/-! ## Requests for a size

What runs a pass is left open here, since requests that come in during a pass are answered by the same rules. -/

/-- Asks for a pass at a size, whatever the size so far. -/
def rechunkBy (pass : Argument → Session → Effect Bool) (size : Argument) (s : Session) : Effect Bool :=
  if s.busy then (s, .ok false) else pass size s

/-- The size at which a request for another size wants a pass, if it wants one. While a pass is running the size is
    only mentioned. -/
def wantedSize (size : Argument) (s : Session) : Except Fault (Option Int) :=
  if s.busy then if size.isWritable then .ok none else .error .numberLength
  else (s.clampArgument size).map fun n => if n == s.size && s.hasOutcome then none else some n

/-- Asks for another size. -/
def resizeBy (pass : Argument → Session → Effect Bool) (size : Argument) (s : Session) : Effect Bool :=
  match s.wantedSize size with
  | .error fault => (s, .error fault)
  | .ok none => (s, .ok false)
  | .ok (some n) => s.rechunkBy pass (.int n)

/-! ## Requests that come in during a pass -/

/-- A pass in which no requests come in. -/
def quietPass (size : Argument) (s : Session) : Effect Bool := s.finishPass size (s.outcomeAt size)

def answerCallback (callback : Callback) (s : Session) : Effect Bool :=
  match callback with
  | .isBusy => (s, .ok s.busy)
  | .resize size => s.resizeBy quietPass size
  | .rechunk size => s.rechunkBy quietPass size

/-- Answers requests in their order, up to the first one that is refused. -/
def answerCallbacks (s : Session) : List Callback → Effect (List Bool)
  | [] => (s, .ok [])
  | callback :: rest =>
    match s.answerCallback callback with
    | (after, .error fault) => (after, .error fault)
    | (after, .ok answer) => (after.answerCallbacks rest).map (answer :: ·)

/-- Runs a pass up to its end, and gives the session as it is then. A request that comes in and is refused stops the
    pass; nothing that comes in has a say in what the pass works on. -/
def runPass (size : Argument) (s : Session) : Effect Outcome :=
  let (running, answers) := { s with busy := true }.answerCallbacks s.engine.callbacks
  (running, answers.bind fun _ => s.outcomeAt size)

def pass (size : Argument) (s : Session) : Effect Bool :=
  let (running, result) := s.runPass size
  running.finishPass size result

/-! ## Requests -/

def rechunk (size : Argument) (s : Session) : Effect Bool := s.rechunkBy pass size

def resize (size : Argument) (s : Session) : Effect Bool := s.resizeBy pass size

/-- Starts over with another content at the default size, and answers how many chunks there are then. -/
def process (content : Text) (s : Session) : Effect Nat :=
  let cleared := { s with content, analysis := none, outcome := none, failure := none, chunks := [], index := 0 }
  if content.isEmpty then (cleared, .ok 0)
  else
    let size := cleared.clamp cleared.defaultSize
    let (after, answer) := { cleared with size }.rechunk (.int size)
    (after, answer.map fun _ => after.chunks.length)

/-- Asks for another strategy. The strategy changes even when the pass that it calls for fails. -/
def setStrategy (strategy : Argument) (s : Session) : Effect Bool :=
  match Strategy.ofArgument strategy with
  | .error fault => (s, .error fault)
  | .ok strategy =>
    if strategy = s.strategy then (s, .ok false)
    else
      let changed := { s with strategy }
      if s.content.isEmpty then (changed, .ok false) else changed.rechunk (.int s.size)

/-- Asks for another size by a pass that works and in which requests come in. Answers also what they were answered. -/
def resizeDuring (size : Argument) (callbacks : List Callback) (s : Session) : Effect (Bool × List Bool) :=
  let asking := { s with engine := { callbacks } }
  let answers :=
    match asking.wantedSize size with
    | .ok (some _) => (({ asking with busy := true }.answerCallbacks callbacks).2.toOption).getD []
    | _ => []
  let (after, answer) := asking.resize size
  ({ after with engine := s.engine }, answer.map fun installed => (installed, answers))

/-! ## Making a session -/

/-- A session with nothing in it. A size of zero stands for the default. -/
def empty (engine : Engine) (size : Int) (minSize : Option Int) (strategy : Strategy) : Session :=
  let size := if size = 0 then Settings.defaultChunkSize else size
  { engine := engine
    defaultSize := size
    minSize := minSize.getD Settings.defaultChunkSize
    strategy := strategy
    content := []
    size := size
    chunks := []
    index := 0
    analysis := none
    outcome := none
    failure := none
    busy := false }

/-- Opens a session with a content, which may be empty. -/
def start (engine : Engine) (size : Int) (minSize : Option Int) (strategy : Argument) (content : Content) :
    Except Fault Session := do
  let strategy ← Strategy.ofArgument strategy
  let s := empty engine size minSize strategy
  if content.text.isEmpty then return s
  else
    let (after, answer) := s.process content.text
    let _ ← answer
    return after

end Session

end Chunkwise
