import Chunkwise.Session.Navigation

/-!
# Requests to a session

All that can be asked of a session and may change it, as one type, so that a history of a session is a list of
requests.
-/

namespace Chunkwise

inductive Request where
  /-- Starts over with another content. -/
  | process (content : Content)
  /-- Asks for another size, within the session's bounds. -/
  | resize (size : Argument)
  /-- Asks for a pass at a size, whatever the bounds. -/
  | rechunk (size : Argument)
  | setStrategy (strategy : Argument)
  | switchTo (index : Int)
  | next
  | previous
  | navigate (index : Int)
  /-- Says that a pass is running, or that none is. -/
  | setBusy (busy : Bool)
  /-- Says what runs the passes from then on, and which requests come in during each of them. -/
  | setEngine (engine : Engine)
deriving Repr

inductive Reply where
  /-- How many chunks there are. -/
  | count (chunks : Nat)
  /-- Whether the session did what it was asked for. -/
  | accepted (yes : Bool)
  /-- The label of the chunk that the session moved to. -/
  | moved (label : Text)
  | done
deriving Repr, DecidableEq

namespace Session

/-- What a request does to a session, and what the session answers. -/
def handle (request : Request) (s : Session) : Effect Reply :=
  match request with
  | .process content => (s.process content.text).map .count
  | .resize size => (s.resize size).map .accepted
  | .rechunk size => (s.rechunk size).map .accepted
  | .setStrategy strategy => (s.setStrategy strategy).map .accepted
  | .switchTo index => (s.switchTo index).map .moved
  | .next => s.next.map .accepted
  | .previous => s.previous.map .accepted
  | .navigate index => (s.navigate index).map .accepted
  | .setBusy busy => ({ s with busy }, .ok .done)
  | .setEngine engine => ({ s with engine }, .ok .done)

def after (history : List Request) (s : Session) : Session := history.foldl (fun s request => (s.handle request).1) s

/-- Asking for another size while requests come in is a history of three requests. -/
theorem fst_resizeDuring (size : Argument) (callbacks : List Callback) (s : Session) :
    (s.resizeDuring size callbacks).1 =
      s.after [.setEngine { callbacks }, .resize size, .setEngine s.engine] := rfl

end Session

end Chunkwise
