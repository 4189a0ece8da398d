import Chunkwise.Text.Case

/-!
# Parts of a path

The base name and the extension of a slash-separated path.
-/

namespace Chunkwise.Text

def baseName (path : Text) : Text := afterLast '/' path

/-- What follows the last point of a name: nothing without a point. -/
def suffix (name : Text) : Text := if name.contains '.' then afterLast '.' name else []

/-- What follows the last point of a name, in small letters. -/
def extension (name : Text) : Text := lower (suffix name)

end Chunkwise.Text
