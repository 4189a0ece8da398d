import Chunkwise.Outline.Tracker

/-!
# Findings on a line

What a scan finds on each line, before it is gathered into an outline: at most one declaration, and any number of
imports and exports. The blocks of an outline are the declarations as a tracker closes them.
-/

namespace Chunkwise

inductive Declared where
  | function (name : Text) (manner : Manner)
  | classType (name : Text) (parents : List Text)
  | heading (name : Text)
deriving Repr, DecidableEq

def Declared.kind : Declared → BlockKind
  | .function .. => .functionBlock
  | .classType .. => .classBlock
  | .heading .. => .sectionBlock

def Declared.name : Declared → Text
  | .function name _ => name
  | .classType name _ => name
  | .heading name => name

/-- A declaration on a line, counted from zero. -/
structure Declaration where
  line : Nat
  depth : Nat
  what : Declared
deriving Repr, DecidableEq

structure Finding where
  declaration : Option Declaration
  imports : List ImportEntry
  exports : List ExportEntry
deriving Repr, DecidableEq

def Finding.none : Finding := ⟨.none, [], []⟩

namespace Declaration

def function? (d : Declaration) : Option FunctionEntry :=
  match d.what with
  | .function name manner => some ⟨name, d.line + 1, manner⟩
  | _ => none

def class? (d : Declaration) : Option ClassEntry :=
  match d.what with
  | .classType name parents => some ⟨name, d.line + 1, parents⟩
  | _ => none

def track (t : Tracker) (d : Declaration) : Tracker := t.openBlock d.what.kind d.what.name d.line d.depth

end Declaration

def declarations (findings : List Finding) : List Declaration := findings.filterMap (·.declaration)

/-- The blocks that declarations head in a file whose last line is `last`. -/
def blocksOf (ds : List Declaration) (last : Int) : List Block :=
  ((ds.foldl Declaration.track Tracker.empty).closeAll last).sorted

end Chunkwise
