import QuantGraph.ElementType
import QuantGraph.OpKind

namespace QuantGraph

/-! Reading names of element types and kinds of operation. -/

/-- A text that names nothing. -/
inductive NameError where
  | elementType (text : String)
  | opKind (text : String)
  deriving DecidableEq, Repr

def NameError.message : NameError → String
  | elementType text => "Unknown element type: " ++ text
  | opKind text => "Unknown operation type: " ++ text

/-- The element type of a given name. -/
def ElementType.ofName (text : String) : Except NameError ElementType :=
  match ofName? text with
  | some elementType => .ok elementType
  | none => .error (.elementType text)

/-- The kind of operation of a given name. -/
def OpKind.ofName (text : String) : Except NameError OpKind :=
  match ofName? text with
  | some kind => .ok kind
  | none => .error (.opKind text)

end QuantGraph
