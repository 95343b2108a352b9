import TypedTree.Fragment.Expr
import TypedTree.Number.Shortest
import TypedTree.Text.Quoted

namespace TypedTree

/-- Numbers of single precision have no exponent and no places that are not needed. -/
def LiteralKind.singleFormat : NumberFormat := ⟨0, fun _ => true⟩

/-- Other numbers have a place after the point, and an exponent below one part in ten thousand and
from ten to the sixteenth on. -/
def LiteralKind.doubleFormat : NumberFormat := ⟨1, fun first => -4 ≤ first ∧ first < 16⟩

def literalText : LiteralKind → LiteralValue → String
  | _, .text value => quotedText value
  | .long, .integer value => toString value ++ "L"
  | .short, .integer value => toString value ++ ".toShort()"
  | .byte, .integer value => toString value ++ ".toByte()"
  | _, .integer value => toString value
  | .float, .number value => value.text LiteralKind.singleFormat ++ "F"
  | _, .number value => value.text LiteralKind.doubleFormat
  | _, .boolean value => if value then "true" else "false"
  | _, .char value => quotedSingle value
  | _, .null => "null"

end TypedTree
