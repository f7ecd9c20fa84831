import Vectorial.Operator.Arithmetic
import Vectorial.Operator.Colon
import Vectorial.Operator.Membership

/-!
# Binary operators

## Main definitions

* `Value.binary`: a binary operator applied to two values.
-/

namespace Vectorial

/-- A binary operator applied to two values. -/
def Value.binary (op : BinaryOp) (left right : Value) : Attempt Value :=
  match op with
  | .colon => left.colon right
  | .member => left.member right
  | arith => Value.arithmetic arith left right

end Vectorial
