import Vectorial.Attempt
import Vectorial.Binary64.Arithmetic
import Vectorial.Syntax
import Vectorial.Value.Coercion

/-!
# Arithmetic on vectors

The operands are brought to a common kind, in which truth values and bytes count as
integers and a quotient is never an integer, and are then combined element by element,
the shorter one being repeated. A missing element makes the result missing, and so does
an integer result that is out of range.

## Main definitions

* `ArithOp`: the four operators, with one function for each kind they work in;
* `ArithOp.resultKind`: the kind in which two operands are combined;
* `zipRecycled`: combination element by element;
* `Value.arithmetic`: an operator applied to two values.
-/

namespace Vectorial

/-- An arithmetic operator. -/
inductive ArithOp where
  | add
  | sub
  | mul
  | div
  deriving DecidableEq, Inhabited

/-- The arithmetic operator among the binary ones, if it is one. -/
def BinaryOp.arith? : BinaryOp → Option ArithOp
  | .add => some .add
  | .sub => some .sub
  | .mul => some .mul
  | .div => some .div
  | .colon => none
  | .member => none

/-- An integer in the range of present integers. -/
def presentInteger (n : Int) : Int32 :=
  if -2147483648 < n ∧ n < 2147483648 then Int32.ofInt n else missingInteger

namespace ArithOp

/-- The operator on integers. Quotients of integers are not integers, so that there is
none to compute. -/
def onIntegers (op : ArithOp) (a b : Int32) : Int32 :=
  if a = missingInteger || b = missingInteger then missingInteger
  else match op with
    | add => presentInteger (a.toInt + b.toInt)
    | sub => presentInteger (a.toInt - b.toInt)
    | mul => presentInteger (a.toInt * b.toInt)
    | div => missingInteger

/-- The operator on doubles. Only the missing number is missing; other NaNs are
numbers. -/
def onDoubles (op : ArithOp) (a b : Binary64) : Binary64 :=
  if a.isMissing || b.isMissing then .missing
  else match op with
    | add => a.add b
    | sub => a.sub b
    | mul => a.mul b
    | div => a.div b

/-- The operator on complex numbers. -/
def onComplex (op : ArithOp) (a b : Complex) : Complex :=
  if a.isMissing || b.isMissing then .missing
  else match op with
    | add => ⟨a.re.add b.re, a.im.add b.im⟩
    | sub => ⟨a.re.sub b.re, a.im.sub b.im⟩
    | mul =>
      ⟨(a.re.mul b.re).sub (a.im.mul b.im), (a.re.mul b.im).add (a.im.mul b.re)⟩
    | div =>
      let norm := (b.re.mul b.re).add (b.im.mul b.im)
      ⟨((a.re.mul b.re).add (a.im.mul b.im)).div norm,
       ((a.im.mul b.re).sub (a.re.mul b.im)).div norm⟩

/-- The kind in which operands of the given common kind are combined. -/
def resultKind (op : ArithOp) : Kind → Option ElementKind
  | .null | .atomic .logical | .atomic .raw | .atomic .integer =>
    some (if op = div then .double else .integer)
  | .atomic .double => some .double
  | .atomic .complex => some .complex
  | .atomic .character => none
  | .list => none
  | .closure => none

end ArithOp

/-- The list repeated and cut to a length. -/
def recycled {α : Type} (length : Nat) (xs : List α) : List α :=
  (List.replicate (length / xs.length + 1) xs).flatten.take length

/-- The lists combined element by element, the shorter one repeated; empty as soon as one
of them is. -/
def zipRecycled {α β : Type} (f : α → α → β) (xs ys : List α) : List β :=
  if xs.isEmpty || ys.isEmpty then []
  else
    let length := max xs.length ys.length
    List.zipWith f (recycled length xs) (recycled length ys)

namespace Value

/-- Whether a value can be an operand of arithmetic. -/
def isArithmetic (v : Value) : Bool :=
  v.isNull || v.kind.isNumeric

/-- Why an operator cannot be applied to two values. -/
def unsupportedOperands (op : BinaryOp) (left right : Value) : Cause :=
  .unsupportedOperand op.sign (left.typeName ++ " and " ++ right.typeName)

/-- The arithmetic operator and the kind in which two values are combined, if there are
such. -/
def arithmeticKind (op : BinaryOp) (left right : Value) : Option (ArithOp × ElementKind) := do
  let arith ← op.arith?
  if left.isArithmetic && right.isArithmetic then
    let kind ← (left.kind.common right.kind).bind arith.resultKind
    pure (arith, kind)
  else none

/-- The elements of two values, both read as `kind`, combined by `f`. -/
def combine (kind : ElementKind) (f : kind.Carrier → kind.Carrier → kind.Carrier)
    (left right : Value) : Metered Value := do
  let xs ← left.produce kind
  let ys ← right.produce kind
  pure (.ofAtoms kind (zipRecycled f xs ys))

/-- An arithmetic operator applied to two values. -/
def arithmetic (op : BinaryOp) (left right : Value) : Attempt Value :=
  match arithmeticKind op left right with
  | some (arith, .integer) => combine .integer arith.onIntegers left right
  | some (arith, .double) => combine .double arith.onDoubles left right
  | some (arith, .complex) => combine .complex arith.onComplex left right
  | _ => Attempt.refuse (unsupportedOperands op left right)

end Value

end Vectorial
