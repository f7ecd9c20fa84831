import Vectorial.Argument
import Vectorial.Attempt
import Vectorial.Binary64.Arithmetic
import Vectorial.Binary64.Basic
import Vectorial.Builtin.Basic
import Vectorial.Builtin.Collections
import Vectorial.Builtin.Constructors
import Vectorial.Builtin.Registry
import Vectorial.Call.Binding
import Vectorial.Call.Formals
import Vectorial.Call.Matching
import Vectorial.CallStack
import Vectorial.Decimal.Basic
import Vectorial.Decimal.Notation
import Vectorial.Decimal.Numeral
import Vectorial.Decimal.Rounded
import Vectorial.Decimal.Shortest
import Vectorial.Defect
import Vectorial.Diagnostic.Basic
import Vectorial.Diagnostic.Queue
import Vectorial.Diagnostic.Report
import Vectorial.Element.Basic
import Vectorial.Element.Coercion
import Vectorial.EvalError
import Vectorial.Evaluation.Call
import Vectorial.Evaluation.Eval
import Vectorial.Evaluation.Machine
import Vectorial.Evaluation.Variable
import Vectorial.Heap.Basic
import Vectorial.Heap.Collection
import Vectorial.Heap.References
import Vectorial.Heap.Work
import Vectorial.Interner
import Vectorial.Interpreter
import Vectorial.Kind
import Vectorial.Metered
import Vectorial.Mode
import Vectorial.NumberText
import Vectorial.Operator.Arithmetic
import Vectorial.Operator.Binary
import Vectorial.Operator.Colon
import Vectorial.Operator.Membership
import Vectorial.Run
import Vectorial.Scope.Layout
import Vectorial.Scope.Program
import Vectorial.Span
import Vectorial.Symbol
import Vectorial.Syntax
import Vectorial.Text.Blank
import Vectorial.Text.Hidden
import Vectorial.Text.Quoted
import Vectorial.Value.Assignment
import Vectorial.Value.Basic
import Vectorial.Value.Coercion
import Vectorial.Value.Metadata
import Vectorial.Value.Progression
import Vectorial.Value.Reading
import Vectorial.Proofs.Value.Closures
import Vectorial.Proofs.Builtin.Closures
import Vectorial.Proofs.Evaluation.Parts
import Vectorial.Proofs.Heap.Frames
import Vectorial.Proofs.Evaluation.Discipline
import Vectorial.Proofs.Evaluation.Preservation
import Vectorial.Proofs.Scope.Resolution
import Vectorial.Proofs.Session
import Vectorial.Proofs.Evaluation.Lookup
import Vectorial.Proofs.Evaluation.Agreement
import Vectorial.Proofs.Evaluation.KeptBindings
import Vectorial.Proofs.Heap.Release
import Vectorial.Proofs.Value.Search
import Vectorial.Proofs.Heap.Accounting
import Vectorial.Proofs.Heap.Collection
import Vectorial.Proofs.Value.Eager
import Vectorial.Proofs.Value.Denotation
import Vectorial.Proofs.Value.Production
import Vectorial.Proofs.Value.Operations
import Vectorial.Proofs.Value.History
import Vectorial.Proofs.Evaluation.Stack
import Vectorial.Proofs.Evaluation.Nesting
import Vectorial.Proofs.Evaluation.OuterAssignment
import Vectorial.Proofs.Value.Nested
import Vectorial.Proofs.Heap.Completeness
import Vectorial.Proofs.Call.Matching
import Vectorial.Proofs.Call.Arity
import Vectorial.Proofs.Evaluation.Calls
import Vectorial.Proofs.Evaluation.Origin
import Vectorial.Proofs.Evaluation.Unbound
import Vectorial.Proofs.Binary64.Rounding
import Vectorial.Proofs.Value.WellFormed
import Vectorial.Proofs.Builtin.Safety
import Vectorial.Proofs.Scope.Totality
import Vectorial.Proofs.Evaluation.Safety
import Vectorial.Proofs.Safety
import Vectorial.Proofs.Value.Reachable
import Vectorial.Proofs.Builtin.Alike
import Vectorial.Proofs.Evaluation.Likeness
import Vectorial.Proofs.Evaluation.DepthLimit
import Vectorial.Proofs.Value.Disregard
import Vectorial.Proofs.Builtin.Disregard
import Vectorial.Proofs.Evaluation.Region
import Vectorial.Proofs.Evaluation.Disregard
import Vectorial.Proofs.Evaluation.Tracing
import Vectorial.Proofs.Scope.Editions
import Vectorial.Proofs.Evaluation.Arena
import Vectorial.Proofs.Survival
import Vectorial.Proofs.Call.Naming
import Vectorial.Proofs.Call.Positions
import Vectorial.Proofs.Binary64.Equality
import Vectorial.Proofs.Value.Elements
import Vectorial.Proofs.Operator.Membership
import Vectorial.Proofs.Evaluation.Filling
import Vectorial.Proofs.Evaluation.Parameters
import Vectorial.Proofs.Evaluation.Moments
import Vectorial.Proofs.Evaluation.Order
import Vectorial.Proofs.Parameters
import Vectorial.Proofs.Value.Promotion
import Vectorial.Proofs.Binary64.Nearest
import Vectorial.Proofs.Operator.Arithmetic
import Vectorial.Proofs.Evaluation.Placement
import Vectorial.Proofs.Scope.Lexical
import Vectorial.Proofs.Binary64.Whole
import Vectorial.Proofs.Decimal.Whole
import Vectorial.Proofs.Element.Widening
import Vectorial.Proofs.Value.Absence
import Vectorial.Proofs.Value.Progression
import Vectorial.Proofs.Value.Bypass
import Vectorial.Proofs.Binary64.Exact
import Vectorial.Proofs.Operator.Colon
import Vectorial.Proofs.Builtin.Sequence
import Vectorial.Proofs.Builtin.Combination
import Vectorial.Proofs.Binary64.Neighbours
import Vectorial.Proofs.Decimal.Value
import Vectorial.Proofs.Decimal.Shortest
import Vectorial.Proofs.Decimal.Significant
import Vectorial.Proofs.Decimal.Notation
import Vectorial.Proofs.NumberText
import Vectorial.Proofs.Interner
import Vectorial.Proofs.Diagnostic.Queue
import Vectorial.Proofs.Choice
import Vectorial.Proofs.Builtin.Length
import Vectorial.Proofs.Kind
import Vectorial.Proofs.Call.Marking
