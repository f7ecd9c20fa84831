/-!
# Source spans

## Main definitions

* `Span`: a stretch of source, by the positions of its first byte and past its last;
* `Span.cover`: the smallest span around two.
-/

namespace Vectorial

/-- A half-open stretch of source bytes. -/
structure Span where
  start : Nat
  stop : Nat
  deriving DecidableEq, Inhabited

namespace Span

/-- The span of code that has no source. -/
def dummy : Span :=
  ⟨0, 0⟩

/-- The number of bytes covered; a reversed span covers none. -/
def length (s : Span) : Nat :=
  s.stop - s.start

/-- Whether the span covers nothing. -/
def isEmpty (s : Span) : Bool :=
  s.stop ≤ s.start

/-- Whether the span stands for no source. -/
def isDummy (s : Span) : Bool :=
  s == dummy

/-- The smallest span that covers both. -/
def cover (s t : Span) : Span :=
  ⟨min s.start t.start, max s.stop t.stop⟩

/-- The span as text, `start..stop`. -/
def text (s : Span) : String :=
  s!"{s.start}..{s.stop}"

end Span

end Vectorial
