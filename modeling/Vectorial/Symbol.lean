/-!
# Symbols

A symbol is the name of a variable, a parameter or a function. Two symbols are the same
when their texts are.

## Main definitions

* `Symbol.dots`: the marker `...` of a parameter that takes any number of actuals;
* `Symbol.abbreviates`: whether one text is the beginning of another.
-/

namespace Vectorial

/-- A name. -/
abbrev Symbol := String

namespace Symbol

/-- The varargs marker. -/
def dots : Symbol :=
  "..."

/-- Whether a symbol is the varargs marker. -/
def isDots (s : Symbol) : Bool :=
  s == dots

/-- Whether `short` is a beginning of `long`, the whole of it included. -/
def abbreviates (short long : Symbol) : Bool :=
  short.toList.isPrefixOf long.toList

end Symbol

end Vectorial
