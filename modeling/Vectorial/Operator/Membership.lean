import Vectorial.Attempt
import Vectorial.Value.Coercion

/-!
# Membership

For each element of one value, whether another value has it too. Both are read in the
kind in which they are comparable. What is missing equals nothing, not even itself. A
single element is sought until it is found; for several the other value is read as a
whole first.

## Main definitions

* `ElementKind.key`: what two equal elements have in common, nothing for a missing one;
* `Value.contains`: whether a value has an element with a key;
* `Value.member`: the operator.
-/

namespace Vectorial

/-- What equal doubles have in common: the two zeros are equal, and all NaNs but the
missing number are. -/
def Binary64.key (x : Binary64) : Option Binary64 :=
  if x.isMissing then none
  else if x.isZero then some (.zero false)
  else if x.isNaN then some .nan
  else some x

/-- What equal complex numbers have in common, part by part. -/
def Complex.key (c : Complex) : Option Complex :=
  match c.re.key, c.im.key with
  | some re, some im => some ⟨re, im⟩
  | _, _ => none

/-- What equal elements of a kind have in common; a missing element equals none. -/
def ElementKind.key : (kind : ElementKind) → kind.Carrier → Option kind.Carrier
  | .logical, l => if l = Logical.missing then none else some l
  | .raw, r => some r
  | .integer, i => if i = missingInteger then none else some i
  | .double, d => Binary64.key d
  | .complex, c => Complex.key c
  | .character, s => s.map some

namespace Value

/-- Whether the element with the given key is among the next `count` elements from an
index on. Reading stops at the first hit. -/
def containsFrom (v : Value) (kind : ElementKind) (key : kind.Carrier) :
    Nat → Nat → Metered Bool
  | 0, _ => pure false
  | count + 1, index => do
    let x ← v.atomAt index kind
    if kind.key x = some key then pure true else containsFrom v kind key count (index + 1)

/-- Whether a value, read as `kind`, has an element with the given key. -/
def contains (v : Value) (kind : ElementKind) (key : kind.Carrier) : Metered Bool :=
  v.containsFrom kind key v.size 0

/-- For each element of `needles` whether `haystack` has it, both read as `kind`. -/
def memberIn (kind : ElementKind) (needles haystack : Value) : Attempt (List Bool) :=
  if needles.size = 1 then do
    let needle ← needles.atomWithin 0 kind
    match kind.key needle with
    | none => pure [false]
    | some key => do
      let found ← haystack.contains kind key
      pure [found]
  else do
    let present ← haystack.atomsAs kind
    let keys := present.filterMap kind.key
    let sought ← needles.atomsAs kind
    pure (sought.map fun needle => (kind.key needle).any keys.contains)

/-- Which of two values cannot be searched or sought. -/
def notComparable (needles haystack : Value) : Cause :=
  .unsupportedOperand "%in%" (if needles.isFunction then needles else haystack).typeName

/-- For each element of `needles`, whether `haystack` has it. -/
def member (needles haystack : Value) : Attempt Value :=
  match Kind.membership needles.kind haystack.kind with
  | some .null => pure (.ofAtoms .logical [])
  | some (.atomic kind) => do
    let found ← memberIn kind needles haystack
    pure (.ofAtoms .logical (found.map Logical.ofBool))
  | _ => Attempt.refuse (notComparable needles haystack)

end Value

end Vectorial
