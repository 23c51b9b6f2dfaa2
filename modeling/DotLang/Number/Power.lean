/-!
# Powers

The powers of two and of ten that scale the parts of doubles and decimals.
-/

namespace DotLang

/-- Two to the power of `exponent`. -/
def twoPow (exponent : Nat) : Nat :=
  Nat.pow 2 exponent

/-- Ten to the power of `exponent`. -/
def tenPow (exponent : Nat) : Nat :=
  Nat.pow 10 exponent

end DotLang
