/-!
# Powers

The powers of two and of ten in which binary and decimal exponents count.
-/

set_option autoImplicit false

namespace Preflight.Number

def twoTo (exponent : Nat) : Nat :=
  Nat.pow 2 exponent

def tenTo (exponent : Nat) : Nat :=
  Nat.pow 10 exponent

end Preflight.Number
