/-!
# Powers of two and of ten

The scale factors of exact arithmetic: powers of two for the places of binary numbers and the
ranges of machine words, powers of ten for decimal places.
-/

namespace NearCache

/-- Two to the power of `n`. -/
def twoTo (n : Nat) : Nat := Nat.pow 2 n

/-- Ten to the power of `n`. -/
def tenTo (n : Nat) : Nat := Nat.pow 10 n

end NearCache
