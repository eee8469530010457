/-!
# Powers of two and ten

The sizes of machine words and the units of decimal places. Both are plain powers of natural numbers.
-/

namespace Vivarium

/-- Two to the power `n`: how many values a word of `n` bits has. -/
def twoTo (n : Nat) : Nat := Nat.pow 2 n

/-- Ten to the power `n`. -/
def tenTo (n : Nat) : Nat := Nat.pow 10 n

end Vivarium
