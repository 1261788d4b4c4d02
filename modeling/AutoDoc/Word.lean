/-!
# Machine words

The bounds of the numbers that fit machine words.
-/

namespace AutoDoc.Word

/-- The first number beyond 64 bits without sign. -/
def limit64 : Nat := 18446744073709551616

/-- The first number beyond 64 bits with sign. -/
def limit63 : Nat := 9223372036854775808

end AutoDoc.Word
