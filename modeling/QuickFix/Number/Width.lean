/-!
# Widths of integers

Which integers fit into words of 32 and 64 bits.
-/

namespace QuickFix

/-- Does it fit into 64 bits with a sign? -/
def fitsSigned64 (n : Int) : Bool := -9223372036854775808 ≤ n && n < 9223372036854775808

/-- Does it fit into 64 bits without a sign? -/
def fitsUnsigned64 (n : Int) : Bool := 0 ≤ n && n < 18446744073709551616

/-- Does it fit into 32 bits with a sign? -/
def fitsSigned32 (n : Int) : Bool := -2147483648 ≤ n && n < 2147483648

/-- Does it fit into 32 bits without a sign? -/
def fitsUnsigned32 (n : Int) : Bool := 0 ≤ n && n < 4294967296

end QuickFix
