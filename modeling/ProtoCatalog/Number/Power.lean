/-!
# Powers of two and of ten
-/

namespace ProtoCatalog

/-- Two to the power of `n`: the number of patterns of `n` bits. -/
def twoTo (n : Nat) : Nat := Nat.pow 2 n

def tenTo (n : Nat) : Nat := Nat.pow 10 n

end ProtoCatalog
