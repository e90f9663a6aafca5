/-!
# Powers of two and of ten
-/

namespace SharedPrompt.Number

def powTwo (n : Nat) : Nat := Nat.pow 2 n

def powTen (n : Nat) : Nat := Nat.pow 10 n

end SharedPrompt.Number
