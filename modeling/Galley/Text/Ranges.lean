/-!
# Ranges of characters

A character class of a standard is a list of inclusive code point ranges in increasing
order.  Membership stops at the first range that starts beyond the character.
-/

namespace Galley
namespace Text

/-- Inclusive code point ranges, in increasing order and without overlap. -/
abbrev Ranges := List (Nat × Nat)

namespace Ranges

/-- Whether some range holds the code point. -/
def covers : Ranges → Nat → Bool
  | [], _ => false
  | (low, high) :: rest, code => low ≤ code && (code ≤ high || covers rest code)

@[simp] theorem covers_nil (code : Nat) : covers [] code = false := rfl

@[simp] theorem covers_cons (low high : Nat) (rest : Ranges) (code : Nat) :
    covers ((low, high) :: rest) code = (low ≤ code && (code ≤ high || covers rest code)) := rfl

end Ranges

end Text
end Galley
