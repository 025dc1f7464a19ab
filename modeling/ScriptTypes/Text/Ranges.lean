/-! Properties of characters as ranges of code points. The ranges of this library are those of Unicode 17. -/

namespace ScriptTypes.Text

/-- Whether a character lies in one of the ranges, ends included. -/
def inRanges (ranges : List (Nat × Nat)) (c : Char) : Bool :=
  ranges.any fun r => r.1 ≤ c.toNat && c.toNat ≤ r.2

end ScriptTypes.Text
