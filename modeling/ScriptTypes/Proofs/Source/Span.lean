import Mathlib.Algebra.Group.Nat.Defs
import ScriptTypes.Source.Span

/-! Offsets of 32 bits. Offsets that are too great become the greatest one, so their order is kept, and it is only where
a text is too long for its offsets that different ones become the same. -/

namespace ScriptTypes.Span

theorem offset_natCast (n : Nat) : offset n = min n greatestOffset := by
  unfold offset
  split <;> omega

theorem offset_le (n : Nat) : offset n ≤ n := by
  rw [offset_natCast]
  exact Nat.min_le_left n greatestOffset

theorem offset_mono {n m : Nat} (h : n ≤ m) : offset n ≤ offset m := by
  rw [offset_natCast, offset_natCast]
  omega

theorem offset_eq {n : Nat} (h : n < 2 ^ 32) : offset n = n := by
  rw [offset_natCast, greatestOffset]
  omega

/-- An offset that was too great already is so further on. -/
theorem offset_add (n d : Nat) : offset (offset n + d : Nat) = offset (n + d : Nat) := by
  simp only [offset_natCast]
  omega

theorem ofRange_eq {start stop : Nat} (file : Nat) (hstart : start < 2 ^ 32) (hstop : stop < 2 ^ 32) :
    ofRange file start stop = ⟨file, start, stop⟩ := by
  rw [ofRange, offset_eq hstart, offset_eq hstop]

end ScriptTypes.Span
