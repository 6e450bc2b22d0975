import Pebrel.Library.Splice
import Pebrel.Library.Text

/-!
# Bytes of a text

A text is cut at a number of bytes where a character begins or the text ends. Elsewhere
there is no cut (the panic of an index into a string).
-/

namespace Pebrel.Library.Text

open Option

/-- What is before so many bytes, and what is after them, if no character is cut. -/
def splitAtByte : ℕ → Text → Option (Text × Text)
  | 0, t => some ([], t)
  | _ + 1, [] => none
  | n + 1, c :: t => if c.utf8Size ≤ n + 1 then (splitAtByte (n + 1 - c.utf8Size) t).map fun e => (c :: e.1, e.2) else none

theorem splitAtByte_append (a b : Text) : splitAtByte (byteLen a) (a ++ b) = some (a, b) := by
  induction a with
  | nil => simp [byteLen, splitAtByte]
  | cons c a ih =>
    have hp := c.utf8Size_pos
    obtain ⟨n, hn⟩ : ∃ n, byteLen (c :: a) = n + 1 := ⟨byteLen (c :: a) - 1, by rw [byteLen_cons]; omega⟩
    have hr : n + 1 - c.utf8Size = byteLen a := by rw [byteLen_cons] at hn; omega
    rw [byteLen_cons] at hn
    rw [byteLen_cons, hn, List.cons_append, splitAtByte, if_pos (by omega), hr, ih]
    rfl

/-- `&text[range]`. -/
def sliceBytes (t : Text) (r : Range) : Option Text :=
  if r.start ≤ r.stop then (splitAtByte r.stop t).bind fun e => (splitAtByte r.start e.1).map Prod.snd else none

/-- `text.replace_range(range, new)`. -/
def replaceBytes (t : Text) (r : Range) (new : Text) : Option Text :=
  if r.start ≤ r.stop then (splitAtByte r.stop t).bind fun e => (splitAtByte r.start e.1).map fun f => f.1 ++ new ++ e.2 else none

section
variable (a b m : Text)

theorem sliceBytes_append : sliceBytes (a ++ m ++ b) ⟨byteLen a, byteLen a + byteLen m⟩ = some m := by
  rw [sliceBytes, if_pos (Nat.le_add_right _ _), ← byteLen_append, splitAtByte_append, bind_some, splitAtByte_append]
  rfl

theorem replaceBytes_append (new : Text) : replaceBytes (a ++ m ++ b) ⟨byteLen a, byteLen a + byteLen m⟩ new = some (a ++ new ++ b) := by
  rw [replaceBytes, if_pos (Nat.le_add_right _ _), ← byteLen_append, splitAtByte_append, bind_some, splitAtByte_append]
  rfl

end

end Pebrel.Library.Text
