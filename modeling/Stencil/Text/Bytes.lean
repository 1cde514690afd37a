/-!
# Sizes in bytes

Places in a text are counted in the bytes of its UTF-8 form. `takeBytes` cuts a text at a number of bytes, moved back
to the start of a character.
-/

namespace Stencil.Text

/-- The size of a text in bytes. -/
def byteSize : List Char → Nat
  | [] => 0
  | c :: cs => c.utf8Size + byteSize cs

/-- The longest start of a text that takes up at most so many bytes. -/
def takeBytes : Nat → List Char → List Char
  | _, [] => []
  | size, c :: cs => if c.utf8Size ≤ size then c :: takeBytes (size - c.utf8Size) cs else []

@[simp] theorem byteSize_nil : byteSize [] = 0 := rfl

@[simp] theorem byteSize_cons (c : Char) (cs : List Char) : byteSize (c :: cs) = c.utf8Size + byteSize cs := rfl

@[simp] theorem byteSize_append (a b : List Char) : byteSize (a ++ b) = byteSize a + byteSize b := by
  induction a with
  | nil => simp
  | cons c a ih => simp [ih, Nat.add_assoc]

theorem takeBytes_prefix (size : Nat) (cs : List Char) : takeBytes size cs <+: cs := by
  induction cs generalizing size with
  | nil => exact List.nil_prefix
  | cons c cs ih =>
    unfold takeBytes
    split
    · exact List.cons_prefix_cons.mpr ⟨rfl, ih _⟩
    · exact List.nil_prefix

theorem byteSize_takeBytes_le (size : Nat) (cs : List Char) : byteSize (takeBytes size cs) ≤ size := by
  induction cs generalizing size with
  | nil => exact Nat.zero_le _
  | cons c cs ih =>
    unfold takeBytes
    split
    · have := ih (size - c.utf8Size)
      simp only [byteSize_cons]
      omega
    · exact Nat.zero_le _

@[simp] theorem takeBytes_zero (cs : List Char) : takeBytes 0 cs = [] := by
  cases cs with
  | nil => rfl
  | cons c cs => rw [takeBytes, if_neg (Nat.not_le_of_lt c.utf8Size_pos)]

theorem takeBytes_byteSize_append (a b : List Char) : takeBytes (byteSize a) (a ++ b) = a := by
  induction a with
  | nil => exact takeBytes_zero b
  | cons c a ih =>
    rw [List.cons_append, byteSize_cons, takeBytes, if_pos (Nat.le_add_right ..), Nat.add_sub_cancel_left, ih]

end Stencil.Text
