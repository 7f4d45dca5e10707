/-!
Machine words of 64 bits. Their sums and differences wrap around.
-/

namespace EditableText.Word

def add (a b : Nat) : Nat := (a + b) % UInt64.size

def sub (a b : Nat) : Nat := (a + (UInt64.size - b % UInt64.size)) % UInt64.size

variable {a b : Nat}

theorem add_eq (h : a + b < UInt64.size) : add a b = a + b := Nat.mod_eq_of_lt h

theorem add_le (a b : Nat) : add a b ≤ a + b := Nat.mod_le _ _

theorem add_lt_of_size_le (ha : a < UInt64.size) (hb : b < UInt64.size) (h : UInt64.size ≤ a + b) :
    add a b < a := by
  simp only [add, UInt64.size] at ha hb h ⊢
  omega

theorem sub_eq (hle : b ≤ a) (h : a < UInt64.size) : sub a b = a - b := by
  simp only [sub, UInt64.size] at h ⊢
  omega

theorem sub_le (hle : b ≤ a) : sub a b ≤ a - b := by
  simp only [sub, UInt64.size]
  omega

theorem add_sub_add (a b c : Nat) : add (sub (add a b) b) c = add a c := by
  simp only [add, sub, UInt64.size]
  omega

end EditableText.Word
