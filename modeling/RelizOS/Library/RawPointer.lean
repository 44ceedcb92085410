import RelizOS.Library.ByteMemory
import RelizOS.Library.Checked

/-!
# Raw pointers

A program that gets an address from elsewhere and reads or writes through it fails where the address
is null or nothing is mapped, and a copy also fails where its two ranges overlap. Which addresses
can be accessed is a function of the address. Without bytes to read or write every pointer is valid.
-/

namespace ByteMemory

/-- The `n` bytes from `p` on can be read and written. -/
def ValidPtr (accessible : ℕ → Bool) (p n : ℕ) : Prop :=
  n = 0 ∨ p ≠ 0 ∧ ∀ i < n, accessible (p + i)

/-- The `n` bytes from `src` on can be copied to `dst`. -/
def ValidCopy (accessible : ℕ → Bool) (src dst n : ℕ) : Prop :=
  ValidPtr accessible src n ∧ ValidPtr accessible dst n ∧ (n = 0 ∨ src + n ≤ dst ∨ dst + n ≤ src)

instance (accessible : ℕ → Bool) (p n : ℕ) : Decidable (ValidPtr accessible p n) :=
  inferInstanceAs (Decidable (_ ∨ _))

instance (accessible : ℕ → Bool) (src dst n : ℕ) : Decidable (ValidCopy accessible src dst n) :=
  inferInstanceAs (Decidable (_ ∧ _))

/-- `core::ptr::copy_nonoverlapping` of the bytes `bs` at `src`. -/
def copyNonoverlapping (accessible : ℕ → Bool) (mem : Mem) (src dst : ℕ) (bs : List UInt8) :
    Checked Mem :=
  if ValidCopy accessible src dst bs.length then .ok (writeBytes mem dst bs) else .error .pointer

variable {accessible : ℕ → Bool} {p src dst i k n : ℕ}

theorem ValidPtr.mono (h : ValidPtr accessible p n) (hk : k ≤ n) : ValidPtr accessible p k := by
  rcases h with rfl | ⟨hne, hall⟩
  · exact Or.inl (Nat.le_zero.mp hk)
  · exact Or.inr ⟨hne, fun i hi ↦ hall i (lt_of_lt_of_le hi hk)⟩

theorem ValidPtr.add (h : ValidPtr accessible p n) (hk : i + k ≤ n) :
    ValidPtr accessible (p + i) k := by
  rcases h with rfl | ⟨hne, hall⟩
  · exact Or.inl (by omega)
  · refine Or.inr ⟨by omega, fun j hj ↦ ?_⟩
    rw [add_assoc]
    exact hall (i + j) (by omega)

theorem ValidCopy.mono (h : ValidCopy accessible src dst n) (hk : k ≤ n) :
    ValidCopy accessible src dst k := by
  obtain ⟨hsrc, hdst, hapart⟩ := h
  exact ⟨hsrc.mono hk, hdst.mono hk, by omega⟩

theorem copyNonoverlapping_of_valid {mem : Mem} {bs : List UInt8}
    (h : ValidCopy accessible src dst bs.length) :
    copyNonoverlapping accessible mem src dst bs = .ok (writeBytes mem dst bs) := if_pos h

end ByteMemory
