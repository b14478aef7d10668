/-
Digits at the head of a text, as escapes and references use them: a bounded number of
octal, decimal or hexadecimal digits, read as a number.
-/
import Mathlib.Data.List.Basic

set_option autoImplicit false

namespace Numerals

/-- The value of an octal digit, and nothing for any other character. -/
def octalDigit (c : Char) : Option ℕ :=
  if '0' ≤ c ∧ c ≤ '7' then some (c.toNat - '0'.toNat) else none

/-- The value of a decimal digit. -/
def decimalDigit (c : Char) : Option ℕ :=
  if '0' ≤ c ∧ c ≤ '9' then some (c.toNat - '0'.toNat) else none

/-- The value of a hexadecimal digit, which may be written with small or capital letters. -/
def hexDigit (c : Char) : Option ℕ :=
  if '0' ≤ c ∧ c ≤ '9' then some (c.toNat - '0'.toNat)
  else if 'a' ≤ c ∧ c ≤ 'f' then some (c.toNat - 'a'.toNat + 10)
  else if 'A' ≤ c ∧ c ≤ 'F' then some (c.toNat - 'A'.toNat + 10)
  else none

/-- The values of the digits at the head of `s`, at most `n` of them: an escape takes as many as
it may and stops in front of the first character that is none. How many characters it has taken
is the length of the result. -/
def digits {α : Type*} (value : α → Option ℕ) : ℕ → List α → List ℕ
  | 0, _ => []
  | _, [] => []
  | n + 1, c :: s =>
      match value c with
      | some d => d :: digits value n s
      | none => []

/-- The number that digits are read as, the first of them being the most significant. -/
def number (base : ℕ) (ds : List ℕ) : ℕ := ds.foldl (fun v d => v * base + d) 0

/-- Digits are taken from the text only, so whoever drops as many characters stays within it. -/
theorem length_digits_le {α : Type*} (value : α → Option ℕ) (n : ℕ) (s : List α) :
    (digits value n s).length ≤ s.length := by
  induction s generalizing n with
  | nil => cases n <;> exact Nat.le_refl _
  | cons c s ih =>
      cases n with
      | zero => exact Nat.zero_le _
      | succ n =>
          rw [digits]
          split
          · exact Nat.succ_le_succ (ih n)
          · exact Nat.zero_le _

end Numerals
