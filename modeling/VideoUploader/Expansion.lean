/-
Texts in which escapes stand for something else.

A language of escapes says, at any place of a text, whether an escape begins
there, how far it goes and what stands in its place. `expand` reads a text so.
When what stands in the place of an escape always weighs less than the escape,
for some weight of the symbols, a text comes out unchanged exactly when no escape
begins in it: nothing that a later part contributes can make up for the loss.
-/
import Mathlib.Algebra.Order.Monoid.Defs
import Mathlib.Algebra.BigOperators.Group.List.Basic
import Mathlib.Algebra.Order.Monoid.Unbundled.Basic

set_option autoImplicit false

namespace Expansion

variable {α : Type*}

/-- The escape at the front of a text, given the symbol in front of the text: how many symbols
belong to it after the first, and what stands in its place. The symbol in front matters where an
escape may not follow another one. -/
abbrev Escapes (α : Type*) := Option α → List α → Option (ℕ × List α)

/-- The text with its escapes replaced. The counter is how many symbols of the last escape are
still to be skipped. -/
def expand (esc : Escapes α) : ℕ → Option α → List α → List α
  | _, _, [] => []
  | k + 1, _, b :: s => expand esc k (some b) s
  | 0, prev, b :: s =>
      match esc prev (b :: s) with
      | some x => x.2 ++ expand esc x.1 (some b) s
      | none => b :: expand esc 0 (some b) s

/-- No escape begins anywhere in the text. A condition on the text alone, which can be decided
from left to right. -/
def Plain (esc : Escapes α) : Option α → List α → Prop
  | _, [] => True
  | prev, b :: s => esc prev (b :: s) = none ∧ Plain esc (some b) s

instance decidablePlain (esc : Escapes α) :
    (prev : Option α) → (s : List α) → Decidable (Plain esc prev s)
  | _, [] => inferInstanceAs (Decidable True)
  | prev, b :: s =>
      have := decidablePlain esc (some b) s
      inferInstanceAs (Decidable (esc prev (b :: s) = none ∧ Plain esc (some b) s))

/-- A plain text comes out as it is. -/
theorem expand_of_plain {esc : Escapes α} {prev : Option α} {s : List α} (h : Plain esc prev s) :
    expand esc 0 prev s = s := by
  induction s generalizing prev with
  | nil => rfl
  | cons b s ih =>
      unfold expand
      rw [h.1]
      exact congrArg (b :: ·) (ih h.2)

/-- In the middle of a plain text no escape begins either, whatever symbol happens to be in
front. -/
theorem Plain.of_append {esc : Escapes α} {prev : Option α} {a s : List α} {b : α}
    (h : Plain esc prev (a ++ b :: s)) : ∃ prev', esc prev' (b :: s) = none := by
  induction a generalizing prev with
  | nil => exact ⟨prev, h.1⟩
  | cons c a ih => exact ih h.2

/-! ## Weights -/

section Weight

variable {M : Type*} [AddCommMonoid M]

/-- What a text weighs. The weights may be numbers, or vectors of numbers that count the symbols
apart. -/
def weight (w : α → M) (s : List α) : M := (s.map w).sum

variable {w : α → M}

@[simp] theorem weight_nil : weight w [] = 0 := rfl

@[simp] theorem weight_cons (a : α) (s : List α) : weight w (a :: s) = w a + weight w s := by
  simp [weight]

@[simp] theorem weight_append (s t : List α) : weight w (s ++ t) = weight w s + weight w t := by
  simp [weight]

/-- An escape and what is behind it weigh together what the text does. -/
theorem weight_take_add_drop (k : ℕ) (b : α) (s : List α) :
    weight w ((b :: s).take (k + 1)) + weight w (s.drop k) = weight w (b :: s) := by
  rw [← List.drop_succ_cons, ← weight_append, List.take_append_drop]

variable [PartialOrder M] [IsOrderedCancelAddMonoid M]

/-- What stands in the place of an escape weighs less than the escape. It need not be shorter:
another weight will do. -/
def Lighter (esc : Escapes α) (w : α → M) : Prop :=
  ∀ prev b s x, esc prev (b :: s) = some x → weight w x.2 < weight w ((b :: s).take (x.1 + 1))

variable {esc : Escapes α}

/-- No text gets heavier. The induction is on the text, with any number of symbols still to be
skipped. -/
theorem weight_expand_le (h : Lighter esc w) (k : ℕ) (prev : Option α) (s : List α) :
    weight w (expand esc k prev s) ≤ weight w (s.drop k) := by
  induction s generalizing k prev with
  | nil => simp [expand]
  | cons b s ih =>
      cases k with
      | succ k => exact ih k (some b)
      | zero =>
          unfold expand
          cases hesc : esc prev (b :: s) with
          | none =>
              rw [weight_cons, List.drop_zero, weight_cons]
              exact add_le_add_right (ih 0 (some b)) (w b)
          | some x =>
              rw [weight_append, List.drop_zero, ← weight_take_add_drop x.1 b s]
              exact add_le_add (h prev b s x hesc).le (ih x.1 (some b))

/-- A text in which an escape begins gets lighter. In front of the escape all stays, behind it
nothing gets heavier, and the escape itself makes the difference. -/
theorem weight_expand_lt (h : Lighter esc w) {prev : Option α} {s : List α}
    (hs : ¬ Plain esc prev s) : weight w (expand esc 0 prev s) < weight w s := by
  induction s generalizing prev with
  | nil => exact absurd trivial hs
  | cons b s ih =>
      unfold expand
      cases hesc : esc prev (b :: s) with
      | none =>
          have hrest : ¬ Plain esc (some b) s := fun hp => hs ⟨hesc, hp⟩
          rw [weight_cons, weight_cons]
          exact add_lt_add_right (ih hrest) (w b)
      | some x =>
          rw [weight_append, ← weight_take_add_drop x.1 b s]
          exact add_lt_add_of_lt_of_le (h prev b s x hesc) (weight_expand_le h x.1 (some b) s)

/-- **A text comes out unchanged exactly when no escape begins in it.** One direction is
`expand_of_plain`; for the other one it is enough to look at the weight. -/
theorem expand_eq_self_iff (h : Lighter esc w) {prev : Option α} {s : List α} :
    expand esc 0 prev s = s ↔ Plain esc prev s := by
  constructor
  · intro heq
    by_contra hs
    have hlt := weight_expand_lt h hs
    rw [heq] at hlt
    exact lt_irrefl _ hlt
  · exact expand_of_plain

end Weight

end Expansion
