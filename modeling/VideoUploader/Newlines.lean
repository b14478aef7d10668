/-
Line endings.

A text file may end its lines with a newline, with a carriage return and a newline, or
with a carriage return alone, and a reader that wants lines makes newlines of all three
before it looks at anything else. Python does so with the text of a program and with
what a child process has printed, and HTML with a page. The lemmas here say when that
leaves a text as it is, and that it works piece by piece wherever the cut does not fall
between the two characters of one ending.
-/
import Mathlib.Data.List.Basic

set_option autoImplicit false

namespace Newlines

/-- Every line ending is a newline: a carriage return with the newline behind it counts as one
ending, and so does a carriage return by itself. A scan that has no state, as an ending is two
characters at most. -/
def normNewlines : List Char → List Char
  | '\r' :: '\n' :: s => '\n' :: normNewlines s
  | '\r' :: s => '\n' :: normNewlines s
  | c :: s => c :: normNewlines s
  | [] => []

theorem normNewlines_cons {c : Char} (h : c ≠ '\r') (s : List Char) :
    normNewlines (c :: s) = c :: normNewlines s := by
  rw [normNewlines]
  · rintro t rfl
    exact absurd rfl h
  · exact h

/-- Text without a carriage return in front of any other text is passed through, and says nothing
about what comes behind it. -/
theorem normNewlines_append_of_not_mem {s : List Char} (h : '\r' ∉ s) (t : List Char) :
    normNewlines (s ++ t) = s ++ normNewlines t := by
  induction s with
  | nil => rfl
  | cons c s ih =>
      rw [List.mem_cons, not_or] at h
      rw [List.cons_append, normNewlines_cons (Ne.symm h.1), ih h.2]
      rfl

/-- Most texts of a script have newlines only, and are what they were. -/
theorem normNewlines_of_not_mem {s : List Char} (h : '\r' ∉ s) : normNewlines s = s := by
  have happ := normNewlines_append_of_not_mem h []
  rwa [List.append_nil, normNewlines, List.append_nil] at happ

/-- The two parts of a text are normalised apart unless a carriage return and its newline are
separated. The only hypothesis is on the first character behind the cut, because that is where a
pair would be torn apart. -/
theorem normNewlines_append {s t : List Char} (ht : t.head? ≠ some '\n') :
    normNewlines (s ++ t) = normNewlines s ++ normNewlines t := by
  fun_induction normNewlines s with
  | case1 s ih => rw [List.cons_append, List.cons_append, normNewlines, ih, List.cons_append]
  | case2 s hs ih =>
      -- a carriage return at the very end of `s` is the one case in which `t` has a say
      have hst : ∀ u, s ++ t = '\n' :: u → False := by
        intro u hu
        rcases s with _ | ⟨c, s⟩
        · exact ht (by rw [List.nil_append] at hu; rw [hu]; rfl)
        · injection hu with hc _
          exact hs s (by rw [hc])
      rw [List.cons_append, normNewlines, ih, List.cons_append]
      exact hst
  | case3 c s hs hc ih =>
      rw [List.cons_append, normNewlines_cons hc, ih, List.cons_append]
  | case4 => rfl

theorem length_normNewlines_le (s : List Char) : (normNewlines s).length ≤ s.length := by
  fun_induction normNewlines s <;> simp only [List.length_cons, List.length_nil] <;> omega

/-- No carriage return is left, so what comes behind need not reckon with one. -/
theorem not_mem_normNewlines (s : List Char) : '\r' ∉ normNewlines s := by
  fun_induction normNewlines s with
  | case1 s ih => simpa using ih
  | case2 s hs ih => simpa using ih
  | case3 c s hs hc ih => simpa [Ne.symm hc] using ih
  | case4 => simp

/-- Only carriage returns and newlines are replaced, so no other character is won. -/
theorem mem_of_mem_normNewlines {c : Char} {s : List Char} (h : c ∈ normNewlines s) :
    c ∈ s ∨ c = '\n' := by
  fun_induction normNewlines s with
  | case1 s ih =>
      rcases List.mem_cons.mp h with rfl | h
      · exact Or.inr rfl
      · exact (ih h).imp_left fun hmem => List.mem_cons_of_mem _ (List.mem_cons_of_mem _ hmem)
  | case2 s hs ih =>
      rcases List.mem_cons.mp h with rfl | h
      · exact Or.inr rfl
      · exact (ih h).imp_left fun hmem => List.mem_cons_of_mem _ hmem
  | case3 d s hs hd ih =>
      rcases List.mem_cons.mp h with rfl | h
      · exact Or.inl List.mem_cons_self
      · exact (ih h).imp_left fun hmem => List.mem_cons_of_mem _ hmem
  | case4 => cases h

end Newlines
