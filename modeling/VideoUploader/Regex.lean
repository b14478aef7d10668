/-
POSIX extended regular expressions, and the longest match at a place.

`grep -E` and `sed` both look for the leftmost match and, at that place, for
the longest one. This file has the half of that which is about one place: the
expressions, the language each denotes, Brzozowski derivatives, and the search
for the longest prefix in the language. Walking along a line is
`StreamTools.lean`.

Character classes are predicates rather than finite unions, so `[^>]` is one
node of the tree whatever the alphabet is.
-/
import Mathlib.Computability.Language

set_option autoImplicit false

open Computability

namespace Posix

/-- Extended regular expressions over an arbitrary alphabet. `sat` is a
character class, given by the predicate it stands for. -/
inductive Regex (α : Type*) where
  | fail
  | empty
  | sat (p : α → Bool)
  | seq (r s : Regex α)
  | alt (r s : Regex α)
  | star (r : Regex α)

namespace Regex

variable {α : Type*}

/-! ## The language of an expression -/

/-- What an expression matches, as a set of words. The operations are those of languages in
general, so that the facts about them need not be proved again. -/
def lang : Regex α → Language α
  | fail => 0
  | empty => 1
  | sat p => {w | ∃ c, p c = true ∧ w = [c]}
  | seq r s => r.lang * s.lang
  | alt r s => r.lang + s.lang
  | star r => r.lang∗

/-- A fixed word, as a sequence of classes of one letter each. -/
def lit [DecidableEq α] : List α → Regex α
  | [] => empty
  | c :: w => seq (sat fun d => decide (d = c)) (lit w)

/-- `r+`, one time or more. -/
def plus (r : Regex α) : Regex α := seq r (star r)

theorem mem_lang_fail {w : List α} : w ∈ (fail : Regex α).lang ↔ False := Iff.rfl

theorem mem_lang_empty {w : List α} : w ∈ (empty : Regex α).lang ↔ w = [] := Iff.rfl

theorem mem_lang_sat {p : α → Bool} {w : List α} :
    w ∈ (sat p).lang ↔ ∃ c, p c = true ∧ w = [c] := Iff.rfl

theorem mem_lang_seq {r s : Regex α} {w : List α} :
    w ∈ (seq r s).lang ↔ ∃ u v, u ∈ r.lang ∧ v ∈ s.lang ∧ w = u ++ v := by
  rw [lang, Language.mem_mul]
  constructor
  · rintro ⟨u, hu, v, hv, rfl⟩
    exact ⟨u, v, hu, hv, rfl⟩
  · rintro ⟨u, v, hu, hv, rfl⟩
    exact ⟨u, hu, v, hv, rfl⟩

theorem mem_lang_alt {r s : Regex α} {w : List α} :
    w ∈ (alt r s).lang ↔ w ∈ r.lang ∨ w ∈ s.lang := Iff.rfl

/-- A starred class matches exactly the words all of whose letters are in it. Most expressions of
shell scripts are literals and starred classes. -/
theorem mem_lang_star_sat {p : α → Bool} {w : List α} :
    w ∈ (star (sat p)).lang ↔ ∀ c ∈ w, p c = true := by
  rw [lang, Language.mem_kstar]
  constructor
  · rintro ⟨ws, rfl, hws⟩ c hc
    obtain ⟨u, hu, hcu⟩ := List.mem_flatten.mp hc
    obtain ⟨d, hd, rfl⟩ := mem_lang_sat.mp (hws u hu)
    rw [List.mem_singleton.mp hcu]
    exact hd
  · intro h
    refine ⟨w.map fun c => [c], ?_, ?_⟩
    · induction w with
      | nil => rfl
      | cons c w ih =>
          rw [List.map_cons, List.flatten_cons, ← ih fun d hd => h d (List.mem_cons_of_mem c hd)]
          rfl
    · intro u hu
      obtain ⟨c, hc, rfl⟩ := List.mem_map.mp hu
      exact mem_lang_sat.mpr ⟨c, h c hc, rfl⟩

/-- A literal matches itself only. -/
theorem mem_lang_lit [DecidableEq α] {u w : List α} : w ∈ (lit u).lang ↔ w = u := by
  induction u generalizing w with
  | nil => exact Iff.rfl
  | cons c u ih =>
      rw [lit, mem_lang_seq]
      constructor
      · rintro ⟨x, y, hx, hy, rfl⟩
        obtain ⟨d, hd, rfl⟩ := mem_lang_sat.mp hx
        rw [ih.mp hy, of_decide_eq_true hd]
        rfl
      · rintro rfl
        exact ⟨[c], u, mem_lang_sat.mpr ⟨c, decide_eq_true rfl, rfl⟩, ih.mpr rfl, rfl⟩

/-! ## Derivatives -/

/-- Whether the empty word matches. Computed from the expression, so that the search below can be
run. -/
def nullable : Regex α → Bool
  | fail => false
  | empty => true
  | sat _ => false
  | seq r s => r.nullable && s.nullable
  | alt r s => r.nullable || s.nullable
  | star _ => true

/-- What is left to match after the letter `c`. In a sequence whose first part may be empty the
letter can belong to either part. -/
def deriv (c : α) : Regex α → Regex α
  | fail => fail
  | empty => fail
  | sat p => if p c then empty else fail
  | seq r s => if r.nullable then alt (seq (r.deriv c) s) (s.deriv c) else seq (r.deriv c) s
  | alt r s => alt (r.deriv c) (s.deriv c)
  | star r => seq (r.deriv c) (star r)

/-- The computation is right about the empty word. -/
theorem nullable_iff {r : Regex α} : r.nullable = true ↔ [] ∈ r.lang := by
  induction r with
  | fail => simp [nullable, mem_lang_fail]
  | empty => simp [nullable, mem_lang_empty]
  | sat p => simp [nullable, mem_lang_sat]
  | seq r s ihr ihs =>
      rw [nullable, Bool.and_eq_true, ihr, ihs, mem_lang_seq]
      constructor
      · rintro ⟨hr, hs⟩
        exact ⟨[], [], hr, hs, rfl⟩
      · rintro ⟨u, v, hu, hv, huv⟩
        obtain ⟨rfl, rfl⟩ := List.append_eq_nil_iff.mp huv.symm
        exact ⟨hu, hv⟩
  | alt r s ihr ihs => rw [nullable, Bool.or_eq_true, ihr, ihs, mem_lang_alt]
  | star r _ => simp only [nullable, lang, Language.nil_mem_kstar]

/-- A nonempty word of `L∗` is a word of `L` that begins it and a word of `L∗` for the rest. The
first nonempty factor is taken; empty ones would get nowhere. -/
private theorem cons_mem_kstar {L : Language α} {c : α} {w : List α} :
    c :: w ∈ L∗ ↔ ∃ u v, c :: u ∈ L ∧ v ∈ L∗ ∧ w = u ++ v := by
  constructor
  · intro h
    -- a factorisation without empty factors, whose first one has the letter `c`
    obtain ⟨ws, hw, hws⟩ := Language.mem_kstar_iff_exists_nonempty.mp h
    cases ws with
    | nil => cases hw
    | cons x xs =>
        obtain ⟨hx, hne⟩ := hws x (by simp)
        obtain ⟨d, u, rfl⟩ := List.exists_cons_of_ne_nil hne
        rw [List.flatten_cons, List.cons_append] at hw
        injection hw with hcd hw
        subst hcd
        exact ⟨u, xs.flatten, hx,
          Language.join_mem_kstar fun y hy => (hws y (List.mem_cons_of_mem _ hy)).1, hw⟩
  · rintro ⟨u, v, hu, hv, rfl⟩
    obtain ⟨vs, rfl, hvs⟩ := Language.mem_kstar.mp hv
    refine Language.mem_kstar.mpr ⟨(c :: u) :: vs, by simp, ?_⟩
    intro y hy
    rcases List.mem_cons.mp hy with rfl | hy
    · exact hu
    · exact hvs y hy

/-- **Derivatives are left quotients**: a word is matched by the derivative exactly when the
letter and the word are matched by the expression. One case per constructor, with the two
readings of a sequence apart. -/
theorem mem_lang_deriv {r : Regex α} {c : α} {w : List α} :
    w ∈ (r.deriv c).lang ↔ c :: w ∈ r.lang := by
  induction r generalizing w with
  | fail => simp [deriv, mem_lang_fail]
  | empty => simp [deriv, mem_lang_fail, mem_lang_empty]
  | sat p =>
      rw [deriv, mem_lang_sat]
      split
      · rename_i hp
        rw [mem_lang_empty]
        constructor
        · rintro rfl
          exact ⟨c, hp, rfl⟩
        · rintro ⟨d, _, hd⟩
          injection hd
      · rename_i hp
        rw [mem_lang_fail, false_iff]
        rintro ⟨d, hd, hcd⟩
        injection hcd with hcd _
        exact hp (hcd ▸ hd)
  | seq r s ihr ihs =>
      have hseq : w ∈ (seq (r.deriv c) s).lang ↔
          ∃ u v, c :: u ∈ r.lang ∧ v ∈ s.lang ∧ w = u ++ v := by
        simp only [mem_lang_seq, ihr]
      rw [mem_lang_seq, deriv]
      split
      · rename_i hnull
        rw [mem_lang_alt, hseq, ihs]
        constructor
        · -- the letter is the first of `r`'s part, or `r`'s part is empty and it is `s`'s
          rintro (⟨u, v, hu, hv, rfl⟩ | hs)
          · exact ⟨c :: u, v, hu, hv, rfl⟩
          · exact ⟨[], c :: w, nullable_iff.mp hnull, hs, rfl⟩
        · rintro ⟨u, v, hu, hv, huv⟩
          cases u with
          | nil => exact Or.inr (by rw [List.nil_append] at huv; rw [huv]; exact hv)
          | cons d u =>
              injection huv with hcd huv
              subst hcd
              exact Or.inl ⟨u, v, hu, hv, huv⟩
      · rename_i hnull
        rw [hseq]
        constructor
        · rintro ⟨u, v, hu, hv, rfl⟩
          exact ⟨c :: u, v, hu, hv, rfl⟩
        · rintro ⟨u, v, hu, hv, huv⟩
          cases u with
          | nil => exact absurd (nullable_iff.mpr hu) hnull
          | cons d u =>
              injection huv with hcd huv
              subst hcd
              exact ⟨u, v, hu, hv, huv⟩
  | alt r s ihr ihs => rw [deriv, mem_lang_alt, ihr, ihs, mem_lang_alt]
  | star r ihr =>
      rw [deriv, mem_lang_seq]
      simp only [ihr]
      exact cons_mem_kstar.symm

/-! ## The longest match at a place -/

/-- The longest prefix that matches, with what follows it; `none` when no prefix does. Later
letters are tried first, so a longer match wins: this is the rule by which `sed` and `grep`
choose among the matches that begin at one place. -/
def longest (r : Regex α) : List α → Option (List α × List α)
  | [] => if r.nullable then some ([], []) else none
  | c :: s =>
      match (r.deriv c).longest s with
      | some (m, rest) => some (c :: m, rest)
      | none => if r.nullable then some ([], c :: s) else none

/-- Nothing is found exactly when no prefix matches. -/
theorem longest_eq_none_iff {r : Regex α} {s : List α} :
    r.longest s = none ↔ ∀ m rest, s = m ++ rest → m ∉ r.lang := by
  induction s generalizing r with
  | nil =>
      have hnil : r.longest [] = none ↔ ¬ r.nullable = true := by
        rw [longest]; split <;> simp_all
      rw [hnil, nullable_iff]
      constructor
      · intro h m rest hm
        obtain ⟨rfl, rfl⟩ := List.append_eq_nil_iff.mp hm.symm
        exact h
      · intro h
        exact h [] [] rfl
  | cons c s ih =>
      have hcons : r.longest (c :: s) = none ↔
          (r.deriv c).longest s = none ∧ ¬ r.nullable = true := by
        rw [longest]
        cases (r.deriv c).longest s with
        | some x => simp
        | none => by_cases hr : r.nullable = true <;> simp [hr]
      rw [hcons, ih, nullable_iff]
      constructor
      · rintro ⟨hd, hn⟩ m rest hm
        cases m with
        | nil => exact hn
        | cons d m =>
            injection hm with hcd hm
            subst hcd
            exact fun hmem => hd m rest hm (mem_lang_deriv.mpr hmem)
      · intro h
        refine ⟨fun m rest hm hmem => ?_, h [] (c :: s) rfl⟩
        exact h (c :: m) rest (by rw [hm]; rfl) (mem_lang_deriv.mp hmem)

/-- What `longest` finds is a matching prefix, and no matching prefix is longer. With
`longest_eq_none_iff` this is all that is ever used of the search. -/
theorem longest_spec {r : Regex α} {s m rest : List α} (h : r.longest s = some (m, rest)) :
    s = m ++ rest ∧ m ∈ r.lang ∧
      ∀ m' rest', s = m' ++ rest' → m' ∈ r.lang → m'.length ≤ m.length := by
  induction s generalizing r m rest with
  | nil =>
      rw [longest] at h
      split at h
      · rename_i hr
        cases h
        refine ⟨rfl, nullable_iff.mp hr, ?_⟩
        intro m' rest' hm' _
        rw [(List.append_eq_nil_iff.mp hm'.symm).1]
      · cases h
  | cons c s ih =>
      rw [longest] at h
      cases hd : (r.deriv c).longest s with
      -- a match beyond the first letter is longer than the empty one
      | some x =>
          rw [hd] at h
          cases h
          obtain ⟨hs, hmem, hmax⟩ := ih hd
          refine ⟨by rw [hs]; rfl, mem_lang_deriv.mp hmem, ?_⟩
          intro m' rest' hm' hmem'
          cases m' with
          | nil => exact Nat.zero_le _
          | cons d m' =>
              injection hm' with hcd hm'
              subst hcd
              exact Nat.succ_le_succ (hmax m' rest' hm' (mem_lang_deriv.mpr hmem'))
      | none =>
          rw [hd] at h
          dsimp only at h
          split at h
          · rename_i hr
            cases h
            refine ⟨rfl, nullable_iff.mp hr, ?_⟩
            intro m' rest' hm' hmem'
            cases m' with
            | nil => exact Nat.le_refl _
            | cons d m' =>
                injection hm' with hcd hm'
                subst hcd
                exact absurd (mem_lang_deriv.mpr hmem')
                  (longest_eq_none_iff.mp hd m' rest' hm')
          · cases h

/-- The way to compute a longest match by hand: exhibit it and bound the others. The derivatives
need not be looked at. -/
theorem longest_eq_some {r : Regex α} {s m rest : List α} (hs : s = m ++ rest)
    (hm : m ∈ r.lang)
    (hmax : ∀ m' rest', s = m' ++ rest' → m' ∈ r.lang → m'.length ≤ m.length) :
    r.longest s = some (m, rest) := by
  cases h : r.longest s with
  | none => exact absurd hm (longest_eq_none_iff.mp h m rest hs)
  | some x =>
      obtain ⟨m₁, rest₁⟩ := x
      obtain ⟨hs₁, hm₁, hmax₁⟩ := longest_spec h
      have hlen : m₁.length = m.length :=
        Nat.le_antisymm (hmax m₁ rest₁ hs₁ hm₁) (hmax₁ m rest hs hm)
      obtain ⟨rfl, rfl⟩ := List.append_inj (hs₁.symm.trans hs) hlen
      rfl

end Regex

end Posix
