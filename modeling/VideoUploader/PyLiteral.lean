/-
The value of a Python string literal.

Between the quotes a backslash may begin an escape. The recognised ones are
replaced; a backslash before any other character is kept, and so is the
character. What the rest of the development uses of this is one fact about
lengths: a recognised escape is always longer than what it stands for, so a
literal whose value is as long as its body has none.
-/
import VideoUploader.Numerals

set_option autoImplicit false

namespace Python

open Numerals

/-- A `str`: code points, lone surrogates included, as an escape can make one. -/
abbrev Str := List ℕ

/-- A text without escapes, as a `str`. -/
def codes (cs : List Char) : Str := cs.map Char.toNat

/-- Different texts have different code points. -/
theorem codes_injective : Function.Injective codes :=
  List.map_injective_iff.mpr fun _ _ h => Char.ext (UInt32.toNat_inj.mp h)

@[simp] theorem length_codes (cs : List Char) : (codes cs).length = cs.length :=
  List.length_map _

/-! ## Escapes -/

/-- The escapes of one character: the line continuation, which stands for
nothing, the quotes and the backslash, and the control characters. -/
def simpleEscape (c : Char) : Option Str :=
  [('\n', []), ('\\', [0x5c]), ('\'', [0x27]), ('"', [0x22]), ('a', [0x07]), ('b', [0x08]),
   ('f', [0x0c]), ('n', [0x0a]), ('r', [0x0d]), ('t', [0x09]), ('v', [0x0b])].lookup c

/-- Exactly `n` hexadecimal digits for a code point. Fewer are an error, and so is a number that
is none. -/
def hexEscape (n : ℕ) (s : List Char) : Option (ℕ × Str) :=
  let ds := digits hexDigit n s
  if ds.length = n ∧ number 16 ds ≤ 0x10ffff then some (1 + n, [number 16 ds]) else none

/-- `\N{…}`, for the names in `names`. An unknown name is an error, as is a missing brace. -/
def namedEscape (names : List Char → Option ℕ) : List Char → Option (ℕ × Str)
  | '{' :: s =>
      let name := s.takeWhile fun c => decide (c ≠ '}')
      if name.length < s.length then
        (names name).map fun v => (name.length + 3, [v])
      else none
  | _ => none

/-- What follows a backslash: how many characters belong to the escape and what it
stands for, or `none` when the literal is refused. An unrecognised escape is
the backslash by itself. -/
def readEscape (names : List Char → Option ℕ) : List Char → Option (ℕ × Str)
  | [] => some (0, [0x5c])
  | c :: s =>
      match simpleEscape c with
      | some v => some (1, v)
      | none =>
          if (octalDigit c).isSome then
            let ds := digits octalDigit 3 (c :: s)
            some (ds.length, [number 8 ds])
          else if c = 'x' then hexEscape 2 s
          else if c = 'u' then hexEscape 4 s
          else if c = 'U' then hexEscape 8 s
          else if c = 'N' then namedEscape names s
          else some (0, [0x5c])

/-- The value of a literal's body. The counter is how many characters of the last
escape are still to be skipped. -/
def unescape (names : List Char → Option ℕ) : ℕ → List Char → Option Str
  | _, [] => some []
  | k + 1, _ :: s => unescape names k s
  | 0, c :: s =>
      if c = '\\' then
        match readEscape names s with
        | some (n, v) => (unescape names n s).map fun w => v ++ w
        | none => none
      else (unescape names 0 s).map fun w => c.toNat :: w

/-- The characters a backslash forms an escape with, or an error. -/
def escapeLetters : List Char :=
  ['\n', '\\', '\'', '"', 'a', 'b', 'f', 'n', 'r', 't', 'v',
   '0', '1', '2', '3', '4', '5', '6', '7', 'x', 'u', 'U', 'N']

/-- No backslash of the text forms an escape, also none at its end, where the character behind
the text would have a say. -/
def NoEscape : List Char → Prop
  | [] => True
  | c :: s => (c = '\\' → ∃ d, s.head? = some d ∧ d ∉ escapeLetters) ∧ NoEscape s

instance decidableNoEscape : ∀ s, Decidable (NoEscape s)
  | [] => isTrue trivial
  | c :: s =>
      have := decidableNoEscape s
      decidable_of_iff ((c = '\\' → s.head?.any (fun d => decide (d ∉ escapeLetters)) = true) ∧
          NoEscape s) (by
        rw [NoEscape]
        simp [Option.any_eq_true])

theorem NoEscape.tail {c : Char} {s : List Char} (h : NoEscape (c :: s)) : NoEscape s := h.2

/-- Every escape begins with a backslash, so a text without one is free of them. -/
theorem noEscape_of_not_mem {s : List Char} (h : '\\' ∉ s) : NoEscape s := by
  induction s with
  | nil => trivial
  | cons c s ih =>
      rw [List.mem_cons, not_or] at h
      exact ⟨fun hc => absurd hc.symm h.1, ih h.2⟩

/-- A text without escapes may be put before another one: no backslash at its end is waiting
for a character. -/
theorem NoEscape.append {s t : List Char} (hs : NoEscape s) (ht : NoEscape t) :
    NoEscape (s ++ t) := by
  induction s with
  | nil => exact ht
  | cons c s ih =>
      refine ⟨fun hc => ?_, ih hs.2⟩
      obtain ⟨d, hd, hmem⟩ := hs.1 hc
      exact ⟨d, by rw [List.append_eq, List.head?_append, hd]; rfl, hmem⟩

/-- What is at the end of such a text is one. -/
theorem NoEscape.of_append_right {s t : List Char} (h : NoEscape (s ++ t)) : NoEscape t := by
  induction s with
  | nil => exact h
  | cons c s ih => exact ih h.2

/-- Before a character that a backslash would form an escape with, a text is free of
escapes once the whole is. -/
theorem NoEscape.of_append_left {s t : List Char} {d : Char} (h : NoEscape (s ++ d :: t))
    (hd : d ∈ escapeLetters) : NoEscape s := by
  induction s with
  | nil => trivial
  | cons c s ih =>
      refine ⟨fun hc => ?_, ih h.2⟩
      obtain ⟨e, he, hmem⟩ := h.1 hc
      rcases s with _ | ⟨f, s⟩
      · cases he
        exact absurd hd hmem
      · exact ⟨e, he, hmem⟩

/-- A text without escapes does not end in a backslash, as that would be waiting for a character.
-/
theorem NoEscape.getLast?_ne {s : List Char} (h : NoEscape s) : s.getLast? ≠ some '\\' := by
  induction s with
  | nil => simp
  | cons c s ih =>
      rcases s with _ | ⟨d, s⟩
      · intro hc
        cases hc
        obtain ⟨d, hd, -⟩ := h.1 rfl
        cases hd
      · rw [List.getLast?_cons_cons]
        exact ih h.2

/-! ## A value as long as the body has no escape -/

/-- All octal digits are among the letters. -/
theorem mem_escapeLetters_of_octalDigit {c : Char} (h : (octalDigit c).isSome) :
    c ∈ escapeLetters := by
  rw [octalDigit] at h
  split at h
  · rename_i hc
    obtain ⟨h1, h2⟩ := hc
    have hlo : 48 ≤ c.toNat := h1
    have hhi : c.toNat ≤ 55 := h2
    have hchar : ∀ n, c.toNat = n → c = Char.ofNat n := by
      intro n hn
      rw [← hn, Char.ofNat_toNat]
    have hn : c.toNat = 48 ∨ c.toNat = 49 ∨ c.toNat = 50 ∨ c.toNat = 51 ∨ c.toNat = 52 ∨
        c.toNat = 53 ∨ c.toNat = 54 ∨ c.toNat = 55 := by omega
    rcases hn with hn | hn | hn | hn | hn | hn | hn | hn <;> rw [hchar _ hn] <;> decide
  · cases h

theorem simpleEscape_of_not_mem {c : Char} (h : c ∉ escapeLetters) : simpleEscape c = none := by
  simp only [escapeLetters, List.mem_cons, List.not_mem_nil, or_false, not_or] at h
  rw [simpleEscape, List.lookup_eq_none_iff]
  simp [h]

/-- An escape of one character stands for one at most, and its letter is among the letters. -/
theorem simpleEscape_spec {c : Char} {v : Str} (h : simpleEscape c = some v) :
    v.length ≤ 1 ∧ c ∈ escapeLetters := by
  have hc : c ∈ escapeLetters := by
    by_contra hc
    rw [simpleEscape_of_not_mem hc] at h
    cases h
  refine ⟨?_, hc⟩
  have hall : ∀ p ∈ ([('\n', []), ('\\', [0x5c]), ('\'', [0x27]), ('"', [0x22]), ('a', [0x07]),
      ('b', [0x08]), ('f', [0x0c]), ('n', [0x0a]), ('r', [0x0d]), ('t', [0x09]),
      ('v', [0x0b])] : List (Char × Str)), p.2.length ≤ 1 := by decide
  rw [simpleEscape, List.lookup_eq_some_iff] at h
  obtain ⟨l₁, l₂, hl, -⟩ := h
  exact hall (c, v) (by rw [hl]; simp)

/-- Before any other character the backslash stays, and the character is read by itself. -/
theorem readEscape_of_not_mem {names : List Char → Option ℕ} {d : Char} {s : List Char}
    (h : d ∉ escapeLetters) : readEscape names (d :: s) = some (0, [0x5c]) := by
  have hoct : ¬ (octalDigit d).isSome := fun ho => h (mem_escapeLetters_of_octalDigit ho)
  have hx : d ≠ 'x' := fun hd => h (by rw [hd]; decide)
  have hu : d ≠ 'u' := fun hd => h (by rw [hd]; decide)
  have hU : d ≠ 'U' := fun hd => h (by rw [hd]; decide)
  have hN : d ≠ 'N' := fun hd => h (by rw [hd]; decide)
  rw [readEscape, simpleEscape_of_not_mem h]
  dsimp only
  rw [if_neg hoct, if_neg hx, if_neg hu, if_neg hU, if_neg hN]

/-- An escape is the bare backslash before a character that forms none, or takes at
least as many characters as it stands for, the backslash not counted. -/
theorem readEscape_spec {names : List Char → Option ℕ} {s : List Char} {n : ℕ} {v : Str}
    (h : readEscape names s = some (n, v)) :
    (n = 0 ∧ v = [0x5c] ∧ ∀ d, s.head? = some d → d ∉ escapeLetters) ∨
      (1 ≤ n ∧ n ≤ s.length ∧ v.length ≤ n) := by
  -- the three hexadecimal escapes differ in the number of their digits
  have hhex : ∀ {k : ℕ} {t : List Char}, hexEscape k t = some (n, v) →
      1 ≤ n ∧ n ≤ t.length + 1 ∧ v.length ≤ n := by
    intro k t ht
    rw [hexEscape] at ht
    split at ht
    · rename_i hds
      cases ht
      have hle := length_digits_le hexDigit k t
      exact ⟨by omega, by omega, by simp⟩
    · cases ht
  rcases s with _ | ⟨c, s⟩
  · cases h
    exact Or.inl ⟨rfl, rfl, fun d hd => by cases hd⟩
  · by_cases hc : c ∈ escapeLetters
    · refine Or.inr ?_
      rw [readEscape] at h
      split at h
      · rename_i w hw
        cases h
        exact ⟨Nat.le_refl _, by simp, (simpleEscape_spec hw).1⟩
      · split at h
        · rename_i hoct
          cases h
          obtain ⟨d, hd⟩ := Option.isSome_iff_exists.mp hoct
          have hle := length_digits_le octalDigit 2 s
          simp only [digits, hd, List.length_cons, List.length_nil]
          omega
        · split at h
          · exact hhex h
          · split at h
            · exact hhex h
            · split at h
              · exact hhex h
              · split at h
                · unfold namedEscape at h
                  split at h
                  · rename_i t
                    dsimp only at h
                    split at h
                    · rename_i hlt
                      rw [Option.map_eq_some_iff] at h
                      obtain ⟨w, -, hw⟩ := h
                      cases hw
                      simp only [List.length_cons, List.length_nil] at hlt ⊢
                      omega
                    · cases h
                  · cases h
                · -- a letter of the list is one of the cases above
                  rename_i h1 h2 h3 h4 h5 h6
                  exfalso
                  simp only [escapeLetters, List.mem_cons, List.not_mem_nil, or_false] at hc
                  rcases hc with rfl | rfl | rfl | rfl | rfl | rfl | rfl | rfl | rfl | rfl | rfl |
                    rfl | rfl | rfl | rfl | rfl | rfl | rfl | rfl | rfl | rfl | rfl | rfl <;>
                    revert h1 h2 h3 h4 h5 h6 <;> decide
    · rw [readEscape_of_not_mem hc] at h
      cases h
      refine Or.inl ⟨rfl, rfl, fun d hd => ?_⟩
      cases hd
      exact hc

/-- Skipping is dropping, as for the other scans. -/
theorem unescape_skip (names : List Char → Option ℕ) (k : ℕ) (s : List Char) :
    unescape names k s = unescape names 0 (s.drop k) := by
  induction k generalizing s with
  | zero => rfl
  | succ k ih =>
      rcases s with _ | ⟨c, s⟩
      · rfl
      · rw [unescape, ih, List.drop_succ_cons]

/-- Without an escape the value is the text. A backslash that stays is a character of it. -/
theorem unescape_of_noEscape {names : List Char → Option ℕ} {s : List Char} (h : NoEscape s) :
    unescape names 0 s = some (codes s) := by
  induction s with
  | nil => rfl
  | cons c s ih =>
      rw [unescape]
      by_cases hc : c = '\\'
      · obtain ⟨d, hd, hmem⟩ := h.1 hc
        rcases s with _ | ⟨e, s⟩
        · cases hd
        · cases hd
          rw [if_pos hc, readEscape_of_not_mem hmem]
          dsimp only
          rw [ih h.2, hc]
          rfl
      · rw [if_neg hc, ih h.2]
        rfl

/-- A value is never longer than its body, and when it is as long, no escape was
recognised in the body. The induction is on the length, because an escape
takes several characters at once. -/
theorem length_unescape {names : List Char → Option ℕ} {s : List Char} {v : Str}
    (h : unescape names 0 s = some v) :
    v.length ≤ s.length ∧
      (v.length = s.length → s.getLast? ≠ some '\\' → NoEscape s) := by
  induction hn : s.length using Nat.strongRecOn generalizing s v with
  | ind n ih =>
      rcases s with _ | ⟨c, s⟩
      · cases h
        exact ⟨Nat.zero_le _, fun _ _ => trivial⟩
      · have hlen : s.length + 1 = n := hn
        rw [unescape] at h
        split at h
        · rename_i hc
          cases hr : readEscape names s with
          | none => rw [hr] at h; cases h
          | some x =>
              obtain ⟨k, w⟩ := x
              rw [hr] at h
              dsimp only at h
              rw [Option.map_eq_some_iff, unescape_skip] at h
              obtain ⟨u, hu, rfl⟩ := h
              have hdrop : (s.drop k).length = s.length - k := List.length_drop
              obtain ⟨hle, heq⟩ := ih (s.drop k).length (by omega) hu rfl
              rw [List.length_append]
              -- a backslash that stays, whose letter is then read by itself, or an escape, which
              -- is shorter than what it takes
              rcases readEscape_spec hr with ⟨rfl, rfl, hd⟩ | ⟨h1, h2, h3⟩
              · rw [List.drop_zero] at hle heq
                refine ⟨by simp only [List.length_cons, List.length_nil]; omega, ?_⟩
                intro hv hlast
                simp only [List.length_cons, List.length_nil] at hv
                rcases s with _ | ⟨d, s⟩
                · exact absurd (by rw [hc]; rfl) hlast
                · refine ⟨fun _ => ⟨d, rfl, hd d rfl⟩, heq (by omega) ?_⟩
                  rwa [List.getLast?_cons_cons] at hlast
              · exact ⟨by omega, fun hv => by omega⟩
        · rename_i hc
          rw [Option.map_eq_some_iff] at h
          obtain ⟨u, hu, rfl⟩ := h
          obtain ⟨hle, heq⟩ := ih s.length (by omega) hu rfl
          rw [List.length_cons]
          refine ⟨by omega, fun hv hlast => ⟨fun hcb => absurd hcb hc, heq (by omega) ?_⟩⟩
          rcases s with _ | ⟨d, s⟩
          · simp
          · rwa [List.getLast?_cons_cons] at hlast

end Python
