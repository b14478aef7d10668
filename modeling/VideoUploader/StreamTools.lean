/-
The line tools a shell pipeline is made of: `sed`, `grep -o`, `awk`, word
splitting and command substitution.

All of them are stated over texts, that is lists of letters with the newline as
one of the letters, because that is what a pipe carries. `sed` and `grep` work
line by line; `List.splitOn` at the newline is exactly their reading of a
text, since a text that ends with a newline has one empty last piece and both
tools do nothing on an empty piece. The matches themselves are
`Regex.longest`, tried from left to right.
-/
import Mathlib.Data.List.DropRight
import VideoUploader.Regex

set_option autoImplicit false

namespace Posix

variable {α : Type*}

/-! ## Leftmost-longest search along a line -/

/-- The matches `grep -o` prints for one line: leftmost first, longest at each place, never
overlapping and never empty. The counter is how many letters of the last match are still to be
skipped, so that the recursion is on the line. -/
def occurrences (r : Regex α) : ℕ → List α → List (List α)
  | _, [] => []
  | k + 1, _ :: s => occurrences r k s
  | 0, c :: s =>
      match r.longest (c :: s) with
      | some (d :: m, _) => (d :: m) :: occurrences r m.length s
      | _ => occurrences r 0 s

/-- `s/r/rep/g` on one line, for an expression that does not match the empty word. The counter is
as in `occurrences`: the replacement is not searched again, and neither is what it replaces. -/
def substAll (r : Regex α) (rep : List α) : ℕ → List α → List α
  | _, [] => []
  | k + 1, _ :: s => substAll r rep k s
  | 0, c :: s =>
      match r.longest (c :: s) with
      | some (_ :: m, _) => rep ++ substAll r rep m.length s
      | _ => c :: substAll r rep 0 s

/-- Skipping letters is dropping them. The counter is there for the recursion only, and no
statement below has another one than zero. -/
theorem occurrences_skip (r : Regex α) (k : ℕ) (s : List α) :
    occurrences r k s = occurrences r 0 (s.drop k) := by
  induction k generalizing s with
  | zero => rfl
  | succ k ih =>
      cases s with
      | nil => rfl
      | cons c s => rw [occurrences, ih, List.drop_succ_cons]

theorem substAll_skip (r : Regex α) (rep : List α) (k : ℕ) (s : List α) :
    substAll r rep k s = substAll r rep 0 (s.drop k) := by
  induction k generalizing s with
  | zero => rfl
  | succ k ih =>
      cases s with
      | nil => rfl
      | cons c s => rw [substAll, ih, List.drop_succ_cons]

/-- Where a nonempty longest match begins, it is taken whole and the search goes on behind it.
With the next lemma but one this is all that is used of the search. -/
theorem occurrences_of_longest {r : Regex α} {s m rest : List α}
    (h : r.longest s = some (m, rest)) (hm : m ≠ []) :
    occurrences r 0 s = m :: occurrences r 0 rest := by
  obtain ⟨c, m, rfl⟩ := List.exists_cons_of_ne_nil hm
  obtain ⟨rfl, -, -⟩ := Regex.longest_spec h
  rw [List.cons_append, occurrences, ← List.cons_append, h]
  dsimp only
  rw [occurrences_skip, List.drop_left]

theorem substAll_of_longest {r : Regex α} {rep s m rest : List α}
    (h : r.longest s = some (m, rest)) (hm : m ≠ []) :
    substAll r rep 0 s = rep ++ substAll r rep 0 rest := by
  obtain ⟨c, m, rfl⟩ := List.exists_cons_of_ne_nil hm
  obtain ⟨rfl, -, -⟩ := Regex.longest_spec h
  rw [List.cons_append, substAll, ← List.cons_append, h]
  dsimp only
  rw [substAll_skip, List.drop_left]

/-- Nothing comes into a line but what is put there. In particular no newline, so that lines stay
lines. -/
theorem mem_of_mem_substAll {r : Regex α} {rep s : List α} {k : ℕ} {c : α}
    (h : c ∈ substAll r rep k s) : c ∈ rep ∨ c ∈ s := by
  induction s generalizing k with
  | nil => cases k <;> cases h
  | cons d s ih =>
      cases k with
      | succ k => exact (ih h).imp_right (List.mem_cons_of_mem d)
      | zero =>
          rw [substAll] at h
          split at h
          · rcases List.mem_append.mp h with h | h
            · exact Or.inl h
            · exact (ih h).imp_right (List.mem_cons_of_mem d)
          · rcases List.mem_cons.mp h with rfl | h
            · exact Or.inr List.mem_cons_self
            · exact (ih h).imp_right (List.mem_cons_of_mem d)

/-- Where no nonempty match begins, the search moves one letter on. -/
theorem occurrences_of_no_match {r : Regex α} {c : α} {s : List α}
    (h : ∀ m rest, c :: s = m ++ rest → m ∈ r.lang → m = []) :
    occurrences r 0 (c :: s) = occurrences r 0 s := by
  rw [occurrences]
  cases hl : r.longest (c :: s) with
  | none => rfl
  | some x =>
      obtain ⟨m, rest⟩ := x
      obtain ⟨hs, hm, -⟩ := Regex.longest_spec hl
      rw [h m rest hs hm]

theorem substAll_of_no_match {r : Regex α} {rep : List α} {c : α} {s : List α}
    (h : ∀ m rest, c :: s = m ++ rest → m ∈ r.lang → m = []) :
    substAll r rep 0 (c :: s) = c :: substAll r rep 0 s := by
  rw [substAll]
  cases hl : r.longest (c :: s) with
  | none => rfl
  | some x =>
      obtain ⟨m, rest⟩ := x
      obtain ⟨hs, hm, -⟩ := Regex.longest_spec hl
      rw [h m rest hs hm]

/-- Everything `grep -o` prints is a match. The induction is on the length, because a match is
skipped at once. -/
theorem mem_lang_of_mem_occurrences {r : Regex α} {s m : List α}
    (h : m ∈ occurrences r 0 s) : m ∈ r.lang := by
  induction hn : s.length using Nat.strong_induction_on generalizing s with
  | _ n ih =>
      cases s with
      | nil => cases h
      | cons c s =>
          cases hl : r.longest (c :: s) with
          | none =>
              rw [occurrences, hl] at h
              exact ih s.length (by rw [← hn, List.length_cons]; omega) h rfl
          | some x =>
              obtain ⟨w, rest⟩ := x
              obtain ⟨hs, hw, -⟩ := Regex.longest_spec hl
              -- an empty longest match counts as none: the search moves on by one letter
              cases w with
              | nil =>
                  rw [occurrences, hl] at h
                  exact ih s.length (by rw [← hn, List.length_cons]; omega) h rfl
              | cons d w =>
                  rw [occurrences_of_longest hl (by simp)] at h
                  rcases List.mem_cons.mp h with rfl | h
                  · exact hw
                  · refine ih rest.length ?_ h rfl
                    rw [← hn, hs, List.length_append, List.length_cons]
                    omega

/-- An expression whose every match begins with the letter `a`. That holds of the expressions for
tags, and of those for escapes. -/
def Begins (r : Regex α) (a : α) : Prop := ∀ m ∈ r.lang, m.head? = some a

theorem Begins.not_mem_lang {r : Regex α} {a c : α} (h : Begins r a) (hc : c ≠ a)
    {m s rest : List α} (hs : c :: s = m ++ rest) : m ∉ r.lang := by
  intro hm
  have hhead := h m hm
  cases m with
  | nil => cases hhead
  | cons d m =>
      injection hs with hcd _
      exact hc (hcd.trans (Option.some.inj hhead))

/-- A line without the first letter of every match has no match, so that lines of text need not
be looked at. -/
theorem Begins.occurrences_eq_nil {r : Regex α} {a : α} (h : Begins r a) {s : List α}
    (hs : a ∉ s) : occurrences r 0 s = [] := by
  induction s with
  | nil => rfl
  | cons c s ih =>
      rw [List.mem_cons, not_or] at hs
      rw [occurrences_of_no_match fun m rest hm hmem =>
        absurd hmem (h.not_mem_lang (fun hca => hs.1 hca.symm) hm)]
      exact ih hs.2

theorem Begins.substAll_eq_self {r : Regex α} {a : α} (h : Begins r a) {rep s : List α}
    (hs : a ∉ s) : substAll r rep 0 s = s := by
  induction s with
  | nil => rfl
  | cons c s ih =>
      rw [List.mem_cons, not_or] at hs
      rw [substAll_of_no_match fun m rest hm hmem =>
        absurd hmem (h.not_mem_lang (fun hca => hs.1 hca.symm) hm), ih hs.2]

/-- Replacing a character class acts letter by letter. Edits of this kind commute with everything
that works on pieces of a text. -/
theorem substAll_sat (p : α → Bool) (rep s : List α) :
    substAll (Regex.sat p) rep 0 s = s.flatMap fun c => if p c then rep else [c] := by
  induction s with
  | nil => rfl
  | cons c s ih =>
      rw [List.flatMap_cons, ← ih]
      by_cases hc : p c = true
      · have hl : (Regex.sat p).longest (c :: s) = some ([c], s) := by
          refine Regex.longest_eq_some rfl (Regex.mem_lang_sat.mpr ⟨c, hc, rfl⟩) ?_
          intro m rest _ hm
          obtain ⟨d, _, rfl⟩ := Regex.mem_lang_sat.mp hm
          exact Nat.le_refl _
        rw [substAll_of_longest hl (by simp), if_pos hc]
      · rw [if_neg hc]
        refine substAll_of_no_match fun m rest hs hm => ?_
        obtain ⟨d, hd, rfl⟩ := Regex.mem_lang_sat.mp hm
        injection hs with hcd _
        exact absurd (hcd ▸ hd) hc

/-! ## Line by line -/

variable [DecidableEq α]

/-- `sed` with the editing command `f`, which is given one line without its newline. A newline
that is missing at the end of the text stays missing. -/
def sed (nl : α) (f : List α → List α) (s : List α) : List α :=
  [nl].intercalate ((s.splitOn nl).map f)

/-- `grep -o`: every match of every line, each on a line of its own. -/
def grepOnly (nl : α) (r : Regex α) (s : List α) : List α :=
  (s.splitOn nl).flatMap fun l => (occurrences r 0 l).flatMap fun m => m ++ [nl]

/-- The lines that `grep` prints matches of. A text with a NUL in it is binary, and nothing
more is printed of it from where that is noticed: of the lines in front of the first NUL, the
first `early` have been dealt with by then. -/
def linesAsText (nul : α) (early : ℕ) (ls : List (List α)) : List (List α) :=
  if ls.all fun l => !l.contains nul then ls else (ls.takeWhile fun l => !l.contains nul).take early

/-- `grep -o` as it is run by default, where binary text is not printed. -/
def grepOnlyText (nul nl : α) (early : ℕ) (r : Regex α) (s : List α) : List α :=
  (linesAsText nul early (s.splitOn nl)).flatMap fun l => (occurrences r 0 l).flatMap fun m => m ++ [nl]

/-- The letters of a line are letters of the text it is a line of. -/
theorem mem_of_mem_splitOn {nl c : α} {s l : List α} (hl : l ∈ s.splitOn nl) (hc : c ∈ l) :
    c ∈ s := by
  induction s generalizing l with
  | nil =>
      rw [List.splitOn_nil, List.mem_singleton] at hl
      rw [hl] at hc
      cases hc
  | cons d s ih =>
      rw [List.splitOn_cons_eq_if_modifyHead] at hl
      split at hl
      · rcases List.mem_cons.mp hl with rfl | hl
        · cases hc
        · exact List.mem_cons_of_mem d (ih hl hc)
      · -- no newline: the letter goes to the front of the first line
        obtain ⟨q, qs, hq⟩ := List.exists_cons_of_ne_nil (List.splitOn_ne_nil nl s)
        rw [hq] at hl ih
        rcases List.mem_cons.mp hl with rfl | hl
        · rcases List.mem_cons.mp hc with rfl | hc
          · exact List.mem_cons_self
          · exact List.mem_cons_of_mem d (ih List.mem_cons_self hc)
        · exact List.mem_cons_of_mem d (ih (List.mem_cons_of_mem q hl) hc)

/-- Whatever `grep` notices, and when, it prints matches of the first lines only, and leaves none
of these out. -/
theorem linesAsText_isPrefix {nul : α} {early : ℕ} (ls : List (List α)) :
    linesAsText nul early ls <+: ls := by
  rw [linesAsText]
  split
  · exact List.prefix_refl ls
  · exact (List.take_prefix early _).trans (List.takeWhile_prefix _)

/-- A text without NUL is text from beginning to end. -/
theorem linesAsText_of_not_mem {nul : α} {early : ℕ} {ls : List (List α)}
    (h : ∀ l ∈ ls, nul ∉ l) : linesAsText nul early ls = ls := by
  rw [linesAsText, if_pos]
  rw [List.all_eq_true]
  intro l hl
  simpa using h l hl

omit [DecidableEq α] in
/-- Of the first lines, those of a kind are the first lines of that kind. How many of them there
are is no matter for those who only ask for some number. -/
theorem filter_of_isPrefix {p : α → Bool} {l₁ l : List α} (h : l₁ <+: l) :
    l₁.filter p = (l.filter p).take (l₁.countP p) := by
  obtain ⟨l₂, rfl⟩ := h
  rw [List.filter_append, List.countP_eq_length_filter, List.take_left]

omit [DecidableEq α] in
/-- What is made of lines is made of those that anything is made of. -/
theorem flatMap_filter_of_nil {β : Type*} {p : α → Bool} {f : α → List β}
    (h : ∀ a, p a = false → f a = []) (l : List α) : l.flatMap f = (l.filter p).flatMap f := by
  induction l with
  | nil => rfl
  | cons a l ih =>
      rw [List.flatMap_cons, List.filter_cons, ih]
      cases hp : p a with
      | true => rw [if_pos rfl, List.flatMap_cons]
      | false => rw [if_neg Bool.false_ne_true, h a hp, List.nil_append]

omit [DecidableEq α] in
private theorem flatMap_intercalate (g : α → List α) (nl : α) (ls : List (List α)) :
    ([nl].intercalate ls).flatMap g = (g nl).intercalate (ls.map fun l => l.flatMap g) := by
  induction ls with
  | nil => rfl
  | cons l ls ih =>
      cases ls with
      | nil => simp [List.intercalate]
      | cons l' ls =>
          rw [List.map_cons] at ih
          rw [List.intercalate_cons_cons, List.map_cons, List.map_cons,
            List.intercalate_cons_cons, List.flatMap_append, List.flatMap_append, ih]
          simp

/-- The lines of a text, the last one also when it has no newline. Between the last newline and
the end there may be nothing, which is no line. -/
def textLines (nl : α) (s : List α) : List (List α) :=
  let ls := s.splitOn nl
  if ls.getLast? = some [] then ls.dropLast else ls

/-- `awk -F` with the separator `sep`, printing the first field of every line, which is the whole
line where there is no separator. -/
def awkFirst (nl sep : α) (s : List α) : List α :=
  (textLines nl s).flatMap fun l => (l.takeWhile fun c => decide (c ≠ sep)) ++ [nl]

/-- A text of one line has that line. -/
theorem textLines_line {nl : α} {s : List α} (h : nl ∉ s) : textLines nl (s ++ [nl]) = [s] := by
  have hsplit : (s ++ [nl]).splitOn nl = [s, []] := by
    rw [List.splitOn_append_cons_self, List.splitOn_eq_singleton h]
    rfl
  rw [textLines, hsplit]
  rfl

theorem awkFirst_line {nl sep : α} {s : List α} (h : nl ∉ s) :
    awkFirst nl sep (s ++ [nl]) = (s.takeWhile fun c => decide (c ≠ sep)) ++ [nl] := by
  rw [awkFirst, textLines_line h, List.flatMap_singleton]

/-- An edit that acts letter by letter, and leaves newlines alone, acts letter by letter on the
whole text. That the text was cut into lines for it cannot be seen. -/
theorem sed_flatMap {nl : α} {g : α → List α} (hnl : g nl = [nl]) (s : List α) :
    sed nl (fun l => l.flatMap g) s = s.flatMap g := by
  have hs : [nl].intercalate (s.splitOn nl) = s := List.intercalate_splitOn nl
  conv_rhs => rw [← hs]
  rw [flatMap_intercalate, hnl]
  rfl

/-- Lines that end with a newline are the pieces at the newlines, but for an empty one behind the
last of them. -/
theorem splitOn_flatMap_line {nl : α} {ls : List (List α)} (h : ∀ l ∈ ls, nl ∉ l) :
    (ls.flatMap fun l => l ++ [nl]).splitOn nl = ls ++ [[]] := by
  induction ls with
  | nil => rfl
  | cons l ls ih =>
      rw [List.flatMap_cons, List.append_assoc, List.singleton_append,
        List.splitOn_append_cons_self_of_not_mem (h l List.mem_cons_self),
        ih fun l' hl' => h l' (List.mem_cons_of_mem l hl')]
      rfl

/-- Of texts that are written line by line, each gives its own lines. A text with a newline in it
gives several. -/
theorem textLines_flatMap_line {nl : α} (ts : List (List α)) :
    textLines nl (ts.flatMap fun t => t ++ [nl]) = ts.flatMap fun t => t.splitOn nl := by
  have hsplit : (ts.flatMap fun t => t ++ [nl]).splitOn nl =
      (ts.flatMap fun t => t.splitOn nl) ++ [[]] := by
    -- the last piece is the empty one behind the last newline, and it is no line
    induction ts with
    | nil => rfl
    | cons t ts ih =>
        rw [List.flatMap_cons, List.flatMap_cons, List.append_assoc, List.singleton_append,
          List.splitOn_append_cons_self, ih, List.append_assoc]
  rw [textLines, hsplit]
  show (if _ then _ else _) = _
  rw [if_pos (List.getLast?_concat ..), List.dropLast_concat]

/-- An edit of a text that is made of lines edits them one by one. -/
theorem sed_flatMap_line {nl : α} {f : List α → List α} (hf : f [] = []) {ls : List (List α)}
    (h : ∀ l ∈ ls, nl ∉ l) :
    sed nl f (ls.flatMap fun l => l ++ [nl]) = ls.flatMap fun l => f l ++ [nl] := by
  rw [sed, splitOn_flatMap_line h]
  clear h
  induction ls with
  | nil => simp [hf, List.intercalate]
  | cons l ls ih =>
      obtain ⟨l', ls', hls⟩ := List.exists_cons_of_ne_nil
        (List.append_ne_nil_of_right_ne_nil ls (List.cons_ne_nil ([] : List α) []))
      rw [hls, List.map_cons] at ih
      rw [List.cons_append, hls, List.map_cons, List.map_cons, List.intercalate_cons_cons, ih,
        List.flatMap_cons]

/-! ## Both ends -/

section Trim

variable {p : α → Bool} {s : List α}

/-- A text without the letters of a class at its two ends. Inside it they stay. -/
def trim (p : α → Bool) (s : List α) : List α := (s.dropWhile p).rdropWhile p

omit [DecidableEq α] in
theorem mem_of_mem_trim {c : α} (h : c ∈ trim p s) : c ∈ s :=
  (List.dropWhile_sublist _).subset ((List.rdropWhile_prefix _ _).subset h)

omit [DecidableEq α] in
/-- The first letter of what is left, if anything is left, is none of the class. -/
theorem head?_trim : ∀ c ∈ (trim p s).head?, p c = false := by
  intro c hc
  -- what is left begins as the text does behind the letters in front
  obtain ⟨w, hw⟩ := List.rdropWhile_prefix p (s.dropWhile p)
  have hfront := List.head?_dropWhile_not p s
  have hne : trim p s ≠ [] := by
    intro hnil
    rw [hnil] at hc
    cases hc
  rw [← hw] at hfront
  change match (trim p s ++ w).head? with | some x => p x = false | none => True at hfront
  rw [List.head?_append_of_ne_nil _ hne, Option.mem_def.mp hc] at hfront
  exact hfront

omit [DecidableEq α] in
/-- Nor is the last one. -/
theorem getLast?_trim : ∀ c ∈ (trim p s).getLast?, p c = false := by
  intro c hc
  obtain ⟨hne, hlast⟩ := List.mem_getLast?_eq_getLast hc
  have hnot := List.rdropWhile_last_not p (s.dropWhile p) hne
  rw [hlast]
  exact Bool.eq_false_iff.mpr hnot

end Trim

/-! ## Command substitution and word splitting -/

/-- `$(…)`: the shell drops NUL bytes, then every newline at the end. It cannot keep a NUL,
because its values end at one. -/
def commandSubst (nul nl : α) (s : List α) : List α :=
  (s.filter fun c => decide (c ≠ nul)).rdropWhile fun c => decide (c = nl)

omit [DecidableEq α] in
/-- In a text of one line only the NUL bytes are lost. -/
theorem commandSubst_of_not_mem [DecidableEq α] {nul nl : α} {s : List α} (h : nl ∉ s) :
    commandSubst nul nl s = s.filter fun c => decide (c ≠ nul) := by
  rw [commandSubst, List.rdropWhile_eq_self_iff]
  intro hne hlast
  rw [decide_eq_true_eq] at hlast
  exact h (hlast ▸ List.mem_of_mem_filter (List.getLast_mem hne))

omit [DecidableEq α] in
theorem commandSubst_append_newline [DecidableEq α] {nul nl : α} (h : nl ≠ nul) (s : List α) :
    commandSubst nul nl (s ++ [nl]) = commandSubst nul nl s := by
  have hnl : ([nl] : List α).filter (fun c => decide (c ≠ nul)) = [nl] := by simp [h]
  rw [commandSubst, List.filter_append, hnl, List.rdropWhile_concat_pos _ _ _ (by simp)]
  rfl

/-- The words an unquoted expansion is split into, for separators that are all white space: the
maximal runs without a separator. Empty ones do not arise from separators of this kind. -/
def words (blank : α → Bool) (s : List α) : List (List α) :=
  (s.splitOnP blank).filter fun w => decide (w ≠ [])

omit [DecidableEq α] in
/-- A nonempty run of other letters before a separator is the first word. -/
theorem words_append_cons [DecidableEq α] {blank : α → Bool} {w rest : List α} {b : α}
    (hw : ∀ c ∈ w, blank c = false) (hne : w ≠ []) (hb : blank b = true) :
    words blank (w ++ b :: rest) = w :: words blank rest := by
  rw [words, List.splitOnP_append_cons_of_forall_mem hw b hb, List.filter_cons,
    if_pos (by simpa using hne)]
  rfl

omit [DecidableEq α] in
/-- No word has a separator in it. The pieces themselves have none, and the words are some of
these. -/
theorem not_blank_of_mem_words {blank : α → Bool} {s w : List α} (h : w ∈ words blank s) :
    ∀ c ∈ w, blank c = false := by
  have hpieces : ∀ p ∈ s.splitOnP blank, ∀ c ∈ p, blank c = false := by
    clear h
    induction s with
    | nil => simp
    | cons a s ih =>
        rw [List.splitOnP_cons_eq_if_modifyHead]
        split
        · intro p hp c hc
          rcases List.mem_cons.mp hp with rfl | hp
          · cases hc
          · exact ih p hp c hc
        · -- a letter that is no separator goes to the front of the first piece
          rename_i ha
          intro p hp c hc
          obtain ⟨q, ps, hq⟩ := List.exists_cons_of_ne_nil (List.splitOnP_ne_nil blank s)
          rw [hq] at hp ih
          rcases List.mem_cons.mp hp with rfl | hp
          · rcases List.mem_cons.mp hc with rfl | hc
            · exact Bool.not_eq_true _ ▸ ha
            · exact ih q List.mem_cons_self c hc
          · exact ih p (List.mem_cons_of_mem q hp) c hc
  exact hpieces w (List.mem_of_mem_filter h)

omit [DecidableEq α] in
/-- A separator between two texts separates their words, so that words can be counted part by
part. -/
theorem words_append {blank : α → Bool} {b : α} (hb : blank b = true) (s t : List α) :
    words blank (s ++ b :: t) = words blank s ++ words blank t := by
  rw [words, List.splitOnP_append_cons s t hb, List.filter_append]
  rfl

omit [DecidableEq α] in
/-- The words of a text are those of its lines. -/
theorem words_flatMap_line {blank : α → Bool} {nl : α} (hnl : blank nl = true)
    (ls : List (List α)) :
    words blank (ls.flatMap fun l => l ++ [nl]) = ls.flatMap (words blank) := by
  induction ls with
  | nil => rfl
  | cons l ls ih =>
      rw [List.flatMap_cons, List.flatMap_cons, List.append_assoc, List.singleton_append,
        words_append hnl, ih]

/-- The newlines a command substitution drops are no part of any word, and they separate nothing.
-/
theorem words_commandSubst {blank : α → Bool} {nul nl : α} (hnl : blank nl = true) (s : List α) :
    words blank (commandSubst nul nl s) = words blank (s.filter fun c => decide (c ≠ nul)) := by
  rw [commandSubst]
  -- from the end of the text, where the newlines are dropped one by one
  induction s.filter fun c => decide (c ≠ nul) using List.reverseRecOn with
  | nil => rfl
  | append_singleton s c ih =>
      by_cases hc : c = nl
      · rw [List.rdropWhile_concat_pos _ _ _ (by simpa using hc), ih, hc, words_append hnl]
        exact (List.append_nil _).symm
      · rw [List.rdropWhile_concat_neg _ _ _ (by simpa using hc)]

end Posix
