/-
How `xargs` reads its input.

`xargs` has a small language of its own: blanks and newlines separate arguments,
either kind of quote takes everything up to its partner, and a backslash takes the
next character, a newline too. It is a machine that reads one character at a time, so
that what is read of a text splits where the machine is between two arguments. A
quote left open at the end of its line is an error, and nothing is read after it.
-/
import Mathlib.Data.List.Basic
import Mathlib.Tactic.SplitIfs

set_option autoImplicit false

namespace Posix

/-! ## The machine -/

/-- Where `xargs` stands in its input, and the part of an argument that it has read. -/
inductive ArgState where
  | gap
  | arg (acc : List Char)
  | quoted (q : Char) (acc : List Char)
  | escaped (acc : List Char)
  | failed
  deriving DecidableEq

/-- The white space that is passed over between arguments. Within an argument only three of these
characters end it. -/
def isGapSpace (c : Char) : Bool :=
  decide (c = ' ' ∨ c = '\t' ∨ c = '\n' ∨ c = '\r' ∨ c = '\x0c' ∨ c = '\x0b')

/-- One character: the next state, and the argument that ends with it, if one does. An argument
that does not fit into a command line is an error, of which no character is used. -/
def xargsStep (fits : List Char → Bool) : ArgState → Char → ArgState × List (List Char)
  | .gap, c =>
      if isGapSpace c then (.gap, [])
      else if c = '\\' then (.escaped [], [])
      else if c = '\'' ∨ c = '"' then (.quoted c [], [])
      else (.arg [c], [])
  | .arg acc, c =>
      if c = ' ' ∨ c = '\t' ∨ c = '\n' then if fits acc then (.gap, [acc]) else (.failed, [])
      else if c = '\\' then (.escaped acc, [])
      else if c = '\'' ∨ c = '"' then (.quoted c acc, [])
      else (.arg (acc ++ [c]), [])
  | .quoted q acc, c =>
      if c = '\n' then (.failed, [])
      else if c = q then (.arg acc, [])
      else (.quoted q (acc ++ [c]), [])
  | .escaped acc, c => (.arg (acc ++ [c]), [])
  | .failed, _ => (.failed, [])

/-- A text: the state behind it, and the arguments that end in it. The arguments are those of
complete lines, so they stay what they are whatever follows. -/
def xargsRun (fits : List Char → Bool) : ArgState → List Char → ArgState × List (List Char)
  | st, [] => (st, [])
  | st, c :: s =>
      ((xargsRun fits (xargsStep fits st c).1 s).1,
        (xargsStep fits st c).2 ++ (xargsRun fits (xargsStep fits st c).1 s).2)

/-- The argument that ends with the input, where no newline ends it. An empty one does not count
here, other than in front of a newline. -/
def ArgState.flush (fits : List Char → Bool) : ArgState → List (List Char)
  | .gap => []
  | .arg acc => if acc ≠ [] ∧ fits acc then [acc] else []
  | .quoted _ _ => []
  | .escaped acc => if acc ≠ [] ∧ fits acc then [acc] else []
  | .failed => []

/-- Whether the input ends with an error. A quote that nothing stands behind is not noticed. -/
def ArgState.fails (fits : List Char → Bool) : ArgState → Bool
  | .gap => false
  | .arg acc => decide (acc ≠ []) && !fits acc
  | .quoted _ acc => decide (acc ≠ [])
  | .escaped acc => decide (acc ≠ []) && !fits acc
  | .failed => true

/-- The arguments `xargs` reads. Those in front of an error are used. -/
def xargsArgs (fits : List Char → Bool) (s : List Char) : List (List Char) :=
  (xargsRun fits .gap s).2 ++ (xargsRun fits .gap s).1.flush fits

/-- The calls `xargs -n1 cmd` makes, as the lists of arguments appended to `cmd`: one call
an argument, and a single call without one when there is no argument and no error. -/
def xargsN1 (fits : List Char → Bool) (s : List Char) : List (List (List Char)) :=
  match xargsArgs fits s with
  | [] => if (xargsRun fits .gap s).1.fails fits then [] else [[]]
  | args => args.map fun a => [a]

variable {fits : List Char → Bool}

/-- What the calls are given, in order, is what was read. -/
theorem flatten_xargsN1 (s : List Char) : (xargsN1 fits s).flatten = xargsArgs fits s := by
  rw [xargsN1]
  split
  · rename_i h
    rw [h]
    split
    · rfl
    · rfl
  · exact List.flatMap_singleton' _

/-- Every call is given one argument or none. -/
theorem length_of_mem_xargsN1 {s : List Char} {call : List (List Char)}
    (h : call ∈ xargsN1 fits s) : call.length ≤ 1 := by
  rw [xargsN1] at h
  split at h
  · split at h
    · cases h
    · rw [List.mem_singleton.mp h]
      exact Nat.zero_le 1
  · obtain ⟨a, -, rfl⟩ := List.mem_map.mp h
    exact Nat.le_refl 1

/-! ## Reading on -/

/-- The machine forgets nothing but what its state keeps, so that a text may be read in two
parts. -/
theorem xargsRun_append (st : ArgState) (s t : List Char) :
    xargsRun fits st (s ++ t) =
      ((xargsRun fits (xargsRun fits st s).1 t).1,
        (xargsRun fits st s).2 ++ (xargsRun fits (xargsRun fits st s).1 t).2) := by
  induction s generalizing st with
  | nil => rfl
  | cons c s ih =>
      rw [List.cons_append, xargsRun, xargsRun, ih, List.append_assoc]

/-- Behind an error nothing is read. That is why one tag with an open quote takes all that follow
with it. -/
theorem xargsRun_failed (s : List Char) : xargsRun fits .failed s = (.failed, []) := by
  induction s with
  | nil => rfl
  | cons c s ih => rw [xargsRun, xargsStep, ih, List.nil_append]

/-- Where the machine is between two arguments, the rest is read by itself. -/
theorem xargsArgs_append_of_gap {s : List Char} {ws : List (List Char)}
    (h : xargsRun fits .gap s = (.gap, ws)) (t : List Char) :
    xargsArgs fits (s ++ t) = ws ++ xargsArgs fits t := by
  rw [xargsArgs, xargsRun_append, h, List.append_assoc]
  rfl

/-! ## Lines -/

/-- The arguments on a line by itself, or `none` if it leaves a quote or a backslash open or
has an argument that does not fit. -/
def xargsLine (fits : List Char → Bool) (l : List Char) : Option (List (List Char)) :=
  if (xargsRun fits .gap (l ++ ['\n'])).1 = .gap then some (xargsRun fits .gap (l ++ ['\n'])).2
  else none

/-- A line is read by itself when the machine is back between two arguments behind its newline.
-/
theorem xargsLine_eq_some_iff {l : List Char} {ws : List (List Char)} :
    xargsLine fits l = some ws ↔ xargsRun fits .gap (l ++ ['\n']) = (.gap, ws) := by
  rw [xargsLine, Prod.ext_iff]
  split
  · rename_i h
    simp [h]
  · rename_i h
    simp [h]

/-- A line that leaves nothing open is read by itself. -/
theorem xargsArgs_line {l : List Char} {ws : List (List Char)} (h : xargsLine fits l = some ws)
    (s : List Char) : xargsArgs fits (l ++ '\n' :: s) = ws ++ xargsArgs fits s := by
  rw [← xargsArgs_append_of_gap (xargsLine_eq_some_iff.mp h), List.append_assoc]
  rfl

/-! ## What a line says

The rules as a grammar: white space, one argument of plain characters, characters behind a
backslash and texts in quotes, and white space again. -/

/-- Characters without a meaning inside an argument. -/
def XargsPlain (c : Char) : Prop :=
  c ≠ ' ' ∧ c ≠ '\t' ∧ c ≠ '\n' ∧ c ≠ '\\' ∧ c ≠ '\'' ∧ c ≠ '"'

instance (c : Char) : Decidable (XargsPlain c) := by unfold XargsPlain; infer_instance

/-- The text that goes on within an argument, and what it adds to it. Behind the argument there
is nothing but white space, as a second argument is another matter. -/
inductive ArgRest : List Char → List Char → Prop
  | done : ArgRest [] []
  | blank {c s} : (c = ' ' ∨ c = '\t' ∨ c = '\n') → (∀ d ∈ s, isGapSpace d = true) →
      ArgRest (c :: s) []
  | plain {c s w} : XargsPlain c → ArgRest s w → ArgRest (c :: s) (c :: w)
  | escaped {c s w} : ArgRest s w → ArgRest ('\\' :: c :: s) (c :: w)
  | quoted {q v s w} : (q = '\'' ∨ q = '"') → q ∉ v → '\n' ∉ v → ArgRest s w →
      ArgRest (q :: (v ++ q :: s)) (v ++ w)

/-- A text that is one argument, and which: white space, and then the argument. There is no other
way to read it, as the lemmas below show constructor by constructor. -/
inductive ReadsAs : List Char → List Char → Prop
  | gap {c s w} : isGapSpace c = true → ReadsAs s w → ReadsAs (c :: s) w
  | arg {c s w} : isGapSpace c = false → ArgRest (c :: s) w → ReadsAs (c :: s) w

section Inversion

variable {c : Char} {s w : List Char}

/-- White space in front is passed over. -/
theorem readsAs_cons_of_gap (hc : isGapSpace c = true) : ReadsAs (c :: s) w ↔ ReadsAs s w := by
  constructor
  · intro h
    cases h with
    | gap _ h => exact h
    | arg hc' _ =>
        rw [hc] at hc'
        cases hc'
  · exact ReadsAs.gap hc

/-- Any other character begins the argument. -/
theorem readsAs_cons_of_not_gap (hc : isGapSpace c = false) :
    ReadsAs (c :: s) w ↔ ArgRest (c :: s) w := by
  constructor
  · intro h
    cases h with
    | gap hc' _ =>
        rw [hc] at hc'
        cases hc'
    | arg _ h => exact h
  · exact ReadsAs.arg hc

/-- A blank ends the argument. -/
theorem argRest_blank (hc : c = ' ' ∨ c = '\t' ∨ c = '\n') :
    ArgRest (c :: s) w ↔ w = [] ∧ ∀ d ∈ s, isGapSpace d = true := by
  constructor
  · intro h
    cases h with
    | blank _ hs => exact ⟨rfl, hs⟩
    | plain hp _ =>
        obtain ⟨h1, h2, h3, -⟩ := hp
        exact absurd hc (not_or.mpr ⟨h1, not_or.mpr ⟨h2, h3⟩⟩)
    | escaped _ => exact absurd hc (by decide)
    | quoted hq _ _ _ => rcases hq with rfl | rfl <;> exact absurd hc (by decide)
  · rintro ⟨rfl, hs⟩
    exact ArgRest.blank hc hs

/-- A backslash takes the next character, whatever it is. One that nothing follows is no text of
the grammar. -/
theorem argRest_backslash :
    ArgRest ('\\' :: s) w ↔ ∃ d s' w', s = d :: s' ∧ ArgRest s' w' ∧ w = d :: w' := by
  constructor
  · intro h
    cases h with
    | blank hc _ => exact absurd hc (by decide)
    | plain hp _ => exact absurd hp (by decide)
    | escaped h => exact ⟨_, _, _, rfl, h, rfl⟩
    | quoted hq _ _ _ => exact absurd hq (by decide)
  · rintro ⟨d, s', w', rfl, h, rfl⟩
    exact ArgRest.escaped h

/-- A quote takes what is up to its partner, which has to be on the same line. -/
theorem argRest_quote (hc : c = '\'' ∨ c = '"') :
    ArgRest (c :: s) w ↔
      ∃ v s' w', s = v ++ c :: s' ∧ c ∉ v ∧ '\n' ∉ v ∧ ArgRest s' w' ∧ w = v ++ w' := by
  constructor
  · intro h
    cases h with
    | blank hc' _ => rcases hc with rfl | rfl <;> exact absurd hc' (by decide)
    | plain hp _ => rcases hc with rfl | rfl <;> exact absurd hp (by decide)
    | escaped _ => exact absurd hc (by decide)
    | quoted _ hv hn h => exact ⟨_, _, _, rfl, hv, hn, h, rfl⟩
  · rintro ⟨v, s', w', rfl, hv, hn, h, rfl⟩
    exact ArgRest.quoted hc hv hn h

/-- A plain character is a character of the argument. -/
theorem argRest_plain (hc : XargsPlain c) :
    ArgRest (c :: s) w ↔ ∃ w', ArgRest s w' ∧ w = c :: w' := by
  obtain ⟨h1, h2, h3, h4, h5, h6⟩ := hc
  constructor
  · intro h
    cases h with
    | blank hc' _ => exact absurd hc' (not_or.mpr ⟨h1, not_or.mpr ⟨h2, h3⟩⟩)
    | plain _ h => exact ⟨_, h, rfl⟩
    | escaped _ => exact absurd rfl h4
    | quoted hq _ _ _ => exact absurd hq (not_or.mpr ⟨h5, h6⟩)
  · rintro ⟨w', h, rfl⟩
    exact ArgRest.plain ⟨h1, h2, h3, h4, h5, h6⟩ h

end Inversion

/-! ## The machine follows the grammar -/

/-- What the grammar says of the rest of a text in each state: that it completes the one argument
`w`. It is the relation that a step keeps, and the grammar is its case for the first state. -/
def ArgState.Reads : ArgState → List Char → List Char → Prop
  | .gap, s, w => ReadsAs s w
  | .arg acc, s, w => ∃ w', ArgRest s w' ∧ w = acc ++ w'
  | .quoted q acc, s, w => q ≠ '\n' ∧
      ∃ v s' w', s = v ++ q :: s' ∧ q ∉ v ∧ '\n' ∉ v ∧ ArgRest s' w' ∧ w = acc ++ (v ++ w')
  | .escaped acc, s, w => ∃ d s' w', s = d :: s' ∧ ArgRest s' w' ∧ w = acc ++ d :: w'
  | .failed, _, _ => False

theorem argRest_nil {w : List Char} : ArgRest [] w ↔ w = [] := by
  constructor
  · intro h
    cases h
    rfl
  · rintro rfl
    exact ArgRest.done

/-- **One character less of the text**, on both sides. The machine makes a step, and the grammar
loses the character in front. Only the blank behind an argument is another matter, as the
argument ends with it. -/
theorem reads_cons {st : ArgState} {c : Char} {s w : List Char}
    (hst : ∀ acc, st = .arg acc → ¬ (c = ' ' ∨ c = '\t' ∨ c = '\n')) :
    st.Reads (c :: s) w ↔ (xargsStep fits st c).1.Reads s w := by
  cases st with
  | gap =>
      rw [xargsStep]
      split_ifs with h1 h2 h3
      · exact readsAs_cons_of_gap h1
      · subst h2
        exact (readsAs_cons_of_not_gap (by decide)).trans argRest_backslash
      · -- a quote: the state wants to know that it is no newline
        refine (readsAs_cons_of_not_gap (Bool.not_eq_true _ ▸ h1)).trans ((argRest_quote h3).trans ?_)
        have hc : c ≠ '\n' := by
          rcases h3 with rfl | rfl
          · decide
          · decide
        exact (and_iff_right hc).symm
      · have hplain : XargsPlain c := by
          rw [not_or] at h3
          simp only [isGapSpace, decide_eq_true_eq, not_or] at h1
          exact ⟨h1.1, h1.2.1, h1.2.2.1, h2, h3.1, h3.2⟩
        exact (readsAs_cons_of_not_gap (Bool.not_eq_true _ ▸ h1)).trans (argRest_plain hplain)
  | arg acc =>
      -- the hypothesis takes out the blank, and the other three characters go on within the
      -- argument
      have hblank := hst acc rfl
      rw [xargsStep, if_neg hblank]
      split_ifs with h2 h3
      · subst h2
        simp only [ArgState.Reads, argRest_backslash]
        constructor
        · rintro ⟨_, ⟨d, s', w', rfl, h, rfl⟩, rfl⟩
          exact ⟨d, s', w', rfl, h, rfl⟩
        · rintro ⟨d, s', w', rfl, h, rfl⟩
          exact ⟨_, ⟨d, s', w', rfl, h, rfl⟩, rfl⟩
      · have hc : c ≠ '\n' := fun hc => hblank (Or.inr (Or.inr hc))
        simp only [ArgState.Reads, argRest_quote h3]
        constructor
        · rintro ⟨_, ⟨v, s', w', rfl, hv, hn, h, rfl⟩, rfl⟩
          exact ⟨hc, v, s', w', rfl, hv, hn, h, rfl⟩
        · rintro ⟨-, v, s', w', rfl, hv, hn, h, rfl⟩
          exact ⟨_, ⟨v, s', w', rfl, hv, hn, h, rfl⟩, rfl⟩
      · have hplain : XargsPlain c := by
          rw [not_or] at h3
          rw [not_or, not_or] at hblank
          exact ⟨hblank.1, hblank.2.1, hblank.2.2, h2, h3.1, h3.2⟩
        simp only [ArgState.Reads, argRest_plain hplain, List.append_assoc]
        constructor
        · rintro ⟨_, ⟨w', h, rfl⟩, rfl⟩
          exact ⟨w', h, rfl⟩
        · rintro ⟨w', h, rfl⟩
          exact ⟨_, ⟨w', h, rfl⟩, rfl⟩
  | quoted q acc =>
      rw [xargsStep]
      split_ifs with h1 h2
      · -- a newline is in no quotes
        subst h1
        refine ⟨?_, False.elim⟩
        rintro ⟨hq, v, s', w', hs, -, hn, -, -⟩
        rcases v with _ | ⟨d, v⟩
        · injection hs with hs _
          exact hq hs.symm
        · injection hs with hs _
          exact hn (hs ▸ List.mem_cons_self)
      · subst h2
        constructor
        · rintro ⟨-, v, s', w', hs, hv, -, h, rfl⟩
          rcases v with _ | ⟨d, v⟩
          · injection hs with _ hs
            exact ⟨w', hs ▸ h, rfl⟩
          · injection hs with hs _
            exact absurd (hs ▸ List.mem_cons_self) hv
        · rintro ⟨w', h, rfl⟩
          exact ⟨h1, [], s, w', rfl, List.not_mem_nil, List.not_mem_nil, h, rfl⟩
      · constructor
        · rintro ⟨hq, v, s', w', hs, hv, hn, h, rfl⟩
          rcases v with _ | ⟨d, v⟩
          · injection hs with hs _
            exact absurd hs h2
          · injection hs with hd hs
            subst hd
            rw [List.mem_cons, not_or] at hv hn
            exact ⟨hq, v, s', w', hs, hv.2, hn.2, h, by simp⟩
        · rintro ⟨hq, v, s', w', rfl, hv, hn, h, rfl⟩
          refine ⟨hq, c :: v, s', w', rfl, ?_, ?_, h, by simp⟩
          · rw [List.mem_cons, not_or]
            exact ⟨Ne.symm h2, hv⟩
          · rw [List.mem_cons, not_or]
            exact ⟨Ne.symm h1, hn⟩
  | escaped acc =>
      simp only [xargsStep, ArgState.Reads]
      constructor
      · rintro ⟨d, s', w', hs, h, rfl⟩
        injection hs with hd hs
        subst hd hs
        exact ⟨w', h, by simp⟩
      · rintro ⟨w', h, rfl⟩
        exact ⟨c, s, w', rfl, h, by simp⟩
  | failed => exact Iff.rfl

/-- A step ends in the gap, with nothing read, only within the gap. -/
theorem xargsStep_eq_gap_iff {st : ArgState} {c : Char} :
    xargsStep fits st c = (.gap, []) ↔ st = .gap ∧ isGapSpace c = true := by
  cases st with
  | gap =>
      rw [xargsStep]
      split_ifs with h1 <;> simp [h1]
  | arg acc =>
      rw [xargsStep]
      split_ifs <;> simp
  | quoted q acc =>
      rw [xargsStep]
      split_ifs <;> simp
  | escaped acc => simp [xargsStep]
  | failed => simp [xargsStep]

/-- Nothing is read of white space, and of nothing else. So a line without arguments is a blank
one. -/
theorem xargsRun_eq_gap_iff {st : ArgState} {s : List Char} :
    xargsRun fits st s = (.gap, []) ↔ st = .gap ∧ ∀ c ∈ s, isGapSpace c = true := by
  induction s generalizing st with
  | nil => simp [xargsRun]
  | cons c s ih =>
      rw [List.forall_mem_cons, ← and_assoc, ← @xargsStep_eq_gap_iff fits, xargsRun]
      constructor
      · intro h
        rw [Prod.mk.injEq, List.append_eq_nil_iff] at h
        obtain ⟨hgap, hs⟩ := ih.mp (Prod.ext h.1 h.2.2)
        exact ⟨Prod.ext hgap h.2.1, hs⟩
      · rintro ⟨hstep, hs⟩
        rw [hstep, ih.mpr ⟨rfl, hs⟩]
        rfl

/-- **The machine reads one argument** exactly where the grammar says so, if the argument fits.
The induction is on the text, from every state; all cases but that of a blank are `reads_cons`.
-/
theorem xargsRun_iff_reads {st : ArgState} {s w : List Char} :
    xargsRun fits st (s ++ ['\n']) = (.gap, [w]) ↔ st.Reads s w ∧ fits w = true := by
  induction s generalizing st with
  | nil =>
      cases st with
      | gap =>
          refine ⟨fun h => ?_, fun h => ?_⟩
          · simp [xargsRun, xargsStep, isGapSpace] at h
          · cases h.1
      | arg acc =>
          have hrun : xargsRun fits (.arg acc) ([] ++ ['\n']) =
              if fits acc then (.gap, [acc]) else (.failed, []) := by
            cases hfits : fits acc <;> simp [xargsRun, xargsStep, hfits]
          simp only [hrun, ArgState.Reads, argRest_nil]
          cases hfits : fits acc with
          | true =>
              constructor
              · intro h
                have hw : acc = w := by simpa using h
                exact ⟨⟨[], rfl, by rw [hw, List.append_nil]⟩, hw ▸ hfits⟩
              · rintro ⟨⟨_, rfl, rfl⟩, -⟩
                simp
          | false =>
              refine ⟨fun h => by simp at h, ?_⟩
              rintro ⟨⟨_, rfl, rfl⟩, h⟩
              rw [List.append_nil, hfits] at h
              cases h
      | quoted q acc =>
          refine ⟨fun h => by simp [xargsRun, xargsStep] at h, ?_⟩
          rintro ⟨⟨-, v, s', w', hs, -⟩, -⟩
          simp at hs
      | escaped acc =>
          refine ⟨fun h => by simp [xargsRun, xargsStep] at h, ?_⟩
          rintro ⟨⟨d, s', w', hs, -⟩, -⟩
          cases hs
      | failed => exact ⟨fun h => by simp [xargsRun, xargsStep] at h, fun h => h.1.elim⟩
  | cons c s ih =>
      rw [List.cons_append, xargsRun]
      by_cases hblank : ∃ acc, st = .arg acc ∧ (c = ' ' ∨ c = '\t' ∨ c = '\n')
      · obtain ⟨acc, rfl, hc⟩ := hblank
        -- the argument ends here, so all that follows has to be white space
        have hreads : (ArgState.arg acc).Reads (c :: s) w ↔
            w = acc ∧ ∀ d ∈ s, isGapSpace d = true := by
          simp only [ArgState.Reads, argRest_blank hc]
          constructor
          · rintro ⟨_, ⟨rfl, hs⟩, rfl⟩
            exact ⟨List.append_nil acc, hs⟩
          · rintro ⟨rfl, hs⟩
            exact ⟨[], ⟨rfl, hs⟩, (List.append_nil w).symm⟩
        have hgap : (∀ d ∈ s, isGapSpace d = true) ↔
            xargsRun fits .gap (s ++ ['\n']) = (.gap, []) := by
          rw [xargsRun_eq_gap_iff, List.forall_mem_append, List.forall_mem_singleton]
          simp [isGapSpace]
        rw [hreads, hgap, xargsStep, if_pos hc]
        cases hfits : fits acc with
        | true =>
            rw [if_pos rfl, Prod.ext_iff, Prod.ext_iff]
            constructor
            · rintro ⟨h1, h2⟩
              injection h2 with hw hnil
              exact ⟨⟨hw.symm, h1, hnil⟩, hw ▸ hfits⟩
            · rintro ⟨⟨rfl, h1, h2⟩, -⟩
              exact ⟨h1, congrArg (List.cons w) h2⟩
        | false =>
            rw [if_neg Bool.false_ne_true, xargsRun_failed]
            refine ⟨fun h => by simp at h, ?_⟩
            rintro ⟨⟨rfl, -⟩, h⟩
            rw [hfits] at h
            cases h
      · have hst : ∀ acc, st = .arg acc → ¬ (c = ' ' ∨ c = '\t' ∨ c = '\n') :=
          fun acc h hc => hblank ⟨acc, h, hc⟩
        -- anywhere else a step ends no argument
        have hout : (xargsStep fits st c).2 = [] := by
          cases st with
          | arg acc =>
              rw [xargsStep, if_neg (hst acc rfl)]
              split_ifs <;> rfl
          | gap =>
              rw [xargsStep]
              split_ifs <;> rfl
          | quoted q acc =>
              rw [xargsStep]
              split_ifs <;> rfl
          | escaped acc => rfl
          | failed => rfl
        rw [hout, List.nil_append, @reads_cons fits _ _ _ _ hst]
        exact ih

/-- **A line is read as one argument** exactly when the grammar reads it so and the argument
fits. Whoever asks what a line gives can use the grammar from here on, and need not run the
machine. -/
theorem xargsLine_eq_singleton_iff {l w : List Char} :
    xargsLine fits l = some [w] ↔ ReadsAs l w ∧ fits w = true := by
  rw [xargsLine_eq_some_iff, xargsRun_iff_reads]
  rfl

/-- **Nothing is read of a line** exactly when it is blank. -/
theorem xargsLine_eq_nil_iff {l : List Char} :
    xargsLine fits l = some [] ↔ ∀ c ∈ l, isGapSpace c = true := by
  rw [xargsLine_eq_some_iff, xargsRun_eq_gap_iff, List.forall_mem_append, List.forall_mem_singleton]
  simp [isGapSpace]

/-! ## Lines that are read as they stand -/

/-- Plain characters are an argument as they stand. -/
theorem argRest_of_plain {w : List Char} (hw : ∀ c ∈ w, XargsPlain c) : ArgRest w w := by
  induction w with
  | nil => exact ArgRest.done
  | cons c w ih =>
      exact ArgRest.plain (hw c List.mem_cons_self) (ih fun d hd => hw d (List.mem_cons_of_mem c hd))

/-- No character is won by reading, and a character with a meaning is lost: the argument is
shorter than its text by at least the character that has one. -/
theorem ArgRest.length_le {s w : List Char} (h : ArgRest s w) :
    w.length ≤ s.length ∧ (w.length = s.length → ∀ c ∈ s, XargsPlain c) := by
  induction h with
  | done => exact ⟨Nat.le_refl 0, fun _ c hc => absurd hc List.not_mem_nil⟩
  | blank _ _ => exact ⟨Nat.zero_le _, fun h => by simp at h⟩
  | plain hc _ ih =>
      refine ⟨Nat.succ_le_succ ih.1, fun h => ?_⟩
      rw [List.forall_mem_cons]
      exact ⟨hc, ih.2 (Nat.succ.inj h)⟩
  | escaped _ ih =>
      simp only [List.length_cons] at ih ⊢
      exact ⟨by omega, fun h => by omega⟩
  | quoted _ _ _ _ ih =>
      simp only [List.length_cons, List.length_append] at ih ⊢
      exact ⟨by omega, fun h => by omega⟩

/-- **A text is an argument as it stands** exactly when it is not empty, begins with no white
space and has only plain characters. By the length: whatever has a meaning would be missing. -/
theorem readsAs_self_iff {w : List Char} :
    ReadsAs w w ↔ (∃ c, w.head? = some c ∧ isGapSpace c = false) ∧ ∀ c ∈ w, XargsPlain c := by
  constructor
  · intro h
    cases h with
    | arg hc h => exact ⟨⟨_, rfl, hc⟩, h.length_le.2 rfl⟩
    | @gap c s _ hc h =>
        -- what is read of the rest is no longer than the rest
        have hle : ∀ {s w : List Char}, ReadsAs s w → w.length ≤ s.length := by
          intro s w h
          induction h with
          | gap _ _ ih => exact Nat.le_succ_of_le ih
          | arg _ h => exact h.length_le.1
        have hlen := hle h
        rw [List.length_cons] at hlen
        omega
  · rintro ⟨⟨c, hhead, hc⟩, hplain⟩
    cases w with
    | nil => cases hhead
    | cons d w =>
        rw [List.head?_cons, Option.some_inj] at hhead
        subst hhead
        exact ReadsAs.arg hc (argRest_of_plain hplain)

end Posix
