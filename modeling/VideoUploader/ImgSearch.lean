/-
The image search: the pipeline of `imgsearch/testimgsearch.sh`, lines 13 to 18.

The page is split in front of every `<`, so that a tag has a line of its own, and
the line is matched with one regular expression. The longest match goes to the
last `src="` of the line that no `>` stands in front of, whatever attribute it
belongs to, and what is printed is read by `xargs`, with its own meaning of
blanks, quotes and backslashes.

The page is a text, in the encoding of the terminal. Whether a `<` is one at which the
pipeline does what it should is a matter of the text behind it and of the element that
begins there: the main result compares the two at every `<`, and then for the whole page.
-/
import VideoUploader.HtmlMarkup
import VideoUploader.StreamTools
import VideoUploader.ArgReader

set_option autoImplicit false

namespace VideoUploader.ImgSearch

open Posix Html

/-! ## The pipeline -/

/-- The name of the elements that are looked for, as `grep` looks for it behind a `<`. -/
def img : List Char := ['i', 'm', 'g']

/-- The name of their attribute. -/
def src : List Char := ['s', 'r', 'c']

/-- `src="`. -/
def srcQuote : List Char := src ++ ['=', '"']

/-- `<img[^>]*src="`, which the first `sed` strips. -/
def imgOpening : Regex Char :=
  .seq (.lit ('<' :: img)) (.seq (.star (.sat fun c => decide (c ≠ '>'))) (.lit srcQuote))

/-- `<img[^>]*src="[^"]*"`, the matches of which `grep` prints. -/
def imgSrc : Regex Char :=
  .seq (.lit ('<' :: img))
    (.seq (.star (.sat fun c => decide (c ≠ '>')))
      (.seq (.lit srcQuote) (.seq (.star (.sat fun c => decide (c ≠ '"'))) (.lit ['"']))))

/-- `sed 's/</\n</g'`. Every `<` begins a line then, but for what stands in front of the first
one. -/
def splitTags : List Char → List Char :=
  sed '\n' (substAll (.sat fun c => decide (c = '<')) ['\n', '<'] 0)

/-- `s/"$//` on one line. -/
def dropQuote (l : List Char) : List Char := if l.getLast? = some '"' then l.dropLast else l

/-- What the tools have of their own: how many lines `grep` has dealt with when it comes upon the
first NUL of its input, if there is one, and which arguments `xargs` can put into a command line.
-/
structure Tools where
  early : ℕ
  fits : List Char → Bool

/-- `grep -Eo '<img[^>]*src="[^"]*"'` and the two `sed` behind it, the second of which removes
the closing quote. -/
def extract (tools : Tools) (s : List Char) : List Char :=
  sed '\n' dropQuote
    (sed '\n' (substAll imgOpening [] 0) (grepOnlyText '\x00' '\n' tools.early imgSrc s))

/-- What `wget` is called with, for the page that was sent. -/
def calls (tools : Tools) (page : List Char) : List (List (List Char)) :=
  xargsN1 tools.fits (extract tools (splitTags page))

/-! ## What ought to be fetched -/

/-- The values of `src` of the page's images, as far as they are double-quoted. They are those a
browser would have, with references decoded. -/
def sources (x : Language) (page : List Char) : List (List Char) := values x img src page

/-- One call for each source, in document order, and no others. A call without arguments, as
`xargs` makes it for empty input, fetches nothing. -/
structure FetchesSources (x : Language) (tools : Tools) (page : List Char) : Prop where
  arguments : (calls tools page).flatten = sources x page
  one_each : ∀ call ∈ calls tools page, call.length ≤ 1

/-! ## What one tag comes to -/

/-- The line of a tag, but for its `<`. It need not be the whole tag, and may be more than that.
-/
def tagLine (after : List Char) : List Char :=
  after.takeWhile fun c => decide (c ≠ '<' ∧ c ≠ '\n')

/-- A place of a text where a `src="` has a closing quote, and no `>` in front. -/
def SrcAt (b a v rest : List Char) : Prop :=
  b = a ++ (srcQuote ++ (v ++ '"' :: rest)) ∧ '>' ∉ a ∧ '"' ∉ v

/-- The text `v` stands in quotes behind the last such `src="`. -/
def LastSrc (b v : List Char) : Prop :=
  ∃ a rest, SrcAt b a v rest ∧ ∀ a' v' rest', SrcAt b a' v' rest' → a'.length ≤ a.length

/-- The closing quote of a value makes a further `src="`, to which the expression goes on, so
that all of the match is stripped. -/
def StrippedAway (v : List Char) : Prop := src ++ ['='] <:+ v ∧ '>' ∉ v

instance (v : List Char) : Decidable (StrippedAway v) := by unfold StrippedAway; infer_instance

/-- A `<` of the page, and whether `grep` prints what it matches on the line of it. -/
structure Tag where
  mark : Mark
  shown : Bool

/-- How many lines of tags are among those that are printed. It is the number of all tags, where
the page has no NUL. -/
def shown (tools : Tools) (page : List Char) : ℕ :=
  (linesAsText '\x00' tools.early ((splitTags page).splitOn '\n')).countP fun l => l.contains '<'

/-- The tags of a page, in document order: those that `grep` gets to, and then those behind a
NUL. -/
def tags (x : Language) (tools : Tools) (page : List Char) : List Tag :=
  (((marks x img src [] 0 page).take (shown tools page)).map fun m => ⟨m, true⟩) ++
    ((marks x img src [] 0 page).drop (shown tools page)).map fun m => ⟨m, false⟩

/-- A tag at which the pipeline does what it should. Where an image with a source begins, its
line is printed, begins with `<img`, and what stands behind the last `src="` is that source, in
the words of `xargs`. Where none begins, the line has no such text, or one of which nothing is
left. -/
def Good (fits : List Char → Bool) (tag : Tag) : Prop :=
  match tag.mark.value with
  | some w => tag.shown = true ∧ ∃ b v, tagLine tag.mark.after = img ++ b ∧ LastSrc b v ∧
      ¬ StrippedAway v ∧ ReadsAs v w ∧ fits w = true
  | none => tag.shown = true → ∀ b v, tagLine tag.mark.after = img ++ b → LastSrc b v →
      StrippedAway v ∨ ∀ c ∈ v, isGapSpace c = true

/-! ## The words of the expressions -/

/-- The words of the first expression have any text without `>` between their two ends. -/
theorem mem_lang_imgOpening {w : List Char} :
    w ∈ imgOpening.lang ↔ ∃ a, w = '<' :: (img ++ (a ++ srcQuote)) ∧ '>' ∉ a := by
  unfold imgOpening
  simp only [Regex.mem_lang_seq, Regex.mem_lang_lit, Regex.mem_lang_star_sat]
  constructor
  · rintro ⟨_, _, rfl, ⟨a, _, ha, rfl, rfl⟩, rfl⟩
    exact ⟨a, rfl, fun hmem => absurd (ha _ hmem) (by decide)⟩
  · rintro ⟨a, rfl, ha⟩
    refine ⟨_, _, rfl, ⟨a, _, fun c hc => ?_, rfl, rfl⟩, rfl⟩
    exact decide_eq_true fun hcg => ha (hcg ▸ hc)

/-- Those of the second one go on with a value and its closing quote. The value may have a `>` in
it. -/
theorem mem_lang_imgSrc {w : List Char} :
    w ∈ imgSrc.lang ↔
      ∃ a v, w = '<' :: (img ++ (a ++ (srcQuote ++ (v ++ ['"'])))) ∧ '>' ∉ a ∧ '"' ∉ v := by
  unfold imgSrc
  simp only [Regex.mem_lang_seq, Regex.mem_lang_lit, Regex.mem_lang_star_sat]
  constructor
  · rintro ⟨_, _, rfl, ⟨a, _, ha, ⟨_, _, rfl, ⟨v, _, hv, rfl, rfl⟩, rfl⟩, rfl⟩, rfl⟩
    exact ⟨a, v, rfl, fun hmem => absurd (ha _ hmem) (by decide),
      fun hmem => absurd (hv _ hmem) (by decide)⟩
  · rintro ⟨a, v, rfl, ha, hv⟩
    refine ⟨_, _, rfl, ⟨a, _, fun c hc => ?_, ⟨_, _, rfl, ⟨v, _, fun c hc => ?_, rfl, rfl⟩, rfl⟩,
      rfl⟩, rfl⟩
    · exact decide_eq_true fun hcg => ha (hcg ▸ hc)
    · exact decide_eq_true fun hcq => hv (hcq ▸ hc)

/-- Either expression matches from a `<` on only. -/
theorem begins_imgOpening : Begins imgOpening '<' := by
  intro m hm
  obtain ⟨a, rfl, -⟩ := mem_lang_imgOpening.mp hm
  rfl

theorem begins_imgSrc : Begins imgSrc '<' := by
  intro m hm
  obtain ⟨a, v, rfl, -, -⟩ := mem_lang_imgSrc.mp hm
  rfl

/-! ## The last `src="` -/

/-- The search for the last `src="`, from the end. A place further on has precedence, and a `>`
shuts out all that are behind it. -/
def lastSrc : List Char → Option (List Char)
  | [] => none
  | c :: s =>
      if c = '>' then none
      else
        match lastSrc s with
        | some v => some v
        | none =>
            let rest := (c :: s).drop srcQuote.length
            if srcQuote <+: c :: s ∧ '"' ∈ rest then some (rest.takeWhile fun d => decide (d ≠ '"'))
            else none

/-- A quote behind a text without quotes is the first one there is. -/
theorem length_le_of_quote {v w s t : List Char} (hv : '"' ∉ v)
    (h : w ++ '"' :: s = v ++ '"' :: t) : v.length ≤ w.length := by
  induction w generalizing v with
  | nil =>
      rcases v with _ | ⟨d, v⟩
      · exact Nat.le_refl _
      · injection h with hd _
        exact absurd (hd ▸ List.mem_cons_self) hv
  | cons c w ih =>
      rcases v with _ | ⟨d, v⟩
      · exact Nat.zero_le _
      · injection h with _ hrest
        exact Nat.succ_le_succ (ih (fun hmem => hv (List.mem_cons_of_mem d hmem)) hrest)

/-- Where two `src="` begin at different places, the second one ends behind the first. Neither
can begin inside the other, as no letter of it is its first one again; checked for the four
possible distances. -/
theorem srcQuote_apart {e y z : List Char} (he : e ≠ [])
    (h : e ++ (srcQuote ++ z) = srcQuote ++ y) :
    ∃ w, e ++ (src ++ ['=']) = srcQuote ++ w ∧ y = w ++ '"' :: z := by
  have hsplit : e ++ (srcQuote ++ z) = (e ++ (src ++ ['='])) ++ '"' :: z := by simp [srcQuote]
  have hlen : srcQuote.length ≤ (e ++ (src ++ ['='])).length := by
    have hpos := List.length_pos_of_ne_nil he
    simp only [srcQuote, src, List.length_append, List.length_cons, List.length_nil]
    omega
  obtain ⟨w, hw⟩ := List.prefix_of_prefix_length_le (List.prefix_append srcQuote y)
    (h ▸ hsplit ▸ List.prefix_append (e ++ (src ++ ['='])) ('"' :: z)) hlen
  refine ⟨w, hw.symm, ?_⟩
  rw [hsplit, ← hw, List.append_assoc] at h
  exact (List.append_cancel_left h).symm

/-- A place that is not at the front is a place of the tail. -/
theorem SrcAt.tail {c : Char} {s a v rest : List Char} (h : SrcAt (c :: s) a v rest) (hne : a ≠ []) :
    c ≠ '>' ∧ ∃ a', a = c :: a' ∧ SrcAt s a' v rest := by
  obtain ⟨hb, ha, hv⟩ := h
  obtain ⟨d, a, rfl⟩ := List.exists_cons_of_ne_nil hne
  injection hb with hcd hs
  subst hcd
  rw [List.mem_cons, not_or] at ha
  exact ⟨Ne.symm ha.1, a, rfl, hs, ha.2, hv⟩

/-- Where `lastSrc` finds nothing there is no place. -/
theorem not_srcAt_of_lastSrc {b : List Char} (h : lastSrc b = none) (a v rest : List Char) :
    ¬ SrcAt b a v rest := by
  induction b generalizing a with
  | nil =>
      rintro ⟨hb, -, -⟩
      rcases a with _ | ⟨d, a⟩
      · cases hb
      · cases hb
  | cons c s ih =>
      intro hat
      rw [lastSrc] at h
      rcases a with _ | ⟨d, a⟩
      · -- a place at the front would have been found
        obtain ⟨hb, -, -⟩ := hat
        have hc : c ≠ '>' := by
          injection hb with hc _
          rw [hc]
          decide
        rw [if_neg hc] at h
        split at h
        · cases h
        · rw [List.nil_append] at hb
          dsimp only at h
          rw [hb, List.drop_left, if_pos ⟨List.prefix_append _ _, by simp⟩] at h
          cases h
      · -- any other one is a place of the tail
        obtain ⟨hc, a', -, hat'⟩ := hat.tail (List.cons_ne_nil d a)
        rw [if_neg hc] at h
        split at h
        · cases h
        · rename_i hs
          exact ih hs a' hat'

/-- `lastSrc` finds a place, and there is none behind it. By induction on the line: either the
place is one of the tail, or it is at the front and the tail has none. -/
theorem srcAt_of_lastSrc {b v : List Char} (h : lastSrc b = some v) : LastSrc b v := by
  induction b with
  | nil => cases h
  | cons c s ih =>
      rw [lastSrc] at h
      split at h
      · cases h
      · rename_i hc
        split at h
        · rename_i v' hs
          cases h
          -- the tail has one, and a place at the front is in front of it
          obtain ⟨a, rest, ⟨hb, ha, hv⟩, hmax⟩ := ih hs
          refine ⟨c :: a, rest, ⟨by rw [hb]; rfl, ?_, hv⟩, ?_⟩
          · rw [List.mem_cons, not_or]
            exact ⟨Ne.symm hc, ha⟩
          · intro a' v' rest' hat
            by_cases hne : a' = []
            · rw [hne]
              exact Nat.zero_le _
            · obtain ⟨-, a'', rfl, hat'⟩ := hat.tail hne
              exact Nat.succ_le_succ (hmax a'' v' rest' hat')
        · rename_i hs
          dsimp only at h
          split at h
          · rename_i hcond
            obtain ⟨hpre, hmem⟩ := hcond
            cases h
            -- what follows the opening quote, up to the closing one
            obtain ⟨y, hy⟩ := hpre
            rw [← hy, List.drop_left] at hmem ⊢
            have hclose : ∃ t, (y.dropWhile fun d => decide (d ≠ '"')) = '"' :: t := by
              cases hd : y.dropWhile fun d => decide (d ≠ '"') with
              | nil =>
                  rw [List.dropWhile_eq_nil_iff] at hd
                  exact absurd (hd _ hmem) (by decide)
              | cons d t =>
                  have hhead := List.head_dropWhile_not (fun d => decide (d ≠ '"'))
                    (hd ▸ List.cons_ne_nil d t)
                  simp only [hd, List.head_cons] at hhead
                  have hdq : d = '"' := by simpa using hhead
                  exact ⟨t, by rw [hdq]⟩
            obtain ⟨t, ht⟩ := hclose
            refine ⟨[], t, ⟨?_, by simp, ?_⟩, ?_⟩
            · rw [List.nil_append, ← ht, List.takeWhile_append_dropWhile]
            · intro hq
              exact absurd (List.mem_takeWhile_imp hq) (by decide)
            · intro a' v' rest' hat
              by_cases hne : a' = []
              · rw [hne]
              · rw [hy] at hat
                obtain ⟨-, a'', -, hat'⟩ := hat.tail hne
                exact absurd hat' (not_srcAt_of_lastSrc hs a'' v' rest')
          · cases h

/-! ## What `grep` prints for a tag -/

/-- Of two places the later one ends later. So the last place and the longest match are the same.
-/
theorem length_srcAt_le {b a v rest a' v' rest' : List Char} (h : SrcAt b a v rest)
    (h' : SrcAt b a' v' rest') (hle : a'.length ≤ a.length) :
    a'.length + v'.length ≤ a.length + v.length := by
  obtain ⟨hb, -, hv⟩ := h
  obtain ⟨hb', -, hv'⟩ := h'
  obtain ⟨e, rfl⟩ := List.prefix_of_prefix_length_le ⟨_, hb'.symm⟩ ⟨_, hb.symm⟩ hle
  have hrest : e ++ (srcQuote ++ (v ++ '"' :: rest)) = srcQuote ++ (v' ++ '"' :: rest') := by
    have heq := hb.symm.trans hb'
    rw [List.append_assoc] at heq
    exact List.append_cancel_left heq
  -- at the same place the first quote closes both
  by_cases he : e = []
  · subst he
    have hvv := length_le_of_quote hv' (List.append_cancel_left hrest)
    simp only [List.append_nil]
    omega
  · obtain ⟨w, hw, hvw⟩ := srcQuote_apart he hrest
    have hlen := length_le_of_quote hv' hvw.symm
    have hwe := congrArg List.length hw
    simp only [srcQuote, src, List.length_append, List.length_cons, List.length_nil] at hwe ⊢
    omega

/-- There is at most one last place, and one text behind it. -/
theorem LastSrc.unique {b v v' : List Char} (h : LastSrc b v) (h' : LastSrc b v') : v = v' := by
  obtain ⟨a, rest, hat, hmax⟩ := h
  obtain ⟨a', rest', hat', hmax'⟩ := h'
  have hle := hmax' a v rest hat
  have hle' := hmax a' v' rest' hat'
  have hlen := length_srcAt_le hat hat' hle'
  have hlen' := length_srcAt_le hat' hat hle
  obtain ⟨-, hsrc⟩ := List.append_inj (hat.1.symm.trans hat'.1) (Nat.le_antisymm hle hle')
  exact (List.append_inj (List.append_cancel_left hsrc) (by omega)).1

/-- The search is right: what it finds is what the condition speaks of. -/
theorem lastSrc_eq_some_iff {b v : List Char} : lastSrc b = some v ↔ LastSrc b v := by
  refine ⟨srcAt_of_lastSrc, fun h => ?_⟩
  cases hb : lastSrc b with
  | none =>
      obtain ⟨a, rest, hat, -⟩ := h
      exact absurd hat (not_srcAt_of_lastSrc hb a v rest)
  | some v' => rw [(srcAt_of_lastSrc hb).unique h]

/-- The text that is matched in a tag. -/
def matched (a v : List Char) : List Char := '<' :: (img ++ (a ++ (srcQuote ++ (v ++ ['"']))))

/-- The longest match of a tag goes to its last place, because a later place ends later. -/
theorem longest_imgSrc {b a v rest : List Char} (h : SrcAt b a v rest)
    (hmax : ∀ a' v' rest', SrcAt b a' v' rest' → a'.length ≤ a.length) :
    imgSrc.longest ('<' :: (img ++ b)) = some (matched a v, rest) := by
  refine Regex.longest_eq_some ?_ (mem_lang_imgSrc.mpr ⟨a, v, rfl, h.2⟩) ?_
  · rw [h.1]
    simp [matched]
  · intro m' rest' hm' hmem
    obtain ⟨a', v', rfl, ha', hv'⟩ := mem_lang_imgSrc.mp hmem
    have hb : b = a' ++ (srcQuote ++ (v' ++ '"' :: rest')) := by
      rw [List.cons_append, List.append_assoc] at hm'
      injection hm' with _ hm'
      rw [List.append_cancel_left hm']
      simp
    have hat : SrcAt b a' v' rest' := ⟨hb, ha', hv'⟩
    have hle := length_srcAt_le h hat (hmax a' v' rest' hat)
    simp only [matched, List.length_cons, List.length_append]
    omega

/-- A line has one match at most: it begins at the only `<` of the line. -/
theorem occurrences_imgSrc_of_some {b v : List Char} (hb : '<' ∉ b) (h : lastSrc b = some v) :
    ∃ a rest, SrcAt b a v rest ∧ occurrences imgSrc 0 ('<' :: (img ++ b)) = [matched a v] := by
  obtain ⟨a, rest, hat, hmax⟩ := srcAt_of_lastSrc h
  refine ⟨a, rest, hat, ?_⟩
  rw [occurrences_of_longest (longest_imgSrc hat hmax) (List.cons_ne_nil _ _)]
  have hrest : '<' ∉ rest := by
    intro hmem
    rw [hat.1] at hb
    exact hb (by simp [hmem])
  rw [begins_imgSrc.occurrences_eq_nil hrest]

/-- A line that begins with something else than `<img`, or has no place, has none. -/
theorem occurrences_imgSrc_of_none {l : List Char} (hl : '<' ∉ l)
    (h : ∀ b, l = img ++ b → lastSrc b = none) : occurrences imgSrc 0 ('<' :: l) = [] := by
  rw [occurrences_of_no_match, begins_imgSrc.occurrences_eq_nil hl]
  intro m rest hm hmem
  obtain ⟨a, v, rfl, ha, hv⟩ := mem_lang_imgSrc.mp hmem
  injection hm with _ hm
  have hb : l = img ++ (a ++ (srcQuote ++ (v ++ '"' :: rest))) := by
    rw [hm]
    simp
  exact absurd ⟨rfl, ha, hv⟩ (not_srcAt_of_lastSrc (h _ hb) a v rest)

/-! ## What the two `sed` leave of it -/

/-- The expression that is stripped goes on to the end exactly when the value ends in `src=` and
has no `>`. -/
theorem exists_eq_of_longer {a v a' rest : List Char} (ha' : '>' ∉ a') (hv : '"' ∉ v)
    (h : a ++ (srcQuote ++ (v ++ ['"'])) = a' ++ (srcQuote ++ rest)) (hlt : a.length < a'.length) :
    rest = [] ∧ src ++ ['='] <:+ v ∧ '>' ∉ v := by
  obtain ⟨e, rfl⟩ := List.prefix_of_prefix_length_le ⟨_, h⟩ (List.prefix_append a' _) hlt.le
  have he : e ≠ [] := by
    rintro rfl
    rw [List.append_nil] at hlt
    exact lt_irrefl _ hlt
  rw [List.append_assoc] at h
  obtain ⟨w, hw, hvw⟩ := srcQuote_apart he (List.append_cancel_left h).symm
  -- the only quote of the value and its closing quote is the last one
  have hlen := length_le_of_quote hv hvw.symm
  have hrest : rest = [] ∧ w = v := by
    have htotal := congrArg List.length hvw
    simp only [List.length_append, List.length_cons, List.length_nil] at htotal
    have hnil : rest = [] := List.length_eq_zero_iff.mp (by omega)
    rw [hnil] at hvw
    exact ⟨hnil, (List.append_cancel_right hvw).symm⟩
  obtain ⟨hnil, rfl⟩ := hrest
  have hsuffix : src ++ ['='] <:+ w := by
    have hboth : src ++ ['='] <:+ srcQuote ++ w := ⟨e, hw⟩
    by_cases hlong : (src ++ ['=']).length ≤ w.length
    · exact List.suffix_of_suffix_length_le hboth (List.suffix_append _ _) hlong
    · -- a shorter value cannot end where `src=` does, as `src="` does not
      have hshort : w <:+ src ++ ['='] :=
        List.suffix_of_suffix_length_le (List.suffix_append _ _) hboth (by omega)
      have htails : w ∈ (src ++ ['=']).tails := (List.mem_tails _ _).mpr hshort
      simp only [src, List.cons_append, List.nil_append, List.tails, List.mem_cons,
        List.not_mem_nil, or_false] at htails
      rcases htails with rfl | rfl | rfl | rfl | rfl
      · exact absurd (by decide) hlong
      all_goals exact absurd hboth (by decide)
  refine ⟨hnil, hsuffix, ?_⟩
  obtain ⟨u, hu⟩ := hsuffix
  have hue : e = srcQuote ++ u :=
    List.append_cancel_right (hw.trans (by rw [← hu, List.append_assoc]))
  rw [← hu, List.mem_append, not_or]
  refine ⟨fun hmem => ha' ?_, by decide⟩
  rw [hue]
  simp [hmem]

/-- What the two editing commands do to one match. -/
def strip (m : List Char) : List Char := dropQuote (substAll imgOpening [] 0 m)

/-- What is stripped of a match goes to the last `src="` in it, its closing quote counted. -/
theorem longest_imgOpening {a v w rest : List Char}
    (h : matched a v = '<' :: (img ++ (w ++ srcQuote)) ++ rest) (hw : '>' ∉ w)
    (hmax : ∀ w' rest', a ++ (srcQuote ++ (v ++ ['"'])) = w' ++ (srcQuote ++ rest') → '>' ∉ w' →
      w'.length ≤ w.length) :
    imgOpening.longest (matched a v) = some ('<' :: (img ++ (w ++ srcQuote)), rest) := by
  refine Regex.longest_eq_some h (mem_lang_imgOpening.mpr ⟨w, rfl, hw⟩) ?_
  intro m' rest' hm' hmem
  obtain ⟨w', rfl, hw'⟩ := mem_lang_imgOpening.mp hmem
  rw [matched, List.cons_append, List.append_assoc] at hm'
  injection hm' with _ hm'
  have hle := hmax w' rest' ((List.append_cancel_left hm').trans (List.append_assoc _ _ _)) hw'
  simp only [List.length_cons, List.length_append]
  omega

/-- What is left of a value. -/
def printed (v : List Char) : List Char := if StrippedAway v then [] else v

/-- **What is printed of a match**: the value, unless it ends in `src=`. -/
theorem strip_matched {a v : List Char} (ha : '>' ∉ a) (hv : '"' ∉ v) (hlt : '<' ∉ v) :
    strip (matched a v) = printed v := by
  unfold strip printed
  by_cases hcond : StrippedAway v
  · -- the closing quote completes another `src="`, and everything is stripped
    obtain ⟨⟨u, hu⟩, hgt⟩ := hcond
    have hall : imgOpening.longest (matched a v) =
        some ('<' :: (img ++ ((a ++ (srcQuote ++ u)) ++ srcQuote)), []) := by
      refine longest_imgOpening ?_ ?_ ?_
      · rw [matched, ← hu]
        simp [srcQuote]
      · rw [List.mem_append, List.mem_append, not_or, not_or]
        refine ⟨ha, by decide, fun hmem => hgt ?_⟩
        rw [← hu]
        exact List.mem_append_left _ hmem
      · intro w' rest' hw' _
        have hlen := congrArg List.length hw'
        rw [← hu] at hlen
        simp only [srcQuote, List.length_append, List.length_cons, List.length_nil] at hlen ⊢
        omega
    rw [if_pos ⟨⟨u, hu⟩, hgt⟩, substAll_of_longest hall (List.cons_ne_nil _ _)]
    rfl
  · -- no further one, and the value stays, with its closing quote
    have hfirst : imgOpening.longest (matched a v) =
        some ('<' :: (img ++ (a ++ srcQuote)), v ++ ['"']) := by
      refine longest_imgOpening ?_ ha ?_
      · simp [matched]
      · intro w' rest' hw' hgt
        by_contra hlonger
        exact hcond (exists_eq_of_longer hgt hv hw' (by omega)).2
    have hrest : '<' ∉ v ++ ['"'] := by simp [hlt]
    rw [if_neg hcond, substAll_of_longest hfirst (List.cons_ne_nil _ _),
      begins_imgOpening.substAll_eq_self hrest, List.nil_append, dropQuote, List.getLast?_concat,
      if_pos rfl, List.dropLast_concat]

/-- The two `sed` act match by match, as every match stands on a line of its own. -/
theorem sed_sed_flatMap_line {ms : List (List Char)} (h : ∀ m ∈ ms, '\n' ∉ m) :
    sed '\n' dropQuote (sed '\n' (substAll imgOpening [] 0) (ms.flatMap fun m => m ++ ['\n'])) =
      ms.flatMap fun m => strip m ++ ['\n'] := by
  have h' : ∀ m ∈ ms.map (substAll imgOpening [] 0), '\n' ∉ m := by
    intro m hm hmem
    obtain ⟨m', hm', rfl⟩ := List.mem_map.mp hm
    rcases mem_of_mem_substAll hmem with hrep | hline
    · cases hrep
    · exact h m' hm' hline
  have hmap : (ms.flatMap fun m => substAll imgOpening [] 0 m ++ ['\n']) =
      (ms.map (substAll imgOpening [] 0)).flatMap fun m => m ++ ['\n'] := by
    rw [List.flatMap_map]
  rw [sed_flatMap_line rfl h, hmap, sed_flatMap_line rfl h', List.flatMap_map]
  rfl

/-! ## From the page to its tags -/

/-- The line of a tag has no further `<`, and it is one line. -/
theorem not_mem_tagLine (after : List Char) : '<' ∉ tagLine after ∧ '\n' ∉ tagLine after := by
  constructor
  · intro hmem
    exact absurd (List.mem_takeWhile_imp hmem) (by decide)
  · intro hmem
    exact absurd (List.mem_takeWhile_imp hmem) (by decide)

theorem tagLine_cons_of_ne {c : Char} {s : List Char} (h1 : c ≠ '<') (h2 : c ≠ '\n') :
    tagLine (c :: s) = c :: tagLine s := by
  simp [tagLine, h1, h2]

/-- The first `sed` acts letter by letter. -/
theorem splitTags_eq (page : List Char) :
    splitTags page = page.flatMap fun c => if decide (c = '<') then ['\n', '<'] else [c] := by
  have hsubst : substAll (.sat fun c => decide (c = '<')) ['\n', '<'] 0 =
      fun l => l.flatMap fun c => if decide (c = '<') then ['\n', '<'] else [c] :=
    funext fun l => substAll_sat _ _ l
  rw [splitTags, hsubst, sed_flatMap (by decide)]

/-- The lines of the split page: what stands before the first `<` or newline, then lines of which
those with a `<` are the lines of the tags. The induction is on the page. -/
theorem exists_lines (page : List Char) :
    ∃ ls, (splitTags page).splitOn '\n' = tagLine page :: ls ∧
      (ls.filter fun l => l.contains '<') = (tails page).map fun after => '<' :: tagLine after := by
  have hplain : ∀ s : List Char, (tagLine s).contains '<' = false := fun s =>
    Bool.eq_false_iff.mpr fun h => (not_mem_tagLine s).1 (List.contains_iff_mem.mp h)
  rw [splitTags_eq]
  induction page with
  | nil => exact ⟨[], rfl, rfl⟩
  | cons c s ih =>
      obtain ⟨ls, hls, hfilter⟩ := ih
      rw [List.flatMap_cons]
      -- a `<` begins a line, and what comes behind it is the line of this tag
      by_cases hlt : c = '<'
      · subst hlt
        refine ⟨('<' :: tagLine s) :: ls, ?_, ?_⟩
        · rw [if_pos (by decide), List.cons_append, List.cons_append, List.nil_append,
            List.splitOn_cons_eq_if_modifyHead, if_pos (by decide),
            List.splitOn_cons_eq_if_modifyHead, if_neg (by decide), hls]
          rfl
        · rw [List.filter_cons_of_pos (by simp), hfilter, tails, if_pos rfl, List.map_cons]
      · have htails : tails (c :: s) = tails s := by rw [tails, if_neg hlt]
        rw [if_neg (by simpa using hlt), List.singleton_append,
          List.splitOn_cons_eq_if_modifyHead, htails, hls]
        by_cases hnl : c = '\n'
        · subst hnl
          refine ⟨tagLine s :: ls, by rw [if_pos (by decide)]; rfl, ?_⟩
          rw [List.filter_cons_of_neg (by rw [hplain s]; exact Bool.false_ne_true), hfilter]
        · refine ⟨ls, ?_, hfilter⟩
          rw [if_neg (by simpa using hnl), tagLine_cons_of_ne hlt hnl]
          rfl

/-- The lines with a `<` are the lines of the tags. -/
theorem filter_lines (page : List Char) :
    (((splitTags page).splitOn '\n').filter fun l => l.contains '<') =
      (tails page).map fun after => '<' :: tagLine after := by
  obtain ⟨ls, hls, hfilter⟩ := exists_lines page
  rw [hls, List.filter_cons_of_neg, hfilter]
  intro h
  exact (not_mem_tagLine page).1 (List.contains_iff_mem.mp h)

/-- The value that is printed for a tag, if one is. All stages up to `xargs` come to this. -/
def printedOf (after : List Char) : Option (List Char) :=
  if img <+: tagLine after then (lastSrc ((tagLine after).drop img.length)).map printed else none

/-- The line that is printed for a tag, if one is. -/
def printedLine (after : List Char) : List Char :=
  match printedOf after with
  | none => []
  | some v => v ++ ['\n']

/-- **One tag**: what `grep` matches on its line, and what is left of it. -/
theorem occurrences_tagLine (after : List Char) :
    (∀ m ∈ occurrences imgSrc 0 ('<' :: tagLine after), '\n' ∉ m) ∧
      ((occurrences imgSrc 0 ('<' :: tagLine after)).flatMap fun m => strip m ++ ['\n']) =
        printedLine after := by
  obtain ⟨hlt, hnl⟩ := not_mem_tagLine after
  unfold printedLine printedOf
  generalize tagLine after = l at hlt hnl ⊢
  by_cases himg : img <+: l
  · obtain ⟨b, rfl⟩ := himg
    rw [if_pos (List.prefix_append img b), List.drop_left]
    have hltb : '<' ∉ b := fun hmem => hlt (List.mem_append_right img hmem)
    have hnlb : '\n' ∉ b := fun hmem => hnl (List.mem_append_right img hmem)
    cases hsrc : lastSrc b with
    -- no place, so nothing is matched
    | none =>
        have hnone : occurrences imgSrc 0 ('<' :: (img ++ b)) = [] :=
          occurrences_imgSrc_of_none hlt fun b' hb' => List.append_cancel_left hb' ▸ hsrc
        rw [hnone]
        exact ⟨by simp, rfl⟩
    | some v =>
        obtain ⟨a, rest, ⟨hb, ha, hv⟩, hocc⟩ := occurrences_imgSrc_of_some hltb hsrc
        rw [hb] at hltb hnlb
        have hltv : '<' ∉ v := fun hmem => hltb (by simp [hmem])
        rw [hocc]
        constructor
        · intro m hm
          rw [List.mem_singleton.mp hm]
          intro hmem
          simp only [matched, List.mem_cons, List.mem_append] at hmem
          simp only [List.mem_append, List.mem_cons, not_or] at hnlb
          rcases hmem with h | h | h | h | h | h
          · exact absurd h (by decide)
          · exact absurd h (by decide)
          · exact hnlb.1 h
          · exact absurd h (by decide)
          · exact hnlb.2.2.1 h
          · exact absurd h (by decide)
        · rw [List.flatMap_singleton, strip_matched ha hv hltv]
          rfl
  · rw [if_neg himg, occurrences_imgSrc_of_none hlt fun b hb => absurd ⟨b, hb.symm⟩ himg]
    exact ⟨by simp, rfl⟩

/-- **The pipeline works tag by tag**, as far as anything is printed. Lines without a `<` have no
matches, and the other lines are the tags. -/
theorem extract_splitTags (tools : Tools) (page : List Char) :
    extract tools (splitTags page) = ((tails page).take (shown tools page)).flatMap printedLine := by
  have hlines : ((linesAsText '\x00' tools.early ((splitTags page).splitOn '\n')).filter
      fun l => l.contains '<') =
      ((tails page).take (shown tools page)).map fun after => '<' :: tagLine after := by
    rw [filter_of_isPrefix (linesAsText_isPrefix _), filter_lines, List.map_take]
    rfl
  have hplain : ∀ l : List Char, l.contains '<' = false →
      ((occurrences imgSrc 0 l).flatMap fun m => m ++ ['\n']) = [] := by
    intro l hl
    rw [begins_imgSrc.occurrences_eq_nil (by simpa using hl)]
    rfl
  have hgrep : grepOnlyText '\x00' '\n' tools.early imgSrc (splitTags page) =
      (((tails page).take (shown tools page)).flatMap fun after =>
        occurrences imgSrc 0 ('<' :: tagLine after)).flatMap fun m => m ++ ['\n'] := by
    rw [grepOnlyText, flatMap_filter_of_nil hplain, hlines, List.flatMap_map, List.flatMap_assoc]
  -- a match has no newline in it, so it stays on its line
  have hnl : ∀ m ∈ ((tails page).take (shown tools page)).flatMap fun after =>
      occurrences imgSrc 0 ('<' :: tagLine after), '\n' ∉ m := by
    intro m hm
    obtain ⟨after, -, hm⟩ := List.mem_flatMap.mp hm
    exact (occurrences_tagLine after).1 m hm
  rw [extract, hgrep, sed_sed_flatMap_line hnl, List.flatMap_assoc]
  exact List.flatMap_congr fun after _ => (occurrences_tagLine after).2

/-- Of a page without NUL the lines of all tags are printed, whatever `grep` would have noticed
and when. -/
theorem tags_of_not_mem {page : List Char} (h : '\x00' ∉ page) (x : Language) (tools : Tools) :
    tags x tools page = (marks x img src [] 0 page).map fun m => ⟨m, true⟩ := by
  have hsplit : '\x00' ∉ splitTags page := by
    rw [splitTags_eq, List.mem_flatMap]
    rintro ⟨c, hc, hmem⟩
    split at hmem
    · exact absurd hmem (by decide)
    · exact h (List.mem_singleton.mp hmem ▸ hc)
  have hlines : ∀ l ∈ (splitTags page).splitOn '\n', '\x00' ∉ l := by
    intro l hl hmem
    exact hsplit (mem_of_mem_splitOn hl hmem)
  have hall : shown tools page = (marks x img src [] 0 page).length := by
    rw [shown, linesAsText_of_not_mem hlines, List.countP_eq_length_filter, filter_lines,
      List.length_map, ← map_after_marks x img src [] 0 page, List.length_map]
  rw [tags, hall, List.take_length, List.drop_length, List.map_nil, List.append_nil]

/-! ## The arguments made of a tag -/

/-- The arguments made of a tag, if its line leaves nothing open. -/
def fetched (fits : List Char → Bool) (tag : Tag) : Option (List (List Char)) :=
  if tag.shown then
    match printedOf tag.mark.after with
    | none => some []
    | some v => xargsLine fits v
  else some []

/-- The line that is printed for a tag. -/
def Tag.line (tag : Tag) : List Char := if tag.shown then printedLine tag.mark.after else []

/-- A tag whose line leaves nothing open is read by itself. -/
theorem xargsArgs_line {fits : List Char → Bool} {tag : Tag} {ws : List (List Char)}
    (h : fetched fits tag = some ws) (s : List Char) :
    xargsArgs fits (tag.line ++ s) = ws ++ xargsArgs fits s := by
  unfold fetched at h
  unfold Tag.line printedLine
  cases hshown : tag.shown with
  | false =>
      rw [hshown, if_neg Bool.false_ne_true, Option.some_inj] at h
      rw [if_neg Bool.false_ne_true, ← h]
      rfl
  | true =>
      rw [hshown, if_pos rfl] at h
      rw [if_pos rfl]
      cases hp : printedOf tag.mark.after with
      | none =>
          rw [hp] at h
          rw [← Option.some_inj.mp h]
          rfl
      | some v =>
          rw [hp] at h
          dsimp only
          rw [List.append_assoc]
          exact Posix.xargsArgs_line h s

/-- What is printed for a tag that begins an image, in terms of its text. -/
theorem printedOf_eq_some_iff {after u : List Char} :
    printedOf after = some u ↔ ∃ b v, tagLine after = img ++ b ∧ LastSrc b v ∧ printed v = u := by
  unfold printedOf
  constructor
  · intro h
    split at h
    · rename_i himg
      obtain ⟨b, hb⟩ := himg
      rw [← hb, List.drop_left, Option.map_eq_some_iff] at h
      obtain ⟨v, hv, rfl⟩ := h
      exact ⟨b, v, hb.symm, lastSrc_eq_some_iff.mp hv, rfl⟩
    · cases h
  · rintro ⟨b, v, hb, hv, rfl⟩
    rw [hb, if_pos (List.prefix_append img b), List.drop_left, lastSrc_eq_some_iff.mpr hv]
    rfl

/-- **The condition on a tag says what is made of it**: its source, or nothing. The condition is
about the text of the tag, and the other side is computed by the pipeline, so that this is where
the two meet; it also makes the condition decidable. -/
theorem good_iff {fits : List Char → Bool} {tag : Tag} :
    Good fits tag ↔ fetched fits tag = some tag.mark.value.toList := by
  -- the grammar of `xargs` and what is stripped, together
  have hprinted : ∀ {v w : List Char}, xargsLine fits (printed v) = some [w] ↔
      ¬ StrippedAway v ∧ ReadsAs v w ∧ fits w = true := by
    intro v w
    rw [printed, xargsLine_eq_singleton_iff]
    split
    · rename_i h
      exact ⟨fun hread => absurd hread.1 (by intro h; cases h), fun hnot => absurd h hnot.1⟩
    · rename_i h
      exact ⟨fun hread => ⟨h, hread⟩, fun hread => hread.2⟩
  have hblank : ∀ {v : List Char}, xargsLine fits (printed v) = some [] ↔
      (StrippedAway v ∨ ∀ c ∈ v, isGapSpace c = true) := by
    intro v
    rw [printed, xargsLine_eq_nil_iff]
    split
    · rename_i h
      exact ⟨fun _ => Or.inl h, fun _ c hc => absurd hc List.not_mem_nil⟩
    · rename_i h
      exact ⟨Or.inr, fun hor => hor.resolve_left h⟩
  unfold Good fetched
  cases hvalue : tag.mark.value with
  | some w =>
      dsimp only
      cases hshown : tag.shown with
      | false => simp
      | true =>
          rw [if_pos rfl]
          constructor
          · rintro ⟨-, b, v, hb, hv, hread⟩
            rw [printedOf_eq_some_iff.mpr ⟨b, v, hb, hv, rfl⟩]
            exact hprinted.mpr hread
          · intro h
            cases hp : printedOf tag.mark.after with
            | none =>
                rw [hp] at h
                cases h
            | some u =>
                rw [hp] at h
                obtain ⟨b, v, hb, hv, rfl⟩ := printedOf_eq_some_iff.mp hp
                exact ⟨rfl, b, v, hb, hv, hprinted.mp h⟩
  | none =>
      dsimp only
      cases hshown : tag.shown with
      | false => simp
      | true =>
          rw [if_pos rfl]
          cases hp : printedOf tag.mark.after with
          | none =>
              refine ⟨fun _ => rfl, fun _ _ b v hb hv => ?_⟩
              rw [printedOf_eq_some_iff.mpr ⟨b, v, hb, hv, rfl⟩] at hp
              cases hp
          | some u =>
              obtain ⟨b, v, hb, hv, rfl⟩ := printedOf_eq_some_iff.mp hp
              constructor
              · intro h
                exact hblank.mpr (h rfl b v hb hv)
              · intro h _ b' v' hb' hv'
                have hbb : b' = b := List.append_cancel_left (hb'.symm.trans hb)
                have hsame : LastSrc b v' := hbb ▸ hv'
                rw [hsame.unique hv]
                exact hblank.mp h

instance (fits : List Char → Bool) (tag : Tag) : Decidable (Good fits tag) :=
  decidable_of_iff _ good_iff.symm

/-- A tag of which as many arguments are made as it has sources, the right ones or not. -/
def Aligned (fits : List Char → Bool) (tag : Tag) : Prop :=
  ∃ ws, fetched fits tag = some ws ∧ ws.length = tag.mark.value.toList.length

/-- A good tag is one of these. -/
theorem Good.aligned {fits : List Char → Bool} {tag : Tag} (h : Good fits tag) :
    Aligned fits tag := ⟨_, good_iff.mp h, rfl⟩

/-! ## The page -/

/-- Lines that leave nothing open are read one by one. -/
theorem xargsArgs_flatMap_line {fits : List Char → Bool} {ts : List Tag}
    {g : Tag → List (List Char)} (h : ∀ tag ∈ ts, fetched fits tag = some (g tag)) :
    xargsArgs fits (ts.flatMap Tag.line) = ts.flatMap g := by
  induction ts with
  | nil => rfl
  | cons tag ts ih =>
      rw [List.flatMap_cons, List.flatMap_cons, xargsArgs_line (h tag List.mem_cons_self),
        ih fun tag' htag' => h tag' (List.mem_cons_of_mem tag htag')]

/-- The tags are the marks of the page, each with its own answer whether it is printed. -/
theorem map_mark_tags (x : Language) (tools : Tools) (page : List Char) :
    (tags x tools page).map Tag.mark = marks x img src [] 0 page := by
  rw [tags, List.map_append, List.map_map, List.map_map]
  show (List.map id _) ++ (List.map id _) = _
  rw [List.map_id, List.map_id, List.take_append_drop]

/-- The sources, tag by tag. -/
theorem sources_eq_flatMap (x : Language) (tools : Tools) (page : List Char) :
    sources x page = (tags x tools page).flatMap fun tag => tag.mark.value.toList := by
  rw [sources, values, ← map_mark_tags x tools page]
  induction tags x tools page with
  | nil => rfl
  | cons tag ts ih =>
      rw [List.map_cons, List.filterMap_cons, List.flatMap_cons, ← ih]
      cases tag.mark.value <;> rfl

/-- What is printed, tag by tag. -/
theorem extract_eq_flatMap (x : Language) (tools : Tools) (page : List Char) :
    extract tools (splitTags page) = (tags x tools page).flatMap Tag.line := by
  rw [extract_splitTags, ← map_after_marks x img src [] 0 page, tags, List.flatMap_append,
    List.flatMap_map, List.flatMap_map, ← List.map_take, List.flatMap_map]
  have hhidden : (((marks x img src [] 0 page).drop (shown tools page)).flatMap
      fun m => Tag.line ⟨m, false⟩) = [] := List.flatMap_eq_nil_iff.mpr fun m _ => rfl
  rw [hhidden, List.append_nil]
  rfl

/-- The arguments of all calls, read off the tags. -/
theorem flatten_calls {x : Language} {tools : Tools} {page : List Char}
    {g : Tag → List (List Char)}
    (h : ∀ tag ∈ tags x tools page, fetched tools.fits tag = some (g tag)) :
    (calls tools page).flatten = (tags x tools page).flatMap g := by
  rw [calls, flatten_xargsN1, extract_eq_flatMap x, xargsArgs_flatMap_line h]

/-- No call has more than one argument, so the arguments in their order are all there is to
compare. -/
theorem fetchesSources_iff_flatten {x : Language} {tools : Tools} {page : List Char} :
    FetchesSources x tools page ↔ (calls tools page).flatten = sources x page := by
  constructor
  · intro h
    exact h.arguments
  · intro h
    exact ⟨h, fun call hcall => length_of_mem_xargsN1 hcall⟩

/-- Pieces of the same lengths make the same text only if they are the same; a single pair of
other lengths cannot be made up for. -/
theorem flatMap_eq_flatMap_iff {α β : Type} {f g : α → List β} {l₁ l₂ : List α} {a : α}
    (h : ∀ b ∈ l₁ ++ l₂, (f b).length = (g b).length) :
    (l₁ ++ a :: l₂).flatMap f = (l₁ ++ a :: l₂).flatMap g ↔ ∀ b ∈ l₁ ++ a :: l₂, f b = g b := by
  refine ⟨fun heq => ?_, fun hsame => List.flatMap_congr hsame⟩
  induction l₁ with
  | nil =>
      -- the pieces behind `a` are as long together, so `a`'s two are as long as well
      have hlen : ∀ l : List α, (∀ b ∈ l, (f b).length = (g b).length) →
          (l.flatMap f).length = (l.flatMap g).length := by
        intro l hl
        rw [List.length_flatMap, List.length_flatMap, List.map_congr_left hl]
      rw [List.nil_append] at h heq ⊢
      rw [List.flatMap_cons, List.flatMap_cons] at heq
      have hhead : f a = g a := (List.append_inj' heq (hlen l₂ h)).1
      rw [hhead] at heq
      have hrest := List.append_cancel_left heq
      rw [List.forall_mem_cons]
      refine ⟨hhead, ?_⟩
      clear heq hhead
      induction l₂ with
      | nil => exact fun b hb => absurd hb List.not_mem_nil
      | cons b l ih =>
          rw [List.forall_mem_cons] at h ⊢
          rw [List.flatMap_cons, List.flatMap_cons] at hrest
          obtain ⟨hb, hl⟩ := List.append_inj hrest h.1
          exact ⟨hb, ih h.2 hl⟩
  | cons b l₁ ih =>
      rw [List.cons_append, List.forall_mem_cons] at h ⊢
      rw [List.cons_append, List.flatMap_cons, List.flatMap_cons] at heq
      obtain ⟨hb, hrest⟩ := List.append_inj heq h.1
      exact ⟨hb, ih h.2 hrest⟩

/-- **The image search** fetches exactly the sources of a page all of whose tags are good. The
other way round a tag that is not good spoils the page, unless another one makes up for it: if
all tags but one are aligned, and that one leaves nothing open, then the sources are fetched only
when all tags are good. The proof compares the two lists piece by piece: pieces of one length in
both lists stand at the same place, and one of other lengths would make the lists differ in
length. -/
theorem fetchesSources (x : Language) (tools : Tools) (page : List Char) :
    ((∀ tag ∈ tags x tools page, Good tools.fits tag) → FetchesSources x tools page) ∧
      ∀ ts₁ tag ts₂, tags x tools page = ts₁ ++ tag :: ts₂ →
        (∀ tag' ∈ ts₁ ++ ts₂, Aligned tools.fits tag') → fetched tools.fits tag ≠ none →
        (FetchesSources x tools page ↔ ∀ tag' ∈ tags x tools page, Good tools.fits tag') := by
  constructor
  · intro h
    rw [fetchesSources_iff_flatten, flatten_calls fun tag htag => good_iff.mp (h tag htag),
      ← sources_eq_flatMap]
  · intro ts₁ tag ts₂ htags haligned hopen
    -- no line leaves anything open, so `xargs` reads them one by one
    have hclosed : ∀ tag' ∈ tags x tools page,
        fetched tools.fits tag' = some ((fetched tools.fits tag').getD []) := by
      intro tag' htag'
      rw [htags, List.mem_append, List.mem_cons] at htag'
      rcases htag' with htag' | rfl | htag'
      · obtain ⟨ws, hws, -⟩ := haligned tag' (List.mem_append_left ts₂ htag')
        rw [hws]
        rfl
      · obtain ⟨ws, hws⟩ := Option.ne_none_iff_exists'.mp hopen
        rw [hws]
        rfl
      · obtain ⟨ws, hws, -⟩ := haligned tag' (List.mem_append_right ts₁ htag')
        rw [hws]
        rfl
    have hlen : ∀ tag' ∈ ts₁ ++ ts₂, ((fetched tools.fits tag').getD []).length =
        tag'.mark.value.toList.length := by
      intro tag' htag'
      obtain ⟨ws, hws, hlen⟩ := haligned tag' htag'
      rw [hws]
      exact hlen
    rw [fetchesSources_iff_flatten, flatten_calls hclosed, sources_eq_flatMap x tools, htags,
      flatMap_eq_flatMap_iff hlen, ← htags]
    refine forall₂_congr fun tag' htag' => ?_
    rw [good_iff, hclosed tag' htag']
    exact Option.some_inj.symm

/-- A tag whose own source is printed is good exactly when `xargs` has no use for any of its
characters. The common case, in which nothing has to be read as a word. -/
theorem good_iff_plain {fits : List Char → Bool} {tag : Tag} {b v : List Char}
    (hshown : tag.shown = true) (hvalue : tag.mark.value = some v)
    (hline : tagLine tag.mark.after = img ++ b) (hsrc : LastSrc b v) :
    Good fits tag ↔ ¬ StrippedAway v ∧ fits v = true ∧
      (∃ c, v.head? = some c ∧ isGapSpace c = false) ∧ ∀ c ∈ v, XargsPlain c := by
  unfold Good
  rw [hvalue]
  constructor
  · rintro ⟨-, b', v', hb', hv', hstrip, hread, hfits⟩
    have hbb : b' = b := List.append_cancel_left (hb'.symm.trans hline)
    obtain rfl := (hbb ▸ hv').unique hsrc
    exact ⟨hstrip, hfits, readsAs_self_iff.mp hread⟩
  · rintro ⟨hstrip, hfits, hplain⟩
    exact ⟨hshown, b, v, hline, hsrc, hstrip, readsAs_self_iff.mpr hplain, hfits⟩

/-- A computer where every argument fits. -/
def roomy : Tools where
  early := 0
  fits := fun _ => true

/-- The page `<p><img src="a.png"></p>`. -/
def plainPage : List Char :=
  ['<', 'p', '>', '<'] ++ img ++ ' ' :: srcQuote ++
    ['a', '.', 'p', 'n', 'g', '"', '>', '<', '/', 'p', '>']

theorem fetchesSources_plainPage : FetchesSources (ordinary someNames) roomy plainPage := by
  have hnul : '\x00' ∉ plainPage := by decide
  refine (fetchesSources (ordinary someNames) roomy plainPage).1 ?_
  rw [tags_of_not_mem hnul]
  decide

/-- The page `<img src="a.png" data-src="b.png">`. -/
def twoSources : List Char :=
  '<' :: img ++ ' ' :: srcQuote ++
    ['a', '.', 'p', 'n', 'g', '"', ' ', 'd', 'a', 't', 'a', '-'] ++ srcQuote ++
    ['b', '.', 'p', 'n', 'g', '"', '>']

/-- Of `<img src="a.png" data-src="b.png">` the second address is fetched. -/
theorem not_fetchesSources_twoSources : ¬ FetchesSources (ordinary someNames) roomy twoSources := by
  intro h
  have hargs := h.arguments
  rw [calls, flatten_xargsN1, extract_eq_flatMap (ordinary someNames),
    tags_of_not_mem (by decide)] at hargs
  exact absurd hargs (by decide)

end VideoUploader.ImgSearch
