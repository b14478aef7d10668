/-
The title on the news banner and on the video cover: `video-uploader.sh`,
lines 180 to 193.

The title is put between the double quotes of a draw command, and it is the
text of an annotation, both times as it is. How ImageMagick reads texts and
draw commands is a parameter, with the documented behaviour the script relies
on as hypotheses.
-/
import VideoUploader.Expansion
import VideoUploader.VideoTitle
import Mathlib.Algebra.GroupWithZero.Nat
import Mathlib.Algebra.Order.Group.Nat
import Mathlib.Algebra.Order.Monoid.Prod
import Mathlib.Data.Prod.Lex

set_option autoImplicit false

namespace VideoUploader.TitleImages

open Bash Utf8 Expansion VideoTitle

/-! ## ImageMagick -/

/-- What a text to draw comes to: bytes, or whatever a file holds. -/
inductive Text where
  | literal (bs : Bytes)
  | file (name : Bytes)
  deriving DecidableEq

/-- A primitive of a draw command that ends in a string. -/
structure Primitive where
  head : Bytes
  text : Text
  deriving DecidableEq

/-- How ImageMagick reads what is drawn on one image: the escapes of its texts (which
may stand for properties of the image), and the primitives that follow the first
string of a draw command. -/
structure Reader where
  escape : Escapes UInt8
  primitives : Bytes → List Primitive

/-- The weight of a text: its percent signs count first, its backslashes next, its
length last. -/
def weigh (b : UInt8) : ℕ ×ₗ ℕ ×ₗ ℕ :=
  toLex (if b = byte '%' then 1 else 0, toLex (if b = byte '\\' then 1 else 0, 1))

/-- What is documented. A backslash and the byte behind it form an escape. What
stands in an escape's place has fewer percent signs than the escape (`%%` stands for one,
a property of the image has none), or as many and fewer backslashes (`\n`, `\\`), or as
many of both and is shorter (`&lt;`). Nothing follows a draw command that has ended. -/
structure Reader.Documented (r : Reader) : Prop where
  backslash : ∀ prev b s, r.escape prev (byte '\\' :: b :: s) ≠ none
  lighter : Lighter r.escape weigh
  nothing : r.primitives [] = []

/-- The text that is drawn: one that starts with `@` names a file, in any other the
escapes are replaced. -/
def Reader.text (r : Reader) : Bytes → Text
  | [] => .literal []
  | b :: s => if b = byte '@' then .file s else .literal (expand r.escape 0 none (b :: s))

/-- The string behind a double quote, and what follows it. It ends at the next double
quote that has no backslash in front (the flag says that one is), and a backslash in
front of a quote is not part of it. -/
def readString : Bool → Bytes → Bytes × Bytes
  | _, [] => ([], [])
  | escaped, b :: s =>
      if b = byte '"' ∧ escaped = false then ([], s)
      else if b = byte '\\' ∧ s.head? = some (byte '"') then readString true s
      else (b :: (readString false s).1, (readString false s).2)

/-- The primitives of a draw command. What follows the first string may be more of them. -/
def Reader.draw (r : Reader) (command : Bytes) : List Primitive :=
  match command.dropWhile fun b => decide (b ≠ byte '"') with
  | [] => r.primitives command
  | _ :: s =>
      ⟨command.takeWhile fun b => decide (b ≠ byte '"'), r.text (readString false s).1⟩ ::
        r.primitives (readString false s).2

/-! ## Lines 182 and 193 -/

/-- `text 190,65 `, which stands in front of the title on the banner. -/
def position : Bytes :=
  encode ['t', 'e', 'x', 't', ' ', '1', '9', '0', ',', '6', '5', ' ']

/-- `'text 190,65 "'"$title"'"'`. The quotes are part of the command, and the title stands
between them as it is. -/
def drawCommand (t : Title) : Bytes := position ++ byte '"' :: (t.bytes ++ [byte '"'])

/-- `-annotate +0+395 "$title"`, where the title is the whole argument. -/
def coverText (t : Title) : Bytes := t.bytes

/-- Both images show the title, and nothing else is drawn or read. -/
structure DrawsTitle (banner cover : Reader) (t : Title) : Prop where
  on_banner : banner.draw (drawCommand t) = [⟨position, .literal t.bytes⟩]
  on_cover : cover.text (coverText t) = .literal t.bytes

/-- A text that nothing in ImageMagick reads as anything but itself. Quotes and backslashes are
the banner's, which is drawn from a string in a command; the other conditions are those of any
text. -/
structure DrawnAsIs (banner cover : Reader) (bs : Bytes) : Prop where
  no_quote : byte '"' ∉ bs
  no_backslash : byte '\\' ∉ bs
  no_file : bs.head? ≠ some (byte '@')
  banner_plain : Plain banner.escape none bs
  cover_plain : Plain cover.escape none bs

/-! ## Reading a text -/

/-- A text without escapes, and without `@` in front, is drawn as it stands. -/
theorem Reader.text_of_plain {r : Reader} {s : Bytes} (hat : s.head? ≠ some (byte '@'))
    (hs : Plain r.escape none s) : r.text s = .literal s := by
  rcases s with _ | ⟨b, s⟩
  · rfl
  · have hb : b ≠ byte '@' := fun h => hat (by rw [h]; rfl)
    rw [Reader.text, if_neg hb, expand_of_plain hs]

/-- A text that comes to a literal names no file, and the literal is its expansion. -/
theorem Reader.text_eq_literal {r : Reader} {s v : Bytes} (h : r.text s = .literal v) :
    s.head? ≠ some (byte '@') ∧ v = expand r.escape 0 none s := by
  rcases s with _ | ⟨b, s⟩
  · cases h
    exact ⟨by simp, rfl⟩
  · rw [Reader.text] at h
    split at h
    · cases h
    · next hb =>
        cases h
        exact ⟨fun hhead => hb (Option.some.inj hhead), rfl⟩

/-! ## Reading a string -/

theorem weigh_pos (b : UInt8) : 0 < weigh b := by
  unfold weigh
  split
  · split
    · decide
    · decide
  · split
    · decide
    · decide

/-- No text weighs less than nothing. -/
theorem weight_nonneg (s : Bytes) : 0 ≤ weight weigh s := by
  induction s with
  | nil => exact le_refl _
  | cons b s ih =>
      rw [weight_cons]
      exact add_nonneg (weigh_pos b).le ih

/-- A quote weighs less than the backslash that is lost in front of it. -/
theorem weigh_quote_lt : weigh (byte '"') < weigh (byte '\\') := by decide

/-- What is read is no heavier than what stands there; behind a backslash, the quote
that would have ended the string can come on top. -/
theorem weight_readString_le (escaped : Bool) (s : Bytes) :
    weight weigh (readString escaped (s ++ [byte '"'])).1 ≤
      weight weigh s + if escaped then weigh (byte '"') else 0 := by
  induction s generalizing escaped with
  | nil => cases escaped <;> decide
  | cons b s ih =>
      have hflag : (0 : ℕ ×ₗ ℕ ×ₗ ℕ) ≤ if escaped then weigh (byte '"') else 0 := by
        cases escaped <;> decide
      rw [List.cons_append, readString]
      split
      · exact add_nonneg (weight_nonneg _) hflag
      · split
        · next hb =>
            calc weight weigh (readString true (s ++ [byte '"'])).1
                ≤ weight weigh s + weigh (byte '"') := ih true
              _ ≤ weight weigh s + weigh b := by
                  rw [hb.1]
                  exact add_le_add_right weigh_quote_lt.le _
              _ = weight weigh (b :: s) := by rw [weight_cons, add_comm]
              _ ≤ _ := le_add_of_nonneg_right hflag
        · have hrest := ih false
          rw [if_neg Bool.false_ne_true, add_zero] at hrest
          rw [weight_cons, weight_cons]
          exact (add_le_add_right hrest (weigh b)).trans (le_add_of_nonneg_right hflag)

/-- A quote in a text, or a backslash at its end, makes the string that is read lighter
than the text. -/
theorem weight_readString_lt {s : Bytes}
    (h : byte '"' ∈ s ∨ s.getLast? = some (byte '\\')) :
    weight weigh (readString false (s ++ [byte '"'])).1 < weight weigh s := by
  induction s with
  | nil =>
      rcases h with h | h
      · cases h
      · cases h
  | cons b s ih =>
      rw [List.cons_append, readString, weight_cons]
      by_cases hq : b = byte '"'
      · rw [if_pos ⟨hq, rfl⟩]
        exact add_pos_of_pos_of_nonneg (weigh_pos b) (weight_nonneg s)
      · rw [if_neg (fun hx => hq hx.1)]
        by_cases hb : b = byte '\\' ∧ (s ++ [byte '"']).head? = some (byte '"')
        · -- the backslash is lost, and at most the closing quote is won
          rw [if_pos hb]
          calc weight weigh (readString true (s ++ [byte '"'])).1
              ≤ weight weigh s + weigh (byte '"') := weight_readString_le true s
            _ < weight weigh s + weigh b := by
                rw [hb.1]
                exact add_lt_add_right weigh_quote_lt _
            _ = weigh b + weight weigh s := add_comm _ _
        · rw [if_neg hb, weight_cons]
          refine add_lt_add_right (ih ?_) (weigh b)
          rcases h with h | h
          · exact Or.inl ((List.mem_cons.mp h).resolve_left (Ne.symm hq))
          · rcases s with _ | ⟨c, s⟩
            · exact absurd ⟨Option.some.inj h, rfl⟩ hb
            · rw [List.getLast?_cons_cons] at h
              exact Or.inr h

/-- A text without quotes and backslashes is read as it is, and ends where the command's own
quote is. -/
theorem readString_of_not_mem {s : Bytes} (hq : byte '"' ∉ s) (hb : byte '\\' ∉ s) :
    readString false (s ++ [byte '"']) = (s, []) := by
  induction s with
  | nil => decide
  | cons b s ih =>
      rw [List.mem_cons, not_or] at hq hb
      rw [List.cons_append, readString, if_neg (fun hx => hq.1 hx.1.symm),
        if_neg (fun hx => hb.1 hx.1.symm), ih hq.2 hb.2]

/-! ## The two texts -/

/-- Line 182, as ImageMagick reads it: the string in the command, and whatever a quote in the
title has left behind it. -/
theorem draw_drawCommand (r : Reader) (t : Title) :
    r.draw (drawCommand t) =
      ⟨position, r.text (readString false (t.bytes ++ [byte '"'])).1⟩ ::
        r.primitives (readString false (t.bytes ++ [byte '"'])).2 := by
  have hpos : ∀ b ∈ position, decide (b ≠ byte '"') = true :=
    List.all_eq_true.mp (by decide)
  unfold Reader.draw drawCommand
  rw [List.dropWhile_append_of_pos hpos, List.takeWhile_append_of_pos hpos]
  simp

/-- **The title on the images.** The title is drawn as it is on both images exactly when
it has no double quote, no backslash and no escape of ImageMagick's, and does not begin
with `@`. -/
theorem drawsTitle_iff {banner cover : Reader} (hbanner : banner.Documented)
    (hcover : cover.Documented) (t : Title) :
    DrawsTitle banner cover t ↔ DrawnAsIs banner cover t.bytes := by
  constructor
  · intro h
    obtain ⟨hat, hexp⟩ := Reader.text_eq_literal h.on_cover
    have hcov : Plain cover.escape none t.bytes :=
      (expand_eq_self_iff hcover.lighter).mp hexp.symm
    have hdraw := h.on_banner
    rw [draw_drawCommand] at hdraw
    injection hdraw with hprim _
    injection hprim with _ htext
    -- the string that is read comes to the title, so it is no lighter than the title
    have hread := (Reader.text_eq_literal htext).2
    have hle := weight_expand_le hbanner.lighter 0 none
      (readString false (t.bytes ++ [byte '"'])).1
    rw [← hread, List.drop_zero] at hle
    have hno : ¬ (byte '"' ∈ t.bytes ∨ t.bytes.getLast? = some (byte '\\')) := fun hx =>
      absurd (weight_readString_lt hx) (not_lt_of_ge hle)
    rw [not_or] at hno
    have hbs : byte '\\' ∉ t.bytes := by
      intro hmem
      obtain ⟨a, s, hs⟩ := List.append_of_mem hmem
      rcases s with _ | ⟨b, s⟩
      · exact hno.2 (by rw [hs, List.getLast?_concat])
      · rw [hs] at hcov
        obtain ⟨prev, hprev⟩ := hcov.of_append
        exact hcover.backslash prev b s hprev
    rw [readString_of_not_mem hno.1 hbs] at hread
    exact ⟨hno.1, hbs, hat, (expand_eq_self_iff hbanner.lighter).mp hread.symm, hcov⟩
  · intro h
    constructor
    · rw [draw_drawCommand, readString_of_not_mem h.no_quote h.no_backslash,
        Reader.text_of_plain h.no_file h.banner_plain, hbanner.nothing]
    · exact Reader.text_of_plain h.no_file h.cover_plain

/-! ## ImageMagick by its manual

The escapes of its list of percent escapes that every text can have, and the size of the
image. A percent sign behind a digit stays. -/

/-- The escapes of a text on an image of this size, by the manual: a backslash takes the next
character, and a percent sign stands for a property with the letter behind it. -/
def manualEscape (width height : Bytes) : Escapes UInt8
  | prev, b :: c :: s =>
      if b = byte '\\' then
        some (1, [if c = byte 'n' then byte '\n' else if c = byte 'r' then byte '\r' else c])
      else if b = byte '%' then
        if c = byte '%' then some (1, [byte '%'])
        else if prev.any fun d => decide (byte '0' ≤ d ∧ d ≤ byte '9') then none
        else if c = byte 'w' then some (1, width)
        else if c = byte 'h' then some (1, height)
        else none
      else if [b, c] ++ s.take 2 = encode ['&', 'l', 't', ';'] then some (3, [byte '<'])
      else if [b, c] ++ s.take 2 = encode ['&', 'g', 't', ';'] then some (3, [byte '>'])
      else if [b, c] ++ s.take 3 = encode ['&', 'a', 'm', 'p', ';'] then some (4, [byte '&'])
      else none
  | _, _ => none

/-- A reader by the manual; what is behind a string is no primitive. -/
def manual (width height : Bytes) : Reader := ⟨manualEscape width height, fun _ => []⟩

/-- The manual's escapes weigh more than what they stand for, as long as the size is written in
few digits. -/
theorem documented_manual {width height : Bytes}
    (hwidth : weight weigh width < weigh (byte '%'))
    (hheight : weight weigh height < weigh (byte '%')) : (manual width height).Documented := by
  have hpair : ∀ {b c : UInt8} {v : Bytes}, weight weigh v < weigh b →
      weight weigh v < weight weigh [b, c] := by
    intro b c v h
    rw [weight_cons]
    exact h.trans_le (le_add_of_nonneg_right (weight_nonneg [c]))
  constructor
  · intro prev b s
    simp [manual, manualEscape]
  · intro prev b s x hx
    rcases s with _ | ⟨c, s⟩
    · cases hx
    · change manualEscape width height prev (b :: c :: s) = some x at hx
      rw [manualEscape] at hx
      split_ifs at hx with h1 hn hr h2 h3 h4 h5 h6 h7 h8 h9
      · cases hx
        exact hpair (by rw [h1]; decide)
      · cases hx
        exact hpair (by rw [h1]; decide)
      · cases hx
        change weight weigh [c] < weight weigh [b, c]
        rw [weight_cons b]
        exact lt_add_of_pos_left _ (weigh_pos b)
      · cases hx
        change weight weigh [byte '%'] < weight weigh [b, c]
        rw [h2, h3]
        decide
      · cases hx
        exact hpair (by rw [h2]; exact hwidth)
      · cases hx
        exact hpair (by rw [h2]; exact hheight)
      · cases hx
        change _ < weight weigh ([b, c] ++ s.take 2)
        rw [h7]
        decide
      · cases hx
        change _ < weight weigh ([b, c] ++ s.take 2)
        rw [h8]
        decide
      · cases hx
        change _ < weight weigh ([b, c] ++ s.take 3)
        rw [h9]
        decide
  · rfl

/-- `news_banner_ai.png` is 1920 by 103. -/
def bannerReader : Reader := manual (encode ['1', '9', '2', '0']) (encode ['1', '0', '3'])

/-- The covers are 1920 by 1080. -/
def coverReader : Reader := manual (encode ['1', '9', '2', '0']) (encode ['1', '0', '8', '0'])

theorem documented_bannerReader : bannerReader.Documented :=
  documented_manual (by decide) (by decide)

theorem documented_coverReader : coverReader.Documented :=
  documented_manual (by decide) (by decide)

/-- The title `it's 100% & <ok>`, which has most of the characters that mean something elsewhere.
-/
def percentTitle : Title :=
  Title.ofBytes (encode ['i', 't', '\'', 's', ' ', '1', '0', '0', '%', ' ', '&', ' ', '<', 'o', 'k',
    '>']) (by decide)

theorem drawsTitle_percentTitle : DrawsTitle bannerReader coverReader percentTitle := by
  rw [drawsTitle_iff documented_bannerReader documented_coverReader]
  constructor <;> decide

/-- The title `The "best"`. -/
def quotedTitle : Title :=
  Title.ofBytes (encode ['T', 'h', 'e', ' ', '"', 'b', 'e', 's', 't', '"']) (by decide)

/-- Of `The "best"` the banner shows `The `, as its first quote ends the string. -/
theorem not_drawsTitle_quotedTitle : ¬ DrawsTitle bannerReader coverReader quotedTitle := by
  intro h
  exact absurd h.on_banner (by decide)

end VideoUploader.TitleImages
