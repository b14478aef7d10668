/-
Titles that a Python string literal leaves alone.

A title is put between the quotes of two literals as it is. It is clean when it is
well-formed UTF-8, has no single quote and no carriage return, and no backslash
of it forms an escape. The folder made from a clean title is then clean as
well: of the escapes `echo -e` knows, `\c`, `\e` and `\E` are not Python's, and
what they do is harmless there.
-/
import VideoUploader.PyLiteral
import VideoUploader.VideoTitle

set_option autoImplicit false

namespace VideoUploader.VideoTitle

open Bash Utf8 Python Posix

/-! ## Clean texts -/

/-- A text that stands for itself in a literal in single quotes, be it short or
triple, wherever it ends. -/
structure CleanText (cs : List Char) : Prop where
  noEscape : NoEscape cs
  no_quote : '\'' ∉ cs
  no_return : '\r' ∉ cs

instance (cs : List Char) : Decidable (CleanText cs) :=
  decidable_of_iff (NoEscape cs ∧ '\'' ∉ cs ∧ '\r' ∉ cs)
    ⟨fun h => ⟨h.1, h.2.1, h.2.2⟩, fun h => ⟨h.noEscape, h.no_quote, h.no_return⟩⟩

/-- The title is the encoding of a clean text. -/
def Clean (t : Title) : Prop := ∃ cs, encode cs = t.bytes ∧ CleanText cs

/-- Clean texts may be put together, as no backslash at the end of one waits for a character of
the other. -/
theorem CleanText.append {cs ds : List Char} (hc : CleanText cs) (hd : CleanText ds) :
    CleanText (cs ++ ds) := by
  refine ⟨hc.noEscape.append hd.noEscape, ?_, ?_⟩
  · rw [List.mem_append, not_or]
    exact ⟨hc.no_quote, hd.no_quote⟩
  · rw [List.mem_append, not_or]
    exact ⟨hc.no_return, hd.no_return⟩

/-! ## What `echo -e` shows of a clean text -/

/-- What is shown of a text without Python escapes: of the escapes of `echo -e`,
only `\c`, `\e` and `\E` can stand in it. -/
def shownText : List Char → List Char
  | '\\' :: c :: s =>
      if c = 'c' then []
      else if c = 'e' ∨ c = 'E' then '\x1b' :: shownText s
      else '\\' :: c :: shownText s
  | c :: s => c :: shownText s
  | [] => []

/-- What `echo -e` shows of a text that has no escapes for Python: it knows one escape that
Python does not. -/
theorem shown_encode {cs : List Char} (h : NoEscape cs) :
    shown (echoUnits 0 (encode cs)) = encode (shownText cs) := by
  have hbs : ∀ s, encode ('\\' :: s) = byte '\\' :: encode s := fun s => rfl
  have hread : ∀ (c : Char) (b : UInt8) (s : List Char), IsAscii c →
      readEscape (encode (c :: s)) = (1, .bytes [b]) →
      shown (echoUnits 0 (encode ('\\' :: c :: s))) = b :: shown (echoUnits 0 (encode s)) := by
    intro c b s hc hr
    rw [hbs, echoUnits_backslash, hr, encode_cons, encodeChar_of_isAscii hc]
    rfl
  fun_induction shownText cs with
  | case1 s => rfl
  | case2 c s hc he ih =>
      have hesc : encode ('\x1b' :: shownText s) = 0x1b :: encode (shownText s) := rfl
      rw [hesc, ← ih h.2.2]
      rcases he with rfl | rfl
      · exact hread _ _ _ (by decide) rfl
      · exact hread _ _ _ (by decide) rfl
  | case3 c s hc he ih =>
      obtain ⟨d, hd, hmem⟩ := h.1 rfl
      cases hd
      -- `c` is no letter of Python's escapes, and none of the three others
      have hletters : echoLetters.all (fun a =>
          decide (a ∈ 'c' :: 'e' :: 'E' :: escapeLetters)) = true := by decide
      have hecho : c ∉ echoLetters := by
        intro hm
        have hin := of_decide_eq_true (List.all_eq_true.mp hletters c hm)
        simp only [List.mem_cons] at hin
        rcases hin with h | h | h | h
        · exact hc h
        · exact he (Or.inl h)
        · exact he (Or.inr h)
        · exact hmem h
      rw [hbs, encode_cons, shown_backslash_of_not_mem hecho, ih h.2.2]
      rfl
  | case4 c s hs ih =>
      have hc : c ≠ '\\' := by
        intro hc
        obtain ⟨d, hd, -⟩ := h.1 hc
        rcases s with _ | ⟨e, s⟩
        · cases hd
        · exact hs e s hc rfl
      rw [encode_cons, shown_encodeChar_append hc, ih h.2, encode_cons]
  | case5 => rfl

/-- Nothing is shown but what is in the text, and the escape character. -/
theorem mem_shownText {c : Char} {cs : List Char} (h : c ∈ shownText cs) :
    c ∈ cs ∨ c = '\x1b' := by
  fun_induction shownText cs with
  | case1 s => cases h
  | case2 d s hd he ih =>
      rcases List.mem_cons.mp h with h | h
      · exact Or.inr h
      · exact (ih h).imp_left fun hm => List.mem_cons_of_mem _ (List.mem_cons_of_mem _ hm)
  | case3 d s hd he ih =>
      simp only [List.mem_cons] at h ⊢
      rcases h with h | h | h
      · exact Or.inl (Or.inl h)
      · exact Or.inl (Or.inr (Or.inl h))
      · exact (ih h).imp_left fun hm => Or.inr (Or.inr hm)
  | case4 d s hs ih =>
      rcases List.mem_cons.mp h with h | h
      · exact Or.inl (by simp [h])
      · exact (ih h).imp_left fun hm => List.mem_cons_of_mem _ hm
  | case5 => cases h

/-- What is shown of such a text is one again. -/
theorem noEscape_shownText {cs : List Char} (h : NoEscape cs) : NoEscape (shownText cs) := by
  fun_induction shownText cs with
  | case1 s => trivial
  | case2 c s hc he ih => exact ⟨fun hx => absurd hx (by decide), ih h.2.2⟩
  | case3 c s hc he ih =>
      obtain ⟨d, hd, hmem⟩ := h.1 rfl
      cases hd
      have hcb : c ≠ '\\' := fun hcb => hmem (by rw [hcb]; decide)
      exact ⟨fun _ => ⟨c, rfl, hmem⟩, fun hx => absurd hx hcb, ih h.2.2⟩
  | case4 c s hs ih =>
      refine ⟨fun hc => ?_, ih h.2⟩
      obtain ⟨d, hd, -⟩ := h.1 hc
      rcases s with _ | ⟨e, s⟩
      · cases hd
      · exact absurd rfl (hs e s hc)
  | case5 => trivial

/-! ## The folder of a clean title -/

/-- `underscore` on characters: only spaces are changed. -/
def underscoreChar (c : Char) : Char := if c = ' ' then '_' else c

/-- Bytes and characters agree on it, as a space is never part of another character. -/
theorem map_underscore_encode (cs : List Char) :
    (encode cs).map underscore = encode (cs.map underscoreChar) := by
  induction cs with
  | nil => rfl
  | cons c cs ih =>
      rw [List.map_cons, encode_cons, encode_cons, List.map_append, ih]
      congr 1
      by_cases hc : c = ' '
      · rw [hc]
        decide
      · have hsp : byte ' ' ∉ String.utf8EncodeChar c := fun hmem =>
          hc ((byte_mem_encodeChar_iff (by decide)).mp hmem).symm
        rw [underscoreChar, if_neg hc]
        refine (List.map_congr_left fun b hb => ?_).trans (List.map_id _)
        exact if_neg (fun hbs : b = byte ' ' => hsp (hbs ▸ hb))

/-- No character comes in but underscores. -/
theorem underscoreChar_ne {c d : Char} (hd : d ≠ '_') (h : c ≠ d) : underscoreChar c ≠ d := by
  rw [underscoreChar]
  split
  · exact Ne.symm hd
  · exact h

/-- Nor does an underscore make an escape of a backslash. -/
theorem noEscape_map_underscoreChar {cs : List Char} (h : NoEscape cs) :
    NoEscape (cs.map underscoreChar) := by
  induction cs with
  | nil => trivial
  | cons c cs ih =>
      refine ⟨fun hc => ?_, ih h.2⟩
      have hcb : c = '\\' := by
        by_contra hne
        exact underscoreChar_ne (by decide) hne hc
      obtain ⟨d, hd, hmem⟩ := h.1 hcb
      refine ⟨underscoreChar d, by rw [List.head?_map, hd]; rfl, ?_⟩
      rw [underscoreChar]
      split
      · decide
      · exact hmem

/-- A text without NUL and newline is its own file name, but for the spaces. -/
theorem fileName_encode {cs : List Char} (hnul : '\x00' ∉ cs) (hnl : '\n' ∉ cs) :
    fileName (encode cs) = encode (cs.map underscoreChar) := by
  have hmem : ∀ d : Char, IsAscii d → d ≠ '_' → d ∉ cs →
      byte d ∉ encode (cs.map underscoreChar) := by
    intro d hascii hd hcs hmem
    rw [byte_mem_encode_iff hascii, List.mem_map] at hmem
    obtain ⟨c, hc, hcd⟩ := hmem
    exact underscoreChar_ne hd (fun h => hcs (h ▸ hc)) hcd
  rw [fileName, map_underscore_encode, List.filter_eq_self.mpr, List.rdropWhile_eq_self_iff]
  · intro hne hlast
    have hb := hmem '\n' (by decide) (by decide) hnl
    rw [decide_eq_true_eq] at hlast
    exact hb (hlast ▸ List.getLast_mem hne)
  · intro b hb
    rw [decide_eq_true_eq]
    rintro rfl
    exact hmem '\x00' (by decide) (by decide) hnul hb

/-- **The folder of a clean title is clean**, and so is the link made from it. -/
theorem Clean.exists_text {t : Title} (h : Clean t) :
    ∃ ds, encode ds = text t ∧ CleanText ds := by
  obtain ⟨cs, hcs, hclean⟩ := h
  have hbase : CleanText "https://www.fixapc.net/".toList := by decide
  have hfolder : ∃ ds, encode ds = titlefolder t ∧ CleanText ds := by
    rw [titlefolder_eq, decoded]
    split
    · exact ⟨[], rfl, trivial, by simp, by simp⟩
    · have hkeep : ∀ d : Char, d ≠ '\x1b' → d ∉ cs → d ∉ shownText cs := by
        intro d hd hdcs hmem
        rcases mem_shownText hmem with h | h
        · exact hdcs h
        · exact hd h
      have hlift : ∀ d : Char, d ≠ '_' → d ∉ shownText cs →
          d ∉ (shownText cs).map underscoreChar := by
        intro d hd hds hmem
        obtain ⟨c, hc, hcd⟩ := List.mem_map.mp hmem
        exact underscoreChar_ne hd (fun h => hds (h ▸ hc)) hcd
      have hnul : '\x00' ∉ cs := fun hmem =>
        t.no_nul (hcs ▸ (byte_mem_encode_iff (by decide)).mpr hmem)
      have hnl : '\n' ∉ cs := fun hmem =>
        t.no_newline (hcs ▸ (byte_mem_encode_iff (by decide)).mpr hmem)
      refine ⟨(shownText cs).map underscoreChar, ?_, ?_, ?_, ?_⟩
      · rw [← hcs, shown_encode hclean.noEscape,
          fileName_encode (hkeep _ (by decide) hnul) (hkeep _ (by decide) hnl)]
      · exact noEscape_map_underscoreChar (noEscape_shownText hclean.noEscape)
      · exact hlift _ (by decide) (hkeep _ (by decide) hclean.no_quote)
      · exact hlift _ (by decide) (hkeep _ (by decide) hclean.no_return)
  obtain ⟨ds, hds, hcleands⟩ := hfolder
  exact ⟨_, by rw [encode_append, hds]; rfl, hbase.append hcleands⟩

end VideoUploader.VideoTitle
