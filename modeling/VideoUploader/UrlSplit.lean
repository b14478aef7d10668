/-
Where a URL reference has its scheme and its authority, and what `urlparse` of the
Python standard library takes for them.

The syntax is the generic one: a scheme is a letter and then letters, digits and
`+`, `-`, `.`, up to the first colon; an authority stands between two slashes
and the next `/`, `?` or `#`. Python cleans the text first, lowers the scheme, and
refuses some authorities with an exception.
-/
import Mathlib.Data.List.Basic

set_option autoImplicit false

namespace Url

/-! ## Scheme and authority -/

/-- The characters of a scheme after its first one, which has to be a letter. -/
def isSchemeChar (c : Char) : Bool :=
  c.isAlphanum || c == '+' || c == '-' || c == '.'

/-- The scheme and what follows its colon, or `none` where the text has no scheme. Both the
standard and Python look at what is in front of the first colon. -/
def splitScheme (s : List Char) : Option (List Char × List Char) :=
  let w := s.takeWhile fun c => decide (c ≠ ':')
  match s.dropWhile fun c => decide (c ≠ ':') with
  | [] => none
  | _ :: rest => if w.head?.any Char.isAlpha && w.all isSchemeChar then some (w, rest) else none

/-- The authority a text behind the two slashes begins with: up to the path, the query or the
fragment. -/
def authority (s : List Char) : List Char :=
  s.takeWhile fun c => decide (c ≠ '/' ∧ c ≠ '?' ∧ c ≠ '#')

/-- Whether a text begins with two slashes and an authority that is not empty. -/
def HasAuthority : List Char → Prop
  | '/' :: '/' :: rest => authority rest ≠ []
  | _ => False

instance : DecidablePred HasAuthority := fun s => by
  unfold HasAuthority
  split <;> infer_instance

theorem not_isSchemeChar_colon : isSchemeChar ':' = false := by decide

/-- A scheme ends at the first colon of the text, so there is at most one way to split it. -/
theorem splitScheme_eq_some_iff {s w rest : List Char} :
    splitScheme s = some (w, rest) ↔
      s = w ++ ':' :: rest ∧ w.head?.any Char.isAlpha = true ∧ w.all isSchemeChar = true := by
  unfold splitScheme
  constructor
  · intro h
    have hs := List.takeWhile_append_dropWhile (p := fun c => decide (c ≠ ':')) (l := s)
    dsimp only at h
    split at h
    · cases h
    · rename_i d t hd
      split at h
      · rename_i hw
        cases h
        -- what the scan stopped at
        have hcolon : d = ':' := by
          have hne : s.dropWhile (fun c => decide (c ≠ ':')) ≠ [] := by rw [hd]; simp
          have hhead := List.head_dropWhile_not (fun c => decide (c ≠ ':')) hne
          simp only [hd, List.head_cons] at hhead
          simpa using hhead
        rw [hd, hcolon] at hs
        rw [Bool.and_eq_true] at hw
        exact ⟨hs.symm, hw⟩
      · cases h
  · rintro ⟨rfl, hhead, hall⟩
    -- no character of a scheme is a colon, so the scan goes through it
    have hw : ∀ c ∈ w, decide (c ≠ ':') = true := by
      intro c hc
      rw [List.all_eq_true] at hall
      have hsc := hall c hc
      rw [decide_eq_true_eq]
      rintro rfl
      rw [not_isSchemeChar_colon] at hsc
      cases hsc
    have htake : (w ++ ':' :: rest).takeWhile (fun c => decide (c ≠ ':')) = w := by
      rw [List.takeWhile_append_of_pos hw]
      simp
    have hdrop : (w ++ ':' :: rest).dropWhile (fun c => decide (c ≠ ':')) = ':' :: rest := by
      rw [List.dropWhile_append_of_pos hw]
      simp
    dsimp only
    rw [htake, hdrop]
    simp only [hhead, hall, Bool.and_self, if_true]

/-- A text that begins with a slash has no scheme. -/
theorem splitScheme_slash (s : List Char) : splitScheme ('/' :: s) = none := by
  rw [Option.eq_none_iff_forall_ne_some]
  rintro ⟨w, rest⟩ hw
  obtain ⟨hs, hhead, -⟩ := splitScheme_eq_some_iff.mp hw
  rcases w with _ | ⟨c, w⟩
  · simp at hhead
  · injection hs with hc _
    subst hc
    have hslash : ('/' : Char).isAlpha = true := hhead
    exact absurd hslash (by decide)

/-! ## `urlparse` -/

/-- The parts of the result that the selector looks at. -/
structure ParseResult where
  scheme : List Char
  netloc : List Char
  deriving DecidableEq

/-- A control character or a space, as stripped from the front. -/
def isC0OrSpace (c : Char) : Bool := decide (c.toNat ≤ 0x20)

/-- A tab or a line ending, removed wherever it stands. -/
def isUnsafeByte (c : Char) : Bool := c == '\t' || c == '\r' || c == '\n'

/-- Whether a `netloc` is accepted. Brackets must come in pairs. What stands in brackets must be
an address, and a host outside ASCII may not turn into delimiters under normalisation; these two
are left to `hostOk`. -/
def netlocAccepted (hostOk : List Char → Bool) (netloc : List Char) : Bool :=
  decide ('[' ∈ netloc ↔ ']' ∈ netloc) &&
    ((netloc.all fun c => decide (c.toNat < 0x80 ∧ c ≠ '[')) || hostOk netloc)

/-- The text `urlparse` looks at. The cleaning is not part of the result: the caller still has
the text as it was, and requests that. -/
def cleanUrl (s : List Char) : List Char :=
  (s.dropWhile isC0OrSpace).filter fun c => !isUnsafeByte c

/-- `urlparse`, or `none` where it raises `ValueError`. A scheme comes out in small letters, and
a missing one as the empty text. -/
def urlparse (hostOk : List Char → Bool) (s : List Char) : Option ParseResult :=
  let (scheme, url) :=
    match splitScheme (cleanUrl s) with
    | some (w, rest) => (w.map Char.toLower, rest)
    | none => ([], cleanUrl s)
  match url with
  | '/' :: '/' :: rest =>
      if netlocAccepted hostOk (authority rest) then some ⟨scheme, authority rest⟩ else none
  | _ => some ⟨scheme, []⟩

/-- The authority behind two slashes as `urlparse` reads it: the unsafe bytes are gone, something
is left, and it is accepted. -/
def HostReadable (hostOk : List Char → Bool) (rest : List Char) : Prop :=
  let netloc := authority (rest.filter fun c => !isUnsafeByte c)
  netloc ≠ [] ∧ netlocAccepted hostOk netloc = true

/-- Characters that cleaning never removes, at the front of a text: they stay, and stop it from
stripping anything more there. -/
theorem cleanUrl_append {c : Char} {w rest : List Char} (hc : isC0OrSpace c = false)
    (hw : (c :: w).all (fun d => !isUnsafeByte d) = true) :
    cleanUrl (c :: w ++ rest) = c :: w ++ rest.filter fun c => !isUnsafeByte c := by
  rw [cleanUrl, List.cons_append, List.dropWhile_cons_of_neg (by simp [hc]), ← List.cons_append,
    List.filter_append, List.filter_eq_self.mpr (List.all_eq_true.mp hw)]

/-- Cleaning takes nothing out of a scheme. -/
theorem isUnsafeByte_of_isSchemeChar {c : Char} (h : isSchemeChar c = true) :
    isUnsafeByte c = false := by
  by_contra hc
  rw [Bool.not_eq_false, isUnsafeByte, Bool.or_eq_true, Bool.or_eq_true, beq_iff_eq, beq_iff_eq,
    beq_iff_eq] at hc
  rcases hc with (rfl | rfl) | rfl <;> exact absurd h (by decide)

/-- Nor does it strip the letter a scheme begins with. -/
theorem isC0OrSpace_of_isAlpha {c : Char} (h : c.isAlpha = true) : isC0OrSpace c = false := by
  rw [isC0OrSpace, decide_eq_false_iff_not]
  intro hle
  have hn : c.val.toNat ≤ 32 := hle
  have hletter : (decide ('A'.val ≤ c.val ∧ c.val ≤ 'Z'.val) ||
      (decide ('a'.val ≤ c.val) && decide (c.val ≤ 'z'.val))) = true := h
  have hA : 'A'.val.toNat = 65 := rfl
  have ha : 'a'.val.toNat = 97 := rfl
  rw [Bool.or_eq_true, Bool.and_eq_true, decide_eq_true_eq, decide_eq_true_eq, decide_eq_true_eq,
    UInt32.le_iff_toNat_le, UInt32.le_iff_toNat_le, UInt32.le_iff_toNat_le] at hletter
  omega

/-- A text that begins with a scheme and two slashes keeps the scheme, in small letters, and its
authority is read as above. -/
theorem urlparse_of_scheme (hostOk : List Char → Bool) {w rest : List Char}
    (hhead : w.head?.any Char.isAlpha = true) (hall : w.all isSchemeChar = true) :
    urlparse hostOk (w ++ ':' :: '/' :: '/' :: rest) =
      let netloc := authority (rest.filter fun c => !isUnsafeByte c)
      if netlocAccepted hostOk netloc then some ⟨w.map Char.toLower, netloc⟩ else none := by
  have hclean : cleanUrl (w ++ ':' :: '/' :: '/' :: rest) =
      w ++ ':' :: '/' :: '/' :: rest.filter fun c => !isUnsafeByte c := by
    rcases w with _ | ⟨d, w⟩
    · simp at hhead
    · have hd : isC0OrSpace d = false := isC0OrSpace_of_isAlpha (by simpa using hhead)
      -- neither the scheme nor the three delimiters behind it are cleaned away
      have hkeep : (d :: (w ++ [':', '/', '/'])).all (fun c => !isUnsafeByte c) = true := by
        rw [List.all_eq_true]
        intro c hc
        rw [← List.cons_append, List.mem_append] at hc
        rcases hc with hc | hc
        · rw [isUnsafeByte_of_isSchemeChar (List.all_eq_true.mp hall c hc)]
          rfl
        · simp only [List.mem_cons, List.not_mem_nil, or_false] at hc
          rcases hc with rfl | rfl | rfl <;> rfl
      have hsplit := @cleanUrl_append d (w ++ [':', '/', '/']) rest hd hkeep
      simpa using hsplit
  rw [urlparse, hclean, splitScheme_eq_some_iff.mpr ⟨rfl, hhead, hall⟩]
  rfl

/-- A text that begins with two slashes has no scheme, but an authority. -/
theorem urlparse_of_slashes (hostOk : List Char → Bool) (rest : List Char) :
    urlparse hostOk ('/' :: '/' :: rest) =
      let netloc := authority (rest.filter fun c => !isUnsafeByte c)
      if netlocAccepted hostOk netloc then some ⟨[], netloc⟩ else none := by
  have hclean : cleanUrl ('/' :: '/' :: rest) =
      '/' :: '/' :: rest.filter fun c => !isUnsafeByte c :=
    cleanUrl_append (w := ['/']) (by decide) (by decide)
  rw [urlparse, hclean, splitScheme_slash]
  rfl

end Url
