/-
The title of the video, the folder named after it, and the link made from it:
`video-uploader.sh`, lines 23 and 109 to 110.

A title is whatever `read -r` can store. The folder is what is left of it after
`echo -e`, a `sed` that turns every space into an underscore, and a command
substitution. The two stages behind `echo -e` act on single bytes, so the whole
line is `decoded` followed by `fileName`.
-/
import VideoUploader.EchoEscape
import VideoUploader.StreamTools

set_option autoImplicit false

namespace VideoUploader.VideoTitle

open Bash Utf8 Posix

/-! ## What `read -r` stores

Line 23. `read` ends at the newline and drops NUL bytes; it strips the white space of
`IFS` from both ends. With `-r` a backslash is an ordinary byte. -/

/-- Neither a space nor a tab. -/
def NotBlank (b : Option UInt8) : Prop := b ≠ some (byte ' ') ∧ b ≠ some (byte '\t')

/-- A title, as the variable holds it: bytes, since `read` does not look at the encoding, with
what `read` has seen to as its fields. -/
structure Title where
  bytes : Bytes
  no_newline : byte '\n' ∉ bytes
  no_nul : 0 ∉ bytes
  head_not_blank : NotBlank bytes.head?
  last_not_blank : NotBlank bytes.getLast?

/-- The bytes a title can have, as one condition that can be decided. -/
def Storable (bs : Bytes) : Prop :=
  byte '\n' ∉ bs ∧ 0 ∉ bs ∧ NotBlank bs.head? ∧ NotBlank bs.getLast?

instance (bs : Bytes) : Decidable (Storable bs) := by
  unfold Storable NotBlank
  infer_instance

/-- A title from bytes that have been looked at. -/
def Title.ofBytes (bs : Bytes) (h : Storable bs) : Title :=
  ⟨bs, h.1, h.2.1, h.2.2.1, h.2.2.2⟩

/-- Titles with the same bytes are the same. -/
@[ext] theorem Title.ext {t t' : Title} (h : t.bytes = t'.bytes) : t = t' := by
  cases t
  cases t'
  cases h
  rfl

/-! ## Lines 109 and 110 -/

/-- `sed 's& &_&gI'`: the delimiter is `&`, and case has no bearing on a space. -/
def sedSpaces : Bytes → Bytes :=
  sed (byte '\n') (substAll (Regex.sat fun b => decide (b = byte ' ')) [byte '_'] 0)

/-- `titlefolder=$(echo -e "$title" | sed 's& &_&gI')`, line 109. The stages are those of the
pipeline, in its order. -/
def titlefolder (t : Title) : Bytes :=
  commandSubst 0 (byte '\n') (sedSpaces (echoE t.bytes))

/-- `text="https://www.fixapc.net/$titlefolder"`, line 110. -/
def text (t : Title) : Bytes := encode "https://www.fixapc.net/".toList ++ titlefolder t

/-! ## The stages of line 109 -/

/-- What `echo -e` shows of the title, its own final newline not counted. All that the folder
depends on is in these bytes. -/
def decoded (t : Title) : Bytes :=
  if isEchoOption byte t.bytes then [] else shown (echoUnits 0 t.bytes)

/-- What is shown, in terms of the title itself: a byte, or an escape that stands for some, in
front of the first `\c`. A title of options shows nothing. -/
theorem mem_decoded_iff {t : Title} {b : UInt8} :
    b ∈ decoded t ↔ isEchoOption byte t.bytes = false ∧
      ∃ us₁ bs us₂, echoUnits 0 t.bytes = us₁ ++ .bytes bs :: us₂ ∧ .stop ∉ us₁ ∧ b ∈ bs := by
  rw [decoded, ← mem_shown_iff]
  cases isEchoOption byte t.bytes <;> simp

/-- The byte `sed` leaves in place of a byte. -/
def underscore (b : UInt8) : UInt8 := if b = byte ' ' then byte '_' else b

/-- What becomes of the shown bytes: spaces are underscores, NUL bytes are dropped, and so are
the newlines at the end. Newlines elsewhere stay, as a name of a file may have them. -/
def fileName (bs : Bytes) : Bytes :=
  ((bs.map underscore).filter fun b => decide (b ≠ 0)).rdropWhile fun b => decide (b = byte '\n')

/-- The expression is one character, and no newline comes or goes, so line by line is the same as
byte by byte. -/
theorem sedSpaces_eq_map (bs : Bytes) : sedSpaces bs = bs.map underscore := by
  have hsubst : substAll (Regex.sat fun b => decide (b = byte ' ')) [byte '_'] 0 =
      fun l => l.flatMap fun b => [underscore b] := by
    funext l
    rw [substAll_sat]
    refine List.flatMap_congr fun b _ => ?_
    by_cases hb : b = byte ' '
    · simp [underscore, hb]
    · simp [underscore, hb]
  have hnl : [underscore (byte '\n')] = [byte '\n'] := by decide
  rw [sedSpaces, hsubst, sed_flatMap hnl, List.map_eq_flatMap]

/-- A final newline makes no difference to a command substitution. -/
theorem fileName_append_newline (bs : Bytes) : fileName (bs ++ [byte '\n']) = fileName bs := by
  have hnl : (([byte '\n'] : Bytes).map underscore).filter (fun b => decide (b ≠ 0)) =
      [byte '\n'] := by decide
  rw [fileName, List.map_append, List.filter_append, hnl,
    List.rdropWhile_concat_pos _ _ _ (by simp)]
  rfl

/-- **Line 109 in two steps.** What `echo -e` makes of the title is told apart from what the
other two stages make of any text, and only the first looks at escapes. -/
theorem titlefolder_eq (t : Title) : titlefolder t = fileName (decoded t) := by
  have hsubst : ∀ bs, commandSubst 0 (byte '\n') (sedSpaces bs) = fileName bs := by
    intro bs
    rw [sedSpaces_eq_map]
    rfl
  rw [titlefolder, hsubst, echoE, decoded]
  split
  · -- options print a newline at most
    split
    · rfl
    · rw [← List.nil_append [byte '\n'], fileName_append_newline]
  · split
    · -- a `\c` has swallowed the newline, which the command substitution would have dropped
      rw [List.append_nil]
    · rw [fileName_append_newline]

end VideoUploader.VideoTitle
