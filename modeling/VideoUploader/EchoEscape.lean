/-
The `echo` builtin of bash, with and without `-e`.

`echo -e` is two things at once: a word made only of `-` and the letters `n`,
`e`, `E` is taken as options and prints nothing itself, and in any other word
backslash escapes are decoded, up to `\c`, which ends the output. What the word
contains is read first, as a list of `EchoUnit`s, and printed second, so that a
statement about a title can speak of what stands in it rather than of what was
printed.

The decoding works on bytes: `\0nnn` and `\xHH` produce any byte, also one that
is no character by itself. The terminal is taken to use UTF-8: `\u` and `\U` write a
code point in the encoding of the locale, and that is the one `u32toutf8` is for.
-/
import VideoUploader.Numerals
import VideoUploader.Utf8

set_option autoImplicit false

namespace Bash

open Utf8 Numerals

abbrev Bytes := List UInt8

/-! ## Options -/

/-- Whether `echo` takes the word as options: a `-` and at least one letter, and none but `n`,
`e` and `E`. The map `ch` says how the letters of the word are written, as bytes or as
characters. -/
def isEchoOption {α : Type*} [DecidableEq α] (ch : Char → α) : List α → Bool
  | [] => false
  | d :: s =>
      decide (d = ch '-') && !s.isEmpty &&
        s.all fun c => decide (c = ch 'n' ∨ c = ch 'e' ∨ c = ch 'E')

/-- `echo "$w"`. A word of options prints the final newline only, and with an `n` among them not
even that. -/
def echo {α : Type*} [DecidableEq α] (ch : Char → α) (w : List α) : List α :=
  if isEchoOption ch w then (if ch 'n' ∈ w then [] else [ch '\n']) else w ++ [ch '\n']

/-! ## Escapes -/

/-- One thing `echo -e` reads: some bytes to print, or `\c`. An escape stands for one character's
bytes at most, and a byte that is no backslash for itself. -/
inductive EchoUnit where
  | bytes (bs : Bytes)
  | stop
  deriving DecidableEq

/-- The escapes of one letter that stand for one byte. Bash has `\e` and `\E` beside those of the
standard. -/
def simpleEscape (c : UInt8) : Option UInt8 :=
  [(byte '\\', 0x5c), (byte 'a', 0x07), (byte 'b', 0x08), (byte 'e', 0x1b), (byte 'E', 0x1b),
   (byte 'f', 0x0c), (byte 'n', 0x0a), (byte 'r', 0x0d), (byte 't', 0x09),
   (byte 'v', 0x0b)].lookup c

/-- The character a byte is, read as ASCII or Latin-1. Only for asking whether it is a digit. -/
def letter (b : UInt8) : Char := Char.ofNat b.toNat

/-- The bytes of a code point, by the scheme UTF-8 was first defined with: up to
six bytes, surrogates included. -/
def u32toutf8 (v : ℕ) : Bytes :=
  let tail (unit : ℕ) : UInt8 := UInt8.ofNat (0x80 + v / unit % 0x40)
  if v < 0x80 then [UInt8.ofNat v]
  else if v < 0x800 then [UInt8.ofNat (0xc0 + v / 0x40), tail 0x1]
  else if v < 0x10000 then [UInt8.ofNat (0xe0 + v / 0x1000), tail 0x40, tail 0x1]
  else if v < 0x200000 then
    [UInt8.ofNat (0xf0 + v / 0x40000), tail 0x1000, tail 0x40, tail 0x1]
  else if v < 0x4000000 then
    [UInt8.ofNat (0xf8 + v / 0x1000000), tail 0x40000, tail 0x1000, tail 0x40, tail 0x1]
  else if v < 0x80000000 then
    [UInt8.ofNat (0xfc + v / 0x40000000), tail 0x1000000, tail 0x40000, tail 0x1000, tail 0x40,
      tail 0x1]
  else []

/-- What follows a backslash: how many bytes belong to the escape, and what it stands for. An
escape that is none keeps its backslash. The numeric ones take as many digits as they may, and
`\x`, `\u` and `\U` without any digit are none. -/
def readEscape : Bytes → ℕ × EchoUnit
  | [] => (0, .bytes [byte '\\'])
  | c :: s =>
      match simpleEscape c with
      | some b => (1, .bytes [b])
      | none =>
          if c = byte 'c' then (1, .stop)
          else if c = byte '0' then
            let ds := digits (octalDigit ∘ letter) 3 s
            (1 + ds.length, .bytes [UInt8.ofNat (number 8 ds)])
          else if c = byte 'x' then
            let ds := digits (hexDigit ∘ letter) 2 s
            if ds = [] then (1, .bytes [byte '\\', c])
            else (1 + ds.length, .bytes [UInt8.ofNat (number 16 ds)])
          else if c = byte 'u' ∨ c = byte 'U' then
            let ds := digits (hexDigit ∘ letter) (if c = byte 'u' then 4 else 8) s
            if ds = [] then (1, .bytes [byte '\\', c])
            else (1 + ds.length, .bytes (u32toutf8 (number 16 ds)))
          else (1, .bytes [byte '\\', c])

/-- The word as `echo -e` reads it. The counter is how many bytes of the last escape are still to
be skipped, which keeps the recursion on the word itself. -/
def echoUnits : ℕ → Bytes → List EchoUnit
  | _, [] => []
  | k + 1, _ :: s => echoUnits k s
  | 0, b :: s =>
      if b = byte '\\' then (readEscape s).2 :: echoUnits (readEscape s).1 s
      else .bytes [b] :: echoUnits 0 s

/-- What is printed of some units: everything up to the first `\c`, behind which `echo` prints
nothing more, its own newline included. -/
def shown : List EchoUnit → Bytes
  | [] => []
  | .stop :: _ => []
  | .bytes bs :: us => bs ++ shown us

/-- `echo -e "$w"`. Without a `\c` the output ends with a newline. -/
def echoE (w : Bytes) : Bytes :=
  if isEchoOption byte w then (if byte 'n' ∈ w then [] else [byte '\n'])
  else shown (echoUnits 0 w) ++ (if .stop ∈ echoUnits 0 w then [] else [byte '\n'])

/-! ## What the words without escapes print -/

/-- Skipping is dropping. -/
theorem echoUnits_skip (k : ℕ) (s : Bytes) : echoUnits k s = echoUnits 0 (s.drop k) := by
  induction k generalizing s with
  | zero => rfl
  | succ k ih =>
      rcases s with _ | ⟨b, s⟩
      · rfl
      · rw [echoUnits, ih, List.drop_succ_cons]

/-- A byte that is no backslash is a unit by itself. -/
theorem echoUnits_cons_of_ne {b : UInt8} (h : b ≠ byte '\\') (s : Bytes) :
    echoUnits 0 (b :: s) = .bytes [b] :: echoUnits 0 s := by
  rw [echoUnits, if_neg h]

/-- A backslash and what belongs to it are a unit, and reading goes on behind. -/
theorem echoUnits_backslash (s : Bytes) :
    echoUnits 0 (byte '\\' :: s) =
      (readEscape s).2 :: echoUnits 0 (s.drop (readEscape s).1) := by
  rw [echoUnits, if_pos rfl, echoUnits_skip]

/-- Bytes that are no backslash are printed as they are, whatever follows them. Only a backslash
looks ahead. -/
theorem shown_append_of_no_backslash {w : Bytes} (h : byte '\\' ∉ w) (s : Bytes) :
    shown (echoUnits 0 (w ++ s)) = w ++ shown (echoUnits 0 s) := by
  induction w with
  | nil => rfl
  | cons b w ih =>
      rw [List.mem_cons, not_or] at h
      rw [List.cons_append, echoUnits_cons_of_ne (Ne.symm h.1), shown, ih h.2]
      rfl

/-- A byte is shown exactly when something in front of the first `\c` stands for it. So whether a
title shows a slash can be seen from the title. -/
theorem mem_shown_iff {b : UInt8} {us : List EchoUnit} :
    b ∈ shown us ↔ ∃ us₁ bs us₂, us = us₁ ++ .bytes bs :: us₂ ∧ .stop ∉ us₁ ∧ b ∈ bs := by
  induction us with
  | nil => simp [shown]
  | cons u us ih =>
      cases u with
      | stop =>
          refine ⟨fun h => absurd h List.not_mem_nil, ?_⟩
          rintro ⟨us₁, bs, us₂, hus, hstop, -⟩
          rcases us₁ with _ | ⟨u, us₁⟩
          · injection hus with hu _
            cases hu
          · injection hus with hu _
            exact absurd (hu ▸ List.mem_cons_self) hstop
      | bytes bs =>
          rw [shown, List.mem_append, ih]
          constructor
          · rintro (hb | ⟨us₁, bs', us₂, rfl, hstop, hb⟩)
            · exact ⟨[], bs, us, rfl, List.not_mem_nil, hb⟩
            · refine ⟨.bytes bs :: us₁, bs', us₂, rfl, ?_, hb⟩
              rw [List.mem_cons, not_or]
              exact ⟨by simp, hstop⟩
          · rintro ⟨us₁, bs', us₂, hus, hstop, hb⟩
            rcases us₁ with _ | ⟨u, us₁⟩
            · injection hus with hu _
              injection hu with hbs
              exact Or.inl (hbs ▸ hb)
            · injection hus with _ hus
              rw [List.mem_cons, not_or] at hstop
              exact Or.inr ⟨us₁, bs', us₂, hus, hstop.2, hb⟩

/-- The letters behind which `echo -e` finds an escape. Before any other a backslash is printed.
-/
def echoLetters : List Char :=
  ['\\', 'a', 'b', 'e', 'E', 'f', 'n', 'r', 't', 'v', 'c', '0', 'x', 'u', 'U']

/-- Before any other byte the backslash stays, and the byte with it. -/
theorem readEscape_of_not_mem {b : UInt8} (h : b ∉ echoLetters.map byte) (s : Bytes) :
    readEscape (b :: s) = (1, .bytes [byte '\\', b]) := by
  simp only [echoLetters, List.map_cons, List.map_nil, List.mem_cons, List.not_mem_nil, or_false,
    not_or] at h
  have hsimple : simpleEscape b = none := by
    rw [simpleEscape, List.lookup_eq_none_iff]
    simp [h]
  simp only [readEscape, hsimple, h, if_false, or_self]

/-- A character without a backslash is printed as it is: none of its bytes is one, not even of a
character with several. -/
theorem shown_encodeChar_append {c : Char} (h : c ≠ '\\') (s : Bytes) :
    shown (echoUnits 0 (String.utf8EncodeChar c ++ s)) =
      String.utf8EncodeChar c ++ shown (echoUnits 0 s) := by
  refine shown_append_of_no_backslash (fun hmem => h ?_) s
  exact ((byte_mem_encodeChar_iff (by decide)).mp hmem).symm

/-- A backslash before a character that forms no escape with it is printed, and the
character behind it. -/
theorem shown_backslash_of_not_mem {c : Char} (h : c ∉ echoLetters) (s : Bytes) :
    shown (echoUnits 0 (byte '\\' :: (String.utf8EncodeChar c ++ s))) =
      byte '\\' :: (String.utf8EncodeChar c ++ shown (echoUnits 0 s)) := by
  have hbyte : ∀ b ∈ String.utf8EncodeChar c, b ∉ echoLetters.map byte := by
    intro b hb hmem
    obtain ⟨a, ha, rfl⟩ := List.mem_map.mp hmem
    have hascii : echoLetters.all (fun a => decide (IsAscii a)) = true := by decide
    rw [byte_mem_encodeChar_iff (of_decide_eq_true (List.all_eq_true.mp hascii a ha))] at hb
    exact h (hb ▸ ha)
  obtain ⟨b, w, hc⟩ := List.exists_cons_of_ne_nil (encodeChar_ne_nil c)
  rw [hc] at hbyte ⊢
  have hw : byte '\\' ∉ w := fun hmem =>
    hbyte (byte '\\') (List.mem_cons_of_mem b hmem) (by decide)
  rw [echoUnits_backslash, List.cons_append, readEscape_of_not_mem (hbyte b List.mem_cons_self)]
  simp only [List.drop_succ_cons, List.drop_zero, shown]
  rw [shown_append_of_no_backslash hw]
  rfl

example : shown (echoUnits 0 (encode ['a', '\\', '0', '1', '0', '1', '\\', 'c', 'z'])) =
    encode ['a', 'A'] := by decide

end Bash
