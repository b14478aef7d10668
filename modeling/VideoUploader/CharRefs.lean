/-
The character references of HTML, as they stand in the values of attributes.

A `&` may begin a reference, which stands for other characters: by their number, or by one
of the names in a table that belongs to the language. Neither kind need end in a semicolon.
A name without one is left alone where it seems to go on, so that addresses with queries
(`?a=1&copy=2`) mean what they say; and what is no reference stands for itself.

The table has some two thousand names and is a parameter. What is proved here holds for
every table: text without `&`, carriage returns and NUL stands for itself.
-/
import VideoUploader.Newlines
import VideoUploader.Numerals

set_option autoImplicit false

namespace Html

open Newlines Numerals

/-! ## One reference -/

/-- The table of the named references: what a name stands for, with its semicolon if it has
one, and without the `&`. -/
abbrev CharNames := List Char → Option (List Char)

/-- Numbers of control characters that are read as those of another character set, as pages were
written in it and said otherwise; every other number is its own. -/
def windows1252 : ℕ → ℕ
  | 0x80 => 0x20ac | 0x82 => 0x201a | 0x83 => 0x0192 | 0x84 => 0x201e | 0x85 => 0x2026
  | 0x86 => 0x2020 | 0x87 => 0x2021 | 0x88 => 0x02c6 | 0x89 => 0x2030 | 0x8a => 0x0160
  | 0x8b => 0x2039 | 0x8c => 0x0152 | 0x8e => 0x017d | 0x91 => 0x2018 | 0x92 => 0x2019
  | 0x93 => 0x201c | 0x94 => 0x201d | 0x95 => 0x2022 | 0x96 => 0x2013 | 0x97 => 0x2014
  | 0x98 => 0x02dc | 0x99 => 0x2122 | 0x9a => 0x0161 | 0x9b => 0x203a | 0x9c => 0x0153
  | 0x9e => 0x017e | 0x9f => 0x0178
  | n => n

/-- The character with a number. What is no character (zero, a surrogate, a number beyond the
last one) becomes the replacement character, and the text goes on behind it. -/
def numericChar (n : ℕ) : Char :=
  if n = 0 ∨ 0x10ffff < n ∨ (0xd800 ≤ n ∧ n ≤ 0xdfff) then '\ufffd' else Char.ofNat (windows1252 n)

/-- The digits a text begins with: their character, and how much they take with the semicolon
behind them, if there is one. -/
def numeric (base : ℕ) (value : Char → Option ℕ) (s : List Char) : Option (List Char × ℕ) :=
  let ds := digits value s.length s
  if ds = [] then none
  else some ([numericChar (number base ds)],
    ds.length + if s[ds.length]? = some ';' then 1 else 0)

/-- The longest name a text begins with. Without a semicolon at its end it is none where a
letter, a digit or a `=` follows: in an attribute that is more likely the query of an address. -/
def named (table : CharNames) (s : List Char) : Option (List Char × ℕ) :=
  (s.inits.reverse.findSome? fun p => (table p).map fun w => (p, w)).bind fun x =>
    if x.1.getLast? = some ';' ∨
        (s[x.1.length]?).all (fun c => decide (c ≠ '=') && !c.isAlphanum) = true then
      some (x.2, x.1.length)
    else none

/-- What the reference behind a `&` stands for, and how many characters it takes. Nothing, where
what follows is neither a number nor a name of the table. -/
def reference (table : CharNames) : List Char → Option (List Char × ℕ)
  | '#' :: 'x' :: s => (numeric 16 hexDigit s).map fun x => (x.1, x.2 + 2)
  | '#' :: 'X' :: s => (numeric 16 hexDigit s).map fun x => (x.1, x.2 + 2)
  | '#' :: s => (numeric 10 decimalDigit s).map fun x => (x.1, x.2 + 1)
  | s => named table s

/-! ## Values -/

/-- A text with its references replaced. The counter is how many characters of the last
reference are still to be passed. -/
def decodeRefs (table : CharNames) : ℕ → List Char → List Char
  | _, [] => []
  | k + 1, _ :: s => decodeRefs table k s
  | 0, c :: s =>
      if c = '&' then
        match reference table s with
        | some x => x.1 ++ decodeRefs table x.2 s
        | none => c :: decodeRefs table 0 s
      else c :: decodeRefs table 0 s

/-- The value of an attribute that is written `v`: line endings are newlines, NUL is replaced,
and references stand for their characters. What a reference stands for is not read again. -/
def attrText (table : CharNames) (v : List Char) : List Char :=
  decodeRefs table 0 ((normNewlines v).map fun c => if c = '\x00' then '\ufffd' else c)

/-- A text without `&` has no references. -/
theorem decodeRefs_of_not_mem {table : CharNames} {s : List Char} (h : '&' ∉ s) :
    decodeRefs table 0 s = s := by
  induction s with
  | nil => rfl
  | cons c s ih =>
      rw [List.mem_cons, not_or] at h
      rw [decodeRefs, if_neg (Ne.symm h.1), ih h.2]

/-- **Plain text is its own value**, whatever names the table has: there is no reference in it,
no line ending that is written otherwise, and no character that is replaced. -/
theorem attrText_of_not_mem {table : CharNames} {v : List Char} (href : '&' ∉ v)
    (hreturn : '\r' ∉ v) (hnul : '\x00' ∉ v) : attrText table v = v := by
  have hmap : (v.map fun c => if c = '\x00' then '\ufffd' else c) = v := by
    conv_rhs => rw [← List.map_id v]
    refine List.map_congr_left fun c hc => if_neg ?_
    rintro rfl
    exact hnul hc
  rw [attrText, normNewlines_of_not_mem hreturn, hmap, decodeRefs_of_not_mem href]

/-- Some names of the table, among them one that need not end in a semicolon. Enough to run the
definitions on. -/
def someNames : CharNames := fun p =>
  if p = ['a', 'm', 'p', ';'] ∨ p = ['a', 'm', 'p'] then some ['&']
  else if p = ['l', 't', ';'] ∨ p = ['l', 't'] then some ['<']
  else if p = ['c', 'o', 'p', 'y', ';'] ∨ p = ['c', 'o', 'p', 'y'] then some ['\u00a9']
  else none

/-- `a&amp;b`, `&copy=2`, `&#x41;` and `&#65`. -/
example : attrText someNames ['a', '&', 'a', 'm', 'p', ';', 'b'] = ['a', '&', 'b'] ∧
    attrText someNames ['&', 'c', 'o', 'p', 'y', '=', '2'] = ['&', 'c', 'o', 'p', 'y', '=', '2'] ∧
    attrText someNames ['&', '#', 'x', '4', '1', ';'] = ['A'] ∧
    attrText someNames ['&', '#', '6', '5'] = ['A'] := by decide

end Html
