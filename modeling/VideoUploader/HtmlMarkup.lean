/-
The markup of an HTML page: where elements begin, and what their attributes are.

This is the tokenizer of HTML as far as it decides which `<` begins an element: start
tags with their attributes in the three ways to write a value, end tags, comments, and the
elements whose content is text, scripts with their own comments among them. A tag the page
ends in is none. `marks` lists every `<` of a page, with the value of the attribute asked
for where an element of the name asked for begins.

The tokenizer does not stand alone. While the tree of the page is built it is decided which
element a start tag makes, how its content is read and whether a CDATA section may begin,
and that depends on all that was read before. Those decisions, with the table of the named
references, are a parameter here (`Language`); `ordinary` is what they come to in a page
without foreign elements.
-/
import VideoUploader.CharRefs

set_option autoImplicit false

namespace Html

/-! ## Attributes -/

/-- The white space of markup. -/
def isSpace (c : Char) : Bool :=
  decide (c = ' ' ∨ c = '\t' ∨ c = '\n' ∨ c = '\x0c' ∨ c = '\r')

/-- The value of an attribute, with the quotes it stands between, if any. They are kept, as the
search is for values in double quotes. -/
inductive Value where
  | missing
  | quoted (quote : Char) (text : List Char)
  | bare (text : List Char)

/-- An attribute of a tag, its name in small letters. -/
structure Attr where
  name : List Char
  value : Value

/-- Where the reader of a tag stands, and what it has read of the attribute it is in. -/
inductive AttrState where
  | before
  | name (acc : List Char)
  | afterName (name : List Char)
  | beforeValue (name : List Char)
  | quoted (name : List Char) (quote : Char) (acc : List Char)
  | bare (name acc : List Char)

/-- One more attribute in front of those read later. -/
def addAttr (name : List Char) (value : Value) (x : Option (List Attr × List Char)) :
    Option (List Attr × List Char) :=
  x.map fun y => (⟨name.map Char.toLower, value⟩ :: y.1, y.2)

/-- The attributes of a tag and what follows the tag, if it ends. A tag that the page ends in is
none, and has no attributes. -/
def readAttrs : AttrState → List Char → Option (List Attr × List Char)
  | _, [] => none
  | .before, c :: s =>
      if isSpace c ∨ c = '/' then readAttrs .before s
      else if c = '>' then some ([], s)
      else readAttrs (.name [c]) s
  | .name acc, c :: s =>
      if isSpace c then readAttrs (.afterName acc) s
      else if c = '/' then addAttr acc .missing (readAttrs .before s)
      else if c = '>' then addAttr acc .missing (some ([], s))
      else if c = '=' then readAttrs (.beforeValue acc) s
      else readAttrs (.name (acc ++ [c])) s
  | .afterName n, c :: s =>
      if isSpace c then readAttrs (.afterName n) s
      else if c = '/' then addAttr n .missing (readAttrs .before s)
      else if c = '>' then addAttr n .missing (some ([], s))
      else if c = '=' then readAttrs (.beforeValue n) s
      else addAttr n .missing (readAttrs (.name [c]) s)
  | .beforeValue n, c :: s =>
      if isSpace c then readAttrs (.beforeValue n) s
      else if c = '"' ∨ c = '\'' then readAttrs (.quoted n c []) s
      else if c = '>' then addAttr n .missing (some ([], s))
      else readAttrs (.bare n [c]) s
  | .quoted n q acc, c :: s =>
      if c = q then addAttr n (.quoted q acc) (readAttrs .before s)
      else readAttrs (.quoted n q (acc ++ [c])) s
  | .bare n acc, c :: s =>
      if isSpace c then addAttr n (.bare acc) (readAttrs .before s)
      else if c = '>' then addAttr n (.bare acc) (some ([], s))
      else readAttrs (.bare n (acc ++ [c])) s

/-- The double-quoted value of the attribute `name`, whose first occurrence counts. A second one
of the name is dropped, whatever its value. -/
def doubleQuoted (name : List Char) (attrs : List Attr) : Option (List Char) :=
  match attrs.find? fun a => decide (a.name = name) with
  | some ⟨_, .quoted '"' v⟩ => some v
  | _ => none

/-- A start tag, as the tokenizer hands it on. -/
structure Tag where
  name : List Char
  attrs : List Attr

/-! ## What is decided outside the tokenizer -/

/-- How what follows a start tag is read. -/
inductive Content where
  /-- As markup. -/
  | markup
  /-- As text, up to the end tag of the same name. -/
  | text
  /-- As a script. -/
  | script
  /-- As text, up to the end of the page. -/
  | plain
  deriving DecidableEq

/-- The decisions that the tokenizer leaves to the construction of the tree, and the table of
the named references. The first argument is what stands in front on the page, its last
character first. -/
structure Language where
  named : CharNames
  /-- The name of the element a start tag makes, if it makes one. -/
  element : List Char → Tag → Option (List Char)
  content : List Char → Tag → Content
  /-- Whether a CDATA section may begin. -/
  cdata : List Char → Bool

/-- The content of the elements that are not read as markup. All others are. -/
def contentOf (name : List Char) : Content :=
  if name = ['s', 'c', 'r', 'i', 'p', 't'] then .script
  else if name = ['p', 'l', 'a', 'i', 'n', 't', 'e', 'x', 't'] then .plain
  else if [['s', 't', 'y', 'l', 'e'], ['t', 'i', 't', 'l', 'e'],
    ['t', 'e', 'x', 't', 'a', 'r', 'e', 'a'], ['x', 'm', 'p'], ['i', 'f', 'r', 'a', 'm', 'e'],
    ['n', 'o', 'e', 'm', 'b', 'e', 'd'], ['n', 'o', 'f', 'r', 'a', 'm', 'e', 's']].any
    fun n => decide (n = name) then .text
  else .markup

/-- The decisions in the content of ordinary elements, without scripting: each start tag makes
the element of its name, but that `image` is another name of `img`. There are no CDATA sections
in it. -/
def ordinary (named : CharNames) : Language where
  named := named
  element := fun _ tag =>
    some (if tag.name = ['i', 'm', 'a', 'g', 'e'] then ['i', 'm', 'g'] else tag.name)
  content := fun _ tag => contentOf tag.name
  cdata := fun _ => false

/-! ## Markup -/

/-- What is behind the first `p`; nothing, where there is none. -/
def skipPast (p : List Char) : List Char → List Char
  | [] => []
  | c :: s => if p <+: c :: s then (c :: s).drop p.length else skipPast p s

/-- What is behind the first of two closings. -/
def skipEither (p q : List Char) : List Char → List Char
  | [] => []
  | c :: s =>
      if p <+: c :: s then (c :: s).drop p.length
      else if q <+: c :: s then (c :: s).drop q.length
      else skipEither p q s

/-- What is behind a comment, given what follows its `<!--`. A `>` or `->` right there closes
it at once; otherwise `-->` does, or `--!>`. -/
def skipComment (s : List Char) : List Char :=
  if ['>'] <+: s then s.drop 1
  else if ['-', '>'] <+: s then s.drop 2
  else skipEither ['-', '-', '>'] ['-', '-', '!', '>'] s

/-- Whether a text begins with `opening` and a name that ends there. Letters may be capitals. -/
def beginsTag (opening name s : List Char) : Bool :=
  decide ((s.take (opening ++ name).length).map Char.toLower = opening ++ name) &&
    (s[(opening ++ name).length]?).all fun c => isSpace c || decide (c = '/' ∨ c = '>')

/-- From the end tag of `name` on. All in front of it is text. -/
def skipTo (name : List Char) : List Char → List Char
  | [] => []
  | c :: s => if beginsTag ['<', '/'] name (c :: s) then c :: s else skipTo name s

/-- Where the reader of a script stands: in it, in a comment of it, or in what looks like
another script inside that comment. -/
inductive ScriptState where
  | plain
  | escaped
  | doubled

/-- From the end tag of a script on. In a comment the end tag of what looks like another
script does not end this one. -/
def skipScript : ScriptState → List Char → List Char
  | _, [] => []
  | .plain, c :: s =>
      if beginsTag ['<', '/'] ['s', 'c', 'r', 'i', 'p', 't'] (c :: s) then c :: s
      else if ['<', '!', '-', '-'] <+: c :: s then skipScript .escaped s
      else skipScript .plain s
  | .escaped, c :: s =>
      if beginsTag ['<', '/'] ['s', 'c', 'r', 'i', 'p', 't'] (c :: s) then c :: s
      else if beginsTag ['<'] ['s', 'c', 'r', 'i', 'p', 't'] (c :: s) then skipScript .doubled s
      else if ['-', '-', '>'] <+: c :: s then skipScript .plain s
      else skipScript .escaped s
  | .doubled, c :: s =>
      if beginsTag ['<', '/'] ['s', 'c', 'r', 'i', 'p', 't'] (c :: s) then skipScript .escaped s
      else if ['-', '-', '>'] <+: c :: s then skipScript .plain s
      else skipScript .doubled s

/-- From where markup is read again behind a start tag of `name`. Behind `plaintext` it never is.
-/
def skipContent (name : List Char) : Content → List Char → List Char
  | .markup, s => s
  | .text, s => skipTo name s
  | .script, s => skipScript .plain s
  | .plain, _ => []

/-- Whether a name goes on. Only white space and the end of the tag end it. -/
def isNameChar (c : Char) : Bool := !isSpace c && decide (c ≠ '/' ∧ c ≠ '>')

/-- The opening of a CDATA section behind its `<!`. -/
def cdataOpening : List Char := ['[', 'C', 'D', 'A', 'T', 'A', '[']

/-- What begins at a `<` with `front` in front of it, given what follows it: the value of the
attribute `attr` if the element `name` begins there, and what comes behind the markup. -/
def markup (x : Language) (name attr front : List Char) :
    List Char → Option (List Char) × List Char
  | [] => (none, [])
  | c :: s =>
      if c.isAlpha then
        match readAttrs .before ((c :: s).dropWhile isNameChar) with
        | none => (none, [])
        | some (attrs, rest) =>
            let tag : Tag := ⟨((c :: s).takeWhile isNameChar).map Char.toLower, attrs⟩
            (if x.element front tag = some name then
                (doubleQuoted attr attrs).map (attrText x.named)
              else none,
              skipContent tag.name (x.content front tag) rest)
      else if c = '/' then
        (none,
          match s with
          | [] => []
          | d :: _ =>
              if d.isAlpha then
                -- an end tag may carry attributes, which mean nothing
                ((readAttrs .before (s.dropWhile isNameChar)).map Prod.snd).getD []
              else skipPast ['>'] s)
      else if c = '!' then
        (none,
          if ['-', '-'] <+: s then skipComment (s.drop 2)
          else if cdataOpening <+: s ∧ x.cdata front then
            skipPast [']', ']', '>'] (s.drop cdataOpening.length)
          else skipPast ['>'] s)
      else if c = '?' then (none, skipPast ['>'] s)
      else (none, c :: s)

/-- In ordinary content nothing depends on what stands in front. -/
theorem markup_ordinary {named : CharNames} {name attr front s : List Char} :
    markup (ordinary named) name attr front s = markup (ordinary named) name attr [] s := by
  cases s <;> rfl

/-! ## The page -/

/-- A `<` of the page: what follows it, and the value of the attribute if an element with it
begins there. -/
structure Mark where
  after : List Char
  value : Option (List Char)

/-- Every `<` of a text that has `front` in front of it, last character first. The counter is
how many characters of the last markup are still to be passed; no element begins in those. -/
def marks (x : Language) (name attr : List Char) : List Char → ℕ → List Char → List Mark
  | _, _, [] => []
  | front, k + 1, c :: s =>
      if c = '<' then ⟨s, none⟩ :: marks x name attr (c :: front) k s
      else marks x name attr (c :: front) k s
  | front, 0, c :: s =>
      if c = '<' then
        ⟨s, (markup x name attr front s).1⟩ :: marks x name attr (c :: front)
          (s.length - (markup x name attr front s).2.length) s
      else marks x name attr (c :: front) 0 s

/-- What follows each `<` of a text, read without any markup. -/
def tails : List Char → List (List Char)
  | [] => []
  | c :: s => if c = '<' then s :: tails s else tails s

/-- No `<` is left out, and none counts twice. The induction is on the page, whatever stands in
front of it and whatever is still to be passed. -/
theorem map_after_marks (x : Language) (name attr front : List Char) (k : ℕ) (s : List Char) :
    (marks x name attr front k s).map Mark.after = tails s := by
  induction s generalizing front k with
  | nil => cases k <;> rfl
  | cons c s ih =>
      rw [tails]
      cases k with
      | zero =>
          rw [marks]
          split
          · rw [List.map_cons, ih]
          · exact ih (c :: front) 0
      | succ k =>
          rw [marks]
          split
          · rw [List.map_cons, ih]
          · exact ih (c :: front) k

/-- The values of the attribute `attr` of the elements `name`, in document order. -/
def values (x : Language) (name attr page : List Char) : List (List Char) :=
  (marks x name attr [] 0 page).filterMap Mark.value

/-- In a page of ordinary elements the marks of a text are the same wherever it stands. -/
theorem marks_ordinary {named : CharNames} {name attr : List Char} (front : List Char) (k : ℕ)
    (s : List Char) :
    marks (ordinary named) name attr front k s = marks (ordinary named) name attr [] k s := by
  induction s generalizing front k with
  | nil => cases k <;> rfl
  | cons c s ih =>
      cases k with
      | zero =>
          rw [marks, marks, markup_ordinary, ih (c :: front), ih (c :: front), ih [c], ih [c]]
      | succ k => rw [marks, marks, ih (c :: front), ih [c]]

section

variable {named : CharNames} {name attr : List Char}

/-- Text in front of the markup has no values. -/
theorem values_append_of_not_mem {u : List Char} (hu : '<' ∉ u) (s : List Char) :
    values (ordinary named) name attr (u ++ s) = values (ordinary named) name attr s := by
  induction u with
  | nil => rfl
  | cons c u ih =>
      rw [List.mem_cons, not_or] at hu
      rw [← ih hu.2, values, List.cons_append, marks, if_neg (Ne.symm hu.1), marks_ordinary]
      rfl

/-- No element begins in what is passed over. -/
theorem values_skip (u s : List Char) :
    (marks (ordinary named) name attr [] u.length (u ++ s)).filterMap Mark.value =
      values (ordinary named) name attr s := by
  induction u with
  | nil => rfl
  | cons c u ih =>
      rw [List.cons_append, List.length_cons, marks, marks_ordinary]
      split
      · rw [List.filterMap_cons_none rfl, ih]
      · exact ih

/-- A markup that ends in front of `rest`. With `values_append_of_not_mem` this reads a page
piece by piece. -/
theorem values_markup {u rest : List Char}
    (h : (markup (ordinary named) name attr [] (u ++ rest)).2 = rest) :
    values (ordinary named) name attr ('<' :: (u ++ rest)) =
      (markup (ordinary named) name attr [] (u ++ rest)).1.toList ++
        values (ordinary named) name attr rest := by
  have hlen : (u ++ rest).length - (markup (ordinary named) name attr [] (u ++ rest)).2.length =
      u.length := by
    rw [h, List.length_append, Nat.add_sub_cancel]
  rw [← values_skip u rest, values, marks, if_pos rfl, hlen, marks_ordinary, List.filterMap_cons]
  cases (markup (ordinary named) name attr [] (u ++ rest)).1 with
  | _ => rfl

/-- A quoted value ends at its quote. The induction is on the value, with what has been read of
it free. -/
theorem readAttrs_quoted {q : Char} {v : List Char} (hv : q ∉ v) (n acc s : List Char) :
    readAttrs (.quoted n q acc) (v ++ q :: s) =
      addAttr n (.quoted q (acc ++ v)) (readAttrs .before s) := by
  induction v generalizing acc with
  | nil => rw [List.nil_append, readAttrs, if_pos rfl, List.append_nil]
  | cons c v ih =>
      rw [List.mem_cons, not_or] at hv
      rw [List.cons_append, readAttrs, if_neg (Ne.symm hv.1), ih hv.2, List.append_assoc]
      rfl

end

end Html
