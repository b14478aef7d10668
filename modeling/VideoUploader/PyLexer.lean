/-
The lexical analysis of a Python program, one character at a time.

The lexer is a machine that reads one character and puts out the tokens which
that character completes. Its state holds no tokens, so what a run puts out over
two texts in a row is what it puts out over the first followed by what it puts
out over the second, started where the first ended. That is the form in which a
program with a hole in it can be lexed: the fixed parts are runs that compute,
and the part in the hole is a lemma.

The rules are those of the language reference: newline normalisation,
indentation, implicit and explicit line joining, names, numbers, operators by
longest match, and string literals with short and triple quotes.
-/
import VideoUploader.Newlines
import VideoUploader.PyLiteral

set_option autoImplicit false

namespace Python

open Newlines

/-! ## Tokens and states -/

/-- A token, with a string literal given by a `σ`: by the characters of its body in
what the lexer puts out, by its value afterwards. -/
inductive Token (σ : Type) where
  | name (w : List Char)
  | number (w : List Char)
  | str (pfx : List Char) (literal : σ)
  | op (w : List Char)
  | newline
  | indent
  | dedent
  deriving DecidableEq

/-- What the lexer puts out: a literal is still the characters between its quotes. -/
abbrev RawToken := Token (List Char)

/-- Where the lexer stands: at the beginning of a line, between tokens, or inside
something that the next character may continue. `quote1` and `quote2` are
behind one and two opening quotes; `long` counts the quotes just read. -/
inductive Mode where
  | bol (col : ℕ)
  | blank
  | comment (code : Bool)
  | join
  | word (w : List Char)
  | number (w : List Char)
  | op (w : List Char)
  | quote1 (pfx : List Char) (q : Char)
  | quote2 (pfx : List Char) (q : Char)
  | short (pfx : List Char) (q : Char) (body : List Char)
  | shortEsc (pfx : List Char) (q : Char) (body : List Char)
  | long (pfx : List Char) (q : Char) (body : List Char) (quotes : ℕ)
  | longEsc (pfx : List Char) (q : Char) (body : List Char)
  | error
  deriving DecidableEq

/-- The stack of indentations, the number of open brackets, and the mode. No token is kept in it,
only the characters of the one in progress. -/
structure Lexer where
  indents : List ℕ
  depth : ℕ
  mode : Mode
  deriving DecidableEq

/-- The start of a program: column zero, and no bracket open. -/
def Lexer.init : Lexer := ⟨[0], 0, .bol 0⟩

/-- A state, and the tokens put out on the way to it. -/
abbrev Step := Lexer × List RawToken

/-- A lexical error. There is no way back from it. -/
def Lexer.fail (s : Lexer) : Step := ({ s with mode := .error }, [])

def Lexer.goto (s : Lexer) (m : Mode) : Step := ({ s with mode := m }, [])

/-- One step after another, with the tokens of both. -/
def Step.andThen (x : Step) (f : Lexer → Step) : Step :=
  let y := f x.1
  (y.1, x.2 ++ y.2)

/-! ## Character classes -/

/-- Letters, the underscore, and everything beyond ASCII. That some of these are no letters to
Python is left to the checks of names, which no literal depends on. -/
def isNameStart (c : Char) : Bool := c.isAlpha || c == '_' || decide (0x80 ≤ c.toNat)

def isNameChar (c : Char) : Bool := isNameStart c || c.isDigit

/-- The operators and delimiters. A `!` is in the list because `!=` begins with it, and is
refused by itself. -/
def operators : List (List Char) :=
  [['+'], ['-'], ['*'], ['*', '*'], ['/'], ['/', '/'], ['%'], ['@'], ['<', '<'], ['>', '>'],
   ['&'], ['|'], ['^'], ['~'], [':', '='], ['<'], ['>'], ['<', '='], ['>', '='], ['=', '='],
   ['!'], ['!', '='], ['('], [')'], ['['], [']'], ['{'], ['}'], [','], [':'], ['.'], [';'],
   ['='], ['-', '>'], ['+', '='], ['-', '='], ['*', '='], ['/', '='], ['/', '/', '='],
   ['%', '='], ['@', '='], ['&', '='], ['|', '='], ['^', '='], ['>', '>', '='],
   ['<', '<', '='], ['*', '*', '=']]

/-- What may stand in front of a quote, in small letters. -/
def stringPrefixes : List (List Char) :=
  [['r'], ['u'], ['b'], ['f'], ['b', 'r'], ['r', 'b'], ['f', 'r'], ['r', 'f']]

def isStringPrefix (w : List Char) : Bool := decide (w.map Char.toLower ∈ stringPrefixes)

/-- Whether `c` continues the number `w`. A sign does so only behind an exponent. -/
def continuesNumber (w : List Char) (c : Char) : Bool :=
  c.isAlphanum || c == '_' || c == '.' ||
    ((c == '+' || c == '-') && decide (w.getLast? = some 'e' ∨ w.getLast? = some 'E') &&
      decide ('x' ∉ w ∧ 'X' ∉ w))

/-! ## One character -/

/-- The end of a string literal, which puts it out. -/
def Lexer.close (s : Lexer) (pfx body : List Char) : Step :=
  ({ s with mode := .blank }, [.str pfx body])

/-- An operator is complete; brackets are counted, because line ends mean nothing inside of them.
-/
def Lexer.pushOp (s : Lexer) (w : List Char) : Step :=
  if w = ['!'] then s.fail
  else if w = ['('] ∨ w = ['['] ∨ w = ['{'] then
    ({ s with depth := s.depth + 1, mode := .blank }, [.op w])
  else if w = [')'] ∨ w = [']'] ∨ w = ['}'] then
    if s.depth = 0 then s.fail
    else ({ s with depth := s.depth - 1, mode := .blank }, [.op w])
  else ({ s with mode := .blank }, [.op w])

/-- The token in progress, if there is one, is complete. Two quotes are complete as well: they
are an empty literal. -/
def Lexer.flush (s : Lexer) : Step :=
  match s.mode with
  | .word w => ({ s with mode := .blank }, [.name w])
  | .number w => ({ s with mode := .blank }, [.number w])
  | .op w => s.pushOp w
  | .quote2 pfx _ => ({ s with mode := .blank }, [.str pfx []])
  | _ => (s, [])

/-- The indentations to give up to come back to column `col`. It has to be one of those that were
begun. -/
def dedentTo (col : ℕ) : List ℕ → Option (ℕ × List ℕ)
  | [] => none
  | top :: rest =>
      if top = col then some (0, top :: rest)
      else if col < top then (dedentTo col rest).map fun x => (x.1 + 1, x.2)
      else none

/-- The first token of a line stands at column `col`, which may begin a block, or end some. -/
def Lexer.indentTo (s : Lexer) (col : ℕ) : Step :=
  if s.indents.head?.any (fun top => decide (top < col)) then
    ({ s with indents := col :: s.indents, mode := .blank }, [.indent])
  else
    match dedentTo col s.indents with
    | some (n, rest) => ({ s with indents := rest, mode := .blank }, List.replicate n .dedent)
    | none => s.fail

/-- A character where no token is in progress. -/
def Lexer.start (s : Lexer) (c : Char) : Step :=
  if s.mode = .error then (s, [])
  else if c = ' ' ∨ c = '\t' ∨ c = '\x0c' then s.goto .blank
  else if c = '\n' then
    if s.depth = 0 then ({ s with mode := .bol 0 }, [.newline]) else s.goto .blank
  else if c = '#' then s.goto (.comment true)
  else if c = '\\' then s.goto .join
  else if c = '\'' ∨ c = '"' then s.goto (.quote1 [] c)
  else if c.isDigit then s.goto (.number [c])
  else if isNameStart c then s.goto (.word [c])
  else if [c] ∈ operators then s.goto (.op [c])
  else s.fail

/-- One character. What cannot continue the token in progress completes it, and is read again as
a beginning. -/
def step (s : Lexer) (c : Char) : Step :=
  match s.mode with
  | .error => (s, [])
  | .bol col =>
      if c = ' ' then s.goto (.bol (col + 1))
      else if c = '\t' then s.goto (.bol ((col / 8 + 1) * 8))
      else if c = '\n' ∨ c = '\x0c' then s.goto (.bol 0)
      else if c = '#' then s.goto (.comment false)
      else (s.indentTo col).andThen fun s => s.start c
  | .blank => s.start c
  | .comment code =>
      if c = '\n' then
        if code then (s.goto .blank).andThen fun s => s.start c else s.goto (.bol 0)
      else (s, [])
  | .join => if c = '\n' then s.goto .blank else s.fail
  | .word w =>
      if isNameChar c then s.goto (.word (w ++ [c]))
      else if (c = '\'' ∨ c = '"') ∧ isStringPrefix w then s.goto (.quote1 w c)
      else s.flush.andThen fun s => s.start c
  | .number w =>
      if continuesNumber w c then s.goto (.number (w ++ [c]))
      else s.flush.andThen fun s => s.start c
  | .op w =>
      if w ++ [c] ∈ operators then s.goto (.op (w ++ [c]))
      else if w = ['.'] ∧ c.isDigit then s.goto (.number ['.', c])
      else s.flush.andThen fun s => s.start c
  | .quote1 pfx q =>
      if c = q then s.goto (.quote2 pfx q)
      else if c = '\\' then s.goto (.shortEsc pfx q [])
      else if c = '\n' then s.fail
      else s.goto (.short pfx q [c])
  | .quote2 pfx q =>
      if c = q then s.goto (.long pfx q [] 0)
      else s.flush.andThen fun s => s.start c
  | .short pfx q body =>
      if c = q then s.close pfx body
      else if c = '\\' then s.goto (.shortEsc pfx q body)
      else if c = '\n' then s.fail
      else s.goto (.short pfx q (body ++ [c]))
  | .shortEsc pfx q body => s.goto (.short pfx q (body ++ ['\\', c]))
  | .long pfx q body n =>
      if c = q then
        if n = 2 then s.close pfx (body.take (body.length - 2))
        else s.goto (.long pfx q (body ++ [c]) (n + 1))
      else if c = '\\' then s.goto (.longEsc pfx q body)
      else s.goto (.long pfx q (body ++ [c]) 0)
  | .longEsc pfx q body => s.goto (.long pfx q (body ++ ['\\', c]) 0)

/-! ## Whole texts -/

/-- A text, from any state. The tokens come out in the order in which they are completed. -/
def run (s : Lexer) : List Char → Step
  | [] => (s, [])
  | c :: t => (step s c).andThen fun s => run s t

/-- The end of the program: the last line is ended if it is not, nothing may be
open, and the indentation goes back to the margin. -/
def Lexer.finish (s : Lexer) : Option (List RawToken) :=
  let x := if s.mode = .bol 0 then (s, []) else step s '\n'
  match x.1.mode with
  | .bol _ =>
      if x.1.depth = 0 then some (x.2 ++ List.replicate (x.1.indents.length - 1) .dedent) else none
  | _ => none

/-- The tokens of a run that the program ends with, those that the end completes among them. -/
def Step.finish (x : Step) : Option (List RawToken) := x.1.finish.map fun rest => x.2 ++ rest

/-- **The tokens of a program**, or `none` when it has a lexical error. -/
def tokens (src : List Char) : Option (List RawToken) :=
  (run Lexer.init (normNewlines src)).finish

/-! ## Values -/

/-- The value of a literal, by its prefix. A raw one has no escapes. -/
def literalValue (names : List Char → Option ℕ) (pfx body : List Char) : Option Str :=
  if 'r' ∈ pfx ∨ 'R' ∈ pfx then some (codes body) else unescape names 0 body

/-- A token with the value of its literal, `none` when the literal is refused. -/
def Token.eval (names : List Char → Option ℕ) : RawToken → Option (Token Str)
  | .name w => some (.name w)
  | .number w => some (.number w)
  | .str pfx body => (literalValue names pfx body).map fun v => .str pfx v
  | .op w => some (.op w)
  | .newline => some .newline
  | .indent => some .indent
  | .dedent => some .dedent

/-- The tokens with the values of their literals. One literal that is refused is an error of the
program. -/
def evalTokens (names : List Char → Option ℕ) : List RawToken → Option (List (Token Str))
  | [] => some []
  | t :: ts =>
      match t.eval names, evalTokens names ts with
      | some u, some us => some (u :: us)
      | _, _ => none

/-- The tokens of a program with the values of its literals. -/
def programTokens (names : List Char → Option ℕ) (src : List Char) : Option (List (Token Str)) :=
  (tokens src).bind (evalTokens names)

/-- A token as it is when its literal has no escape. -/
def Token.plain : RawToken → Token Str
  | .name w => .name w
  | .number w => .number w
  | .str pfx body => .str pfx (codes body)
  | .op w => .op w
  | .newline => .newline
  | .indent => .indent
  | .dedent => .dedent

/-- A token whose literal, if it is one, has no escape. Almost all of a program are such tokens,
and need no evaluation. -/
def Token.IsPlain : RawToken → Prop
  | .str _ body => NoEscape body
  | _ => True

instance : DecidablePred Token.IsPlain := fun t => by
  cases t <;> unfold Token.IsPlain <;> infer_instance

variable {names : List Char → Option ℕ}

/-- No value is longer than its literal. -/
theorem length_literalValue_le {pfx body : List Char} {v : Str}
    (h : literalValue names pfx body = some v) : v.length ≤ body.length := by
  rw [literalValue] at h
  split at h
  · cases h
    exact Nat.le_of_eq (length_codes body)
  · exact (length_unescape h).1

/-- A plain token has its own text for a value, -/
theorem eval_of_isPlain {t : RawToken} (h : t.IsPlain) : t.eval names = some t.plain := by
  cases t with
  | str pfx body =>
      have hv : literalValue names pfx body = some (codes body) := by
        rw [literalValue]
        split
        · rfl
        · exact unescape_of_noEscape h
      rw [Token.eval, hv]
      rfl
  | _ => rfl

/-- and so have many of them. -/
theorem evalTokens_of_isPlain {ts : List RawToken} (h : ∀ t ∈ ts, t.IsPlain) :
    evalTokens names ts = some (ts.map Token.plain) := by
  induction ts with
  | nil => rfl
  | cons t ts ih =>
      rw [evalTokens, eval_of_isPlain (h t List.mem_cons_self),
        ih fun u hu => h u (List.mem_cons_of_mem t hu)]
      rfl

/-- Values are found token by token. -/
theorem evalTokens_cons_eq_some {t : RawToken} {ts : List RawToken} {us : List (Token Str)} :
    evalTokens names (t :: ts) = some us ↔
      ∃ u us', t.eval names = some u ∧ evalTokens names ts = some us' ∧ us = u :: us' := by
  rw [evalTokens]
  cases t.eval names with
  | none => simp
  | some u =>
      cases evalTokens names ts with
      | none => simp
      | some us' => simp [eq_comm]

/-- A literal in front that is known by its value. This is where the value of the one literal
with a hole in it comes out of a program's tokens. -/
theorem evalTokens_str_cons_eq_some {pfx pfx' body : List Char} {v : Str} {ts : List RawToken}
    {us : List (Token Str)} :
    evalTokens names (.str pfx body :: ts) = some (.str pfx' v :: us) ↔
      pfx = pfx' ∧ literalValue names pfx body = some v ∧ evalTokens names ts = some us := by
  rw [evalTokens_cons_eq_some]
  simp only [Token.eval, Option.map_eq_some_iff]
  constructor
  · rintro ⟨_, us', ⟨w, hw, rfl⟩, hts, huu⟩
    injection huu with huv hus
    injection huv with hpfx hvw
    exact ⟨hpfx.symm, hvw ▸ hw, hus ▸ hts⟩
  · rintro ⟨rfl, hv, hts⟩
    exact ⟨_, us, ⟨v, hv, rfl⟩, hts, rfl⟩

/-- Literals without escapes keep their places and their texts, so that only what is behind them
has to be looked at. -/
theorem evalTokens_append_of_isPlain {ts : List RawToken} (h : ∀ t ∈ ts, t.IsPlain)
    {ts' : List RawToken} {us : List (Token Str)} :
    evalTokens names (ts ++ ts') = some (ts.map Token.plain ++ us) ↔
      evalTokens names ts' = some us := by
  induction ts with
  | nil => rfl
  | cons t ts ih =>
      have hts := ih fun u hu => h u (List.mem_cons_of_mem t hu)
      rw [List.map_cons, List.cons_append, List.cons_append, evalTokens_cons_eq_some,
        eval_of_isPlain (h t List.mem_cons_self), ← hts]
      constructor
      · rintro ⟨u, us', hu, hus, heq⟩
        injection heq with _ htail
        rw [hus, ← htail]
      · intro hall
        exact ⟨_, _, rfl, hall, rfl⟩

/-! ## Runs -/

/-- **A program is lexed part by part**: what comes out of two texts in a row is what comes out
of the first, and then of the second from where the first has ended. -/
theorem run_append (s : Lexer) (t u : List Char) :
    run s (t ++ u) = (run s t).andThen fun s => run s u := by
  induction t generalizing s with
  | nil => simp [run, Step.andThen]
  | cons c t ih =>
      simp only [List.cons_append, run, ih, Step.andThen, List.append_assoc]

/-- A character that completes nothing only moves the lexer on. -/
theorem run_cons_of_step {s s' : Lexer} {c : Char} (h : step s c = (s', [])) (w : List Char) :
    run s (c :: w) = run s' w := by
  simp [run, h, Step.andThen]

/-- What is put out stays put out, whatever the end brings. -/
theorem finish_andThen (x : Step) (f : Lexer → Step) :
    (x.andThen f).finish = (f x.1).finish.map fun rest => x.2 ++ rest := by
  unfold Step.finish Step.andThen
  cases (f x.1).1.finish with
  | none => rfl
  | some rest => simp

/-! ## Inside a string literal -/

/-- A short literal reads on through everything that is no quote, no line ending
and no escape. Two characters at a time, since a backslash takes one along. -/
theorem run_short {s : Lexer} {pfx body : List Char} {q : Char}
    (h : s.mode = .short pfx q body) :
    ∀ w : List Char, NoEscape w → q ∉ w → '\n' ∉ w →
      run s w = ({ s with mode := .short pfx q (body ++ w) }, [])
  | [], _, _, _ => by
      rw [List.append_nil, ← h]
      rfl
  | [c], hesc, hq, hnl => by
      have hcq : c ≠ q := fun hc => hq (by simp [hc])
      have hcb : c ≠ '\\' := by
        intro hc
        obtain ⟨d, hd, -⟩ := hesc.1 hc
        cases hd
      have hcn : c ≠ '\n' := fun hc => hnl (by simp [hc])
      simp [run, step, h, hcq, hcb, hcn, Step.andThen, Lexer.goto]
  | c :: d :: w, hesc, hq, hnl => by
      have hcq : c ≠ q := fun hc => hq (by simp [hc])
      have hcn : c ≠ '\n' := fun hc => hnl (by simp [hc])
      by_cases hcb : c = '\\'
      · have ih := run_short (s := { s with mode := .short pfx q (body ++ [c, d]) }) rfl w
          hesc.2.2 (fun hw => hq (by simp [hw])) (fun hw => hnl (by simp [hw]))
        have hstep : step s c = ({ s with mode := .shortEsc pfx q body }, []) := by
          simp only [step, h, if_neg hcq, if_pos hcb, Lexer.goto]
        have hstep2 : step { s with mode := .shortEsc pfx q body } d =
            ({ s with mode := .short pfx q (body ++ [c, d]) }, []) := by
          simp only [step, Lexer.goto, hcb]
        rw [run_cons_of_step hstep, run_cons_of_step hstep2, ih]
        simp
      · have ih := run_short (s := { s with mode := .short pfx q (body ++ [c]) }) rfl (d :: w)
          hesc.2 (fun hw => hq (List.mem_cons_of_mem c hw)) (fun hw => hnl (List.mem_cons_of_mem c hw))
        have hstep : step s c = ({ s with mode := .short pfx q (body ++ [c]) }, []) := by
          simp only [step, h, if_neg hcq, if_neg hcb, if_neg hcn, Lexer.goto]
        rw [run_cons_of_step hstep, ih]
        simp

/-- Behind one opening quote, any other character is read as inside the literal. -/
theorem run_quote1_eq_run_short {s : Lexer} {pfx : List Char} {q c : Char}
    (h : s.mode = .quote1 pfx q) (hc : c ≠ q) (w : List Char) :
    run s (c :: w) = run { s with mode := .short pfx q [] } (c :: w) := by
  simp only [run, step, h, if_neg hc, List.nil_append, Lexer.goto, Lexer.fail]

/-- **A short literal without escapes.** From the opening quote, through a body that
may be empty, to the character behind the closing quote. -/
theorem run_short_literal {s : Lexer} {q : Char} (h : s.mode = .quote1 [] q) {w : List Char}
    (hesc : NoEscape w) (hq : q ∉ w) (hnl : '\n' ∉ w) {c : Char} (hc : c ≠ q) (t : List Char) :
    run s (w ++ q :: c :: t) =
      Step.andThen ({ s with mode := .blank }, [.str [] w]) fun s => run s (c :: t) := by
  rcases w with _ | ⟨d, w⟩
  · simp [run, step, h, hc, Step.andThen, Lexer.goto, Lexer.flush]
  · have hd : d ≠ q := fun hd => hq (by simp [hd])
    have hrun := run_short (s := { s with mode := .short [] q [] })
      rfl (d :: w) hesc hq hnl
    rw [List.cons_append, run_quote1_eq_run_short h hd, ← List.cons_append, run_append, hrun]
    simp [run, step, Step.andThen, Lexer.close]

/-- How a run that is inside a triple-quoted literal can stand, with `full` the
characters since the opening quotes: still inside, with as many closing quotes
counted as the text ends in; inside behind a backslash; or past the end of a
literal whose body is shorter than the text by the three quotes. -/
inductive LongOutcome (i : List ℕ) (d : ℕ) (pfx : List Char) (q : Char) (full : List Char) :
    Step → Prop where
  | inside (k : ℕ) (hk : k ≤ 2) (hlen : k ≤ full.length)
      (hlast : k ≠ 0 → full.getLast? = some q) :
      LongOutcome i d pfx q full (⟨i, d, .long pfx q full k⟩, [])
  | escaped (x : Step) (hlast : full.getLast? = some '\\') : LongOutcome i d pfx q full x
  | closed (s : Lexer) (body : List Char) (out : List RawToken) (hlen : body.length + 3 ≤ full.length) :
      LongOutcome i d pfx q full (s, .str pfx body :: out)

/-- A literal in triple quotes reads on through any text, unless the text closes
it. -/
theorem run_long {i : List ℕ} {d : ℕ} {pfx : List Char} {q : Char} :
    ∀ (w body : List Char) (n : ℕ), n ≤ 2 → n ≤ body.length →
      (n ≠ 0 → body.getLast? = some q) →
      LongOutcome i d pfx q (body ++ w) (run ⟨i, d, .long pfx q body n⟩ w)
  | [], body, n, hn, hb, hlast => by
      rw [List.append_nil]
      exact .inside n hn hb hlast
  | c :: w, body, n, hn, hb, hlast => by
      have hfull : body ++ c :: w = (body ++ [c]) ++ w := by simp
      by_cases hcq : c = q
      · by_cases hn2 : n = 2
        · -- the third quote: the literal ends here
          have hstep : step ⟨i, d, .long pfx q body n⟩ c =
              (⟨i, d, .blank⟩, [.str pfx (body.take (body.length - 2))]) := by
            simp only [step, if_pos hcq, if_pos hn2, Lexer.close]
          rw [run, hstep]
          refine .closed _ _ _ ?_
          rw [List.length_append, List.length_cons, List.length_take]
          omega
        · have hstep : step ⟨i, d, .long pfx q body n⟩ c =
              (⟨i, d, .long pfx q (body ++ [c]) (n + 1)⟩, []) := by
            simp only [step, if_pos hcq, if_neg hn2, Lexer.goto]
          rw [run_cons_of_step hstep, hfull]
          exact run_long w (body ++ [c]) (n + 1) (by omega) (by simp; omega) (by simp [hcq])
      · by_cases hcb : c = '\\'
        · have hstep : step ⟨i, d, .long pfx q body n⟩ c = (⟨i, d, .longEsc pfx q body⟩, []) := by
            simp only [step, if_neg hcq, if_pos hcb, Lexer.goto]
          rw [run_cons_of_step hstep]
          rcases w with _ | ⟨e, w⟩
          · exact .escaped _ (by simp [hcb])
          · -- the backslash takes the next character along
            have hstep2 : step ⟨i, d, .longEsc pfx q body⟩ e =
                (⟨i, d, .long pfx q (body ++ ['\\', e]) 0⟩, []) := rfl
            have hfull2 : body ++ c :: e :: w = (body ++ ['\\', e]) ++ w := by simp [hcb]
            rw [run_cons_of_step hstep2, hfull2]
            exact run_long w (body ++ ['\\', e]) 0 (by omega) (by omega) (fun h => absurd rfl h)
        · have hstep : step ⟨i, d, .long pfx q body n⟩ c =
              (⟨i, d, .long pfx q (body ++ [c]) 0⟩, []) := by
            simp only [step, if_neg hcq, if_neg hcb, Lexer.goto]
          rw [run_cons_of_step hstep, hfull]
          exact run_long w (body ++ [c]) 0 (by omega) (by omega) (fun h => absurd rfl h)

/-- A text that cannot end a triple-quoted literal: no backslash, and no two quotes
next to each other. -/
def Sparse (q : Char) : List Char → Prop
  | [] => True
  | c :: w => c ≠ '\\' ∧ (c = q → w.head? ≠ some q) ∧ Sparse q w

instance decidableSparse (q : Char) : ∀ w, Decidable (Sparse q w)
  | [] => isTrue trivial
  | c :: w =>
      have := decidableSparse q w
      inferInstanceAs (Decidable (c ≠ '\\' ∧ (c = q → w.head? ≠ some q) ∧ Sparse q w))

/-- Inside a triple-quoted literal, a sparse rest of the program leaves it open. The induction is
on the rest, with the number of quotes just read free. -/
theorem run_long_sparse {i : List ℕ} {d : ℕ} {pfx : List Char} {q : Char} :
    ∀ (w body : List Char) (n : ℕ), Sparse q w → (n = 0 ∨ w.head? ≠ some q) →
      ∃ body' k, (run ⟨i, d, .long pfx q body n⟩ w).1 = ⟨i, d, .long pfx q body' k⟩
  | [], body, n, _, _ => ⟨body, n, rfl⟩
  | c :: w, body, n, hw, hn => by
      by_cases hcq : c = q
      · have hn0 : n = 0 := by
          rcases hn with hn | hn
          · exact hn
          · exact absurd (by rw [hcq]; rfl) hn
        have hstep : step ⟨i, d, .long pfx q body n⟩ c =
            (⟨i, d, .long pfx q (body ++ [c]) 1⟩, []) := by
          simp [step, hcq, hn0, Lexer.goto]
        rw [run_cons_of_step hstep]
        exact run_long_sparse w (body ++ [c]) 1 hw.2.2 (Or.inr (hw.2.1 hcq))
      · have hstep : step ⟨i, d, .long pfx q body n⟩ c =
            (⟨i, d, .long pfx q (body ++ [c]) 0⟩, []) := by
          simp only [step, if_neg hcq, if_neg hw.1, Lexer.goto]
        rw [run_cons_of_step hstep]
        exact run_long_sparse w (body ++ [c]) 0 hw.2.2 (Or.inl rfl)

/-- A program may not end inside a literal, so a quote that opens one and is never closed is
noticed at the end. -/
theorem finish_of_long {i : List ℕ} {d k : ℕ} {pfx body : List Char} {q : Char} {x : Step}
    (hq : q ≠ '\n') (h : x.1 = ⟨i, d, .long pfx q body k⟩) : x.finish = none := by
  rw [Step.finish, h]
  simp [Lexer.finish, step, Ne.symm hq, Lexer.goto]

/-- A literal in triple quotes reads on through a text without quotes and escapes. -/
theorem run_long_noEscape {i : List ℕ} {d : ℕ} {pfx : List Char} {q : Char} :
    ∀ w body : List Char, NoEscape w → q ∉ w →
      run ⟨i, d, .long pfx q body 0⟩ w = (⟨i, d, .long pfx q (body ++ w) 0⟩, [])
  | [], body, _, _ => by rw [List.append_nil]; rfl
  | [c], body, hesc, hq => by
      have hcq : c ≠ q := fun hc => hq (by simp [hc])
      have hcb : c ≠ '\\' := by
        intro hc
        obtain ⟨e, he, -⟩ := hesc.1 hc
        cases he
      simp [run, step, hcq, hcb, Step.andThen, Lexer.goto]
  | c :: e :: w, body, hesc, hq => by
      have hcq : c ≠ q := fun hc => hq (by simp [hc])
      by_cases hcb : c = '\\'
      · have hqw : q ∉ w := fun hw => hq (List.mem_cons_of_mem c (List.mem_cons_of_mem e hw))
        have hstep : step ⟨i, d, .long pfx q body 0⟩ c = (⟨i, d, .longEsc pfx q body⟩, []) := by
          simp only [step, if_neg hcq, if_pos hcb, Lexer.goto]
        have hstep2 : step ⟨i, d, .longEsc pfx q body⟩ e =
            (⟨i, d, .long pfx q (body ++ [c, e]) 0⟩, []) := by
          simp only [step, Lexer.goto, hcb]
        rw [run_cons_of_step hstep, run_cons_of_step hstep2,
          run_long_noEscape w (body ++ [c, e]) hesc.2.2 hqw]
        simp
      · have hqw : q ∉ e :: w := fun hw => hq (List.mem_cons_of_mem c hw)
        have hstep : step ⟨i, d, .long pfx q body 0⟩ c =
            (⟨i, d, .long pfx q (body ++ [c]) 0⟩, []) := by
          simp only [step, if_neg hcq, if_neg hcb, Lexer.goto]
        rw [run_cons_of_step hstep, run_long_noEscape (e :: w) (body ++ [c]) hesc.2 hqw]
        simp

/-- The closing quotes of a literal in triple quotes. -/
theorem run_long_close {i : List ℕ} {d : ℕ} {pfx body : List Char} {q : Char} (w : List Char) :
    run ⟨i, d, .long pfx q body 0⟩ (q :: q :: q :: w) =
      Step.andThen (⟨i, d, .blank⟩, [.str pfx body]) fun s => run s w := by
  simp [run, step, Step.andThen, Lexer.goto, Lexer.close]

/-- **A quote in the body of a short literal is noticed.** Whatever follows the closing
quote of the literal, if it has no backslash and no two quotes in a row, either the
literal that comes out is shorter than the body, or the program does not end
well. Besides ending the literal early, a body may begin with the second and third
quote of a triple one. -/
theorem run_quote1_of_mem {i : List ℕ} {d : ℕ} {q : Char} {w t : List Char}
    (hqn : q ≠ '\n') (hqe : q ∈ escapeLetters) (hesc : NoEscape w) (hnl : '\n' ∉ w) (hq : q ∈ w)
    (ht : Sparse q t)
    (hhead : t.head? ≠ some q) :
    (∃ body out, (run ⟨i, d, .quote1 [] q⟩ (w ++ q :: t)).2 = .str [] body :: out ∧
      body.length < w.length) ∨
      (run ⟨i, d, .quote1 [] q⟩ (w ++ q :: t)).finish = none := by
  obtain ⟨u, v, rfl, hqu⟩ := List.eq_append_cons_of_mem hq
  rcases u with _ | ⟨c, u⟩
  · -- the body begins with the quote: two quotes are read by now, and the next character decides
    have hopen : step ⟨i, d, .quote1 [] q⟩ q = (⟨i, d, .quote2 [] q⟩, []) := by
      simp [step, Lexer.goto]
    have htriple : step ⟨i, d, .quote2 [] q⟩ q = (⟨i, d, .long [] q [] 0⟩, []) := by
      simp [step, Lexer.goto]
    rw [List.nil_append, List.cons_append, run_cons_of_step hopen]
    -- nothing more in the body: the closing quote is a third one, and a long literal begins
    rcases v with _ | ⟨c, v⟩
    · refine Or.inr ?_
      rw [List.nil_append, run_cons_of_step htriple]
      obtain ⟨body, k, hrun⟩ := @run_long_sparse i d [] q t [] 0 ht (Or.inl rfl)
      exact finish_of_long hqn hrun
    · by_cases hc : c = q
      · subst hc
        -- a third quote in the body itself: the rest is read as a long literal
        rw [List.cons_append, run_cons_of_step htriple, run_append]
        have hlong := @run_long i d [] c v [] 0 (by omega) (by omega)
          (fun h => absurd rfl h)
        rw [List.nil_append] at hlong
        generalize run ⟨i, d, .long [] c [] 0⟩ v = x at hlong ⊢
        cases hlong with
        | inside k hk hlen hlast =>
            by_cases hk2 : k = 2
            · refine Or.inl ⟨v.take (v.length - 2), (run ⟨i, d, .blank⟩ t).2, ?_, ?_⟩
              · simp [Step.andThen, run, step, hk2, Lexer.close]
              · simp only [List.length_take, List.length_cons]
                omega
            · refine Or.inr ?_
              have hstep : step ⟨i, d, .long [] c v k⟩ c =
                  (⟨i, d, .long [] c (v ++ [c]) (k + 1)⟩, []) := by
                simp [step, hk2, Lexer.goto]
              obtain ⟨body, k', hrun⟩ := @run_long_sparse i d [] c t
                (v ++ [c]) (k + 1) ht (Or.inr hhead)
              simp only [Step.andThen, run_cons_of_step hstep]
              exact finish_of_long hqn hrun
        | escaped x hlast => exact absurd hlast hesc.2.2.getLast?_ne
        | closed s body out hlen =>
            refine Or.inl ⟨body, out ++ (run s (c :: t)).2, ?_, ?_⟩
            · simp [Step.andThen]
            · simp only [List.length_cons]
              omega
      · -- any other character: the literal was empty
        refine Or.inl ⟨[], ?_⟩
        have hflush : step ⟨i, d, .quote2 [] q⟩ c =
            Step.andThen (⟨i, d, .blank⟩, [.str [] []]) fun s => s.start c := by
          simp [step, hc, Lexer.flush]
        rw [List.cons_append, run, hflush]
        simp [Step.andThen]
  · -- the quote comes later, and closes a literal that is shorter
    have hcu : c ≠ q := fun h => hqu (by simp [h])
    have hescu : NoEscape (c :: u) := hesc.of_append_left hqe
    have hrun := run_short (s := ⟨i, d, .short [] q []⟩) rfl (c :: u) hescu hqu
      (fun h => hnl (List.mem_append_left _ h))
    refine Or.inl ⟨c :: u, (run ⟨i, d, .blank⟩ (v ++ q :: t)).2, ?_, ?_⟩
    · rw [List.append_assoc, List.cons_append, run_quote1_eq_run_short rfl hcu, ← List.cons_append,
        run_append, hrun]
      simp [Step.andThen, run, step, Lexer.close]
    · simp

end Python
