/-
Programs of a small part of Python: modules that are imported, assignments,
expression statements, and `if` with `else`.

The parser is a stack machine that reads one token at a time, as the lexer reads one
character at a time: what is open stands on a stack of frames, and a token that closes
something builds the node. So the tokens of a program put together from parts can be
parsed part by part. `parse_tokens` says that every program is read back from
its tokens, so a program text is known by the program it has the tokens of.

What is outside this part of the language has no parse.
-/
import VideoUploader.PyLexer

set_option autoImplicit false

namespace Python

/-! ## Programs -/

/-- A token whose literal, if it is one, has been evaluated. -/
abbrev Tok := Token Str

/-- The names that no variable can have. -/
def keywords : List (List Char) :=
  [['F', 'a', 'l', 's', 'e'], ['N', 'o', 'n', 'e'], ['T', 'r', 'u', 'e'], ['a', 'n', 'd'],
   ['a', 's'], ['a', 's', 's', 'e', 'r', 't'], ['a', 's', 'y', 'n', 'c'],
   ['a', 'w', 'a', 'i', 't'], ['b', 'r', 'e', 'a', 'k'], ['c', 'l', 'a', 's', 's'],
   ['c', 'o', 'n', 't', 'i', 'n', 'u', 'e'], ['d', 'e', 'f'], ['d', 'e', 'l'],
   ['e', 'l', 'i', 'f'], ['e', 'l', 's', 'e'], ['e', 'x', 'c', 'e', 'p', 't'],
   ['f', 'i', 'n', 'a', 'l', 'l', 'y'], ['f', 'o', 'r'], ['f', 'r', 'o', 'm'],
   ['g', 'l', 'o', 'b', 'a', 'l'], ['i', 'f'], ['i', 'm', 'p', 'o', 'r', 't'], ['i', 'n'],
   ['i', 's'], ['l', 'a', 'm', 'b', 'd', 'a'], ['n', 'o', 'n', 'l', 'o', 'c', 'a', 'l'],
   ['n', 'o', 't'], ['o', 'r'], ['p', 'a', 's', 's'], ['r', 'a', 'i', 's', 'e'],
   ['r', 'e', 't', 'u', 'r', 'n'], ['t', 'r', 'y'], ['w', 'h', 'i', 'l', 'e'],
   ['w', 'i', 't', 'h'], ['y', 'i', 'e', 'l', 'd']]

/-- A name that is no keyword, with the proof of that, so that a tree of them can always be
written out. -/
structure Ident where
  chars : List Char
  not_keyword : chars ∉ keywords
  deriving DecidableEq

theorem not_mem_of_contains {x : List Char} (h : keywords.contains x = false) : x ∉ keywords :=
  fun hmem => Bool.false_ne_true (h.symm.trans (List.contains_iff_mem.mpr hmem))

/-- The name a word is, if it is one. -/
def ident (x : List Char) : Option Ident :=
  if h : keywords.contains x = false then some ⟨x, not_mem_of_contains h⟩ else none

/-- A name is the name of its characters. -/
theorem ident_chars (x : Ident) : ident x.chars = some x := by
  have hx : keywords.contains x.chars = false :=
    Bool.eq_false_iff.mpr fun h => x.not_keyword (List.contains_iff_mem.mp h)
  exact dif_pos hx

/-- Expressions. An argument of a call has its keyword, if there is one. Operators other than
`==` are not in the language, as the program has none. -/
inductive Expr where
  | name (x : Ident)
  | number (w : List Char)
  | str (v : Str)
  | attr (e : Expr) (x : Ident)
  | index (e i : Expr)
  | call (f : Expr) (args : List (Option Ident × Expr))
  | dict (items : List (Expr × Expr))
  | eq (a b : Expr)

/-- Statements. An `if` always has its `else` here. -/
inductive Stmt where
  | imports (m : Ident)
  | assign (x : Ident) (e : Expr)
  | setItem (d k e : Expr)
  | expr (e : Expr)
  | ifElse (c : Expr) (thn els : List Stmt)

/-! ## The tokens of a program -/

def opTok (w : List Char) : Tok := .op w

def Ident.tok (x : Ident) : Tok := .name x.chars

def kwIf : Tok := .name ['i', 'f']

def kwElse : Tok := .name ['e', 'l', 's', 'e']

def kwImport : Tok := .name ['i', 'm', 'p', 'o', 'r', 't']

/-- A comparison stands in parentheses where an operand is wanted. -/
def inParens (tight : Bool) (ts : List Tok) : List Tok :=
  if tight then opTok ['('] :: (ts ++ [opTok [')']]) else ts

/-- The keyword of an argument. -/
def kwTokens : Option Ident → List Tok
  | none => []
  | some x => [x.tok, opTok ['=']]

mutual

/-- The tokens of an expression, as an operand when `tight`. Parentheses are written only where
they are needed. -/
def Expr.tokens (tight : Bool) : Expr → List Tok
  | .name x => [x.tok]
  | .number w => [.number w]
  | .str v => [.str [] v]
  | .attr e x => e.tokens true ++ [opTok ['.'], x.tok]
  | .index e i => e.tokens true ++ (opTok ['['] :: (i.tokens false ++ [opTok [']']]))
  | .call f args => f.tokens true ++ (opTok ['('] :: argTokens args)
  | .dict items => opTok ['\x7b'] :: itemTokens items
  | .eq a b => inParens tight (a.tokens true ++ (opTok ['=', '='] :: b.tokens true))

/-- The arguments of a call, with the parenthesis behind them. -/
def argTokens : List (Option Ident × Expr) → List Tok
  | [] => [opTok [')']]
  | (k, e) :: args =>
      kwTokens k ++ (e.tokens false ++
        match args with
        | [] => [opTok [')']]
        | _ :: _ => opTok [','] :: argTokens args)

/-- The items of a dictionary, with the brace behind them. -/
def itemTokens : List (Expr × Expr) → List Tok
  | [] => [opTok ['\x7d']]
  | (k, v) :: items =>
      k.tokens false ++ (opTok [':'] :: (v.tokens false ++
        match items with
        | [] => [opTok ['\x7d']]
        | _ :: _ => opTok [','] :: itemTokens items))

end

/-- Behind the condition of an `if`. The block begins on the next line, further in. -/
def thenTokens : List Tok := [opTok [':'], .newline, .indent]

/-- Between the two blocks of an `if`, behind the end of the first. -/
def elseTokens : List Tok := [kwElse, opTok [':'], .newline, .indent]

mutual

/-- The tokens of a statement, with the end of its line. Those of an `if` end with its second
block. -/
def Stmt.tokens : Stmt → List Tok
  | .imports m => [kwImport, m.tok, .newline]
  | .assign x e => x.tok :: opTok ['='] :: (e.tokens false ++ [.newline])
  | .setItem d k e =>
      (Expr.index d k).tokens true ++ (opTok ['='] :: (e.tokens false ++ [.newline]))
  | .expr e => e.tokens false ++ [.newline]
  | .ifElse c thn els =>
      kwIf :: (c.tokens false ++ (thenTokens ++ (blockTokens thn ++ (.dedent :: (elseTokens ++
        (blockTokens els ++ [.dedent]))))))

/-- The tokens of a block, or of a whole program. -/
def blockTokens : List Stmt → List Tok
  | [] => []
  | s :: ss => s.tokens ++ blockTokens ss

end

/-! ## Reading expressions -/

/-- What is open: brackets, and a comparison that has its left side. The parser's stack is a list
of these, the innermost first. -/
inductive Frame where
  | group
  | call (f : Expr) (args : List (Option Ident × Expr))
  | kwarg (f : Expr) (args : List (Option Ident × Expr)) (x : Ident)
  | index (e : Expr)
  | key (items : List (Expr × Expr))
  | value (items : List (Expr × Expr)) (k : Expr)
  | eqRight (a : Expr)

/-- What has been read behind the innermost opening: nothing, an operand that may
still go on, or one with a dot. -/
inductive Focus where
  | operand
  | lit (v : Str)
  | ident (x : Ident)
  | dot (e : Expr)
  | done (e : Expr)

/-- The operand that has been read, if it is complete as it stands. -/
def Focus.expr : Focus → Option Expr
  | .operand => none
  | .lit v => some (.str v)
  | .ident x => some (.name x)
  | .dot _ => none
  | .done e => some e

/-- The operand is the right side of a comparison, if one is open. This is the only place where
an operator binds two operands. -/
def reduce (fr : List Frame) (e : Expr) : List Frame × Expr :=
  match fr with
  | .eqRight a :: fr => (fr, .eq a e)
  | fr => (fr, e)

/-- A token that ends an operand inside of brackets, and with it perhaps the brackets. -/
def closing (w : List Char) (e : Expr) : List Frame → Option (List Frame × Focus)
  | .group :: fr => if w = [')'] then some (fr, .done e) else none
  | .call f args :: fr =>
      if w = [')'] then some (fr, .done (.call f (args ++ [(none, e)])))
      else if w = [','] then some (.call f (args ++ [(none, e)]) :: fr, .operand)
      else none
  | .kwarg f args x :: fr =>
      if w = [')'] then some (fr, .done (.call f (args ++ [(some x, e)])))
      else if w = [','] then some (.call f (args ++ [(some x, e)]) :: fr, .operand)
      else none
  | .index a :: fr => if w = [']'] then some (fr, .done (.index a e)) else none
  | .key items :: fr => if w = [':'] then some (.value items e :: fr, .operand) else none
  | .value items k :: fr =>
      if w = ['\x7d'] then some (fr, .done (.dict (items ++ [(k, e)])))
      else if w = [','] then some (.key (items ++ [(k, e)]) :: fr, .operand)
      else none
  | _ => none

/-- A token where an operand is wanted. -/
def opening (fr : List Frame) : Tok → Option (List Frame × Focus)
  | .name x => (ident x).map fun i => (fr, .ident i)
  | .number w => some (fr, .done (.number w))
  | .str pfx v => if pfx = [] then some (fr, .lit v) else none
  | .op w =>
      if w = ['('] then some (.group :: fr, .operand)
      else if w = ['\x7b'] then some (.key [] :: fr, .operand)
      else
        -- an empty pair of brackets, or a comma in front of the end
        match fr with
        | .call f args :: fr => if w = [')'] then some (fr, .done (.call f args)) else none
        | .key items :: fr => if w = ['\x7d'] then some (fr, .done (.dict items)) else none
        | _ => none
  | _ => none

/-- A token behind an operand: more of it, or the operator of a comparison. -/
def continuing (fr : List Frame) (f : Focus) (e : Expr) : Tok → Option (List Frame × Focus)
  | .str pfx w =>
      match f with
      | .lit v => if pfx = [] then some (fr, .lit (v ++ w)) else none
      | _ => none
  | .op w =>
      if w = ['.'] then some (fr, .dot e)
      else if w = ['('] then some (.call e [] :: fr, .operand)
      else if w = ['['] then some (.index e :: fr, .operand)
      else if w = ['=', '='] then
        match fr with
        | .eqRight _ :: _ => none
        | fr => some (.eqRight e :: fr, .operand)
      else if w = ['='] then
        match f, fr with
        | .ident x, .call g args :: fr => some (.kwarg g args x :: fr, .operand)
        | _, _ => none
      else closing w (reduce fr e).2 (reduce fr e).1
  | _ => none

/-- One token of an expression. A token that can only stand behind one is no step. -/
def exprStep (fr : List Frame) (f : Focus) (t : Tok) : Option (List Frame × Focus) :=
  match f with
  | .operand => opening fr t
  | .dot e =>
      match t with
      | .name x => (ident x).map fun i => (fr, .done (.attr e i))
      | _ => none
  | f => f.expr.bind fun e => continuing fr f e t

/-! ## Reading statements -/

/-- What an expression on a line is: a statement or the target of an assignment, the
right side of one, or the condition of an `if`. -/
inductive LineKind where
  | plain
  | assign (x : Ident)
  | setItem (d k : Expr)
  | cond

/-- A block that is open, with the statements in front of its `if`. -/
inductive OpenBlock where
  | thenOf (before : List Stmt) (c : Expr)
  | elseOf (before : List Stmt) (c : Expr) (thn : List Stmt)

/-- Where the parser stands: at the beginning of a line, behind `import` or the name of
a module, inside an expression, or in front of tokens that must come before a block. -/
inductive Phase where
  | start
  | importKw
  | imported (m : Ident)
  | line (l : LineKind) (fr : List Frame) (f : Focus)
  | expect (ts : List Tok) (b : OpenBlock)

/-- The blocks that are open, the statements of the innermost one so far, and the line. -/
structure Parser where
  blocks : List OpenBlock
  done : List Stmt
  phase : Phase

def Parser.init : Parser := ⟨[], [], .start⟩

/-- A token that ends the expression `e` of a line, behind the statements `done`. -/
def endExpr (blocks : List OpenBlock) (done : List Stmt) (e : Expr) :
    LineKind → Tok → Option Parser
  | .plain, .newline => some ⟨blocks, done ++ [.expr e], .start⟩
  | .plain, .op w =>
      if w = ['='] then
        match e with
        | .name x => some ⟨blocks, done, .line (.assign x) [] .operand⟩
        | .index d k => some ⟨blocks, done, .line (.setItem d k) [] .operand⟩
        | _ => none
      else none
  | .assign x, .newline => some ⟨blocks, done ++ [.assign x e], .start⟩
  | .setItem d k, .newline => some ⟨blocks, done ++ [.setItem d k e], .start⟩
  | .cond, .op w =>
      if w = [':'] then some ⟨blocks, [], .expect [.newline, .indent] (.thenOf done e)⟩ else none
  | _, _ => none

/-- A token at the beginning of a line. An expression may turn out to be the target of an
assignment. -/
def Parser.startLine (s : Parser) (t : Tok) : Option Parser :=
  if t = kwImport then some { s with phase := .importKw }
  else if t = kwIf then some { s with phase := .line .cond [] .operand }
  else if t = .dedent then
    if s.done = [] then none
    else
      match s.blocks with
      | .thenOf before c :: blocks => some ⟨blocks, [], .expect elseTokens (.elseOf before c s.done)⟩
      | .elseOf before c thn :: blocks => some ⟨blocks, before ++ [.ifElse c thn s.done], .start⟩
      | [] => none
  else (opening [] t).map fun x => { s with phase := .line .plain x.1 x.2 }

/-- One token. What an expression does not read may end it. -/
def Parser.step (s : Parser) (t : Tok) : Option Parser :=
  match s.phase with
  | .start => s.startLine t
  | .importKw =>
      match t with
      | .name x => (ident x).map fun i => { s with phase := .imported i }
      | _ => none
  | .imported m =>
      if t = .newline then some { s with done := s.done ++ [.imports m], phase := .start } else none
  | .line l fr f =>
      match exprStep fr f t with
      | some x => some { s with phase := .line l x.1 x.2 }
      | none =>
          f.expr.bind fun e =>
            match reduce fr e with
            | ([], e') => endExpr s.blocks s.done e' l t
            | _ => none
  | .expect [] _ => none
  | .expect (u :: us) b =>
      if t = u then
        match us with
        | [] => some ⟨b :: s.blocks, s.done, .start⟩
        | _ :: _ => some { s with phase := .expect us b }
      else none

/-- A sequence of tokens, from any state. -/
def Parser.run : Parser → List Tok → Option Parser
  | s, [] => some s
  | s, t :: ts => (s.step t).bind fun s => s.run ts

/-- **The program with the given tokens**, if there is one. -/
def parse (ts : List Tok) : Option (List Stmt) :=
  match Parser.init.run ts with
  | some ⟨[], p, .start⟩ => some p
  | _ => none

/-! ## Expressions are read back -/

/-- A sequence of tokens within one expression. -/
def exprRun (x : List Frame × Focus) : List Tok → Option (List Frame × Focus)
  | [] => some x
  | t :: ts => (exprStep x.1 x.2 t).bind fun x => exprRun x ts

/-- Reading goes on where it has stopped. -/
theorem exprRun_append (x : List Frame × Focus) (ts us : List Tok) :
    exprRun x (ts ++ us) = (exprRun x ts).bind fun x => exprRun x us := by
  induction ts generalizing x with
  | nil => rfl
  | cons t ts ih =>
      rw [List.cons_append, exprRun, exprRun, Option.bind_assoc]
      simp only [ih]

/-- No comparison waits for its right side. -/
def NoCompare : List Frame → Prop
  | .eqRight _ :: _ => False
  | _ => True

/-- How an operand stands in the focus when its last token has been read. -/
def Expr.focus : Expr → Focus
  | .name x => .ident x
  | .str v => .lit v
  | e => .done e

/-- The state behind an expression: a comparison is not closed yet, as its right side may go on.
-/
def Expr.behind (e : Expr) (fr : List Frame) : List Frame × Focus :=
  match e with
  | .eq a b => (.eqRight a :: fr, b.focus)
  | e => (fr, e.focus)

@[simp] theorem expr_focus (e : Expr) : e.focus.expr = some e := by
  cases e with
  | _ => rfl

theorem focus_ne_operand (e : Expr) : e.focus ≠ .operand := by
  intro h
  have he := expr_focus e
  rw [h] at he
  cases he

theorem exprStep_focus (fr : List Frame) (e : Expr) (t : Tok) :
    exprStep fr e.focus t = continuing fr e.focus e t := by
  cases e with
  | _ => rfl

/-- An expression is read back, both where an operand is wanted and elsewhere. The two together
are what the induction is about. -/
structure Reads (e : Expr) : Prop where
  tight : ∀ fr, exprRun (fr, .operand) (e.tokens true) = some (fr, e.focus)
  loose : ∀ fr, NoCompare fr → exprRun (fr, .operand) (e.tokens false) = some (e.behind fr)

/-- The same for the arguments of a call, behind any that have been read. -/
def ReadsArgs (args : List (Option Ident × Expr)) : Prop :=
  ∀ f acc fr, exprRun (.call f acc :: fr, .operand) (argTokens args) =
    some (fr, .done (.call f (acc ++ args)))

/-- And for the items of a dictionary. -/
def ReadsItems (items : List (Expr × Expr)) : Prop :=
  ∀ acc fr, exprRun (.key acc :: fr, .operand) (itemTokens items) =
    some (fr, .done (.dict (acc ++ items)))

/-- Tokens that close something, or separate what stands in brackets. -/
def IsCloser (w : List Char) : Prop := w = [')'] ∨ w = [']'] ∨ w = ['\x7d'] ∨ w = [','] ∨ w = [':']

theorem reduce_of_noCompare {fr : List Frame} (h : NoCompare fr) (e : Expr) :
    reduce fr e = (fr, e) := by
  unfold reduce
  split
  · exact absurd h id
  · rfl

/-- **A closing token behind an expression** closes the comparison first. -/
theorem exprStep_behind {fr : List Frame} (hfr : NoCompare fr) (e : Expr) {w : List Char}
    (hw : IsCloser w) :
    exprStep (e.behind fr).1 (e.behind fr).2 (opTok w) = closing w e fr := by
  have hcont : ∀ fr' f e', continuing fr' f e' (opTok w) =
      closing w (reduce fr' e').2 (reduce fr' e').1 := by
    intro fr' f e'
    rcases hw with rfl | rfl | rfl | rfl | rfl <;> rfl
  have hplain : exprStep fr e.focus (opTok w) = closing w e fr := by
    rw [exprStep_focus, hcont, reduce_of_noCompare hfr]
  cases e with
  | eq a b =>
      show exprStep (.eqRight a :: fr) b.focus (opTok w) = _
      rw [exprStep_focus, hcont]
      rfl
  | _ => exact hplain

/-- Behind an expression, one closing token and the rest. Each construct with brackets is read
back by this. -/
theorem exprRun_closer {e : Expr} (he : Reads e) {fr : List Frame} (hfr : NoCompare fr)
    {w : List Char} (hw : IsCloser w) (ts : List Tok) :
    exprRun (fr, .operand) (e.tokens false ++ opTok w :: ts) =
      (closing w e fr).bind fun x => exprRun x ts := by
  rw [exprRun_append, he.loose fr hfr, Option.bind_some, exprRun, exprStep_behind hfr e hw]

/-! ### One lemma for each kind of expression -/

/-- What has no comparison at its top has the same tokens everywhere, so it is enough to read it
as an operand. -/
theorem Reads.of_tight {e : Expr} (htok : e.tokens false = e.tokens true)
    (hbehind : ∀ fr, e.behind fr = (fr, e.focus))
    (h : ∀ fr, exprRun (fr, .operand) (e.tokens true) = some (fr, e.focus)) : Reads e := by
  constructor
  · exact h
  · intro fr _
    rw [htok, hbehind, h]

theorem opening_ident (fr : List Frame) (x : Ident) :
    opening fr x.tok = some (fr, .ident x) :=
  congrArg (Option.map fun i => (fr, Focus.ident i)) (ident_chars x)

theorem reads_name (x : Ident) : Reads (.name x) := by
  apply Reads.of_tight rfl (fun _ => rfl)
  intro fr
  show (opening fr x.tok).bind _ = _
  rw [opening_ident]
  rfl

theorem reads_number (w : List Char) : Reads (.number w) :=
  Reads.of_tight rfl (fun _ => rfl) fun _ => rfl

theorem reads_str (v : Str) : Reads (.str v) :=
  Reads.of_tight rfl (fun _ => rfl) fun _ => rfl

theorem reads_attr {e : Expr} (he : Reads e) (x : Ident) : Reads (.attr e x) := by
  apply Reads.of_tight rfl (fun _ => rfl)
  intro fr
  have hdot : exprStep fr e.focus (opTok ['.']) = some (fr, .dot e) := by
    rw [exprStep_focus]
    rfl
  have hname : exprStep fr (.dot e) x.tok = some (fr, .done (.attr e x)) :=
    congrArg (Option.map fun i => (fr, Focus.done (.attr e i))) (ident_chars x)
  show exprRun (fr, .operand) (e.tokens true ++ [opTok ['.'], x.tok]) = _
  rw [exprRun_append, he.tight, Option.bind_some, exprRun, hdot, Option.bind_some, exprRun, hname]
  rfl

theorem reads_index {e i : Expr} (he : Reads e) (hi : Reads i) : Reads (.index e i) := by
  apply Reads.of_tight rfl (fun _ => rfl)
  intro fr
  have hopen : exprStep fr e.focus (opTok ['[']) = some (.index e :: fr, .operand) := by
    rw [exprStep_focus]
    rfl
  show exprRun (fr, .operand) (e.tokens true ++ (opTok ['['] :: (i.tokens false ++ [opTok [']']]))) = _
  rw [exprRun_append, he.tight, Option.bind_some, exprRun, hopen, Option.bind_some,
    exprRun_closer hi (show NoCompare (.index e :: fr) from trivial) (Or.inr (Or.inl rfl))]
  rfl

theorem reads_call {f : Expr} {args : List (Option Ident × Expr)} (hf : Reads f)
    (hargs : ReadsArgs args) : Reads (.call f args) := by
  apply Reads.of_tight rfl (fun _ => rfl)
  intro fr
  have hopen : exprStep fr f.focus (opTok ['(']) = some (.call f [] :: fr, .operand) := by
    rw [exprStep_focus]
    rfl
  show exprRun (fr, .operand) (f.tokens true ++ (opTok ['('] :: argTokens args)) = _
  rw [exprRun_append, hf.tight, Option.bind_some, exprRun, hopen, Option.bind_some, hargs]
  rfl

theorem reads_dict {items : List (Expr × Expr)} (h : ReadsItems items) : Reads (.dict items) := by
  apply Reads.of_tight rfl (fun _ => rfl)
  intro fr
  show exprRun (.key [] :: fr, .operand) (itemTokens items) = _
  rw [h]
  rfl

/-- A comparison is the one expression whose tokens depend on where it stands: within parentheses
it is closed by theirs, and elsewhere by what follows. -/
theorem reads_eq {a b : Expr} (ha : Reads a) (hb : Reads b) : Reads (.eq a b) := by
  have hrun : ∀ fr, NoCompare fr → exprRun (fr, .operand)
      (a.tokens true ++ (opTok ['=', '='] :: b.tokens true)) = some (.eqRight a :: fr, b.focus) := by
    intro fr hfr
    -- `==` closes the left side, and nothing else waits for it
    have hop : exprStep fr a.focus (opTok ['=', '=']) = some (.eqRight a :: fr, .operand) := by
      rw [exprStep_focus]
      unfold continuing opTok
      dsimp only
      rw [if_neg (by decide), if_neg (by decide), if_neg (by decide), if_pos rfl]
      split
      · exact absurd hfr id
      · rfl
    rw [exprRun_append, ha.tight, Option.bind_some, exprRun, hop, Option.bind_some, hb.tight]
  constructor
  · intro fr
    show exprRun (.group :: fr, .operand)
      ((a.tokens true ++ (opTok ['=', '='] :: b.tokens true)) ++ [opTok [')']]) = _
    -- the parenthesis closes the comparison, then itself
    have hclose : exprStep (.eqRight a :: .group :: fr) b.focus (opTok [')']) =
        some (fr, .done (.eq a b)) := by
      rw [exprStep_focus]
      rfl
    rw [exprRun_append, hrun (.group :: fr) trivial, Option.bind_some, exprRun, hclose]
    rfl
  · exact hrun

/-! ### Arguments and items -/

/-- The frame behind the keyword of an argument. -/
def argFrame (f : Expr) (acc : List (Option Ident × Expr)) : Option Ident → Frame
  | none => .call f acc
  | some x => .kwarg f acc x

theorem exprRun_kwTokens (f : Expr) (acc : List (Option Ident × Expr)) (fr : List Frame)
    (k : Option Ident) (ts : List Tok) :
    exprRun (.call f acc :: fr, .operand) (kwTokens k ++ ts) =
      exprRun (argFrame f acc k :: fr, .operand) ts := by
  cases k with
  | none => rfl
  | some x =>
      show (opening (.call f acc :: fr) x.tok).bind _ = _
      rw [opening_ident]
      rfl

theorem noCompare_argFrame (f : Expr) (acc : List (Option Ident × Expr)) (k : Option Ident)
    (fr : List Frame) : NoCompare (argFrame f acc k :: fr) := by
  cases k with
  | _ => trivial

theorem readsArgs_nil : ReadsArgs [] := by
  intro f acc fr
  rw [List.append_nil]
  rfl

/-- An argument and the others: behind it stands a comma, or the parenthesis. -/
theorem readsArgs_cons {k : Option Ident} {e : Expr} {args : List (Option Ident × Expr)}
    (he : Reads e) (hargs : ReadsArgs args) : ReadsArgs ((k, e) :: args) := by
  intro f acc fr
  have hfr := noCompare_argFrame f acc k fr
  cases args with
  | nil =>
      show exprRun _ (kwTokens k ++ (e.tokens false ++ [opTok [')']])) = _
      rw [exprRun_kwTokens, exprRun_closer he hfr (Or.inl rfl)]
      cases k with
      | _ => rfl
  | cons a args =>
      show exprRun _ (kwTokens k ++ (e.tokens false ++ (opTok [','] :: argTokens (a :: args)))) = _
      -- a comma puts the argument with those in front of it
      have hcomma : closing [','] e (argFrame f acc k :: fr) =
          some (.call f (acc ++ [(k, e)]) :: fr, .operand) := by
        cases k with
        | _ => rfl
      rw [exprRun_kwTokens, exprRun_closer he hfr (Or.inr (Or.inr (Or.inr (Or.inl rfl)))), hcomma,
        Option.bind_some, hargs, List.append_assoc]
      rfl

theorem readsItems_nil : ReadsItems [] := by
  intro acc fr
  rw [List.append_nil]
  rfl

theorem readsItems_cons {k v : Expr} {items : List (Expr × Expr)} (hk : Reads k) (hv : Reads v)
    (hitems : ReadsItems items) : ReadsItems ((k, v) :: items) := by
  intro acc fr
  have hkey : NoCompare (.key acc :: fr) := trivial
  have hvalue : NoCompare (.value acc k :: fr) := trivial
  have hcolon : closing [':'] k (.key acc :: fr) = some (.value acc k :: fr, .operand) := rfl
  cases items with
  | nil =>
      show exprRun _ (k.tokens false ++ (opTok [':'] :: (v.tokens false ++ [opTok ['\x7d']]))) = _
      rw [exprRun_closer hk hkey (Or.inr (Or.inr (Or.inr (Or.inr rfl)))), hcolon,
        Option.bind_some, exprRun_closer hv hvalue (Or.inr (Or.inr (Or.inl rfl)))]
      rfl
  | cons a items =>
      show exprRun _ (k.tokens false ++ (opTok [':'] :: (v.tokens false ++
        (opTok [','] :: itemTokens (a :: items))))) = _
      have hcomma : closing [','] v (.value acc k :: fr) =
          some (.key (acc ++ [(k, v)]) :: fr, .operand) := rfl
      rw [exprRun_closer hk hkey (Or.inr (Or.inr (Or.inr (Or.inr rfl)))), hcolon,
        Option.bind_some, exprRun_closer hv hvalue (Or.inr (Or.inr (Or.inr (Or.inl rfl)))), hcomma,
        Option.bind_some, hitems, List.append_assoc]
      rfl

/-! ### All expressions -/

mutual

/-- **Every expression is read back**, by induction on the expression together with the
lists in it. -/
theorem reads : ∀ e : Expr, Reads e
  | .name x => reads_name x
  | .number w => reads_number w
  | .str v => reads_str v
  | .attr e x => reads_attr (reads e) x
  | .index e i => reads_index (reads e) (reads i)
  | .call f args => reads_call (reads f) (readsArgs args)
  | .dict items => reads_dict (readsItems items)
  | .eq a b => reads_eq (reads a) (reads b)

/-- The three inductions are one, on the nested structure of expressions, arguments and items. -/
theorem readsArgs : ∀ args : List (Option Ident × Expr), ReadsArgs args
  | [] => readsArgs_nil
  | (_, e) :: args => readsArgs_cons (reads e) (readsArgs args)

theorem readsItems : ∀ items : List (Expr × Expr), ReadsItems items
  | [] => readsItems_nil
  | (k, v) :: items => readsItems_cons (reads k) (reads v) (readsItems items)

end

/-! ## Programs are read back -/

namespace Parser

theorem run_append (s : Parser) (ts us : List Tok) :
    s.run (ts ++ us) = (s.run ts).bind fun s => s.run us := by
  induction ts generalizing s with
  | nil => rfl
  | cons t ts ih =>
      rw [List.cons_append, run, run, Option.bind_assoc]
      simp only [ih]

section

variable {bs : List OpenBlock} {done : List Stmt} {l : LineKind}

/-- What an expression reads, a line reads. -/
theorem run_line {fr fr' : List Frame} {f f' : Focus} {ts : List Tok}
    (h : exprRun (fr, f) ts = some (fr', f')) (us : List Tok) :
    run ⟨bs, done, .line l fr f⟩ (ts ++ us) = run ⟨bs, done, .line l fr' f'⟩ us := by
  induction ts generalizing fr f with
  | nil =>
      cases h
      rfl
  | cons t ts ih =>
      rw [exprRun, Option.bind_eq_some_iff] at h
      obtain ⟨x, hx, hrest⟩ := h
      have hstep : step ⟨bs, done, .line l fr f⟩ t = some ⟨bs, done, .line l x.1 x.2⟩ := by
        show (match exprStep fr f t with
          | some x => some (⟨bs, done, .line l x.1 x.2⟩ : Parser)
          | none => _) = _
        have hx' : exprStep fr f t = some x := hx
        rw [hx']
      rw [List.cons_append, run, hstep, Option.bind_some, ih hrest]

/-- The tokens that may end the expression of a line. -/
def EndsLine (t : Tok) : Prop := t = .newline ∨ t = opTok [':'] ∨ t = opTok ['=']

/-- Outside of brackets none of them continues an expression. -/
theorem exprStep_endsLine {t : Tok} (ht : EndsLine t) (e : Expr) :
    exprStep (e.behind []).1 (e.behind []).2 t = none := by
  have hcont : ∀ fr f e', (fr = [] ∨ ∃ a, fr = [.eqRight a]) → continuing fr f e' t = none := by
    intro fr f e' hfr
    rcases hfr with rfl | ⟨a, rfl⟩
    · rcases ht with rfl | rfl | rfl
      · rfl
      · rfl
      · cases f with
        | _ => rfl
    · rcases ht with rfl | rfl | rfl
      · rfl
      · rfl
      · cases f with
        | _ => rfl
  have hplain : exprStep [] e.focus t = none := by
    rw [exprStep_focus]
    exact hcont _ _ _ (Or.inl rfl)
  cases e with
  | eq a b =>
      show exprStep [.eqRight a] b.focus t = none
      rw [exprStep_focus]
      exact hcont _ _ _ (Or.inr ⟨a, rfl⟩)
  | _ => exact hplain

/-- **A line ends** with its expression put together, and what is made of it depends on the line
it is on. -/
theorem run_expr_end (e : Expr) {t : Tok} (ht : EndsLine t) (us : List Tok) :
    run ⟨bs, done, .line l [] .operand⟩ (e.tokens false ++ t :: us) =
      (endExpr bs done e l t).bind fun s => s.run us := by
  have hrun := @run_line bs done l [] (e.behind []).1 .operand (e.behind []).2 (e.tokens false)
    ((reads e).loose [] trivial) (t :: us)
  have hstep : step ⟨bs, done, .line l (e.behind []).1 (e.behind []).2⟩ t =
      endExpr bs done e l t := by
    show (match exprStep (e.behind []).1 (e.behind []).2 t with
      | some x => some (⟨bs, done, .line l x.1 x.2⟩ : Parser)
      | none => (e.behind []).2.expr.bind fun e' => match reduce (e.behind []).1 e' with
          | ([], e'') => endExpr bs done e'' l t
          | _ => none) = _
    rw [exprStep_endsLine ht]
    -- a comparison is put together here
    cases e with
    | eq a b =>
        show b.focus.expr.bind _ = _
        rw [expr_focus]
        rfl
    | _ => rfl
  rw [hrun, run, hstep]

/-- The first token of an expression begins an expression statement. -/
theorem startLine_of_opening {t : Tok} {x : List Frame × Focus} (h : opening [] t = some x) :
    startLine ⟨bs, done, .start⟩ t = some ⟨bs, done, .line .plain x.1 x.2⟩ := by
  have himport : t ≠ kwImport := by
    rintro rfl
    have hnone : opening [] kwImport = none := rfl
    rw [hnone] at h
    cases h
  have hif : t ≠ kwIf := by
    rintro rfl
    have hnone : opening [] kwIf = none := rfl
    rw [hnone] at h
    cases h
  have hdedent : t ≠ .dedent := by
    rintro rfl
    cases h
  rw [startLine, if_neg himport, if_neg hif, if_neg hdedent, h]
  rfl

theorem run_start {ts : List Tok} {x : List Frame × Focus} (h : exprRun ([], .operand) ts = some x)
    (hx : x.2 ≠ .operand) (us : List Tok) :
    run ⟨bs, done, .start⟩ (ts ++ us) = run ⟨bs, done, .line .plain [] .operand⟩ (ts ++ us) := by
  cases ts with
  | nil =>
      cases h
      exact absurd rfl hx
  | cons t ts =>
      rw [exprRun, Option.bind_eq_some_iff] at h
      obtain ⟨y, hy, -⟩ := h
      have hopen : opening [] t = some y := hy
      have hstep : step ⟨bs, done, .line .plain [] .operand⟩ t =
          some ⟨bs, done, .line .plain y.1 y.2⟩ := by
        show (match opening [] t with
          | some x => some (⟨bs, done, .line .plain x.1 x.2⟩ : Parser)
          | none => _) = _
        rw [hopen]
      rw [List.cons_append, run, run, hstep]
      exact congrArg (Option.bind · _) (startLine_of_opening hopen)

/-- A line that begins with an expression: it is read as one before it is known what line it is.
-/
theorem run_start_expr (e : Expr) {t : Tok} (ht : EndsLine t) (us : List Tok) :
    run ⟨bs, done, .start⟩ (e.tokens false ++ t :: us) =
      (endExpr bs done e .plain t).bind fun s => s.run us := by
  have hplain : e.focus ≠ .operand := focus_ne_operand e
  have hfocus : (e.behind []).2 ≠ .operand := by
    cases e with
    | eq a b => exact focus_ne_operand b
    | _ => exact hplain
  rw [run_start ((reads e).loose [] trivial) hfocus, run_expr_end e ht]

end

/-! ### One lemma for each kind of statement -/

/-- A statement is read back, from the beginning of a line, in any blocks. -/
def ReadsStmt (s : Stmt) : Prop :=
  ∀ bs done us, run ⟨bs, done, .start⟩ (s.tokens ++ us) = run ⟨bs, done ++ [s], .start⟩ us

/-- And a block, statement by statement. -/
def ReadsBlock (ss : List Stmt) : Prop :=
  ∀ bs done us, run ⟨bs, done, .start⟩ (blockTokens ss ++ us) = run ⟨bs, done ++ ss, .start⟩ us

theorem readsStmt_imports (m : Ident) : ReadsStmt (.imports m) := by
  intro bs done us
  have hname : step ⟨bs, done, .importKw⟩ m.tok = some ⟨bs, done, .imported m⟩ :=
    congrArg (Option.map fun i => Parser.mk bs done (.imported i)) (ident_chars m)
  show (step ⟨bs, done, .importKw⟩ m.tok).bind _ = _
  rw [hname]
  rfl

theorem readsStmt_expr (e : Expr) : ReadsStmt (.expr e) := by
  intro bs done us
  show run _ (e.tokens false ++ [.newline] ++ us) = _
  rw [List.append_assoc, List.singleton_append, run_start_expr e (Or.inl rfl)]
  rfl

theorem readsStmt_assign (x : Ident) (e : Expr) : ReadsStmt (.assign x e) := by
  intro bs done us
  show run _ ((Expr.name x).tokens false ++ opTok ['='] :: (e.tokens false ++ [.newline] ++ us)) = _
  rw [run_start_expr (.name x) (Or.inr (Or.inr rfl))]
  show run ⟨bs, done, .line (.assign x) [] .operand⟩ _ = _
  rw [List.append_assoc, List.singleton_append, run_expr_end e (Or.inl rfl)]
  rfl

theorem readsStmt_setItem (d k e : Expr) : ReadsStmt (.setItem d k e) := by
  intro bs done us
  have htok : (Stmt.setItem d k e).tokens ++ us =
      (Expr.index d k).tokens false ++ opTok ['='] :: (e.tokens false ++ .newline :: us) := by
    show (Expr.index d k).tokens true ++ (opTok ['='] :: (e.tokens false ++ [.newline])) ++ us = _
    rw [List.append_assoc, List.cons_append, List.append_assoc, List.singleton_append]
    rfl
  rw [htok, run_start_expr (.index d k) (Or.inr (Or.inr rfl))]
  show run ⟨bs, done, .line (.setItem d k) [] .operand⟩ _ = _
  rw [run_expr_end e (Or.inl rfl)]
  rfl

/-- An `if` opens a block and another one, and neither may be empty, as a dedent has to follow
some statement. -/
theorem readsStmt_ifElse (c : Expr) {thn els : List Stmt} (hthn : ReadsBlock thn)
    (hels : ReadsBlock els) (hne : thn ≠ []) (hne' : els ≠ []) :
    ReadsStmt (.ifElse c thn els) := by
  intro bs done us
  have htok : (Stmt.ifElse c thn els).tokens ++ us =
      kwIf :: (c.tokens false ++ opTok [':'] :: .newline :: .indent :: (blockTokens thn ++
        (.dedent :: (elseTokens ++ (blockTokens els ++ .dedent :: us))))) := by
    show kwIf :: (c.tokens false ++ (thenTokens ++ (blockTokens thn ++ (.dedent :: (elseTokens ++
      (blockTokens els ++ [.dedent])))))) ++ us = _
    simp [thenTokens]
  -- the first block ends, and only an `else` may follow
  have hdedent : startLine ⟨.thenOf done c :: bs, thn, .start⟩ .dedent =
      some ⟨bs, [], .expect elseTokens (.elseOf done c thn)⟩ := by
    show (if thn = [] then none else _) = _
    rw [if_neg hne]
  -- and the second one ends the statement
  have hend : startLine ⟨.elseOf done c thn :: bs, els, .start⟩ .dedent =
      some ⟨bs, done ++ [.ifElse c thn els], .start⟩ := by
    show (if els = [] then none else _) = _
    rw [if_neg hne']
  rw [htok]
  show run ⟨bs, done, .line .cond [] .operand⟩ _ = _
  rw [run_expr_end c (Or.inr (Or.inl rfl))]
  show run ⟨.thenOf done c :: bs, [], .start⟩ _ = _
  rw [hthn, List.nil_append]
  show (startLine ⟨.thenOf done c :: bs, thn, .start⟩ .dedent).bind _ = _
  rw [hdedent]
  show run ⟨.elseOf done c thn :: bs, [], .start⟩ (blockTokens els ++ .dedent :: us) = _
  rw [hels, List.nil_append]
  show (startLine ⟨.elseOf done c thn :: bs, els, .start⟩ .dedent).bind _ = _
  rw [hend]
  rfl

end Parser

mutual

/-- No block is empty. -/
def Stmt.Wf : Stmt → Prop
  | .ifElse _ thn els => thn ≠ [] ∧ els ≠ [] ∧ BlockWf thn ∧ BlockWf els
  | _ => True

def BlockWf : List Stmt → Prop
  | [] => True
  | s :: ss => s.Wf ∧ BlockWf ss

end

mutual

theorem readsStmt : ∀ s : Stmt, s.Wf → Parser.ReadsStmt s
  | .imports m, _ => Parser.readsStmt_imports m
  | .assign x e, _ => Parser.readsStmt_assign x e
  | .setItem d k e, _ => Parser.readsStmt_setItem d k e
  | .expr e, _ => Parser.readsStmt_expr e
  | .ifElse c thn els, h =>
      Parser.readsStmt_ifElse c (readsBlock thn h.2.2.1) (readsBlock els h.2.2.2) h.1 h.2.1

theorem readsBlock : ∀ ss : List Stmt, BlockWf ss → Parser.ReadsBlock ss
  | [], _ => by
      intro bs done us
      rw [List.append_nil]
      rfl
  | s :: ss, h => by
      intro bs done us
      show Parser.run _ (s.tokens ++ blockTokens ss ++ us) = _
      rw [List.append_assoc, readsStmt s h.1, readsBlock ss h.2, List.append_assoc]
      rfl

end

/-- **Every program is read back from its tokens.** So a program may be given as a tree, and a
proof that its text has the tree's tokens is a proof that the text is that program. -/
theorem parse_tokens {p : List Stmt} (h : BlockWf p) : parse (blockTokens p) = some p := by
  have hrun := readsBlock p h [] [] []
  rw [List.append_nil, List.nil_append] at hrun
  show (match Parser.run ⟨[], [], .start⟩ (blockTokens p) with
    | some ⟨[], p, .start⟩ => some p
    | _ => none) = _
  rw [hrun]
  rfl

end Python
