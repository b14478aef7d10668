/-
Running programs of the small part of Python of `PyProgram`.

What is not written in Python is a host: its modules, its built-in functions and
its objects, which have attributes and can be called, and whose calls change the
host's own world. Dictionaries are objects on a heap, as two variables can share one.
A run ends in its last state, also when an exception ends it early, so what had
been done to the world by then is not lost.

Where Python does something that this part does not describe, a run ends with
`unmodelled`, which is no exception of Python's.
-/
import VideoUploader.PyProgram
import Mathlib.Data.Int.Notation
import Mathlib.Logic.Function.Basic

set_option autoImplicit false

namespace Python

/-! ## Values -/

/-- What a text in JSON stands for. Numbers with a fraction or an exponent are kept as
they are written. -/
inductive Json where
  | null
  | bool (b : Bool)
  | int (n : ℤ)
  | float (w : List Char)
  | str (s : Str)
  | arr (items : List Json)
  | obj (items : List (Str × Json))

/-- Values: what JSON can say, dictionaries on the heap, and the objects of the host. -/
inductive Value (ω : Type) where
  | json (j : Json)
  | dict (r : ℕ)
  | host (o : ω)

/-- The exceptions of the fragment, those of the host among them. `unmodelled` stands for what
the model does not say, and never for a result. -/
inductive Exn where
  | nameError (x : List Char)
  | typeError
  | keyError (k : Str)
  | attributeError (x : List Char)
  | importError (x : List Char)
  | foreign (kind : List Char)
  | unmodelled
  deriving DecidableEq

/-- A dictionary keeps the order in which its keys came. -/
abbrev Dict (ω : Type) := List (Str × Value ω)

/-- Dictionaries are shared, so values refer to them by number. -/
abbrev Heap (ω : Type) := List (Dict ω)

/-- `d[k] = v`: a key keeps its place, and a new one is the last. -/
def setKey {α : Type} (k : Str) (v : α) : List (Str × α) → List (Str × α)
  | [] => [(k, v)]
  | (k', v') :: d => if k' = k then (k, v) :: d else (k', v') :: setKey k v d

/-- `d[k]`, if there is the key. -/
def getKey {α : Type} (k : Str) : List (Str × α) → Option α
  | [] => none
  | (k', v) :: d => if k' = k then some v else getKey k d

/-- An integer literal, as far as it is written in decimal digits. -/
def decimal (w : List Char) : Option ℕ :=
  if w ≠ [] ∧ w.all Char.isDigit = true ∧ (w.head? ≠ some '0' ∨ w = ['0']) then
    some (Nat.ofDigitChars 10 w 0)
  else none

/-- `==`, for values that can be compared without the host. -/
def Json.eqv : Json → Json → Option Bool
  | .null, .null => some true
  | .int m, .int n => some (decide (m = n))
  | .str s, .str t => some (decide (s = t))
  | .int _, .str _ => some false
  | .str _, .int _ => some false
  | .null, .int _ => some false
  | .int _, .null => some false
  | .null, .str _ => some false
  | .str _, .null => some false
  | _, _ => none

/-- What a condition comes to. Only floating-point numbers are left out. -/
def Json.truth : Json → Option Bool
  | .null => some false
  | .bool b => some b
  | .int n => some (decide (n ≠ 0))
  | .float _ => none
  | .str s => some (decide (s ≠ []))
  | .arr items => some (!items.isEmpty)
  | .obj items => some (!items.isEmpty)

/-- The JSON of a value, dictionaries with what stands in them. A dictionary in itself
has none, so a depth beyond the number of dictionaries need not be looked into. -/
def toJson {ω : Type} (heap : Heap ω) : ℕ → Value ω → Option Json
  | _, .json j => some j
  | _, .host _ => none
  | 0, .dict _ => none
  | n + 1, .dict r =>
      match heap[r]? with
      | none => none
      | some d =>
          (d.mapM fun x => (toJson heap n x.2).map fun j => (x.1, j)).map Json.obj

/-! ## The host -/

/-- What is not written in Python. A call has the positional arguments and those with a
keyword. -/
structure Host (ω σ : Type) where
  module : List Char → Option ω
  builtin : List Char → Option ω
  attr : ω → List Char → Option (Value ω)
  call : Heap ω → ω → List (Value ω) → List (List Char × Value ω) → σ → Except Exn (Value ω) × σ

/-- The variables, the dictionaries and the world that the host acts on. -/
structure State (ω σ : Type) where
  vars : List Char → Option (Value ω)
  heap : Heap ω
  world : σ

/-- A computation with its result, or the exception that ends it, and its last state. -/
abbrev Eval (ω σ α : Type) := State ω σ → Except Exn α × State ω σ

section

variable {ω σ α β : Type}

def Eval.ok (a : α) : Eval ω σ α := fun s => (.ok a, s)

def Eval.raise (x : Exn) : Eval ω σ α := fun s => (.error x, s)

/-- One computation after another; an exception ends both, and leaves the state as it was then.
-/
def Eval.andThen (m : Eval ω σ α) (f : α → Eval ω σ β) : Eval ω σ β := fun s =>
  match m s with
  | (.ok a, s') => f a s'
  | (.error x, s') => (.error x, s')

/-- What there may not be is an exception where there is not. -/
def Eval.ofOption (x : Exn) : Option α → Eval ω σ α
  | some a => Eval.ok a
  | none => Eval.raise x

end

/-! ## Expressions -/

variable {ω σ : Type} (host : Host ω σ)

/-- A variable, or what the host has by that name. -/
def lookupName (x : List Char) : Eval ω σ (Value ω) := fun s =>
  match s.vars x with
  | some v => (.ok v, s)
  | none => Eval.ofOption (.nameError x) ((host.builtin x).map Value.host) s

def getAttr (x : List Char) : Value ω → Eval ω σ (Value ω)
  | .host o => Eval.ofOption (.attributeError x) (host.attr o x)
  | _ => Eval.raise .unmodelled

/-- `v[i]`, for strings as keys. Three kinds of values can be asked, and each has its own way to
fail. -/
def getItem : Value ω → Value ω → Eval ω σ (Value ω)
  | .dict r, .json (.str k) => fun s =>
      Eval.ofOption (.keyError k) ((s.heap[r]?).bind (getKey k)) s
  | .json (.obj items), .json (.str k) =>
      Eval.ofOption (.keyError k) ((getKey k items).map Value.json)
  | .json _, .json (.str _) => Eval.raise .typeError
  | _, _ => Eval.raise .unmodelled

/-- `v[i] = x`. What came from elsewhere is not changed in place here. -/
def setItem : Value ω → Value ω → Value ω → Eval ω σ Unit
  | .dict r, .json (.str k), v => fun s =>
      (.ok (), { s with heap := s.heap.modify r (setKey k v) })
  | _, _, _ => Eval.raise .unmodelled

/-- A new dictionary, which nothing else refers to. -/
def newDict (items : List (Str × Value ω)) : Eval ω σ (Value ω) := fun s =>
  (.ok (.dict s.heap.length),
    { s with heap := s.heap ++ [items.foldl (fun d x => setKey x.1 x.2 d) []] })

/-- The arguments without a keyword, in their order. -/
def positional : List (Option Ident × Value ω) → List (Value ω)
  | [] => []
  | (none, v) :: args => v :: positional args
  | (some _, _) :: args => positional args

/-- The arguments with a keyword. -/
def keywordArgs : List (Option Ident × Value ω) → List (List Char × Value ω)
  | [] => []
  | (none, _) :: args => keywordArgs args
  | (some k, v) :: args => (k.chars, v) :: keywordArgs args

/-- A call. Only the host has functions. -/
def callValue (args : List (Option Ident × Value ω)) : Value ω → Eval ω σ (Value ω)
  | .host o => fun s =>
      let x := host.call s.heap o (positional args) (keywordArgs args) s.world
      (x.1, { s with world := x.2 })
  | _ => Eval.raise .typeError

def eqValues : Value ω → Value ω → Eval ω σ (Value ω)
  | .json i, .json j => Eval.ofOption .unmodelled ((i.eqv j).map fun b => .json (.bool b))
  | _, _ => Eval.raise .unmodelled

/-- A key of a dictionary, which is a string here. -/
def asKey : Value ω → Eval ω σ Str
  | .json (.str k) => Eval.ok k
  | _ => Eval.raise .unmodelled

mutual

/-- Everything is evaluated from the left to the right. An assignment's target comes last, though
it is written first. -/
def eval : Expr → Eval ω σ (Value ω)
  | .name x => lookupName host x.chars
  | .number w => Eval.ofOption .unmodelled ((decimal w).map fun n => .json (.int n))
  | .str v => Eval.ok (.json (.str v))
  | .attr e x => (eval e).andThen (getAttr host x.chars)
  | .index e i => (eval e).andThen fun d => (eval i).andThen fun k => getItem d k
  | .call f args => (eval f).andThen fun g => (evalArgs args).andThen fun vs => callValue host vs g
  | .dict items => (evalItems items).andThen newDict
  | .eq a b => (eval a).andThen fun x => (eval b).andThen fun y => eqValues x y

def evalArgs : List (Option Ident × Expr) → Eval ω σ (List (Option Ident × Value ω))
  | [] => Eval.ok []
  | (k, e) :: args =>
      (eval e).andThen fun v => (evalArgs args).andThen fun vs => Eval.ok ((k, v) :: vs)

def evalItems : List (Expr × Expr) → Eval ω σ (List (Str × Value ω))
  | [] => Eval.ok []
  | (k, e) :: items =>
      ((eval k).andThen asKey).andThen fun key =>
        (eval e).andThen fun v => (evalItems items).andThen fun vs => Eval.ok ((key, v) :: vs)

end

/-! ## Statements -/

def setVar (x : List Char) (v : Value ω) : Eval ω σ Unit := fun s =>
  (.ok (), { s with vars := Function.update s.vars x (some v) })

/-- The block that a condition chooses. -/
def branch (thn els : Eval ω σ Unit) : Value ω → Eval ω σ Unit
  | .json j => (Eval.ofOption .unmodelled j.truth).andThen fun b => if b then thn else els
  | _ => Eval.raise .unmodelled

mutual

/-- The right side of an assignment is evaluated first, then its target. An import puts a module
into a variable. -/
def exec : Stmt → Eval ω σ Unit
  | .imports m =>
      (Eval.ofOption (.importError m.chars) (host.module m.chars)).andThen fun o =>
        setVar m.chars (.host o)
  | .assign x e => (eval host e).andThen (setVar x.chars)
  | .setItem d k e =>
      (eval host e).andThen fun v =>
        (eval host d).andThen fun dv => (eval host k).andThen fun kv => setItem dv kv v
  | .expr e => (eval host e).andThen fun _ => Eval.ok ()
  | .ifElse c thn els => (eval host c).andThen (branch (execBlock thn) (execBlock els))

/-- A block, statement by statement. -/
def execBlock : List Stmt → Eval ω σ Unit
  | [] => Eval.ok ()
  | s :: ss => (exec s).andThen fun _ => execBlock ss

end

/-! ## Rules

What a run comes to, from what its parts come to: one rule for a part that ends
normally, and one for a part that raises. -/

section Rules

variable {host}

/-- What comes behind a computation that succeeds, -/
theorem Eval.andThen_ok {α β : Type} {m : Eval ω σ α} {f : α → Eval ω σ β} {s s' : State ω σ} {a : α}
    (h : m s = (.ok a, s')) : m.andThen f s = f a s' := by
  unfold Eval.andThen
  rw [h]

/-- and behind one that does not. -/
theorem Eval.andThen_error {α β : Type} {m : Eval ω σ α} {f : α → Eval ω σ β} {s s' : State ω σ}
    {x : Exn} (h : m s = (.error x, s')) : m.andThen f s = (.error x, s') := by
  unfold Eval.andThen
  rw [h]

variable {e f c : Expr} {args : List (Option Ident × Expr)} {st : Stmt} {p q : List Stmt}
  {s s' s₁ : State ω σ}

/-- A call of the host, once its parts have been evaluated. The state in which it is called is
the one behind the arguments. -/
theorem eval_call {o : ω} {vs : List (Option Ident × Value ω)} {r : Except Exn (Value ω)} {w : σ}
    {s₂ : State ω σ} (hf : eval host f s = (.ok (.host o), s₁))
    (hargs : evalArgs host args s₁ = (.ok vs, s'))
    (hcall : host.call s'.heap o (positional vs) (keywordArgs vs) s'.world = (r, w))
    (hstate : s₂ = { s' with world := w }) : eval host (.call f args) s = (r, s₂) := by
  show ((eval host f).andThen fun g => (evalArgs host args).andThen fun vs => callValue host vs g) s = _
  rw [Eval.andThen_ok hf, Eval.andThen_ok hargs, hstate]
  show ((host.call s'.heap o (positional vs) (keywordArgs vs) s'.world).1, _) = _
  rw [hcall]

theorem exec_assign {x : Ident} {v : Value ω} (h : eval host e s = (.ok v, s')) :
    exec host (.assign x e) s = (.ok (), { s' with vars := Function.update s'.vars x.chars (some v) }) :=
  Eval.andThen_ok h

theorem exec_assign_error {x : Ident} {y : Exn} (h : eval host e s = (.error y, s')) :
    exec host (.assign x e) s = (.error y, s') :=
  Eval.andThen_error h

theorem exec_expr {v : Value ω} (h : eval host e s = (.ok v, s')) :
    exec host (.expr e) s = (.ok (), s') :=
  Eval.andThen_ok h

/-- The three parts are evaluated one after another, each in the state that the one before has
left. -/
theorem exec_setItem {d k : Expr} {dv kv v : Value ω} {s₂ : State ω σ}
    (he : eval host e s = (.ok v, s')) (hd : eval host d s' = (.ok dv, s₁))
    (hk : eval host k s₁ = (.ok kv, s₂)) :
    exec host (.setItem d k e) s = setItem dv kv v s₂ := by
  show ((eval host e).andThen fun v => (eval host d).andThen fun dv =>
    (eval host k).andThen fun kv => setItem dv kv v) s = _
  rw [Eval.andThen_ok he, Eval.andThen_ok hd, Eval.andThen_ok hk]

theorem exec_setItem_error {d k : Expr} {x : Exn} (he : eval host e s = (.error x, s')) :
    exec host (.setItem d k e) s = (.error x, s') :=
  Eval.andThen_error he

/-- The block that the condition chooses. -/
theorem exec_ifElse {thn els : List Stmt} {b : Bool} (h : eval host c s = (.ok (.json (.bool b)), s')) :
    exec host (.ifElse c thn els) s = execBlock host (if b then thn else els) s' := by
  show ((eval host c).andThen (branch (execBlock host thn) (execBlock host els))) s = _
  rw [Eval.andThen_ok h]
  cases b with
  | _ => rfl

theorem execBlock_cons (h : exec host st s = (.ok (), s')) :
    execBlock host (st :: p) s = execBlock host p s' :=
  Eval.andThen_ok h

theorem execBlock_cons_error {x : Exn} (h : exec host st s = (.error x, s')) :
    execBlock host (st :: p) s = (.error x, s') :=
  Eval.andThen_error h

/-- A block may be run in two parts. -/
theorem execBlock_append (h : execBlock host p s = (.ok (), s')) :
    execBlock host (p ++ q) s = execBlock host q s' := by
  induction p generalizing s with
  | nil =>
      cases h
      rfl
  | cons st p ih =>
      -- the first statement has ended normally, or the block had not
      rcases hst : exec host st s with ⟨_ | _, s₁⟩
      · rw [execBlock_cons_error hst] at h
        cases h
      · rw [execBlock_cons hst] at h
        rw [List.cons_append, execBlock_cons hst, ih h]

end Rules

/-! ## Whole programs -/

/-- How a program that is no program ends, or one that has been run. -/
inductive RunResult (σ : Type) where
  | syntaxError
  | finished (world : σ)
  | raised (x : Exn) (world : σ)

/-- What a run has come to, with the world it leaves. -/
def RunResult.ofState : Except Exn Unit × State ω σ → RunResult σ
  | (.ok (), s) => .finished s.world
  | (.error x, s) => .raised x s.world

/-- A run starts without variables, and without dictionaries. -/
def State.start (w : σ) : State ω σ := ⟨fun _ => none, [], w⟩

/-- `python3` on a program text. Nothing is run of a text that is no program. -/
def runSource (names : List Char → Option ℕ) (src : List Char) (w : σ) : RunResult σ :=
  match (programTokens names src).bind parse with
  | none => .syntaxError
  | some p => .ofState (execBlock host p (State.start w))

end Python
