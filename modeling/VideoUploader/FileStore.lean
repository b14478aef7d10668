/-
A store of files: a tree of directories given by its paths.

A store says what stands at every path, and carries its own well-formedness:
something stands only in a directory, and only finitely many paths are used.
Each operation is total and says `none` where what stands in the store makes the
system call fail. A call can fail for other reasons too, as a disk is full or a name
too long; whoever uses an operation says whether it is let through. The lemmas
about an operation say what stands at its own path afterwards and that every
other path is as it was.
-/
import Mathlib.Data.List.Infix
import Mathlib.Data.List.Dedup

set_option autoImplicit false

namespace FileStore

/-! ## Stores -/

/-- What can stand at a path. Links and devices are left out, as nothing here makes one. -/
inductive Node where
  | file (bytes : List UInt8)
  | dir
  deriving DecidableEq

/-- What stands at every path. The support is any list that has all the paths in use, in the
order in which a directory lists them: that order is the file system's own, and nothing is
assumed of it. -/
structure Store (ν : Type*) where
  node : List ν → Option Node
  support : List (List ν)
  mem_support : ∀ {p}, node p ≠ none → p ∈ support
  root : node [] = some .dir
  parent : ∀ {p n}, node (p ++ [n]) ≠ none → node p = some .dir

variable {ν : Type*}

/-- Nothing but an empty root. -/
def Store.empty : Store ν where
  node p := match p with
    | [] => some .dir
    | _ :: _ => none
  support := [[]]
  mem_support := by
    intro p hp
    rcases p with _ | ⟨n, p⟩
    · exact List.mem_singleton_self _
    · exact absurd rfl hp
  root := rfl
  parent := by
    intro p n hp
    rcases p with _ | ⟨m, p⟩
    · exact absurd rfl hp
    · exact absurd rfl hp

variable [DecidableEq ν]

namespace Store

/-- Whether a file may be put at a path: in a directory, and not over one. A file that is there
already is replaced. -/
def CanWrite (fs : Store ν) (p : List ν) : Prop :=
  p ≠ [] ∧ fs.node p.dropLast = some .dir ∧ fs.node p ≠ some .dir

instance (fs : Store ν) (p : List ν) : Decidable (fs.CanWrite p) := by
  unfold CanWrite
  infer_instance

/-- The store with `n` at `p`. The proof that `p` may be written is what the two facts about a
store are kept by. -/
def put (fs : Store ν) (p : List ν) (n : Node) (h : fs.CanWrite p) : Store ν where
  node q := if q = p then some n else fs.node q
  support := p :: fs.support
  mem_support := by
    intro q hq
    by_cases hqp : q = p
    · rw [hqp]
      exact List.mem_cons_self
    · rw [if_neg hqp] at hq
      exact List.mem_cons_of_mem p (fs.mem_support hq)
  root := by
    rw [if_neg (Ne.symm h.1)]
    exact fs.root
  parent := by
    intro q m hq
    have hdir : fs.node q = some .dir := by
      by_cases hqp : q ++ [m] = p
      · rw [← h.2.1, ← hqp, List.dropLast_concat]
      · rw [if_neg hqp] at hq
        exact fs.parent hq
    have hne : q ≠ p := fun hqp => h.2.2 (hqp ▸ hdir)
    rw [if_neg hne]
    exact hdir

/-! ## Writing and making directories -/

/-- `open` for writing, and everything that is written until the file is closed. There is one
step for it, because nobody reads the file in between. -/
def write (fs : Store ν) (p : List ν) (bytes : List UInt8) : Option (Store ν) :=
  if h : fs.CanWrite p then some (fs.put p (.file bytes) h) else none

/-- `mkdir`, which makes a directory where nothing stands. What else may keep it from that (the
length of a name, permissions, space) is the caller's parameter. -/
def mkdir (fs : Store ν) (p : List ν) : Option (Store ν) :=
  if h : fs.CanWrite p then
    if fs.node p = none then some (fs.put p .dir h) else none
  else none

/-- What is put at a path stands there, and nothing else is changed. -/
theorem node_put (fs : Store ν) {p : List ν} {n : Node} (h : fs.CanWrite p) (q : List ν) :
    (fs.put p n h).node q = if q = p then some n else fs.node q := rfl

theorem write_eq_some_iff {fs fs' : Store ν} {p : List ν} {bytes : List UInt8} :
    fs.write p bytes = some fs' ↔ ∃ h : fs.CanWrite p, fs.put p (.file bytes) h = fs' := by
  unfold write
  by_cases h : fs.CanWrite p
  · simp [h]
  · simp [h]

/-- A failing write changes nothing, and one that succeeds only its own path. -/
theorem node_write_of_ne {fs : Store ν} {p q : List ν} {bytes : List UInt8} (h : q ≠ p) :
    ((fs.write p bytes).getD fs).node q = fs.node q := by
  unfold write
  by_cases hw : fs.CanWrite p
  · simp [hw, node_put, h]
  · simp [hw]

theorem node_mkdir_of_ne {fs : Store ν} {p q : List ν} (h : q ≠ p) :
    ((fs.mkdir p).getD fs).node q = fs.node q := by
  unfold mkdir
  by_cases hw : fs.CanWrite p
  · by_cases hnone : fs.node p = none
    · simp [hw, hnone, node_put, h]
    · simp [hw, hnone]
  · simp [hw]

/-! ## Removing -/

/-- The store without the file at `p`. Nothing stands below a file, so no path loses its parent.
-/
def erase (fs : Store ν) (p : List ν) (h : fs.node p ≠ some .dir) : Store ν where
  node q := if q = p then none else fs.node q
  support := fs.support
  mem_support := by
    intro q hq
    split at hq
    · exact absurd rfl hq
    · exact fs.mem_support hq
  root := by
    have hp : [] ≠ p := fun hp => h (hp ▸ fs.root)
    rw [if_neg hp]
    exact fs.root
  parent := by
    intro q n hq
    split at hq
    · exact absurd rfl hq
    · have hdir := fs.parent hq
      have hqp : q ≠ p := fun hqp => h (hqp ▸ hdir)
      rw [if_neg hqp]
      exact hdir

/-- `rm` of a file. A directory is left alone, as it is without `-r`. -/
def rm (fs : Store ν) (p : List ν) : Store ν :=
  if h : fs.node p ≠ some .dir then fs.erase p h else fs

/-! ## Copying -/

/-- The paths at and below `p`, a directory before what stands in it. Their order is that in
which `cp -r` makes the copies. -/
def treeUnder (fs : Store ν) (p : List ν) : List (List ν) :=
  ((fs.support.filter fun q => decide (p <+: q ∧ fs.node q ≠ none)).dedup).mergeSort
    fun q r => decide (q.length ≤ r.length)

/-- One entry of a copy. A directory that is there already stays; an entry that cannot be made,
or that `allowed` refuses, is passed over, and the copy goes on with the next. -/
def copyEntry (allowed : List ν → Bool) (fs : Store ν) (n : Option Node) (p : List ν) : Store ν :=
  if allowed p then
    match n with
    | none => fs
    | some (.file bytes) => (fs.write p bytes).getD fs
    | some .dir => (fs.mkdir p).getD fs
  else fs

/-- Where a copy goes: into the destination when that is a directory, and otherwise to it. The
same command can mean either, which is what decides where a video ends up. -/
def cpTarget (fs : Store ν) (src dst : List ν) : List ν :=
  if fs.node dst = some .dir then dst ++ src.getLast?.toList else dst

/-- `cp -r -f`. Nothing is copied onto itself or into itself. -/
def cp (allowed : List ν → Bool) (fs : Store ν) (src dst : List ν) : Store ν :=
  if src <+: fs.cpTarget src dst then fs
  else
    (fs.treeUnder src).foldl
      (fun acc q => copyEntry allowed acc (fs.node q) (fs.cpTarget src dst ++ q.drop src.length)) fs

omit [DecidableEq ν] in
/-- Either way the copies are at or below the destination. -/
theorem prefix_cpTarget (fs : Store ν) (src dst : List ν) : dst <+: fs.cpTarget src dst := by
  unfold cpTarget
  split
  · exact List.prefix_append _ _
  · exact List.prefix_refl _

/-- An entry is made at its own path only. -/
theorem node_copyEntry_of_ne {allowed : List ν → Bool} {fs : Store ν} {n : Option Node}
    {p q : List ν} (h : q ≠ p) : (copyEntry allowed fs n p).node q = fs.node q := by
  unfold copyEntry
  split
  · split
    · rfl
    · exact node_write_of_ne h
    · exact node_mkdir_of_ne h
  · rfl

/-- **A copy changes nothing outside its destination.** The induction is on the entries
that are copied; each goes to a path below the target. -/
theorem node_cp_of_not_prefix {allowed : List ν → Bool} {fs : Store ν} {src dst q : List ν}
    (h : ¬ dst <+: q) : (fs.cp allowed src dst).node q = fs.node q := by
  have hfold : ∀ (ps : List (List ν)) (acc : Store ν),
      (ps.foldl (fun acc r => copyEntry allowed acc (fs.node r)
        (fs.cpTarget src dst ++ r.drop src.length)) acc).node q = acc.node q := by
    intro ps acc
    induction ps generalizing acc with
    | nil => rfl
    | cons r ps ih =>
        rw [List.foldl_cons, ih]
        refine node_copyEntry_of_ne fun hq => h ?_
        rw [hq]
        exact (fs.prefix_cpTarget src dst).trans (List.prefix_append _ _)
  unfold cp
  split
  · rfl
  · exact hfold _ _

/-! ## Renaming -/

/-- Nothing stands in the directory but itself. -/
def EmptyDir (fs : Store ν) (p : List ν) : Prop :=
  fs.node p = some .dir ∧ ∀ q ∈ fs.support, fs.node q ≠ none → p <+: q → q = p

instance (fs : Store ν) (p : List ν) : Decidable (fs.EmptyDir p) := by
  unfold EmptyDir
  infer_instance

/-- Whether `rename` moves what stands at `p` to `q`: not into itself, into a directory, a file
not over a directory, a directory only over an empty one. These are the conditions POSIX has for
it. -/
def CanRename (fs : Store ν) (p q : List ν) : Prop :=
  fs.node p ≠ none ∧ ¬ p <+: q ∧ ¬ q <+: p ∧ fs.node q.dropLast = some .dir ∧
    (fs.node q = none ∨ (fs.node p ≠ some .dir ∧ fs.node q ≠ some .dir) ∨
      (fs.node p = some .dir ∧ fs.EmptyDir q))

instance (fs : Store ν) (p q : List ν) : Decidable (fs.CanRename p q) := by
  unfold CanRename
  infer_instance

/-- The store with what stood at `p`, and below it, at `q`. A directory takes with it all that it
has. -/
def move (fs : Store ν) (p q : List ν) (h : fs.CanRename p q) : Store ν where
  node r :=
    if q <+: r then fs.node (p ++ r.drop q.length)
    else if p <+: r then none
    else fs.node r
  support := fs.support.map (fun r => q ++ r.drop p.length) ++ fs.support
  mem_support := by
    intro r hr
    rw [List.mem_append]
    by_cases hqr : q <+: r
    · rw [if_pos hqr] at hr
      refine Or.inl (List.mem_map.mpr ⟨_, fs.mem_support hr, ?_⟩)
      rw [List.drop_left, List.prefix_iff_eq_append.mp hqr]
    · rw [if_neg hqr] at hr
      split at hr
      · exact absurd rfl hr
      · exact Or.inr (fs.mem_support hr)
  root := by
    have hq : q ≠ [] := fun hq => h.2.2.1 (hq ▸ List.nil_prefix)
    have hp : p ≠ [] := fun hp => h.2.1 (hp ▸ List.nil_prefix)
    rw [if_neg (fun hpre => hq (List.prefix_nil.mp hpre)),
      if_neg (fun hpre => hp (List.prefix_nil.mp hpre))]
    exact fs.root
  parent := by
    intro r m hr
    by_cases hqr : q <+: r
    · -- below `q`, as below `p` before
      have hqrm : q <+: r ++ [m] := hqr.trans (List.prefix_append r [m])
      rw [if_pos hqrm, List.drop_append_of_le_length hqr.length_le, ← List.append_assoc] at hr
      rw [if_pos hqr]
      exact fs.parent hr
    · rw [if_neg hqr]
      by_cases hqrm : q <+: r ++ [m]
      · -- `q` itself, in the directory it is in
        have hqe : q = r ++ [m] := by
          rcases List.prefix_concat_iff.mp hqrm with heq | hpre
          · simpa using heq
          · exact absurd hpre hqr
        have hdir : fs.node r = some .dir := by
          have hdrop := h.2.2.2.1
          rwa [hqe, List.dropLast_concat] at hdrop
        have hpr : ¬ p <+: r := fun hpre => h.2.1 (hqe ▸ hpre.trans (List.prefix_append r [m]))
        rw [if_neg hpr]
        exact hdir
      · rw [if_neg hqrm] at hr
        by_cases hprm : p <+: r ++ [m]
        · rw [if_pos hprm] at hr
          exact absurd rfl hr
        · rw [if_neg hprm] at hr
          have hpr : ¬ p <+: r := fun hpre => hprm (hpre.trans (List.prefix_append r [m]))
          rw [if_neg hpr]
          exact fs.parent hr

/-- `rename`. A path renamed to itself is left alone, and that is a success. -/
def rename (fs : Store ν) (p q : List ν) : Option (Store ν) :=
  if p = q ∧ fs.node p ≠ none then some fs
  else if h : fs.CanRename p q then some (fs.move p q h)
  else none

/-- What stands where, after a move: at and below the new path what was below the old one, and
nothing below the old one. -/
theorem node_move (fs : Store ν) {p q : List ν} (h : fs.CanRename p q) (r : List ν) :
    (fs.move p q h).node r =
      if q <+: r then fs.node (p ++ r.drop q.length) else if p <+: r then none else fs.node r :=
  rfl

/-! ## Listing -/

/-- The names a directory lists, in the order of the support. -/
def listdir (fs : Store ν) (p : List ν) : List ν :=
  (fs.support.filterMap fun q =>
    if q.dropLast = p ∧ fs.node q ≠ none then q.getLast? else none).dedup

/-- The files at and below a path, in the order of the support. -/
def filesUnder (fs : Store ν) (p : List ν) : List (List ν) :=
  (fs.support.filter fun q => decide (p <+: q ∧ fs.node q ≠ none ∧ fs.node q ≠ some .dir)).dedup

/-- A name is listed exactly when something stands there. -/
theorem mem_listdir {fs : Store ν} {p : List ν} {n : ν} :
    n ∈ fs.listdir p ↔ fs.node (p ++ [n]) ≠ none := by
  rw [listdir, List.mem_dedup, List.mem_filterMap]
  constructor
  · rintro ⟨q, -, hq⟩
    split at hq
    · rename_i h
      obtain ⟨w, rfl⟩ := List.getLast?_eq_some_iff.mp hq
      rw [List.dropLast_concat] at h
      rw [← h.1]
      exact h.2
    · cases hq
  · intro h
    refine ⟨p ++ [n], fs.mem_support h, ?_⟩
    rw [if_pos ⟨List.dropLast_concat, h⟩, List.getLast?_concat]

/-- Every file at or below the path is found. -/
theorem mem_filesUnder {fs : Store ν} {p q : List ν} :
    q ∈ fs.filesUnder p ↔ p <+: q ∧ ∃ bytes, fs.node q = some (.file bytes) := by
  rw [filesUnder, List.mem_dedup, List.mem_filter, decide_eq_true_eq]
  constructor
  · rintro ⟨-, hpq, hne, hdir⟩
    refine ⟨hpq, ?_⟩
    rcases hq : fs.node q with _ | ⟨bytes | _⟩
    · exact absurd hq hne
    · exact ⟨bytes, rfl⟩
    · exact absurd hq hdir
  · rintro ⟨hpq, bytes, hq⟩
    have hne : fs.node q ≠ none := by
      rw [hq]
      simp
    exact ⟨fs.mem_support hne, hpq, hne, by rw [hq]; simp⟩

omit [DecidableEq ν] in
/-- Below a file, and below nothing, nothing stands. By induction on what the longer path has
more, from its end. -/
theorem node_eq_none_of_prefix {fs : Store ν} {p q : List ν} (hp : fs.node p ≠ some .dir)
    (hpq : p <+: q) (hne : q ≠ p) : fs.node q = none := by
  obtain ⟨w, rfl⟩ := hpq
  induction w using List.reverseRecOn with
  | nil => exact absurd (List.append_nil p) hne
  | append_singleton w n ih =>
      by_contra hnode
      rw [← List.append_assoc] at hnode
      have hdir := fs.parent hnode
      by_cases hw : w = []
      · rw [hw, List.append_nil] at hdir
        exact hp hdir
      · rw [ih (by simpa using hw)] at hdir
        cases hdir

/-- A directory cannot be moved into itself. -/
theorem rename_eq_none_of_prefix {fs : Store ν} {p q : List ν} (hpq : p <+: q) (hne : p ≠ q) :
    fs.rename p q = none := by
  have hcan : ¬ fs.CanRename p q := fun h => h.2.1 hpq
  rw [rename, if_neg (fun h => hne h.1), dif_neg hcan]

omit [DecidableEq ν] in
/-- Two names in one directory: neither path is below the other. -/
theorem not_prefix_sibling {p : List ν} {n m : ν} (h : n ≠ m) : ¬ p ++ [n] <+: p ++ [m] := by
  intro hpre
  have heq := hpre.eq_of_length (by simp)
  exact h (List.singleton_inj.mp (List.append_cancel_left heq))

/-- A name other than `m` is moved over `m` exactly when `rename` succeeds, so the outcome can be
read off the store. -/
theorem rename_sibling {fs : Store ν} {p : List ν} {n m : ν} (hnm : n ≠ m) :
    fs.rename (p ++ [n]) (p ++ [m]) =
      if h : fs.CanRename (p ++ [n]) (p ++ [m]) then some (fs.move _ _ h) else none := by
  have hne : p ++ [n] ≠ p ++ [m] := fun heq =>
    hnm (List.singleton_inj.mp (List.append_cancel_left heq))
  rw [rename, if_neg (fun h => hne h.1)]

omit [DecidableEq ν] in
/-- A file is moved over another name unless that is a directory. The other conditions hold of
two names in one directory. -/
theorem canRename_file_iff {fs : Store ν} {p : List ν} {n m : ν} (hnm : n ≠ m)
    {bytes : List UInt8} (hn : fs.node (p ++ [n]) = some (.file bytes)) :
    fs.CanRename (p ++ [n]) (p ++ [m]) ↔ fs.node (p ++ [m]) ≠ some .dir := by
  have hp : fs.node p = some .dir := fs.parent (by rw [hn]; simp)
  unfold CanRename
  rw [hn, List.dropLast_concat, hp]
  constructor
  · rintro ⟨-, -, -, -, h | h | h⟩
    · rw [h]
      simp
    · exact h.2
    · cases h.1
  · intro hm
    exact ⟨by simp, not_prefix_sibling hnm, not_prefix_sibling (Ne.symm hnm), rfl,
      Or.inr (Or.inl ⟨by simp, hm⟩)⟩

/-- **A file is moved** to another name of its directory, over what is no directory. -/
theorem rename_file {fs : Store ν} {p : List ν} {n m : ν} (hnm : n ≠ m) {bytes : List UInt8}
    (hn : fs.node (p ++ [n]) = some (.file bytes)) (hm : fs.node (p ++ [m]) ≠ some .dir) :
    ∃ fs', fs.rename (p ++ [n]) (p ++ [m]) = some fs' ∧
      fs'.node (p ++ [m]) = some (.file bytes) ∧ fs'.node (p ++ [n]) = none ∧
      ∀ q, q ≠ p ++ [n] → q ≠ p ++ [m] → fs'.node q = fs.node q := by
  have hcan := (canRename_file_iff hnm hn).mpr hm
  refine ⟨fs.move _ _ hcan, by rw [rename_sibling hnm, dif_pos hcan], ?_, ?_, ?_⟩
  · rw [node_move, if_pos (List.prefix_refl _), List.drop_length, List.append_nil, hn]
  · rw [node_move, if_neg (not_prefix_sibling hnm.symm), if_pos (List.prefix_refl _)]
  · intro q hqn hqm
    rw [node_move]
    split
    · -- below a name that is no directory nothing stands, before and after
      rename_i hpre
      rw [fs.node_eq_none_of_prefix hm hpre hqm,
        fs.node_eq_none_of_prefix (by rw [hn]; simp) (List.prefix_append _ _)]
      intro heq
      have hdrop := List.append_right_eq_self.mp heq
      rw [List.drop_eq_nil_iff] at hdrop
      exact hqm (hpre.eq_of_length_le hdrop).symm
    · split
      · rename_i hpre
        exact (fs.node_eq_none_of_prefix (by rw [hn]; simp) hpre hqn).symm
      · rfl

/-! ### What one operation sets

An operation on a single path leaves every other path as it was. -/

/-- `fs'` has `n` at `p`, and else what `fs` has. Most operations of a script are of this kind,
and two of them for one path are one. -/
def Sets (fs fs' : Store ν) (p : List ν) (n : Option Node) : Prop :=
  ∀ q, fs'.node q = if q = p then n else fs.node q

/-- What is at the path. -/
theorem Sets.self {fs fs' : Store ν} {p : List ν} {n : Option Node} (h : Sets fs fs' p n) :
    fs'.node p = n := by rw [h, if_pos rfl]

/-- What is anywhere else. -/
theorem Sets.of_ne {fs fs' : Store ν} {p q : List ν} {n : Option Node} (h : Sets fs fs' p n)
    (hq : q ≠ p) : fs'.node q = fs.node q := by rw [h, if_neg hq]

/-- Of two values for one path the second stays. -/
theorem Sets.trans {fs fs₁ fs₂ : Store ν} {p : List ν} {n m : Option Node} (h : Sets fs fs₁ p n)
    (h' : Sets fs₁ fs₂ p m) : Sets fs fs₂ p m := by
  intro q
  rw [h' q, h q]
  split
  · rfl
  · rfl

/-- An operation that fails sets what is there already. -/
theorem sets_refl {fs : Store ν} {p : List ν} : Sets fs fs p (fs.node p) := by
  intro q
  split
  · rename_i hq
    rw [hq]
  · rfl

/-- Making a directory sets one, where nothing stood. -/
theorem sets_mkdir {fs : Store ν} {p : List ν} (h : fs.CanWrite p) (hp : fs.node p = none) :
    Sets fs ((fs.mkdir p).getD fs) p (some .dir) := by
  rw [mkdir, dif_pos h, if_pos hp]
  exact fun _ => rfl

end Store

/-! ## Names and path texts -/

/-- A name a directory can list: not empty, without the separator, and neither of the two names
that stand for the directory itself and the one above it. -/
structure Name {α : Type*} (slash dot : α) where
  chars : List α
  ne_nil : chars ≠ []
  no_slash : slash ∉ chars
  not_dot : chars ≠ [dot]
  not_dotdot : chars ≠ [dot, dot]
  deriving DecidableEq

section Names

variable {α : Type*} {slash dot : α}

/-- A name is its characters. -/
@[ext] theorem Name.ext {n m : Name slash dot} (h : n.chars = m.chars) : n = m := by
  cases n
  cases m
  cases h
  rfl

/-- Whether a text is a name. -/
def IsName (slash dot : α) (s : List α) : Prop :=
  s ≠ [] ∧ slash ∉ s ∧ s ≠ [dot] ∧ s ≠ [dot, dot]

theorem Name.isName (n : Name slash dot) : IsName slash dot n.chars :=
  ⟨n.ne_nil, n.no_slash, n.not_dot, n.not_dotdot⟩

variable [DecidableEq α]

instance (s : List α) : Decidable (IsName slash dot s) := by
  unfold IsName
  infer_instance

def Name.ofText (s : List α) (h : IsName slash dot s) : Name slash dot :=
  ⟨s, h.1, h.2.1, h.2.2.1, h.2.2.2⟩

/-- Where the components of a path text lead, starting in the directory `p`. The last one need
not exist, as a command may be about to make it. -/
def walk (fs : Store (Name slash dot)) : List (Name slash dot) → List (List α) →
    Option (List (Name slash dot))
  | p, [] => some p
  | p, c :: cs =>
      if fs.node p ≠ some .dir then none
      else if c = [] ∨ c = [dot] then walk fs p cs
      else if c = [dot, dot] then walk fs p.dropLast cs
      else if h : IsName slash dot c then walk fs (p ++ [Name.ofText c h]) cs
      else none

/-- Where a path text leads in a process whose working directory is `cwd`. One that begins with
the separator leads from the root, whatever the directory is. -/
def resolve (fs : Store (Name slash dot)) (cwd : List (Name slash dot)) (s : List α) :
    Option (List (Name slash dot)) :=
  if s = [] then none
  else walk fs (if s.head? = some slash then [] else cwd) (s.splitOn slash)

/-- A name leads from a directory to its entry. -/
theorem walk_name {fs : Store (Name slash dot)} {p : List (Name slash dot)}
    (hp : fs.node p = some .dir) (n : Name slash dot) : walk fs p [n.chars] = some (p ++ [n]) := by
  have hdots : ¬ (n.chars = [] ∨ n.chars = [dot]) := not_or.mpr ⟨n.ne_nil, n.not_dot⟩
  rw [walk, if_neg (not_not_intro hp), if_neg hdots, if_neg n.not_dotdot, dif_pos n.isName, walk]
  rfl

/-- The first of several names leads to its entry, and the others go on from there. -/
theorem walk_cons_name {fs : Store (Name slash dot)} {p : List (Name slash dot)}
    (hp : fs.node p = some .dir) (n : Name slash dot) (cs : List (List α)) :
    walk fs p (n.chars :: cs) = walk fs (p ++ [n]) cs := by
  have hdots : ¬ (n.chars = [] ∨ n.chars = [dot]) := not_or.mpr ⟨n.ne_nil, n.not_dot⟩
  rw [walk, if_neg (not_not_intro hp), if_neg hdots, if_neg n.not_dotdot, dif_pos n.isName]
  rfl

/-- A name in a directory of the working directory, written with a separator between the two. -/
theorem resolve_child {fs : Store (Name slash dot)} {cwd : List (Name slash dot)}
    {d : Name slash dot} (hd : fs.node (cwd ++ [d]) = some .dir) (n : Name slash dot) :
    resolve fs cwd (d.chars ++ slash :: n.chars) = some (cwd ++ [d] ++ [n]) := by
  have hcwd : fs.node cwd = some .dir := fs.parent (by rw [hd]; simp)
  have hhead : (d.chars ++ slash :: n.chars).head? ≠ some slash := by
    intro h
    rw [List.head?_append_of_ne_nil _ d.ne_nil] at h
    exact d.no_slash (List.mem_of_head? h)
  rw [resolve, if_neg (List.append_ne_nil_of_left_ne_nil d.ne_nil _), if_neg hhead,
    List.splitOn_append_cons_self_of_not_mem d.no_slash, List.splitOn_eq_singleton n.no_slash,
    walk_cons_name hcwd, walk_name hd]

/-- A single name leads to itself, below the working directory. -/
theorem resolve_name {fs : Store (Name slash dot)} {cwd : List (Name slash dot)}
    (hcwd : fs.node cwd = some .dir) (n : Name slash dot) :
    resolve fs cwd n.chars = some (cwd ++ [n]) := by
  have hhead : n.chars.head? ≠ some slash := fun h => n.no_slash (List.mem_of_head? h)
  rw [resolve, if_neg n.ne_nil, if_neg hhead, List.splitOn_eq_singleton n.no_slash,
    walk_name hcwd]

/-- A text without separator leads to a name, to the directory itself, or to the one above it.
Titles are such texts, and the last two cases are the ones that surprise. -/
theorem resolve_of_no_slash {fs : Store (Name slash dot)} {cwd : List (Name slash dot)}
    (hcwd : fs.node cwd = some .dir) {s : List α} (hne : s ≠ []) (hs : slash ∉ s) :
    (∃ n : Name slash dot, n.chars = s ∧ resolve fs cwd s = some (cwd ++ [n])) ∨
      (s = [dot] ∧ resolve fs cwd s = some cwd) ∨
      (s = [dot, dot] ∧ resolve fs cwd s = some cwd.dropLast) := by
  have hhead : s.head? ≠ some slash := fun h => hs (List.mem_of_head? h)
  have hwalk : resolve fs cwd s = walk fs cwd [s] := by
    rw [resolve, if_neg hne, if_neg hhead, List.splitOn_eq_singleton hs]
  rw [hwalk, walk, if_neg (not_not_intro hcwd)]
  by_cases hdot : s = [dot]
  · exact Or.inr (Or.inl ⟨hdot, by rw [if_pos (Or.inr hdot)]; rfl⟩)
  · rw [if_neg (not_or.mpr ⟨hne, hdot⟩)]
    by_cases hdots : s = [dot, dot]
    · exact Or.inr (Or.inr ⟨hdots, by rw [if_pos hdots]; rfl⟩)
    · have hname : IsName slash dot s := ⟨hne, hs, hdot, hdots⟩
      refine Or.inl ⟨Name.ofText s hname, rfl, ?_⟩
      rw [if_neg hdots, dif_pos hname]
      rfl

end Names

end FileStore
