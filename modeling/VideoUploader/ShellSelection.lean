/-
A whole run of the image selector's port to the shell: `testimgsel.sh`, lines 25 to 75.

The port saves in `save_dir` itself, and offers in `fzf` what stands there, so that
nothing has to be arranged for a saved file to be offered. Where `save_dir` has no visible
name the pattern behind it stands for itself, and `image_files` has one element that is no
file: the pattern is what is offered, taking it moves nothing, and the branch for no images
is never taken.
-/
import VideoUploader.ShellSelector
import VideoUploader.ImageSelector

set_option autoImplicit false

namespace VideoUploader.ShellSelection

open FileStore Posix Utf8 ShellSelector
open DownloadLoop (Outcome)
open ImageSelector (Answer)

/-! ## Names

The names here are texts, as the page and the lines are. -/

abbrev FileName := Name '/' '.'

abbrev Files := Store FileName

/-- The directory `$save_dir`. -/
def saveDirName : FileName := Name.ofText save_dir (by decide)

def image_png : FileName :=
  Name.ofText ['i', 'm', 'a', 'g', 'e', '.', 'p', 'n', 'g'] (by decide)

theorem first_word_eq : first_word = DownloadLoop.first_word := by decide

/-- The names are those of the Python selector, which counts from 0. -/
theorem filename_succ (k : ℕ) : filename (k + 1) = DownloadLoop.filenameText k := by
  show first_word ++ _ = DownloadLoop.first_word ++ _
  rw [first_word_eq]
  rfl

/-- Text is a name where its bytes are one. -/
theorem isName_of_encode {s : List Char} (h : IsName (byte '/') (byte '.') (encode s)) :
    IsName '/' '.' s := by
  refine ⟨?_, ?_, ?_, ?_⟩
  · rintro rfl
    exact h.1 rfl
  · intro hmem
    exact h.2.1 ((byte_mem_encode_iff (by decide)).mpr hmem)
  · rintro rfl
    exact h.2.2.1 (by decide)
  · rintro rfl
    exact h.2.2.2 (by decide)

/-- The file of the `k`-th download, counted from 0. -/
def fileName (k : ℕ) : FileName :=
  Name.ofText (filename (k + 1)) (isName_of_encode
    (by rw [filename_succ]; exact DownloadLoop.isName_filenameText k))

theorem filename_eq (k : ℕ) : filename (k + 1) = (fileName k).chars := rfl

theorem fileName_injective : Function.Injective fileName := by
  intro j k h
  have hname : filename (j + 1) = filename (k + 1) := congrArg Name.chars h
  rw [filename_succ, filename_succ] at hname
  exact DownloadLoop.filenameText_injective hname

theorem filepath_eq (k : ℕ) :
    filepath (k + 1) = saveDirName.chars ++ '/' :: (fileName k).chars := rfl

/-! ## One run -/

/-- What a run meets: the working directory and whether a directory may be made in it, the
page, pathname expansion for the items of the loop, what becomes of the calls of `curl`, the
order in which names are listed, what `fzf --ansi` prints of a line, the answer in it, and
what `mv` does with a text that it takes for options. -/
structure Session where
  cwd : List FileName
  mkdirOk : Bool
  page : List Char
  glob : Glob
  reply : ℕ → List Char → Outcome
  collate : FileName → FileName → Bool
  prints : List Char → List Char
  answer : Answer (List Char)
  mvOptions : Files → Files

/-- The branch a run ends in. -/
inductive Branch where
  | noneFound
  | notSelected
  | selected
  deriving DecidableEq

structure RunEnd where
  files : Files
  said : List (List Char)
  branch : Branch

def completed : Outcome → Bool
  | .completes _ => true
  | _ => false

/-- `Failed to download $filename`. -/
def failedLine (i : ℕ) : List Char := "Failed to download ".toList ++ filename i

namespace Session

variable (S : Session)

/-- `mkdir -p "$save_dir"`. -/
def makeSaveDir (fs : Files) : Files :=
  if S.mkdirOk then (fs.mkdir (S.cwd ++ [saveDirName])).getD fs else fs

/-- Lines 49 to 53, with what is said. `curl` fails as well when it cannot open the
file. -/
def fetch (i : ℕ) (d : Download) (fs : Files) : Files × List (List Char) :=
  let o := S.reply i d.url
  match resolve fs S.cwd d.path with
  | none => (fs, [failedLine i])
  | some p =>
      (DownloadLoop.download fs p o,
        if completed o = true ∧ fs.CanWrite p then [] else [failedLine i])

/-- The calls of `curl` in the loop, from number `i` on. -/
def fetchAll : ℕ → List Download → Files → Files × List (List Char)
  | _, [], fs => (fs, [])
  | i, d :: ds, fs =>
      let x := S.fetch i d fs
      let y := fetchAll (i + 1) ds x.1
      (y.1, x.2 ++ y.2)

/-- Lines 29 to 59. -/
def fetched (fs : Files) : Files × List (List Char) :=
  S.fetchAll 1 (downloads S.glob S.page) (S.makeSaveDir fs)

/-- The names `"$save_dir"/*` matches. -/
def listed (fs : Files) : List FileName :=
  (fs.listdir (S.cwd ++ [saveDirName])).filter fun n => decide (n.chars.head? ≠ some '.')

/-- `"$save_dir"/*` as it is written. -/
def pattern : List Char := save_dir ++ ['/', '*']

/-- `image_files=("$save_dir"/*)`. A pattern without a match stands for itself. -/
def image_files (fs : Files) : List (List Char) :=
  if S.listed fs = [] then [pattern]
  else ((S.listed fs).mergeSort S.collate).map fun n => save_dir ++ '/' :: n.chars

/-- The lines `fzf` offers: what `printf '%s\n' "${image_files[@]}"` has written. -/
def offered (fs : Files) : List (List Char) :=
  textLines '\n' ((S.image_files fs).flatMap fun f => f ++ ['\n'])

/-- `selected_file=$(… | fzf …)`. -/
def selected_file : List Char :=
  match S.answer with
  | .cancelled => []
  | .taken line => commandSubst '\x00' '\n' (S.prints line ++ ['\n'])

/-- `"$save_dir/image.png"`. -/
def new_filepath : List Char := save_dir ++ '/' :: image_png.chars

/-- `mv src dst`: into `dst` when that is a directory. -/
def mv (src dst : List Char) (fs : Files) : Files :=
  if src.head? = some '-' then S.mvOptions fs
  else
    ((resolve fs S.cwd src).bind fun p => (resolve fs S.cwd dst).bind fun q =>
      if fs.node q = some .dir then p.getLast?.bind fun n => fs.rename p (q ++ [n])
      else fs.rename p q).getD fs

/-- Lines 62 to 75. Whether `mv` has failed is not looked at. -/
def select (fs : Files) (said : List (List Char)) : RunEnd :=
  if (S.image_files fs).headD [] ≠ [] then
    if S.selected_file ≠ [] then
      ⟨S.mv S.selected_file new_filepath fs,
        said ++ ["Renamed ".toList ++ S.selected_file ++ " to image.png".toList], .selected⟩
    else ⟨fs, said ++ ["No image selected.".toList], .notSelected⟩
  else ⟨fs, said ++ ["No images found in ".toList ++ save_dir], .noneFound⟩

/-- Lines 25 to 75. -/
def run (fs : Files) : RunEnd := S.select (S.fetched fs).1 (S.fetched fs).2

/-- The path of the file of the `k`-th download, counted from 0. -/
def path (k : ℕ) : List FileName := S.cwd ++ [saveDirName] ++ [fileName k]

end Session

theorem failedLine_injective {j k : ℕ} (h : failedLine (j + 1) = failedLine (k + 1)) : j = k := by
  have hname := List.append_cancel_left h
  rw [filename_eq, filename_eq] at hname
  exact fileName_injective (Name.ext hname)

theorem completed_iff {o : Outcome} : completed o = true ↔ ∃ body, o = .completes body := by
  cases o with
  | completes body => simp [completed]
  | _ => simp [completed]

namespace Session

variable {S : Session} {fs : Files}

theorem path_injective {j k : ℕ} (h : S.path j = S.path k) : j = k :=
  fileName_injective (List.singleton_inj.mp (List.append_cancel_left h))

theorem saveDir_ne_path (k : ℕ) : S.cwd ++ [saveDirName] ≠ S.path k := by
  intro heq
  have hlen := congrArg List.length heq
  simp [path] at hlen

/-! ## The loop -/

/-- One call of `curl`, with `save_dir` there. -/
theorem fetch_eq (hdir : fs.node (S.cwd ++ [saveDirName]) = some .dir) (k : ℕ) {d : Download}
    (hd : d.path = filepath (k + 1)) :
    S.fetch (k + 1) d fs = (DownloadLoop.download fs (S.path k) (S.reply (k + 1) d.url),
      if completed (S.reply (k + 1) d.url) = true ∧ fs.CanWrite (S.path k) then []
      else [failedLine (k + 1)]) := by
  have hres : resolve fs S.cwd d.path = some (S.path k) := by
    rw [hd, filepath_eq, resolve_child hdir]
    rfl
  rw [fetch, hres]

/-- What the loop leaves: each file what its own call leaves there, everything else as it
was. The induction is on the calls; `save_dir` stays a directory throughout. -/
theorem node_fetchAll {ds : List Download} {k : ℕ} (hdir : fs.node (S.cwd ++ [saveDirName]) = some .dir)
    (hds : ∀ j d, ds[j]? = some d → d.path = filepath (k + j + 1)) :
    (∀ j d, ds[j]? = some d → (S.fetchAll (k + 1) ds fs).1.node (S.path (k + j)) =
      (DownloadLoop.download fs (S.path (k + j)) (S.reply (k + j + 1) d.url)).node
        (S.path (k + j))) ∧
    ∀ q, (∀ j d, ds[j]? = some d → q ≠ S.path (k + j)) →
      (S.fetchAll (k + 1) ds fs).1.node q = fs.node q := by
  induction ds generalizing k fs with
  | nil => exact ⟨fun j d hj => by simp at hj, fun q _ => rfl⟩
  | cons d ds ih =>
      have hstep := @fetch_eq S fs hdir k d (hds 0 d rfl)
      have hdir' : (DownloadLoop.download fs (S.path k) (S.reply (k + 1) d.url)).node
          (S.cwd ++ [saveDirName]) = some .dir :=
        DownloadLoop.node_download_eq_dir_iff.mpr hdir
      have hshift : ∀ j, k + 1 + j = k + (j + 1) := fun j => by omega
      obtain ⟨hself, hother⟩ := @ih (DownloadLoop.download fs (S.path k) (S.reply (k + 1) d.url))
        (k + 1) hdir' (fun j d' hj => by rw [hshift j]; exact hds (j + 1) d' hj)
      rw [fetchAll, hstep]
      constructor
      · intro j d' hj
        cases j with
        | zero =>
            cases hj
            apply hother
            intro j _ _ heq
            have := path_injective heq
            omega
        | succ j =>
            have hne : S.path (k + (j + 1)) ≠ S.path k := fun heq => by
              have := path_injective heq
              omega
            have hrest := hself j d' hj
            rw [hshift j] at hrest
            exact hrest.trans (DownloadLoop.node_download_download hne _)
      · intro q hq
        refine (hother q fun j d' hj => ?_).trans
          (DownloadLoop.node_download_of_ne (hq 0 d rfl))
        rw [hshift j]
        exact hq (j + 1) d' hj

/-- What the loop says: a failure for exactly the calls that have not saved a complete
file. -/
theorem mem_said_fetchAll {ds : List Download} {k : ℕ}
    (hdir : fs.node (S.cwd ++ [saveDirName]) = some .dir)
    (hds : ∀ j d, ds[j]? = some d → d.path = filepath (k + j + 1)) {line : List Char} :
    line ∈ (S.fetchAll (k + 1) ds fs).2 ↔ ∃ j d, ds[j]? = some d ∧
      ¬ (completed (S.reply (k + j + 1) d.url) = true ∧ fs.CanWrite (S.path (k + j))) ∧
      line = failedLine (k + j + 1) := by
  induction ds generalizing k fs with
  | nil => simp [fetchAll]
  | cons d ds ih =>
      have hstep := @fetch_eq S fs hdir k d (hds 0 d rfl)
      have hdir' : (DownloadLoop.download fs (S.path k) (S.reply (k + 1) d.url)).node
          (S.cwd ++ [saveDirName]) = some .dir :=
        DownloadLoop.node_download_eq_dir_iff.mpr hdir
      have hshift : ∀ j, k + 1 + j = k + (j + 1) := fun j => by omega
      have hrest := @ih (DownloadLoop.download fs (S.path k) (S.reply (k + 1) d.url))
        (k + 1) hdir' (fun j d' hj => by rw [hshift j]; exact hds (j + 1) d' hj)
      simp only [hshift, DownloadLoop.canWrite_download] at hrest
      rw [fetchAll, hstep]
      show line ∈ _ ++ _ ↔ _
      rw [List.mem_append, hrest]
      constructor
      · rintro (h | ⟨j, d', hj, h⟩)
        · refine ⟨0, d, rfl, ?_⟩
          split at h
          · cases h
          · rename_i hfail
            exact ⟨hfail, List.mem_singleton.mp h⟩
        · exact ⟨j + 1, d', hj, h⟩
      · rintro ⟨j, d', hj, hfail, hline⟩
        cases j with
        | zero =>
            cases hj
            simp only [Nat.add_zero] at hfail
            exact Or.inl (by rw [if_neg hfail, hline]; exact List.mem_singleton_self _)
        | succ j => exact Or.inr ⟨j, d', hj, hfail, hline⟩

/-! ## The selection -/

/-- A name `"$save_dir"/*` matches. -/
def Visible (S : Session) (fs : Files) (n : FileName) : Prop :=
  fs.node (S.cwd ++ [saveDirName] ++ [n]) ≠ none ∧ n.chars.head? ≠ some '.'

theorem mem_listed {n : FileName} : n ∈ S.listed fs ↔ S.Visible fs n := by
  rw [listed, List.mem_filter, Store.mem_listdir, decide_eq_true_eq]
  rfl

theorem mem_image_files {n : FileName} (h : S.Visible fs n) {f : List Char} :
    f ∈ S.image_files fs ↔ ∃ m, S.Visible fs m ∧ f = save_dir ++ '/' :: m.chars := by
  have hne : S.listed fs ≠ [] := List.ne_nil_of_mem (mem_listed.mpr h)
  rw [image_files, if_neg hne, List.mem_map]
  constructor
  · rintro ⟨m, hm, rfl⟩
    exact ⟨m, mem_listed.mp (List.mem_mergeSort.mp hm), rfl⟩
  · rintro ⟨m, hm, rfl⟩
    exact ⟨m, List.mem_mergeSort.mpr (mem_listed.mpr hm), rfl⟩

/-- The first of the `image_files` is never empty. -/
theorem image_files_headD_ne_nil : (S.image_files fs).headD [] ≠ [] := by
  rw [image_files]
  split
  · simp [pattern]
  · rename_i hne
    have hsorted : (S.listed fs).mergeSort S.collate ≠ [] := by
      rw [← List.length_pos_iff, List.length_mergeSort, List.length_pos_iff]
      exact hne
    obtain ⟨n, ns, hns⟩ := List.exists_cons_of_ne_nil hsorted
    rw [hns]
    simp [save_dir]

/-- A visible name of one line is offered, whatever other names there are. -/
theorem mem_offered {n : FileName} (h : S.Visible fs n) (hn : '\n' ∉ n.chars) :
    save_dir ++ '/' :: n.chars ∈ S.offered fs := by
  rw [offered, textLines_flatMap_line, List.mem_flatMap]
  refine ⟨_, (mem_image_files h).mpr ⟨n, h, rfl⟩, ?_⟩
  rw [List.splitOn_eq_singleton]
  · exact List.mem_singleton_self _
  · simp [save_dir, hn]

/-- Names of one line each are what is offered, and all that is. -/
theorem mem_offered_iff {n : FileName} (h : S.Visible fs n)
    (hlines : ∀ m, S.Visible fs m → '\n' ∉ m.chars) {line : List Char} :
    line ∈ S.offered fs ↔ ∃ m, S.Visible fs m ∧ line = save_dir ++ '/' :: m.chars := by
  constructor
  · intro hline
    rw [offered, textLines_flatMap_line, List.mem_flatMap] at hline
    obtain ⟨f, hf, hline⟩ := hline
    obtain ⟨m, hm, rfl⟩ := (mem_image_files h).mp hf
    rw [List.splitOn_eq_singleton (by simp [save_dir, hlines m hm]), List.mem_singleton] at hline
    exact ⟨m, hm, hline⟩
  · rintro ⟨m, hm, rfl⟩
    exact mem_offered hm (hlines m hm)

/-- Without a visible name the pattern is offered, and nothing else. -/
theorem offered_of_not_visible (h : ∀ n, ¬ S.Visible fs n) : S.offered fs = [pattern] := by
  have hnone : S.listed fs = [] :=
    List.eq_nil_iff_forall_not_mem.mpr fun n hn => h n (mem_listed.mp hn)
  rw [offered, image_files, if_pos hnone, textLines_flatMap_line]
  decide

/-- The line that is taken reaches the shell as it is printed. -/
theorem selected_file_eq {line : List Char} (h : S.answer = .taken line)
    (hnl : '\n' ∉ S.prints line) (hnul : '\x00' ∉ S.prints line) :
    S.selected_file = S.prints line := by
  rw [selected_file, h]
  show commandSubst _ _ (S.prints line ++ ['\n']) = S.prints line
  rw [commandSubst_append_newline (by decide), commandSubst_of_not_mem hnl, List.filter_eq_self]
  intro c hc
  rw [decide_eq_true_eq]
  exact fun hc0 => hnul (hc0 ▸ hc)

theorem new_filepath_eq : new_filepath = saveDirName.chars ++ '/' :: image_png.chars := rfl

/-- `mv` of a file in `save_dir`. -/
theorem mv_child {n : FileName} (hdir : fs.node (S.cwd ++ [saveDirName]) = some .dir)
    (himg : fs.node (S.cwd ++ [saveDirName] ++ [image_png]) ≠ some .dir) :
    S.mv (save_dir ++ '/' :: n.chars) new_filepath fs =
      (fs.rename (S.cwd ++ [saveDirName] ++ [n])
        (S.cwd ++ [saveDirName] ++ [image_png])).getD fs := by
  have hhead : (save_dir ++ '/' :: n.chars).head? ≠ some '-' := by simp [save_dir]
  have hsrc : resolve fs S.cwd (save_dir ++ '/' :: n.chars) =
      some (S.cwd ++ [saveDirName] ++ [n]) := resolve_child hdir n
  rw [mv, if_neg hhead, hsrc, new_filepath_eq, resolve_child hdir, Option.bind_some,
    Option.bind_some, if_neg himg]

/-- `mv` of the pattern, where it stands for itself, moves nothing. -/
theorem mv_pattern (hdir : fs.node (S.cwd ++ [saveDirName]) = some .dir)
    (h : ∀ n, ¬ S.Visible fs n) : S.mv pattern new_filepath fs = fs := by
  let star : FileName := Name.ofText ['*'] (by decide)
  have habsent : ∀ n : FileName, n.chars.head? ≠ some '.' →
      fs.node (S.cwd ++ [saveDirName] ++ [n]) = none := by
    intro n hn
    by_contra hnode
    exact h n ⟨hnode, hn⟩
  have himg := habsent image_png (by decide)
  have hstar := habsent star (by decide)
  have hmv := @mv_child S fs star hdir (by rw [himg]; simp)
  have hne : S.cwd ++ [saveDirName] ++ [star] ≠ S.cwd ++ [saveDirName] ++ [image_png] := fun heq =>
    absurd (List.singleton_inj.mp (List.append_cancel_left heq)) (by decide)
  have hrename : fs.rename (S.cwd ++ [saveDirName] ++ [star])
      (S.cwd ++ [saveDirName] ++ [image_png]) = none := by
    rw [Store.rename, if_neg (fun heq => hne heq.1), dif_neg (fun hcan => hcan.1 hstar)]
  rw [hrename, Option.getD_none] at hmv
  exact hmv

/-! ## Every run -/

variable (S fs)

/-- What a run from the files `fs` does: files saved completely are offered, calls that
have not saved one are reported, nothing else is touched; what is offered are the names in
`save_dir`, and without any the pattern; the one that is taken, if it is printed as it
stands, is moved to `image.png`, unless that is a directory; and with none taken, or the
pattern, nothing changes. -/
structure Selects : Prop where
  saved : ∀ k d body, (downloads S.glob S.page)[k]? = some d →
    S.reply (k + 1) d.url = .completes body → fs.node (S.path k) ≠ some .dir →
    (S.fetched fs).1.node (S.path k) = some (.file body) ∧
      filepath (k + 1) ∈ S.offered (S.fetched fs).1
  reported : ∀ k d, (downloads S.glob S.page)[k]? = some d →
    (failedLine (k + 1) ∈ (S.fetched fs).2 ↔ ¬ ∃ body, S.reply (k + 1) d.url = .completes body ∧
      (S.fetched fs).1.node (S.path k) = some (.file body))
  kept : ∀ q, q ≠ S.cwd ++ [saveDirName] →
    (∀ k d, (downloads S.glob S.page)[k]? = some d → q ≠ S.path k) →
    (S.fetched fs).1.node q = fs.node q
  offers : ∀ n, S.Visible (S.fetched fs).1 n →
    (∀ m, S.Visible (S.fetched fs).1 m → '\n' ∉ m.chars) → ∀ line,
    (line ∈ S.offered (S.fetched fs).1 ↔
      ∃ m, S.Visible (S.fetched fs).1 m ∧ line = save_dir ++ '/' :: m.chars)
  offers_pattern : (∀ n, ¬ S.Visible (S.fetched fs).1 n) →
    S.offered (S.fetched fs).1 = [pattern] ∧
      (S.answer = .taken pattern → S.prints pattern = pattern →
        (S.run fs).files = (S.fetched fs).1)
  moves : ∀ n bytes, S.answer = .taken (save_dir ++ '/' :: n.chars) →
    S.prints (save_dir ++ '/' :: n.chars) = save_dir ++ '/' :: n.chars → n ≠ image_png →
    '\n' ∉ n.chars → '\x00' ∉ n.chars →
    (S.fetched fs).1.node (S.cwd ++ [saveDirName] ++ [n]) = some (.file bytes) →
    (S.fetched fs).1.node (S.cwd ++ [saveDirName] ++ [image_png]) ≠ some .dir →
    (S.run fs).files.node (S.cwd ++ [saveDirName] ++ [image_png]) = some (.file bytes) ∧
      (S.run fs).files.node (S.cwd ++ [saveDirName] ++ [n]) = none ∧
      ∀ q, q ≠ S.cwd ++ [saveDirName] ++ [n] → q ≠ S.cwd ++ [saveDirName] ++ [image_png] →
        (S.run fs).files.node q = (S.fetched fs).1.node q
  unselected : (S.answer = .cancelled ∨ ∃ line, S.answer = .taken line ∧ S.prints line = []) →
    (S.run fs).files = (S.fetched fs).1 ∧ (S.run fs).branch = .notSelected
  never_noneFound : (S.run fs).branch ≠ .noneFound

variable {S fs}

/-- `mkdir -p` leaves a directory, and nothing else is changed. -/
theorem sets_makeSaveDir (hcwd : fs.node S.cwd = some .dir)
    (hdir : (fs.node (S.cwd ++ [saveDirName]) = none ∧ S.mkdirOk = true) ∨
      fs.node (S.cwd ++ [saveDirName]) = some .dir) :
    fs.Sets (S.makeSaveDir fs) (S.cwd ++ [saveDirName]) (some .dir) := by
  rw [makeSaveDir]
  rcases hdir with ⟨hnone, hok⟩ | hdir
  · rw [if_pos hok]
    exact Store.sets_mkdir ⟨by simp, by rw [List.dropLast_concat, hcwd], by rw [hnone]; simp⟩ hnone
  · have hno : ¬ fs.CanWrite (S.cwd ++ [saveDirName]) := fun h => h.2.2 hdir
    rw [Store.mkdir, dif_neg hno, Option.getD_none, ite_self, ← hdir]
    exact Store.sets_refl

/-- Each call of the loop is made for the file of its number. -/
theorem path_of_mem_downloads {j : ℕ} {d : Download}
    (h : (downloads S.glob S.page)[j]? = some d) : d.path = filepath (0 + j + 1) := by
  rw [downloads_eq, List.getElem?_mapIdx, Option.map_eq_some_iff] at h
  obtain ⟨img, -, rfl⟩ := h
  rw [Nat.zero_add]
  rfl

/-- The selection, once a text has been taken. -/
theorem run_of_selected (h : S.selected_file ≠ []) :
    (S.run fs).files = S.mv S.selected_file new_filepath (S.fetched fs).1 ∧
      (S.run fs).branch = .selected := by
  rw [run, select, if_pos image_files_headD_ne_nil, if_pos h]
  dsimp only
  exact ⟨rfl, rfl⟩

theorem run_of_not_selected (h : S.selected_file = []) :
    (S.run fs).files = (S.fetched fs).1 ∧ (S.run fs).branch = .notSelected := by
  rw [run, select, if_pos image_files_headD_ne_nil, if_neg (not_not_intro h)]
  dsimp only
  exact ⟨rfl, rfl⟩

/-- A file can be written where no directory is. -/
theorem canWrite_path (hmake : fs.Sets (S.makeSaveDir fs) (S.cwd ++ [saveDirName]) (some .dir))
    (k : ℕ) : (S.makeSaveDir fs).CanWrite (S.path k) ↔ fs.node (S.path k) ≠ some .dir := by
  rw [← hmake.of_ne (saveDir_ne_path k).symm, Store.CanWrite, path, List.dropLast_concat,
    hmake.self]
  simp

/-- The loop starts with the number of the first file. -/
theorem fetched_eq : S.fetched fs =
    S.fetchAll (0 + 1) (downloads S.glob S.page) (S.makeSaveDir fs) := rfl

/-- What a run leaves where it makes no call. -/
theorem node_fetched_of_ne
    (hmake : fs.Sets (S.makeSaveDir fs) (S.cwd ++ [saveDirName]) (some .dir))
    {q : List FileName} (hq : ∀ k d, (downloads S.glob S.page)[k]? = some d → q ≠ S.path k) :
    (S.fetched fs).1.node q = (S.makeSaveDir fs).node q := by
  rw [fetched_eq]
  apply (node_fetchAll hmake.self fun j d hj => path_of_mem_downloads hj).2
  intro j d hj
  rw [Nat.zero_add]
  exact hq j d hj

theorem saveDir_fetched
    (hmake : fs.Sets (S.makeSaveDir fs) (S.cwd ++ [saveDirName]) (some .dir)) :
    (S.fetched fs).1.node (S.cwd ++ [saveDirName]) = some .dir :=
  (node_fetched_of_ne hmake fun k _ _ => saveDir_ne_path k).trans hmake.self

/-- What a call leaves in its file. -/
theorem node_fetched (hmake : fs.Sets (S.makeSaveDir fs) (S.cwd ++ [saveDirName]) (some .dir))
    {k : ℕ} {d : Download} (hk : (downloads S.glob S.page)[k]? = some d) :
    (S.fetched fs).1.node (S.path k) =
      (DownloadLoop.download (S.makeSaveDir fs) (S.path k) (S.reply (k + 1) d.url)).node
        (S.path k) := by
  have hself := (@node_fetchAll S _ (downloads S.glob S.page) 0 hmake.self
    fun j d hj => path_of_mem_downloads hj).1 k d hk
  rw [fetched_eq]
  rwa [Nat.zero_add k] at hself

theorem node_fetched_of_completes
    (hmake : fs.Sets (S.makeSaveDir fs) (S.cwd ++ [saveDirName]) (some .dir))
    {k : ℕ} {d : Download} (hk : (downloads S.glob S.page)[k]? = some d) {body : List UInt8}
    (hbody : S.reply (k + 1) d.url = .completes body) (hnot : fs.node (S.path k) ≠ some .dir) :
    (S.fetched fs).1.node (S.path k) = some (.file body) := by
  rw [node_fetched hmake hk, DownloadLoop.node_download_self, hbody]
  exact if_pos ((canWrite_path hmake k).mpr hnot)

/-- A file that has been saved has a visible name of one line. -/
theorem visible_filename {k : ℕ} {n : Node} (h : fs.node (S.path k) = some n) :
    S.Visible fs (fileName k) := by
  constructor
  · show fs.node (S.path k) ≠ none
    rw [h]
    simp
  · rw [← filename_eq, filename, first_word_eq, DownloadLoop.first_word_eq]
    simp

theorem newline_not_mem_filename (k : ℕ) : '\n' ∉ (fileName k).chars := by
  intro h
  rw [← filename_eq, filename, List.mem_append, List.mem_cons, List.mem_append, first_word_eq,
    DownloadLoop.first_word_eq] at h
  rcases h with h | h | h | h
  · exact absurd h (by decide)
  · exact absurd h (by decide)
  · exact absurd (Nat.isDigit_of_mem_toDigits (by decide) (by decide) h) (by decide)
  · exact absurd h (by decide)

/-- A failure is said of a call exactly when its file does not hold a complete body. -/
theorem mem_said_fetched (hmake : fs.Sets (S.makeSaveDir fs) (S.cwd ++ [saveDirName]) (some .dir))
    {k : ℕ} {d : Download} (hk : (downloads S.glob S.page)[k]? = some d) :
    failedLine (k + 1) ∈ (S.fetched fs).2 ↔ ¬ ∃ body, S.reply (k + 1) d.url = .completes body ∧
      (S.fetched fs).1.node (S.path k) = some (.file body) := by
  have hsaved : (completed (S.reply (k + 1) d.url) = true ∧
      (S.makeSaveDir fs).CanWrite (S.path k)) ↔ ∃ body, S.reply (k + 1) d.url = .completes body ∧
        (S.fetched fs).1.node (S.path k) = some (.file body) := by
    rw [completed_iff, canWrite_path hmake]
    constructor
    · rintro ⟨⟨body, hbody⟩, hnot⟩
      exact ⟨body, hbody, node_fetched_of_completes hmake hk hbody hnot⟩
    · rintro ⟨body, hbody, hnode⟩
      refine ⟨⟨body, hbody⟩, fun hdir => ?_⟩
      -- a directory stays one
      rw [node_fetched hmake hk, DownloadLoop.node_download_eq_dir_iff.mpr] at hnode
      · cases hnode
      · rw [hmake.of_ne (saveDir_ne_path k).symm, hdir]
  have hsaid := @mem_said_fetchAll S _ (downloads S.glob S.page) 0 hmake.self
    (fun j d hj => path_of_mem_downloads hj) (failedLine (k + 1))
  simp only [Nat.zero_add] at hsaid
  rw [← not_congr hsaved, fetched, hsaid]
  refine ⟨?_, fun hfail => ⟨k, d, hk, hfail, rfl⟩⟩
  rintro ⟨j, d', hj, hfail, hline⟩
  obtain rfl := failedLine_injective hline
  rw [hk] at hj
  cases hj
  exact hfail

/-- The file that is taken is moved. -/
theorem moves_selected (hdir : (S.fetched fs).1.node (S.cwd ++ [saveDirName]) = some .dir)
    {n : FileName} {bytes : List UInt8} (hanswer : S.answer = .taken (save_dir ++ '/' :: n.chars))
    (hprints : S.prints (save_dir ++ '/' :: n.chars) = save_dir ++ '/' :: n.chars)
    (hne : n ≠ image_png) (hnl : '\n' ∉ n.chars) (hnul : '\x00' ∉ n.chars)
    (hbytes : (S.fetched fs).1.node (S.cwd ++ [saveDirName] ++ [n]) = some (.file bytes))
    (himg : (S.fetched fs).1.node (S.cwd ++ [saveDirName] ++ [image_png]) ≠ some .dir) :
    (S.run fs).files.node (S.cwd ++ [saveDirName] ++ [image_png]) = some (.file bytes) ∧
      (S.run fs).files.node (S.cwd ++ [saveDirName] ++ [n]) = none ∧
      ∀ q, q ≠ S.cwd ++ [saveDirName] ++ [n] → q ≠ S.cwd ++ [saveDirName] ++ [image_png] →
        (S.run fs).files.node q = (S.fetched fs).1.node q := by
  have hsel : S.selected_file = save_dir ++ '/' :: n.chars := by
    rw [selected_file_eq hanswer (by rw [hprints]; simp [save_dir, hnl])
      (by rw [hprints]; simp [save_dir, hnul]), hprints]
  obtain ⟨fs', hren, hself, hgone, hrest⟩ := Store.rename_file hne hbytes himg
  have hfiles := (@run_of_selected S fs (by rw [hsel]; simp)).1
  rw [hsel, mv_child hdir himg, hren, Option.getD_some] at hfiles
  rw [hfiles]
  exact ⟨hself, hgone, hrest⟩

/-- **A run of the shell selector**, wherever `save_dir` is a directory or can be made
one. -/
theorem selects (S : Session) (fs : Files) (hcwd : fs.node S.cwd = some .dir)
    (hdir : (fs.node (S.cwd ++ [saveDirName]) = none ∧ S.mkdirOk = true) ∨
      fs.node (S.cwd ++ [saveDirName]) = some .dir) : S.Selects fs where
  saved := by
    intro k d body hk hbody hnot
    have hsaved := node_fetched_of_completes (sets_makeSaveDir hcwd hdir) hk hbody hnot
    refine ⟨hsaved, ?_⟩
    rw [filepath_eq]
    exact mem_offered (visible_filename hsaved) (newline_not_mem_filename k)
  reported := fun k d hk => mem_said_fetched (sets_makeSaveDir hcwd hdir) hk
  kept := by
    intro q hq hpaths
    have hmake := sets_makeSaveDir hcwd hdir
    exact (node_fetched_of_ne hmake hpaths).trans (hmake.of_ne hq)
  offers := fun n hn hlines line => mem_offered_iff hn hlines
  offers_pattern := by
    intro hnone
    refine ⟨offered_of_not_visible hnone, fun hanswer hprints => ?_⟩
    have hsel : S.selected_file = pattern := by
      rw [selected_file_eq hanswer (by rw [hprints]; decide) (by rw [hprints]; decide), hprints]
    rw [(run_of_selected (by rw [hsel]; decide)).1, hsel]
    exact mv_pattern (saveDir_fetched (sets_makeSaveDir hcwd hdir)) hnone
  moves := fun n bytes hanswer hprints hne hnl hnul hbytes himg =>
    moves_selected (saveDir_fetched (sets_makeSaveDir hcwd hdir)) hanswer hprints hne hnl hnul
      hbytes himg
  unselected := by
    rintro (h | ⟨line, h, hline⟩)
    · exact run_of_not_selected (by rw [selected_file, h])
    · exact run_of_not_selected ((selected_file_eq h (by rw [hline]; exact List.not_mem_nil)
        (by rw [hline]; exact List.not_mem_nil)).trans hline)
  never_noneFound := by
    by_cases hsel : S.selected_file = []
    · rw [(run_of_not_selected hsel).2]
      decide
    · rw [(run_of_selected hsel).2]
      decide

end Session

/-- A page with one image; it is saved and taken. -/
def oneSession : Session where
  cwd := []
  mkdirOk := true
  page := onePage
  glob := noMatch
  reply := fun _ _ => .completes [0x89]
  collate := fun n m => decide (n.chars.length ≤ m.chars.length)
  prints := id
  answer := .taken (filepath 1)
  mvOptions := id

theorem selects_oneSession : oneSession.Selects Store.empty :=
  Session.selects oneSession Store.empty rfl (Or.inl ⟨rfl, rfl⟩)

end VideoUploader.ShellSelection
