/-
The image selector as a whole: `addcoverimg.py`, lines 22 to 67 (the same lines stand
in `video-uploader.sh`).

The images are saved in the working directory. `image_files` are the names listed in
`save_dir` that happen to be files in the working directory as well, and nothing reads
them. `fzf` is started without input, so it offers every file below the working
directory, or, when the standard input is no terminal, whatever lines are left on
it. The line that is taken then goes through three hands before it is a name again:
`--ansi` takes escape sequences out of it, `check_output` makes newlines of all line
endings, and `strip` takes the white space off its ends. The file of the name that is
left is moved over `image.png`. So the four steps speak of the same files only when the
two directories have been arranged for it, and the name survives all three.
-/
import VideoUploader.DownloadLoop
import VideoUploader.Newlines

set_option autoImplicit false

namespace VideoUploader.ImageSelector

open Bash (Bytes)
open FileStore Posix Utf8 Newlines Url ImageUrl DownloadLoop

/-! ## Names -/

/-- The directory that is made and listed. Nothing is saved in it. -/
def save_dir : FileName := Name.ofText (encode ['i', 'm', 'a', 'g', 'e', 's']) (by decide)

/-- `new_filepath`, a name in the working directory. -/
def image_png : FileName :=
  Name.ofText (encode ['i', 'm', 'a', 'g', 'e', '.', 'p', 'n', 'g']) (by decide)

/-- The white space `str.strip` removes, by its code points. -/
def isPySpace (c : Char) : Bool :=
  let n := c.toNat
  decide ((0x09 ≤ n ∧ n ≤ 0x0d) ∨ (0x1c ≤ n ∧ n ≤ 0x20) ∨ n = 0x85 ∨ n = 0xa0 ∨ n = 0x1680 ∨
    (0x2000 ≤ n ∧ n ≤ 0x200a) ∨ n = 0x2028 ∨ n = 0x2029 ∨ n = 0x202f ∨ n = 0x205f ∨ n = 0x3000)

/-- `str.strip`, which looks at the two ends only. -/
def strip (s : List Char) : List Char := (s.dropWhile isPySpace).rdropWhile isPySpace

/-- A path below the working directory as `fzf` lists it. Names in subdirectories have separators
in them, so they are no names any more. -/
def joinPath (p : List FileName) : Bytes := [byte '/'].intercalate (p.map Name.chars)

/-! ## One run -/

/-- What the user does in `fzf`: leave it, or take a line. Taking an empty line is a normal end
with nothing printed. -/
inductive Answer (Line : Type) where
  | cancelled
  | taken (line : Line)

/-- What `fzf --ansi` prints of a line that is taken: the line without the escape sequences of a
terminal, and with a replacement for bytes that are no text. No separator of paths is ever among
what is put in, and nothing else is assumed. -/
structure Fzf where
  prints : Bytes → Bytes
  no_slash : ∀ line, byte '/' ∈ prints line → byte '/' ∈ line

/-- What a run meets: the checks on hosts, what becomes of the requests, the working
directory and whether a directory may be made in it, the page's elements, the lines left on
the standard input if that is no terminal, how `fzf` prints a line, and the answer. -/
structure Session where
  hostOk : List Char → Bool
  reply : ℕ → List Char → Outcome
  cwd : List FileName
  mkdirOk : Bool
  image_links : List DivTag
  stdin : Option (List Bytes)
  fzf : Fzf
  answer : Answer Bytes

/-- How a run ends: with an exception, in the branch `No image selected.`, or in the
one that renames. -/
inductive RunEnd where
  | raised (fs : Files)
  | noImage (fs : Files)
  | renamed (fs : Files)

/-- The files a run leaves, however it ends. -/
def RunEnd.files : RunEnd → Files
  | .raised fs => fs
  | .noImage fs => fs
  | .renamed fs => fs

namespace Session

variable (S : Session)

/-- Lines 26 and 27, or `none` where an exception is raised. A file of the name is taken for the
directory, and found out later. -/
def makeSaveDir (fs : Files) : Option Files :=
  if fs.node (S.cwd ++ [save_dir]) ≠ none then some fs
  else if S.mkdirOk then fs.mkdir (S.cwd ++ [save_dir])
  else none

/-- Lines 33 to 52, started from the files that `save_dir` has been made in. -/
def downloads (fs : Files) : LoopEnd := download_images S.hostOk S.reply S.cwd S.image_links fs

/-- Lines 55 to 57: what `save_dir` lists, as far as the working directory has a file of the
name. Python sorts by characters, which for UTF-8 is the order of the bytes. -/
def image_files (fs : Files) : Option (List FileName) :=
  if fs.node (S.cwd ++ [save_dir]) = some .dir then
    let listed := (fs.listdir (S.cwd ++ [save_dir])).filter fun f =>
      match fs.node (S.cwd ++ [f]) with
      | some (.file _) => true
      | _ => false
    some (listed.mergeSort fun f g => !(g.chars.lex f.chars fun c d => decide (c < d)))
  else none

/-- The lines `fzf` offers: those left on the standard input, or the files it finds by itself. -/
def offered (fs : Files) : List Bytes :=
  match S.stdin with
  | some lines => lines
  | none => (fs.filesUnder S.cwd).map fun p => joinPath (p.drop S.cwd.length)

/-- The path of the file that a line stands for. A file that is listed stands for itself, however
its name is shown; a line of the standard input stands for what is shown of it. -/
def named (line : Bytes) : Bytes :=
  match S.stdin with
  | some _ => S.fzf.prints line
  | none => line

/-- `check_output(…, text=True)`: the text that is printed, with newlines for all line
endings, or `none` where an exception is raised, as `fzf` is left or prints no text. -/
def check_output : Option (List Char) :=
  match S.answer with
  | .cancelled => none
  | .taken line => (decode (S.fzf.prints line ++ [byte '\n'])).map normNewlines

/-- Line 60. What is stripped is more than the newline that `fzf` has added. -/
def selected_file : Option (List Char) := S.check_output.map strip

/-- Lines 59 to 67. The rename is where a name that has been changed on its way shows. -/
def select (fs : Files) : RunEnd :=
  match S.selected_file with
  | none => .raised fs
  | some selected_file =>
      if selected_file ≠ [] then
        match (resolve fs S.cwd (encode selected_file)).bind fun p =>
            fs.rename p (S.cwd ++ [image_png]) with
        | none => .raised fs
        | some fs' => .renamed fs'
      else .noImage fs

/-- Lines 26 to 67. An exception in the loop, or a `save_dir` that cannot be listed, ends the run
before anything is offered. -/
def run (fs : Files) : RunEnd :=
  match S.makeSaveDir fs with
  | none => .raised fs
  | some fs₀ =>
      match S.downloads fs₀ with
      | .raised fs₁ => .raised fs₁
      | .finished fs₁ =>
          match S.image_files fs₁ with
          | none => .raised fs₁
          | some _ => S.select fs₁

/-! ## What the selector is for -/

/-- Every file saved completely is one of `image_files`. -/
def SavedAreListed (fs₀ : Files) (image_files : List FileName) : Prop :=
  ∀ i body, Succeeds S.hostOk S.reply S.cwd S.image_links fs₀ i body → filename i ∈ image_files

/-- What can be chosen is one of `image_files`. -/
def OfferedAreListed (fs₁ : Files) (image_files : List FileName) : Prop :=
  ∀ line ∈ S.offered fs₁, ∃ f ∈ image_files, S.named line = f.chars

/-- `image.png` holds the bytes of the file `p`, and but for these two everything is as it was.
Of `p` itself nothing is asked, as it may be `image.png`. -/
def Moved (fs₁ fs₂ : Files) (p : List FileName) (bytes : List UInt8) : Prop :=
  fs₂.node (S.cwd ++ [image_png]) = some (.file bytes) ∧
    ∀ q, q ≠ p → q ≠ S.cwd ++ [image_png] → fs₂.node q = fs₁.node q

/-- When a file is chosen, it is moved to `image.png`. The bytes are those it has when the loop
is through. -/
def MovesChosen (fs₁ fs₂ : Files) : Prop :=
  ∀ line p bytes, S.answer = .taken line → line ∈ S.offered fs₁ →
    resolve fs₁ S.cwd (S.named line) = some p → fs₁.node p = some (.file bytes) →
    S.Moved fs₁ fs₂ p bytes

/-- When nothing is chosen, nothing changes, and the run ends in its own branch for that. -/
def EndsWithoutImage (fs₁ : Files) (e : RunEnd) : Prop :=
  (S.answer = .cancelled ∨ ∃ line, S.answer = .taken line ∧ S.fzf.prints line = []) →
    e = .noImage fs₁

/-- One run, from the files `fs`, does what the selector is for: it gets through, its lists speak
of the same files, and the choice is carried out. -/
def SelectsSafely (fs : Files) : Prop :=
  ∃ fs₀ fs₁ image_files, S.makeSaveDir fs = some fs₀ ∧ S.downloads fs₀ = .finished fs₁ ∧
    S.image_files fs₁ = some image_files ∧ S.SavedAreListed fs₀ image_files ∧
    S.OfferedAreListed fs₁ image_files ∧ S.MovesChosen fs₁ (S.run fs).files ∧
    S.EndsWithoutImage fs₁ (S.run fs)

/-! ## What has to be arranged

All of it is said of `fs₀`, the files when the loop starts, and of what becomes of the
downloads. -/

/-- `save_dir` lists the name, as it does for anything that stands in it. -/
def Listed (fs₀ : Files) (f : FileName) : Prop := fs₀.node (S.cwd ++ [save_dir] ++ [f]) ≠ none

/-- The bytes of a file when the loop is through: what a download has written to it, or what
it held, where none has opened it. -/
def Holds (fs₀ : Files) (q : List FileName) (bytes : List UInt8) : Prop :=
  (∃ i, q = S.cwd ++ [filename i] ∧
      Writes S.hostOk S.reply S.cwd S.image_links fs₀ i bytes) ∨
    (fs₀.node q = some (.file bytes) ∧ ∀ i, q = S.cwd ++ [filename i] →
      ∀ b, ¬ Writes S.hostOk S.reply S.cwd S.image_links fs₀ i b)

/-- Nothing can be chosen but what `save_dir` lists: from a terminal, all files stand
directly in the working directory, and `save_dir` lists all of their names. -/
def OffersListed (fs₀ : Files) : Prop :=
  match S.stdin with
  | none => ∀ q bytes, S.cwd <+: q → S.Holds fs₀ q bytes →
      ∃ f, q = S.cwd ++ [f] ∧ S.Listed fs₀ f
  | some lines => ∀ line ∈ lines, ∃ f, S.fzf.prints line = f.chars ∧ S.Listed fs₀ f ∧
      ∃ bytes, S.Holds fs₀ (S.cwd ++ [f]) bytes

/-- The line that is taken stands for the file `f`, and is one of the lines that there are. -/
def Takes (f : FileName) : Prop :=
  ∃ line, S.answer = .taken line ∧ S.named line = f.chars ∧
    ∀ lines, S.stdin = some lines → line ∈ lines

/-- The name that is left of the line that is taken, if it is one of text. -/
def selectedName : Option Bytes := S.selected_file.map encode

/-- The file can be moved: its own name is what is left of it, and `image.png` is no
directory. Otherwise `image.png` must happen to hold the same bytes, and what is left of
the name must be no other file's. -/
def Movable (fs₀ : Files) (f : FileName) (bytes : List UInt8) : Prop :=
  (S.selectedName = some f.chars ∧ fs₀.node (S.cwd ++ [image_png]) ≠ some .dir) ∨
    (S.selectedName ≠ some f.chars ∧ fs₀.node (S.cwd ++ [image_png]) = some (.file bytes) ∧
      ∀ g : FileName, S.selectedName = some g.chars → g ≠ image_png →
        ∀ bytes', ¬ S.Holds fs₀ (S.cwd ++ [g]) bytes')

/-- What has to be so before the loop. It is one condition for each part of `SelectsSafely`, and
two for the run to get through. -/
structure Arranged (fs₀ : Files) : Prop where
  save_dir_isDir : fs₀.node (S.cwd ++ [save_dir]) = some .dir
  urls : ∀ img ∈ S.image_links.take num_images, img.img_url S.hostOk ≠ none
  saved_listed : ∀ i body, Succeeds S.hostOk S.reply S.cwd S.image_links fs₀ i body →
    S.Listed fs₀ (filename i)
  offers_listed : S.OffersListed fs₀
  chosen_movable : ∀ f bytes, S.Takes f → S.Holds fs₀ (S.cwd ++ [f]) bytes → S.Movable fs₀ f bytes
  not_cancelled : S.answer ≠ .cancelled

/-! ## Texts -/

/-- Stripping brings nothing in. -/
theorem mem_of_mem_strip {c : Char} {s : List Char} (h : c ∈ strip s) : c ∈ s :=
  mem_of_mem_trim h

/-- White space at the end is stripped first, so the newline of `fzf` makes no difference. -/
theorem strip_append_newline (s : List Char) : strip (s ++ ['\n']) = strip s := by
  rw [strip, strip, List.dropWhile_append]
  split
  · rename_i hempty
    rw [List.isEmpty_iff.mp hempty]
    rfl
  · exact List.rdropWhile_concat_pos isPySpace _ '\n' (by decide)

/-- A text that is not empty has bytes. -/
theorem encode_ne_nil {s : List Char} (h : s ≠ []) : encode s ≠ [] := fun hnil =>
  h (encode_injective (hnil.trans encode_nil.symm))

/-- A single name is the joined path of that name only: a longer path has a separator in it. -/
theorem joinPath_eq_chars {p : List FileName} {f : FileName} (h : joinPath p = f.chars) :
    p = [f] := by
  rcases p with _ | ⟨n, p⟩
  · exact absurd h.symm f.ne_nil
  · rcases p with _ | ⟨m, p⟩
    · have hn : n.chars = f.chars := by simpa [joinPath] using h
      rw [Name.ext hn]
    · exfalso
      rw [joinPath, List.map_cons, List.map_cons, List.intercalate_cons_cons] at h
      exact f.no_slash (by rw [← h]; simp)

/-! ## From the loop to the selection -/

variable {S} {fs fs₀ fs₁ : Files}

/-- The downloads do not touch the directory, -/
theorem filename_ne_save_dir (i : ℕ) : filename i ≠ save_dir := by
  intro h
  have hunder : byte '_' ∈ (filename i).chars := underscore_mem_filenameText i
  rw [h] at hunder
  exact absurd hunder (by decide)

/-- nor what the selection writes. -/
theorem filename_ne_image_png (i : ℕ) : filename i ≠ image_png := by
  intro h
  have hunder : byte '_' ∈ (filename i).chars := underscore_mem_filenameText i
  rw [h] at hunder
  exact absurd hunder (by decide)

/-- The loop leaves `image.png` alone. -/
theorem node_image_png (h : S.downloads fs₀ = .finished fs₁) :
    fs₁.node (S.cwd ++ [image_png]) = fs₀.node (S.cwd ++ [image_png]) :=
  node_download_images_of_ne h fun i heq =>
    filename_ne_image_png i (List.singleton_inj.mp (List.append_cancel_left heq)).symm

/-- What `save_dir` lists is the same before and after the loop, as every download goes to the
directory above it. -/
theorem listed_iff (h : S.downloads fs₀ = .finished fs₁) (f : FileName) :
    S.Listed fs₁ f ↔ S.Listed fs₀ f := by
  unfold Listed
  rw [node_download_images_of_ne h]
  intro i heq
  have hlen := congrArg List.length heq
  simp at hlen

/-- What `image_files` has in it. -/
theorem mem_image_files {names : List FileName} (h : S.image_files fs₁ = some names)
    {f : FileName} :
    f ∈ names ↔ S.Listed fs₁ f ∧ ∃ bytes, fs₁.node (S.cwd ++ [f]) = some (.file bytes) := by
  unfold image_files at h
  split at h
  · rw [← Option.some_inj.mp h, List.mem_mergeSort, List.mem_filter, Store.mem_listdir, Listed]
    refine and_congr_right fun _ => ?_
    rcases fs₁.node (S.cwd ++ [f]) with _ | ⟨bytes | _⟩
    · simp
    · simp
    · simp
  · cases h

/-- There is a list exactly where `save_dir` is a directory. -/
theorem image_files_isSome_iff :
    (∃ names, S.image_files fs₁ = some names) ↔ fs₁.node (S.cwd ++ [save_dir]) = some .dir := by
  unfold image_files
  split
  · rename_i h
    exact ⟨fun _ => h, fun _ => ⟨_, rfl⟩⟩
  · rename_i h
    simp [h]

/-- A saved file is listed when its name was in `save_dir` before the loop. The loop itself puts
nothing there. -/
theorem savedAreListed_iff {names : List FileName} (h : S.downloads fs₀ = .finished fs₁)
    (hnames : S.image_files fs₁ = some names) :
    S.SavedAreListed fs₀ names ↔ ∀ i body,
      Succeeds S.hostOk S.reply S.cwd S.image_links fs₀ i body → S.Listed fs₀ (filename i) := by
  unfold SavedAreListed
  refine forall_congr' fun i => forall_congr' fun body => imp_congr_right fun hi => ?_
  rw [mem_image_files hnames, listed_iff h]
  exact and_iff_left ⟨body, hi.node h⟩

/-- The files of the loop's end, said of its beginning. This is where the outcomes come in. -/
theorem node_eq_file_iff (h : S.downloads fs₀ = .finished fs₁) {q : List FileName}
    {bytes : List UInt8} : fs₁.node q = some (.file bytes) ↔ S.Holds fs₀ q bytes :=
  node_download_images_eq_file_iff h

/-- What is offered is listed exactly when it has been arranged so before the loop. The two kinds
of input are two cases. -/
theorem offeredAreListed_iff {names : List FileName} (h : S.downloads fs₀ = .finished fs₁)
    (hnames : S.image_files fs₁ = some names) :
    S.OfferedAreListed fs₁ names ↔ S.OffersListed fs₀ := by
  have hmem : ∀ f, f ∈ names ↔ S.Listed fs₀ f ∧ ∃ bytes, S.Holds fs₀ (S.cwd ++ [f]) bytes := by
    intro f
    rw [mem_image_files hnames, listed_iff h]
    simp only [node_eq_file_iff h]
  unfold OfferedAreListed OffersListed offered named
  cases S.stdin with
  | some lines =>
      refine forall_congr' fun line => imp_congr_right fun _ => ?_
      constructor
      · rintro ⟨f, hf, hline⟩
        exact ⟨f, hline, (hmem f).mp hf⟩
      · rintro ⟨f, hline, hf⟩
        exact ⟨f, (hmem f).mpr hf, hline⟩
  | none =>
      constructor
      · intro hoff q bytes hq hholds
        obtain ⟨f, hf, hline⟩ := hoff _ (List.mem_map.mpr ⟨q, Store.mem_filesUnder.mpr
          ⟨hq, bytes, (node_eq_file_iff h).mpr hholds⟩, rfl⟩)
        -- a listed name has no separator, so the file stands directly in the directory
        have hqf : q = S.cwd ++ [f] := by
          rw [← joinPath_eq_chars hline, List.prefix_iff_eq_append.mp hq]
        exact ⟨f, hqf, ((hmem f).mp hf).1⟩
      · intro hall line hline
        obtain ⟨q, hq, rfl⟩ := List.mem_map.mp hline
        obtain ⟨hpre, bytes, hqfile⟩ := Store.mem_filesUnder.mp hq
        obtain ⟨f, rfl, hf⟩ := hall q bytes hpre ((node_eq_file_iff h).mp hqfile)
        refine ⟨f, (hmem f).mpr ⟨hf, bytes, (node_eq_file_iff h).mp hqfile⟩, ?_⟩
        rw [List.drop_left]
        simp [joinPath]

/-! ## The selection -/

/-- Where nothing is renamed, only `image.png` itself can count as moved. -/
theorem moved_self_iff {p : List FileName} {bytes : List UInt8} :
    S.Moved fs₁ fs₁ p bytes ↔ fs₁.node (S.cwd ++ [image_png]) = some (.file bytes) :=
  and_iff_left fun _ _ _ => rfl

/-- The run is its selection, once it gets there. -/
theorem run_eq_select {names : List FileName} (hdir : S.makeSaveDir fs = some fs₀)
    (hloop : S.downloads fs₀ = .finished fs₁) (hnames : S.image_files fs₁ = some names) :
    S.run fs = S.select fs₁ := by
  simp only [run, hdir, hloop, hnames]

/-- A name that leads to the working directory or above it moves nothing: `image.png` is below
either, and a directory is not moved into itself. -/
theorem rename_dots {s : Bytes} {p : List FileName}
    (hs : (s = [byte '.'] ∧ p = S.cwd) ∨ (s = [byte '.', byte '.'] ∧ p = S.cwd.dropLast)) :
    fs₁.rename p (S.cwd ++ [image_png]) = none := by
  have hpre : p <+: S.cwd := by
    rcases hs with ⟨-, rfl⟩ | ⟨-, rfl⟩
    · exact List.prefix_refl _
    · exact List.dropLast_prefix _
  refine Store.rename_eq_none_of_prefix (hpre.trans (List.prefix_append _ _)) ?_
  intro heq
  have hlen := hpre.length_le
  rw [heq, List.length_append, List.length_singleton] at hlen
  omega

/-- The files behind a selection, once a name is left: those of its `rename`, or the same as
before where it fails. -/
theorem select_of_name {s : Bytes} (hs : S.selectedName = some s) (hne : s ≠ []) :
    (S.select fs₁).files = ((resolve fs₁ S.cwd s).bind fun p =>
      fs₁.rename p (S.cwd ++ [image_png])).getD fs₁ := by
  obtain ⟨cs, hcs, rfl⟩ := Option.map_eq_some_iff.mp hs
  have hcsne : cs ≠ [] := by
    rintro rfl
    exact hne encode_nil
  rw [select, hcs]
  dsimp only
  rw [if_pos hcsne]
  split <;> rename_i h <;> rw [h] <;> rfl

/-- Without a name nothing is moved. -/
theorem select_of_no_name (hs : ∀ s, S.selectedName = some s → s = []) :
    (S.select fs₁).files = fs₁ := by
  rw [select]
  cases hsel : S.selected_file with
  | none => rfl
  | some cs =>
      have hnil : encode cs = [] := hs _ (by rw [selectedName, hsel]; rfl)
      have hcs : cs = [] := by
        by_contra hne
        exact encode_ne_nil hne hnil
      dsimp only
      rw [if_neg (not_not_intro hcs)]
      rfl

/-- No hand that the line goes through puts a separator into it. -/
theorem no_slash_selectedName {line s : Bytes} (hanswer : S.answer = .taken line)
    (hline : byte '/' ∉ S.fzf.prints line) (hs : S.selectedName = some s) : byte '/' ∉ s := by
  obtain ⟨cs, hcs, rfl⟩ := Option.map_eq_some_iff.mp hs
  obtain ⟨ds, hds, rfl⟩ := Option.map_eq_some_iff.mp hcs
  rw [check_output, hanswer] at hds
  obtain ⟨text, htext, rfl⟩ := Option.map_eq_some_iff.mp hds
  rw [byte_mem_encode_iff (by decide)]
  intro hmem
  rcases mem_of_mem_normNewlines (mem_of_mem_strip hmem) with h | h
  · have hbyte : byte '/' ∈ encode text := (byte_mem_encode_iff (by decide)).mpr h
    rw [decode_eq_some_iff.mp htext, List.mem_append, List.mem_singleton] at hbyte
    rcases hbyte with h | h
    · exact hline h
    · exact absurd h (by decide)
  · exact absurd h (by decide)

/-- Nor is there one in what is shown of a name. -/
theorem no_slash_prints {f : FileName} {line : Bytes} (h : S.named line = f.chars) :
    byte '/' ∉ S.fzf.prints line := by
  intro hmem
  rw [named] at h
  split at h
  · exact f.no_slash (h ▸ hmem)
  · exact f.no_slash (h ▸ S.fzf.no_slash line hmem)

/-- **What leaves a name as it is**: a name that `fzf` prints as it stands is left exactly when
it is text, has no carriage return, and no white space at its ends. One condition for each of the
three hands. -/
theorem selectedName_eq_self_iff {f : FileName} {line : Bytes} (hanswer : S.answer = .taken line)
    (hprints : S.fzf.prints line = f.chars) :
    S.selectedName = some f.chars ↔ ∃ cs, encode cs = f.chars ∧ '\r' ∉ cs ∧ strip cs = cs := by
  have hname : S.selectedName = ((decode (f.chars ++ [byte '\n'])).map normNewlines).map
      fun output => encode (strip output) := by
    rw [selectedName, selected_file, check_output, hanswer, ← hprints, Option.map_map]
    rfl
  rw [hname]
  constructor
  · intro h
    obtain ⟨output, houtput, hself⟩ := Option.map_eq_some_iff.mp h
    obtain ⟨ds, hds, rfl⟩ := Option.map_eq_some_iff.mp houtput
    obtain ⟨cs, rfl, hcs⟩ := encode_eq_append_byte (by decide) (decode_eq_some_iff.mp hds)
    have hstrip : strip (normNewlines (cs ++ ['\n'])) = cs :=
      encode_injective (hself.trans hcs.symm)
    -- the name is what is left at the end, and no carriage return is left
    have hreturn : '\r' ∉ cs := by
      rw [← hstrip]
      exact fun hmem => not_mem_normNewlines _ (mem_of_mem_strip hmem)
    rw [normNewlines_of_not_mem (by simp [hreturn]), strip_append_newline] at hstrip
    exact ⟨cs, hcs, hreturn, hstrip⟩
  · rintro ⟨cs, hcs, hreturn, hstrip⟩
    have hdecode : decode (f.chars ++ [byte '\n']) = some (cs ++ ['\n']) := by
      rw [decode_eq_some_iff, encode_append, hcs]
      rfl
    rw [hdecode, Option.map_some, Option.map_some,
      normNewlines_of_not_mem (by simp [hreturn]), strip_append_newline, hstrip, hcs]

/-- A file whose own name is left is moved, unless `image.png` is a directory. -/
theorem moved_of_name_eq {f : FileName} {bytes : List UInt8}
    (hf : fs₁.node (S.cwd ++ [f]) = some (.file bytes)) (hname : S.selectedName = some f.chars) :
    S.Moved fs₁ (S.select fs₁).files (S.cwd ++ [f]) bytes ↔
      fs₁.node (S.cwd ++ [image_png]) ≠ some .dir := by
  have hcwd : fs₁.node S.cwd = some .dir := fs₁.parent (by rw [hf]; simp)
  rw [select_of_name hname f.ne_nil, resolve_name hcwd, Option.bind_some]
  -- `image.png` may be chosen itself, and is renamed to itself
  by_cases hfi : f = image_png
  · subst hfi
    have hsame : fs₁.rename (S.cwd ++ [image_png]) (S.cwd ++ [image_png]) = some fs₁ := by
      rw [Store.rename, if_pos ⟨rfl, by rw [hf]; simp⟩]
    rw [hsame, Option.getD_some, moved_self_iff, hf]
    simp
  · by_cases himg : fs₁.node (S.cwd ++ [image_png]) = some .dir
    · have hcan : ¬ fs₁.CanRename (S.cwd ++ [f]) (S.cwd ++ [image_png]) := fun h =>
        (Store.canRename_file_iff hfi hf).mp h himg
      rw [Store.rename_sibling hfi, dif_neg hcan, Option.getD_none, moved_self_iff, himg]
      simp
    · obtain ⟨fs', hmove, himage, -, hframe⟩ := Store.rename_file hfi hf himg
      rw [hmove, Option.getD_some]
      exact iff_of_true ⟨himage, hframe⟩ himg

/-- Moving what stands under another name `n` looks like moving `f` only where nothing is moved
at all: `image.png` holds the bytes already, and under `n` no file stands. -/
theorem moved_rename_iff {f n : FileName} {bytes : List UInt8} (hnf : n ≠ f) :
    S.Moved fs₁ ((fs₁.rename (S.cwd ++ [n]) (S.cwd ++ [image_png])).getD fs₁) (S.cwd ++ [f]) bytes ↔
      fs₁.node (S.cwd ++ [image_png]) = some (.file bytes) ∧
        (n ≠ image_png → ∀ bytes', fs₁.node (S.cwd ++ [n]) ≠ some (.file bytes')) := by
  by_cases hni : n = image_png
  · have hsame : (fs₁.rename (S.cwd ++ [n]) (S.cwd ++ [image_png])).getD fs₁ = fs₁ := by
      rw [hni, Store.rename]
      split
      · rfl
      · have hno : ¬ fs₁.CanRename (S.cwd ++ [image_png]) (S.cwd ++ [image_png]) := fun h =>
          h.2.1 (List.prefix_refl _)
        rw [dif_neg hno, Option.getD_none]
    rw [hsame, moved_self_iff, iff_self_and]
    exact fun _ h => absurd hni h
  · rw [Store.rename_sibling hni]
    by_cases hcan : fs₁.CanRename (S.cwd ++ [n]) (S.cwd ++ [image_png])
    · -- another file or directory is moved, so it is gone from its place
      rw [dif_pos hcan, Option.getD_some]
      refine iff_of_false ?_ ?_
      · rintro ⟨-, hframe⟩
        have hpath : S.cwd ++ [n] ≠ S.cwd ++ [f] := fun h =>
          hnf (List.singleton_inj.mp (List.append_cancel_left h))
        have hpath' : S.cwd ++ [n] ≠ S.cwd ++ [image_png] := fun h =>
          hni (List.singleton_inj.mp (List.append_cancel_left h))
        have hnode := hframe _ hpath hpath'
        rw [Store.node_move, if_neg (Store.not_prefix_sibling (Ne.symm hni)),
          if_pos (List.prefix_refl _)] at hnode
        exact hcan.1 hnode.symm
      · rintro ⟨himg, hno⟩
        -- why `rename` would have succeeded: nothing in its way, a file over a file, or a
        -- directory over an empty one
        rcases hcan.2.2.2.2 with h | h | h
        · rw [himg] at h
          cases h
        · rcases hnode : fs₁.node (S.cwd ++ [n]) with _ | ⟨bytes' | _⟩
          · exact hcan.1 hnode
          · exact hno hni bytes' hnode
          · exact h.1 hnode
        · rw [h.2.1] at himg
          cases himg
    · rw [dif_neg hcan, Option.getD_none, moved_self_iff, iff_self_and]
      intro himg _ bytes' hn'
      exact hcan ((Store.canRename_file_iff hni hn').mpr (by rw [himg]; simp))

/-- A file whose own name is not left is not moved. It is as if it were when `image.png` holds
the same bytes and nothing else is moved instead. -/
theorem moved_of_name_ne {f : FileName} {bytes : List UInt8} {line : Bytes}
    (hf : fs₁.node (S.cwd ++ [f]) = some (.file bytes)) (hanswer : S.answer = .taken line)
    (hline : byte '/' ∉ S.fzf.prints line) (hname : S.selectedName ≠ some f.chars) :
    S.Moved fs₁ (S.select fs₁).files (S.cwd ++ [f]) bytes ↔
      fs₁.node (S.cwd ++ [image_png]) = some (.file bytes) ∧
        ∀ g : FileName, S.selectedName = some g.chars → g ≠ image_png →
          ∀ bytes', fs₁.node (S.cwd ++ [g]) ≠ some (.file bytes') := by
  have hcwd : fs₁.node S.cwd = some .dir := fs₁.parent (by rw [hf]; simp)
  by_cases hnone : ∀ s, S.selectedName = some s → s = []
  · rw [select_of_no_name hnone, moved_self_iff, iff_self_and]
    exact fun _ g hg => absurd (hnone _ hg) g.ne_nil
  · obtain ⟨s, hs, hne⟩ := not_forall.mp hnone |>.imp fun s h => Classical.not_imp.mp h
    rw [select_of_name hs hne]
    -- what is left is a name, or one of the two that lead to directories
    rcases resolve_of_no_slash hcwd hne (no_slash_selectedName hanswer hline hs) with
      ⟨n, hn, hres⟩ | ⟨hdot, hres⟩ | ⟨hdots, hres⟩
    · have hnf : n ≠ f := fun h => hname (by rw [hs, ← hn, h])
      rw [hres, Option.bind_some, moved_rename_iff hnf]
      refine and_congr_right fun _ => ?_
      constructor
      · intro h g hg
        rw [hs, ← hn, Option.some_inj] at hg
        rw [← Name.ext hg]
        exact h
      · intro h
        exact h n (by rw [hs, hn])
    · rw [hres, Option.bind_some, rename_dots (Or.inl ⟨hdot, rfl⟩), Option.getD_none,
        moved_self_iff, iff_self_and]
      intro _ g hg
      rw [hs, Option.some_inj] at hg
      exact absurd (hg.symm.trans hdot) g.not_dot
    · rw [hres, Option.bind_some, rename_dots (Or.inr ⟨hdots, rfl⟩), Option.getD_none,
        moved_self_iff, iff_self_and]
      intro _ g hg
      rw [hs, Option.some_inj] at hg
      exact absurd (hg.symm.trans hdots) g.not_dotdot

/-- **The file of the line that is taken is moved exactly when it is movable**, which is a
matter of the files before the loop. -/
theorem moved_select_iff {f : FileName} {bytes : List UInt8} {line : Bytes}
    (h : S.downloads fs₀ = .finished fs₁) (hf : fs₁.node (S.cwd ++ [f]) = some (.file bytes))
    (hanswer : S.answer = .taken line) (hnamed : S.named line = f.chars) :
    S.Moved fs₁ (S.select fs₁).files (S.cwd ++ [f]) bytes ↔ S.Movable fs₀ f bytes := by
  unfold Movable
  rw [← node_image_png h]
  by_cases hname : S.selectedName = some f.chars
  · rw [moved_of_name_eq hf hname]
    simp [hname]
  · rw [moved_of_name_ne hf hanswer (no_slash_prints hnamed) hname]
    simp [hname, node_eq_file_iff h]

/-- With nothing chosen, the selection ends in its own branch unless `fzf` was cancelled. It is
left with an error then, and `check_output` makes an exception of that. -/
theorem endsWithoutImage_iff :
    S.EndsWithoutImage fs₁ (S.select fs₁) ↔ S.answer ≠ .cancelled := by
  unfold EndsWithoutImage select selected_file check_output
  constructor
  · intro h hcancel
    rw [hcancel] at h
    cases h (Or.inl rfl)
  · rintro hne (h | ⟨line, h, hline⟩)
    · exact absurd h hne
    · -- what is printed is the end of a line only, and stripped
      have hdecode : decode ([] ++ [byte '\n']) = some ['\n'] :=
        decode_eq_some_iff.mpr (by decide)
      rw [h]
      dsimp only
      rw [hline, hdecode]
      rfl

/-- When only listed names are offered, the chosen file is moved exactly when it is movable. Only
files are asked about, and each of them is the file of a name, because nothing else is offered.
-/
theorem movesChosen_iff {names : List FileName} (hloop : S.downloads fs₀ = .finished fs₁)
    (hlisted : S.OfferedAreListed fs₁ names)
    (hcwd : fs₁.node S.cwd = some .dir) :
    S.MovesChosen fs₁ (S.select fs₁).files ↔
      ∀ f bytes, S.Takes f → S.Holds fs₀ (S.cwd ++ [f]) bytes → S.Movable fs₀ f bytes := by
  constructor
  · rintro h f bytes ⟨line, hanswer, hnamed, hstdin⟩ hholds
    have hf := (node_eq_file_iff hloop).mpr hholds
    -- the line that is taken is offered: one of the standard input by `Takes`, another because
    -- its file is there
    have hoff : line ∈ S.offered fs₁ := by
      rw [named] at hnamed
      rw [offered]
      split at hnamed
      · rename_i hlines
        exact hstdin _ hlines
      · -- a file that stands in the working directory is listed there
        refine List.mem_map.mpr ⟨S.cwd ++ [f], Store.mem_filesUnder.mpr
          ⟨List.prefix_append _ _, bytes, hf⟩, ?_⟩
        rw [hnamed, List.drop_left]
        simp [joinPath]
    rw [← moved_select_iff hloop hf hanswer hnamed]
    exact h line _ bytes hanswer hoff (by rw [hnamed, resolve_name hcwd]) hf
  · intro h line p bytes hanswer hoff hp hbytes
    obtain ⟨f, hf, hnamed⟩ := hlisted line hoff
    rw [hnamed, resolve_name hcwd, Option.some_inj] at hp
    subst hp
    rw [moved_select_iff hloop hbytes hanswer hnamed]
    refine h f bytes ⟨line, hanswer, hnamed, fun lines hlines => ?_⟩
      ((node_eq_file_iff hloop).mp hbytes)
    rwa [offered, hlines] at hoff

variable (S fs)

/-- **When a run of the selector is safe.** What it leaves is told from the files before the
loop: the loop changes the paths of its own elements only, so `save_dir` lists what it did
before, and each part of the specification is its own part of `Arranged`. The moves come last, as
they are judged only among names that are listed. -/
theorem selectsSafely_iff :
    S.SelectsSafely fs ↔ ∃ fs₀, S.makeSaveDir fs = some fs₀ ∧ S.Arranged fs₀ := by
  constructor
  · rintro ⟨fs₀, fs₁, names, hdir, hloop, hnames, hsaved, hoffered, hmoves, hends⟩
    have hsave : fs₁.node (S.cwd ++ [save_dir]) = some .dir :=
      image_files_isSome_iff.mp ⟨names, hnames⟩
    have hcwd : fs₁.node S.cwd = some .dir := fs₁.parent (by rw [hsave]; simp)
    rw [run_eq_select hdir hloop hnames] at hmoves hends
    exact ⟨fs₀, hdir,
      { save_dir_isDir := (node_download_images_eq_dir_iff hloop).mp hsave
        urls := loop_finished_iff.mp ⟨fs₁, hloop⟩
        saved_listed := (savedAreListed_iff hloop hnames).mp hsaved
        offers_listed := (offeredAreListed_iff hloop hnames).mp hoffered
        chosen_movable := (movesChosen_iff hloop hoffered hcwd).mp hmoves
        not_cancelled := endsWithoutImage_iff.mp hends }⟩
  · rintro ⟨fs₀, hdir, h⟩
    obtain ⟨fs₁, hloop⟩ : ∃ fs₁, S.downloads fs₀ = .finished fs₁ := loop_finished_iff.mpr h.urls
    have hsave : fs₁.node (S.cwd ++ [save_dir]) = some .dir :=
      (node_download_images_eq_dir_iff hloop).mpr h.save_dir_isDir
    have hcwd : fs₁.node S.cwd = some .dir := fs₁.parent (by rw [hsave]; simp)
    obtain ⟨names, hnames⟩ := image_files_isSome_iff.mpr hsave
    have hoffered := (offeredAreListed_iff hloop hnames).mpr h.offers_listed
    refine ⟨fs₀, fs₁, names, hdir, hloop, hnames,
      (savedAreListed_iff hloop hnames).mpr h.saved_listed, hoffered, ?_, ?_⟩
    · rw [run_eq_select hdir hloop hnames]
      exact (movesChosen_iff hloop hoffered hcwd).mpr h.chosen_movable
    · rw [run_eq_select hdir hloop hnames]
      exact endsWithoutImage_iff.mpr h.not_cancelled

end Session

/-- A line is printed as it is. -/
def plainFzf : Fzf := ⟨id, fun _ h => h⟩

/-- A page with one image, which is downloaded into an empty directory and then
chosen. -/
def freshSession : Session where
  hostOk := fun _ => true
  reply := fun _ _ => .completes [0x89]
  cwd := []
  mkdirOk := true
  image_links := [⟨some ⟨some (https ++ ['/', '/', 'h', '/', 'a', '.', 'p', 'n', 'g'])⟩⟩]
  stdin := none
  fzf := plainFzf
  answer := .taken (encode (filenameText 0))

/-- In a fresh directory `image_files` stays empty, whatever is saved. -/
theorem not_selectsSafely_freshSession : ¬ freshSession.SelectsSafely Store.empty := by
  rintro ⟨fs₀, fs₁, names, hdir, hloop, hnames, hsaved, -⟩
  have hcan : (Store.empty : Files).CanWrite [save_dir] := ⟨by simp, rfl, by simp [Store.empty]⟩
  have hnone : (Store.empty : Files).node [save_dir] = none := rfl
  have hmake : freshSession.makeSaveDir Store.empty =
      some (Store.empty.put [save_dir] .dir hcan) :=
    (if_neg (not_not_intro hnone)).trans
      ((if_pos rfl).trans ((dif_pos hcan).trans (if_pos hnone)))
  have hfs₀ : fs₀ = Store.empty.put [save_dir] .dir hcan :=
    Option.some_inj.mp (hdir.symm.trans hmake)
  have hsucceeds : Succeeds freshSession.hostOk freshSession.reply freshSession.cwd
      freshSession.image_links fs₀ 0 [0x89] := by
    refine ⟨rfl, by simp [freshSession], ?_, ?_⟩
    · rw [hfs₀]
      rfl
    · rw [hfs₀, Store.node_put, if_neg]
      · simp [freshSession, Store.empty]
      · intro heq
        exact Session.filename_ne_save_dir 0 (List.singleton_inj.mp heq)
  have hlisted := (Session.savedAreListed_iff hloop hnames).mp hsaved 0 [0x89] hsucceeds
  refine hlisted ?_
  rw [hfs₀, Store.node_put, if_neg (by simp [freshSession])]
  rfl

end VideoUploader.ImageSelector
