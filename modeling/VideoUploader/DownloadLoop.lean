/-
The download loop of the image selector: `addcoverimg.py`, lines 11 to 52 (the same
lines stand in `video-uploader.sh`).

A download can fail in four places. The request and the opening of the file stand
inside the `try`, and leave everything as it is. The copying stands inside it as
well, but the file has been opened for writing by then, so what was there before
is gone. And the lookup of the URL stands in front of the `try`: an element
without an image, or an image without a source, ends the whole run.
-/
import VideoUploader.FileStore
import VideoUploader.ImageUrl

set_option autoImplicit false

namespace VideoUploader.DownloadLoop

open FileStore Posix Utf8 Url ImageUrl

/-! ## Settings -/

/-- The names of files are bytes. Python shows them as text, and a name that is no UTF-8 is
none that a text leads to. -/
abbrev FileName := Name (byte '/') (byte '.')

abbrev Files := Store FileName

def search_query : List Char := ['g', 'e', 'n', 't', 'o', 'o', ' ', 'l', 'o', 'g', 'o']

def file_type : List Char := ['p', 'n', 'g']

/-- `search_query.split()`; of the white space Python knows, the query can have spaces only. -/
def query_words : List (List Char) := words (fun c => decide (c = ' ')) search_query

/-- The first word of the query, or `image` for a query without words. -/
def first_word : List Char :=
  match query_words with
  | w :: _ => w
  | [] => ['i', 'm', 'a', 'g', 'e']

def num_images : ℕ := 20

theorem first_word_eq : first_word = ['g', 'e', 'n', 't', 'o', 'o'] := by decide

/-- `f"{first_word}_{i+1}.{file_type}"`. The numbers are written in decimal, and begin with one.
-/
def filenameText (i : ℕ) : List Char :=
  first_word ++ '_' :: (Nat.toDigits 10 (i + 1) ++ '.' :: file_type)

/-- The underscore tells these names from those the scripts write out. -/
theorem underscore_mem_filenameText (i : ℕ) : byte '_' ∈ encode (filenameText i) :=
  (byte_mem_encode_iff (by decide)).mpr (by simp [filenameText])

/-- The text of a number is a name: it has digits, letters, an underscore and a dot, and no
separator. -/
theorem isName_filenameText (i : ℕ) : IsName (byte '/') (byte '.') (encode (filenameText i)) := by
  have hunder := underscore_mem_filenameText i
  refine ⟨?_, ?_, ?_, ?_⟩
  · exact List.ne_nil_of_mem hunder
  · intro hslash
    rw [byte_mem_encode_iff (by decide), filenameText, List.mem_append, List.mem_cons,
      List.mem_append, first_word_eq] at hslash
    rcases hslash with h | h | h | h
    · exact absurd h (by decide)
    · exact absurd h (by decide)
    · exact absurd (Nat.isDigit_of_mem_toDigits (by decide) (by decide) h) (by decide)
    · exact absurd h (by decide)
  · intro heq
    rw [heq] at hunder
    exact absurd hunder (by decide)
  · intro heq
    rw [heq] at hunder
    exact absurd hunder (by decide)

/-- The file of the element with number `i`. -/
def filename (i : ℕ) : FileName := Name.ofText (encode (filenameText i)) (isName_filenameText i)

/-- Two elements never share a file: the numbers in their names differ. -/
theorem filenameText_injective : Function.Injective filenameText := by
  intro i j hij
  rw [filenameText, filenameText, List.append_cancel_left_eq, List.cons_inj_right,
    List.append_left_inj] at hij
  have hnum := congrArg (fun ds => Nat.ofDigitChars 10 ds 0) hij
  simp only [Nat.ofDigitChars_ten_toDigits] at hnum
  omega

theorem filename_injective : Function.Injective filename := fun _ _ hij =>
  filenameText_injective (encode_injective (congrArg Name.chars hij))

/-! ## Elements and downloads -/

/-- An `img.rg_i` with its `data-src` attribute, if it has one. Neither is promised by the page.
-/
structure ImgTag where
  data_src : Option (List Char)

/-- A `div.rg_i` with the first `img.rg_i` in it, if there is one. -/
structure DivTag where
  img : Option ImgTag

/-- Lines 38 to 43: the URL of an element, or `none` where an exception is raised. The three ways
to raise are an element without an image, an image without a source, and a source that `urlparse`
refuses. -/
def DivTag.img_url (hostOk : List Char → Bool) (e : DivTag) : Option (List Char) := do
  let img ← e.img
  let data_src ← img.data_src
  addcoverimg.img_url hostOk data_src

/-- What becomes of a download: the request raises, the file cannot be opened, copying raises
when `sent` has been written, or the body is written completely. -/
inductive Outcome where
  | requestRaises
  | openFails
  | copyRaises (sent : List UInt8)
  | completes (body : List UInt8)

/-- What has been written to the file when the `with` block is left, if it was opened. A copy
that raises has written something, too. -/
def Outcome.written : Outcome → Option (List UInt8)
  | .requestRaises => none
  | .openFails => none
  | .copyRaises sent => some sent
  | .completes body => some body

/-- Lines 47 to 52. An opened file is truncated before anything is copied; a file that cannot be
opened, for one because a directory has its name, is left. What names are does not matter here,
as the shell's port downloads in the same way. -/
def download {ν : Type*} [DecidableEq ν] (fs : Store ν) (p : List ν) (o : Outcome) : Store ν :=
  match o.written with
  | none => fs
  | some bytes => (fs.write p bytes).getD fs

/-! ## The loop -/

/-- How the loop ends: behind the last element, or with an exception. Either way there are files.
-/
inductive LoopEnd where
  | finished (fs : Files)
  | raised (fs : Files)

variable (hostOk : List Char → Bool) (reply : ℕ → List Char → Outcome) (cwd : List FileName)

/-- Lines 37 to 52, from the element with number `i` on. What becomes of a request may depend on
its number and on its URL. -/
def loop : ℕ → List DivTag → Files → LoopEnd
  | _, [], fs => .finished fs
  | i, img :: imgs, fs =>
      match img.img_url hostOk with
      | none => .raised fs
      | some img_url => loop (i + 1) imgs (download fs (cwd ++ [filename i]) (reply i img_url))

/-- The loop over the elements of the page, of which there may be more than are wanted. -/
def download_images (image_links : List DivTag) (fs : Files) : LoopEnd :=
  loop hostOk reply cwd 0 (image_links.take num_images) fs

/-- What becomes of the download of the element with number `i`, if it is reached with a URL.
Said of the page alone, without the loop. -/
def attempt (image_links : List DivTag) (i : ℕ) : Option Outcome := do
  let img ← (image_links.take num_images)[i]?
  let img_url ← img.img_url hostOk
  return reply i img_url

/-! ## One download -/

section

variable {ν : Type*} [DecidableEq ν] {fs : Store ν} {p q : List ν} {o : Outcome}

/-- What one download leaves at its own path. -/
theorem node_download_self :
    (download fs p o).node p =
      match o.written with
      | none => fs.node p
      | some bytes => if fs.CanWrite p then some (.file bytes) else fs.node p := by
  unfold download Store.write
  cases o.written with
  | none => rfl
  | some bytes =>
      by_cases h : fs.CanWrite p
      · simp [h, Store.node_put]
      · simp [h]

/-- And at any other one. -/
theorem node_download_of_ne (h : q ≠ p) : (download fs p o).node q = fs.node q := by
  unfold download
  cases o.written with
  | none => rfl
  | some bytes => exact Store.node_write_of_ne h

/-- A download makes no directory and removes none. -/
theorem node_download_eq_dir_iff :
    (download fs p o).node q = some .dir ↔ fs.node q = some .dir := by
  by_cases hqp : q = p
  · subst hqp
    rw [node_download_self]
    split
    · rfl
    · split
      · rename_i hw
        exact ⟨fun h => by simp at h, fun h => absurd h hw.2.2⟩
      · rfl
  · rw [node_download_of_ne hqp]

/-- Whether a path can be written is a matter of directories, so no download changes it. -/
theorem canWrite_download : (download fs p o).CanWrite q ↔ fs.CanWrite q := by
  unfold Store.CanWrite
  rw [node_download_eq_dir_iff, ne_eq, ne_eq, ne_eq, node_download_eq_dir_iff]

/-- What a download leaves at its path is not changed by one to another path before. -/
theorem node_download_download (h : q ≠ p) (o' : Outcome) :
    (download (download fs p o) q o').node q = (download fs q o').node q := by
  rw [node_download_self, node_download_self, node_download_of_ne h]
  cases o'.written with
  | none => rfl
  | some bytes =>
      dsimp only
      rw [if_congr canWrite_download rfl rfl]

end

/-! ## The whole loop -/

variable {hostOk reply cwd}

/-- The loop reaches its end exactly when every element has a URL. What becomes of the downloads
does not matter for that, as each is inside its `try`. -/
theorem loop_finished_iff {imgs : List DivTag} {i : ℕ} {fs : Files} :
    (∃ fs', loop hostOk reply cwd i imgs fs = .finished fs') ↔
      ∀ img ∈ imgs, img.img_url hostOk ≠ none := by
  induction imgs generalizing i fs with
  | nil => simp [loop]
  | cons img imgs ih =>
      rw [List.forall_mem_cons, loop]
      cases himg : img.img_url hostOk with
      | none => simp
      | some img_url =>
          dsimp only
          rw [ih]
          simp

/-- Paths of no element are as they were. The induction is on the elements, with the number of
the first one free. -/
theorem node_loop_of_ne {imgs : List DivTag} {i : ℕ} {fs fs' : Files} {q : List FileName}
    (h : loop hostOk reply cwd i imgs fs = .finished fs')
    (hq : ∀ j < imgs.length, q ≠ cwd ++ [filename (i + j)]) : fs'.node q = fs.node q := by
  induction imgs generalizing i fs with
  | nil =>
      cases h
      rfl
  | cons img imgs ih =>
      rw [loop] at h
      split at h
      · cases h
      · -- the numbers of the rest begin one later
        have hrest : ∀ j < imgs.length, q ≠ cwd ++ [filename (i + 1 + j)] := by
          intro j hj
          have hi : i + 1 + j = i + (j + 1) := by omega
          rw [hi]
          exact hq (j + 1) (by rw [List.length_cons]; omega)
        have hhead : q ≠ cwd ++ [filename i] := hq 0 (by rw [List.length_cons]; omega)
        rw [ih h hrest, node_download_of_ne hhead]

/-- The path of a download tells its number. -/
theorem path_injective {i j : ℕ} (h : cwd ++ [filename i] = cwd ++ [filename j]) : i = j := by
  have hname : [filename i] = [filename j] := List.append_cancel_left h
  exact filename_injective (List.singleton_inj.mp hname)

/-- **Each element has its own file**: the loop leaves there what its download alone would leave.
The induction is on the elements; the file of the first is not touched again, and the first does
not touch the others'. -/
theorem node_loop {imgs : List DivTag} {i : ℕ} {fs fs' : Files}
    (h : loop hostOk reply cwd i imgs fs = .finished fs') {j : ℕ} {img : DivTag}
    {img_url : List Char} (hj : imgs[j]? = some img) (hurl : img.img_url hostOk = some img_url) :
    fs'.node (cwd ++ [filename (i + j)]) =
      (download fs (cwd ++ [filename (i + j)]) (reply (i + j) img_url)).node
        (cwd ++ [filename (i + j)]) := by
  induction imgs generalizing i j fs with
  | nil => cases hj
  | cons img' imgs ih =>
      rw [loop] at h
      split at h
      · cases h
      · rename_i url hurl'
        -- the first element, whose file no later one touches, or one of the others
        rcases j with _ | j
        · rw [List.getElem?_cons_zero, Option.some_inj] at hj
          subst hj
          rw [hurl, Option.some_inj] at hurl'
          subst hurl'
          exact node_loop_of_ne h fun k hk heq => by
            have hik := path_injective heq
            omega
        · rw [List.getElem?_cons_succ] at hj
          have hi : i + (j + 1) = i + 1 + j := by omega
          have hne : cwd ++ [filename (i + 1 + j)] ≠ cwd ++ [filename i] := fun heq => by
            have hij := path_injective heq
            omega
          rw [hi, ih h hj, node_download_download hne]

/-- A download that is attempted is that of an element, with its URL. -/
theorem attempt_eq_some_iff {image_links : List DivTag} {i : ℕ} {o : Outcome} :
    attempt hostOk reply image_links i = some o ↔
      ∃ img img_url, (image_links.take num_images)[i]? = some img ∧
        img.img_url hostOk = some img_url ∧ reply i img_url = o := by
  unfold attempt
  simp only [Option.bind_eq_bind, Option.bind_eq_some_iff, Option.pure_def, Option.some_inj]
  constructor
  · rintro ⟨img, himg, url, hurl, ho⟩
    exact ⟨img, url, himg, hurl, ho⟩
  · rintro ⟨img, url, himg, hurl, ho⟩
    exact ⟨img, himg, url, hurl, ho⟩

/-- What stands at the path of an element when the loop has ended. -/
theorem node_download_images {image_links : List DivTag} {fs fs' : Files}
    (h : download_images hostOk reply cwd image_links fs = .finished fs') (i : ℕ) :
    fs'.node (cwd ++ [filename i]) =
      match attempt hostOk reply image_links i with
      | none => fs.node (cwd ++ [filename i])
      | some o => (download fs (cwd ++ [filename i]) o).node (cwd ++ [filename i]) := by
  split
  · rename_i hnone
    refine node_loop_of_ne h fun j hj heq => ?_
    have hij : i = j := by
      have hpath := path_injective heq
      omega
    subst hij
    -- an element that is reached has a URL, as the loop has ended
    have hurl := loop_finished_iff.mp ⟨fs', h⟩ _ (List.getElem_mem hj)
    obtain ⟨url, hurl⟩ := Option.ne_none_iff_exists'.mp hurl
    have hsome : attempt hostOk reply image_links i = some (reply i url) :=
      attempt_eq_some_iff.mpr ⟨_, url, List.getElem?_eq_getElem hj, hurl, rfl⟩
    rw [hnone] at hsome
    cases hsome
  · rename_i o hsome
    obtain ⟨img, url, himg, hurl, rfl⟩ := attempt_eq_some_iff.mp hsome
    have hnode := node_loop h himg hurl
    rwa [Nat.zero_add] at hnode

/-- What is not the path of an element is as it was. -/
theorem node_download_images_of_ne {image_links : List DivTag} {fs fs' : Files}
    {q : List FileName} (h : download_images hostOk reply cwd image_links fs = .finished fs')
    (hq : ∀ i, q ≠ cwd ++ [filename i]) : fs'.node q = fs.node q :=
  node_loop_of_ne h fun j _ => hq (0 + j)

/-- The loop makes no directory and removes none. -/
theorem node_download_images_eq_dir_iff {image_links : List DivTag} {fs fs' : Files}
    {q : List FileName} (h : download_images hostOk reply cwd image_links fs = .finished fs') :
    fs'.node q = some .dir ↔ fs.node q = some .dir := by
  by_cases hq : ∃ i, q = cwd ++ [filename i]
  · obtain ⟨i, rfl⟩ := hq
    rw [node_download_images h]
    split
    · rfl
    · exact node_download_eq_dir_iff
  · rw [node_download_images_of_ne h fun i heq => hq ⟨i, heq⟩]

/-- The element with number `i` has its file opened, and `bytes` are what is written to it,
whatever becomes of the copy. -/
def Writes (hostOk : List Char → Bool) (reply : ℕ → List Char → Outcome) (cwd : List FileName)
    (image_links : List DivTag) (fs : Files) (i : ℕ) (bytes : List UInt8) : Prop :=
  ∃ o, attempt hostOk reply image_links i = some o ∧ o.written = some bytes ∧
    fs.CanWrite (cwd ++ [filename i])

/-- **Which files there are when the loop has ended**, told from the files before it and from
what has become of the downloads: the bytes an element has written, and where none has
had its file opened, those that were there. -/
theorem node_download_images_eq_file_iff {image_links : List DivTag} {fs fs' : Files}
    {q : List FileName} {bytes : List UInt8}
    (h : download_images hostOk reply cwd image_links fs = .finished fs') :
    fs'.node q = some (.file bytes) ↔
      (∃ i, q = cwd ++ [filename i] ∧ Writes hostOk reply cwd image_links fs i bytes) ∨
        (fs.node q = some (.file bytes) ∧
          ∀ i, q = cwd ++ [filename i] → ∀ b, ¬ Writes hostOk reply cwd image_links fs i b) := by
  by_cases hq : ∃ i, q = cwd ++ [filename i]
  · obtain ⟨i, rfl⟩ := hq
    -- the path is that of one element only
    have hself : ∀ {P : ℕ → Prop}, (∃ j, cwd ++ [filename i] = cwd ++ [filename j] ∧ P j) ↔ P i := by
      intro P
      constructor
      · rintro ⟨j, heq, hj⟩
        rwa [path_injective heq]
      · intro hi
        exact ⟨i, rfl, hi⟩
    have hall : ∀ {P : ℕ → Prop}, (∀ j, cwd ++ [filename i] = cwd ++ [filename j] → P j) ↔ P i := by
      intro P
      constructor
      · intro hj
        exact hj i rfl
      · intro hi j heq
        rwa [← path_injective heq]
    rw [hself, hall, node_download_images h]
    unfold Writes
    -- by what became of the element: not reached, not opened, or written
    cases attempt hostOk reply image_links i with
    | none => simp
    | some o =>
        dsimp only
        rw [node_download_self]
        cases hw : o.written with
        | none => simp [hw]
        | some sent =>
            by_cases hcan : fs.CanWrite (cwd ++ [filename i])
            · simp [hw, hcan]
            · simp [hcan]
  · rw [node_download_images_of_ne h fun i heq => hq ⟨i, heq⟩]
    constructor
    · intro hfile
      exact Or.inr ⟨hfile, fun i heq => absurd ⟨i, heq⟩ hq⟩
    · rintro (⟨i, heq, -⟩ | ⟨hfile, -⟩)
      · exact absurd ⟨i, heq⟩ hq
      · exact hfile

/-! ## What the loop is for -/

variable (hostOk reply cwd)

/-- The element with number `i` is downloaded, and its body saved. -/
def Succeeds (image_links : List DivTag) (fs : Files) (i : ℕ) (body : List UInt8) : Prop :=
  attempt hostOk reply image_links i = some (.completes body) ∧ fs.CanWrite (cwd ++ [filename i])

/-- The loop ends, with the files of exactly the elements that succeed overridden. The last part
is about all other paths, those of failed elements among them. -/
def SavesExactly (image_links : List DivTag) (fs : Files) : Prop :=
  ∃ fs', download_images hostOk reply cwd image_links fs = .finished fs' ∧
    (∀ i body, Succeeds hostOk reply cwd image_links fs i body →
      fs'.node (cwd ++ [filename i]) = some (.file body)) ∧
    ∀ q, (∀ i body, Succeeds hostOk reply cwd image_links fs i body → q ≠ cwd ++ [filename i]) →
      fs'.node q = fs.node q

/-- No element that is looked at is malformed, and where copying breaks off, what has been
written is what the file held, or the file cannot be opened. -/
def FailsHarmlessly (image_links : List DivTag) (fs : Files) : Prop :=
  (∀ img ∈ image_links.take num_images, img.img_url hostOk ≠ none) ∧
    ∀ i sent, attempt hostOk reply image_links i = some (.copyRaises sent) →
      fs.node (cwd ++ [filename i]) = some (.file sent) ∨ ¬ fs.CanWrite (cwd ++ [filename i])

variable {hostOk reply cwd} {image_links : List DivTag} {fs : Files}

/-- The body of an element that succeeds is in its file. -/
theorem Succeeds.node {fs' : Files} {i : ℕ} {body : List UInt8}
    (h : Succeeds hostOk reply cwd image_links fs i body)
    (hend : download_images hostOk reply cwd image_links fs = .finished fs') :
    fs'.node (cwd ++ [filename i]) = some (.file body) := by
  rw [node_download_images hend, h.1]
  dsimp only
  rw [node_download_self]
  exact if_pos h.2

/-- An element that does not succeed leaves its file, when it fails harmlessly. There is one case
for each outcome, and the third is the one that needs the hypothesis. -/
theorem node_of_not_succeeds {fs' : Files} {i : ℕ}
    (hend : download_images hostOk reply cwd image_links fs = .finished fs')
    (hno : ∀ body, ¬ Succeeds hostOk reply cwd image_links fs i body)
    (hcopy : ∀ sent, attempt hostOk reply image_links i = some (.copyRaises sent) →
      fs.node (cwd ++ [filename i]) = some (.file sent) ∨ ¬ fs.CanWrite (cwd ++ [filename i])) :
    fs'.node (cwd ++ [filename i]) = fs.node (cwd ++ [filename i]) := by
  rw [node_download_images hend]
  split
  · rfl
  · rename_i o ho
    rw [node_download_self]
    cases o with
    | requestRaises => rfl
    | openFails => rfl
    -- the one outcome that has changed the file
    | copyRaises sent =>
        dsimp only [Outcome.written]
        split
        · rename_i hw
          rcases hcopy sent ho with hsent | hnot
          · exact hsent.symm
          · exact absurd hw hnot
        · rfl
    | completes body =>
        dsimp only [Outcome.written]
        exact if_neg fun hw => hno body ⟨ho, hw⟩

/-- A copy that breaks off leaves what it has written. -/
theorem node_of_copyRaises {fs' : Files} {i : ℕ} {sent : List UInt8}
    (hend : download_images hostOk reply cwd image_links fs = .finished fs')
    (ho : attempt hostOk reply image_links i = some (.copyRaises sent))
    (hw : fs.CanWrite (cwd ++ [filename i])) :
    fs'.node (cwd ++ [filename i]) = some (.file sent) := by
  rw [node_download_images hend, ho]
  dsimp only
  rw [node_download_self]
  exact if_pos hw

variable (hostOk reply cwd image_links fs)

/-- **When the loop saves exactly what succeeds**: when no element is malformed, and no copy that
breaks off has changed the file it went to. Both conditions are told before the loop is run, from
the page, the outcomes and the files. -/
theorem savesExactly_iff :
    SavesExactly hostOk reply cwd image_links fs ↔
      FailsHarmlessly hostOk reply cwd image_links fs := by
  constructor
  · rintro ⟨fs', hend, -, hframe⟩
    refine ⟨loop_finished_iff.mp ⟨fs', hend⟩, fun i sent ho => ?_⟩
    by_cases hw : fs.CanWrite (cwd ++ [filename i])
    · refine Or.inl ?_
      rw [← node_of_copyRaises hend ho hw]
      refine (hframe _ fun j body hj heq => ?_).symm
      -- no other element has this file, and this one does not succeed
      rw [← path_injective heq, Succeeds, ho] at hj
      cases hj.1
    · exact Or.inr hw
  · rintro ⟨hurls, hcopy⟩
    obtain ⟨fs', hend⟩ : ∃ fs', download_images hostOk reply cwd image_links fs = .finished fs' :=
      loop_finished_iff.mpr hurls
    refine ⟨fs', hend, fun i body hi => hi.node hend, fun q hq => ?_⟩
    by_cases hpath : ∃ i, q = cwd ++ [filename i]
    · obtain ⟨i, rfl⟩ := hpath
      exact node_of_not_succeeds hend (fun body hi => hq i body hi rfl) (hcopy i)
    · exact node_download_images_of_ne hend fun i heq => hpath ⟨i, heq⟩

/-- An element without an image ends the run before the next one is looked at. -/
theorem not_savesExactly_malformed :
    ¬ SavesExactly (fun _ => true) (fun _ _ => .completes [0x89]) []
      [⟨none⟩, ⟨some ⟨some (https ++ ['/', '/', 'h', '/', 'a', '.', 'p', 'n', 'g'])⟩⟩]
      Store.empty := by
  rintro ⟨fs', hend, -⟩
  have hurls := loop_finished_iff.mp ⟨fs', hend⟩ ⟨none⟩ (by simp [num_images])
  exact hurls rfl

end VideoUploader.DownloadLoop
