/-
The image selector inside the uploader, run after run: `video-uploader.sh`, lines 39 to
106.

There the selector is a here-document, so its standard input is the program text, which
Python has read to the end before `fzf` starts. `fzf` finds an input that is no terminal
and has no line, so there is nothing to choose: every run ends in the exception that
`check_output` raises, and `image.png` stays what it was.
-/
import VideoUploader.ImageSelector

set_option autoImplicit false

namespace VideoUploader.SelectorRuns

open FileStore Url ImageUrl DownloadLoop ImageSelector

/-! ## Every end of the loop -/

/-- The files when the loop is left. -/
def loopFiles : LoopEnd → Files
  | .finished fs => fs
  | .raised fs => fs

section Loop

variable {hostOk : List Char → Bool} {reply : ℕ → List Char → Outcome} {cwd : List FileName}

/-- The loop touches its own files only, also where an element without a URL ends it. -/
theorem node_loopFiles {imgs : List DivTag} {i : ℕ} {fs : Files} {q : List FileName}
    (hq : ∀ j < imgs.length, q ≠ cwd ++ [filename (i + j)]) :
    (loopFiles (loop hostOk reply cwd i imgs fs)).node q = fs.node q := by
  induction imgs generalizing i fs with
  | nil => rfl
  | cons img imgs ih =>
      rw [loop]
      cases img.img_url hostOk with
      | none => rfl
      | some img_url =>
          dsimp only
          rw [ih]
          · exact node_download_of_ne (hq 0 (by simp))
          · intro j hj
            have hnext := hq (j + 1) (by simpa using hj)
            rwa [← Nat.add_assoc, Nat.add_right_comm] at hnext

theorem node_download_images_files {image_links : List DivTag} {fs : Files} {q : List FileName}
    (hq : ∀ i < num_images, q ≠ cwd ++ [filename i]) :
    (loopFiles (download_images hostOk reply cwd image_links fs)).node q = fs.node q := by
  apply node_loopFiles
  intro j hj
  rw [Nat.zero_add]
  rw [List.length_take] at hj
  exact hq j (by omega)

end Loop

/-! ## One run without input -/

/-- The selector as the here-document runs it: nothing is left on the standard input, and
a line that is taken in `fzf` is one it has offered. -/
structure InHeredoc (S : Session) : Prop where
  stdin : S.stdin = some []
  taken_offered : ∀ fs line, S.answer = .taken line → line ∈ S.offered fs

variable {S : Session} {fs : Files}

theorem InHeredoc.cancelled (h : InHeredoc S) : S.answer = .cancelled := by
  cases hanswer : S.answer with
  | cancelled => rfl
  | taken line =>
      -- there is no line that could have been taken
      have hoff := h.taken_offered Store.empty line hanswer
      rw [Session.offered, h.stdin] at hoff
      cases hoff

/-- Lines 26 and 27 touch `save_dir` only. -/
theorem node_makeSaveDir {fs₀ : Files} (h : S.makeSaveDir fs = some fs₀) {q : List FileName}
    (hq : q ≠ S.cwd ++ [save_dir]) : fs₀.node q = fs.node q := by
  rw [Session.makeSaveDir] at h
  split at h
  · cases h
    rfl
  · split at h
    · have hnode := @Store.node_mkdir_of_ne _ _ fs (S.cwd ++ [save_dir]) q hq
      rw [h] at hnode
      exact hnode
    · cases h

/-- **A run ends in an exception**, with its own files written and all others as they
were. -/
theorem run_inHeredoc (h : InHeredoc S) (fs : Files) :
    ∃ fs', S.run fs = .raised fs' ∧ ∀ q, q ≠ S.cwd ++ [save_dir] →
      (∀ i < num_images, q ≠ S.cwd ++ [filename i]) → fs'.node q = fs.node q := by
  rw [Session.run]
  cases hmake : S.makeSaveDir fs with
  | none => exact ⟨fs, rfl, fun _ _ _ => rfl⟩
  | some fs₀ =>
      have hloop : ∀ q, q ≠ S.cwd ++ [save_dir] → (∀ i < num_images, q ≠ S.cwd ++ [filename i]) →
          (loopFiles (S.downloads fs₀)).node q = fs.node q := by
        intro q hdir hq
        rw [Session.downloads, node_download_images_files hq, node_makeSaveDir hmake hdir]
      dsimp only
      cases hend : S.downloads fs₀ with
      | raised fs₁ =>
          rw [hend] at hloop
          exact ⟨fs₁, rfl, hloop⟩
      | finished fs₁ =>
          rw [hend] at hloop
          dsimp only
          cases S.image_files fs₁ with
          | none => exact ⟨fs₁, rfl, hloop⟩
          | some _ =>
              refine ⟨fs₁, ?_, hloop⟩
              show S.select fs₁ = _
              rw [Session.select, Session.selected_file, Session.check_output, h.cancelled]
              rfl

/-! ## Run after run -/

/-- Runs one after another, with how each ends. -/
def runAll : List Session → Files → List RunEnd × Files
  | [], fs => ([], fs)
  | S :: rest, fs =>
      let e := S.run fs
      let y := runAll rest e.files
      (e :: y.1, y.2)

/-- No run of the sequence chooses anything. -/
structure ChoosesNothing (cwd : List FileName) (sessions : List Session) (fs : Files) : Prop where
  ends : ∀ e ∈ (runAll sessions fs).1, ∃ fs', e = .raised fs'
  kept : ∀ q, q ≠ cwd ++ [save_dir] → (∀ i < num_images, q ≠ cwd ++ [filename i]) →
    (runAll sessions fs).2.node q = fs.node q
  image_kept : (runAll sessions fs).2.node (cwd ++ [image_png]) = fs.node (cwd ++ [image_png])

/-- **In the uploader no image is ever selected**, in any sequence of runs, whatever is
downloaded and whatever stands in the directories. -/
theorem choosesNothing (cwd : List FileName) (sessions : List Session) (fs : Files)
    (h : ∀ S ∈ sessions, InHeredoc S ∧ S.cwd = cwd) : ChoosesNothing cwd sessions fs := by
  have hkept : (∀ e ∈ (runAll sessions fs).1, ∃ fs', e = .raised fs') ∧
      ∀ q, q ≠ cwd ++ [save_dir] → (∀ i < num_images, q ≠ cwd ++ [filename i]) →
        (runAll sessions fs).2.node q = fs.node q := by
    induction sessions generalizing fs with
    | nil =>
        constructor
        · intro e he
          cases he
        · exact fun _ _ _ => rfl
    | cons S rest ih =>
        obtain ⟨hdoc, rfl⟩ := h S List.mem_cons_self
        obtain ⟨fs', hrun, hnode⟩ := run_inHeredoc hdoc fs
        obtain ⟨hends, hrest⟩ := ih fs' fun S' hS' => h S' (List.mem_cons_of_mem S hS')
        rw [runAll, hrun]
        constructor
        · intro e he
          rcases List.mem_cons.mp he with rfl | he
          · exact ⟨fs', rfl⟩
          · exact hends e he
        · intro q hdir hq
          exact (hrest q hdir hq).trans (hnode q hdir hq)
  refine ⟨hkept.1, hkept.2, hkept.2 _ ?_ ?_⟩
  · intro heq
    exact absurd (List.singleton_inj.mp (List.append_cancel_left heq)) (by decide)
  · intro i _ heq
    exact Session.filename_ne_image_png i (List.singleton_inj.mp (List.append_cancel_left heq)).symm

/-- One image is downloaded, and `fzf` has nothing to offer. -/
def heredocSession : Session := { freshSession with stdin := some [], answer := .cancelled }

theorem inHeredoc_heredocSession : InHeredoc heredocSession :=
  ⟨rfl, fun _ _ hline => by cases hline⟩

theorem choosesNothing_twice :
    ChoosesNothing [] [heredocSession, heredocSession] Store.empty := by
  apply choosesNothing
  intro S hS
  simp only [List.mem_cons, List.not_mem_nil, or_false, or_self] at hS
  rw [hS]
  exact ⟨inHeredoc_heredocSession, rfl⟩

end VideoUploader.SelectorRuns
