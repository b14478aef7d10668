/-
Runs of the uploader from what is typed to the folder: `video-uploader.sh`, lines 22 to
206.

The title and the type of the tutorial are typed. A type that is none ends the script
before anything is done. After that nothing is looked at any more: the selector, the poster,
`convert` and `cp` each may fail, and the next one is started all the same. For a title of
ordinary characters all of them mean the same by it: the folder is filled with images that
show the title, and a post that is made has the title and leads to the folder.
-/
import VideoUploader.FolderContents
import VideoUploader.PostLinks
import VideoUploader.PosterSite
import VideoUploader.SelectorRuns
import VideoUploader.TitleImages

set_option autoImplicit false

namespace VideoUploader.Uploader

open Bash Utf8 Posix FileStore Expansion VideoTitle VideoFolder FolderRuns FolderContents
  PosterHeredoc PosterRun TitleImages

/-! ## What is typed -/

/-- A space or a tab. -/
def isBlank (b : UInt8) : Bool := decide (b = byte ' ' ∨ b = byte '\t')

def isNewline (b : UInt8) : Bool := decide (b = byte '\n')

/-- `read -r` with one name: a line without its NUL bytes and the blanks at its ends, and
the input behind the line. -/
def readLine (input : Bytes) : Bytes × Bytes :=
  (trim isBlank ((input.takeWhile fun b => !isNewline b).filter fun b => decide (b ≠ 0)),
    (input.dropWhile fun b => !isNewline b).drop 1)

theorem notBlank_iff {b : Option UInt8} : NotBlank b ↔ ∀ c ∈ b, isBlank c = false := by
  cases b with
  | none => simp [NotBlank]
  | some c => simp [NotBlank, isBlank]

theorem storable_readLine (input : Bytes) : Storable (readLine input).1 := by
  have hmem : ∀ b ∈ (readLine input).1, isNewline b = false ∧ b ≠ 0 := by
    intro b hb
    have hline := List.mem_filter.mp (mem_of_mem_trim hb)
    have hnl := List.mem_takeWhile_imp hline.1
    rw [Bool.not_eq_true'] at hnl
    exact ⟨hnl, of_decide_eq_true hline.2⟩
  refine ⟨fun h => ?_, fun h => (hmem _ h).2 rfl, ?_, ?_⟩
  · exact absurd (hmem _ h).1 (by decide)
  · exact notBlank_iff.mpr head?_trim
  · exact notBlank_iff.mpr getLast?_trim

/-- Line 23. -/
def readTitle (input : Bytes) : Title := Title.ofBytes _ (storable_readLine input)

def video_cover_micro_png : FolderName :=
  Name.ofText (encode ['v', 'i', 'd', 'e', 'o', '_', 'c', 'o', 'v', 'e', 'r', '_', 'm', 'i', 'c', 'r',
    'o', '.', 'p', 'n', 'g']) (by decide)

def video_cover_full_png : FolderName :=
  Name.ofText (encode ['v', 'i', 'd', 'e', 'o', '_', 'c', 'o', 'v', 'e', 'r', '_', 'f', 'u', 'l', 'l',
    '.', 'p', 'n', 'g']) (by decide)

def video_cover_fix_png : FolderName :=
  Name.ofText (encode ['v', 'i', 'd', 'e', 'o', '_', 'c', 'o', 'v', 'e', 'r', '_', 'f', 'i', 'x', '.',
    'p', 'n', 'g']) (by decide)

/-- Lines 27 to 36: the cover for the type of the tutorial. With any other answer the script
ends. -/
def typeoftutorial (selecttuttype : Bytes) : Option FolderName :=
  if selecttuttype = [byte '1'] then some video_cover_micro_png
  else if selecttuttype = [byte '2'] then some video_cover_full_png
  else if selecttuttype = [byte '3'] then some video_cover_fix_png
  else none

/-! ## The texts on the images -/

/-- `text 220,100 `. -/
def linkPosition : Bytes :=
  encode ['t', 'e', 'x', 't', ' ', '2', '2', '0', ',', '1', '0', '0', ' ']

/-- `'text 220,100 "'"$text"'"'`. -/
def linkCommand (t : Title) : Bytes := linkPosition ++ byte '"' :: (text t ++ [byte '"'])

/-- ImageMagick, with the pictures and fonts it finds: how it reads the texts on the banner
and on the cover, and what it writes, if it does. -/
structure Magick where
  bannerReader : Reader
  coverReader : Reader
  banner : List Primitive → Option Bytes
  cover : FolderName → Text → Option Bytes
  composite : Option Bytes → Option Bytes

/-- Escapes begin with a backslash, a percent sign or an ampersand, and nothing follows a
draw command that has ended. -/
structure Marked (r : Reader) : Prop where
  marks : ∀ prev b s, r.escape prev (b :: s) ≠ none → b = byte '\\' ∨ b = byte '%' ∨ b = byte '&'
  nothing : r.primitives [] = []

section

variable {r : Reader} {bs : Bytes}

theorem Marked.plain (h : Marked r) (hbs : ∀ b ∈ bs, b ≠ byte '\\' ∧ b ≠ byte '%' ∧ b ≠ byte '&')
    (prev : Option UInt8) : Plain r.escape prev bs := by
  induction bs generalizing prev with
  | nil => trivial
  | cons b bs ih =>
      constructor
      · by_contra hesc
        obtain ⟨hbackslash, hpercent, hamp⟩ := hbs b List.mem_cons_self
        rcases h.marks prev b bs hesc with heq | heq | heq
        · exact hbackslash heq
        · exact hpercent heq
        · exact hamp heq
      · exact ih (fun c hc => hbs c (List.mem_cons_of_mem b hc)) (some b)

end

/-! ## Sessions -/

/-- The names in the working directory that the selector touches when it runs in a
here-document. -/
def SelectorName (n : FolderName) : Prop :=
  n = ImageSelector.save_dir ∨ ∃ i < DownloadLoop.num_images, n = DownloadLoop.filename i

/-- One start of the script: what is typed, what the selector meets, ImageMagick, whether
`mkdir` may make the folder, the paths `cp` may write, and whether `rm` may remove. The
selector runs in the working directory of the script, from a here-document. -/
structure Session (place : FolderRuns.Site) where
  input : Bytes
  selector : ImageSelector.Session
  selector_cwd : selector.cwd = place.cwd
  in_heredoc : SelectorRuns.InHeredoc selector
  magick : Magick
  makes : Bool
  allowed : List FolderName → Bool
  removes : Bool

/-- The files the poster can open: it asks for one only, in the working directory. -/
def opened (place : FolderRuns.Site) (fs : Files) (name : Python.Str) : Option Bytes :=
  if name = coverName then
    match fs.node (place.cwd ++ [video_cover_fix_png]) with
    | some (.file bytes) => some bytes
    | _ => none
  else none

namespace Session

variable {place : FolderRuns.Site} (E : Session place)

def title : Title := readTitle E.input

/-- The file of the cover, unless the script ends at line 35. -/
def cover : Option FolderName := typeoftutorial (readLine (readLine E.input).2).1

/-- Lines 38 to 106: the files the selector leaves. -/
def selected (fs : Files) : Files := (E.selector.run fs).files

/-- Lines 178 to 206, with the images as ImageMagick makes them. -/
def folderRun (cover : FolderName) : FolderRuns.Run :=
  let image := E.magick.cover cover (E.magick.coverReader.text (coverText E.title))
  { title := E.title
    banner := E.magick.banner (E.magick.bannerReader.draw (drawCommand E.title) ++
      E.magick.bannerReader.draw (linkCommand E.title))
    cover := image
    overlaid := E.magick.composite image
    makes := E.makes
    allowed := E.allowed
    removes := E.removes }

variable {S : Type} (site : PosterSite.Site S) (names : List Char → Option ℕ) (pw : AppPassword)

/-- Lines 113 to 176, on the files the selector has left. -/
def poster (fs : Files) : PosterSite.Run := ⟨E.title, pw, opened place (E.selected fs)⟩

/-- Lines 22 to 206: the files and the site behind them. -/
def run (fs : Files) (s : S) : Files × S :=
  match E.cover with
  | none => (fs, s)
  | some cover =>
      ((execAll place (E.folderRun cover) (commands place (E.folderRun cover)) (E.selected fs)).1,
        ((E.poster pw fs).world site names s).site)

/-- Sessions one after another. -/
def runAll : List (Session place) → Files → S → Files × S
  | [], fs, s => (fs, s)
  | E :: rest, fs, s =>
      let x := E.run site names pw fs s
      runAll rest x.1 x.2

end Session

/-! ## Plain titles -/

/-- The characters that python3, ImageMagick or HTML gives a meaning of its own. -/
def specials : List Char := ['\'', '"', '\\', '%', '&', '<', '\r']

/-- A title that all parts of the script read as it is. Slashes and dots are a matter of the
folder. -/
structure PlainTitle (t : Title) : Prop where
  readable : ∃ cs, encode cs = t.bytes
  ordinary : ∀ c ∈ specials, byte c ∉ t.bytes
  no_file : t.bytes.head? ≠ some (byte '@')

section

variable {t : Title}

/-- Its characters, and that they are clean. -/
theorem PlainTitle.exists_chars (h : PlainTitle t) :
    ∃ cs, encode cs = t.bytes ∧ CleanText cs ∧ '<' ∉ cs ∧ '"' ∉ cs ∧ '%' ∉ cs ∧ '&' ∉ cs ∧
      '\\' ∉ cs := by
  obtain ⟨cs, hcs⟩ := h.readable
  have hnot : ∀ c : Char, IsAscii c → c ∈ specials → c ∉ cs := by
    intro c hascii hc hmem
    exact h.ordinary c hc (hcs ▸ (byte_mem_encode_iff hascii).mpr hmem)
  have hbackslash := hnot '\\' (by decide) (by decide)
  refine ⟨cs, hcs, ⟨Python.noEscape_of_not_mem hbackslash, hnot _ (by decide) (by decide),
    hnot _ (by decide) (by decide)⟩, hnot _ (by decide) (by decide), hnot _ (by decide) (by decide),
    hnot _ (by decide) (by decide), hnot _ (by decide) (by decide), hbackslash⟩

theorem PlainTitle.clean (h : PlainTitle t) : Clean t := by
  obtain ⟨cs, hcs, hclean, -⟩ := h.exists_chars
  exact ⟨cs, hcs, hclean⟩

end

namespace Session

variable {place : FolderRuns.Site} (E : Session place)

variable {E}

end Session

/-! ## The selector in front of a run -/

/-- The names of the selector begin as `images` or `gentoo` does. -/
theorem SelectorName.take {n : FolderName} (h : SelectorName n) :
    n.chars.take 2 = [byte 'i', byte 'm'] ∨ n.chars.take 2 = [byte 'g', byte 'e'] := by
  rcases h with rfl | ⟨i, -, rfl⟩
  · exact Or.inl (by decide)
  · have hname : (DownloadLoop.filename i).chars =
        encode (DownloadLoop.first_word ++ ('_' :: (Nat.toDigits 10 (i + 1) ++
          '.' :: DownloadLoop.file_type))) := rfl
    rw [hname, DownloadLoop.first_word_eq]
    exact Or.inr rfl

section

variable {place : FolderRuns.Site} {E : Session place} {fs : Files} {n : FolderName}

end

/-! ## What a session leaves -/

section

variable {place : FolderRuns.Site} {E : Session place} {fs fs' : Files} {n n' : FolderName}

end

/-! ## Session after session -/

namespace Session

section

variable {place : FolderRuns.Site} {S : Type} {site : PosterSite.Site S}
  {names : List Char → Option ℕ} {pw : AppPassword} {E : Session place}
  {sessions : List (Session place)} {fs : Files} {s : S}

/-- The post of a session, with the image `media_id`. -/
def post (pw : AppPassword) (E : Session place) (media_id : Python.Json) : Python.Json :=
  PosterSite.Run.post ⟨E.title, pw, fun _ => none⟩ media_id

end

end Session

end VideoUploader.Uploader
