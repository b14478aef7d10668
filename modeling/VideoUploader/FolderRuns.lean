/-
Runs of the uploader, as far as they touch files: `video-uploader.sh`, lines 178 to 206.

A run makes the folder of its title, without looking whether that worked, and copies
four things into it by force: the banner and the cover, which it makes in its working
directory and removes there again, and the two clips that stand beside the folders.
Every one of the commands can fail by itself, for reasons that the files do not show: a
name may be too long, the disk full, the place somebody else's. So what `convert` and
`composite` produce, whether `mkdir` and `rm` get through, and what `cp` is allowed to
write, is left open. The copies of a sequence of runs are recorded with the files before
and after each.
-/
import VideoUploader.VideoFolder

set_option autoImplicit false

namespace VideoUploader.FolderRuns

open Bash Utf8 FileStore VideoTitle VideoFolder

/-! ## One run -/

def news_banner_png : FolderName :=
  Name.ofText (encode ['n', 'e', 'w', 's', '_', 'b', 'a', 'n', 'n', 'e', 'r', '.', 'p', 'n', 'g'])
    (by decide)

def video_cover_png : FolderName :=
  Name.ofText (encode ['v', 'i', 'd', 'e', 'o', '_', 'c', 'o', 'v', 'e', 'r', '.', 'p', 'n', 'g'])
    (by decide)

def inclip_mp4 : FolderName :=
  Name.ofText (encode ['i', 'n', 'c', 'l', 'i', 'p', '.', 'm', 'p', '4']) (by decide)

def outclip_mp4 : FolderName :=
  Name.ofText (encode ['o', 'u', 't', 'c', 'l', 'i', 'p', '.', 'm', 'p', '4']) (by decide)

/-- Where the script is run. -/
structure Site where
  videosavelocation : List FolderName
  cwd : List FolderName

/-- One run: its title, the images `convert` and `composite` write where they succeed,
whether `mkdir` may make the folder, the paths `cp` may write, and whether `rm` may remove
what it is to remove. -/
structure Run where
  title : Title
  banner : Option Bytes
  cover : Option Bytes
  overlaid : Option Bytes
  makes : Bool
  allowed : List FolderName → Bool
  removes : Bool

inductive Command where
  | mkdir
  | draw (name : FolderName) (image : Option Bytes)
  | copy (src : List FolderName)
  | rm (name : FolderName)

/-- One forced copy, with the files before and after it. -/
structure Copied where
  title : Title
  before : Files
  after : Files

variable (site : Site)

/-- Lines 178 to 206, in order. -/
def commands (r : Run) : List Command :=
  [.mkdir,
   .draw news_banner_png r.banner,
   .copy (site.cwd ++ [news_banner_png]),
   .rm news_banner_png,
   .draw video_cover_png r.cover,
   .draw video_cover_png r.overlaid,
   .copy (site.cwd ++ [video_cover_png]),
   .rm video_cover_png,
   .copy (site.videosavelocation ++ [inclip_mp4]),
   .copy (site.videosavelocation ++ [outclip_mp4])]

/-- Where `"$videosavelocation/$titlefolder"` leads. -/
def folder (fs : Files) (t : Title) : Option (List FolderName) :=
  walk fs site.videosavelocation ((titlefolder t).splitOn (byte '/'))

/-- `cp -a -r -f -v src "$videosavelocation/$titlefolder"`. -/
def copyInto (r : Run) (src : List FolderName) (fs : Files) : Files :=
  match folder site fs r.title with
  | none => fs
  | some dst => fs.cp r.allowed src dst

/-- What a command leaves, and the copies it makes. -/
def exec (r : Run) : Command → Files → Files × List Copied
  | .mkdir, fs =>
      (if r.makes then ((folder site fs r.title).bind fun p => fs.mkdir p).getD fs else fs, [])
  | .draw name image, fs => ((image.bind fun b => fs.write (site.cwd ++ [name]) b).getD fs, [])
  | .copy src, fs => (copyInto site r src fs, [⟨r.title, fs, copyInto site r src fs⟩])
  | .rm name, fs => (if r.removes then fs.rm (site.cwd ++ [name]) else fs, [])

def execAll (r : Run) : List Command → Files → Files × List Copied
  | [], fs => (fs, [])
  | c :: cs, fs =>
      let x := exec site r c fs
      let y := execAll r cs x.1
      (y.1, x.2 ++ y.2)

/-- Runs one after another. -/
def runAll : List Run → Files → Files × List Copied
  | [], fs => (fs, [])
  | r :: rs, fs =>
      let x := execAll site r (commands site r) fs
      let y := runAll rs x.1
      (y.1, x.2 ++ y.2)

/-! ## What holds of every copy -/

variable {site}

theorem forall_mem_execAll {P : Copied → Prop} {r : Run}
    (h : ∀ src fs, P ⟨r.title, fs, copyInto site r src fs⟩) (cs : List Command) (fs : Files) :
    ∀ c ∈ (execAll site r cs fs).2, P c := by
  induction cs generalizing fs with
  | nil => simp [execAll]
  | cons cmd cs ih =>
      intro c hc
      rw [execAll, List.mem_append] at hc
      rcases hc with hc | hc
      · cases cmd with
        | copy src =>
            rw [List.mem_singleton.mp hc]
            exact h src fs
        | _ => cases hc
      · exact ih _ c hc

/-- A property that each copy has by itself, all copies of a sequence of runs have. -/
theorem forall_mem_runAll {P : Copied → Prop} {runs : List Run}
    (h : ∀ r ∈ runs, ∀ src fs, P ⟨r.title, fs, copyInto site r src fs⟩) (fs : Files) :
    ∀ c ∈ (runAll site runs fs).2, P c := by
  induction runs generalizing fs with
  | nil => simp [runAll]
  | cons r rs ih =>
      intro c hc
      rw [runAll, List.mem_append] at hc
      rcases hc with hc | hc
      · exact forall_mem_execAll (h r List.mem_cons_self) _ _ c hc
      · exact ih (fun r' hr' => h r' (List.mem_cons_of_mem r hr')) _ c hc

/-- The folder of a title that names a child. -/
theorem folder_of_directChild {t : Title} (h : DirectChild (titlefolder t)) (fs : Files) :
    folder site fs t = none ∨
      folder site fs t = some (site.videosavelocation ++ [Name.ofText (titlefolder t) h]) := by
  have hsplit : (titlefolder t).splitOn (byte '/') = [(Name.ofText (titlefolder t) h).chars] :=
    List.splitOn_eq_singleton h.2.1
  rw [folder, hsplit]
  by_cases hloc : fs.node site.videosavelocation = some .dir
  · exact Or.inr (walk_name hloc _)
  · exact Or.inl (by rw [walk, if_pos hloc])

/-- **One copy keeps to the folder**: a path it changes is at or below the folder of its
title. -/
theorem node_copyInto {r : Run} (h : DirectChild (titlefolder r.title)) {src p : List FolderName}
    {fs : Files}
    (hp : ¬ site.videosavelocation ++ [Name.ofText (titlefolder r.title) h] <+: p) :
    (copyInto site r src fs).node p = fs.node p := by
  rw [copyInto]
  rcases @folder_of_directChild site _ h fs with hfolder | hfolder
  · rw [hfolder]
  · rw [hfolder]
    exact Store.node_cp_of_not_prefix hp

/-! ## The folders of different titles -/

variable (site)

/-- A copy writes below children of `videosavelocation` only, and leaves the folders of
the runs with other titles alone. -/
structure KeepsApart (runs : List Run) (c : Copied) : Prop where
  own_children : ∀ p, c.after.node p ≠ c.before.node p →
    ∃ n, site.videosavelocation ++ [n] <+: p
  others_kept : ∀ r ∈ runs, r.title ≠ c.title → ∀ n : FolderName, n.chars = titlefolder r.title →
    ∀ p, site.videosavelocation ++ [n] <+: p → c.after.node p = c.before.node p

variable {site}

theorem keepsApart_copyInto {runs : List Run} {r : Run} (h : NamesChild (decoded r.title))
    (hapart : ∀ r' ∈ runs, r'.title ≠ r.title → ¬ SameName (decoded r'.title) (decoded r.title))
    (src : List FolderName) (fs : Files) :
    KeepsApart site runs ⟨r.title, fs, copyInto site r src fs⟩ := by
  have hchild : DirectChild (titlefolder r.title) := (directChild_iff r.title).mpr h
  constructor
  · intro p hp
    by_contra hno
    exact hp (node_copyInto hchild fun hpre => hno ⟨_, hpre⟩)
  · intro r' hr' hne n hn p hp
    refine node_copyInto hchild fun hpre => ?_
    -- two names of one length at the front of `p` are one name
    have hnames : site.videosavelocation ++ [n] =
        site.videosavelocation ++ [Name.ofText (titlefolder r.title) hchild] :=
      (List.prefix_of_prefix_length_le hp hpre (by simp)).eq_of_length (by simp)
    have heq := List.singleton_inj.mp (List.append_cancel_left hnames)
    refine hapart r' hr' hne ((titlefolder_eq_iff _ _).mp ?_)
    rw [← hn, heq]
    rfl

/-- **Folders of videos.** A title's folder is a child of `videosavelocation` exactly when
what is shown of the title names one; two titles have one folder exactly when the same
is shown of them, up to what is lost; and in every sequence of runs whose titles name
children, and different ones where they differ, every copy keeps to its folder. -/
theorem folders_apart (site : Site) :
    (∀ t, DirectChild (titlefolder t) ↔ NamesChild (decoded t)) ∧
      (∀ t t', titlefolder t = titlefolder t' ↔ SameName (decoded t) (decoded t')) ∧
      ∀ runs fs, (∀ r ∈ runs, NamesChild (decoded r.title)) →
        (∀ r ∈ runs, ∀ r' ∈ runs, r'.title ≠ r.title →
          ¬ SameName (decoded r'.title) (decoded r.title)) →
        ∀ c ∈ (runAll site runs fs).2, KeepsApart site runs c := by
  refine ⟨directChild_iff, titlefolder_eq_iff, fun runs fs hchild hapart => ?_⟩
  exact forall_mem_runAll (fun r hr src fs' =>
    keepsApart_copyInto (hchild r hr) (hapart r hr) src fs') fs

/-- A run on a title in which nothing fails. -/
def plainRun (t : Title) : Run where
  title := t
  banner := some [0x89]
  cover := some [0x89]
  overlaid := some [0x89]
  makes := true
  allowed := fun _ => true
  removes := true

/-- Two runs, for `a` and for `b`. -/
theorem folders_apart_a_b :
    let runs := [plainRun (Title.ofBytes (encode ['a']) (by decide)),
      plainRun (Title.ofBytes (encode ['b']) (by decide))]
    ∀ c ∈ (runAll ⟨[], []⟩ runs Store.empty).2, KeepsApart ⟨[], []⟩ runs c := by
  intro runs
  refine (folders_apart ⟨[], []⟩).2.2 runs Store.empty ?_ ?_
  · intro r hr
    rw [← (folders_apart ⟨[], []⟩).1, titlefolder_eq]
    simp only [runs, List.mem_cons, List.not_mem_nil, or_false] at hr
    rcases hr with rfl | rfl <;> decide
  · intro r hr r' hr' hne
    rw [← (folders_apart ⟨[], []⟩).2.1, titlefolder_eq, titlefolder_eq]
    simp only [runs, List.mem_cons, List.not_mem_nil, or_false] at hr hr'
    rcases hr with rfl | rfl <;> rcases hr' with rfl | rfl
    · exact absurd rfl hne
    · decide
    · decide
    · exact absurd rfl hne

/-- The title `..`. -/
def dotsTitle : Title := Title.ofBytes (encode ['.', '.']) (by decide)

/-- The folder of `..` is no child of `videosavelocation`: it is the directory above. -/
theorem not_directChild_dotsTitle : ¬ DirectChild (titlefolder dotsTitle) := by
  rw [titlefolder_eq]
  decide

end VideoUploader.FolderRuns
