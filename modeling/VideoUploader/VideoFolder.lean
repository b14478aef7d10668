/-
The folder of a video and what is copied into it: `video-uploader.sh`, lines 109 and
178 to 206.

The folder is named by what `echo -e` and `sed` leave of the title, so different
titles can have one folder, and a title can name a folder elsewhere or none at all.
`mkdir` is not checked, and the copies are forced. This file says which titles name
a folder of their own, and that the runs for such titles keep to it.
-/
import VideoUploader.FileStore
import VideoUploader.VideoTitle

set_option autoImplicit false

namespace VideoUploader.VideoFolder

open Bash Utf8 Posix FileStore VideoTitle

/-- Names of directories, which are bytes. -/
abbrev FolderName := Name (byte '/') (byte '.')

abbrev Files := Store FolderName

/-! ## The name of the folder -/

/-- A folder that is a child of the directory it is looked up in. -/
abbrev DirectChild (folder : Bytes) : Prop := IsName (byte '/') (byte '.') folder

/-- What is shown of a title names a child: something is left of it, it has no slash,
and it is not one or two dots. -/
structure NamesChild (bs : Bytes) : Prop where
  something : ∃ b ∈ bs, b ≠ 0 ∧ b ≠ byte '\n'
  no_slash : byte '/' ∉ bs
  not_dot : ∀ k, bs.filter (fun b => decide (b ≠ 0)) ≠ byte '.' :: List.replicate k (byte '\n')
  not_dotdot : ∀ k, bs.filter (fun b => decide (b ≠ 0)) ≠
    byte '.' :: byte '.' :: List.replicate k (byte '\n')

/-- Bytes `sed` does not tell apart: a space and an underscore, or the same. -/
def Alike (b c : UInt8) : Prop :=
  b = c ∨ (b = byte ' ' ∧ c = byte '_') ∨ (b = byte '_' ∧ c = byte ' ')

/-- Two texts that become one folder: byte for byte alike, but for NUL bytes anywhere
and newlines at the end. -/
inductive SameName : Bytes → Bytes → Prop where
  | blank {bs cs : Bytes} (hb : ∀ b ∈ bs, b = 0 ∨ b = byte '\n')
      (hc : ∀ c ∈ cs, c = 0 ∨ c = byte '\n') : SameName bs cs
  | nulLeft {bs cs : Bytes} (h : SameName bs cs) : SameName (0 :: bs) cs
  | nulRight {bs cs : Bytes} (h : SameName bs cs) : SameName bs (0 :: cs)
  | cons {b c : UInt8} {bs cs : Bytes} (hbc : Alike b c) (h : SameName bs cs) :
      SameName (b :: bs) (c :: cs)

/-- They are those that become one. -/
theorem underscore_eq_iff {b c : UInt8} : underscore b = underscore c ↔ Alike b c := by
  have hne : byte ' ' ≠ byte '_' := by decide
  unfold underscore Alike
  by_cases hb : b = byte ' '
  · by_cases hc : c = byte ' '
    · rw [if_pos hb, if_pos hc]
      exact iff_of_true rfl (Or.inl (hb.trans hc.symm))
    · rw [if_pos hb, if_neg hc]
      constructor
      · intro h
        exact Or.inr (Or.inl ⟨hb, h.symm⟩)
      · rintro (h | h | h)
        · exact absurd (h ▸ hb) hc
        · exact h.2.symm
        · exact absurd h.2 hc
  · by_cases hc : c = byte ' '
    · rw [if_neg hb, if_pos hc]
      constructor
      · intro h
        exact Or.inr (Or.inr ⟨h, hc⟩)
      · rintro (h | h | h)
        · exact absurd (h.trans hc) hb
        · exact absurd h.1 hb
        · exact h.1
    · rw [if_neg hb, if_neg hc]
      simp [hb, hc]

/-- `sed` makes no byte but underscores. -/
theorem underscore_eq_of_ne {b d : UInt8} (hd : d ≠ byte '_') (hd' : d ≠ byte ' ') :
    underscore b = d ↔ b = d := by
  unfold underscore
  split
  · rename_i hb
    rw [hb]
    exact ⟨fun h => absurd h.symm hd, fun h => absurd h.symm hd'⟩
  · rfl

/-! ## `fileName`, byte by byte -/

/-- Dropping from the end, told from the front: the first letter goes only when all behind it has
gone. -/
theorem rdropWhile_cons {α : Type*} (p : α → Bool) (a : α) (l : List α) :
    (a :: l).rdropWhile p = if l.rdropWhile p = [] ∧ p a = true then [] else a :: l.rdropWhile p := by
  induction l using List.reverseRecOn with
  | nil => simp [List.rdropWhile_singleton]
  | append_singleton l x ih =>
      rw [← List.cons_append]
      by_cases hx : p x = true
      · rw [List.rdropWhile_concat_pos _ _ _ hx, List.rdropWhile_concat_pos _ _ _ hx, ih]
      · rw [List.rdropWhile_concat_neg _ _ _ hx, List.rdropWhile_concat_neg _ _ _ hx]
        simp

/-- A NUL is lost wherever it stands. -/
theorem fileName_nul (bs : Bytes) : fileName (0 :: bs) = fileName bs := by
  have h0 : underscore 0 = 0 := by decide
  simp [fileName, h0]

/-- Any other byte stays, unless it is one of the newlines at the end. -/
theorem fileName_cons {b : UInt8} (hb : b ≠ 0) (bs : Bytes) :
    fileName (b :: bs) =
      if fileName bs = [] ∧ b = byte '\n' then [] else underscore b :: fileName bs := by
  have hu : underscore b ≠ 0 := fun h => hb ((underscore_eq_of_ne (by decide) (by decide)).mp h)
  have hnl : underscore b = byte '\n' ↔ b = byte '\n' :=
    underscore_eq_of_ne (by decide) (by decide)
  unfold fileName
  rw [List.map_cons, List.filter_cons, if_pos (by simpa using hu), rdropWhile_cons]
  simp only [decide_eq_true_eq, hnl]

/-- Nothing is left of NUL bytes and newlines, and of nothing else. -/
theorem fileName_eq_nil_iff {bs : Bytes} :
    fileName bs = [] ↔ ∀ b ∈ bs, b = 0 ∨ b = byte '\n' := by
  induction bs with
  | nil => simp [fileName]
  | cons b bs ih =>
      rw [List.forall_mem_cons, ← ih]
      by_cases hb : b = 0
      · rw [hb, fileName_nul]
        simp
      · rw [fileName_cons hb]
        by_cases hbs : fileName bs = []
        · simp [hbs, hb]
        · simp [hbs]

/-- The folder has a slash only where what was shown has one. -/
theorem slash_mem_fileName_iff (bs : Bytes) : byte '/' ∈ fileName bs ↔ byte '/' ∈ bs := by
  induction bs with
  | nil => simp [fileName]
  | cons b bs ih =>
      by_cases hb : b = 0
      · have h0 : byte '/' ≠ 0 := by decide
        rw [hb, fileName_nul, List.mem_cons]
        simp [h0, ih]
      · have hu : byte '/' = underscore b ↔ byte '/' = b := by
          rw [eq_comm, underscore_eq_of_ne (by decide) (by decide), eq_comm]
        have hslash : byte '/' ≠ byte '\n' := by decide
        rw [fileName_cons hb, List.mem_cons]
        split
        · rename_i h
          simp [← ih, h.1, h.2, hslash]
        · rw [List.mem_cons, hu]
          simp [ih]

/-- The NUL bytes go before the spaces do. What remains is a text letter by letter, without its
newlines at the end. -/
theorem fileName_eq (bs : Bytes) :
    fileName bs = ((bs.filter fun b => decide (b ≠ 0)).map underscore).rdropWhile
      fun b => decide (b = byte '\n') := by
  have hcomp : ((fun b : UInt8 => decide (b ≠ 0)) ∘ underscore) = fun b => decide (b ≠ 0) := by
    funext b
    have hb : underscore b = 0 ↔ b = 0 := underscore_eq_of_ne (by decide) (by decide)
    simp [hb]
  rw [fileName, List.filter_map, hcomp]

/-- Where no space is, nothing is changed. -/
theorem map_underscore_eq_self {f : Bytes} (h : byte ' ' ∉ f) : f.map underscore = f := by
  refine (List.map_congr_left fun b hb => ?_).trans (List.map_id f)
  exact if_neg (fun hbs : b = byte ' ' => h (hbs ▸ hb))

/-- A folder without underscores is what was shown, but for the NUL bytes and the
newlines at the end. -/
theorem fileName_eq_iff {bs f : Bytes} (hunder : byte '_' ∉ f) (hspace : byte ' ' ∉ f)
    (hnl : byte '\n' ∉ f) :
    fileName bs = f ↔
      ∃ k, bs.filter (fun b => decide (b ≠ 0)) = f ++ List.replicate k (byte '\n') := by
  rw [fileName_eq]
  generalize bs.filter (fun b => decide (b ≠ 0)) = g
  have hreplicate : ∀ k, (List.replicate k (byte '\n')).map underscore =
      List.replicate k (byte '\n') := fun k =>
    map_underscore_eq_self fun h => absurd (List.eq_of_mem_replicate h) (by decide)
  constructor
  · intro h
    have hsplit := List.rdropWhile_append_rtakeWhile (p := fun b => decide (b = byte '\n'))
      (l := g.map underscore)
    rw [h] at hsplit
    have htake : ∀ b ∈ (g.map underscore).rtakeWhile (fun b => decide (b = byte '\n')),
        b = byte '\n' := fun b hb => by simpa using List.mem_rtakeWhile_imp hb
    rw [List.eq_replicate_of_mem htake] at hsplit
    obtain ⟨k, hk⟩ : ∃ k, g.map underscore = f ++ List.replicate k (byte '\n') :=
      ⟨_, hsplit.symm⟩
    -- no byte of the result is an underscore, so none was changed
    have hspaces : byte ' ' ∉ g := by
      intro hmem
      have hmem' : byte '_' ∈ g.map underscore := List.mem_map.mpr ⟨_, hmem, by decide⟩
      rw [hk, List.mem_append] at hmem'
      rcases hmem' with h | h
      · exact hunder h
      · exact absurd (List.eq_of_mem_replicate h) (by decide)
    exact ⟨k, by rw [← hk, map_underscore_eq_self hspaces]⟩
  · rintro ⟨k, rfl⟩
    rw [List.map_append, hreplicate, map_underscore_eq_self hspace]
    induction k with
    | zero =>
        rw [List.replicate_zero, List.append_nil, List.rdropWhile_eq_self_iff]
        intro hne hlast
        exact hnl (of_decide_eq_true hlast ▸ List.getLast_mem hne)
    | succ k ih =>
        rw [List.replicate_succ', ← List.append_assoc, List.rdropWhile_concat_pos _ _ _ (by simp), ih]

/-! ## Which titles name a folder of their own -/

/-- **When the folder of a title is a child** of `videosavelocation`: when what is shown names
something there, and is neither of the two names that lead elsewhere. -/
theorem directChild_iff (t : Title) : DirectChild (titlefolder t) ↔ NamesChild (decoded t) := by
  have hdot := @fileName_eq_iff (decoded t) [byte '.'] (by decide) (by decide) (by decide)
  have hdots := @fileName_eq_iff (decoded t) [byte '.', byte '.'] (by decide) (by decide) (by decide)
  rw [titlefolder_eq]
  constructor
  · rintro ⟨hne, hslash, h1, h2⟩
    refine ⟨?_, fun h => hslash ((slash_mem_fileName_iff _).mpr h), ?_, ?_⟩
    · by_contra hno
      refine hne (fileName_eq_nil_iff.mpr fun b hb => ?_)
      by_contra hb'
      exact hno ⟨b, hb, not_or.mp hb'⟩
    · intro k hk
      exact h1 (hdot.mpr ⟨k, hk⟩)
    · intro k hk
      exact h2 (hdots.mpr ⟨k, hk⟩)
  · rintro ⟨⟨b, hb, h0, hnl⟩, hslash, h1, h2⟩
    refine ⟨fun h => ?_, fun h => hslash ((slash_mem_fileName_iff _).mp h), fun h => ?_, fun h => ?_⟩
    · rcases fileName_eq_nil_iff.mp h b hb with h | h
      · exact h0 h
      · exact hnl h
    · obtain ⟨k, hk⟩ := hdot.mp h
      exact h1 k hk
    · obtain ⟨k, hk⟩ := hdots.mp h
      exact h2 k hk

theorem fileName_eq_of_sameName {bs cs : Bytes} (h : SameName bs cs) :
    fileName bs = fileName cs := by
  induction h with
  | blank hb hc => rw [fileName_eq_nil_iff.mpr hb, fileName_eq_nil_iff.mpr hc]
  | nulLeft _ ih => rw [fileName_nul, ih]
  | nulRight _ ih => rw [fileName_nul, ih]
  | @cons b c bs cs hbc _ ih =>
      have hkeep : ∀ d, d ≠ byte '_' → d ≠ byte ' ' → (b = d ↔ c = d) := by
        intro d hd hd'
        rw [← underscore_eq_of_ne hd hd', underscore_eq_iff.mpr hbc, underscore_eq_of_ne hd hd']
      by_cases hb : b = 0
      · have hc : c = 0 := (hkeep 0 (by decide) (by decide)).mp hb
        rw [hb, hc, fileName_nul, fileName_nul, ih]
      · have hc : c ≠ 0 := fun hc => hb ((hkeep 0 (by decide) (by decide)).mpr hc)
        rw [fileName_cons hb, fileName_cons hc, ih, underscore_eq_iff.mpr hbc]
        simp only [hkeep (byte '\n') (by decide) (by decide)]

/-- The induction is on the two lengths together: a NUL byte on one side is passed over
there alone. -/
theorem sameName_of_fileName_eq : ∀ bs cs : Bytes, fileName bs = fileName cs → SameName bs cs := by
  intro bs cs
  induction hn : bs.length + cs.length using Nat.strongRecOn generalizing bs cs with
  | ind n ih =>
      intro h
      by_cases hnil : fileName bs = []
      · exact .blank (fileName_eq_nil_iff.mp hnil) (fileName_eq_nil_iff.mp (h ▸ hnil))
      · rcases bs with _ | ⟨b, bs⟩
        · exact absurd rfl hnil
        · rcases cs with _ | ⟨c, cs⟩
          · exact absurd h hnil
          · simp only [List.length_cons] at hn
            by_cases hb : b = 0
            · rw [hb, fileName_nul] at h
              rw [hb]
              refine .nulLeft (ih _ ?_ bs (c :: cs) rfl h)
              rw [List.length_cons]
              omega
            · by_cases hc : c = 0
              · rw [hc, fileName_nul] at h
                rw [hc]
                refine .nulRight (ih _ ?_ (b :: bs) cs rfl h)
                rw [List.length_cons]
                omega
              · have hnil' : fileName (c :: cs) ≠ [] := fun hcs => hnil (h.trans hcs)
                rw [fileName_cons hb] at h hnil
                rw [fileName_cons hc] at h hnil'
                rw [if_neg (fun hif => hnil (if_pos hif)),
                  if_neg (fun hif => hnil' (if_pos hif))] at h
                injection h with hbc hrest
                exact .cons (underscore_eq_iff.mp hbc) (ih _ (by omega) bs cs rfl hrest)

/-- **When two titles have one folder**: when they differ in spaces and underscores, NUL bytes
and newlines at the end only. One direction is by the relation's own cases, and the other one by
the first byte of each. -/
theorem titlefolder_eq_iff (t t' : Title) :
    titlefolder t = titlefolder t' ↔ SameName (decoded t) (decoded t') := by
  rw [titlefolder_eq, titlefolder_eq]
  exact ⟨sameName_of_fileName_eq _ _, fileName_eq_of_sameName⟩

end VideoUploader.VideoFolder
