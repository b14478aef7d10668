/-
Runs of the WordPress poster against a site: `video-uploader.sh`, lines 113 to 176,
run after run.

A site has a media library and posts. What is assumed of it is what the REST interface
documents: an upload adds one item under a new id or none, a request for a post adds
that post or none, and an answer with the status 201 is given for what was added. An
answer can be lost, so something can have been added that the program never hears of.

Over any sequence of runs with clean titles every run makes at most one post, of its own
title, and each post has an image of its own, uploaded for it by the same run.
-/
import VideoUploader.PosterRun

set_option autoImplicit false

namespace VideoUploader.PosterSite

open Bash Utf8 Python VideoTitle PosterHeredoc PosterRun

/-! ## Sites -/

def mediaUrl : Str := codes "https://fixapc.net/wp-json/wp/v2/media".toList

def postsUrl : Str := codes "https://fixapc.net/wp-json/wp/v2/posts".toList

/-- The request was answered with the status 201. -/
def Reply.Created : Reply → Prop
  | .response r => r.status_code = 201
  | .failed _ => False

/-- A site: how it answers, and what it shows of its state. An item of the library has
its id and its bytes; a post is the object it was made from. -/
structure Site (S : Type) where
  server : Server S
  media : S → List (Json × Bytes)
  posts : S → List Json
  /-- An upload adds nothing, and is not answered with 201, or it adds one item under a
  new id, and an answer with 201 names that id. -/
  upload : ∀ s field name bytes auth,
    let x := server s ⟨mediaUrl, [(field, name, bytes)], none, auth⟩
    posts x.2 = posts s ∧
      ((media x.2 = media s ∧ ¬ Reply.Created x.1) ∨
        ∃ id, id ∉ (media s).map Prod.fst ∧ media x.2 = media s ++ [(id, bytes)] ∧
          ∀ r, x.1 = .response r → r.status_code = 201 → mediaId r = .ok id)
  /-- A request for a post adds nothing, and is not answered with 201, or it adds the
  post. -/
  create : ∀ s post auth,
    let x := server s ⟨postsUrl, [], some post, auth⟩
    media x.2 = media s ∧
      ((posts x.2 = posts s ∧ ¬ Reply.Created x.1) ∨ posts x.2 = posts s ++ [post])

/-! ## Runs -/

/-- One run: its title, the application password, and the files it can open. They may differ from
run to run. -/
structure Run where
  title : Title
  pw : AppPassword
  files : Str → Option Bytes

/-- The post of a run, with the image `media_id`. -/
def Run.post (r : Run) (media_id : Json) : Json :=
  .obj [(codes "title".toList, .str (titleText r.title)),
    (codes "content".toList, .str (linksText r.pw r.title)),
    (codes "status".toList, .str (codes "publish".toList)),
    (codes "featured_media".toList, media_id)]

section

variable {S : Type}

/-- The world when a run has ended, in which way ever. A program that is refused leaves it as it
was. -/
def endWorld (w : World S) : RunResult (World S) → World S
  | .syntaxError => w
  | .finished w' => w'
  | .raised _ w' => w'

/-- A run of the poster starts with nothing sent or printed; the site is as the run before has
left it. -/
def Run.start (r : Run) (s : S) : World S := ⟨r.files, s, [], []⟩

/-- The world behind a run of the here-document. -/
def Run.world (site : Site S) (names : List Char → Option ℕ) (r : Run) (s : S) : World S :=
  endWorld (r.start s) (python3 site.server names (posterProgram r.pw r.title) (r.start s))

/-- The line `Post created successfully!`. -/
def isAnnouncement : List Json → Bool
  | [.str s] => decide (s = codes "Post created successfully!".toList)
  | _ => false

/-- The run says that its post has been created. -/
def announced (w : World S) : Bool := w.printed.any isAnnouncement

/-- What a run was, and the world behind it. -/
structure Record (S : Type) where
  run : Run
  world : World S

/-- Runs one after another, on one site. -/
def runAll (site : Site S) (names : List Char → Option ℕ) : List Run → S → List (Record S) × S
  | [], s => ([], s)
  | r :: rs, s =>
      let w := r.world site names s
      let rest := runAll site names rs w.site
      (⟨r, w⟩ :: rest.1, rest.2)

end

/-! ## One run -/

/-- What one run can have done to the site: nothing, an image only, or an image and the post with
it. There is nothing else, whatever the site answers. -/
inductive Effect {S : Type} (site : Site S) (r : Run) (s s' : S) : Prop where
  | nothing (hmedia : site.media s' = site.media s) (hposts : site.posts s' = site.posts s)
  | uploaded (id : Json) (bytes : Bytes) (hcover : r.files coverName = some bytes)
      (hnew : id ∉ (site.media s).map Prod.fst)
      (hmedia : site.media s' = site.media s ++ [(id, bytes)])
      (hposts : site.posts s' = site.posts s)
  | posted (id : Json) (bytes : Bytes) (hcover : r.files coverName = some bytes)
      (hnew : id ∉ (site.media s).map Prod.fst)
      (hmedia : site.media s' = site.media s ++ [(id, bytes)])
      (hposts : site.posts s' = site.posts s ++ [r.post id])

section

variable {S : Type} {site : Site S} {names : List Char → Option ℕ}

/-- The second request, with the post of the run in it. -/
theorem postRequest_eq (r : Run) (media_id : Json) :
    postRequest r.pw (titleText r.title) (linksText r.pw r.title) media_id =
      ⟨postsUrl, [], some (r.post media_id), some (credentials r.pw)⟩ := rfl

/-- The line about the image is no announcement, -/
theorem isAnnouncement_uploaded :
    isAnnouncement [jsonText "Image uploaded successfully!"] = false := by decide +kernel

/-- the line about the post is one, -/
theorem isAnnouncement_created :
    isAnnouncement [jsonText "Post created successfully!"] = true := by decide +kernel

/-- and the line about a post that has not been created is none. -/
theorem isAnnouncement_postLine {r : Response} (h : r.status_code ≠ 201) :
    isAnnouncement (postLine r) = false := by
  rw [postLine, if_neg h]
  rfl

/-- The first request of a run. -/
theorem send_start (r : Run) (s : S) (q : Request) : (r.start s).send site.server q =
    ((site.server s q).1, ⟨r.files, (site.server s q).2, [q], []⟩) := rfl

theorem announced_print (w : World S) (line : List Json) :
    announced (w.print line) = (announced w || isAnnouncement line) := by
  show (w.printed ++ [line]).any isAnnouncement = _
  rw [List.any_append, List.any_cons, List.any_nil, Bool.or_false]
  rfl

/-- The second half of a run: with the id of its image, it makes its post or none, and
announces none that it has not made. -/
theorem effect_postWith {r : Run} (w₀ : World S) {w : World S} {media_id : Json}
    (hquiet : announced w = false) :
    let w' := endWorld w₀ (postWith site.server r.pw (titleText r.title) (linksText r.pw r.title)
      media_id w)
    site.media w'.site = site.media w.site ∧
      (site.posts w'.site = site.posts w.site ∧ announced w' = false ∨
        site.posts w'.site = site.posts w.site ++ [r.post media_id]) := by
  have hcreate := site.create w.site (r.post media_id) (some (credentials r.pw))
  unfold postWith World.send
  rw [postRequest_eq]
  rcases hreply : site.server w.site
    ⟨postsUrl, [], some (r.post media_id), some (credentials r.pw)⟩ with ⟨reply, s'⟩
  rw [hreply] at hcreate
  cases reply with
  | failed kind =>
      -- the answer is lost, whether or not the post was made
      refine ⟨hcreate.1, ?_⟩
      rcases hcreate.2 with h | h
      · exact Or.inl ⟨h.1, hquiet⟩
      · exact Or.inr h
  | response resp =>
      refine ⟨hcreate.1, ?_⟩
      rcases hcreate.2 with h | h
      · refine Or.inl ⟨h.1, ?_⟩
        show announced (World.print _ _) = false
        rw [announced_print, isAnnouncement_postLine h.2, Bool.or_false]
        exact hquiet
      · exact Or.inr h

/-- What a run has done when its image has the id `id`. It is told from the answer to its second
request. -/
theorem effect_created {r : Run} (w₀ : World S) {s : S} {w : World S} {id : Json} {bytes : Bytes}
    (hf : r.files coverName = some bytes) (hnew : id ∉ (site.media s).map Prod.fst)
    (hmedia : site.media w.site = site.media s ++ [(id, bytes)])
    (hposts : site.posts w.site = site.posts s) (hquiet : announced w = false) :
    let w' := endWorld w₀ (postWith site.server r.pw (titleText r.title) (linksText r.pw r.title)
      id w)
    Effect site r s w'.site ∧ (announced w' = true → site.posts w'.site ≠ site.posts s) := by
  obtain ⟨hmedia', hposts' | hposts'⟩ := @effect_postWith S site r w₀ w id hquiet
  · refine ⟨.uploaded id bytes hf hnew (hmedia'.trans hmedia) (hposts'.1.trans hposts), fun hann => ?_⟩
    rw [hposts'.2] at hann
    cases hann
  · have hpost := hposts'.trans (congrArg (· ++ [r.post id]) hposts)
    refine ⟨.posted id bytes hf hnew (hmedia'.trans hmedia) hpost, fun _ heq => ?_⟩
    have hlen := congrArg List.length (hpost.symm.trans heq)
    rw [List.length_append, List.length_singleton] at hlen
    omega

/-- **One run** with a clean title: what it can have done, and that it does not announce
a post it has not made. -/
theorem effect_world {r : Run} (h : Clean r.title) (s : S) :
    Effect site r s (r.world site names s).site ∧
      (announced (r.world site names s) = true →
        site.posts (r.world site names s).site ≠ site.posts s) := by
  have hrun := python3_eq_publish names site.server r.pw h (r.start s)
  unfold Run.world
  rw [hrun]
  unfold publish
  cases hf : (r.start s).files coverName with
  | none => exact ⟨.nothing rfl rfl, fun hann => absurd hann Bool.false_ne_true⟩
  | some bytes =>
      have hupload := site.upload s (codes "file".toList) coverName bytes (some (credentials r.pw))
      rcases hreply : site.server s (mediaRequest r.pw bytes) with ⟨reply, s'⟩
      dsimp only
      rw [send_start, hreply]
      change site.server s ⟨mediaUrl, [(codes "file".toList, coverName, bytes)], none,
        some (credentials r.pw)⟩ = _ at hreply
      rw [hreply] at hupload
      obtain ⟨hposts, hmedia⟩ := hupload
      -- where the run stops here, the item is in the library or not
      have hstop : Effect site r s s' := by
        rcases hmedia with hmedia | ⟨id, hnew, hmedia, -⟩
        · exact .nothing hmedia.1 hposts
        · exact .uploaded id bytes hf hnew hmedia hposts
      cases reply with
      | failed kind => exact ⟨hstop, fun hann => absurd hann Bool.false_ne_true⟩
      | response resp =>
          dsimp only
          by_cases hcode : resp.status_code = 201
          · rw [if_pos hcode]
            rcases hmedia with hmedia | ⟨id, hnew, hmedia, hid⟩
            · exact absurd hcode hmedia.2
            · rw [hid resp rfl hcode]
              apply effect_created (r.start s) hf hnew hmedia hposts
              rw [announced_print, isAnnouncement_uploaded]
              rfl
          · rw [if_neg hcode]
            exact ⟨hstop, fun hann => absurd hann Bool.false_ne_true⟩

/-! ## All runs -/

/-- What a sequence of runs has published: `made` are the runs that made a post, with the
id of the image of each.

The posts are those of these runs, in order; they are among the runs, each once at
most; the runs that announce a post are among them; every image is new, has the bytes
of the run's cover, and belongs to one post only; and the library has grown by at most
one item a run. -/
structure Published (site : Site S) (runs : List Run) (records : List (Record S)) (s s' : S)
    (made : List (Run × Json)) : Prop where
  posts : site.posts s' = site.posts s ++ made.map fun m => m.1.post m.2
  in_order : (made.map Prod.fst).Sublist runs
  announced : ((records.filter fun c => PosterSite.announced c.world).map Record.run).Sublist
    (made.map Prod.fst)
  own_image : (made.map Prod.snd).Nodup
  image : ∀ m ∈ made, m.2 ∉ (site.media s).map Prod.fst ∧
    ∃ bytes, m.1.files coverName = some bytes ∧ (m.2, bytes) ∈ site.media s'
  library : ∃ added, site.media s' = site.media s ++ added ∧ added.length ≤ runs.length

variable {runs : List Run} {records : List (Record S)} {s s₁ s' : S} {made : List (Run × Json)}

/-- In front of it, a run that has made no post and announces none. -/
theorem Published.cons_of_posts_eq (h : Published site runs records s₁ s' made) {c : Record S}
    {added : List (Json × Bytes)} (hmedia : site.media s₁ = site.media s ++ added)
    (hlen : added.length ≤ 1) (hposts : site.posts s₁ = site.posts s)
    (hquiet : PosterSite.announced c.world = false) (r : Run) :
    Published site (r :: runs) (c :: records) s s' made where
  posts := by rw [h.posts, hposts]
  in_order := h.in_order.cons r
  announced := by
    rw [List.filter_cons_of_neg (by simp [hquiet])]
    exact h.announced
  own_image := h.own_image
  image := by
    intro m hm
    obtain ⟨hnew, hbytes⟩ := h.image m hm
    rw [hmedia, List.map_append, List.mem_append, not_or] at hnew
    exact ⟨hnew.1, hbytes⟩
  library := by
    obtain ⟨rest, hrest, hrestlen⟩ := h.library
    refine ⟨added ++ rest, by rw [hrest, hmedia, List.append_assoc], ?_⟩
    rw [List.length_append, List.length_cons]
    omega

/-- In front of it, a run that has made its post. The id is new to the site, so no later one can
have it. -/
theorem Published.cons_of_posted (h : Published site runs records s₁ s' made) {r : Run} {w : World S}
    {id : Json} {bytes : Bytes} (hcover : r.files coverName = some bytes)
    (hnew : id ∉ (site.media s).map Prod.fst)
    (hmedia : site.media s₁ = site.media s ++ [(id, bytes)])
    (hposts : site.posts s₁ = site.posts s ++ [r.post id]) :
    Published site (r :: runs) (⟨r, w⟩ :: records) s s' ((r, id) :: made) where
  posts := by rw [h.posts, hposts, List.append_assoc, List.map_cons, List.singleton_append]
  in_order := h.in_order.cons_cons r
  announced := by
    rw [List.filter_cons]
    split
    · exact h.announced.cons_cons r
    · exact h.announced.cons r
  own_image := by
    rw [List.map_cons, List.nodup_cons]
    refine ⟨fun hmem => ?_, h.own_image⟩
    -- the later images are new to a library that has this one
    obtain ⟨m, hm, hid⟩ := List.mem_map.mp hmem
    apply (h.image m hm).1
    rw [hmedia, List.map_append, hid]
    exact List.mem_append_right _ List.mem_cons_self
  image := by
    obtain ⟨rest, hrest, -⟩ := h.library
    intro m hm
    rcases List.mem_cons.mp hm with rfl | hm
    · refine ⟨hnew, bytes, hcover, ?_⟩
      rw [hrest, hmedia]
      exact List.mem_append_left _ (List.mem_append_right _ List.mem_cons_self)
    · obtain ⟨hnew', hbytes⟩ := h.image m hm
      rw [hmedia, List.map_append, List.mem_append, not_or] at hnew'
      exact ⟨hnew'.1, hbytes⟩
  library := by
    obtain ⟨rest, hrest, hrestlen⟩ := h.library
    refine ⟨(id, bytes) :: rest, by rw [hrest, hmedia, List.append_assoc, List.singleton_append], ?_⟩
    rw [List.length_cons, List.length_cons]
    omega

/-- **Publishing, run after run**: whatever sequence of runs with clean titles, and from
whatever state of the site. -/
theorem runs_publish (site : Site S) (names : List Char → Option ℕ) (runs : List Run)
    (hclean : ∀ r ∈ runs, Clean r.title) (s : S) :
    ∃ made, Published site runs (runAll site names runs s).1 s (runAll site names runs s).2 made := by
  induction runs generalizing s with
  | nil =>
      exact ⟨[], (List.append_nil _).symm, List.Sublist.refl _, List.Sublist.refl _, List.nodup_nil,
        fun m hm => absurd hm List.not_mem_nil, [], (List.append_nil _).symm, le_refl _⟩
  | cons r rs ih =>
      obtain ⟨heffect, hann⟩ := @effect_world S site names r (hclean r List.mem_cons_self) s
      obtain ⟨made, hmade⟩ := ih (fun r' hr' => hclean r' (List.mem_cons_of_mem r hr'))
        (r.world site names s).site
      have hquiet : site.posts (r.world site names s).site = site.posts s →
          announced (r.world site names s) = false := fun heq =>
        Bool.eq_false_iff.mpr fun htrue => hann htrue heq
      cases heffect with
      | nothing hmedia hposts =>
          exact ⟨made, hmade.cons_of_posts_eq (hmedia.trans (List.append_nil _).symm)
            (Nat.zero_le 1) hposts (hquiet hposts) r⟩
      | uploaded id bytes hcover hnew hmedia hposts =>
          exact ⟨made, hmade.cons_of_posts_eq hmedia (le_refl 1) hposts (hquiet hposts) r⟩
      | posted id bytes hcover hnew hmedia hposts =>
          exact ⟨(r, id) :: made, hmade.cons_of_posted hcover hnew hmedia hposts⟩

/-! ## When nothing is lost -/

/-- A site that answers every upload and every request for a post with the status 201. -/
structure Accepting (site : Site S) : Prop where
  upload : ∀ s field name bytes auth,
    Reply.Created (site.server s ⟨mediaUrl, [(field, name, bytes)], none, auth⟩).1
  create : ∀ s post auth, Reply.Created (site.server s ⟨postsUrl, [], some post, auth⟩).1

/-- With the id of its image, a run that is answered so announces its post. -/
theorem announced_postWith (hsite : Accepting site) (r : Run) (w₀ w : World S) (id : Json) :
    announced (endWorld w₀ (postWith site.server r.pw (titleText r.title)
      (linksText r.pw r.title) id w)) = true := by
  have hcreate := hsite.create w.site (r.post id) (some (credentials r.pw))
  unfold postWith World.send
  rw [postRequest_eq]
  rcases hreply : site.server w.site
    ⟨postsUrl, [], some (r.post id), some (credentials r.pw)⟩ with ⟨reply, s'⟩
  rw [hreply] at hcreate
  cases reply with
  | failed kind => exact hcreate.elim
  | response resp =>
      have hcode : resp.status_code = 201 := hcreate
      show announced (World.print _ _) = true
      rw [announced_print, postLine, if_pos hcode, isAnnouncement_created, Bool.or_true]

/-- A run announces its post when it can open its cover and is answered so. -/
theorem announced_world (hsite : Accepting site) {r : Run} (h : Clean r.title) {bytes : Bytes}
    (hcover : r.files coverName = some bytes) (s : S) :
    announced (r.world site names s) = true := by
  have hrun := python3_eq_publish names site.server r.pw h (r.start s)
  have hfiles : (r.start s).files coverName = some bytes := hcover
  have hcreated := hsite.upload s (codes "file".toList) coverName bytes (some (credentials r.pw))
  have hupload := (site.upload s (codes "file".toList) coverName bytes (some (credentials r.pw))).2
  unfold Run.world
  rw [hrun]
  unfold publish
  rw [hfiles]
  dsimp only
  rw [send_start]
  rcases hupload with hnothing | ⟨id, -, -, hid⟩
  · exact absurd hcreated hnothing.2
  · change Reply.Created (site.server s (mediaRequest r.pw bytes)).1 at hcreated
    rcases hreply : (site.server s (mediaRequest r.pw bytes)).1 with resp | kind
    · rw [hreply] at hcreated
      have hcode : resp.status_code = 201 := hcreated
      dsimp only
      rw [if_pos hcode, hid resp hreply hcode]
      exact announced_postWith hsite r _ _ id
    · rw [hreply] at hcreated
      exact hcreated.elim

/-- All that a sequence of runs is to deliver: each its post and its image, in order, and the
images with ids of their own. -/
structure Delivered (site : Site S) (runs : List Run) (s s' : S) (ids : List Json) : Prop where
  one_each : ids.length = runs.length
  own_image : ids.Nodup
  new : ∀ id ∈ ids, id ∉ (site.media s).map Prod.fst
  posts : site.posts s' = site.posts s ++ List.zipWith Run.post runs ids
  media : site.media s' = site.media s ++
    List.zipWith (fun r id => (id, (r.files coverName).getD [])) runs ids

/-- A run that has delivered, in front of others that have. -/
theorem Delivered.cons {ids : List Json} (h : Delivered site runs s₁ s' ids) {r : Run} {id : Json}
    {bytes : Bytes} (hcover : r.files coverName = some bytes)
    (hnew : id ∉ (site.media s).map Prod.fst)
    (hmedia : site.media s₁ = site.media s ++ [(id, bytes)])
    (hposts : site.posts s₁ = site.posts s ++ [r.post id]) :
    Delivered site (r :: runs) s s' (id :: ids) where
  one_each := congrArg Nat.succ h.one_each
  own_image := by
    rw [List.nodup_cons]
    refine ⟨fun hmem => h.new id hmem ?_, h.own_image⟩
    rw [hmedia, List.map_append]
    exact List.mem_append_right _ List.mem_cons_self
  new := by
    intro id' hid'
    rcases List.mem_cons.mp hid' with rfl | hid'
    · exact hnew
    · intro hmem
      apply h.new id' hid'
      rw [hmedia, List.map_append]
      exact List.mem_append_left _ hmem
  posts := by
    rw [h.posts, hposts, List.append_assoc, List.singleton_append, List.zipWith_cons_cons]
  media := by
    rw [h.media, hmedia, List.append_assoc, List.singleton_append, List.zipWith_cons_cons, hcover,
      Option.getD_some]

/-- **Nothing is lost on an accepting site**: every run with a clean title that can open its
cover makes its post with its image, once, and says so. -/
theorem runs_deliver (site : Site S) (hsite : Accepting site) (names : List Char → Option ℕ)
    (runs : List Run) (hclean : ∀ r ∈ runs, Clean r.title)
    (hcover : ∀ r ∈ runs, r.files coverName ≠ none) (s : S) :
    (∀ c ∈ (runAll site names runs s).1, announced c.world = true) ∧
      ∃ ids, Delivered site runs s (runAll site names runs s).2 ids := by
  induction runs generalizing s with
  | nil =>
      refine ⟨fun c hc => absurd hc List.not_mem_nil, [], rfl, List.nodup_nil, ?_, ?_, ?_⟩
      · exact fun id hid => absurd hid List.not_mem_nil
      · exact (List.append_nil _).symm
      · exact (List.append_nil _).symm
  | cons r rs ih =>
      have hr := hclean r List.mem_cons_self
      obtain ⟨bytes, hbytes⟩ := Option.ne_none_iff_exists'.mp (hcover r List.mem_cons_self)
      have hann := @announced_world S site names hsite r hr bytes hbytes s
      obtain ⟨heffect, hposted⟩ := @effect_world S site names r hr s
      obtain ⟨hannounced, ids, hids⟩ := ih (fun r' hr' => hclean r' (List.mem_cons_of_mem r hr'))
        (fun r' hr' => hcover r' (List.mem_cons_of_mem r hr')) (r.world site names s).site
      constructor
      · intro c hc
        rcases List.mem_cons.mp hc with rfl | hc
        · exact hann
        · exact hannounced c hc
      · cases heffect with
        | nothing hmedia hposts => exact absurd hposts (hposted hann)
        | uploaded id bytes' hcover' hnew hmedia hposts => exact absurd hposts (hposted hann)
        | posted id bytes' hcover' hnew hmedia hposts =>
            exact ⟨id :: ids, hids.cons hcover' hnew hmedia hposts⟩

end

/-! ## A site that works -/

/-- The bytes of the images, whose ids are their places, and the posts. Every request is
answered, and every upload and post is accepted. -/
def acceptingServer : Server (List Bytes × List Json) := fun s r =>
  match r.files, r.json with
  | [(_, _, bytes)], _ =>
      (.response ⟨201, some (.obj [(codes "id".toList, .int s.1.length)])⟩, (s.1 ++ [bytes], s.2))
  | _, some post => (.response ⟨201, none⟩, (s.1, s.2 ++ [post]))
  | _, none => (.response ⟨400, none⟩, s)

/-- A site that accepts every request, and numbers its images. -/
def acceptingSite : Site (List Bytes × List Json) where
  server := acceptingServer
  media s := s.1.mapIdx fun i bytes => (.int i, bytes)
  posts s := s.2
  upload := by
    intro s field name bytes auth
    refine ⟨rfl, Or.inr ⟨.int s.1.length, ?_, List.mapIdx_concat, ?_⟩⟩
    · intro hmem
      obtain ⟨x, hx, heq⟩ := List.mem_map.mp hmem
      obtain ⟨i, hi, rfl⟩ := List.mem_mapIdx.mp hx
      injection heq with hi'
      omega
    · intro r hr _
      cases hr
      rfl
  create := fun _ _ _ => ⟨rfl, Or.inr rfl⟩

theorem storable_a : Storable (encode ['a']) := by decide

/-- The title `a`, with an empty cover. -/
def runA : Run :=
  ⟨Title.ofBytes (encode ['a']) storable_a, ⟨[], trivial, by simp, by simp, by simp, by simp⟩,
    fun _ => some []⟩

theorem clean_runA : Clean runA.title :=
  ⟨['a'], rfl, by decide⟩

/-- Two runs for the title `a`, on a site that accepts them. -/
theorem runs_publish_a_a :
    ∃ made, Published acceptingSite [runA, runA]
      (runAll acceptingSite (fun _ => none) [runA, runA] ([], [])).1 ([], [])
      (runAll acceptingSite (fun _ => none) [runA, runA] ([], [])).2 made := by
  apply runs_publish acceptingSite (fun _ => none) [runA, runA]
  intro r hr
  simp only [List.mem_cons, List.not_mem_nil, or_false, or_self] at hr
  rw [hr]
  exact clean_runA

theorem accepting_acceptingSite : Accepting acceptingSite :=
  ⟨fun _ _ _ _ _ => rfl, fun _ _ _ => rfl⟩

theorem runs_deliver_a_a :
    (∀ c ∈ (runAll acceptingSite (fun _ => none) [runA, runA] ([], [])).1,
        announced c.world = true) ∧
      ∃ ids, Delivered acceptingSite [runA, runA] ([], [])
        (runAll acceptingSite (fun _ => none) [runA, runA] ([], [])).2 ids := by
  apply runs_deliver acceptingSite accepting_acceptingSite (fun _ => none) [runA, runA]
  · intro r hr
    simp only [List.mem_cons, List.not_mem_nil, or_false, or_self] at hr
    rw [hr]
    exact clean_runA
  · intro r hr
    simp only [List.mem_cons, List.not_mem_nil, or_false, or_self] at hr
    rw [hr]
    exact Option.some_ne_none []

end VideoUploader.PosterSite
