/-
The image selector's port to the shell: `testimgsel.sh`, lines 15 to 59.

`grep` finds the tags of the images, and the loop is meant to go over them. The
expansion it goes over is not quoted, so its items are the words of the tags, and
what pathname expansion makes of them: a tag has blanks in it, so none of its words
is a tag.
-/
import VideoUploader.ImageUrl

set_option autoImplicit false

namespace VideoUploader.ShellSelector

open Bash Posix ImageUrl

/-! ## Settings -/

def search_query : List Char := ['g', 'e', 'n', 't', 'o', 'o', ' ', 'l', 'o', 'g', 'o']

def file_type : List Char := ['p', 'n', 'g']

/-- Space, tab and newline: what `awk` and an unquoted expansion split at. -/
def isBlank (c : Char) : Bool := decide (c = ' ' ∨ c = '\t' ∨ c = '\n')

/-- `awk '{print $1}'`. -/
def awkFirstWord (s : List Char) : List Char :=
  (textLines '\n' s).flatMap fun l => (words isBlank l).headD [] ++ ['\n']

/-- `first_word=$(echo "$search_query" | awk '{print $1}')`. -/
def first_word : List Char := commandSubst '\x00' '\n' (awkFirstWord (echo id search_query))

def num_images : ℕ := 20

def save_dir : List Char := ['i', 'm', 'a', 'g', 'e', 's']

/-- `"${first_word}_${i}.${file_type}"`. -/
def filename (i : ℕ) : List Char := first_word ++ '_' :: (Nat.toDigits 10 i ++ '.' :: file_type)

/-- `"$save_dir/$filename"`. -/
def filepath (i : ℕ) : List Char := save_dir ++ '/' :: filename i

/-! ## The tags of the page -/

/-- `<div`. -/
def divWord : List Char := ['<', 'd', 'i', 'v']

/-- `<div class="rg_i"[^>]+>`. -/
def divTag : Regex Char :=
  .seq (.lit (divWord ++ [' ', 'c', 'l', 'a', 's', 's', '=', '"', 'r', 'g', '_', 'i', '"']))
    (.seq (.plus (.sat fun c => decide (c ≠ '>'))) (.lit ['>']))

/-- `response=$(curl -s "$url")`, for the page that is sent. -/
def response (page : List Char) : List Char := commandSubst '\x00' '\n' page

/-- The matches of line 35. -/
def tags (page : List Char) : List (List Char) :=
  ((echo id (response page)).splitOn '\n').flatMap fun l => occurrences divTag 0 l

/-- `image_links=$(echo "$response" | grep -Eo '<div class="rg_i"[^>]+>')`. -/
def image_links (page : List Char) : List Char :=
  commandSubst '\x00' '\n' (grepOnly '\n' divTag (echo id (response page)))

/-! ## The items of the loop -/

/-- Pathname expansion in some directory. A word without a character of patterns
stands for itself. -/
structure Glob where
  expand : List Char → List (List Char)
  expand_plain : ∀ w, (∀ c ∈ w, c ≠ '*' ∧ c ≠ '?' ∧ c ≠ '[' ∧ c ≠ '\\') → expand w = [w]

/-- `in $image_links`. -/
def items (glob : Glob) (page : List Char) : List (List Char) :=
  (words isBlank (image_links page)).flatMap glob.expand

/-! ## One item -/

/-- `data-src`. -/
def dataSrc : List Char := ['d', 'a', 't', 'a', '-', 's', 'r', 'c']

/-- `data-src="[^"]+"|data-srcset="[^"]+"`. -/
def sourceAttr : Regex Char :=
  .alt
    (.seq (.lit (dataSrc ++ ['=', '"']))
      (.seq (.plus (.sat fun c => decide (c ≠ '"'))) (.lit ['"'])))
    (.seq (.lit (dataSrc ++ ['s', 'e', 't', '=', '"']))
      (.seq (.plus (.sat fun c => decide (c ≠ '"'))) (.lit ['"'])))

/-- `data-src(set)?=`. -/
def sourceName : Regex Char :=
  .seq (.lit dataSrc) (.seq (.alt (.lit ['s', 'e', 't']) .empty) (.lit ['=']))

/-- `head -n 1`. -/
def headLine (s : List Char) : List Char :=
  match textLines '\n' s with
  | [] => []
  | l :: _ => l ++ ['\n']

/-- `s/^r//` on one line. -/
def dropMatch (r : Regex Char) (l : List Char) : List Char :=
  match r.longest l with
  | some x => x.2
  | none => l

/-- `s/ &.*$//` on one line. -/
def cutAmpersand : List Char → List Char
  | [] => []
  | c :: s => if c = ' ' ∧ s.head? = some '&' then [] else c :: cutAmpersand s

/-- Line 38: what is taken out of an item. -/
def source (img : List Char) : List Char :=
  let attrs := grepOnly '\n' sourceAttr (echo id img)
  let value := (sed '\n' (dropMatch sourceName) (headLine attrs)).filter fun c => decide (c ≠ '"')
  commandSubst '\x00' '\n' (sed '\n' cutAmpersand value)

/-- One call of `curl`, with the item of the loop it is made for. -/
structure Download where
  item : List Char
  path : List Char
  url : List Char
  deriving DecidableEq

/-- Lines 38 to 49. -/
def download (i : ℕ) (img : List Char) : Download :=
  ⟨img, filepath i, testimgsel.img_url (source img)⟩

/-! ## The loop -/

/-- Lines 37 to 59, with the counter. -/
def loop : ℕ → List (List Char) → List Download
  | _, [] => []
  | i, img :: imgs => download i img :: if i + 1 > num_images then [] else loop (i + 1) imgs

/-- What is downloaded from a page. -/
def downloads (glob : Glob) (page : List Char) : List Download := loop 1 (items glob page)

/-! ## What ought to be downloaded -/

/-- The value of an attribute `name="value"` at the front of a text. -/
def valueOf (name s : List Char) : Option (List Char) :=
  match s.dropPrefix? (name ++ ['=', '"']) with
  | none => none
  | some rest =>
      let v := rest.takeWhile fun c => decide (c ≠ '"')
      if v ≠ [] ∧ '"' ∈ rest then some v else none

/-- The value of the first `data-src` or `data-srcset` of a tag. -/
def firstSource : List Char → Option (List Char)
  | [] => none
  | c :: s =>
      (valueOf dataSrc (c :: s) <|> valueOf (dataSrc ++ ['s', 'e', 't']) (c :: s)) <|> firstSource s

/-- One download for each tag, up to the limit: the `k`-th into the `k`-th file, from
the source of the `k`-th tag. -/
structure FollowsTags (glob : Glob) (page : List Char) : Prop where
  count : (downloads glob page).length = min (tags page).length num_images
  each : ∀ k (d : Download), (downloads glob page)[k]? = some d → ∃ tag v, (tags page)[k]? = some tag ∧
    firstSource tag = some v ∧ d = ⟨tag, filepath (k + 1), testimgsel.img_url v⟩

/-! ## The loop, for any items -/

/-- The loop makes one download for each item, up to the limit. The induction is on the
items; the counter of the code is one ahead of the downloads made. -/
theorem loop_eq {imgs : List (List Char)} {i : ℕ} (hi : i ≤ num_images) :
    loop i imgs = (imgs.take (num_images + 1 - i)).mapIdx fun k img => download (i + k) img := by
  induction imgs generalizing i with
  | nil =>
      rw [List.take_nil]
      rfl
  | cons img imgs ih =>
      have htake : num_images + 1 - i = (num_images - i) + 1 := by omega
      rw [loop, htake, List.take_succ_cons, List.mapIdx_cons, Nat.add_zero]
      refine congrArg (download i img :: ·) ?_
      split
      · -- the limit is reached
        have hend : num_images - i = 0 := by omega
        rw [hend]
        rfl
      · have hshift : ∀ k, i + 1 + k = i + (k + 1) := by
          intro k
          omega
        have hleft : num_images + 1 - (i + 1) = num_images - i := by omega
        rw [ih (by omega), hleft]
        simp only [hshift]

/-- **Every run**: the `k`-th item is downloaded into the `k`-th file, whatever it is. -/
theorem downloads_eq (glob : Glob) (page : List Char) :
    downloads glob page =
      ((items glob page).take num_images).mapIdx fun k img => download (k + 1) img := by
  rw [downloads, loop_eq (by decide)]
  have hshift : ∀ k, 1 + k = k + 1 := fun k => Nat.add_comm 1 k
  simp only [hshift]
  rfl

/-! ## Tags and words -/

/-- A tag begins with `<div` and a space, and has a `>` in it. -/
theorem tag_shape {t : List Char} (h : t ∈ divTag.lang) :
    (∃ rest, t = divWord ++ ' ' :: rest) ∧ '>' ∈ t := by
  obtain ⟨u, v, hu, hv, rfl⟩ := Regex.mem_lang_seq.mp h
  obtain ⟨x, y, -, hy, rfl⟩ := Regex.mem_lang_seq.mp hv
  rw [Regex.mem_lang_lit] at hu hy
  subst hu hy
  refine ⟨⟨_, List.append_assoc divWord _ _⟩, ?_⟩
  simp

theorem tag_mem_lang {page t : List Char} (h : t ∈ tags page) : t ∈ divTag.lang := by
  obtain ⟨l, -, hl⟩ := List.mem_flatMap.mp h
  exact mem_lang_of_mem_occurrences hl

/-- What the loop goes over: the words of the tags. -/
theorem items_eq (glob : Glob) (page : List Char) :
    items glob page =
      ((tags page).flatMap fun t => words isBlank (t.filter fun c => decide (c ≠ '\x00'))).flatMap
        glob.expand := by
  have hlines : grepOnly '\n' divTag (echo id (response page)) =
      (tags page).flatMap fun t => t ++ ['\n'] := by
    rw [grepOnly, tags, List.flatMap_assoc]
  have hfilter : ((tags page).flatMap fun t => t ++ ['\n']).filter (fun c => decide (c ≠ '\x00')) =
      ((tags page).map fun t => t.filter fun c => decide (c ≠ '\x00')).flatMap
        fun t => t ++ ['\n'] := by
    rw [List.filter_flatMap, List.flatMap_map]
    refine List.flatMap_congr fun t _ => ?_
    rw [List.filter_append]
    rfl
  rw [items, image_links, words_commandSubst (by decide), hlines, hfilter,
    words_flatMap_line (by decide), List.flatMap_map]

/-- **No item is a tag** when pathname expansion changes nothing: a tag has a space, and
a word has none. -/
theorem item_not_mem_tags {glob : Glob} {page : List Char}
    (hglob : ∀ w ∈ words isBlank (image_links page), glob.expand w = [w]) :
    ∀ d ∈ downloads glob page, d.item ∉ tags page := by
  intro d hd htag
  rw [downloads_eq] at hd
  obtain ⟨k, hk, rfl⟩ := List.mem_mapIdx.mp hd
  have hitem := List.mem_of_mem_take (List.getElem_mem hk)
  obtain ⟨w, hw, hexp⟩ := List.mem_flatMap.mp hitem
  rw [hglob w hw, List.mem_singleton] at hexp
  -- the item is a word, but the space behind `<div` is in the tag
  obtain ⟨⟨rest, hrest⟩, -⟩ := tag_shape (tag_mem_lang htag)
  have hspace : ' ' ∈ w := by
    have hw' : w = divWord ++ ' ' :: rest := hexp.symm.trans hrest
    rw [hw']
    exact List.mem_append_right divWord List.mem_cons_self
  exact absurd (not_blank_of_mem_words hw ' ' hspace) (by decide)

/-- Where there is a tag, the first item is `<div`. -/
theorem items_of_tags {glob : Glob} {page t : List Char} {ts : List (List Char)}
    (h : tags page = t :: ts) : ∃ imgs, items glob page = divWord :: imgs := by
  obtain ⟨⟨rest, ht⟩, -⟩ := tag_shape (tag_mem_lang (h ▸ List.mem_cons_self))
  have hword : words isBlank (t.filter fun c => decide (c ≠ '\x00')) =
      divWord :: words isBlank (rest.filter fun c => decide (c ≠ '\x00')) := by
    rw [ht, List.filter_append]
    exact words_append_cons (by simp [divWord, isBlank]) (by decide) (by decide)
  have hplain : glob.expand divWord = [divWord] :=
    glob.expand_plain divWord (by simp [divWord])
  rw [items_eq, h, List.flatMap_cons, hword, List.cons_append, List.flatMap_cons, hplain]
  exact ⟨_, rfl⟩

/-- **The port follows the tags only where there are none**: the first download is made
for `<div`, which is no tag. -/
theorem followsTags_iff (glob : Glob) (page : List Char) :
    FollowsTags glob page ↔ tags page = [] := by
  constructor
  · intro h
    by_contra hne
    obtain ⟨t, ts, htags⟩ := List.exists_cons_of_ne_nil hne
    obtain ⟨imgs, himgs⟩ := @items_of_tags glob page t ts htags
    have hfirst : (downloads glob page)[0]? = some (download 1 divWord) := by
      rw [downloads, himgs]
      rfl
    obtain ⟨tag, v, htag, -, hd⟩ := h.each 0 _ hfirst
    have hdiv : divWord = tag := congrArg Download.item hd
    have hmem : divWord ∈ tags page := hdiv ▸ List.mem_of_getElem? htag
    exact absurd (tag_shape (tag_mem_lang hmem)).2 (by decide)
  · intro h
    have hnone : downloads glob page = [] := by
      rw [downloads, items_eq, h]
      rfl
    constructor
    · rw [hnone, h]
      rfl
    · intro k d hd
      rw [hnone] at hd
      cases hd

/-- A directory in which no pattern matches. -/
def noMatch : Glob := ⟨fun w => [w], fun _ _ => rfl⟩

/-- The page `<div class="rg_i" data-src="//h/a.png">`. -/
def onePage : List Char :=
  divWord ++ [' ', 'c', 'l', 'a', 's', 's', '=', '"', 'r', 'g', '_', 'i', '"', ' '] ++ dataSrc ++
    ['=', '"', '/', '/', 'h', '/', 'a', '.', 'p', 'n', 'g', '"', '>']

/-- The one tag of the page has its source; three downloads are made. -/
theorem not_followsTags_onePage :
    (∀ tag ∈ tags onePage, firstSource tag ≠ none) ∧ ¬ FollowsTags noMatch onePage := by
  have htags : tags onePage = [onePage] := by decide
  constructor
  · rw [htags, List.forall_mem_singleton]
    decide
  · intro h
    have hthree : (downloads noMatch onePage).length = 3 := by decide
    have hcount := h.count
    rw [hthree, htags] at hcount
    cases hcount

end VideoUploader.ShellSelector
