/-
The links of the published post: `video-uploader.sh`, lines 116 to 141.

The content of the post is HTML, and the title and the link are put into it as they
are. A title without `<` and double quote opens no markup and ends no attribute, so there
are as many links as the template has. The first one is the link as a browser reads it: a
`&` of the title may begin a character reference there, and the address is another one
then. Without `&` it leads to the page named after the folder of the title.
-/
import VideoUploader.PosterRun
import VideoUploader.HtmlMarkup

set_option autoImplicit false
set_option maxRecDepth 8192

namespace VideoUploader.PostLinks

open Bash Utf8 Python VideoTitle PosterHeredoc PosterRun Html

def href : List Char := ['h', 'r', 'e', 'f']

/-- The addresses an HTML text links to, in order, for a table of the named references. The
template has none but ordinary elements. -/
def links (named : CharNames) (page : List Char) : List (List Char) :=
  values (ordinary named) ['a'] href page

/-- One line of the links: an address, what is shown for it, and what stands in front of
the next. -/
structure Item where
  address : List Char
  label : List Char
  gap : List Char

/-- An item as the template writes it. -/
def Item.html (i : Item) : List Char :=
  '<' :: ('a' :: ' ' :: (href ++ '=' :: '"' :: (i.address ++ '"' :: '>' ::
    (i.label ++ '<' :: '/' :: 'a' :: '>' :: i.gap))))

/-- An item whose label begins with a word and repeats the address, with the next on the
line below. -/
def item (word address : String) : Item :=
  ⟨address.toList, word.toList ++ " - ".toList ++ address.toList, "\n    ".toList⟩

/-- The items behind that of the title. -/
def siteItems : List Item :=
  [item "HOMEPAGE" "https://www.fixapc.net", item "FORUMS" "https://forum.fixapc.net",
   item "FACEBOOK" "https://www.facebook.com/Fixapcdotnet",
   item "TWITTER" "https://twitter.com/FIXAPCdotnet",
   item "TWITCH" "https://www.twitch.tv/fixapcdotnet",
   item "YOUTUBE" "https://www.youtube.com/channel/UCSvBW8e2zGNFiSUSD9qLNbQ",
   item "ODYSEE" "https://odysee.com/@fixapc", item "TIKTOK" "https://www.tiktok.com/@fixapc",
   item "DTUBE" "https://d.tube/#!/c/fixapc777", item "VIMEO" "https://vimeo.com/user151963004",
   item "DISCORD" "https://discord.gg/fwaJ9V8c",
   { item "PATREON" "https://www.patreon.com/" with gap := "\n\n    TUTORIAL REQUESTS\n    ".toList },
   ⟨"https://fixapc.net/tutorial-request/".toList,
    "REQUEST A TUTORIAL - https://fixapc.net/tutorial-request".toList,
    "\n\n    SUPPORT LINKS\n    ".toList⟩,
   item "PAYPAL" "https://paypal.me/FIXAPC", item "CASHAPP" "https://cash.app/fixapc/Patreon",
   { item "PATREON" "https://fixapc.net/support-us/Patreon" with gap := "\n".toList }]

/-- The addresses of the template, behind that of the title. -/
def siteLinks : List (List Char) := siteItems.map Item.address

theorem linksTail_eq : linksTail = '<' :: '/' :: 'a' :: '>' ::
    ("\n\n    COMMUNITY LINKS\n    ".toList ++ siteItems.flatMap Item.html) := by
  have h : ∃ l, linksTail = l ∧ l = '<' :: '/' :: 'a' :: '>' ::
      ("\n\n    COMMUNITY LINKS\n    ".toList ++ siteItems.flatMap Item.html) :=
    ⟨_, String.toList_ofList, by decide +kernel⟩
  obtain ⟨l, hl, hspec⟩ := h
  rw [hl, hspec]

/-! ## Reading the items -/

variable {named : CharNames}

/-- No markup begins in an item but its own. -/
structure Item.Wf (i : Item) : Prop where
  address : '"' ∉ i.address
  label : '<' ∉ i.label
  gap : '<' ∉ i.gap

instance (i : Item) : Decidable i.Wf :=
  decidable_of_iff ('"' ∉ i.address ∧ '<' ∉ i.label ∧ '<' ∉ i.gap)
    ⟨fun h => ⟨h.1, h.2.1, h.2.2⟩, fun h => ⟨h.address, h.label, h.gap⟩⟩

theorem wf_siteItems : ∀ i ∈ siteItems, i.Wf := by decide +kernel

/-- The addresses of the template have no references in them. -/
theorem attrText_siteLinks : siteLinks.map (attrText named) = siteLinks := by
  have hplain : ∀ a ∈ siteLinks, '&' ∉ a ∧ '\r' ∉ a ∧ '\x00' ∉ a := by decide +kernel
  conv_rhs => rw [← List.map_id siteLinks]
  exact List.map_congr_left fun a ha =>
    attrText_of_not_mem (hplain a ha).1 (hplain a ha).2.1 (hplain a ha).2.2

/-- A start tag of a link, with any address that has no quote. -/
theorem links_anchor {v : List Char} (hv : '"' ∉ v) (rest : List Char) :
    links named ('<' :: ('a' :: ' ' :: (href ++ '=' :: '"' :: (v ++ '"' :: '>' :: rest)))) =
      attrText named v :: links named rest := by
  have hread : markup (ordinary named) ['a'] href []
      ('a' :: ' ' :: (href ++ '=' :: '"' :: (v ++ '"' :: '>' :: rest))) =
        (some (attrText named v), rest) := by
    have hattrs : readAttrs .before (' ' :: (href ++ '=' :: '"' :: (v ++ '"' :: '>' :: rest))) =
        some ([⟨href, .quoted '"' v⟩], rest) := by
      show readAttrs (.quoted href '"' []) (v ++ '"' :: '>' :: rest) = _
      rw [readAttrs_quoted hv]
      rfl
    have hdrop : ('a' :: ' ' :: (href ++ '=' :: '"' :: (v ++ '"' :: '>' :: rest))).dropWhile
        Html.isNameChar = ' ' :: (href ++ '=' :: '"' :: (v ++ '"' :: '>' :: rest)) := rfl
    rw [markup, if_pos (by decide), hdrop, hattrs]
    rfl
  have hsplit : 'a' :: ' ' :: (href ++ '=' :: '"' :: (v ++ '"' :: '>' :: rest)) =
      ('a' :: ' ' :: (href ++ '=' :: '"' :: (v ++ ['"', '>']))) ++ rest := by simp
  rw [hsplit] at hread ⊢
  rw [links, values_markup (by rw [hread]), hread]
  rfl

/-- An end tag of a link has no address. -/
theorem links_endTag (rest : List Char) :
    links named ('<' :: '/' :: 'a' :: '>' :: rest) = links named rest := by
  have hread : markup (ordinary named) ['a'] href [] (['/', 'a', '>'] ++ rest) = (none, rest) := rfl
  show values _ _ _ ('<' :: (['/', 'a', '>'] ++ rest)) = _
  rw [values_markup (by rw [hread]), hread]
  rfl

theorem links_append_of_not_mem {u : List Char} (hu : '<' ∉ u) (s : List Char) :
    links named (u ++ s) = links named s := values_append_of_not_mem hu s

/-- **Items in a row** have their addresses. -/
theorem links_items {items : List Item} (h : ∀ i ∈ items, i.Wf) :
    links named (items.flatMap Item.html) = (items.map Item.address).map (attrText named) := by
  induction items with
  | nil => rfl
  | cons i items ih =>
      have hi := h i List.mem_cons_self
      have hhtml : (i :: items).flatMap Item.html =
          '<' :: ('a' :: ' ' :: (href ++ '=' :: '"' :: (i.address ++ '"' :: '>' ::
            (i.label ++ '<' :: '/' :: 'a' :: '>' :: (i.gap ++ items.flatMap Item.html))))) := by
        simp [Item.html]
      rw [hhtml, links_anchor hi.address, links_append_of_not_mem hi.label, links_endTag,
        links_append_of_not_mem hi.gap, ih fun j hj => h j (List.mem_cons_of_mem i hj)]
      rfl

/-! ## The folder of a clean title -/

/-- In the folder of a clean title are characters of the title, underscores and escape
characters. -/
theorem exists_titlefolder {t : Title} {cs : List Char} (hcs : encode cs = t.bytes)
    (hclean : CleanText cs) :
    ∃ ds, encode ds = titlefolder t ∧ ∀ d ∈ ds, d ∈ cs ∨ d = '\x1b' ∨ d = '_' := by
  rw [titlefolder_eq, decoded]
  split
  · exact ⟨[], rfl, fun d hd => absurd hd List.not_mem_nil⟩
  · have hkeep : ∀ d : Char, IsAscii d → d ≠ '\x1b' → byte d ∉ t.bytes → d ∉ shownText cs := by
      intro d hascii hd hbytes hmem
      rcases mem_shownText hmem with h | h
      · exact hbytes (hcs ▸ (byte_mem_encode_iff hascii).mpr h)
      · exact hd h
    refine ⟨(shownText cs).map underscoreChar, ?_, ?_⟩
    · rw [← hcs, shown_encode hclean.noEscape, fileName_encode]
      · exact hkeep '\x00' (by decide) (by decide) t.no_nul
      · exact hkeep '\n' (by decide) (by decide) t.no_newline
    · intro d hd
      obtain ⟨c, hc, rfl⟩ := List.mem_map.mp hd
      rw [underscoreChar]
      split
      · exact Or.inr (Or.inr rfl)
      · exact (mem_shownText hc).imp_right Or.inl

/-- What neither the title nor the link's own beginning has, the link has not. -/
theorem exists_text {t : Title} {cs : List Char} (hcs : encode cs = t.bytes)
    (hclean : CleanText cs) :
    ∃ ds, encode ds = text t ∧ ∀ d ∈ ds, d ∈ "https://www.fixapc.net/".toList ∨ d ∈ cs ∨
      d = '\x1b' ∨ d = '_' := by
  obtain ⟨ds, hds, hmem⟩ := exists_titlefolder hcs hclean
  refine ⟨"https://www.fixapc.net/".toList ++ ds, by rw [encode_append, hds]; rfl, ?_⟩
  intro d hd
  exact (List.mem_append.mp hd).imp_right (hmem d)

/-! ## The content of the post -/

/-- The item of the title. -/
def titleItem (link : List Char) : Item :=
  ⟨link, "WEBSITE LINK - ".toList ++ link, "\n\n    COMMUNITY LINKS\n    ".toList⟩

theorem linksHref_eq : linksHref = "\n    ".toList ++
    '<' :: ('a' :: ' ' :: (href ++ ['=', '"'])) := by decide

theorem linksMid_eq : linksMid = '"' :: '>' :: "WEBSITE LINK - ".toList := by decide

/-- The template is the title, and items in a row behind it. -/
theorem template_eq (title link : List Char) :
    linksTitle ++ (title ++ (linksHref ++ (link ++ (linksMid ++ (link ++ linksTail))))) =
      (linksTitle ++ (title ++ "\n    ".toList)) ++
        (titleItem link :: siteItems).flatMap Item.html := by
  rw [linksHref_eq, linksMid_eq, linksTail_eq, List.flatMap_cons]
  simp only [Item.html, titleItem, List.append_assoc, List.cons_append, List.nil_append]

/-- The links of the template, around a title without `<` and a link without `<` and
quote. -/
theorem links_template {title link : List Char} (htitle : '<' ∉ title) (hlink : '<' ∉ link)
    (hquote : '"' ∉ link) :
    links named
      (linksTitle ++ (title ++ (linksHref ++ (link ++ (linksMid ++ (link ++ linksTail)))))) =
      attrText named link :: siteLinks := by
  have hfront : '<' ∉ linksTitle ++ (title ++ "\n    ".toList) := by
    rw [List.mem_append, List.mem_append, not_or, not_or]
    exact ⟨by decide, htitle, by decide⟩
  have hlabel : '<' ∉ "WEBSITE LINK - ".toList ++ link := by
    rw [List.mem_append, not_or]
    exact ⟨by decide, hlink⟩
  rw [template_eq, links_append_of_not_mem hfront, links_items, List.map_cons, List.map_cons]
  · exact congrArg (List.cons (attrText named link)) attrText_siteLinks
  · have hgap : '<' ∉ "\n\n    COMMUNITY LINKS\n    ".toList := by decide
    rw [List.forall_mem_cons]
    exact ⟨⟨hquote, hlabel, hgap⟩, wf_siteItems⟩

/-- The content of the post for a clean title, and its links. What the title has not, the link
has not, as it adds only the address of the site, underscores and escape characters. -/
theorem exists_content (pw : AppPassword) {t : Title} {title : List Char}
    (htitle : encode title = t.bytes) (hclean : CleanText title) (hlt : '<' ∉ title)
    (hquote : '"' ∉ title) :
    ∃ content link, linksText pw t = codes content ∧ encode link = text t ∧
      (∀ named, links named content = attrText named link :: siteLinks) ∧
      ('&' ∉ title → ∀ named, attrText named link = link) := by
  obtain ⟨link, hlink, hmem⟩ := exists_text htitle hclean
  have hnot : ∀ c : Char, c ∉ "https://www.fixapc.net/".toList → c ≠ '\x1b' → c ≠ '_' →
      c ∉ title → c ∉ link := by
    intro c hbase hesc hunder hc hm
    rcases hmem c hm with h | h | h | h
    · exact hbase h
    · exact hc h
    · exact hesc h
    · exact hunder h
  have hlinkLt := hnot '<' (by decide) (by decide) (by decide) hlt
  have hlinkQuote := hnot '"' (by decide) (by decide) (by decide) hquote
  refine ⟨linksTitle ++ (title ++ (linksHref ++ (link ++ (linksMid ++ (link ++ linksTail))))), link,
    ?_, hlink, fun named => links_template hlt hlinkLt hlinkQuote, ?_⟩
  · have hbytes : linksBytes pw t =
        encode (linksTitle ++ (title ++ (linksHref ++ (link ++ (linksMid ++ (link ++ linksTail)))))) := by
      simp [linksBytes, linksParts, Part.expand, encode_append, htitle, hlink]
    rw [linksText, hbytes, decode_encode, Option.getD_some]
  · -- nothing in such a link is a reference or another spelling of a character
    intro hand named
    have hnul : '\x00' ∉ title := fun h =>
      t.no_nul (htitle ▸ (byte_mem_encode_iff (by decide)).mpr h)
    exact attrText_of_not_mem (hnot '&' (by decide) (by decide) (by decide) hand)
      (hnot '\r' (by decide) (by decide) (by decide) hclean.no_return)
      (hnot '\x00' (by decide) (by decide) (by decide) hnul)

/-- **The links of the post** for a clean title without `<` and double quote: the content has
one link to the address of the title, as it reads in an attribute, and the links of the
template, and no others. For a title without `&` the first one is the address of the page
named after the folder of the title, letter by letter. -/
theorem posted_links (named : CharNames) (pw : AppPassword) (t : Title) (h : Clean t)
    (hlt : byte '<' ∉ t.bytes) (hquote : byte '"' ∉ t.bytes) :
    ∃ content link, linksText pw t = codes content ∧ encode link = text t ∧
      links named content = attrText named link :: siteLinks ∧
      (byte '&' ∉ t.bytes → attrText named link = link) := by
  obtain ⟨title, htitle, hclean⟩ := h
  have hnot : ∀ c : Char, IsAscii c → byte c ∉ t.bytes → c ∉ title := fun c hascii hbytes hm =>
    hbytes (htitle ▸ (byte_mem_encode_iff hascii).mpr hm)
  obtain ⟨content, link, hcontent, hlink, hlinks, hplain⟩ := exists_content pw htitle hclean
    (hnot '<' (by decide) hlt) (hnot '"' (by decide) hquote)
  exact ⟨content, link, hcontent, hlink, hlinks named,
    fun hand => hplain (hnot '&' (by decide) hand) named⟩

/-- The title `a b`. -/
theorem posted_links_a_b :
    let pw : AppPassword := ⟨[], trivial, by simp, by simp, by simp, by simp⟩
    let t : Title := Title.ofBytes (encode ['a', ' ', 'b']) (by decide)
    ∃ content link, linksText pw t = codes content ∧ encode link = text t ∧
      links someNames content = attrText someNames link :: siteLinks ∧
      (byte '&' ∉ t.bytes → attrText someNames link = link) := by
  intro pw t
  exact posted_links someNames pw t ⟨['a', ' ', 'b'], rfl, by decide⟩ (by decide) (by decide)

end VideoUploader.PostLinks
