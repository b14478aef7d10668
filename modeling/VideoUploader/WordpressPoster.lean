/-
The WordPress poster: the Python program that `video-uploader.sh` feeds to
`python3` from the here-document of lines 113 to 176.

The delimiter `EOF` is not quoted, so the shell expands `$title` and `$text` in
the program text. The title comes to stand in two string literals, one in triple
and one in single quotes, and neither place escapes it. The program is written
down here part by part, as the here-document has it; the tokens it is meant to
have are written down next to it; and the theorem of this file says for which
titles it has them.

The application password of line 146 is left open: it stands in a literal of its own,
and any text without quotes, backslashes and line ends does there.
-/
import VideoUploader.CleanTitle
import VideoUploader.PyLexer

set_option autoImplicit false
set_option maxRecDepth 8192

namespace VideoUploader.PosterHeredoc

open Bash Utf8 Newlines Python VideoTitle

/-! ## The here-document -/

/-- A piece of the here-document: text that the shell leaves alone, or an
expansion. -/
inductive Part where
  | lit (s : List Char)
  | title
  | text
  | app_password

/-! The text between the expansions, in order. -/

/-- Up to the opening quotes of `links`. -/
def progHead : List Char := "import requests

links = '''".toList

/-- Before the title, which stands in `links` between markup and a line break. -/
def linksTitle : List Char := "
    VIDEO TITLE - ".toList

/-- Before the first link, inside the quotes of its attribute. -/
def linksHref : List Char := "
    <a href=\"".toList

/-- Before the second link. -/
def linksMid : List Char := "\">WEBSITE LINK - ".toList

/-- From behind the second link to the end of `links`, with the fixed links of the site. -/
def linksTail : List Char := "</a>

    COMMUNITY LINKS
    <a href=\"https://www.fixapc.net\">HOMEPAGE - https://www.fixapc.net</a>
    <a href=\"https://forum.fixapc.net\">FORUMS - https://forum.fixapc.net</a>
    <a href=\"https://www.facebook.com/Fixapcdotnet\">FACEBOOK - https://www.facebook.com/Fixapcdotnet</a>
    <a href=\"https://twitter.com/FIXAPCdotnet\">TWITTER - https://twitter.com/FIXAPCdotnet</a>
    <a href=\"https://www.twitch.tv/fixapcdotnet\">TWITCH - https://www.twitch.tv/fixapcdotnet</a>
    <a href=\"https://www.youtube.com/channel/UCSvBW8e2zGNFiSUSD9qLNbQ\">YOUTUBE - https://www.youtube.com/channel/UCSvBW8e2zGNFiSUSD9qLNbQ</a>
    <a href=\"https://odysee.com/@fixapc\">ODYSEE - https://odysee.com/@fixapc</a>
    <a href=\"https://www.tiktok.com/@fixapc\">TIKTOK - https://www.tiktok.com/@fixapc</a>
    <a href=\"https://d.tube/#!/c/fixapc777\">DTUBE - https://d.tube/#!/c/fixapc777</a>
    <a href=\"https://vimeo.com/user151963004\">VIMEO - https://vimeo.com/user151963004</a>
    <a href=\"https://discord.gg/fwaJ9V8c\">DISCORD - https://discord.gg/fwaJ9V8c</a>
    <a href=\"https://www.patreon.com/\">PATREON - https://www.patreon.com/</a>

    TUTORIAL REQUESTS
    <a href=\"https://fixapc.net/tutorial-request/\">REQUEST A TUTORIAL - https://fixapc.net/tutorial-request</a>

    SUPPORT LINKS
    <a href=\"https://paypal.me/FIXAPC\">PAYPAL - https://paypal.me/FIXAPC</a>
    <a href=\"https://cash.app/fixapc/Patreon\">CASHAPP - https://cash.app/fixapc/Patreon</a>
    <a href=\"https://fixapc.net/support-us/Patreon\">PATREON - https://fixapc.net/support-us/Patreon</a>
".toList

/-- From the closing quotes of `links` to the application password. -/
def progAuth : List Char := "'''

# Set up the API endpoint and authentication
api_endpoint = 'https://fixapc.net/wp-json/wp/v2/posts'
username = 'fixapc'
app_password = '".toList

/-- From behind the application password to the title. -/
def progData : List Char := "'
auth = requests.auth.HTTPBasicAuth(username, app_password)

# Set up the post data
post_data = \x7b
    'title': '".toList

/-- From behind the title to the end, with the two requests. -/
def progTail : List Char := "',
    'content': str(links),
    'status': 'publish'
\x7d

# Upload the image to the media library
image_file = \x7b'file': open('video_cover_fix.png', 'rb')\x7d
response = requests.post('https://fixapc.net/wp-json/wp/v2/media', files=image_file, auth=auth)
if response.status_code == 201:
    media_id = response.json()['id']
    print('Image uploaded successfully!')
else:
    print('Error uploading image. Status code:', response.status_code)

# Set the featured image for the post
post_data['featured_media'] = media_id

# Make the API request to create the post
response = requests.post(api_endpoint, json=post_data, auth=auth)

# Check the response status code
if response.status_code == 201:
    print('Post created successfully!')
else:
    print('Error creating post. Status code:', response.status_code)
".toList

/-- What stands between the triple quotes. -/
def linksParts : List Part :=
  [.lit linksTitle, .title, .lit linksHref, .text, .lit linksMid, .text, .lit linksTail]

/-- Lines 114 to 175, with a hole for each expansion. The shell leaves everything else as it
stands. -/
def heredoc : List Part :=
  .lit progHead :: linksParts ++
    [.lit progAuth, .app_password, .lit progData, .title, .lit progTail]

/-- An application password as line 146 can hold it, between two quotes on one line. With
other characters than those of Latin-1 no request could be made, as the password is sent in
that encoding. -/
structure AppPassword where
  chars : List Char
  noEscape : NoEscape chars
  no_quote : '\'' ∉ chars
  no_newline : '\n' ∉ chars
  no_return : '\r' ∉ chars
  latin1 : ∀ c ∈ chars, c.toNat < 256

/-- What the shell puts in place of a part. The result of an expansion is not
expanded again, and nothing in it is unescaped. -/
def Part.expand (pw : AppPassword) (t : Title) : Part → Bytes
  | .lit s => encode s
  | .title => t.bytes
  | .text => VideoTitle.text t
  | .app_password => encode pw.chars

/-- The program `python3` reads from its standard input. -/
def posterProgram (pw : AppPassword) (t : Title) : Bytes := heredoc.flatMap (Part.expand pw t)

/-- The value `links` is meant to have: the template with the title and the link in
their places. -/
def linksBytes (pw : AppPassword) (t : Title) : Bytes :=
  linksParts.flatMap (Part.expand pw t)

/-! ## The tokens of the program -/

section

private def nm (s : String) : RawToken := .name s.toList
private def op (s : String) : RawToken := .op s.toList
private def num (s : String) : RawToken := .number s.toList
private def str (s : String) : RawToken := .str [] s.toList

/-- Up to the `links` literal. -/
def headTokens : List RawToken := [nm "import", nm "requests", .newline, nm "links", op "="]

/-- From behind the `links` literal to the application password. -/
def authTokens : List RawToken :=
  [.newline,
   nm "api_endpoint", op "=", str "https://fixapc.net/wp-json/wp/v2/posts", .newline,
   nm "username", op "=", str "fixapc", .newline,
   nm "app_password", op "="]

/-- From behind the application password to the title literal. -/
def dataTokens : List RawToken :=
  [.newline,
   nm "auth", op "=", nm "requests", op ".", nm "auth", op ".", nm "HTTPBasicAuth", op "(",
   nm "username", op ",", nm "app_password", op ")", .newline,
   nm "post_data", op "=", op "\x7b", str "title", op ":"]

/-- Behind the title literal. -/
def tailTokens : List RawToken :=
  [op ",", str "content", op ":", nm "str", op "(", nm "links", op ")", op ",",
   str "status", op ":", str "publish", op "\x7d", .newline,
   nm "image_file", op "=", op "\x7b", str "file", op ":", nm "open", op "(",
   str "video_cover_fix.png", op ",", str "rb", op ")", op "\x7d", .newline,
   nm "response", op "=", nm "requests", op ".", nm "post", op "(",
   str "https://fixapc.net/wp-json/wp/v2/media", op ",", nm "files", op "=", nm "image_file",
   op ",", nm "auth", op "=", nm "auth", op ")", .newline,
   nm "if", nm "response", op ".", nm "status_code", op "==", num "201", op ":", .newline,
   .indent, nm "media_id", op "=", nm "response", op ".", nm "json", op "(", op ")", op "[",
   str "id", op "]", .newline,
   nm "print", op "(", str "Image uploaded successfully!", op ")", .newline,
   .dedent, nm "else", op ":", .newline,
   .indent, nm "print", op "(", str "Error uploading image. Status code:", op ",",
   nm "response", op ".", nm "status_code", op ")", .newline,
   .dedent, nm "post_data", op "[", str "featured_media", op "]", op "=", nm "media_id", .newline,
   nm "response", op "=", nm "requests", op ".", nm "post", op "(", nm "api_endpoint", op ",",
   nm "json", op "=", nm "post_data", op ",", nm "auth", op "=", nm "auth", op ")", .newline,
   nm "if", nm "response", op ".", nm "status_code", op "==", num "201", op ":", .newline,
   .indent, nm "print", op "(", str "Post created successfully!", op ")", .newline,
   .dedent, nm "else", op ":", .newline,
   .indent, nm "print", op "(", str "Error creating post. Status code:", op ",",
   nm "response", op ".", nm "status_code", op ")", .newline, .dedent]

end

/-- The tokens the program is meant to have, with the values of the two literals
that hold expansions. -/
def posterTokens (pw : AppPassword) (links title : Str) : List (Token Str) :=
  headTokens.map Token.plain ++ .str [] links ::
    (authTokens.map Token.plain ++ .str [] (codes pw.chars) ::
      (dataTokens.map Token.plain ++ .str [] title :: tailTokens.map Token.plain))

/-- The program text is a text, it has the tokens it is meant to have, and the two
literals have exactly the title and the links as their values. -/
def PostsExactly (names : List Char → Option ℕ) (pw : AppPassword) (t : Title) : Prop :=
  ∃ src title links, encode src = posterProgram pw t ∧ encode title = t.bytes ∧
    encode links = linksBytes pw t ∧
    programTokens names src = some (posterTokens pw (codes links) (codes title))

/-! ## The lexer on the fixed parts

Each part is run by evaluation, from the state the part before it leaves. The
parts are stated as lists of characters: `String.toList_ofList` turns a literal
into one without decoding its bytes. -/

section FixedParts

variable {pw : AppPassword}

/-- The first part of the program, lexed once and for all: it ends inside the literal of `links`.
-/
theorem progHead_spec :
    '\r' ∉ progHead ∧
      run Lexer.init progHead = (⟨[0], 0, .long [] '\'' [] 0⟩, headTokens) := by
  decide +kernel

/-- The part between the literals leads from the end of one to the beginning of the next, -/
theorem progAuth_spec : ∃ w, progAuth = '\'' :: '\'' :: '\'' :: w ∧ '\r' ∉ w ∧
    run ⟨[0], 0, .blank⟩ w = (⟨[0], 0, .quote1 [] '\''⟩, authTokens) :=
  ⟨_, String.toList_ofList, by decide +kernel⟩

/-- as does the part between the application password and the title, -/
theorem progData_spec : ∃ w, progData = '\'' :: '\n' :: w ∧ '\r' ∉ w ∧
    run ⟨[0], 0, .blank⟩ ('\n' :: w) = (⟨[0], 1, .quote1 [] '\''⟩, dataTokens) :=
  ⟨_, String.toList_ofList, by decide +kernel⟩

/-- and the last part ends the program. It has no backslash and no two quotes in a row, so a
literal that is still open stays open. -/
theorem progTail_spec : ∃ w, progTail = '\'' :: ',' :: w ∧ '\r' ∉ w ∧ Sparse '\'' w ∧
    (run ⟨[0], 1, .blank⟩ (',' :: w)).finish = some tailTokens :=
  ⟨_, String.toList_ofList, by decide +kernel⟩

/-- The text behind the links is clean. That its last characters are no quote matters for where
the literal ends. -/
theorem linksTail_spec :
    CleanText linksTail ∧ linksTail = linksTail.dropLast.dropLast ++ ['>', '\n'] := by
  have h : ∃ l, linksTail = l ∧ CleanText l ∧ l = l.dropLast.dropLast ++ ['>', '\n'] :=
    ⟨_, String.toList_ofList, by decide +kernel⟩
  obtain ⟨l, hl, hspec⟩ := h
  rw [hl]
  exact hspec

/-- The tokens of the fixed parts need no evaluation. -/
theorem tokens_isPlain :
    ∀ t ∈ headTokens ++ (authTokens ++ (dataTokens ++ tailTokens)), t.IsPlain := by
  decide +kernel

theorem headTokens_isPlain : ∀ t ∈ headTokens, t.IsPlain :=
  (List.forall_mem_append.mp tokens_isPlain).1

theorem authTokens_isPlain : ∀ t ∈ authTokens, t.IsPlain :=
  (List.forall_mem_append.mp (List.forall_mem_append.mp tokens_isPlain).2).1

theorem dataTokens_isPlain : ∀ t ∈ dataTokens, t.IsPlain :=
  (List.forall_mem_append.mp
    (List.forall_mem_append.mp (List.forall_mem_append.mp tokens_isPlain).2).2).1

theorem tailTokens_isPlain : ∀ t ∈ tailTokens, t.IsPlain :=
  (List.forall_mem_append.mp
    (List.forall_mem_append.mp (List.forall_mem_append.mp tokens_isPlain).2).2).2

end FixedParts

/-! ## The program as a text with two holes -/

/-- The program text around the text of `links` and the text of the title. -/
def program (pw : AppPassword) (links title : List Char) : List Char :=
  progHead ++ (links ++ (progAuth ++ (pw.chars ++ (progData ++ (title ++ progTail)))))

/-- The program as a text has the bytes of the here-document, when the two texts in it have the
bytes that the shell puts there. -/
theorem encode_program {pw : AppPassword} {t : Title} {links title : List Char}
    (hlinks : encode links = linksBytes pw t) (htitle : encode title = t.bytes) :
    encode (program pw links title) = posterProgram pw t := by
  rw [program, posterProgram, heredoc, List.cons_append, List.flatMap_cons, List.flatMap_append]
  change _ = _ ++ (linksBytes pw t ++ _)
  rw [← hlinks]
  simp [encode_append, Part.expand, htitle]

/-- The lines of the two texts are ended the same way in place as apart. -/
theorem normNewlines_program (pw : AppPassword) (links title : List Char) :
    normNewlines (program pw links title) =
      program pw (normNewlines links) (normNewlines title) := by
  obtain ⟨wa, hauth, hra, -⟩ := progAuth_spec
  obtain ⟨wd, hdata, hrd, -⟩ := progData_spec
  obtain ⟨wt, htail, hrt, -⟩ := progTail_spec
  have hauth' : '\r' ∉ progAuth := by simp [hauth, hra]
  have hdata' : '\r' ∉ progData := by simp [hdata, hrd]
  have htail' : '\r' ∉ progTail := by simp [htail, hrt]
  rw [program, normNewlines_append_of_not_mem progHead_spec.1,
    normNewlines_append (by simp [hauth]), normNewlines_append_of_not_mem hauth',
    normNewlines_append_of_not_mem pw.no_return, normNewlines_append_of_not_mem hdata',
    normNewlines_append (by simp [htail]), normNewlines_of_not_mem htail']
  rfl

/-- From inside the `links` literal to behind the opening quote of the title. Nothing here
depends on what the literal has in it. -/
theorem run_behind_links (pw : AppPassword) (body w : List Char) :
    run ⟨[0], 0, .long [] '\'' body 0⟩ (progAuth ++ (pw.chars ++ (progData ++ w))) =
      Step.andThen (⟨[0], 1, .quote1 [] '\''⟩,
        .str [] body :: (authTokens ++ .str [] pw.chars :: dataTokens)) fun s => run s w := by
  obtain ⟨wa, hauth, -, hrunAuth⟩ := progAuth_spec
  obtain ⟨wd, hdata, -, hrunData⟩ := progData_spec
  have hdataRun : run ⟨[0], 0, .blank⟩ ('\n' :: (wd ++ w)) =
      Step.andThen (⟨[0], 1, .quote1 [] '\''⟩, dataTokens) fun s => run s w := by
    rw [← List.cons_append, run_append, hrunData]
  have hpwRun : run ⟨[0], 0, .quote1 [] '\''⟩ (pw.chars ++ (progData ++ w)) =
      Step.andThen (⟨[0], 1, .quote1 [] '\''⟩, .str [] pw.chars :: dataTokens) fun s => run s w := by
    rw [hdata, List.cons_append, List.cons_append,
      run_short_literal rfl pw.noEscape pw.no_quote pw.no_newline (by decide)]
    simp [hdataRun, Step.andThen]
  rw [hauth, List.cons_append, List.cons_append, List.cons_append, run_long_close]
  simp [Step.andThen, run_append, hrunAuth, hpwRun]

/-- **The tokens of the program**, once the text of `links` is known to stay inside its
quotes. -/
theorem tokens_program {pw : AppPassword} {links title : List Char}
    (h : run ⟨[0], 0, .long [] '\'' [] 0⟩ (normNewlines links) =
      (⟨[0], 0, .long [] '\'' (normNewlines links) 0⟩, [])) :
    tokens (program pw links title) =
      (run ⟨[0], 1, .quote1 [] '\''⟩ (normNewlines title ++ progTail)).finish.map fun rest =>
        headTokens ++ .str [] (normNewlines links) ::
          (authTokens ++ .str [] pw.chars :: (dataTokens ++ rest)) := by
  rw [tokens, normNewlines_program, program, run_append, progHead_spec.2, finish_andThen,
    run_append, h, finish_andThen, run_behind_links, finish_andThen]
  simp [Function.comp_def]

/-! ## Clean titles are posted exactly -/

/-- For a clean title, `links` is a clean text as well: markup, the title, and two links that are
made of it. -/
theorem exists_links (pw : AppPassword) {t : Title} (h : Clean t) :
    ∃ links, encode links = linksBytes pw t ∧ CleanText links := by
  obtain ⟨title, htitle, hclean⟩ := h
  obtain ⟨text, htext, hcleanText⟩ := Clean.exists_text ⟨title, htitle, hclean⟩
  obtain ⟨hcleanTail, -⟩ := linksTail_spec
  have hbefore : CleanText linksTitle := by decide +kernel
  have hhref : CleanText linksHref := by decide +kernel
  have hmid : CleanText linksMid := by decide +kernel
  refine ⟨linksTitle ++ (title ++ (linksHref ++ (text ++ (linksMid ++ (text ++ linksTail))))), ?_, ?_⟩
  · simp [linksBytes, linksParts, Part.expand, encode_append, htitle, htext]
  · exact hbefore.append (hclean.append (hhref.append (hcleanText.append (hmid.append
      (hcleanText.append hcleanTail)))))

/-- A clean title gives the program that is meant. The fixed parts are runs that have been
computed, and the two literals are read as they stand. -/
theorem postsExactly_of_clean (names : List Char → Option ℕ) (pw : AppPassword) {t : Title}
    (h : Clean t) : PostsExactly names pw t := by
  obtain ⟨links, hlinks, hcleanLinks⟩ := exists_links pw h
  obtain ⟨title, htitle, hclean⟩ := h
  obtain ⟨wt, htail, -, -, hrunTail⟩ := progTail_spec
  have hnl : '\n' ∉ title := fun hmem =>
    t.no_newline (htitle ▸ (byte_mem_encode_iff (by decide)).mpr hmem)
  have hlong : run ⟨[0], 0, .long [] '\'' [] 0⟩ (normNewlines links) =
      (⟨[0], 0, .long [] '\'' (normNewlines links) 0⟩, []) := by
    rw [normNewlines_of_not_mem hcleanLinks.no_return,
      run_long_noEscape links [] hcleanLinks.noEscape hcleanLinks.no_quote]
    rfl
  have htitleRun : (run ⟨[0], 1, .quote1 [] '\''⟩ (title ++ progTail)).finish =
      some (.str [] title :: tailTokens) := by
    rw [htail, run_short_literal rfl hclean.noEscape hclean.no_quote hnl (by decide),
      finish_andThen, hrunTail]
    rfl
  refine ⟨program pw links title, title, links, encode_program hlinks htitle, htitle, hlinks, ?_⟩
  rw [programTokens, tokens_program hlong, normNewlines_of_not_mem hclean.no_return, htitleRun,
    normNewlines_of_not_mem hcleanLinks.no_return, Option.map_some, Option.bind_some, posterTokens,
    evalTokens_append_of_isPlain headTokens_isPlain, evalTokens_str_cons_eq_some,
    evalTokens_append_of_isPlain authTokens_isPlain, evalTokens_str_cons_eq_some,
    evalTokens_append_of_isPlain dataTokens_isPlain, evalTokens_str_cons_eq_some]
  exact ⟨rfl, unescape_of_noEscape hcleanLinks.noEscape, rfl, unescape_of_noEscape pw.noEscape, rfl,
    unescape_of_noEscape hclean.noEscape, evalTokens_of_isPlain tailTokens_isPlain⟩

/-! ## Titles that are posted exactly are clean -/

/-- The title stands at the front of a line of `links`, behind the template's own
text. -/
theorem links_eq {pw : AppPassword} {t : Title} {links title : List Char}
    (hlinks : encode links = linksBytes pw t) (htitle : encode title = t.bytes) :
    ∃ u v, links = linksTitle ++ (title ++ '\n' :: u) ∧ links = v ++ ['>', '\n'] := by
  obtain ⟨-, htail⟩ := linksTail_spec
  have hfront : encode links = encode (linksTitle ++ (title ++ linksHref)) ++
      (text t ++ (encode linksMid ++ (text t ++ encode linksTail))) := by
    rw [hlinks]
    simp [linksBytes, linksParts, Part.expand, encode_append, htitle]
  have hback : ∃ x, encode links = (x ++ [byte '>']) ++ [byte '\n'] := by
    refine ⟨encode (linksTitle ++ (title ++ linksHref)) ++
      (text t ++ (encode linksMid ++ (text t ++ encode linksTail.dropLast.dropLast))), ?_⟩
    rw [hfront, htail, encode_append]
    simp [encode]
    decide
  obtain ⟨u, hu, -⟩ := encode_eq_encode_append hfront
  obtain ⟨x, hx⟩ := hback
  obtain ⟨v, hv, hvx⟩ := encode_eq_append_byte (by decide) hx
  obtain ⟨v', hv', -⟩ := encode_eq_append_byte (by decide) hvx
  refine ⟨linksHref.tail ++ u, v', ?_, ?_⟩
  · have hhref : linksHref = '\n' :: linksHref.tail := by decide +kernel
    rw [hu, hhref]
    simp
  · rw [hv, hv']
    simp

/-- **The `links` literal shows every escape.** When its value is its own text, no backslash in
it forms an escape, and it has no carriage return. The idea is to count: normalising makes a text
no longer, and a value is never longer than its literal and shorter as soon as there is an
escape, so the lengths can only agree where nothing was changed. That the literal might end early
is ruled out the same way. -/
theorem links_spec {names : List Char → Option ℕ} {pw : AppPassword} {links title : List Char}
    {us : List (Token Str)} (hlast : ∃ v, links = v ++ ['>', '\n'])
    (h : programTokens names (program pw links title) =
      some (headTokens.map Token.plain ++ .str [] (codes links) :: us)) :
    NoEscape links ∧ '\r' ∉ links ∧
      run ⟨[0], 0, .long [] '\'' [] 0⟩ (normNewlines links) =
        (⟨[0], 0, .long [] '\'' (normNewlines links) 0⟩, []) := by
  obtain ⟨v, hv⟩ := hlast
  have hnorm : normNewlines links = normNewlines v ++ ['>', '\n'] := by
    rw [hv, normNewlines_append (by decide)]
    rfl
  have hlen : (normNewlines links).length ≤ links.length := length_normNewlines_le links
  rw [programTokens, Option.bind_eq_some_iff] at h
  obtain ⟨ts, hts, heval⟩ := h
  have hlong := @run_long [0] 0 [] '\'' (normNewlines links) [] 0 (by omega) (by omega)
    (fun h => absurd rfl h)
  rw [List.nil_append] at hlong
  -- the value of the literal that comes out has the length of `links`
  have hvalue : ∀ body out, ts = headTokens ++ .str [] body :: out →
      unescape names 0 body = some (codes links) := by
    intro body out hbody
    rw [hbody, evalTokens_append_of_isPlain headTokens_isPlain,
      evalTokens_str_cons_eq_some] at heval
    exact heval.2.1
  generalize hx : run ⟨[0], 0, .long [] '\'' [] 0⟩ (normNewlines links) = x at hlong
  cases hlong with
  | inside k hk hklen hklast =>
      -- the text ends in a newline, so no quote has been counted
      have hk0 : k = 0 := by
        by_contra hne
        have hq := hklast hne
        rw [hnorm] at hq
        simp at hq
      subst hk0
      rw [tokens_program hx, Option.map_eq_some_iff] at hts
      obtain ⟨rest, -, hrest⟩ := hts
      have hval := hvalue _ _ hrest.symm
      obtain ⟨hle, hesc⟩ := length_unescape hval
      rw [length_codes] at hle hesc
      have hesc' : NoEscape (normNewlines links) := by
        refine hesc (Nat.le_antisymm hle hlen) ?_
        rw [hnorm]
        simp
      rw [unescape_of_noEscape hesc', Option.some_inj] at hval
      have heq : normNewlines links = links := codes_injective hval
      exact ⟨heq ▸ hesc', heq ▸ not_mem_normNewlines links, rfl⟩
  | escaped x hlast =>
      rw [hnorm] at hlast
      simp at hlast
  | closed s body out hlen2 =>
      -- a literal that ended within the text would be too short for its value
      exfalso
      rw [tokens, normNewlines_program, program, run_append, progHead_spec.2, finish_andThen,
        run_append, hx, finish_andThen, Option.map_map, Option.map_eq_some_iff] at hts
      obtain ⟨rest, -, hrest⟩ := hts
      have hval := hvalue body (out ++ rest) (by rw [← hrest]; rfl)
      have hle := (length_unescape hval).1
      rw [length_codes] at hle
      omega

/-- And no other title does: from the two literals come the two halves of the condition, the
escapes and the quotes. -/
theorem PostsExactly.clean {names : List Char → Option ℕ} {pw : AppPassword} {t : Title}
    (h : PostsExactly names pw t) : Clean t := by
  obtain ⟨src, title, links, hsrc, htitle, hlinks, htokens⟩ := h
  have hprogram : src = program pw links title :=
    encode_injective (hsrc.trans (encode_program hlinks htitle).symm)
  subst hprogram
  obtain ⟨u, v, hu, hv⟩ := links_eq hlinks htitle
  obtain ⟨hesc, hreturn, hlong⟩ := links_spec ⟨v, hv⟩ htokens
  rw [hu] at hesc hreturn
  have hescTitle : NoEscape title := hesc.of_append_right.of_append_left (by decide)
  have hreturnTitle : '\r' ∉ title := fun hmem => hreturn (by simp [hmem])
  refine ⟨title, htitle, hescTitle, ?_, hreturnTitle⟩
  intro hquote
  have hnl : '\n' ∉ title := fun hmem =>
    t.no_newline (htitle ▸ (byte_mem_encode_iff (by decide)).mpr hmem)
  obtain ⟨wt, htail, -, hsparse, -⟩ := progTail_spec
  rw [programTokens, Option.bind_eq_some_iff] at htokens
  obtain ⟨ts, hts, heval⟩ := htokens
  rw [tokens_program hlong, normNewlines_of_not_mem hreturnTitle, Option.map_eq_some_iff] at hts
  obtain ⟨rest, hrest, rfl⟩ := hts
  rw [posterTokens, evalTokens_append_of_isPlain headTokens_isPlain, evalTokens_str_cons_eq_some,
    evalTokens_append_of_isPlain authTokens_isPlain, evalTokens_str_cons_eq_some,
    evalTokens_append_of_isPlain dataTokens_isPlain] at heval
  obtain ⟨-, -, -, -, htitleEval⟩ := heval
  rw [htail] at hrest
  have hcases := run_quote1_of_mem (i := [0]) (d := 1) (q := '\'') (w := title)
    (t := ',' :: wt) (by decide) (by decide) hescTitle hnl hquote
    ⟨by decide, fun hcomma => absurd hcomma (by decide), hsparse⟩ (by simp)
  rcases hcases with ⟨body, out, hrun, hshort⟩ | hnone
  · rw [Step.finish, hrun, Option.map_eq_some_iff] at hrest
    obtain ⟨rest', -, rfl⟩ := hrest
    rw [List.cons_append, evalTokens_str_cons_eq_some] at htitleEval
    have hle := length_literalValue_le htitleEval.2.1
    rw [length_codes] at hle
    omega
  · rw [hnone] at hrest
    cases hrest

/-- **Which titles are posted exactly**: those that are well-formed UTF-8, have no
single quote and no carriage return, and no backslash of which forms an escape
in a Python literal. -/
theorem postsExactly_iff (names : List Char → Option ℕ) (pw : AppPassword) (t : Title) :
    PostsExactly names pw t ↔ Clean t :=
  ⟨PostsExactly.clean, postsExactly_of_clean names pw⟩

/-- `it's`, the title of many a video. -/
def apostropheTitle : Title :=
  Title.ofBytes (encode ['i', 't', '\'', 's']) (by decide)

/-- With an apostrophe in the title the program is not the one meant. -/
theorem not_postsExactly_apostropheTitle :
    ¬ PostsExactly (fun _ => none) ⟨[], trivial, by simp, by simp, by simp, by simp⟩ apostropheTitle := by
  intro h
  obtain ⟨cs, hcs, hclean⟩ := h.clean
  have hchars : cs = ['i', 't', '\'', 's'] := encode_injective hcs
  exact hclean.no_quote (by rw [hchars]; decide)

end VideoUploader.PosterHeredoc
