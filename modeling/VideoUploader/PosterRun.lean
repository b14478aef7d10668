/-
What the WordPress poster does when it is run: `video-uploader.sh`, lines 113 to 176.

The program text is made by the shell, so it is taken all the way: its tokens, the
program they are parsed to, and the run of that program. The requests library, the
files that can be opened and the site are the host. `publish` says what the
program is for, and the theorem of this file that for every clean title running
the text does just that, whatever the site answers.
-/
import VideoUploader.PyEval
import VideoUploader.WordpressPoster

set_option autoImplicit false
set_option maxRecDepth 8192

namespace VideoUploader.PosterRun

open Bash Utf8 Python VideoTitle PosterHeredoc

/-! ## The site and the requests -/

/-- A `POST` with its files (each with its field, its file name and its bytes), its JSON
and the name and password of the basic authentication. -/
structure Request where
  url : Str
  files : List (Str × Str × Bytes)
  json : Option Json
  auth : Option (Str × Str)

/-- An answer, with what its body says if that is JSON. Bodies that are not JSON differ in their
text only. -/
structure Response where
  status_code : ℕ
  body : Option Json

/-- What comes back: an answer, or an exception because none came. -/
inductive Reply where
  | response (r : Response)
  | failed (kind : List Char)

/-- What the program acts on. The site is in any state `S`; what has been sent and
printed is recorded. -/
structure World (S : Type) where
  files : Str → Option Bytes
  site : S
  sent : List Request
  printed : List (List Json)

/-- How a site answers a request. It has a state, so the second answer may depend on the first
request. -/
abbrev Server (S : Type) := S → Request → Reply × S

/-- A request is sent, and stays in the list of those that have been. -/
def World.send {S : Type} (server : Server S) (w : World S) (r : Request) : Reply × World S :=
  ((server w.site r).1, { w with site := (server w.site r).2, sent := w.sent ++ [r] })

def World.print {S : Type} (w : World S) (line : List Json) : World S :=
  { w with printed := w.printed ++ [line] }

/-! ## The host of the program -/

/-- Modules, functions and objects that the program names or is given. -/
inductive Obj where
  | requests
  | requests_auth
  | HTTPBasicAuth
  | post
  | open
  | print
  | str
  | file (name : Str) (bytes : Bytes)
  | auth (username password : Str)
  | response (r : Response)
  | response_json (r : Response)

abbrev PyValue := Value Obj

/-- `files=`: a dictionary of opened files. Anything else in it is not a request that the model
knows. -/
def filesArg (heap : Heap Obj) : PyValue → Option (List (Str × Str × Bytes))
  | .dict r =>
      (heap[r]?).bind fun d => d.mapM fun x =>
        match x.2 with
        | .host (.file name bytes) => some (x.1, name, bytes)
        | _ => none
  | _ => none

/-- The request of a call of `requests.post`, argument by argument. What is no JSON
raises `TypeError`. -/
def postArgs (heap : Heap Obj) : List (List Char × PyValue) → Request → Except Exn Request
  | [], r => .ok r
  | (k, v) :: kw, r =>
      if k = ['f', 'i', 'l', 'e', 's'] then
        match filesArg heap v with
        | some fs => postArgs heap kw { r with files := fs }
        | none => .error .unmodelled
      else if k = ['j', 's', 'o', 'n'] then
        match toJson heap (heap.length + 1) v with
        | some j => postArgs heap kw { r with json := some j }
        | none => .error .typeError
      else if k = ['a', 'u', 't', 'h'] then
        match v with
        | .host (.auth u p) => postArgs heap kw { r with auth := some (u, p) }
        | _ => .error .unmodelled
      else .error .unmodelled

/-- Values that `print` shows as JSON would be. -/
def printArgs : List PyValue → Option (List Json)
  | [] => some []
  | .json j :: vs => (printArgs vs).map fun js => j :: js
  | _ :: _ => none

section Host

variable {S : Type} (server : Server S)

/-- `open(name, mode)`, for reading bytes. A file that is missing is an exception. -/
def openFile (w : World S) (name mode : Str) : Except Exn PyValue :=
  if mode = codes ['r', 'b'] then
    match w.files name with
    | some bytes => .ok (.host (.file name bytes))
    | none => .error (.foreign ['O', 'S', 'E', 'r', 'r', 'o', 'r'])
  else .error .unmodelled

/-- `response.json()`, which raises when the body is no JSON. -/
def responseJson (r : Response) : Except Exn Json :=
  match r.body with
  | some j => .ok j
  | none => .error (.foreign ['J', 'S', 'O', 'N', 'D', 'e', 'c', 'o', 'd', 'e', 'E', 'r', 'r', 'o', 'r'])

/-- What a reply gives to the program. -/
def Reply.value : Reply → Except Exn PyValue
  | .response r => .ok (.host (.response r))
  | .failed kind => .error (.foreign kind)

/-- `requests.post(url, ...)`. A keyword that is missing has its default value, which is nothing
at all for all of them. -/
def requestsPost (heap : Heap Obj) (url : Str) (kw : List (List Char × PyValue)) (w : World S) :
    Except Exn PyValue × World S :=
  match postArgs heap kw ⟨url, [], none, none⟩ with
  | .error x => (.error x, w)
  | .ok r => ((w.send server r).1.value, (w.send server r).2)

def call (heap : Heap Obj) (o : Obj) (args : List PyValue) (kw : List (List Char × PyValue))
    (w : World S) : Except Exn PyValue × World S :=
  match o, args, kw with
  | .HTTPBasicAuth, [.json (.str u), .json (.str p)], [] => (.ok (.host (.auth u p)), w)
  | .str, [.json (.str s)], [] => (.ok (.json (.str s)), w)
  | .open, [.json (.str name), .json (.str mode)], [] => (openFile w name mode, w)
  | .print, args, [] =>
      match printArgs args with
      | some line => (.ok (.json .null), w.print line)
      | none => (.error .unmodelled, w)
  | .post, [.json (.str url)], kw => requestsPost server heap url kw w
  | .response_json r, [], [] => ((responseJson r).map Value.json, w)
  | _, _, _ => (.error .unmodelled, w)

/-- What the program's names stand for, besides its variables. -/
def host : Host Obj (World S) where
  module m := if m = ['r', 'e', 'q', 'u', 'e', 's', 't', 's'] then some .requests else none
  builtin x :=
    if x = ['o', 'p', 'e', 'n'] then some .open
    else if x = ['p', 'r', 'i', 'n', 't'] then some .print
    else if x = ['s', 't', 'r'] then some .str
    else none
  attr o x :=
    match o with
    | .requests =>
        if x = ['a', 'u', 't', 'h'] then some (.host .requests_auth)
        else if x = ['p', 'o', 's', 't'] then some (.host .post)
        else none
    | .requests_auth =>
        if x = ['H', 'T', 'T', 'P', 'B', 'a', 's', 'i', 'c', 'A', 'u', 't', 'h'] then
          some (.host .HTTPBasicAuth)
        else none
    | .response r =>
        if x = ['s', 't', 'a', 't', 'u', 's', '_', 'c', 'o', 'd', 'e'] then
          some (.json (.int r.status_code))
        else if x = ['j', 's', 'o', 'n'] then some (.host (.response_json r))
        else none
    | _ => none
  call := call server

/-- `python3 <<EOF`. A program that is not UTF-8 is refused before any of it is run. -/
def python3 (names : List Char → Option ℕ) (program : Bytes) (w : World S) : RunResult (World S) :=
  match decode program with
  | none => .syntaxError
  | some src => runSource (host server) names src w

end Host

/-! ## The program

Lines 114 to 175, statement by statement. -/

namespace Names

def requests : Ident := ⟨['r', 'e', 'q', 'u', 'e', 's', 't', 's'], by decide⟩

def links : Ident := ⟨['l', 'i', 'n', 'k', 's'], by decide⟩

def api_endpoint : Ident := ⟨['a', 'p', 'i', '_', 'e', 'n', 'd', 'p', 'o', 'i', 'n', 't'], by decide⟩

def username : Ident := ⟨['u', 's', 'e', 'r', 'n', 'a', 'm', 'e'], by decide⟩

def app_password : Ident := ⟨['a', 'p', 'p', '_', 'p', 'a', 's', 's', 'w', 'o', 'r', 'd'], by decide⟩

def auth : Ident := ⟨['a', 'u', 't', 'h'], by decide⟩

def HTTPBasicAuth : Ident := ⟨['H', 'T', 'T', 'P', 'B', 'a', 's', 'i', 'c', 'A', 'u', 't', 'h'], by decide⟩

def post_data : Ident := ⟨['p', 'o', 's', 't', '_', 'd', 'a', 't', 'a'], by decide⟩

def str : Ident := ⟨['s', 't', 'r'], by decide⟩

def image_file : Ident := ⟨['i', 'm', 'a', 'g', 'e', '_', 'f', 'i', 'l', 'e'], by decide⟩

def open_ : Ident := ⟨['o', 'p', 'e', 'n'], by decide⟩

def response : Ident := ⟨['r', 'e', 's', 'p', 'o', 'n', 's', 'e'], by decide⟩

def post : Ident := ⟨['p', 'o', 's', 't'], by decide⟩

def files : Ident := ⟨['f', 'i', 'l', 'e', 's'], by decide⟩

def status_code : Ident := ⟨['s', 't', 'a', 't', 'u', 's', '_', 'c', 'o', 'd', 'e'], by decide⟩

def media_id : Ident := ⟨['m', 'e', 'd', 'i', 'a', '_', 'i', 'd'], by decide⟩

def json : Ident := ⟨['j', 's', 'o', 'n'], by decide⟩

def print : Ident := ⟨['p', 'r', 'i', 'n', 't'], by decide⟩

end Names

/-- A string literal of the program. -/
def lit (s : String) : Expr := .str (codes s.toList)

def nm (x : Ident) : Expr := .name x

/-- `response.status_code == 201`, asked after each of the two requests. -/
def created : Expr :=
  .eq (.attr (nm Names.response) Names.status_code) (.number ['2', '0', '1'])

/-- `print(...)`. -/
def printing (es : List Expr) : Stmt := .expr (.call (nm Names.print) (es.map fun e => (none, e)))

/-- Lines 114 to 154: the imports, the texts, and the data of the post. -/
def setUp (pw : AppPassword) (links title : Str) : List Stmt :=
  [.imports Names.requests,
   .assign Names.links (.str links),
   .assign Names.api_endpoint (lit "https://fixapc.net/wp-json/wp/v2/posts"),
   .assign Names.username (lit "fixapc"),
   .assign Names.app_password (.str (codes pw.chars)),
   .assign Names.auth (.call (.attr (.attr (nm Names.requests) Names.auth) Names.HTTPBasicAuth)
     [(none, nm Names.username), (none, nm Names.app_password)]),
   .assign Names.post_data (.dict
     [(lit "title", .str title),
      (lit "content", .call (nm Names.str) [(none, nm Names.links)]),
      (lit "status", lit "publish")])]

/-- Lines 157 to 163. The answer is tested before its `id` is looked up. -/
def uploadImage : List Stmt :=
  [.assign Names.image_file (.dict
     [(lit "file", .call (nm Names.open_) [(none, lit "video_cover_fix.png"), (none, lit "rb")])]),
   .assign Names.response (.call (.attr (nm Names.requests) Names.post)
     [(none, lit "https://fixapc.net/wp-json/wp/v2/media"),
      (some Names.files, nm Names.image_file), (some Names.auth, nm Names.auth)]),
   .ifElse created
     [.assign Names.media_id (.index (.call (.attr (nm Names.response) Names.json) []) (lit "id")),
      printing [lit "Image uploaded successfully!"]]
     [printing [lit "Error uploading image. Status code:",
       .attr (nm Names.response) Names.status_code]]]

/-- Lines 166 to 175. The first of them uses `media_id`, which there may not be. -/
def createPost : List Stmt :=
  [.setItem (nm Names.post_data) (lit "featured_media") (nm Names.media_id),
   .assign Names.response (.call (.attr (nm Names.requests) Names.post)
     [(none, nm Names.api_endpoint), (some Names.json, nm Names.post_data),
      (some Names.auth, nm Names.auth)]),
   .ifElse created
     [printing [lit "Post created successfully!"]]
     [printing [lit "Error creating post. Status code:",
       .attr (nm Names.response) Names.status_code]]]

/-- The program as a tree. The three strings are what the here-document's text depends on. -/
def poster (pw : AppPassword) (links title : Str) : List Stmt :=
  setUp pw links title ++ (uploadImage ++ createPost)

theorem blockWf_poster (pw : AppPassword) (links title : Str) : BlockWf (poster pw links title) := by
  simp [poster, setUp, uploadImage, createPost, printing, BlockWf, Stmt.Wf]

/-- The tokens of the program are those the here-document is meant to have. -/
theorem blockTokens_poster (pw : AppPassword) (links title : Str) :
    blockTokens (poster pw links title) = posterTokens pw links title := by
  rfl

/-! ## What the program is for -/

/-- `username` and the application password, which go with both requests. -/
def credentials (pw : AppPassword) : Str × Str := (codes "fixapc".toList, codes pw.chars)

def coverName : Str := codes "video_cover_fix.png".toList

/-- The cover is uploaded under its own name. -/
def mediaRequest (pw : AppPassword) (bytes : Bytes) : Request :=
  ⟨codes "https://fixapc.net/wp-json/wp/v2/media".toList,
    [(codes "file".toList, coverName, bytes)], none, some (credentials pw)⟩

/-- The post, with the image that was uploaded for it. -/
def postRequest (pw : AppPassword) (title links : Str) (media_id : Json) : Request :=
  ⟨codes "https://fixapc.net/wp-json/wp/v2/posts".toList, [],
    some (.obj [(codes "title".toList, .str title), (codes "content".toList, .str links),
      (codes "status".toList, .str (codes "publish".toList)),
      (codes "featured_media".toList, media_id)]),
    some (credentials pw)⟩

/-- `['id']`, of what a body says. It may have no such key, or be no object. -/
def idOf : Json → Except Exn Json
  | .obj items =>
      match getKey (codes "id".toList) items with
      | some j => .ok j
      | none => .error (.keyError (codes "id".toList))
  | _ => .error .typeError

/-- `response.json()['id']`. -/
def mediaId (r : Response) : Except Exn Json := (responseJson r).bind idOf

def jsonText (s : String) : Json := .str (codes s.toList)

/-- What is printed about the post, by its status. -/
def postLine (r : Response) : List Json :=
  if r.status_code = 201 then [jsonText "Post created successfully!"]
  else [jsonText "Error creating post. Status code:", .int r.status_code]

section Publish

variable {S : Type} (server : Server S) (pw : AppPassword) (title links : Str)

/-- The second request, once the image has an id. -/
def postWith (media_id : Json) (w : World S) : RunResult (World S) :=
  match w.send server (postRequest pw title links media_id) with
  | (.failed kind, w') => .raised (.foreign kind) w'
  | (.response r, w') =>
      .finished (w'.print (postLine r))

/-- **Publishing**: the image first, and the post only with the id of the image. When
the image is refused the variable for the id is never set, so the program ends there. -/
def publish (w : World S) : RunResult (World S) :=
  match w.files coverName with
  | none => .raised (.foreign ['O', 'S', 'E', 'r', 'r', 'o', 'r']) w
  | some bytes =>
      match w.send server (mediaRequest pw bytes) with
      | (.failed kind, w') => .raised (.foreign kind) w'
      | (.response r, w') =>
          if r.status_code = 201 then
            match mediaId r with
            | .error x => .raised x w'
            | .ok media_id =>
                postWith server pw title links media_id
                  (w'.print [jsonText "Image uploaded successfully!"])
          else
            .raised (.nameError Names.media_id.chars)
              (w'.print [jsonText "Error uploading image. Status code:", .int r.status_code])

end Publish

/-! ## The run, part by part -/

section Run

variable {S : Type} {server : Server S} {pw : AppPassword} {title links : Str}

/-- The variables behind `setUp`. -/
def setUpVars (pw : AppPassword) (links : Str) : List Char → Option PyValue := fun x =>
  if x = Names.post_data.chars then some (.dict 0)
  else if x = Names.auth.chars then some (.host (.auth (credentials pw).1 (credentials pw).2))
  else if x = Names.app_password.chars then some (.json (.str (codes pw.chars)))
  else if x = Names.username.chars then some (.json (jsonText "fixapc"))
  else if x = Names.api_endpoint.chars then
    some (.json (jsonText "https://fixapc.net/wp-json/wp/v2/posts"))
  else if x = Names.links.chars then some (.json (.str links))
  else if x = Names.requests.chars then some (.host .requests)
  else none

def postData (title links : Str) : Dict Obj :=
  [(codes "title".toList, .json (.str title)), (codes "content".toList, .json (.str links)),
   (codes "status".toList, .json (jsonText "publish"))]

def readyState (pw : AppPassword) (title links : Str) (w : World S) : State Obj (World S) :=
  ⟨setUpVars pw links, [postData title links], w⟩

/-- The first part makes no request and cannot fail. -/
theorem exec_setUp (w : World S) :
    execBlock (host server) (setUp pw links title) (State.start w) =
      (.ok (), readyState pw title links w) := by
  have hrun : ∃ vars, execBlock (host server) (setUp pw links title) (State.start w) =
      (.ok (), ⟨vars, [postData title links], w⟩) ∧ vars = setUpVars pw links := by
    refine ⟨_, rfl, ?_⟩
    funext x
    simp only [Function.update_apply]
    rfl
  obtain ⟨vars, h, rfl⟩ := hrun
  exact h

/-! ### Uploading the image -/

def openCover : Expr :=
  .call (nm Names.open_) [(none, lit "video_cover_fix.png"), (none, lit "rb")]

def imageFile (bytes : Bytes) : Dict Obj :=
  [(codes "file".toList, .host (.file coverName bytes))]

/-- Behind line 157, with the file opened. -/
def fileState (pw : AppPassword) (title links : Str) (bytes : Bytes) (w : World S) :
    State Obj (World S) :=
  ⟨Function.update (setUpVars pw links) Names.image_file.chars (some (.dict 1)),
    [postData title links, imageFile bytes], w⟩

theorem eval_openCover (w : World S) :
    eval (host server) openCover (readyState pw title links w) =
      (openFile w coverName (codes ['r', 'b']), readyState pw title links w) :=
  eval_call rfl rfl rfl rfl

/-- Without a cover the program ends here, and nothing has been sent. -/
theorem exec_imageFile_error {w : World S} (hf : w.files coverName = none) :
    exec (host server) (.assign Names.image_file (.dict [(lit "file", openCover)]))
        (readyState pw title links w) =
      (.error (.foreign ['O', 'S', 'E', 'r', 'r', 'o', 'r']), readyState pw title links w) := by
  have hopen := @eval_openCover S server pw title links w
  have hfile : openFile w coverName (codes ['r', 'b']) =
      .error (.foreign ['O', 'S', 'E', 'r', 'r', 'o', 'r']) := by
    rw [openFile, if_pos rfl, hf]
  rw [hfile] at hopen
  apply exec_assign_error
  apply Eval.andThen_error
  show Eval.andThen (eval (host server) openCover) _ _ = _
  rw [Eval.andThen_error hopen]

theorem exec_imageFile {w : World S} {bytes : Bytes} (hf : w.files coverName = some bytes) :
    exec (host server) (.assign Names.image_file (.dict [(lit "file", openCover)]))
        (readyState pw title links w) = (.ok (), fileState pw title links bytes w) := by
  have hopen := @eval_openCover S server pw title links w
  have hfile : openFile w coverName (codes ['r', 'b']) = .ok (.host (.file coverName bytes)) := by
    rw [openFile, if_pos rfl, hf]
  rw [hfile] at hopen
  have hitems : evalItems (host server) [(lit "file", openCover)] (readyState pw title links w) =
      (.ok (imageFile bytes), readyState pw title links w) := by
    show Eval.andThen (eval (host server) openCover) _ _ = _
    rw [Eval.andThen_ok hopen]
    rfl
  have hdict : eval (host server) (.dict [(lit "file", openCover)]) (readyState pw title links w) =
      (.ok (.dict 1), ⟨setUpVars pw links, [postData title links, imageFile bytes], w⟩) := by
    show Eval.andThen (evalItems (host server) _) newDict _ = _
    rw [Eval.andThen_ok hitems]
    rfl
  exact exec_assign hdict

def uploadCall : Expr :=
  .call (.attr (nm Names.requests) Names.post)
    [(none, lit "https://fixapc.net/wp-json/wp/v2/media"),
     (some Names.files, nm Names.image_file), (some Names.auth, nm Names.auth)]

/-- The first request, and what its reply comes to. -/
theorem eval_uploadCall (bytes : Bytes) (w : World S) :
    eval (host server) uploadCall (fileState pw title links bytes w) =
      ((w.send server (mediaRequest pw bytes)).1.value,
        fileState pw title links bytes (w.send server (mediaRequest pw bytes)).2) :=
  eval_call rfl rfl rfl rfl

/-- With the response `r` in its variable. -/
def withResponse (s : State Obj (World S)) (r : Response) : State Obj (World S) :=
  { s with vars := Function.update s.vars Names.response.chars (some (.host (.response r))) }

/-- The test for the status. It is a comparison of numbers, whatever the body says. -/
theorem eval_created (s : State Obj (World S)) (r : Response) :
    eval (host server) created (withResponse s r) =
      (.ok (.json (.bool (decide (r.status_code = 201)))), withResponse s r) := by
  have hcode : eval (host server) (.attr (nm Names.response) Names.status_code)
      (withResponse s r) = (.ok (.json (.int r.status_code)), withResponse s r) := rfl
  have hnumber : eval (host server) (.number ['2', '0', '1']) (withResponse s r) =
      (.ok (.json (.int (201 : ℕ))), withResponse s r) := rfl
  have hequal : (Json.int r.status_code).eqv (.int (201 : ℕ)) =
      some (decide (r.status_code = 201)) := congrArg some (decide_eq_decide.mpr (by omega))
  show Eval.andThen (eval (host server) _) (fun x => (eval (host server) _).andThen fun y =>
    eqValues x y) _ = _
  rw [Eval.andThen_ok hcode, Eval.andThen_ok hnumber, eqValues, hequal]
  rfl

/-- Line 160, the one statement between the two tests. -/
def idStmt : Stmt :=
  .assign Names.media_id (.index (.call (.attr (nm Names.response) Names.json) []) (lit "id"))

/-- With the image's id in its variable. -/
def withId (s : State Obj (World S)) (media_id : Json) : State Obj (World S) :=
  { s with vars := Function.update s.vars Names.media_id.chars (some (.json media_id)) }

theorem getItem_id (j : Json) (s : State Obj (World S)) :
    getItem (.json j) (.json (jsonText "id")) s = ((idOf j).map Value.json, s) := by
  cases j with
  | obj items =>
      have hid : idOf (.obj items) =
          match getKey (codes "id".toList) items with
          | some j => .ok j
          | none => .error (.keyError (codes "id".toList)) := rfl
      show Eval.ofOption _ ((getKey (codes "id".toList) items).map Value.json) s = _
      rw [hid]
      cases getKey (codes "id".toList) items with
      | _ => rfl
  | _ => rfl

/-- The id is in its variable, or the run has ended with an exception of the lookup. -/
theorem exec_idStmt (s : State Obj (World S)) (r : Response) :
    exec (host server) idStmt (withResponse s r) =
      match mediaId r with
      | .error x => (.error x, withResponse s r)
      | .ok media_id => (.ok (), withId (withResponse s r) media_id) := by
  have hcall : eval (host server) (.call (.attr (nm Names.response) Names.json) []) (withResponse s r) =
      ((responseJson r).map Value.json, withResponse s r) := eval_call rfl rfl rfl rfl
  have hitem : eval (host server) (.index (.call (.attr (nm Names.response) Names.json) []) (lit "id"))
      (withResponse s r) = ((mediaId r).map Value.json, withResponse s r) := by
    show Eval.andThen (eval (host server) (.call _ [])) _ _ = _
    unfold mediaId
    cases hbody : responseJson r with
    | error x =>
        rw [hbody] at hcall
        exact Eval.andThen_error hcall
    | ok j =>
        rw [hbody] at hcall
        exact (Eval.andThen_ok hcall).trans (getItem_id j _)
  cases hid : mediaId r with
  | error x =>
      rw [hid] at hitem
      exact exec_assign_error hitem
  | ok media_id =>
      rw [hid] at hitem
      exact exec_assign hitem

/-! ### The post -/

/-- Behind line 166, with the id in the data of the post. -/
def postState (pw : AppPassword) (title links : Str) (bytes : Bytes) (r : Response)
    (media_id : Json) (w : World S) : State Obj (World S) :=
  ⟨(withId (withResponse (fileState pw title links bytes w) r) media_id).vars,
    [postData title links ++ [(codes "featured_media".toList, .json media_id)], imageFile bytes], w⟩

theorem exec_featured (bytes : Bytes) (r : Response) (media_id : Json) (w : World S) :
    exec (host server) (.setItem (nm Names.post_data) (lit "featured_media") (nm Names.media_id))
        (withId (withResponse (fileState pw title links bytes w) r) media_id) =
      (.ok (), postState pw title links bytes r media_id w) := by
  have hset : ∀ vars, setItem (.dict 0) (.json (jsonText "featured_media")) (.json media_id)
      (⟨vars, [postData title links, imageFile bytes], w⟩ : State Obj (World S)) =
      (.ok (), ⟨vars, [postData title links ++ [(codes "featured_media".toList, .json media_id)],
        imageFile bytes], w⟩) := fun _ => rfl
  exact (exec_setItem rfl rfl rfl).trans (hset _)

/-- Without an id the post is not made: the name is looked up in vain. This is how a refused
image ends the run, though the script only prints that it was refused. -/
theorem exec_featured_error (bytes : Bytes) (r : Response) (w : World S) :
    exec (host server) (.setItem (nm Names.post_data) (lit "featured_media") (nm Names.media_id))
        (withResponse (fileState pw title links bytes w) r) =
      (.error (.nameError Names.media_id.chars),
        withResponse (fileState pw title links bytes w) r) :=
  exec_setItem_error rfl

def postCall : Expr :=
  .call (.attr (nm Names.requests) Names.post)
    [(none, nm Names.api_endpoint), (some Names.json, nm Names.post_data),
     (some Names.auth, nm Names.auth)]

/-- The second request. -/
theorem eval_postCall (bytes : Bytes) (r : Response) (media_id : Json) (w : World S) :
    eval (host server) postCall (postState pw title links bytes r media_id w) =
      ((w.send server (postRequest pw title links media_id)).1.value,
        postState pw title links bytes r media_id
          (w.send server (postRequest pw title links media_id)).2) :=
  eval_call rfl rfl rfl rfl

/-- The last statement prints what became of the post. -/
theorem exec_printPost (bytes : Bytes) (r r' : Response) (media_id : Json) (w : World S) :
    exec (host server) (.ifElse created [printing [lit "Post created successfully!"]]
        [printing [lit "Error creating post. Status code:",
          .attr (nm Names.response) Names.status_code]])
        (withResponse (postState pw title links bytes r media_id w) r') =
      (.ok (), withResponse (postState pw title links bytes r media_id (w.print (postLine r'))) r') := by
  refine (exec_ifElse (eval_created _ r')).trans ?_
  unfold postLine
  by_cases hcode : r'.status_code = 201
  · rw [decide_eq_true hcode, if_pos rfl, if_pos hcode]
    exact execBlock_cons (exec_expr (eval_call rfl rfl rfl rfl))
  · rw [decide_eq_false hcode, if_neg Bool.false_ne_true, if_neg hcode]
    exact execBlock_cons (exec_expr (eval_call rfl rfl rfl rfl))

/-- The second part, once there is an id. -/
theorem exec_createPost (bytes : Bytes) (r : Response) (media_id : Json) (w : World S) :
    .ofState (execBlock (host server) createPost
        (withId (withResponse (fileState pw title links bytes w) r) media_id)) =
      postWith server pw title links media_id w := by
  have hcall := @eval_postCall S server pw title links bytes r media_id w
  unfold createPost postWith
  rw [execBlock_cons (exec_featured bytes r media_id w)]
  show RunResult.ofState (execBlock _ (.assign Names.response postCall :: _) _) = _
  rcases hsend : w.send server (postRequest pw title links media_id) with ⟨reply, w'⟩
  rw [hsend] at hcall
  cases reply with
  | failed kind =>
      rw [execBlock_cons_error (exec_assign_error hcall)]
      rfl
  | response r' =>
      rw [execBlock_cons (exec_assign hcall)]
      show RunResult.ofState (execBlock _ _
        (withResponse (postState pw title links bytes r media_id w') r')) = _
      rw [execBlock_cons (exec_printPost bytes r r' media_id w')]
      rfl

/-! ### The whole program -/

/-- The test behind the upload: an id, an exception on the way to it, or none. -/
theorem exec_afterUpload (bytes : Bytes) (r : Response) (w : World S) :
    RunResult.ofState (execBlock (host server)
        (.ifElse created [idStmt, printing [lit "Image uploaded successfully!"]]
          [printing [lit "Error uploading image. Status code:",
            .attr (nm Names.response) Names.status_code]] :: createPost)
        (withResponse (fileState pw title links bytes w) r)) =
      if r.status_code = 201 then
        match mediaId r with
        | .error x => .raised x w
        | .ok media_id =>
            postWith server pw title links media_id
              (w.print [jsonText "Image uploaded successfully!"])
      else
        .raised (.nameError Names.media_id.chars)
          (w.print [jsonText "Error uploading image. Status code:", .int r.status_code]) := by
  have hif : exec (host server) (.ifElse created
        [idStmt, printing [lit "Image uploaded successfully!"]]
        [printing [lit "Error uploading image. Status code:",
          .attr (nm Names.response) Names.status_code]])
        (withResponse (fileState pw title links bytes w) r) =
      execBlock (host server) (if decide (r.status_code = 201) then _ else _)
        (withResponse (fileState pw title links bytes w) r) :=
    exec_ifElse (eval_created (fileState pw title links bytes w) r)
  by_cases hcode : r.status_code = 201
  · rw [decide_eq_true hcode, if_pos rfl] at hif
    rw [if_pos hcode]
    have hid := @exec_idStmt S server (fileState pw title links bytes w) r
    cases hmedia : mediaId r with
    | error x =>
        rw [hmedia] at hid
        rw [execBlock_cons_error (hif.trans (execBlock_cons_error hid))]
        rfl
    | ok media_id =>
        rw [hmedia] at hid
        have hprint : execBlock (host server) [printing [lit "Image uploaded successfully!"]]
            (withId (withResponse (fileState pw title links bytes w) r) media_id) =
            (.ok (), withId (withResponse (fileState pw title links bytes
              (w.print [jsonText "Image uploaded successfully!"])) r) media_id) :=
          execBlock_cons (exec_expr (eval_call rfl rfl rfl rfl))
        rw [execBlock_cons (hif.trans ((execBlock_cons hid).trans hprint)), exec_createPost]
  · rw [decide_eq_false hcode, if_neg Bool.false_ne_true] at hif
    rw [if_neg hcode]
    have hprint : execBlock (host server) [printing [lit "Error uploading image. Status code:",
          .attr (nm Names.response) Names.status_code]]
        (withResponse (fileState pw title links bytes w) r) =
        (.ok (), withResponse (fileState pw title links bytes
          (w.print [jsonText "Error uploading image. Status code:", .int r.status_code])) r) :=
      execBlock_cons (exec_expr (eval_call rfl rfl rfl rfl))
    rw [execBlock_cons (hif.trans hprint)]
    show RunResult.ofState (execBlock _ (.setItem _ _ _ :: _) _) = _
    rw [execBlock_cons_error (exec_featured_error bytes r _)]
    rfl

/-- **The program publishes**, whatever the strings in it are. By the statements in their order;
each of the four ways to end is a case, and the state behind each part is named. -/
theorem run_poster (w : World S) :
    .ofState (execBlock (host server) (poster pw links title) (State.start w)) =
      publish server pw title links w := by
  rw [poster, execBlock_append (exec_setUp w)]
  unfold publish
  show RunResult.ofState (execBlock _ (.assign Names.image_file (.dict [(lit "file", openCover)]) ::
    .assign Names.response uploadCall :: .ifElse created _ _ :: createPost) _) = _
  cases hf : w.files coverName with
  | none =>
      -- no cover: the run ends before anything is sent
      rw [execBlock_cons_error (exec_imageFile_error hf)]
      rfl
  | some bytes =>
      -- the cover is opened and sent; the rest is about the answer
      have hcall := @eval_uploadCall S server pw title links bytes w
      dsimp only
      rw [execBlock_cons (exec_imageFile hf)]
      rcases hsend : w.send server (mediaRequest pw bytes) with ⟨reply, w'⟩
      rw [hsend] at hcall
      cases reply with
      | failed kind =>
          rw [execBlock_cons_error (exec_assign_error hcall)]
          rfl
      | response r =>
          rw [execBlock_cons (exec_assign hcall)]
          exact exec_afterUpload bytes r w'

end Run

/-! ## The text the shell makes -/

/-- The title as Python reads it. -/
def titleText (t : Title) : Str := codes ((decode t.bytes).getD [])

/-- The text of `links` as Python reads it. -/
def linksText (pw : AppPassword) (t : Title) : Str := codes ((decode (linksBytes pw t)).getD [])

/-- The two texts are those of the title's own bytes and of the template around them. -/
structure ReadsTexts (pw : AppPassword) (t : Title) : Prop where
  title : ∃ cs, titleText t = codes cs ∧ encode cs = t.bytes
  links : ∃ cs, linksText pw t = codes cs ∧ encode cs = linksBytes pw t

theorem readsTexts_of_clean (pw : AppPassword) {t : Title} (h : Clean t) : ReadsTexts pw t := by
  obtain ⟨links, hlinks, -⟩ := exists_links pw h
  obtain ⟨title, htitle, -⟩ := h
  refine ⟨⟨title, ?_, htitle⟩, ⟨links, ?_, hlinks⟩⟩
  · rw [titleText, ← htitle, decode_encode, Option.getD_some]
  · rw [linksText, ← hlinks, decode_encode, Option.getD_some]

theorem python3_eq_publish (names : List Char → Option ℕ) {S : Type} (server : Server S)
    (pw : AppPassword) {t : Title} (h : Clean t) (w : World S) :
    python3 server names (posterProgram pw t) w =
      publish server pw (titleText t) (linksText pw t) w := by
  obtain ⟨src, title, links, hsrc, htitle, hlinks, htokens⟩ := postsExactly_of_clean names pw h
  have htext : titleText t = codes title := by
    rw [titleText, ← htitle, decode_encode, Option.getD_some]
  have hlinksText : linksText pw t = codes links := by
    rw [linksText, ← hlinks, decode_encode, Option.getD_some]
  -- the program is read back from the tokens the text has
  have hparse : parse (posterTokens pw (codes links) (codes title)) =
      some (poster pw (codes links) (codes title)) := by
    rw [← blockTokens_poster]
    exact parse_tokens (blockWf_poster pw _ _)
  rw [python3, ← hsrc, decode_encode]
  show runSource (host server) names src w = _
  rw [runSource, htokens, Option.bind_some, hparse, htext, hlinksText]
  exact run_poster w

/-- **For every clean title the here-document publishes the title**, with the links that
belong to it, whatever the password, the site and the working directory are. -/
theorem posterProgram_publishes (names : List Char → Option ℕ) {S : Type} (server : Server S)
    (pw : AppPassword) (t : Title) (h : Clean t) :
    ReadsTexts pw t ∧
      ∀ w, python3 server names (posterProgram pw t) w =
        publish server pw (titleText t) (linksText pw t) w :=
  ⟨readsTexts_of_clean pw h, python3_eq_publish names server pw h⟩

/-- The title `a`, and a site that refuses every image. -/
theorem posterProgram_publishes_a :
    let pw : AppPassword := ⟨[], trivial, by simp, by simp, by simp, by simp⟩
    let t : Title := Title.ofBytes (encode ['a']) (by decide)
    let server : Server Unit := fun s _ => (.response ⟨401, none⟩, s)
    ReadsTexts pw t ∧
      ∀ w, python3 server (fun _ => none) (posterProgram pw t) w =
        publish server pw (titleText t) (linksText pw t) w := by
  intro pw t server
  exact posterProgram_publishes (fun _ => none) server pw t ⟨['a'], rfl, by decide⟩

end VideoUploader.PosterRun
