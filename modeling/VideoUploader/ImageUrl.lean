/-
The URL an image is requested from: `addcoverimg.py`, lines 38 to 43 (the same lines
stand in `video-uploader.sh`), and its port, `testimgsel.sh`, lines 39 to 44.

Both start from the text of a `data-src` attribute. Python tests the parsed text
twice and rewrites it up to twice; the shell tests the text before the first slash
and rewrites it at most once. What they are for is `resolve`: a reference is
completed against the page it was found on. Neither knows a relative path, and
neither tells a scheme without an authority from no scheme.
-/
import VideoUploader.EchoEscape
import VideoUploader.StreamTools
import VideoUploader.UrlSplit

set_option autoImplicit false

namespace VideoUploader.ImageUrl

open Bash Posix Url

/-! ## What is requested -/

/-- The first field of a URL, as the port compares it: with the colon. -/
def http : List Char := ['h', 't', 't', 'p', ':']

def https : List Char := ['h', 't', 't', 'p', 's', ':']

/-- `http://www.google.com`, without a slash behind it. -/
def google : List Char :=
  http ++ ['/', '/', 'w', 'w', 'w', '.', 'g', 'o', 'o', 'g', 'l', 'e', '.', 'c', 'o', 'm']

/-- `img_url` as `requests.get` is given it, or `none` where `urlparse` raises. Both tests look
at `parsed_url`, which belongs to the text before the first rewrite, so a reference can be
lengthened twice. -/
def addcoverimg.img_url (hostOk : List Char → Bool) (s : List Char) : Option (List Char) :=
  match urlparse hostOk s with
  | none => none
  | some parsed_url =>
      let img_url := if parsed_url.scheme = [] then http ++ s else s
      let img_url := if parsed_url.netloc = [] then google ++ img_url else img_url
      some img_url

/-- `parsed_url=$(echo "$img_url" | awk -F/ '{print $1}')`. The port has no parser, and takes
what is in front of the first slash. -/
def testimgsel.parsed_url (s : List Char) : List Char :=
  commandSubst '\x00' '\n' (awkFirst '\n' '/' (echo id s))

/-- `img_url` as `curl` is given it. The first test is for a text that begins with a slash, the
second one for everything that does not begin with one of the two schemes. -/
def testimgsel.img_url (s : List Char) : List Char :=
  if testimgsel.parsed_url s = [] then http ++ s
  else if testimgsel.parsed_url s ≠ http ∧ testimgsel.parsed_url s ≠ https then google ++ s
  else s

/-! ## What ought to be requested -/

/-- A reference completed against Google's front page. A reference with a scheme is one to the
web, with an authority, or an inline `data:` one; on others nothing is said. -/
def resolve (s : List Char) : Option (List Char) :=
  match splitScheme s with
  | some (scheme, rest) =>
      if scheme.map Char.toLower = ['d', 'a', 't', 'a'] then some s
      else if (scheme.map Char.toLower ++ [':'] = http ∨ scheme.map Char.toLower ++ [':'] = https) ∧
          HasAuthority rest then some s
      else none
  | none =>
      match s with
      | [] => none
      | '/' :: '/' :: _ => some (http ++ s)
      | '/' :: _ => some (google ++ s)
      | _ => some (google ++ '/' :: s)

/-- Both selectors request `u` for the reference `s`. -/
def BothRequest (hostOk : List Char → Bool) (s u : List Char) : Prop :=
  addcoverimg.img_url hostOk s = some u ∧ testimgsel.img_url s = u

instance (hostOk : List Char → Bool) (s u : List Char) : Decidable (BothRequest hostOk s u) := by
  unfold BothRequest
  infer_instance

/-- A reference to a host on the web, with its scheme in small letters or without one. The host
has to be one that `urlparse` accepts. -/
def WebUrl (hostOk : List Char → Bool) (s : List Char) : Prop :=
  ∃ w rest, w ∈ [http, https, []] ∧ s = w ++ '/' :: '/' :: rest ∧ HostReadable hostOk rest

/-! ## The Python selector -/

/-- A reference with a scheme and two slashes is kept where its host can be read. Without one the
text of the front page is put in front, and the result is longer. -/
theorem addcoverimg.img_url_of_scheme {hostOk : List Char → Bool} {w rest s : List Char}
    (hs : s = w ++ ':' :: '/' :: '/' :: rest) (hhead : w.head?.any Char.isAlpha = true)
    (hall : w.all isSchemeChar = true) :
    addcoverimg.img_url hostOk s = some s ↔ HostReadable hostOk rest := by
  have hw : w.map Char.toLower ≠ [] := by
    intro hnil
    rw [List.map_eq_nil_iff.mp hnil] at hhead
    simp at hhead
  have hlong : google ++ s ≠ s := fun h => absurd (List.append_left_eq_self.mp h) (by decide)
  unfold addcoverimg.img_url HostReadable
  rw [hs, urlparse_of_scheme hostOk hhead hall, ← hs]
  generalize authority (rest.filter fun c => !isUnsafeByte c) = netloc
  by_cases hok : netlocAccepted hostOk netloc = true
  · by_cases hnet : netloc = []
    · subst hnet
      simp [hok, hw, hlong]
    · simp [hok, hw, hnet]
  · simp [hok]

/-- A reference that begins with two slashes is given a scheme, and nothing more, under the same
condition. -/
theorem addcoverimg.img_url_of_slashes {hostOk : List Char → Bool} {rest s : List Char}
    (hs : s = '/' :: '/' :: rest) :
    addcoverimg.img_url hostOk s = some (http ++ s) ↔ HostReadable hostOk rest := by
  have hlong : google ++ (http ++ s) ≠ http ++ s := fun h =>
    absurd (List.append_left_eq_self.mp h) (by decide)
  unfold addcoverimg.img_url HostReadable
  rw [hs, urlparse_of_slashes hostOk, ← hs]
  generalize authority (rest.filter fun c => !isUnsafeByte c) = netloc
  by_cases hok : netlocAccepted hostOk netloc = true
  · by_cases hnet : netloc = []
    · subst hnet
      simp [hok, hlong]
    · simp [hok, hnet]
  · simp [hok]

/-! ## Its port -/

/-- The first field, for a reference that `echo` does not take for an option. -/
theorem testimgsel.parsed_url_eq {s : List Char} (hline : '\n' ∉ s)
    (hopt : isEchoOption id s = false) :
    testimgsel.parsed_url s =
      (s.takeWhile fun c => decide (c ≠ '/')).filter fun c => decide (c ≠ '\x00') := by
  have hfield : '\n' ∉ s.takeWhile fun c => decide (c ≠ '/') := fun h =>
    hline ((List.takeWhile_sublist _).subset h)
  have hecho : echo id s = s ++ ['\n'] := by
    rw [echo, hopt]
    rfl
  rw [testimgsel.parsed_url, hecho, awkFirst_line hline, commandSubst_append_newline (by decide),
    commandSubst_of_not_mem hfield]

/-- What the port requests is the reference itself or one of two longer texts. The lengths alone
tell the three apart. -/
theorem testimgsel.img_url_cases (s : List Char) :
    (testimgsel.img_url s = s ∧ testimgsel.parsed_url s ∈ [http, https]) ∨
      testimgsel.img_url s = http ++ s ∨ testimgsel.img_url s = google ++ s := by
  unfold testimgsel.img_url
  split
  · exact Or.inr (Or.inl rfl)
  · split
    · exact Or.inr (Or.inr rfl)
    · rename_i h
      refine Or.inl ⟨rfl, ?_⟩
      rw [List.mem_cons, List.mem_singleton]
      by_contra hne
      exact h (not_or.mp hne)

/-- A reference that begins with a slash is given a scheme, also where it names no host. -/
theorem testimgsel.img_url_of_slash {s t : List Char} (hline : '\n' ∉ s) (hs : s = '/' :: t) :
    testimgsel.img_url s = http ++ s := by
  have hopt : isEchoOption id s = false := by
    rw [hs]
    rfl
  have hparsed : testimgsel.parsed_url s = [] := by
    rw [testimgsel.parsed_url_eq hline hopt, hs]
    rfl
  rw [testimgsel.img_url, if_pos hparsed]

/-- The first field of a reference with a scheme begins with the scheme and its colon, as neither
can have a slash in it. -/
theorem testimgsel.parsed_url_of_scheme {s w rest : List Char} (hline : '\n' ∉ s)
    (hs : splitScheme s = some (w, rest)) :
    testimgsel.parsed_url s =
      w ++ ':' :: (rest.takeWhile fun c => decide (c ≠ '/')).filter fun c => decide (c ≠ '\x00') := by
  obtain ⟨rfl, hhead, hall⟩ := splitScheme_eq_some_iff.mp hs
  have hchar : ∀ c ∈ w, c ≠ '/' ∧ c ≠ '\x00' := by
    intro c hc
    have hsc := List.all_eq_true.mp hall c hc
    refine ⟨?_, ?_⟩ <;> rintro rfl <;> exact absurd hsc (by decide)
  -- a scheme begins with a letter, so `echo` prints the text
  have hopt : isEchoOption id (w ++ ':' :: rest) = false := by
    rcases w with _ | ⟨d, w⟩
    · simp at hhead
    · have hd : d ≠ '-' := by
        rintro rfl
        have hdash : ('-' : Char).isAlpha = true := hhead
        exact absurd hdash (by decide)
      simp [isEchoOption, hd]
  rw [testimgsel.parsed_url_eq hline hopt,
    List.takeWhile_append_of_pos (fun c hc => decide_eq_true (hchar c hc).1), List.filter_append,
    List.filter_eq_self.mpr (fun c hc => decide_eq_true (hchar c hc).2)]
  rfl

/-! ## Which references with a scheme the port keeps -/

/-- A reference with a scheme stays as it is exactly when its first field is `http:` or `https:`.
Here the port compares letters as they are, where Python has made them small. -/
theorem testimgsel.img_url_eq_self_iff {s w rest : List Char} (hline : '\n' ∉ s)
    (hs : splitScheme s = some (w, rest)) :
    testimgsel.img_url s = s ↔
      w ++ ':' :: (rest.takeWhile fun c => decide (c ≠ '/')).filter (fun c => decide (c ≠ '\x00')) ∈
        [http, https] := by
  rw [← testimgsel.parsed_url_of_scheme hline hs]
  constructor
  · intro h
    rcases testimgsel.img_url_cases s with ⟨-, hmem⟩ | hlong | hlong
    · exact hmem
    · exact absurd (List.append_left_eq_self.mp (hlong.symm.trans h)) (by decide)
    · exact absurd (List.append_left_eq_self.mp (hlong.symm.trans h)) (by decide)
  · intro hmem
    rw [List.mem_cons, List.mem_singleton] at hmem
    have hne : testimgsel.parsed_url s ≠ [] := by
      rcases hmem with h | h <;> rw [h] <;> decide
    have hknown : ¬ (testimgsel.parsed_url s ≠ http ∧ testimgsel.parsed_url s ≠ https) := by
      rintro ⟨h1, h2⟩
      exact hmem.elim h1 h2
    rw [testimgsel.img_url, if_neg hne, if_neg hknown]

/-- Where a field that is `http:` or `https:` has its colon: at its end, so nothing stands
between the scheme and the slashes. -/
theorem scheme_of_field {w rest : List Char} (h : w ++ ':' :: rest ∈ [http, https]) :
    rest = [] ∧ w ∈ [['h', 't', 't', 'p'], ['h', 't', 't', 'p', 's']] := by
  have hsplit : ∀ v : List Char, ':' ∉ v → v ++ ':' :: [] = w ++ ':' :: rest →
      rest = [] ∧ w = v := by
    intro v hv heq
    rw [List.append_cons_inj_of_notMem hv (by simp)] at heq
    exact ⟨heq.2.2.symm, heq.1.symm⟩
  rw [List.mem_cons, List.mem_singleton] at h ⊢
  rcases h with h | h
  · have heq := hsplit ['h', 't', 't', 'p'] (by decide) h.symm
    exact ⟨heq.1, Or.inl heq.2⟩
  · have heq := hsplit ['h', 't', 't', 'p', 's'] (by decide) h.symm
    exact ⟨heq.1, Or.inr heq.2⟩

/-! ## Where the two agree with `resolve` -/

variable {hostOk : List Char → Bool} {s u : List Char}

/-- A reference with a scheme that both request as it is names a host on the web. The port sees
to the scheme, and Python to the host. -/
theorem webUrl_of_scheme {w rest : List Char} (hline : '\n' ∉ s)
    (hs : splitScheme s = some (w, rest)) (hu : resolve s = some u)
    (h : BothRequest hostOk s u) : WebUrl hostOk s := by
  obtain ⟨hsw, hhead, hall⟩ := splitScheme_eq_some_iff.mp hs
  -- whatever has a scheme and a meaning means itself
  have hself : u = s := by
    unfold resolve at hu
    rw [hs] at hu
    dsimp only at hu
    split at hu
    · exact (Option.some_inj.mp hu).symm
    · split at hu
      · exact (Option.some_inj.mp hu).symm
      · cases hu
  subst hself
  obtain ⟨hpython, hshell⟩ := h
  rw [testimgsel.img_url_eq_self_iff hline hs] at hshell
  obtain ⟨-, hw⟩ := scheme_of_field hshell
  -- of the schemes `resolve` knows, this one is not `data`
  have hdata : w.map Char.toLower ≠ ['d', 'a', 't', 'a'] := by
    rw [List.mem_cons, List.mem_singleton] at hw
    rcases hw with rfl | rfl <;> decide
  unfold resolve at hu
  rw [hs] at hu
  dsimp only at hu
  rw [if_neg hdata] at hu
  split at hu
  · rename_i hknown
    obtain ⟨-, hauth⟩ := hknown
    unfold HasAuthority at hauth
    split at hauth
    · rename_i r
      refine ⟨w ++ [':'], r, ?_, by rw [hsw]; simp, ?_⟩
      · rw [List.mem_cons, List.mem_singleton] at hw
        rcases hw with rfl | rfl <;> decide
      · exact (addcoverimg.img_url_of_scheme hsw hhead hall).mp hpython
    · exact hauth.elim
  · cases hu

/-- A reference without a scheme that both request alike begins with two slashes: the others are
lengthened by more or by less than `resolve` does. -/
theorem webUrl_of_no_scheme (hline : '\n' ∉ s) (hs : splitScheme s = none)
    (hu : resolve s = some u) (h : BothRequest hostOk s u) : WebUrl hostOk s := by
  obtain ⟨hpython, hshell⟩ := h
  unfold resolve at hu
  rw [hs] at hu
  dsimp only at hu
  split at hu
  · cases hu
  · rename_i r
    rw [← Option.some_inj.mp hu] at hpython
    exact ⟨[], r, by simp, rfl, (addcoverimg.img_url_of_slashes rfl).mp hpython⟩
  · rename_i t
    -- one slash: the port adds a scheme, and the meaning has a host too
    rw [testimgsel.img_url_of_slash hline rfl, ← Option.some_inj.mp hu] at hshell
    have hlen := congrArg List.length hshell
    simp only [List.length_append, http, google, List.length_cons, List.length_nil] at hlen
    omega
  · -- no slash: the meaning has one more than the port adds
    have hlen := congrArg List.length (hshell.trans (Option.some_inj.mp hu).symm)
    have hshort : (testimgsel.img_url s).length ≤ google.length + s.length := by
      rcases testimgsel.img_url_cases s with ⟨heq, -⟩ | heq | heq
      · rw [heq]
        omega
      · rw [heq, List.length_append]
        exact Nat.add_le_add_right (by decide) _
      · rw [heq, List.length_append]
    rw [hlen, List.length_append, List.length_cons] at hshort
    omega

/-- A reference to a host on the web is requested as `resolve` says. The two schemes are one
argument, stated for any such scheme; two slashes are the third case. -/
theorem WebUrl.bothRequest (hline : '\n' ∉ s) (h : WebUrl hostOk s) (hu : resolve s = some u) :
    BothRequest hostOk s u := by
  obtain ⟨w, rest, hw, hs, hhost⟩ := h
  -- with a scheme the reference means itself, and both keep it
  have hscheme : ∀ v : List Char, v ++ [':'] ∈ [http, https] → s = v ++ ':' :: '/' :: '/' :: rest →
      v.head?.any Char.isAlpha = true → v.all isSchemeChar = true → BothRequest hostOk s u := by
    intro v hv hsv hhead hall
    have hsplit : splitScheme s = some (v, '/' :: '/' :: rest) :=
      splitScheme_eq_some_iff.mpr ⟨hsv, hhead, hall⟩
    have hself : s = u := by
      unfold resolve at hu
      rw [hsplit] at hu
      dsimp only at hu
      split at hu
      · exact Option.some_inj.mp hu
      · split at hu
        · exact Option.some_inj.mp hu
        · cases hu
    refine hself ▸ ⟨(addcoverimg.img_url_of_scheme hsv hhead hall).mpr hhost, ?_⟩
    exact (testimgsel.img_url_eq_self_iff hline hsplit).mpr hv
  rw [List.mem_cons, List.mem_cons, List.mem_singleton] at hw
  rcases hw with rfl | rfl | rfl
  · exact hscheme ['h', 't', 't', 'p'] (by decide) hs (by decide) (by decide)
  · exact hscheme ['h', 't', 't', 'p', 's'] (by decide) hs (by decide) (by decide)
  · -- without one both add `http:`
    have hno : splitScheme s = none := by
      rw [hs]
      exact splitScheme_slash _
    unfold resolve at hu
    rw [hno, hs] at hu
    rw [← Option.some_inj.mp hu, ← List.nil_append ('/' :: '/' :: rest), ← hs]
    exact ⟨(addcoverimg.img_url_of_slashes hs).mpr hhost, testimgsel.img_url_of_slash hline hs⟩

/-- **Where both selectors request what the reference means**: at a reference that
begins with `http://`, `https://` or `//` and then names a host `urlparse`
accepts, and at no other reference that has a meaning. -/
theorem bothRequest_iff (hline : '\n' ∉ s) (hu : resolve s = some u) :
    BothRequest hostOk s u ↔ WebUrl hostOk s := by
  constructor
  · intro h
    cases hs : splitScheme s with
    | none => exact webUrl_of_no_scheme hline hs hu h
    | some x => exact webUrl_of_scheme hline hs hu h
  · intro h
    exact h.bothRequest hline hu

/-- At `https://h/a.png`. -/
theorem bothRequest_iff_https :
    let s := https ++ ['/', '/', 'h', '/', 'a', '.', 'p', 'n', 'g']
    BothRequest (fun _ => true) s s ↔ WebUrl (fun _ => true) s :=
  bothRequest_iff (by decide) (by decide)

/-- An inline image, `data:image/png;base64,AA`, is looked for on Google by both. -/
theorem not_bothRequest_data :
    let s := ['d', 'a', 't', 'a', ':', 'i', 'm', 'a', 'g', 'e', '/', 'p', 'n', 'g', ';', 'b', 'a',
      's', 'e', '6', '4', ',', 'A', 'A']
    resolve s = some s ∧ ¬ BothRequest (fun _ => true) s s := by
  decide

end VideoUploader.ImageUrl
