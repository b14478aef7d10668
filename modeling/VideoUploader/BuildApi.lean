/-
The credentials for YouTube over many runs: `buildapi.py`, lines 11 to 26, and its later
version in `youtubeuploadtest.py`, lines 49 to 64.

Both keep what the user has consented to in `token.pickle`, and are to refresh it when it
has expired. In `buildapi.py` the name `Request` that the refresh needs is bound nowhere.
So the first run with expired credentials ends in an exception, and as it has not saved
anything by then, so does every run after it.

The later version is a fragment that is read by itself: the file it stands in begins with
thirty-one lines for the shell, so Python does not get as far as running it.
-/
import VideoUploader.DownloadLoop

set_option autoImplicit false

namespace VideoUploader.BuildApi

open FileStore Utf8
open DownloadLoop (FileName Files)

/-! ## What the scripts use -/

/-- What the scripts use of `pickle` and of the credentials. `load` has no result where it
raises or where the object is without the attributes that are read, and gives `none` for
the object `None`. Whether credentials have expired is a matter of the clock. -/
structure Library (Creds : Type) where
  load : List UInt8 → Option (Option Creds)
  dump : Creds → List UInt8
  load_dump : ∀ c, load (dump c) = some (some c)
  has_token : Creds → Bool
  refresh_token : Creds → Bool
  expired : Creds → ℕ → Bool
  expired_mono : ∀ {c t t'}, t ≤ t' → expired c t = true → expired c t' = true

/-- `creds.valid`. -/
def Library.valid {Creds : Type} (L : Library Creds) (c : Creds) (t : ℕ) : Bool :=
  L.has_token c && !L.expired c t

/-- The names that are bound when `buildapi.py` comes to its refresh. -/
def buildapiNames : List (List Char) :=
  ["os".toList, "pickle".toList, "InstalledAppFlow".toList, "build".toList,
    "HttpError".toList, "SCOPES".toList, "creds".toList, "token".toList]

/-- The names that are bound when `youtubeuploadtest.py` comes to its refresh. -/
def youtubeuploadtestNames : List (List Char) :=
  ["os".toList, "pickle".toList, "google".toList, "InstalledAppFlow".toList,
    "build".toList, "HttpError".toList, "MediaFileUpload".toList, "SCOPES".toList,
    "title".toList, "description".toList, "creds".toList, "token".toList]

/-- The name at the front of `Request()`. -/
def requestName : List Char := "Request".toList

/-- The name at the front of `google.auth.transport.requests.Request()`. -/
def googleName : List Char := "google".toList

def token_pickle : FileName := Name.ofText (encode "token.pickle".toList) (by decide)

/-- What a run meets: the two moments at which it looks at the clock, what becomes of a
refresh and of the user's consent, whether the file may be opened for writing, and whether
`build` gets through with some credentials, for which it asks the net. -/
structure Run (Creds : Type) where
  validAt : ℕ
  expiredAt : ℕ
  inOrder : validAt ≤ expiredAt
  refreshed : Creds → Option Creds
  consented : Option Creds
  writable : Bool
  builds : Creds → Bool

/-- How a run ends: with a client, with a name that is not bound, or with another
exception. -/
inductive RunEnd (Creds : Type) where
  | built (creds : Creds)
  | nameError (x : List Char)
  | raised

/-! ## The scripts -/

section

variable {Creds : Type} (L : Library Creds) (cwd : List FileName)

/-- `creds = None`, and `pickle.load` where there is a file: the object read, or that an
exception is raised. -/
def stored (fs : Files) : Option (Option Creds) :=
  match fs.node (cwd ++ [token_pickle]) with
  | none => some none
  | some (.file bytes) => L.load bytes
  | some .dir => none

/-- `build("youtube", "v3", credentials=creds)`. -/
def Run.build (r : Run Creds) (c : Creds) : RunEnd Creds :=
  if r.builds c then .built c else .raised

/-- `creds.refresh(…)` with a request whose first name is `x`. -/
def Run.refresh (r : Run Creds) (names : List (List Char)) (x : List Char) (c : Creds) :
    Except (RunEnd Creds) Creds :=
  if names.contains x then
    match r.refreshed c with
    | some c' => .ok c'
    | none => .error .raised
  else .error (.nameError x)

/-- `flow.run_local_server(port=0)`, with the secrets it is started from. -/
def Run.consent (r : Run Creds) : Except (RunEnd Creds) Creds :=
  match r.consented with
  | some c => .ok c
  | none => .error .raised

/-- `pickle.dump` into the file, and what comes behind it. -/
def save (r : Run Creds) (c : Creds) (fs : Files) : RunEnd Creds × Files :=
  if r.writable then
    match fs.write (cwd ++ [token_pickle]) (L.dump c) with
    | some fs' => (r.build c, fs')
    | none => (.raised, fs)
  else (.raised, fs)

/-- `creds and creds.expired and creds.refresh_token`, with the credentials it holds of. -/
def refreshable (r : Run Creds) (creds : Option Creds) : Option Creds :=
  creds.filter fun c => L.expired c r.expiredAt && L.refresh_token c

/-- `buildapi.py`, lines 11 to 26. What is new is saved, however it was come by. -/
def buildapi (r : Run Creds) (fs : Files) : RunEnd Creds × Files :=
  match stored L cwd fs with
  | none => (.raised, fs)
  | some creds =>
      match creds.filter fun c => L.valid c r.validAt with
      | some c => (r.build c, fs)
      | none =>
          let renewed := match refreshable L r creds with
            | some c => r.refresh buildapiNames requestName c
            | none => r.consent
          match renewed with
          | .error e => (e, fs)
          | .ok c => save L cwd r c fs

/-- `youtubeuploadtest.py`, lines 49 to 64. Saving has gone into the `else`, so what is
refreshed is not saved. -/
def youtubeuploadtest (r : Run Creds) (fs : Files) : RunEnd Creds × Files :=
  match stored L cwd fs with
  | none => (.raised, fs)
  | some creds =>
      match creds.filter fun c => L.valid c r.validAt with
      | some c => (r.build c, fs)
      | none =>
          match refreshable L r creds with
          | some c =>
              match r.refresh youtubeuploadtestNames googleName c with
              | .error e => (e, fs)
              | .ok c' => (r.build c', fs)
          | none =>
              match r.consent with
              | .error e => (e, fs)
              | .ok c => save L cwd r c fs

/-- Runs of a script one after another, with how each ends. -/
def runAll (script : Run Creds → Files → RunEnd Creds × Files) :
    List (Run Creds) → Files → List (RunEnd Creds) × Files
  | [], fs => ([], fs)
  | r :: rs, fs =>
      let x := script r fs
      let y := runAll script rs x.2
      (x.1 :: y.1, y.2)

end

/-! ## One run -/

section

variable {Creds : Type} {L : Library Creds} {cwd : List FileName} {r : Run Creds}
  {fs : Files} {c : Creds}

theorem build_ne_nameError (r : Run Creds) (c : Creds) (x : List Char) :
    r.build c ≠ .nameError x := by
  rw [Run.build]
  split
  · nofun
  · nofun

/-- In `buildapi.py` a refresh ends in the name that is not bound. -/
theorem refresh_buildapi (r : Run Creds) (c : Creds) :
    r.refresh buildapiNames requestName c = .error (.nameError requestName) :=
  if_neg (by decide)

theorem refresh_youtubeuploadtest (r : Run Creds) (c : Creds) :
    r.refresh youtubeuploadtestNames googleName c =
      match r.refreshed c with
      | some c' => .ok c'
      | none => .error .raised := if_pos (by decide)

/-- Saving goes on to a client of what stands in the file then, or changes nothing. -/
theorem save_cases : save L cwd r c fs = (.raised, fs) ∨
    ∃ fs', save L cwd r c fs = (r.build c, fs') ∧ stored L cwd fs' = some (some c) := by
  rw [save]
  split
  · cases hwrite : fs.write (cwd ++ [token_pickle]) (L.dump c) with
    | none => exact Or.inl rfl
    | some fs' =>
        refine Or.inr ⟨fs', rfl, ?_⟩
        obtain ⟨hcan, rfl⟩ := Store.write_eq_some_iff.mp hwrite
        rw [stored, Store.node_put, if_pos rfl]
        exact L.load_dump c
  · exact Or.inl rfl

/-- Credentials that can be refreshed, as a consent gives them. -/
structure Library.Refreshable (L : Library Creds) (c : Creds) : Prop where
  has_token : L.has_token c = true
  refresh_token : L.refresh_token c = true

/-- Once they are no longer valid they have expired, at the later moment as well. -/
theorem Library.Refreshable.expired_of_not_valid (h : L.Refreshable c)
    (hvalid : ¬ L.valid c r.validAt = true) : L.expired c r.expiredAt = true := by
  apply L.expired_mono r.inOrder
  rw [Library.valid, h.has_token, Bool.true_and, Bool.not_eq_true'] at hvalid
  exact Bool.of_not_eq_false hvalid

theorem refreshable_of_not_valid (h : L.Refreshable c) (hvalid : ¬ L.valid c r.validAt = true) :
    refreshable L r (some c) = some c := by
  rw [refreshable, Option.filter_some, if_pos]
  rw [h.expired_of_not_valid hvalid, h.refresh_token]
  rfl

/-- How a run of `buildapi.py` ends on stored credentials. -/
def endOn (L : Library Creds) (c : Creds) (r : Run Creds) : RunEnd Creds :=
  if L.valid c r.validAt = true then r.build c else .nameError requestName

/-- A run of `buildapi.py` that finds refreshable credentials. -/
theorem buildapi_of_stored (hstored : stored L cwd fs = some (some c)) (h : L.Refreshable c) :
    buildapi L cwd r fs = (endOn L c r, fs) := by
  rw [buildapi, hstored, endOn]
  dsimp only
  rw [Option.filter_some]
  by_cases hvalid : L.valid c r.validAt = true
  · rw [if_pos hvalid, if_pos hvalid]
  · rw [if_neg hvalid, if_neg hvalid]
    dsimp only
    rw [refreshable_of_not_valid h hvalid]
    dsimp only
    rw [refresh_buildapi]

/-- Credentials that `buildapi.py` gets stuck on from the moment `t` on: whoever looks finds
them expired, and with a refresh token. -/
structure Stuck (L : Library Creds) (cwd : List FileName) (fs : Files) (t : ℕ) (c : Creds) : Prop where
  stored : stored L cwd fs = some (some c)
  expired : L.expired c t = true
  refresh_token : L.refresh_token c = true

/-- A run that misses the name has changed nothing and leaves the next one stuck. -/
theorem stuck_of_nameError {x : List Char} (h : (buildapi L cwd r fs).1 = .nameError x) :
    (buildapi L cwd r fs).2 = fs ∧ ∃ c, Stuck L cwd fs r.expiredAt c := by
  have hsave : ∀ c, (save L cwd r c fs).1 ≠ .nameError x := by
    intro c hc
    rcases @save_cases Creds L cwd r fs c with hs | ⟨fs', hs, -⟩
    · rw [hs] at hc
      cases hc
    · rw [hs] at hc
      exact build_ne_nameError r c x hc
  rw [buildapi] at h ⊢
  rcases hstored : stored L cwd fs with _ | creds
  · rw [hstored] at h
    cases h
  · rw [hstored] at h
    dsimp only at h ⊢
    cases hvalid : creds.filter fun c => L.valid c r.validAt with
    | some c =>
        rw [hvalid] at h
        exact absurd h (build_ne_nameError r c x)
    | none =>
        rw [hvalid] at h
        dsimp only at h ⊢
        cases hcan : refreshable L r creds with
        | some c =>
            rw [refreshable, Option.filter_eq_some_iff, Bool.and_eq_true] at hcan
            dsimp only
            rw [refresh_buildapi]
            exact ⟨rfl, c, by rw [hstored, hcan.1], hcan.2.1, hcan.2.2⟩
        | none =>
            rw [hcan] at h
            dsimp only at h
            rw [Run.consent] at h
            cases hconsent : r.consented with
            | none =>
                rw [hconsent] at h
                cases h
            | some c =>
                rw [hconsent] at h
                exact absurd h (hsave c)

/-- A stuck run misses the name. -/
theorem Stuck.buildapi {t : ℕ} (h : Stuck L cwd fs t c) (ht : t ≤ r.validAt) :
    buildapi L cwd r fs = (.nameError requestName, fs) := by
  have hvalid : L.valid c r.validAt = false := by
    rw [Library.valid, L.expired_mono ht h.expired, Bool.not_true, Bool.and_false]
  have hexpired := L.expired_mono (ht.trans r.inOrder) h.expired
  have hcan : refreshable L r (some c) = some c := by
    rw [refreshable, Option.filter_some, if_pos (by rw [hexpired, h.refresh_token]; rfl)]
  rw [BuildApi.buildapi, h.stored]
  dsimp only
  rw [Option.filter_some, hvalid, if_neg Bool.false_ne_true]
  dsimp only
  rw [hcan]
  dsimp only
  rw [refresh_buildapi]

end

/-! ## Sequences of runs -/

section

variable {Creds : Type} {L : Library Creds} {cwd : List FileName} {fs : Files} {c : Creds}

/-- **With refreshable credentials saved**, every run builds its client of them or ends
without one, and the files stay as they are. -/
theorem runAll_of_stored (hstored : stored L cwd fs = some (some c)) (h : L.Refreshable c)
    (runs : List (Run Creds)) :
    runAll (buildapi L cwd) runs fs = (runs.map (endOn L c), fs) := by
  induction runs with
  | nil => rfl
  | cons r rs ih =>
      rw [runAll, buildapi_of_stored hstored h]
      show (_ :: (runAll (buildapi L cwd) rs fs).1, (runAll (buildapi L cwd) rs fs).2) = _
      rw [ih]
      rfl

/-- Stuck runs, one after another. -/
theorem Stuck.runAll {t : ℕ} (h : Stuck L cwd fs t c) {runs : List (Run Creds)}
    (ht : ∀ r ∈ runs, t ≤ r.validAt) :
    runAll (BuildApi.buildapi L cwd) runs fs = (runs.map fun _ => .nameError requestName, fs) := by
  induction runs with
  | nil => rfl
  | cons r rs ih =>
      rw [BuildApi.runAll, h.buildapi (ht r List.mem_cons_self)]
      show (_ :: (BuildApi.runAll (BuildApi.buildapi L cwd) rs fs).1,
        (BuildApi.runAll (BuildApi.buildapi L cwd) rs fs).2) = _
      rw [ih fun r' hr' => ht r' (List.mem_cons_of_mem r hr')]
      rfl

/-- Runs one after another, each with a consent that can be refreshed, if with any. -/
structure InOrder (L : Library Creds) (runs : List (Run Creds)) : Prop where
  times : runs.Pairwise fun r r' => r.expiredAt ≤ r'.validAt
  consents : ∀ r ∈ runs, ∀ c, r.consented = some c → L.Refreshable c

theorem InOrder.tail {r : Run Creds} {rs : List (Run Creds)} (h : InOrder L (r :: rs)) :
    InOrder L rs :=
  ⟨(List.pairwise_cons.mp h.times).2, fun r' hr' => h.consents r' (List.mem_cons_of_mem r hr')⟩

/-- There is no way back from the first name error, from any files. The induction is on the
runs: the first one leaves all the others stuck, or has no say. -/
theorem pairwise_nameError {runs : List (Run Creds)}
    (htimes : runs.Pairwise fun r r' => r.expiredAt ≤ r'.validAt) (fs : Files) :
    (runAll (buildapi L cwd) runs fs).1.Pairwise fun e e' =>
      e = .nameError requestName → e' = .nameError requestName := by
  induction runs generalizing fs with
  | nil => exact List.Pairwise.nil
  | cons r rs ih =>
      rw [List.pairwise_cons] at htimes
      rw [runAll]
      refine List.pairwise_cons.mpr ⟨fun e' he' hmissed => ?_, ih htimes.2 _⟩
      obtain ⟨hfs, c, hstuck⟩ := stuck_of_nameError hmissed
      rw [hfs, hstuck.runAll htimes.1, List.mem_map] at he'
      obtain ⟨_, -, rfl⟩ := he'
      rfl

/-- What a run does that finds no credentials it can look at. -/
theorem buildapi_of_nothing (r : Run Creds)
    (h : stored L cwd fs = none ∨ stored L cwd fs = some none) :
    buildapi L cwd r fs = (.raised, fs) ∨
      ∃ c fs', r.consented = some c ∧ buildapi L cwd r fs = (r.build c, fs') ∧
        stored L cwd fs' = some (some c) := by
  rw [buildapi]
  rcases h with h | h
  · rw [h]
    exact Or.inl rfl
  · rw [h]
    dsimp only [Option.filter_none, refreshable]
    rw [Run.consent]
    cases hconsent : r.consented with
    | none => exact Or.inl rfl
    | some c =>
        rcases @save_cases Creds L cwd r fs c with hsave | ⟨fs', hsave, hsaved⟩
        · exact Or.inl hsave
        · exact Or.inr ⟨c, fs', rfl, hsave, hsaved⟩

theorem eq_of_build_eq_built {r : Run Creds} {c c' : Creds} (h : r.build c = .built c') :
    c' = c := by
  rw [Run.build] at h
  split at h
  · cases h
    rfl
  · cases h

/-- The clients of a sequence of runs are built of what stands in the file at the end. -/
theorem stored_of_built {runs : List (Run Creds)}
    (hconsents : ∀ r ∈ runs, ∀ c, r.consented = some c → L.Refreshable c)
    (hstart : ∀ c, stored L cwd fs = some (some c) → L.Refreshable c)
    (hc : .built c ∈ (runAll (buildapi L cwd) runs fs).1) :
    stored L cwd (runAll (buildapi L cwd) runs fs).2 = some (some c) := by
  have hsaved : ∀ {fs : Files} {d : Creds} {rs : List (Run Creds)},
      stored L cwd fs = some (some d) → L.Refreshable d →
      .built c ∈ (runAll (buildapi L cwd) rs fs).1 → c = d := by
    intro fs d rs hstored h hmem
    rw [runAll_of_stored hstored h, List.mem_map] at hmem
    obtain ⟨r, -, hr⟩ := hmem
    rw [endOn] at hr
    split at hr
    · exact eq_of_build_eq_built hr
    · cases hr
  induction runs generalizing fs with
  | nil => cases hc
  | cons r rs ih =>
      by_cases hnothing : stored L cwd fs = none ∨ stored L cwd fs = some none
      · rw [runAll] at hc ⊢
        rcases buildapi_of_nothing r hnothing with hrun | ⟨d, fs', hconsent, hrun, hstored⟩
        · -- an exception, and the next run is where this one was
          rw [hrun] at hc ⊢
          rcases List.mem_cons.mp hc with hc | hc
          · cases hc
          · exact ih (fun r' hr' => hconsents r' (List.mem_cons_of_mem r hr')) hstart hc
        · -- the consent is saved, and all that follows is built of it
          have hd := hconsents r List.mem_cons_self d hconsent
          rw [hrun] at hc ⊢
          have hcd : c = d := by
            rcases List.mem_cons.mp hc with hc | hc
            · exact eq_of_build_eq_built hc.symm
            · exact hsaved hstored hd hc
          show stored L cwd (runAll (buildapi L cwd) rs fs').2 = _
          rw [runAll_of_stored hstored hd, hcd]
          exact hstored
      · rw [not_or] at hnothing
        obtain ⟨creds, hcreds⟩ := Option.ne_none_iff_exists'.mp hnothing.1
        obtain ⟨d, rfl⟩ := Option.ne_none_iff_exists'.mp fun h : creds = none =>
          hnothing.2 (by rw [hcreds, h])
        rw [hsaved hcreds (hstart d hcreds) hc, runAll_of_stored hcreds (hstart d hcreds)]
        exact hcreds

/-- One consent at most comes to anything, if what is stored at the start can be refreshed;
and there is no way back from the first name error. -/
structure ConsentsOnce (L : Library Creds) (cwd : List FileName) (runs : List (Run Creds))
    (fs : Files) : Prop where
  built_stored : (∀ c, stored L cwd fs = some (some c) → L.Refreshable c) →
    ∀ c, .built c ∈ (runAll (buildapi L cwd) runs fs).1 →
      stored L cwd (runAll (buildapi L cwd) runs fs).2 = some (some c)
  stuck : (runAll (buildapi L cwd) runs fs).1.Pairwise fun e e' =>
    e = .nameError requestName → e' = .nameError requestName

/-- **`buildapi.py` over any sequence of runs**: from files whose credentials can be
refreshed, if there are any, all clients that are built are built of the credentials that
stand in the file at the end; and from any files, from the first run that misses `Request` on
every run does. -/
theorem consentsOnce (L : Library Creds) (cwd : List FileName) (runs : List (Run Creds))
    (fs : Files) (hruns : InOrder L runs) : ConsentsOnce L cwd runs fs where
  built_stored := fun hstart _ hc => stored_of_built hruns.consents hstart hc
  stuck := pairwise_nameError hruns.times fs

end

/-- Credentials that are the moment of their expiry. -/
def hourglass : Library ℕ where
  load := fun bytes => some (some bytes.length)
  dump := fun c => List.replicate c 0
  load_dump := by
    intro c
    rw [List.length_replicate]
  has_token := fun _ => true
  refresh_token := fun _ => true
  expired := fun c t => decide (c ≤ t)
  expired_mono := by
    intro c t t' ht h
    rw [decide_eq_true_eq] at h ⊢
    exact h.trans ht

/-- A run at one moment whose consent is good for ten. -/
def runAt (t : ℕ) : Run ℕ :=
  ⟨t, t, Nat.le_refl t, fun _ => some (t + 10), some (t + 10), true, fun _ => true⟩

/-- A consent, a run with it, and two runs too late. -/
theorem consentsOnce_hourglass :
    ConsentsOnce hourglass [] [runAt 0, runAt 5, runAt 20, runAt 21] Store.empty := by
  apply consentsOnce
  constructor
  · decide
  · intro r _ c _
    exact ⟨rfl, rfl⟩

/-! ## The later version -/

section

variable {Creds : Type} {L : Library Creds} {cwd : List FileName} {fs : Files} {c : Creds}

/-- How a run of `youtubeuploadtest.py` ends on stored credentials. -/
def endRefreshing (L : Library Creds) (c : Creds) (r : Run Creds) : RunEnd Creds :=
  if L.valid c r.validAt = true then r.build c
  else match r.refreshed c with
    | some c' => r.build c'
    | none => .raised

theorem youtubeuploadtest_of_stored {r : Run Creds} (hstored : stored L cwd fs = some (some c))
    (h : L.Refreshable c) : youtubeuploadtest L cwd r fs = (endRefreshing L c r, fs) := by
  rw [youtubeuploadtest, hstored, endRefreshing]
  dsimp only
  rw [Option.filter_some]
  by_cases hvalid : L.valid c r.validAt = true
  · rw [if_pos hvalid, if_pos hvalid]
  · rw [if_neg hvalid, if_neg hvalid]
    dsimp only
    rw [refreshable_of_not_valid h hvalid]
    dsimp only
    rw [refresh_youtubeuploadtest]
    cases r.refreshed c with
    | none => rfl
    | some c' => rfl

/-- It goes as in `buildapi.py`, but for the refresh. -/
theorem buildapi_or_youtubeuploadtest (r : Run Creds) (fs : Files) :
    buildapi L cwd r fs = (.nameError requestName, fs) ∨
      youtubeuploadtest L cwd r fs = buildapi L cwd r fs := by
  unfold buildapi youtubeuploadtest
  rcases stored L cwd fs with _ | creds
  · exact Or.inr rfl
  · dsimp only
    cases creds.filter fun c => L.valid c r.validAt with
    | some c => exact Or.inr rfl
    | none =>
        dsimp only
        cases refreshable L r creds with
        | some c =>
            dsimp only
            rw [refresh_buildapi]
            exact Or.inl rfl
        | none => exact Or.inr rfl

theorem youtubeuploadtest_ne_nameError (r : Run Creds) (fs : Files) (x : List Char) :
    (youtubeuploadtest L cwd r fs).1 ≠ .nameError x := by
  unfold youtubeuploadtest
  rcases stored L cwd fs with _ | creds
  · nofun
  · dsimp only
    cases creds.filter fun c => L.valid c r.validAt with
    | some c => exact build_ne_nameError r c x
    | none =>
        dsimp only
        cases refreshable L r creds with
        | some c =>
            dsimp only
            rw [refresh_youtubeuploadtest]
            cases r.refreshed c with
            | none => nofun
            | some c' => exact build_ne_nameError r c' x
        | none =>
            dsimp only
            rw [Run.consent]
            cases r.consented with
            | none => nofun
            | some c =>
                rcases @save_cases Creds L cwd r fs c with hsave | ⟨fs', hsave, -⟩
                · show (save L cwd r c fs).1 ≠ _
                  rw [hsave]
                  nofun
                · show (save L cwd r c fs).1 ≠ _
                  rw [hsave]
                  exact build_ne_nameError r c x

/-- **The later version never misses a name.** It does what `buildapi.py` does for as long
as that does not; and from saved credentials every run goes on to a client of these or of
refreshed ones, unless the refresh is refused. What is refreshed is never saved. -/
theorem youtubeuploadtest_refreshes (L : Library Creds) (cwd : List FileName)
    (runs : List (Run Creds)) (fs : Files) :
    (∀ x, .nameError x ∉ (runAll (youtubeuploadtest L cwd) runs fs).1) ∧
    (.nameError requestName ∉ (runAll (buildapi L cwd) runs fs).1 →
      runAll (youtubeuploadtest L cwd) runs fs = runAll (buildapi L cwd) runs fs) ∧
    ∀ c, stored L cwd fs = some (some c) → L.Refreshable c →
      runAll (youtubeuploadtest L cwd) runs fs = (runs.map (endRefreshing L c), fs) := by
  induction runs generalizing fs with
  | nil => exact ⟨fun x => List.not_mem_nil, fun _ => rfl, fun _ _ _ => rfl⟩
  | cons r rs ih =>
      refine ⟨?_, ?_, ?_⟩
      · intro x hx
        rcases List.mem_cons.mp hx with hx | hx
        · exact youtubeuploadtest_ne_nameError r fs x hx.symm
        · exact (ih _).1 x hx
      · intro hno
        rw [runAll, List.mem_cons, not_or] at hno
        rcases @buildapi_or_youtubeuploadtest Creds L cwd r fs with hrun | hrun
        · rw [hrun] at hno
          exact absurd rfl hno.1
        · rw [runAll, runAll, hrun, (ih _).2.1 hno.2]
      · intro c hstored h
        rw [runAll, youtubeuploadtest_of_stored hstored h]
        show (_ :: (runAll (youtubeuploadtest L cwd) rs fs).1,
          (runAll (youtubeuploadtest L cwd) rs fs).2) = _
        rw [(ih fs).2.2 c hstored h]
        rfl

end

/-- The later version on credentials that have expired. -/
theorem youtubeuploadtest_refreshes_hourglass :
    let fs : Files := (Store.empty.write [token_pickle] [0, 0, 0]).getD Store.empty
    runAll (youtubeuploadtest hourglass []) [runAt 1, runAt 20] fs =
      ([.built 3, .built 30], fs) := by
  intro fs
  exact (youtubeuploadtest_refreshes hourglass [] [runAt 1, runAt 20] fs).2.2 3 (by decide)
    ⟨rfl, rfl⟩

end VideoUploader.BuildApi
