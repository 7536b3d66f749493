import HeyNilo.DownloadContents
import HeyNilo.Machine
import HeyNilo.ReplyFilter

namespace HeyNilo

/-- `endsWith(suffix, ignoreCase = true)`. -/
def endsWithIgnoreCase (suffix s : Text) : Bool :=
  startsWithIgnoreCase suffix (s.drop (s.length - suffix.length))

namespace HuggingFaceClient

/-- An element of a JSON array: an object, or what makes `getJSONObject` throw its message. -/
inductive Element (α : Type) where
  | object (value : α)
  | malformed (message : Text)
deriving DecidableEq, Repr

/-- A request to the API: an exception of the connection or of the parser, a refusal, or an array. -/
inductive ApiAnswer (α : Type) where
  | thrown (message : Option Text)
  | refused (code : Nat)
  | array (elements : List (Element α))
deriving DecidableEq, Repr

/-- What the `opt` calls read of a model of the listing. -/
structure ModelEntry where
  id : Text := []
  author : Text := []
  downloads : Int := 0
  likes : Int := 0
  tags : List Text := []
deriving DecidableEq, Repr

structure FileEntry where
  path : Text := []
  size : Int := 0
deriving DecidableEq, Repr

structure GGUFFile where
  path : Text
  size : Int
  url : Text
deriving DecidableEq, Repr

structure HuggingFaceModel where
  id : Text
  author : Text
  downloads : Int
  likes : Int
  tags : List Text
  ggufFiles : List GGUFFile
deriving DecidableEq, Repr

inductive ListingRequest where
  | search (searchQuery : Text) (limit : Nat)
  | trending (limit : Nat)
deriving DecidableEq, Repr

/-- The hub: its listings, and the files of a model. -/
structure Hub where
  listing : ListingRequest → ApiAnswer ModelEntry
  files : Text → ApiAnswer FileEntry

/-- The loop of `getModelFiles`, `none` where it throws. -/
def ggufFiles (modelId : Text) : List (Element FileEntry) → Option (List GGUFFile)
  | [] => some []
  | .malformed _ :: _ => none
  | .object file :: rest =>
    if endsWithIgnoreCase ".gguf".toList file.path then
      (ggufFiles modelId rest).map fun files =>
        ⟨file.path, file.size, "https://huggingface.co/".toList ++ modelId ++
          "/resolve/main/".toList ++ file.path⟩ :: files
    else ggufFiles modelId rest

/-- A refusal and an exception leave the model without files. -/
def getModelFiles (hub : Hub) (modelId : Text) : List GGUFFile :=
  match hub.files modelId with
  | .array elements => (ggufFiles modelId elements).getD []
  | .thrown _ | .refused _ => []

/-- A model of the listing, if it has files. -/
def withFiles (hub : Hub) (entry : ModelEntry) : Option HuggingFaceModel :=
  let ggufFiles := getModelFiles hub entry.id
  if ggufFiles.isEmpty then none
  else some ⟨entry.id, entry.author, entry.downloads, entry.likes, entry.tags, ggufFiles⟩

/-- The loop over the listing; it breaks when `enough` holds of the number of models. -/
def collectModels (hub : Hub) (enough : Nat → Bool) (models : List HuggingFaceModel) :
    List (Element ModelEntry) → Except (Option Text) (List HuggingFaceModel)
  | [] => .ok models
  | .malformed message :: _ => .error (some message)
  | .object entry :: rest =>
    match withFiles hub entry with
    | none => collectModels hub enough models rest
    | some model =>
      if enough (models ++ [model]).length then .ok (models ++ [model])
      else collectModels hub enough (models ++ [model]) rest

def searchModels (hub : Hub) (query : Text) (limit : Nat) :
    Except (Option Text) (List HuggingFaceModel) :=
  let searchQuery := if isBlank query then "gguf".toList else query ++ " gguf".toList
  match hub.listing (.search searchQuery limit) with
  | .thrown message => .error message
  | .refused code => .error (some ("Search failed: ".toList ++ (toString code).toList))
  | .array elements => collectModels hub (fun _ => false) [] (elements.take limit)

def getTrendingModels (hub : Hub) (limit : Nat) : Except (Option Text) (List HuggingFaceModel) :=
  match hub.listing (.trending (limit * 3)) with
  | .thrown message => .error message
  | .refused code => .error (some ("Failed: ".toList ++ (toString code).toList))
  | .array elements => collectModels hub (fun n => limit ≤ n) [] (elements.take (limit * 3))

/-- The models with files before the first malformed element. -/
def found (hub : Hub) : List (Element ModelEntry) → List HuggingFaceModel
  | .object entry :: rest => (withFiles hub entry).toList ++ found hub rest
  | _ => []

/-- The exception of the first malformed element. -/
def thrownBy : List (Element ModelEntry) → Option Text
  | [] => none
  | .object _ :: rest => thrownBy rest
  | .malformed message :: _ => some message

theorem collectModels_all (hub : Hub) (models : List HuggingFaceModel)
    (elements : List (Element ModelEntry)) :
    collectModels hub (fun _ => false) models elements =
      (thrownBy elements).elim (.ok (models ++ found hub elements)) fun message =>
        .error (some message) := by
  induction elements generalizing models with
  | nil => simp [collectModels, thrownBy, found]
  | cons element rest ih =>
    cases element with
    | malformed message => rfl
    | object entry =>
      simp only [collectModels, thrownBy, found]
      cases withFiles hub entry with
      | none => exact ih models
      | some model => simpa using ih (models ++ [model])

/-- The loop that breaks at `limit` models answers with the first of those that the whole loop
finds, also where that one throws at a later element. -/
theorem collectModels_limit (hub : Hub) {limit : Nat} {models : List HuggingFaceModel}
    (hmodels : models.length < limit) (elements : List (Element ModelEntry)) :
    collectModels hub (fun n => limit ≤ n) models elements =
      if limit ≤ (models ++ found hub elements).length then
        .ok ((models ++ found hub elements).take limit)
      else collectModels hub (fun _ => false) models elements := by
  induction elements generalizing models with
  | nil => simp [collectModels, found, Nat.not_le.mpr hmodels]
  | cons element rest ih =>
    cases element with
    | malformed message => simp [collectModels, found, Nat.not_le.mpr hmodels]
    | object entry =>
      rcases hentry : withFiles hub entry with _ | model
      · simp only [collectModels, found, hentry]
        exact ih hmodels
      · have hassoc : models ++ (Option.toList (some model) ++ found hub rest) =
            (models ++ [model]) ++ found hub rest := (List.append_assoc ..).symm
        simp only [collectModels, found, hentry, hassoc]
        by_cases henough : limit ≤ (models ++ [model]).length
        · have hlength : (models ++ [model]).length = limit := by
            rw [List.length_append, List.length_singleton] at henough ⊢
            omega
          have hall : limit ≤ ((models ++ [model]) ++ found hub rest).length := by
            rw [List.length_append]
            omega
          rw [if_pos (by simpa using henough), if_pos hall, ← hlength, List.take_left]
        · rw [if_neg (by simpa using henough), if_neg Bool.false_ne_true]
          exact ih (Nat.lt_of_not_le henough)

/-- The trending models are the first `limit` models with files of the listing; a malformed element
fails the request only if it comes before the last of them. -/
theorem getTrendingModels_eq {hub : Hub} {limit : Nat} {elements : List (Element ModelEntry)}
    (h : hub.listing (.trending (limit * 3)) = .array elements) :
    getTrendingModels hub limit =
      let listed := elements.take (limit * 3)
      if limit ≤ (found hub listed).length then .ok ((found hub listed).take limit)
      else (thrownBy listed).elim (.ok (found hub listed)) fun message => .error (some message) := by
  simp only [getTrendingModels, h]
  cases limit with
  | zero => simp [collectModels]
  | succ n =>
    have hnone : ([] : List HuggingFaceModel).length < n + 1 := Nat.succ_pos n
    have hloop := collectModels_limit hub hnone (elements.take ((n + 1) * 3))
    rw [collectModels_all] at hloop
    simpa only [List.nil_append] using hloop

/-- Two models of three have files; the fourth element is malformed. -/
def twoOfThree : Hub where
  listing _ := .array [.object { id := "a".toList }, .object { id := "b".toList },
    .object { id := "c".toList }, .malformed "Value 7".toList]
  files modelId :=
    if modelId = "b".toList then .refused 404 else .array [.object { path := "m.GGUF".toList }]

theorem getTrendingModels_before_malformed :
    twoOfThree.listing (.trending (2 * 3)) = .array [.object { id := "a".toList },
        .object { id := "b".toList }, .object { id := "c".toList }, .malformed "Value 7".toList] ∧
      (getTrendingModels twoOfThree 2).map (·.map (·.id)) = .ok ["a".toList, "c".toList] ∧
      searchModels twoOfThree [] 6 = .error (some "Value 7".toList) :=
  have htrending : getTrendingModels twoOfThree 2 = _ := getTrendingModels_eq rfl
  ⟨rfl, (congrArg (Except.map _) htrending).trans rfl, rfl⟩

end HuggingFaceClient

/-- The coroutine of a search: launched, or waiting for the answer to its request. The screen's first
one asks for the trending models, `none`; the others read the query when they begin. -/
inductive SearchStage where
  | launched (trending : Bool)
  | asked (query : Option Text)
deriving DecidableEq, Repr

/-- `latest` is the search that began last, `outcome` what came of what was last begun. -/
structure HuggingFaceSearchScreen where
  searchQuery : Text := []
  isSearching : Bool := false
  models : List HuggingFaceClient.HuggingFaceModel := []
  errorMessage : Option Text := none
  downloadingModel : Option Text := none
  searches : Nat → Option SearchStage := Function.update (fun _ => none) 0 (some (.launched true))
  launches : Nat := 1
  downloads : List Text := []
  latest : Nat := 0
  outcome : Option (Except (Option Text) (List HuggingFaceClient.HuggingFaceModel)) := some (.ok [])

namespace HuggingFaceSearchScreen

open HuggingFaceClient

inductive Shown where
  | progress
  | error (message : Text)
  | noModels
  | list (models : List HuggingFaceModel)
deriving DecidableEq, Repr

inductive Event where
  | edit (text : Text)
  | onSearch
  | onClick
  | begin (id : Nat)
  | answer (id : Nat) (hub : Hub)
  | onDownload (modelId : Text)
  | onComplete (modelId : Text)
  | onError (modelId error : Text)

def listed (models : List HuggingFaceModel) : Shown :=
  if models.isEmpty then .noModels else .list models

def shown (s : HuggingFaceSearchScreen) : Shown :=
  if s.isSearching then .progress
  else s.errorMessage.elim (listed s.models) .error

def launch (s : HuggingFaceSearchScreen) : HuggingFaceSearchScreen :=
  if isBlank s.searchQuery then s
  else { s with
    searches := Function.update s.searches s.launches (some (.launched false))
    launches := s.launches + 1 }

def fetch (hub : Hub) : Option Text → Except (Option Text) (List HuggingFaceModel)
  | some query => searchModels hub query 20
  | none => getTrendingModels hub 10

def finish (s : HuggingFaceSearchScreen) (id : Nat)
    (result : Except (Option Text) (List HuggingFaceModel)) : HuggingFaceSearchScreen :=
  { s with
    models := match result with | .ok models => models | .error _ => s.models
    errorMessage := match result with | .ok _ => s.errorMessage | .error message => message
    isSearching := false
    searches := Function.update s.searches id none
    outcome := if id = s.latest then some result else s.outcome }

/-- The dialog of a download covers the screen. -/
def step (s : HuggingFaceSearchScreen) : Event → Option HuggingFaceSearchScreen
  | .edit text => if s.downloadingModel = none then some { s with searchQuery := text } else none
  | .onSearch => if s.downloadingModel = none then some s.launch else none
  | .onClick => if s.downloadingModel = none ∧ s.isSearching = false then some s.launch else none
  | .begin id =>
    match s.searches id with
    | some (.launched trending) => some { s with
        isSearching := true
        errorMessage := none
        searches := Function.update s.searches id
          (some (.asked (if trending then none else some s.searchQuery)))
        latest := id
        outcome := none }
    | _ => none
  | .answer id hub =>
    match s.searches id with
    | some (.asked query) => some (s.finish id (fetch hub query))
    | _ => none
  | .onDownload modelId =>
    match s.shown with
    | .list models =>
      if s.downloadingModel = none ∧ (models.map (·.id)).contains modelId then
        some { s with downloadingModel := some modelId, downloads := modelId :: s.downloads }
      else none
    | _ => none
  | .onComplete modelId =>
    if s.downloads.contains modelId then
      some { s with downloadingModel := none, downloads := s.downloads.erase modelId }
    else none
  | .onError modelId error =>
    if s.downloads.contains modelId then
      some { s with
        downloadingModel := none
        downloads := s.downloads.erase modelId
        errorMessage := some error
        outcome := if s.isSearching then s.outcome else some (.error (some error)) }
    else none

def Shows : Except (Option Text) (List HuggingFaceModel) → Shown → Prop
  | .ok models, shown => shown = listed models
  | .error message, shown => ∃ text, message = some text ∧ shown = .error text

def InFlight (s : HuggingFaceSearchScreen) (id : Nat) : Prop :=
  ∃ query, s.searches id = some (.asked query)

/-- Without the progress indicator no request is in flight, and what came of the last one is shown. -/
def Settled (s : HuggingFaceSearchScreen) : Prop :=
  s.isSearching = false →
    (∀ id, ¬ s.InFlight id) ∧ ∃ outcome, s.outcome = some outcome ∧ Shows outcome s.shown

/-- An answer comes while no other request is in flight; models find no error of a download before
them, and an error has a message. -/
def alone (s : HuggingFaceSearchScreen) : Event → Prop
  | .answer id hub => (∀ other, s.InFlight other → other = id) ∧
      ∀ query, s.searches id = some (.asked query) →
        match fetch hub query with
        | .ok _ => s.errorMessage = none
        | .error message => message ≠ none
  | _ => True

structure Inv (s : HuggingFaceSearchScreen) : Prop where
  settled : s.Settled
  latest : s.isSearching = true → s.InFlight s.latest
  fresh : ∀ id, s.launches ≤ id → s.searches id = none

variable {s t : HuggingFaceSearchScreen}

theorem listed_ne_error (models : List HuggingFaceModel) (message : Text) :
    listed models ≠ .error message := by
  unfold listed
  split <;> nofun

/-- Neither the coroutines nor what is shown depend on the query and the downloads. -/
theorem Inv.congr (h : Inv s) (hsearching : t.isSearching = s.isSearching)
    (hshown : t.shown = s.shown) (hsearches : t.searches = s.searches)
    (hlaunches : t.launches = s.launches) (hlatest : t.latest = s.latest)
    (houtcome : t.outcome = s.outcome) : Inv t where
  settled hidle := by
    obtain ⟨hnone, outcome, hs, hshows⟩ := h.settled (hsearching ▸ hidle)
    refine ⟨fun id hid => hnone id ?_, outcome, houtcome.trans hs, hshown ▸ hshows⟩
    rwa [InFlight, hsearches] at hid
  latest hbusy := by
    rw [InFlight, hsearches, hlatest]
    exact h.latest (hsearching ▸ hbusy)
  fresh id hid := hsearches ▸ h.fresh id (hlaunches ▸ hid)

theorem Inv.launch (h : Inv s) : Inv s.launch := by
  unfold HuggingFaceSearchScreen.launch
  split
  · exact h
  · have hkept {id : Nat} : InFlight { s with
        searches := Function.update s.searches s.launches (some (.launched false))
        launches := s.launches + 1 } id ↔ s.InFlight id := by
      by_cases hid : id = s.launches
      · subst hid
        simp [InFlight, h.fresh _ (Nat.le_refl _)]
      · simp only [InFlight, Function.update_of_ne hid]
    refine ⟨fun hidle => ?_, fun hbusy => hkept.mpr (h.latest hbusy), fun id hid => ?_⟩
    · obtain ⟨hnone, hshows⟩ := h.settled hidle
      exact ⟨fun id hid => hnone id (hkept.mp hid), hshows⟩
    · have hle : s.launches + 1 ≤ id := hid
      exact (Function.update_of_ne (by omega) ..).trans (h.fresh id (by omega))

theorem Inv.begin (h : Inv s) {id : Nat} {trending : Bool}
    (hid : s.searches id = some (.launched trending)) (ht : s.step (.begin id) = some t) :
    Inv t := by
  simp only [step, hid] at ht
  cases ht
  refine ⟨nofun, fun _ => ⟨_, Function.update_self ..⟩, fun other hother => ?_⟩
  have hne : other ≠ id := fun heq => nomatch hid.symm.trans (h.fresh id (heq ▸ hother))
  exact (Function.update_of_ne hne ..).trans (h.fresh other hother)

theorem shown_finish (id : Nat) (result : Except (Option Text) (List HuggingFaceModel)) :
    (s.finish id result).shown =
      match result with
      | .ok models => s.errorMessage.elim (listed models) .error
      | .error message => message.elim (listed s.models) .error := by
  cases result <;> rfl

/-- The answer to the only request in flight. -/
theorem Inv.finish (h : Inv s) {id : Nat} {query : Option Text}
    (hid : s.searches id = some (.asked query)) (honly : ∀ other, s.InFlight other → other = id)
    {result : Except (Option Text) (List HuggingFaceModel)}
    (hresult : match result with
      | .ok _ => s.errorMessage = none
      | .error message => message ≠ none) : Inv (s.finish id result) where
  settled _ := by
    have hbusy : s.isSearching = true := by
      by_contra hidle
      exact (h.settled (Bool.eq_false_of_not_eq_true hidle)).1 id ⟨query, hid⟩
    refine ⟨fun other hother => ?_, result, if_pos (honly _ (h.latest hbusy)).symm, ?_⟩
    · obtain ⟨query', hquery⟩ := hother
      by_cases heq : other = id
      · subst heq
        cases hquery.symm.trans (Function.update_self ..)
      · exact heq (honly other ⟨query', (Function.update_of_ne heq ..).symm.trans hquery⟩)
    · rw [shown_finish]
      cases result with
      | ok models => exact congrArg (Option.elim · _ _) hresult
      | error message =>
        obtain ⟨text, rfl⟩ := Option.ne_none_iff_exists'.mp hresult
        exact ⟨text, rfl, rfl⟩
  latest hbusy := nomatch hbusy
  fresh other hother := by
    by_cases heq : other = id
    · exact heq ▸ Function.update_self ..
    · exact (Function.update_of_ne heq ..).trans (h.fresh other hother)

/-- Any other answer leaves a request in flight or shows something else. -/
theorem Inv.finish_unsettled (h : Inv s) {id : Nat} {query : Option Text}
    (hid : s.searches id = some (.asked query))
    {result : Except (Option Text) (List HuggingFaceModel)}
    (hbad : ¬((∀ other, s.InFlight other → other = id) ∧
      match result with
      | .ok _ => s.errorMessage = none
      | .error message => message ≠ none)) : ¬(s.finish id result).Settled := by
  intro hsettled
  obtain ⟨hnone, outcome, houtcome, hshows⟩ := hsettled rfl
  have honly (other : Nat) (hother : s.InFlight other) : other = id := by
    by_contra hne
    obtain ⟨query', hquery⟩ := hother
    exact hnone other ⟨query', (Function.update_of_ne hne ..).trans hquery⟩
  have hbusy : s.isSearching = true := by
    by_contra hidle
    exact (h.settled (Bool.eq_false_of_not_eq_true hidle)).1 id ⟨query, hid⟩
  have hlatest : id = s.latest := (honly _ (h.latest hbusy)).symm
  cases Option.some.inj ((if_pos hlatest).symm.trans houtcome)
  refine hbad ⟨honly, ?_⟩
  rw [shown_finish] at hshows
  cases result with
  | ok models =>
    cases herror : s.errorMessage with
    | none => rfl
    | some error =>
      rw [herror] at hshows
      exact absurd hshows.symm (listed_ne_error models error)
  | error message =>
    obtain ⟨text, hmessage, -⟩ := hshows
    exact hmessage ▸ Option.some_ne_none text

theorem inv_step {e : Event} (h : Inv s) (hok : alone s e) (ht : step s e = some t) : Inv t := by
  cases e with
  | edit text =>
    obtain ⟨-, ⟨⟩⟩ := Option.ite_none_right_eq_some.mp ht
    exact h.congr rfl rfl rfl rfl rfl rfl
  | onSearch =>
    obtain ⟨-, hs⟩ := Option.ite_none_right_eq_some.mp ht
    exact Option.some.inj hs ▸ h.launch
  | onClick =>
    obtain ⟨-, hs⟩ := Option.ite_none_right_eq_some.mp ht
    exact Option.some.inj hs ▸ h.launch
  | begin id =>
    have hstep := ht
    simp only [step] at ht
    split at ht
    next hid => exact h.begin hid hstep
    next => cases ht
  | answer id hub =>
    simp only [step] at ht
    split at ht
    next query hid =>
      cases ht
      exact h.finish hid hok.1 (hok.2 query hid)
    next => cases ht
  | onDownload modelId =>
    simp only [step] at ht
    split at ht
    · obtain ⟨-, ⟨⟩⟩ := Option.ite_none_right_eq_some.mp ht
      exact h.congr rfl rfl rfl rfl rfl rfl
    · cases ht
  | onComplete modelId =>
    obtain ⟨-, ⟨⟩⟩ := Option.ite_none_right_eq_some.mp ht
    exact h.congr rfl rfl rfl rfl rfl rfl
  | onError modelId error =>
    obtain ⟨-, ⟨⟩⟩ := Option.ite_none_right_eq_some.mp ht
    refine ⟨fun hidle => ⟨(h.settled hidle).1, .error (some error), ?_, error, rfl, ?_⟩,
      h.latest, h.fresh⟩
    · have hidle : s.isSearching = false := hidle
      simp only [hidle, Bool.false_eq_true, if_false]
    · have hidle : s.isSearching = false := hidle
      simp only [shown, hidle, Bool.false_eq_true, if_false, Option.elim_some]

theorem not_settled_step {e : Event} (h : Inv s) (hok : ¬ alone s e) (ht : step s e = some t) :
    ¬ t.Settled := by
  cases e with
  | answer id hub =>
    simp only [step] at ht
    split at ht
    next query hid =>
      cases ht
      refine h.finish_unsettled hid fun ⟨honly, hresult⟩ => hok ⟨honly, fun query' hquery => ?_⟩
      cases Option.some.inj (hid.symm.trans hquery)
      exact hresult
    next => cases ht
  | _ => exact absurd trivial hok

theorem searches_start {id : Nat} (hid : id ≠ 0) :
    ({} : HuggingFaceSearchScreen).searches id = none :=
  Function.update_of_ne (β := fun _ => Option SearchStage) hid _ fun _ => none

theorem inv_start : Inv {} where
  settled _ := by
    refine ⟨fun id hid => ?_, .ok [], rfl, rfl⟩
    obtain ⟨query, hquery⟩ := hid
    by_cases heq : id = 0
    · subst heq
      cases hquery
    · cases (searches_start heq).symm.trans hquery
  latest hbusy := nomatch hbusy
  fresh id hid := searches_start (Nat.one_le_iff_ne_zero.mp hid)

/-- Whenever it is not searching, the screen has no request in flight and shows what came of the last
one, exactly if every answer meets that condition. The search key starts a search also while another
one is running. -/
theorem always_settled_iff {es : List Event} (hrun : Machine.run step {} es = some s) :
    Machine.Always step Settled {} es ↔ Machine.Meets step alone {} es :=
  Machine.always_iff_meets (fun _ h => h.settled) (fun _ _ _ => inv_step)
    (fun _ _ _ => not_settled_step) inv_start hrun

theorem settled_unless_key_pressed :
    Machine.Always step Settled {} [.begin 0, .answer 0 twoOfThree] ∧
      ¬ Machine.Always step Settled {}
        [.begin 0, .edit ['q'], .onSearch, .begin 1, .answer 0 twoOfThree] := by
  refine ⟨(always_settled_iff rfl).mpr ⟨trivial, fun t ht => ?_⟩, fun h => ?_⟩
  · cases Option.some.inj ht
    refine ⟨⟨fun other hother => ?_, fun query hquery => ?_⟩, fun _ _ => trivial⟩
    · obtain ⟨query, hquery⟩ := hother
      by_contra hne
      cases ((Function.update_of_ne hne ..).trans (searches_start hne)).symm.trans hquery
    · cases hquery
      exact Option.some_ne_none _
  · have hmeets := (always_settled_iff rfl).mp h
    have halone := (((hmeets.2 _ rfl).2 _ rfl).2 _ rfl).2 _ rfl
    cases halone.1.1 1 ⟨_, rfl⟩

inductive DownloadCall where
  | onProgress (percent : Int) (status : Text)
  | onComplete
  | onError (error : Text)
deriving DecidableEq, Repr

def ggufMagic : Bytes := [0x47, 0x47, 0x55, 0x46]

/-- The four bytes read into a buffer of zeros. -/
def magic (file : Bytes) : Bytes := (file ++ [0, 0, 0, 0]).take 4

/-- The call made for what the flow emits, and the file at the destination. -/
def handle (output : Option Bytes) : DownloadProgress → DownloadCall × Option Bytes
  | .started _ => (.onProgress 0 "Connected...".toList, output)
  | .progress percent _ _ => (.onProgress percent "Downloading...".toList, output)
  | .completed =>
    if fileLength output = 0 then
      (.onError "Download failed: file missing after completion".toList, output)
    else if magic (output.getD []) ≠ ggufMagic then
      (.onError ("Download failed: file is not a valid GGUF model. The download may have been " ++
        "blocked by HuggingFace or the model is incompatible.").toList, none)
    else (.onComplete, output)
  | .error message => (.onError message, output)

/-- The destination is read only after the last emission. -/
def downloadModel (server : ModelServer) (renames : Bool) (files : ModelFiles) :
    List DownloadCall × ModelFiles :=
  let (events, final) := HuggingFaceClient.downloadModel server renames files
  let handled := events.map (handle final.output)
  (.onProgress 0 "Starting download...".toList :: handled.map Prod.fst,
    { final with output := (handled.map Prod.snd).getLastD final.output })

def DownloadCall.isProgress : DownloadCall → Bool
  | .onProgress .. => true
  | .onComplete | .onError _ => false

variable {server : ModelServer} {renames : Bool} {files : ModelFiles} {reply : ModelReply}

theorem isProgress_progressEvents (output : Option Bytes) (totalBytes : Int) (body : List Bytes)
    (downloadedBytes lastProgress : Int) :
    ∀ event ∈ progressEvents totalBytes downloadedBytes lastProgress body,
      (handle output event).1.isProgress = true := by
  induction body generalizing downloadedBytes lastProgress with
  | nil => simp [progressEvents]
  | cons piece rest ih =>
    simp only [progressEvents]
    split
    · exact List.forall_mem_cons.mpr ⟨rfl, ih _ _⟩
    · exact ih _ _

theorem isProgress_opened (output : Option Bytes) (reply : ModelReply) :
    ∀ event ∈ opened reply, (handle output event).1.isProgress = true :=
  List.forall_mem_cons.mpr ⟨rfl, isProgress_progressEvents output _ _ _ _⟩

/-- A download that does not pass the checks ends with an error and keeps the destination. -/
theorem downloadModel_of_not_passes (files : ModelFiles)
    (h : ∀ reply, server none = .ok reply → ¬ Passes renames reply) :
    ∃ before message, (HuggingFaceClient.downloadModel server renames files).1 =
        before ++ [.error message] ∧
      (before = [] ∨ ∃ reply, before = opened reply) ∧
      (HuggingFaceClient.downloadModel server renames files).2.output = files.output := by
  unfold HuggingFaceClient.downloadModel
  dsimp only
  split
  · exact ⟨[], _, rfl, .inl rfl, rfl⟩
  next reply hreply =>
    split
    · exact ⟨[], _, rfl, .inl rfl, rfl⟩
    next hcode =>
      split
      · exact ⟨[], _, rfl, .inl rfl, rfl⟩
      next hbody =>
        rw [readLoop_none]
        dsimp only
        split
        · exact ⟨opened reply, _, rfl, .inr ⟨reply, rfl⟩, rfl⟩
        next hbroken =>
          split
          · exact ⟨opened reply, _, rfl, .inr ⟨reply, rfl⟩, rfl⟩
          next hempty =>
            split
            · exact ⟨opened reply, _, rfl, .inr ⟨reply, rfl⟩, rfl⟩
            next hshort =>
              split
              · exact ⟨opened reply, _, rfl, .inr ⟨reply, rfl⟩, rfl⟩
              next hrenames =>
                exact absurd ⟨by simpa using hcode, by simpa using hbody, hbroken,
                  by simpa using hempty, fun hpos => by simpa [hpos] using hshort,
                  by simpa using hrenames⟩ (h reply hreply)

theorem magic_eq_iff (file : Bytes) : magic file = ggufMagic ↔ ggufMagic <+: file := by
  rcases file with _ | ⟨a, _ | ⟨b, _ | ⟨c, _ | ⟨d, rest⟩⟩⟩⟩ <;>
    simp only [magic, ggufMagic] <;> grind

/-- The last call is the given one, and all before it report progress. -/
def EndsWith (calls : List DownloadCall) (ending : DownloadCall) : Prop :=
  ∃ before, calls = before ++ [ending] ∧ ∀ call ∈ before, call.isProgress = true

/-- What is called for a flow that emits some progress and then its last event. -/
theorem endsWith_of_emitted {before : List DownloadProgress} {last : DownloadProgress}
    {final : ModelFiles}
    (h : HuggingFaceClient.downloadModel server renames files = (before ++ [last], final))
    (hbefore : before = [] ∨ ∃ reply, before = opened reply) :
    EndsWith (downloadModel server renames files).1 (handle final.output last).1 ∧
      (downloadModel server renames files).2.output = (handle final.output last).2 := by
  simp only [downloadModel, h, List.map_append, List.map_cons, List.map_nil, List.getLastD_concat,
    and_true]
  refine ⟨_ :: (before.map (handle final.output)).map Prod.fst, rfl, ?_⟩
  rw [List.map_map]
  refine List.forall_mem_cons.mpr ⟨rfl, List.forall_mem_map.mpr ?_⟩
  rcases hbefore with rfl | ⟨reply, rfl⟩
  · exact fun _ hmem => nomatch hmem
  · exact isProgress_opened final.output reply

theorem handle_completed {file : Bytes} (h : file ≠ []) :
    if ggufMagic <+: file then handle (some file) .completed = (.onComplete, some file)
    else ∃ error, handle (some file) .completed = (.onError error, none) := by
  have hlength : fileLength (some file) ≠ 0 := mt List.eq_nil_of_length_eq_zero h
  by_cases hmagic : ggufMagic <+: file
  · rw [if_pos hmagic]
    exact (if_neg hlength).trans (if_neg (not_not_intro ((magic_eq_iff file).mpr hmagic)))
  · rw [if_neg hmagic]
    exact ⟨_, (if_neg hlength).trans (if_pos (mt (magic_eq_iff file).mp hmagic))⟩

/-- A download makes one last call that is not progress: `onComplete` with the file at the
destination exactly if it passes the checks and begins as a GGUF model. After an error the
destination is as before, or empty where the checks let another file through. -/
theorem downloadModel_ends (server : ModelServer) (renames : Bool) (files : ModelFiles) :
    (EndsWith (downloadModel server renames files).1 .onComplete ∧
      ∃ reply, server none = .ok reply ∧ Passes renames reply ∧ ggufMagic <+: reply.body.flatten ∧
        (downloadModel server renames files).2.output = some reply.body.flatten) ∨
    (∃ error, EndsWith (downloadModel server renames files).1 (.onError error)) ∧
      ((∀ reply, server none = .ok reply → ¬ Passes renames reply) ∧
          (downloadModel server renames files).2.output = files.output ∨
        ∃ reply, server none = .ok reply ∧ Passes renames reply ∧
          ¬ ggufMagic <+: reply.body.flatten ∧
          (downloadModel server renames files).2.output = none) := by
  by_cases h : ∃ reply, server none = .ok reply ∧ Passes renames reply
  · obtain ⟨reply, hreply, hp⟩ := h
    have hhandle := handle_completed hp.2.2.2.1
    have hevents : HuggingFaceClient.downloadModel server renames files = _ :=
      downloadModel_of_passes hreply hp
    obtain ⟨hends, houtput⟩ := endsWith_of_emitted hevents (.inr ⟨reply, rfl⟩)
    by_cases hmagic : ggufMagic <+: reply.body.flatten
    · rw [if_pos hmagic] at hhandle
      rw [hhandle] at hends houtput
      exact .inl ⟨hends, reply, hreply, hp, hmagic, houtput⟩
    · rw [if_neg hmagic] at hhandle
      obtain ⟨error, hhandle⟩ := hhandle
      rw [hhandle] at hends houtput
      exact .inr ⟨⟨error, hends⟩, .inr ⟨reply, hreply, hp, hmagic, houtput⟩⟩
  · have hnot (reply : ModelReply) (hreply : server none = .ok reply) : ¬ Passes renames reply :=
      fun hp => h ⟨reply, hreply, hp⟩
    obtain ⟨before, message, hevents, hbefore, hkept⟩ := downloadModel_of_not_passes files hnot
    obtain ⟨hends, houtput⟩ := endsWith_of_emitted (Prod.ext hevents rfl) hbefore
    exact .inr ⟨⟨message, hends⟩, .inl ⟨hnot, houtput.trans hkept⟩⟩

end HuggingFaceSearchScreen

end HeyNilo
