import HeyNilo.HuggingFaceSearch
import HeyNilo.LastModelPreference
import HeyNilo.Machine

namespace HeyNilo

open LastModelPreference Machine

/-- A file among the downloads, with the bits of its size in GB. -/
structure DownloadedModel where
  name : Text
  sizeGB : UInt32
deriving DecidableEq, Repr

/-- The model that `CustomModelManager` keeps. -/
structure CustomModel where
  path : Text
  name : Text
deriving DecidableEq, Repr

/-- What a chat runs on. -/
inductive ChatTarget where
  | file (path : Text)
  | online (config : ProviderConfig)
deriving DecidableEq, Repr

/-- What comes of `bridge.loadModel` and `setSystemPrompt`. -/
inductive LoadOutcome where
  | success
  | failure
  | exception (message : Text)
deriving DecidableEq, Repr

/-- `substringBeforeLast(delimiter)`. -/
def substringBeforeLast (delimiter : Char) (s : Text) : Text :=
  if delimiter ∈ s then s.take (s.length - 1 - (substringAfterLast delimiter [] s).length) else s

namespace OfflineModelConfig

def isCustom (modelId : Text) : Bool := "custom_".toList.isPrefixOf modelId

/-- The configuration of a file that was found among the downloads. -/
def ofDownload (file : DownloadedModel) : OfflineModelConfig where
  id := "hf_".toList ++ (substringBeforeLast '.' file.name).map fun c => if c = ' ' then '_' else c
  displayName := substringBeforeLast '.' file.name
  fileName := file.name
  sizeGB := file.sizeGB
  minRamGB := 3
  description := "Downloaded from Hugging Face".toList
  downloadUrl := []

/-- The configuration that `onModelDownloaded` makes. -/
def ofFinished (file : DownloadedModel) (modelId : Text) : OfflineModelConfig where
  id := "hf_".toList ++ modelId.map fun c => if c = '/' then '_' else c
  displayName := substringBeforeLast '.' file.name
  fileName := file.name
  sizeGB := file.sizeGB
  minRamGB := 4
  description := "Downloaded from Hugging Face: ".toList ++ modelId
  downloadUrl := []

/-- The configuration of a custom model. -/
def ofCustom (custom : CustomModel) (currentTime : Nat) (sizeGB : UInt32) : OfflineModelConfig where
  id := "custom_".toList ++ (toString currentTime).toList
  displayName := custom.name
  fileName := substringAfterLast '/' custom.path custom.path
  sizeGB := sizeGB
  minRamGB := 3
  description := "Custom model at: ".toList ++ custom.path
  downloadUrl := []

end OfflineModelConfig

/-- The path of a model file, below the external files directory. -/
def absolutePath (dir : Text) : ModelPath → Text
  | .custom path => path
  | .download fileName => dir ++ "/models/hf_downloads/".toList ++ fileName
  | .model fileName => dir ++ "/models/".toList ++ fileName

/-- What the resume dialog starts for a configuration. -/
def SavedConfig.target (dir : Text) (config : SavedConfig) : Option ChatTarget :=
  match config.mode with
  | .offline => config.offlineModel.map fun model =>
    .file (match config.isCustomModel, config.customModelPath with
      | true, some path => path
      | _, _ => absolutePath dir (.model model.fileName))
  | .huggingFace => config.offlineModel.map fun model =>
    .file (config.customModelPath.getD (absolutePath dir (.download model.fileName)))
  | .online _ => config.onlineConfig.map .online

/-- What a saved configuration would start if its file were there. -/
def LastModelPreference.recorded (dir : Text) (prefs : SharedPreferences) : Option ChatTarget :=
  match getSavedConfig (fun _ => true) prefs with
  | .ok (some config, _) => config.target dir
  | _ => none

/-- What the app shows. -/
inductive ModelSetupView.Shown where
  | setup
  | chat (target : ChatTarget)
  | error (message : Text)
  | crashed
deriving DecidableEq, Repr

/-- The effect that runs when the setup screen appears, with the downloads that it has found. -/
inductive ModelSetupView.Startup where
  | refreshing
  | refreshed (hfModels : List DownloadedModel)
  | checked (hfModels : List DownloadedModel)
  | done
deriving DecidableEq, Repr

def ModelSetupView.Startup.isChecked : ModelSetupView.Startup → Bool
  | .refreshing | .refreshed _ => false
  | .checked _ | .done => true

/-- The setup screen, with the preferences and the files that outlive it. -/
structure ModelSetupView where
  prefs : SharedPreferences := fun _ => none
  customModel : Option CustomModel := none
  /-- The paths at which there is a file. -/
  files : List Text := []
  shown : ModelSetupView.Shown := .setup
  selectedMode : Option AppMode := none
  onlineConfig : Option ProviderConfig := none
  selectedOfflineModel : Option OfflineModelConfig := none
  hfDownloadedModels : List DownloadedModel := []
  startup : ModelSetupView.Startup := .refreshing
  /-- The downloads that the polling effect has found while no model was selected. -/
  polling : Option (List DownloadedModel) := none
  resumeDialog : Option SavedConfig := none
  /-- The picker, with the custom model that it remembers. -/
  picker : Option (Option CustomModel) := none
  showHuggingFaceSearch : Bool := false
  snackbarMessage : Option Text := none

namespace ModelSetupView

inductive Event where
  | startupRefresh (hfModels : List DownloadedModel)
  /-- With the provider, the key and the model name of the key store. -/
  | checkSaved (stored : Option (ApiProvider × Text × Text))
  | scan
  | pollRefresh (hfModels : List DownloadedModel)
  | pollFind (outcome : LoadOutcome)
  /-- The dialog is composed again, with the name of the saved configuration. -/
  | composeDialog
  | resume (outcome : LoadOutcome)
  | dismiss
  | selectOffline
  | selectHuggingFace
  | selectOnline
  | openPicker
  | onBack
  | onModelSelected (model : OfflineModelConfig)
  | selectCustom (currentTime : Nat) (sizeGB : UInt32)
  | addCustom (path : Text) (currentTime : Nat) (sizeGB : UInt32)
  | clearCustomModel
  | openSearch
  | onModelDownloaded (file : DownloadedModel) (modelId : Text)
  | onSave (provider : ApiProvider) (apiKey modelName : Text)
  | start (outcome : LoadOutcome)
  | back
  | retry
  | restart
  | created (path : Text)
  | deleted (path : Text)
deriving DecidableEq, Repr

/-- Another view, or a new setup screen: what the old one remembers is gone. -/
def leave (s : ModelSetupView) (shown : Shown) : ModelSetupView :=
  { prefs := s.prefs, customModel := s.customModel, files := s.files, shown := shown }

/-- The failure of a resumed start. -/
def forget (s : ModelSetupView) (message : Text) : ModelSetupView :=
  leave { s with prefs := clear s.prefs } (.error message)

/-- Nothing is above the cards and the start button. -/
def isFree (s : ModelSetupView) : Bool :=
  s.shown = .setup && s.resumeDialog.isNone && s.picker.isNone && !s.showHuggingFaceSearch

def select (s : ModelSetupView) (mode : AppMode) (model : OfflineModelConfig) : ModelSetupView :=
  { s with selectedMode := some mode, selectedOfflineModel := some model }

section Steps

variable (dir : Text) (models : List OfflineModelConfig)

def isThere (s : ModelSetupView) (path : ModelPath) : Bool :=
  s.files.contains (absolutePath dir path)

/-- The first model of the catalogue that has its file. -/
def downloadedModel (s : ModelSetupView) : Option OfflineModelConfig :=
  models.find? fun model => s.isThere dir (.model model.fileName)

/-- The path that the start button takes in offline mode. -/
def offlinePath (s : ModelSetupView) (model : OfflineModelConfig) : Text :=
  match OfflineModelConfig.isCustom model.id, s.customModel with
  | true, some custom => custom.path
  | _, _ => absolutePath dir (.model model.fileName)

/-- The load of the start button, and what it saves. -/
def startFile (s : ModelSetupView) (path : Text) (model : OfflineModelConfig) (isCustom : Bool)
    (customPath : Option Text) (outcome : LoadOutcome) : ModelSetupView :=
  if s.files.contains path then
    match outcome with
    | .success =>
      leave { s with prefs := saveOfflineModel s.prefs model isCustom customPath }
        (.chat (.file path))
    | .failure => s.leave (.error "Failed to load model".toList)
    | .exception message => s.leave (.error ("Error: ".toList ++ message))
  else { s with snackbarMessage := some ("Model not found at: ".toList ++ path) }

/-- The start button. A load blocks the main thread, so that nothing comes between. -/
def start (s : ModelSetupView) (outcome : LoadOutcome) : ModelSetupView :=
  match s.selectedMode with
  | some .offline =>
    match s.selectedOfflineModel with
    | some model =>
      let path := s.offlinePath dir model
      let isCustom := OfflineModelConfig.isCustom model.id
      s.startFile path model isCustom (if isCustom then some path else none) outcome
    | none =>
      { s with
        snackbarMessage :=
          some "Tap 'Configure' on Offline card to select a model first.".toList }
  | some .huggingFace =>
    match s.selectedOfflineModel with
    | some model =>
      if isHf model.id then
        let path := absolutePath dir (.download model.fileName)
        s.startFile path model false (some path) outcome
      else
        { s with
          snackbarMessage :=
            some "Tap 'Configure' on Hugging Face card to download a model first.".toList }
    | none =>
      { s with
        snackbarMessage :=
          some "Tap 'Configure' on Hugging Face card to download a model first.".toList }
  | some (.online _) =>
    match s.onlineConfig with
    | some config =>
      if isBlank config.apiKey then
        { s with
          snackbarMessage :=
            some "Tap 'Configure' on Online card to set up API key.".toList }
      else leave { s with prefs := saveOnlineConfig s.prefs config } (.chat (.online config))
    | none =>
      { s with snackbarMessage := some "Tap 'Configure' on Online card to set up API key.".toList }
  | none => { s with snackbarMessage := some "Select a mode first".toList }

/-- The OK button of the resume dialog. -/
def resume (s : ModelSetupView) (config : SavedConfig) (outcome : LoadOutcome) : ModelSetupView :=
  match config.target dir with
  | none => s.forget "Error loading: null".toList
  | some (.online config) => s.leave (.chat (.online config))
  | some (.file path) =>
    if s.files.contains path then
      match outcome with
      | .success => s.leave (.chat (.file path))
      | .failure => s.forget "Failed to load model".toList
      | .exception message => s.forget ("Error loading: ".toList ++ message)
    else s.forget ("Model file not found: ".toList ++ path)

/-- The first downloaded model is selected where the catalogue has none. -/
def selectFirst (s : ModelSetupView) (hfModels : List DownloadedModel) : ModelSetupView :=
  match hfModels with
  | file :: _ => s.select .huggingFace (.ofDownload file)
  | [] => s

/-- What the polling effect does on the main thread. -/
def pollFind (s : ModelSetupView) (hfModels : List DownloadedModel) (outcome : LoadOutcome) :
    ModelSetupView :=
  match s.downloadedModel dir models with
  | some model =>
    match outcome with
    | .success => s.leave (.chat (.file (absolutePath dir (.model model.fileName))))
    | .failure => s.leave (.error "Failed to auto-load model".toList)
    | .exception message => s.leave (.error ("Error loading model: ".toList ++ message))
  | none => selectFirst { s with polling := none } hfModels

/-- The online configuration after a look at the key store. -/
def restoreOnline (s : ModelSetupView) :
    Option (ApiProvider × Text × Text) → Option ProviderConfig
  | some (provider, apiKey, modelName) => some
    { provider := provider
      apiKey := apiKey
      modelName := if isBlank modelName then provider.defaultModel else modelName
      enabled := true }
  | none => s.onlineConfig

/-- What the startup effect reads: the saved configuration, which is cleared where its file is gone,
and the key store. -/
def checkSaved (s : ModelSetupView) (hfModels : List DownloadedModel)
    (stored : Option (ApiProvider × Text × Text)) : ModelSetupView :=
  match getSavedConfig (s.isThere dir) s.prefs with
  | .error _ => s.leave .crashed
  | .ok (config, prefs) =>
    { s with
      prefs := prefs
      startup := .checked hfModels
      resumeDialog := config.orElse fun _ => s.resumeDialog
      onlineConfig := s.restoreOnline stored }

def composeDialog (s : ModelSetupView) : ModelSetupView :=
  match getSavedConfig (s.isThere dir) s.prefs with
  | .error _ => s.leave .crashed
  | .ok (_, prefs) => { s with prefs := prefs }

def step (s : ModelSetupView) : Event → Option ModelSetupView
  | .startupRefresh hfModels =>
    if s.shown = .setup ∧ s.startup = .refreshing then
      some { s with hfDownloadedModels := hfModels, startup := .refreshed hfModels }
    else none
  | .checkSaved stored =>
    match s.startup with
    | .refreshed hfModels =>
      if s.shown = .setup then some (s.checkSaved dir hfModels stored) else none
    | _ => none
  | .scan =>
    match s.startup with
    | .checked hfModels =>
      if s.shown = .setup then
        some <| match s.downloadedModel dir models with
          | some model => select { s with startup := .done } .offline model
          | none => selectFirst { s with startup := .done } hfModels
      else none
    | _ => none
  | .pollRefresh hfModels =>
    if s.shown = .setup ∧ s.polling = none then
      some { s with
        hfDownloadedModels := hfModels
        polling := if s.selectedOfflineModel.isNone then some hfModels else none }
    else none
  | .pollFind outcome =>
    match s.polling with
    | some hfModels =>
      if s.shown = .setup then some (s.pollFind dir models hfModels outcome) else none
    | none => none
  | .composeDialog =>
    if s.shown = .setup ∧ s.resumeDialog.isSome then some (s.composeDialog dir) else none
  | .resume outcome =>
    match s.resumeDialog with
    | some config => if s.shown = .setup then some (s.resume dir config outcome) else none
    | none => none
  | .dismiss =>
    if s.shown = .setup ∧ s.resumeDialog.isSome then
      some { s with prefs := clear s.prefs, resumeDialog := none }
    else none
  | .selectOffline => if s.isFree then some { s with selectedMode := some .offline } else none
  | .selectHuggingFace =>
    if s.isFree then
      match s.selectedMode, s.selectedOfflineModel with
      | some .huggingFace, some _ => some s
      | _, _ => some (selectFirst { s with selectedMode := some .huggingFace } s.hfDownloadedModels)
    else none
  | .selectOnline =>
    if s.isFree then
      some { s with
        selectedMode := some (.online (s.onlineConfig.elim .deepseek ProviderConfig.provider)) }
    else none
  | .openPicker => if s.isFree then some { s with picker := some s.customModel } else none
  | .onBack =>
    if s.shown = .setup ∧ s.resumeDialog = none then
      some { s with picker := none, showHuggingFaceSearch := false }
    else none
  | .onModelSelected model =>
    if s.shown = .setup ∧ s.resumeDialog = none ∧ s.picker.isSome then
      some { s.select .offline model with picker := none }
    else none
  | .selectCustom currentTime sizeGB =>
    match s.picker with
    | some (some custom) =>
      if s.shown = .setup ∧ s.resumeDialog = none ∧ s.files.contains custom.path then
        some { s.select .offline (.ofCustom custom currentTime sizeGB) with picker := none }
      else none
    | _ => none
  | .addCustom path currentTime sizeGB =>
    if s.shown = .setup ∧ s.resumeDialog = none ∧ s.picker.isSome ∧
        s.files.contains path ∧ endsWithIgnoreCase ".gguf".toList path then
      let name := substringBeforeLast '.' (substringAfterLast '/' path path)
      some { s.select .offline (.ofCustom ⟨path, name⟩ currentTime sizeGB) with
        customModel := some ⟨path, name⟩, picker := none }
    else none
  | .clearCustomModel =>
    if s.shown = .setup ∧ s.resumeDialog = none ∧ s.picker.isSome then
      some { s with customModel := none }
    else none
  | .openSearch =>
    if s.shown = .setup ∧ s.resumeDialog = none then
      some { s with picker := none, showHuggingFaceSearch := true }
    else none
  | .onModelDownloaded file modelId =>
    if s.shown = .setup ∧ s.showHuggingFaceSearch then
      if s.isThere dir (.download file.name) then
        let model := OfflineModelConfig.ofFinished file modelId
        some { s.select .huggingFace model with
          prefs := saveOfflineModel s.prefs model false
            (some (absolutePath dir (.download file.name)))
          showHuggingFaceSearch := false
          snackbarMessage := some ("Model downloaded: ".toList ++ model.displayName) }
      else
        some { s with
          showHuggingFaceSearch := false
          snackbarMessage := some "Download failed: file missing".toList }
    else none
  | .onSave provider apiKey modelName =>
    if s.isFree then
      some { s with
        onlineConfig := some { provider, apiKey, modelName, enabled := true }
        selectedMode := some (.online provider) }
    else none
  | .start outcome => if s.isFree && s.selectedMode.isSome then some (s.start dir outcome) else none
  | .back =>
    match s.shown with
    | .chat _ => some (s.leave .setup)
    | _ => none
  | .retry =>
    match s.shown with
    | .error _ => some (s.leave .setup)
    | _ => none
  | .restart => some (s.leave .setup)
  | .created path => some { s with files := path :: s.files }
  | .deleted path => some { s with files := s.files.filter (· != path) }

end Steps

variable {dir : Text} {models : List OfflineModelConfig} {s t : ModelSetupView}

/-- The app has not crashed, the chat runs on what the next start will offer, and so does the resume
dialog offer it. -/
def Remembers (dir : Text) (s : ModelSetupView) : Prop :=
  s.shown ≠ .crashed ∧
    (∀ target, s.shown = .chat target → recorded dir s.prefs = some target) ∧
    ∀ config, s.resumeDialog = some config → recorded dir s.prefs = config.target dir

/-- No downloaded model is started in offline mode, and the polling effect loads none but the saved
model; under the resume dialog no other download ends, and it is not composed without its file. -/
def keepsRecord (dir : Text) (models : List OfflineModelConfig) (s : ModelSetupView) : Event → Prop
  | .start outcome => outcome = .success → s.selectedMode = some .offline →
      ∀ model, s.selectedOfflineModel = some model → isHf model.id = true →
        s.isThere dir (.model model.fileName) = false
  | .pollFind outcome => outcome = .success →
      ∀ model, s.downloadedModel dir models = some model →
        recorded dir s.prefs = some (.file (absolutePath dir (.model model.fileName)))
  | .onModelDownloaded file _ => s.isThere dir (.download file.name) = true →
      ∀ config, s.resumeDialog = some config →
        config.target dir = some (.file (absolutePath dir (.download file.name)))
  | .composeDialog => ∀ config path, s.resumeDialog = some config →
      config.target dir = some (.file path) → s.files.contains path = true
  | _ => True

/-- What the readers check and start is the same file. -/
def Settles (dir : Text) : Save → Prop
  | .offlineModel model isCustom customPath =>
    (Save.offlineModel model isCustom customPath).config.target dir =
      some (.file (absolutePath dir (modelPath model isCustom customPath)))
  | .onlineConfig config => (Save.onlineConfig config).Restorable

/-- The preferences hold nothing, or what was saved last. -/
inductive Kept (dir : Text) : SharedPreferences → Prop
  | nothing {p : SharedPreferences} (h : p "mode" = none) : Kept dir p
  | saved (p : SharedPreferences) {given : Save} (h : Settles dir given) :
    Kept dir (Call.run p (.save given))

theorem recorded_of_read {p q : SharedPreferences} {result : Option SavedConfig}
    (h : getSavedConfig (fun _ => true) p = .ok (result, q)) :
    recorded dir p = result.bind (SavedConfig.target dir) := by
  rw [recorded, h]
  cases result <;> rfl

theorem recorded_saveOfflineModel (p : SharedPreferences) (model : OfflineModelConfig)
    (isCustom : Bool) (customPath : Option Text) :
    recorded dir (saveOfflineModel p model isCustom customPath) =
      (Save.offlineModel model isCustom customPath).config.target dir :=
  recorded_of_read (getSavedConfig_saveOfflineModel rfl)

theorem recorded_saveOnlineConfig (p : SharedPreferences) {config : ProviderConfig}
    (h : (Save.onlineConfig config).Restorable) :
    recorded dir (saveOnlineConfig p config) = some (.online config) := by
  obtain ⟨provider, apiKey, baseUrl, modelName, enabled, apiFormat⟩ := config
  obtain ⟨rfl, rfl, rfl⟩ := h
  exact recorded_of_read (getSavedConfig_saveOnlineConfig _)

theorem getSavedConfig_of_mode {p : SharedPreferences} (h : p "mode" = none)
    (fileExists : ModelPath → Bool) : getSavedConfig fileExists p = .ok (none, p) := by
  have hmode : p.getString "mode" = .ok none := SharedPreferences.getString_of h
  rw [getSavedConfig, hmode]
  rfl

/-- A saved configuration whose file is gone is cleared. -/
theorem getSavedConfig_gone {p : SharedPreferences} {model : OfflineModelConfig} {isCustom : Bool}
    {customPath : Option Text} {fileExists : ModelPath → Bool}
    (hgone : fileExists (modelPath model isCustom customPath) = false) :
    getSavedConfig fileExists (saveOfflineModel p model isCustom customPath) =
      .ok (none, clear (saveOfflineModel p model isCustom customPath)) := by
  set q := saveOfflineModel p model isCustom customPath with hq
  have hmode : q.getString "mode" =
      .ok (some (if isHf model.id then "HuggingFace".toList else "Offline".toList)) :=
    SharedPreferences.getString_of (saveOfflineModel_key 0 rfl)
  have hid : q.getString "model_id" = .ok (some model.id) :=
    SharedPreferences.getString_of (saveOfflineModel_key 1 rfl)
  have hbranch : (if isHf model.id then "HuggingFace".toList else "Offline".toList) =
      "Offline".toList ∨
      (if isHf model.id then "HuggingFace".toList else "Offline".toList) =
        "HuggingFace".toList := by
    by_cases hhf : isHf model.id = true
    · exact .inr (if_pos hhf)
    · exact .inl (if_neg hhf)
  rw [getSavedConfig, hmode]
  simp only [bind, Except.bind]
  rw [if_pos hbranch, hid]
  simp only
  rw [readOffline_saved]
  simp only
  rw [hgone, if_neg Bool.false_ne_true]
  rfl

/-- What a reading of the saved configuration comes to. -/
inductive Reading (dir : Text) (s : ModelSetupView) :
    Except ClassCastException (Option SavedConfig × SharedPreferences) → Prop
  | nothing (h : recorded dir s.prefs = none) : Reading dir s (.ok (none, s.prefs))
  | found {config : SavedConfig} (h : recorded dir s.prefs = config.target dir)
    (hthere : ∀ path, config.target dir = some (.file path) → s.files.contains path = true) :
    Reading dir s (.ok (some config, s.prefs))
  | gone {path : Text} (h : recorded dir s.prefs = some (.file path))
    (hgone : s.files.contains path = false) : Reading dir s (.ok (none, clear s.prefs))

theorem Kept.reading (h : Kept dir s.prefs) :
    Reading dir s (getSavedConfig (s.isThere dir) s.prefs) := by
  generalize hp : s.prefs = p at h
  cases h with
  | nothing hmode =>
    subst hp
    rw [getSavedConfig_of_mode hmode]
    exact .nothing (recorded_of_read (getSavedConfig_of_mode hmode _))
  | @saved q given hsettles =>
    cases given with
    | offlineModel model isCustom customPath =>
      have hrecorded : recorded dir s.prefs =
          (Save.offlineModel model isCustom customPath).config.target dir :=
        hp ▸ recorded_saveOfflineModel q model isCustom customPath
      have htarget : (Save.offlineModel model isCustom customPath).config.target dir =
          some (.file (absolutePath dir (modelPath model isCustom customPath))) := hsettles
      change Reading dir s (getSavedConfig _ (saveOfflineModel q model isCustom customPath))
      cases hthere : s.isThere dir (modelPath model isCustom customPath) with
      | true =>
        rw [getSavedConfig_saveOfflineModel hthere]
        rw [show saveOfflineModel q model isCustom customPath = s.prefs from hp.symm]
        refine .found hrecorded fun path hpath => ?_
        cases htarget.symm.trans hpath
        exact hthere
      | false =>
        rw [getSavedConfig_gone hthere]
        rw [show saveOfflineModel q model isCustom customPath = s.prefs from hp.symm]
        exact .gone (hrecorded.trans htarget) hthere
    | onlineConfig config =>
      have hrecorded : recorded dir s.prefs = some (.online config) :=
        hp ▸ recorded_saveOnlineConfig q hsettles
      obtain ⟨provider, apiKey, baseUrl, modelName, enabled, apiFormat⟩ := config
      obtain ⟨rfl, rfl, rfl⟩ := hsettles
      change Reading dir s (getSavedConfig _ (saveOnlineConfig q _))
      rw [getSavedConfig_saveOnlineConfig]
      rw [show saveOnlineConfig q _ = s.prefs from hp.symm]
      exact .found hrecorded fun path hpath => nomatch hpath

theorem isCustom_of_isHf {modelId : Text} (h : isHf modelId = true) :
    OfflineModelConfig.isCustom modelId = false := by
  by_contra hcustom
  have hhf : "hf_".toList <+: modelId := List.isPrefixOf_iff_prefix.mp h
  have hcustom : "custom_".toList <+: modelId :=
    List.isPrefixOf_iff_prefix.mp (Bool.not_eq_false _ ▸ hcustom)
  exact absurd (List.prefix_of_prefix_length_le hhf hcustom (by decide)) (by decide)

theorem absolutePath_download_ne (fileName : Text) :
    absolutePath dir (.download fileName) ≠ absolutePath dir (.model fileName) := by
  intro heq
  have hlength := congrArg List.length heq
  simp [absolutePath] at hlength
  omega

theorem settles_offline (model : OfflineModelConfig) (path : Text) :
    Settles dir (.offlineModel model (OfflineModelConfig.isCustom model.id)
      (if OfflineModelConfig.isCustom model.id then some path else none)) := by
  cases hhf : isHf model.id with
  | true =>
    have hcustom := isCustom_of_isHf hhf
    simp [Settles, Save.config, SavedConfig.target, modelPath, hhf, hcustom]
  | false =>
    cases hcustom : OfflineModelConfig.isCustom model.id <;>
      simp [Settles, Save.config, SavedConfig.target, modelPath, hhf, absolutePath]

theorem settles_download {model : OfflineModelConfig} (hhf : isHf model.id = true) :
    Settles dir (.offlineModel model false
      (some (absolutePath dir (.download model.fileName)))) := by
  simp [Settles, Save.config, SavedConfig.target, modelPath, hhf]

/-- What the start button loads in offline mode is what it saves, unless it is a downloaded model. -/
theorem recorded_offline_iff (p : SharedPreferences) (model : OfflineModelConfig) :
    recorded dir (saveOfflineModel p model (OfflineModelConfig.isCustom model.id)
        (if OfflineModelConfig.isCustom model.id then some (s.offlinePath dir model) else none)) =
      some (.file (s.offlinePath dir model)) ↔ isHf model.id = false := by
  rw [recorded_saveOfflineModel]
  cases hhf : isHf model.id with
  | true =>
    have hcustom := isCustom_of_isHf hhf
    simp [Save.config, SavedConfig.target, offlinePath, hhf, hcustom, absolutePath_download_ne]
  | false =>
    cases hcustom : OfflineModelConfig.isCustom model.id <;>
      simp [Save.config, SavedConfig.target, offlinePath, hhf, hcustom]

structure Inv (dir : Text) (s : ModelSetupView) : Prop where
  remembers : s.Remembers dir
  kept : Kept dir s.prefs
  onlineConfig : ∀ config, s.onlineConfig = some config → (Save.onlineConfig config).Restorable
  checked : ∀ config, s.resumeDialog = some config → s.startup.isChecked = true

theorem Inv.congr (h : Inv dir s) (hprefs : t.prefs = s.prefs) (hshown : t.shown = s.shown)
    (hdialog : t.resumeDialog = s.resumeDialog) (honline : t.onlineConfig = s.onlineConfig)
    (hstartup : s.startup.isChecked = true → t.startup.isChecked = true) : Inv dir t where
  remembers := by
    rw [Remembers, hprefs, hshown, hdialog]
    exact h.remembers
  kept := hprefs ▸ h.kept
  onlineConfig := honline ▸ h.onlineConfig
  checked config hconfig := hstartup (h.checked config (hdialog ▸ hconfig))

theorem Kept.leave (h : Kept dir s.prefs) {shown : Shown} (hcrashed : shown ≠ .crashed)
    (hchat : ∀ target, shown = .chat target → recorded dir s.prefs = some target) :
    Inv dir (s.leave shown) where
  remembers := ⟨hcrashed, hchat, by simp [ModelSetupView.leave]⟩
  kept := h
  onlineConfig := by simp [ModelSetupView.leave]
  checked := by simp [ModelSetupView.leave]

theorem Kept.error (h : Kept dir s.prefs) (message : Text) : Inv dir (s.leave (.error message)) :=
  h.leave (by simp) (by simp)

theorem inv_forget (s : ModelSetupView) (message : Text) : Inv dir (s.forget message) :=
  Kept.error (s := { s with prefs := clear s.prefs }) (.nothing rfl) message

theorem Kept.chat (h : Kept dir s.prefs) {target : ChatTarget}
    (hrecorded : recorded dir s.prefs = some target) : Inv dir (s.leave (.chat target)) :=
  h.leave (by simp) fun _ heq => Shown.chat.inj heq ▸ hrecorded

theorem Inv.startFile (h : Inv dir s) {path : Text} {model : OfflineModelConfig} {isCustom : Bool}
    {customPath : Option Text} {outcome : LoadOutcome}
    (hsettles : Settles dir (.offlineModel model isCustom customPath))
    (hrecorded : outcome = .success → s.files.contains path = true →
      recorded dir (saveOfflineModel s.prefs model isCustom customPath) = some (.file path)) :
    Inv dir (s.startFile path model isCustom customPath outcome) := by
  unfold ModelSetupView.startFile
  split
  next hthere =>
    cases outcome with
    | success =>
      exact Kept.chat
        (s := { s with prefs := saveOfflineModel s.prefs model isCustom customPath })
        (.saved s.prefs hsettles) (hrecorded rfl hthere)
    | failure => exact h.kept.error _
    | exception message => exact h.kept.error _
  next => exact h.congr rfl rfl rfl rfl id

theorem Inv.start (h : Inv dir s) {outcome : LoadOutcome}
    (hok : s.keepsRecord dir models (.start outcome)) : Inv dir (s.start dir outcome) := by
  rw [ModelSetupView.start]
  split
  next hmode =>
    split
    next model hmodel =>
      refine h.startFile (settles_offline model _) fun hsuccess hthere => ?_
      refine (recorded_offline_iff s.prefs model).mpr ?_
      by_contra hhf
      have hhf : isHf model.id = true := Bool.not_eq_false _ ▸ hhf
      have hgone := hok hsuccess hmode model hmodel hhf
      rw [offlinePath, isCustom_of_isHf hhf] at hthere
      exact Bool.false_ne_true (hgone.symm.trans hthere)
    next => exact h.congr rfl rfl rfl rfl id
  next =>
    split
    next model hmodel =>
      split
      next hhf =>
        refine h.startFile (settles_download hhf) fun _ _ => ?_
        rw [recorded_saveOfflineModel]
        simp [Save.config, SavedConfig.target, hhf]
      next => exact h.congr rfl rfl rfl rfl id
    next => exact h.congr rfl rfl rfl rfl id
  next =>
    split
    next config hconfig =>
      split
      next => exact h.congr rfl rfl rfl rfl id
      next =>
        have hrestorable := h.onlineConfig config hconfig
        exact Kept.chat (s := { s with prefs := saveOnlineConfig s.prefs config })
          (@Kept.saved dir s.prefs (.onlineConfig config) hrestorable)
          (recorded_saveOnlineConfig s.prefs hrestorable)
    next => exact h.congr rfl rfl rfl rfl id
  next => exact h.congr rfl rfl rfl rfl id

theorem start_forgets {outcome : LoadOutcome} (hbad : ¬ s.keepsRecord dir models (.start outcome)) :
    ¬ (s.start dir outcome).Remembers dir := by
  simp only [keepsRecord, not_forall, Bool.not_eq_false] at hbad
  obtain ⟨rfl, hmode, model, hmodel, hhf, hthere⟩ := hbad
  have hpath : s.offlinePath dir model = absolutePath dir (.model model.fileName) := by
    rw [offlinePath, isCustom_of_isHf hhf]
  let customPath :=
    if OfflineModelConfig.isCustom model.id then some (s.offlinePath dir model) else none
  let prefs := saveOfflineModel s.prefs model (OfflineModelConfig.isCustom model.id) customPath
  have hstart : s.start dir .success =
      leave { s with prefs := prefs } (.chat (.file (s.offlinePath dir model))) := by
    simp only [ModelSetupView.start, hmode, hmodel, ModelSetupView.startFile]
    exact if_pos (hpath ▸ hthere)
  rw [hstart]
  intro h
  have hrecorded := (recorded_offline_iff s.prefs model).mp (h.2.1 _ rfl)
  exact Bool.false_ne_true (hrecorded.symm.trans hhf)

theorem Inv.resume (h : Inv dir s) {config : SavedConfig} (hdialog : s.resumeDialog = some config)
    (outcome : LoadOutcome) : Inv dir (s.resume dir config outcome) := by
  have hrecorded := h.remembers.2.2 config hdialog
  rw [ModelSetupView.resume]
  split
  next => exact inv_forget s _
  next online htarget => exact h.kept.chat (hrecorded.trans htarget)
  next path htarget =>
    split
    next =>
      cases outcome with
      | success => exact h.kept.chat (hrecorded.trans htarget)
      | failure => exact inv_forget s _
      | exception message => exact inv_forget s _
    next => exact inv_forget s _

theorem Inv.selectFirst (h : Inv dir s) (hfModels : List DownloadedModel) :
    Inv dir (s.selectFirst hfModels) := by
  cases hfModels with
  | nil => exact h
  | cons file rest => exact h.congr rfl rfl rfl rfl id

theorem Inv.pollFind (h : Inv dir s) (hfModels : List DownloadedModel) {outcome : LoadOutcome}
    (hok : s.keepsRecord dir models (.pollFind outcome)) :
    Inv dir (s.pollFind dir models hfModels outcome) := by
  unfold ModelSetupView.pollFind
  split
  next model hmodel =>
    cases outcome with
    | success => exact h.kept.chat (hok rfl model hmodel)
    | failure => exact h.kept.error _
    | exception message => exact h.kept.error _
  next => exact Inv.selectFirst (s := { s with polling := none }) (h.congr rfl rfl rfl rfl id) _

theorem pollFind_forgets {hfModels : List DownloadedModel} {outcome : LoadOutcome}
    (hbad : ¬ s.keepsRecord dir models (.pollFind outcome)) :
    ¬ (s.pollFind dir models hfModels outcome).Remembers dir := by
  simp only [keepsRecord, not_forall] at hbad
  obtain ⟨rfl, model, hmodel, hother⟩ := hbad
  simp only [ModelSetupView.pollFind, hmodel]
  exact fun h => hother (h.2.1 _ rfl)

theorem Inv.restoreOnline (h : Inv dir s) (stored : Option (ApiProvider × Text × Text)) :
    ∀ config, s.restoreOnline stored = some config →
      (Save.onlineConfig config).Restorable := by
  rcases stored with _ | ⟨provider, apiKey, modelName⟩
  · exact h.onlineConfig
  · rintro _ ⟨⟩
    exact ⟨rfl, rfl, rfl⟩

theorem not_chat (h : s.shown = .setup) (target : ChatTarget) : s.shown ≠ .chat target := by
  simp [h]

theorem Inv.checkSaved (h : Inv dir s) (hshown : s.shown = .setup)
    (hearly : s.startup.isChecked = false) (hfModels : List DownloadedModel)
    (stored : Option (ApiProvider × Text × Text)) :
    Inv dir (s.checkSaved dir hfModels stored) := by
  have hclosed (config : SavedConfig) : s.resumeDialog ≠ some config := fun hconfig =>
    Bool.false_ne_true (hearly.symm.trans (h.checked config hconfig))
  have honline := h.restoreOnline stored
  have hreading := h.kept.reading
  unfold ModelSetupView.checkSaved
  generalize getSavedConfig (s.isThere dir) s.prefs = result at hreading ⊢
  cases hreading with
  | nothing _ =>
    exact ⟨⟨h.remembers.1, h.remembers.2.1, fun config hconfig => absurd hconfig (hclosed config)⟩,
      h.kept, honline, fun _ _ => rfl⟩
  | found hrecorded _ =>
    refine ⟨⟨h.remembers.1, h.remembers.2.1, ?_⟩, h.kept, honline, fun _ _ => rfl⟩
    rintro _ ⟨⟩
    exact hrecorded
  | gone _ _ =>
    exact ⟨⟨h.remembers.1, fun target hchat => absurd hchat (not_chat hshown target),
      fun config hconfig => absurd hconfig (hclosed config)⟩, .nothing rfl, honline, fun _ _ => rfl⟩

theorem Inv.composeDialog (h : Inv dir s) {config : SavedConfig}
    (hdialog : s.resumeDialog = some config)
    (hok : s.keepsRecord dir models .composeDialog) : Inv dir (s.composeDialog dir) := by
  have hrecorded := h.remembers.2.2 config hdialog
  have hreading := h.kept.reading
  unfold ModelSetupView.composeDialog
  generalize getSavedConfig (s.isThere dir) s.prefs = result at hreading ⊢
  cases hreading with
  | nothing _ => exact h.congr rfl rfl rfl rfl id
  | found _ _ => exact h.congr rfl rfl rfl rfl id
  | gone hfile hgone =>
    have hthere := hok config _ hdialog (hrecorded.symm.trans hfile)
    cases hgone.symm.trans hthere

theorem composeDialog_forgets (h : Inv dir s)
    (hbad : ¬ s.keepsRecord dir models .composeDialog) :
    ¬ (s.composeDialog dir).Remembers dir := by
  simp only [keepsRecord, not_forall] at hbad
  obtain ⟨config, path, hdialog, htarget, hgone⟩ := hbad
  have hrecorded := h.remembers.2.2 config hdialog
  have hreading := h.kept.reading
  unfold ModelSetupView.composeDialog
  generalize getSavedConfig (s.isThere dir) s.prefs = result at hreading ⊢
  cases hreading with
  | nothing hnone => cases hnone.symm.trans (hrecorded.trans htarget)
  | found hfound hthere =>
    exact absurd (hthere path (hfound.symm.trans (hrecorded.trans htarget))) hgone
  | gone _ _ =>
    intro hremembers
    have hcleared : recorded dir (clear s.prefs) = config.target dir :=
      hremembers.2.2 config hdialog
    cases hcleared.trans htarget

/-- A download is saved as it will be resumed. -/
theorem recorded_finished (p : SharedPreferences) (file : DownloadedModel) (modelId : Text) :
    recorded dir (saveOfflineModel p (.ofFinished file modelId) false
        (some (absolutePath dir (.download file.name)))) =
      some (.file (absolutePath dir (.download file.name))) := by
  rw [recorded_saveOfflineModel]
  rfl

theorem inv_step {e : Event} (h : Inv dir s) (hok : s.keepsRecord dir models e)
    (ht : s.step dir models e = some t) : Inv dir t := by
  cases e with
  | startupRefresh hfModels =>
    obtain ⟨⟨-, hstartup⟩, ⟨⟩⟩ := Option.ite_none_right_eq_some.mp ht
    exact h.congr rfl rfl rfl rfl (by simp [hstartup, Startup.isChecked])
  | checkSaved stored =>
    simp only [step] at ht
    split at ht
    next hfModels hstartup =>
      obtain ⟨hshown, ⟨⟩⟩ := Option.ite_none_right_eq_some.mp ht
      exact h.checkSaved hshown (by rw [hstartup]; rfl) hfModels stored
    next => cases ht
  | scan =>
    simp only [step] at ht
    split at ht
    next hfModels hstartup =>
      obtain ⟨hshown, ⟨⟩⟩ := Option.ite_none_right_eq_some.mp ht
      split
      next => exact h.congr rfl rfl rfl rfl fun _ => rfl
      next =>
        exact Inv.selectFirst (s := { s with startup := .done })
          (h.congr rfl rfl rfl rfl fun _ => rfl) _
    next => cases ht
  | pollRefresh hfModels =>
    obtain ⟨-, ⟨⟩⟩ := Option.ite_none_right_eq_some.mp ht
    exact h.congr rfl rfl rfl rfl id
  | pollFind outcome =>
    simp only [step] at ht
    split at ht
    next hfModels hpolling =>
      obtain ⟨-, ⟨⟩⟩ := Option.ite_none_right_eq_some.mp ht
      exact h.pollFind hfModels hok
    next => cases ht
  | composeDialog =>
    obtain ⟨⟨-, hdialog⟩, ⟨⟩⟩ := Option.ite_none_right_eq_some.mp ht
    obtain ⟨config, hdialog⟩ := Option.isSome_iff_exists.mp hdialog
    exact h.composeDialog hdialog hok
  | resume outcome =>
    simp only [step] at ht
    split at ht
    next config hdialog =>
      obtain ⟨-, ⟨⟩⟩ := Option.ite_none_right_eq_some.mp ht
      exact h.resume hdialog outcome
    next => cases ht
  | dismiss =>
    obtain ⟨⟨hshown, -⟩, ⟨⟩⟩ := Option.ite_none_right_eq_some.mp ht
    exact ⟨⟨h.remembers.1, fun target hchat => absurd hchat (not_chat hshown target), by simp⟩,
      .nothing rfl, h.onlineConfig, by simp⟩
  | selectOffline | selectOnline | openPicker | onBack | onModelSelected | clearCustomModel
  | openSearch =>
    obtain ⟨-, ⟨⟩⟩ := Option.ite_none_right_eq_some.mp ht
    exact h.congr rfl rfl rfl rfl id
  | selectHuggingFace =>
    obtain ⟨-, ht⟩ := Option.ite_none_right_eq_some.mp ht
    split at ht
    next => exact Option.some.inj ht ▸ h
    next =>
      cases ht
      exact Inv.selectFirst (s := { s with selectedMode := some .huggingFace })
        (h.congr rfl rfl rfl rfl id) _
  | selectCustom currentTime sizeGB =>
    simp only [step] at ht
    split at ht
    next =>
      obtain ⟨-, ⟨⟩⟩ := Option.ite_none_right_eq_some.mp ht
      exact h.congr rfl rfl rfl rfl id
    next => cases ht
  | addCustom path currentTime sizeGB =>
    obtain ⟨-, ⟨⟩⟩ := Option.ite_none_right_eq_some.mp ht
    exact h.congr rfl rfl rfl rfl id
  | onModelDownloaded file modelId =>
    obtain ⟨⟨hshown, -⟩, ht⟩ := Option.ite_none_right_eq_some.mp ht
    split at ht
    next hthere =>
      cases ht
      have hhf : isHf (OfflineModelConfig.ofFinished file modelId).id = true := rfl
      refine ⟨⟨h.remembers.1, fun target hchat => absurd hchat (not_chat hshown target),
        fun config hconfig => ?_⟩, .saved s.prefs (settles_download hhf), h.onlineConfig, h.checked⟩
      exact (recorded_finished s.prefs file modelId).trans (hok hthere config hconfig).symm
    next =>
      cases ht
      exact h.congr rfl rfl rfl rfl id
  | onSave provider apiKey modelName =>
    obtain ⟨-, ⟨⟩⟩ := Option.ite_none_right_eq_some.mp ht
    refine ⟨h.remembers, h.kept, ?_, h.checked⟩
    rintro _ ⟨⟩
    exact ⟨rfl, rfl, rfl⟩
  | start outcome =>
    obtain ⟨-, ⟨⟩⟩ := Option.ite_none_right_eq_some.mp ht
    exact h.start hok
  | back | retry =>
    simp only [step] at ht
    split at ht
    next =>
      cases ht
      exact h.kept.leave (by simp) (by simp)
    next => cases ht
  | restart =>
    cases Option.some.inj ht
    exact h.kept.leave (by simp) (by simp)
  | created path | deleted path =>
    cases Option.some.inj ht
    exact h.congr rfl rfl rfl rfl id

theorem not_remembers_step {e : Event} (h : Inv dir s) (hbad : ¬ s.keepsRecord dir models e)
    (ht : s.step dir models e = some t) : ¬ t.Remembers dir := by
  cases e with
  | start outcome =>
    obtain ⟨-, ⟨⟩⟩ := Option.ite_none_right_eq_some.mp ht
    exact start_forgets hbad
  | pollFind outcome =>
    simp only [step] at ht
    split at ht
    next hfModels hpolling =>
      obtain ⟨-, ⟨⟩⟩ := Option.ite_none_right_eq_some.mp ht
      exact pollFind_forgets hbad
    next => cases ht
  | composeDialog =>
    obtain ⟨-, ⟨⟩⟩ := Option.ite_none_right_eq_some.mp ht
    exact composeDialog_forgets h hbad
  | onModelDownloaded file modelId =>
    obtain ⟨-, ht⟩ := Option.ite_none_right_eq_some.mp ht
    simp only [keepsRecord, not_forall] at hbad
    obtain ⟨hthere, config, hdialog, hother⟩ := hbad
    rw [if_pos hthere] at ht
    cases ht
    intro hremembers
    have hrecorded := @recorded_finished dir s.prefs file modelId
    exact hother ((hremembers.2.2 config hdialog).symm.trans hrecorded)
  | _ => exact absurd trivial hbad

theorem inv_start : Inv dir {} where
  remembers := ⟨by simp, by simp, by simp⟩
  kept := .nothing rfl
  onlineConfig := by simp
  checked := by simp

/-- Whatever the user selects, starts, downloads and resumes over any number of restarts, with files
coming and going: the app never fails on its own preferences, a chat runs on what the next start will
offer to resume, and the dialog offers that, exactly if every step meets the condition. -/
theorem always_remembers_iff {es : List Event} (hr : run (step dir models) {} es = some s) :
    Always (step dir models) (Remembers dir) {} es ↔
      Meets (step dir models) (keepsRecord dir models) {} es :=
  always_iff_meets (fun _ h => h.remembers) (fun _ _ _ => inv_step)
    (fun _ _ _ => not_remembers_step) inv_start hr

/-- A file of one's own is started and resumed. -/
def ownModel : List Event := [.created "/m/a.gguf".toList, .openPicker,
  .addCustom "/m/a.gguf".toList 7 0, .start .success, .restart, .startupRefresh [], .checkSaved none,
  .composeDialog, .resume .success]

/-- A download is picked for the offline mode, where a file of the same name is started. -/
def pickedDownload : List Event := [.created "/d/models/a.gguf".toList, .openPicker,
  .onModelSelected (.ofDownload ⟨"a.gguf".toList, 0⟩), .start .success]

theorem remembers_ownModel :
    Always (step "/d".toList []) (Remembers "/d".toList) {} ownModel ∧
      ¬ Always (step "/d".toList []) (Remembers "/d".toList) {} pickedDownload := by
  obtain ⟨t, ht⟩ : ∃ t, run (step "/d".toList []) {} ownModel = some t := ⟨_, rfl⟩
  obtain ⟨u, hu⟩ : ∃ u, run (step "/d".toList []) {} pickedDownload = some u := ⟨_, rfl⟩
  refine ⟨(always_remembers_iff ht).mpr ⟨trivial, ?_⟩, mt (always_remembers_iff hu).mp fun h => ?_⟩
  · rintro _ ⟨⟩
    refine ⟨trivial, ?_⟩
    rintro _ ⟨⟩
    refine ⟨trivial, ?_⟩
    rintro _ ⟨⟩
    refine ⟨fun _ _ _ hmodel hhf => ?_, ?_⟩
    · cases hmodel
      cases hhf
    rintro _ ⟨⟩
    refine ⟨trivial, ?_⟩
    rintro _ ⟨⟩
    refine ⟨trivial, ?_⟩
    rintro _ ⟨⟩
    refine ⟨trivial, ?_⟩
    rintro _ ⟨⟩
    refine ⟨fun _ _ hdialog hpath => ?_, ?_⟩
    · cases hdialog
      cases hpath
      rfl
    rintro _ ⟨⟩
    exact ⟨trivial, fun _ _ => trivial⟩
  · have hstart := (((h.2 _ rfl).2 _ rfl).2 _ rfl).1
    cases hstart rfl rfl _ rfl rfl

theorem checkSaved_found {config : SavedConfig}
    (h : getSavedConfig (s.isThere dir) s.prefs = .ok (some config, s.prefs))
    (hfModels : List DownloadedModel) (stored : Option (ApiProvider × Text × Text)) :
    (s.checkSaved dir hfModels stored).shown = s.shown ∧
      (s.checkSaved dir hfModels stored).files = s.files ∧
      (s.checkSaved dir hfModels stored).resumeDialog = some config := by
  unfold ModelSetupView.checkSaved
  rw [h]
  exact ⟨rfl, rfl, rfl⟩

theorem resume_target {config : SavedConfig} {target : ChatTarget}
    (htarget : config.target dir = some target)
    (hthere : ∀ path, target = .file path → s.files.contains path = true) :
    (s.resume dir config .success).shown = .chat target := by
  rw [ModelSetupView.resume, htarget]
  cases target with
  | online config => rfl
  | file path =>
    simp only [hthere path rfl, if_true]
    rfl

/-- What a chat ran on is resumed after a restart, while its file is there. -/
theorem resumes_chat {es : List Event} (hr : run (step dir models) {} es = some s)
    (hm : Meets (step dir models) (keepsRecord dir models) {} es) {target : ChatTarget}
    (hchat : s.shown = .chat target)
    (hthere : ∀ path, target = .file path → s.files.contains path = true)
    (hfModels : List DownloadedModel) (stored : Option (ApiProvider × Text × Text)) :
    ∃ t, run (step dir models) s [.restart, .startupRefresh hfModels, .checkSaved stored,
      .resume .success] = some t ∧ t.shown = .chat target := by
  have h : Inv dir s := run_invariant (fun _ _ _ => inv_step) inv_start hm hr
  have hrecorded := h.remembers.2.1 target hchat
  have hreading := h.kept.reading
  generalize hread : getSavedConfig (s.isThere dir) s.prefs = result at hreading
  cases hreading with
  | nothing hnone => cases hnone.symm.trans hrecorded
  | gone hfile hgone =>
    have hpath := hthere _ (Option.some.inj (hrecorded.symm.trans hfile))
    cases hgone.symm.trans hpath
  | @found config hfound _ =>
    have htarget : config.target dir = some target := hfound.symm.trans hrecorded
    let asked : ModelSetupView := { s.leave .setup with
      hfDownloadedModels := hfModels, startup := .refreshed hfModels }
    obtain ⟨hshown, hfiles, hdialog⟩ := checkSaved_found (s := asked) hread hfModels stored
    refine ⟨(asked.checkSaved dir hfModels stored).resume dir config .success, ?_,
      resume_target htarget (hfiles ▸ hthere)⟩
    have hask : step dir models (s.leave .setup) (.startupRefresh hfModels) = some asked :=
      rfl
    have hcheck : step dir models asked (.checkSaved stored) =
        some (asked.checkSaved dir hfModels stored) := rfl
    refine run_cons_iff.mpr ⟨s.leave .setup, rfl, run_cons_iff.mpr ⟨asked, hask,
      run_cons_iff.mpr ⟨_, hcheck, ?_⟩⟩⟩
    simp only [run, step, hdialog, hshown]
    rfl

/-- A file of one's own that the start button has loaded. -/
theorem resumes_chat_ownModel : ∃ s t,
    run (step "/d".toList []) {} (ownModel.take 4) = some s ∧
      s.shown = .chat (.file "/m/a.gguf".toList) ∧
      run (step "/d".toList []) s [.restart, .startupRefresh [], .checkSaved none,
        .resume .success] = some t ∧ t.shown = .chat (.file "/m/a.gguf".toList) := by
  obtain ⟨s, hr, hchat⟩ : ∃ s, run (step "/d".toList []) {} (ownModel.take 4) = some s ∧
      s.shown = .chat (.file "/m/a.gguf".toList) ∧
      s.files.contains "/m/a.gguf".toList = true := ⟨_, rfl, rfl, rfl⟩
  have hm : Meets (step "/d".toList []) (keepsRecord "/d".toList []) {} (ownModel.take 4) := by
    refine ⟨trivial, ?_⟩
    rintro _ ⟨⟩
    refine ⟨trivial, ?_⟩
    rintro _ ⟨⟩
    refine ⟨trivial, ?_⟩
    rintro _ ⟨⟩
    refine ⟨fun _ _ _ hmodel hhf => ?_, fun _ _ => trivial⟩
    cases hmodel
    cases hhf
  obtain ⟨t, ht, hresumed⟩ := resumes_chat hr hm hchat.1
    (fun path hpath => ChatTarget.file.inj hpath ▸ hchat.2) [] none
  exact ⟨s, t, hr, hchat.1, ht, hresumed⟩

end ModelSetupView

end HeyNilo
