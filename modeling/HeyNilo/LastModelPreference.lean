import HeyNilo.OnlineProvider
import Mathlib.Logic.Function.Basic

namespace HeyNilo

/-- A value in `SharedPreferences`; a `Float` is given by its bits. -/
inductive PreferenceValue where
  | string (value : Text)
  | float (bits : UInt32)
  | int (value : Int)
  | boolean (value : Bool)
deriving DecidableEq, Repr

abbrev SharedPreferences := String → Option PreferenceValue

/-- Reading a value of another type throws. -/
structure ClassCastException where
deriving DecidableEq, Repr

namespace SharedPreferences

def getString (p : SharedPreferences) (key : String) : Except ClassCastException (Option Text) :=
  match p key with
  | none => .ok none
  | some (.string value) => .ok (some value)
  | some _ => .error {}

def getFloat (p : SharedPreferences) (key : String) (default : UInt32) :
    Except ClassCastException UInt32 :=
  match p key with
  | none => .ok default
  | some (.float bits) => .ok bits
  | some _ => .error {}

def getInt (p : SharedPreferences) (key : String) (default : Int) : Except ClassCastException Int :=
  match p key with
  | none => .ok default
  | some (.int value) => .ok value
  | some _ => .error {}

def getBoolean (p : SharedPreferences) (key : String) (default : Bool) :
    Except ClassCastException Bool :=
  match p key with
  | none => .ok default
  | some (.boolean value) => .ok value
  | some _ => .error {}

/-- An edit for each key, `none` to remove it. -/
def apply (p : SharedPreferences) (edits : List (String × Option PreferenceValue)) :
    SharedPreferences :=
  edits.foldl (fun p e => Function.update p e.1 e.2) p

variable {p : SharedPreferences} {edits : List (String × Option PreferenceValue)} {key : String}

theorem apply_of_notMem (h : key ∉ edits.map Prod.fst) : p.apply edits key = p key := by
  refine List.foldlRecOn (motive := fun q : SharedPreferences => q key = p key) _ _ rfl
    fun q hq e he => ?_
  have hne : key ≠ e.1 := fun heq => h (heq ▸ List.mem_map_of_mem he)
  rw [Function.update_of_ne hne]
  exact hq

/-- Of edits for different keys each has its effect. -/
theorem apply_of_mem {value : Option PreferenceValue} (hkeys : (edits.map Prod.fst).Nodup)
    (h : (key, value) ∈ edits) : p.apply edits key = value := by
  induction edits generalizing p with
  | nil => exact absurd h List.not_mem_nil
  | cons e edits ih =>
    obtain ⟨hfirst, hlater⟩ := List.nodup_cons.mp hkeys
    rcases List.mem_cons.mp h with rfl | h
    · have hlast := apply_of_notMem (p := Function.update p key value) hfirst
      rw [Function.update_self] at hlast
      exact hlast
    · exact ih hlater h

theorem getString_of {value : Option Text} (h : p key = value.map .string) :
    p.getString key = .ok value := by
  rw [getString, h]
  cases value <;> rfl

theorem getFloat_of {bits default : UInt32} (h : p key = some (.float bits)) :
    p.getFloat key default = .ok bits := by
  rw [getFloat, h]

theorem getInt_of {value default : Int} (h : p key = some (.int value)) :
    p.getInt key default = .ok value := by
  rw [getInt, h]

theorem getBoolean_of {value default : Bool} (h : p key = some (.boolean value)) :
    p.getBoolean key default = .ok value := by
  rw [getBoolean, h]

end SharedPreferences

inductive ModelCategory where
  | general
  | coding
  | creative
  | multilingual
  | reasoning
  | ultraLight
deriving DecidableEq, Repr

namespace ModelCategory

def name : ModelCategory → Text
  | general => "GENERAL".toList
  | coding => "CODING".toList
  | creative => "CREATIVE".toList
  | multilingual => "MULTILINGUAL".toList
  | reasoning => "REASONING".toList
  | ultraLight => "ULTRA_LIGHT".toList

def entries : List ModelCategory :=
  [general, coding, creative, multilingual, reasoning, ultraLight]

def valueOf (name : Text) : Option ModelCategory := entries.find? fun c => c.name == name

theorem valueOf_name (c : ModelCategory) : valueOf c.name = some c := by
  cases c <;> decide

end ModelCategory

namespace ApiProvider

def entries : List ApiProvider := [offline, openai, claude, deepseek, kimi, openrouter]

def valueOf (name : Text) : Option ApiProvider := entries.find? fun p => p.name == name

theorem valueOf_name (p : ApiProvider) : valueOf p.name = some p := by
  cases p <;> decide

end ApiProvider

inductive ApiFormat where
  | openai
  | anthropic
deriving DecidableEq, Repr

structure ProviderConfig where
  provider : ApiProvider
  apiKey : Text := []
  baseUrl : Text := []
  modelName : Text := []
  enabled : Bool := false
  apiFormat : ApiFormat := .openai
deriving DecidableEq, Repr

structure OfflineModelConfig where
  id : Text
  displayName : Text
  fileName : Text
  /-- The bits of a `Float`. -/
  sizeGB : UInt32
  minRamGB : Int
  isRecommended : Bool := false
  description : Text
  downloadUrl : Text
  category : ModelCategory := .general
deriving DecidableEq, Repr

inductive AppMode where
  | offline
  | huggingFace
  | online (provider : ApiProvider)
deriving DecidableEq, Repr

structure SavedConfig where
  mode : AppMode
  offlineModel : Option OfflineModelConfig := none
  onlineConfig : Option ProviderConfig := none
  isCustomModel : Bool := false
  customModelPath : Option Text := none
deriving DecidableEq, Repr

/-- The file that an offline configuration stands for: a path of its own, or a name in the directory
of the downloads or of the models. -/
inductive ModelPath where
  | custom (path : Text)
  | download (fileName : Text)
  | model (fileName : Text)
deriving DecidableEq, Repr

namespace LastModelPreference

def isHf (modelId : Text) : Bool := "hf_".toList.isPrefixOf modelId

/-- What `saveOfflineModel` puts and removes. -/
def offlineEdits (model : OfflineModelConfig) (isCustom : Bool) (customPath : Option Text) :
    List (String × Option PreferenceValue) := [
  ("mode", some (.string (if isHf model.id then "HuggingFace".toList else "Offline".toList))),
  ("model_id", some (.string model.id)),
  ("model_fileName", some (.string model.fileName)),
  ("model_displayName", some (.string model.displayName)),
  ("model_sizeGB", some (.float model.sizeGB)),
  ("model_minRamGB", some (.int model.minRamGB)),
  ("model_isRecommended", some (.boolean model.isRecommended)),
  ("model_description", some (.string model.description)),
  ("model_downloadUrl", some (.string model.downloadUrl)),
  ("model_category", some (.string model.category.name)),
  ("is_custom_model", some (.boolean isCustom)),
  ("custom_model_path", customPath.map .string),
  ("online_provider", none),
  ("online_apiKey", none),
  ("online_modelName", none)]

def saveOfflineModel (p : SharedPreferences) (model : OfflineModelConfig) (isCustom : Bool)
    (customPath : Option Text) : SharedPreferences :=
  p.apply (offlineEdits model isCustom customPath)

/-- What `saveOnlineConfig` puts and removes: of the configuration, the provider, the key and the
model name are written. -/
def onlineEdits (config : ProviderConfig) : List (String × Option PreferenceValue) := [
  ("mode", some (.string "Online".toList)),
  ("online_provider", some (.string config.provider.name)),
  ("online_apiKey", some (.string config.apiKey)),
  ("online_modelName", some (.string config.modelName)),
  ("model_id", none),
  ("model_fileName", none),
  ("model_displayName", none),
  ("is_custom_model", none),
  ("custom_model_path", none)]

def saveOnlineConfig (p : SharedPreferences) (config : ProviderConfig) : SharedPreferences :=
  p.apply (onlineEdits config)

def clear (_ : SharedPreferences) : SharedPreferences := fun _ => none

def modelPath (model : OfflineModelConfig) (isCustom : Bool) (customPath : Option Text) : ModelPath :=
  match isCustom, customPath with
  | true, some path => .custom path
  | _, _ => if isHf model.id then .download model.fileName else .model model.fileName

/-- The `"Offline", "HuggingFace"` branch, up to the check of the file. -/
def readOffline (p : SharedPreferences) (modelId : Text) :
    Except ClassCastException (OfflineModelConfig × Bool × Option Text) := do
  let fileName ← p.getString "model_fileName"
  let displayName ← p.getString "model_displayName"
  let sizeGB ← p.getFloat "model_sizeGB" 0
  let minRamGB ← p.getInt "model_minRamGB" 4
  let isRecommended ← p.getBoolean "model_isRecommended" false
  let description ← p.getString "model_description"
  let downloadUrl ← p.getString "model_downloadUrl"
  let categoryName ← p.getString "model_category"
  let isCustom ← p.getBoolean "is_custom_model" false
  let customPath ← p.getString "custom_model_path"
  let model : OfflineModelConfig :=
    { id := modelId
      displayName := displayName.getD []
      fileName := fileName.getD []
      sizeGB := sizeGB
      minRamGB := minRamGB
      isRecommended := isRecommended
      description := description.getD []
      downloadUrl := downloadUrl.getD []
      category :=
        (ModelCategory.valueOf (categoryName.getD ModelCategory.general.name)).getD .general }
  return (model, isCustom, customPath)

/-- The `"Online"` branch. -/
def readOnline (p : SharedPreferences) : Except ClassCastException (Option SavedConfig) := do
  let some providerName ← p.getString "online_provider" | return none
  let some apiKey ← p.getString "online_apiKey" | return none
  let some modelName ← p.getString "online_modelName" | return none
  let some provider := ApiProvider.valueOf providerName | return none
  return some
    { mode := .online provider
      onlineConfig := some { provider, apiKey, modelName, enabled := true } }

/-- The configuration read and the preferences left: they are cleared where the model's file is
gone. -/
def getSavedConfig (fileExists : ModelPath → Bool) (p : SharedPreferences) :
    Except ClassCastException (Option SavedConfig × SharedPreferences) := do
  let some modeName ← p.getString "mode" | return (none, p)
  if modeName = "Offline".toList ∨ modeName = "HuggingFace".toList then
    let some modelId ← p.getString "model_id" | return (none, p)
    let (model, isCustom, customPath) ← readOffline p modelId
    if fileExists (modelPath model isCustom customPath) then
      let config : SavedConfig :=
        { mode := if isHf modelId then .huggingFace else .offline
          offlineModel := some model
          isCustomModel := isCustom
          customModelPath := customPath }
      return (some config, p)
    else return (none, clear p)
  else if modeName = "Online".toList then return (← readOnline p, p)
  else return (none, p)

section Saved

variable (p : SharedPreferences) (model : OfflineModelConfig) (isCustom : Bool)
  (customPath : Option Text) (config : ProviderConfig)

theorem offlineEdits_keys : ((offlineEdits model isCustom customPath).map Prod.fst).Nodup := by
  change ["mode", "model_id", "model_fileName", "model_displayName", "model_sizeGB",
    "model_minRamGB", "model_isRecommended", "model_description", "model_downloadUrl",
    "model_category", "is_custom_model", "custom_model_path", "online_provider", "online_apiKey",
    "online_modelName"].Nodup
  decide

theorem onlineEdits_keys : ((onlineEdits config).map Prod.fst).Nodup := by
  change ["mode", "online_provider", "online_apiKey", "online_modelName", "model_id",
    "model_fileName", "model_displayName", "is_custom_model", "custom_model_path"].Nodup
  decide

variable {p model isCustom customPath config}

theorem saveOfflineModel_key {key : String} {value : Option PreferenceValue} (i : Nat)
    (h : (offlineEdits model isCustom customPath)[i]? = some (key, value)) :
    saveOfflineModel p model isCustom customPath key = value :=
  SharedPreferences.apply_of_mem (offlineEdits_keys ..) (List.mem_of_getElem? h)

theorem saveOnlineConfig_key {key : String} {value : Option PreferenceValue} (i : Nat)
    (h : (onlineEdits config)[i]? = some (key, value)) : saveOnlineConfig p config key = value :=
  SharedPreferences.apply_of_mem (onlineEdits_keys ..) (List.mem_of_getElem? h)

theorem readOffline_saved :
    readOffline (saveOfflineModel p model isCustom customPath) model.id =
      .ok (model, isCustom, customPath) := by
  set q := saveOfflineModel p model isCustom customPath with hq
  have hfile : q.getString "model_fileName" = .ok (some model.fileName) :=
    SharedPreferences.getString_of (saveOfflineModel_key 2 rfl)
  have hdisplay : q.getString "model_displayName" = .ok (some model.displayName) :=
    SharedPreferences.getString_of (saveOfflineModel_key 3 rfl)
  have hsize : q.getFloat "model_sizeGB" 0 = .ok model.sizeGB :=
    SharedPreferences.getFloat_of (saveOfflineModel_key 4 rfl)
  have hram : q.getInt "model_minRamGB" 4 = .ok model.minRamGB :=
    SharedPreferences.getInt_of (saveOfflineModel_key 5 rfl)
  have hrecommended : q.getBoolean "model_isRecommended" false = .ok model.isRecommended :=
    SharedPreferences.getBoolean_of (saveOfflineModel_key 6 rfl)
  have hdescription : q.getString "model_description" = .ok (some model.description) :=
    SharedPreferences.getString_of (saveOfflineModel_key 7 rfl)
  have hurl : q.getString "model_downloadUrl" = .ok (some model.downloadUrl) :=
    SharedPreferences.getString_of (saveOfflineModel_key 8 rfl)
  have hcategory : q.getString "model_category" = .ok (some model.category.name) :=
    SharedPreferences.getString_of (saveOfflineModel_key 9 rfl)
  have hcustom : q.getBoolean "is_custom_model" false = .ok isCustom :=
    SharedPreferences.getBoolean_of (saveOfflineModel_key 10 rfl)
  have hpath : q.getString "custom_model_path" = .ok customPath :=
    SharedPreferences.getString_of (saveOfflineModel_key 11 rfl)
  rw [readOffline, hfile, hdisplay, hsize, hram, hrecommended, hdescription, hurl, hcategory,
    hcustom, hpath]
  simp only [bind, Except.bind, Option.getD_some, ModelCategory.valueOf_name]
  rfl

/-- An offline configuration is restored whole where its file exists. -/
theorem getSavedConfig_saveOfflineModel {fileExists : ModelPath → Bool}
    (hfile : fileExists (modelPath model isCustom customPath) = true) :
    getSavedConfig fileExists (saveOfflineModel p model isCustom customPath) =
      .ok (some
        { mode := if isHf model.id then .huggingFace else .offline
          offlineModel := some model
          isCustomModel := isCustom
          customModelPath := customPath }, saveOfflineModel p model isCustom customPath) := by
  set q := saveOfflineModel p model isCustom customPath with hq
  have hmode : q.getString "mode" =
      .ok (some (if isHf model.id then "HuggingFace".toList else "Offline".toList)) :=
    SharedPreferences.getString_of (saveOfflineModel_key 0 rfl)
  have hid : q.getString "model_id" = .ok (some model.id) :=
    SharedPreferences.getString_of (saveOfflineModel_key 1 rfl)
  have hbranch : (if isHf model.id then "HuggingFace".toList else "Offline".toList) =
      "Offline".toList ∨
      (if isHf model.id then "HuggingFace".toList else "Offline".toList) = "HuggingFace".toList := by
    by_cases hhf : isHf model.id = true
    · exact .inr (if_pos hhf)
    · exact .inl (if_neg hhf)
  rw [getSavedConfig, hmode]
  simp only [bind, Except.bind]
  rw [if_pos hbranch, hid]
  simp only
  rw [readOffline_saved]
  simp only
  rw [if_pos hfile]
  rfl

/-- Of an online configuration the provider, the key and the model name are restored. -/
theorem getSavedConfig_saveOnlineConfig (fileExists : ModelPath → Bool) :
    getSavedConfig fileExists (saveOnlineConfig p config) =
      .ok (some
        { mode := .online config.provider
          onlineConfig := some
            { provider := config.provider, apiKey := config.apiKey, modelName := config.modelName,
              enabled := true } }, saveOnlineConfig p config) := by
  set q := saveOnlineConfig p config with hq
  have hmode : q.getString "mode" = .ok (some "Online".toList) :=
    SharedPreferences.getString_of (saveOnlineConfig_key 0 rfl)
  have hprovider : q.getString "online_provider" = .ok (some config.provider.name) :=
    SharedPreferences.getString_of (saveOnlineConfig_key 1 rfl)
  have hkey : q.getString "online_apiKey" = .ok (some config.apiKey) :=
    SharedPreferences.getString_of (saveOnlineConfig_key 2 rfl)
  have hmodel : q.getString "online_modelName" = .ok (some config.modelName) :=
    SharedPreferences.getString_of (saveOnlineConfig_key 3 rfl)
  have hread : readOnline q = .ok (some
      { mode := .online config.provider
        onlineConfig := some
          { provider := config.provider, apiKey := config.apiKey, modelName := config.modelName,
            enabled := true } }) := by
    rw [readOnline, hprovider, hkey, hmodel]
    simp only [bind, Except.bind, ApiProvider.valueOf_name]
    rfl
  have hbranch : ¬("Online".toList = "Offline".toList ∨ "Online".toList = "HuggingFace".toList) := by
    decide
  rw [getSavedConfig, hmode]
  simp only [bind, Except.bind]
  rw [if_neg hbranch, if_pos trivial, hread]
  rfl

end Saved

/-- What one of the two savers is given. -/
inductive Save where
  | offlineModel (model : OfflineModelConfig) (isCustom : Bool) (customPath : Option Text)
  | onlineConfig (config : ProviderConfig)
deriving DecidableEq, Repr

inductive Call where
  | save (given : Save)
  | clear
deriving DecidableEq, Repr

/-- The configuration that was to be saved. -/
def Save.config : Save → SavedConfig
  | offlineModel model isCustom customPath =>
    { mode := if isHf model.id then .huggingFace else .offline
      offlineModel := some model
      isCustomModel := isCustom
      customModelPath := customPath }
  | onlineConfig config => { mode := .online config.provider, onlineConfig := some config }

def Save.fileThere (fileExists : ModelPath → Bool) : Save → Bool
  | offlineModel model isCustom customPath => fileExists (modelPath model isCustom customPath)
  | onlineConfig _ => true

/-- What the saver leaves out of an online configuration has the value that the reader puts there. -/
def Save.Restorable : Save → Prop
  | offlineModel .. => True
  | onlineConfig config =>
    config.baseUrl = [] ∧ config.enabled = true ∧ config.apiFormat = .openai

def Call.run (p : SharedPreferences) : Call → SharedPreferences
  | save (.offlineModel model isCustom customPath) => saveOfflineModel p model isCustom customPath
  | save (.onlineConfig config) => saveOnlineConfig p config
  | clear => LastModelPreference.clear p

def Call.saved : Call → Option Save
  | save given => some given
  | clear => none

def runCalls (p : SharedPreferences) (calls : List Call) : SharedPreferences := calls.foldl Call.run p

/-- The last save, where no clear came after it. -/
def lastSave (calls : List Call) : Option Save := calls.foldl (fun _ c => c.saved) none

/-- The step: reading right after a save. -/
theorem getSavedConfig_save_iff {fileExists : ModelPath → Bool} {given : Save}
    (hfile : given.fileThere fileExists = true) (p : SharedPreferences) :
    (getSavedConfig fileExists (Call.run p (.save given))).map Prod.fst = .ok (some given.config) ↔
      given.Restorable := by
  cases given with
  | offlineModel model isCustom customPath =>
    have hread := getSavedConfig_saveOfflineModel (p := p) hfile
    have hresult : (getSavedConfig fileExists
        (Call.run p (.save (.offlineModel model isCustom customPath)))).map Prod.fst =
          .ok (some (Save.offlineModel model isCustom customPath).config) :=
      congrArg (Except.map Prod.fst) hread
    exact ⟨fun _ => trivial, fun _ => hresult⟩
  | onlineConfig config =>
    have hread : getSavedConfig fileExists (saveOnlineConfig p config) = _ :=
      getSavedConfig_saveOnlineConfig fileExists
    have hresult : (getSavedConfig fileExists (Call.run p (.save (.onlineConfig config)))).map
        Prod.fst = .ok (some
          { mode := .online config.provider
            onlineConfig := some
              { provider := config.provider, apiKey := config.apiKey,
                modelName := config.modelName, enabled := true } }) :=
      congrArg (Except.map Prod.fst) hread
    rw [hresult]
    obtain ⟨provider, apiKey, baseUrl, modelName, enabled, apiFormat⟩ := config
    simp only [Save.config, Save.Restorable, Except.ok.injEq, Option.some.injEq,
      SavedConfig.mk.injEq, ProviderConfig.mk.injEq, true_and, and_true]
    exact ⟨fun h => ⟨h.1.symm, h.2.1.symm, h.2.2.symm⟩, fun h => ⟨h.1.symm, h.2.1.symm, h.2.2.symm⟩⟩

/-- After any calls the configuration of the last save is restored exactly where that save is
restorable; what was saved before plays no part. -/
theorem getSavedConfig_lastSave_iff (fileExists : ModelPath → Bool) (p : SharedPreferences)
    (calls : List Call) (given : Save) (hlast : lastSave calls = some given)
    (hfile : given.fileThere fileExists = true) :
    (getSavedConfig fileExists (runCalls p calls)).map Prod.fst = .ok (some given.config) ↔
      given.Restorable := by
  rcases List.eq_nil_or_concat' calls with rfl | ⟨earlier, last, rfl⟩
  · cases hlast
  · have hsaved : last.saved = some given := by
      rw [← hlast, lastSave, List.foldl_append]
      rfl
    have hrun : runCalls p (earlier ++ [last]) = last.run (runCalls p earlier) := by
      rw [runCalls, List.foldl_append]
      rfl
    rw [hrun]
    cases last with
    | clear => cases hsaved
    | save other =>
      cases Option.some.inj hsaved
      exact getSavedConfig_save_iff hfile _

/-- A provider behind a proxy of one's own. -/
def proxied : ProviderConfig where
  provider := .openai
  apiKey := "sk-1".toList
  baseUrl := "localhost:8080/v1".toList
  modelName := "gpt-4o-mini".toList
  enabled := true

def tiny : OfflineModelConfig where
  id := "tiny".toList
  displayName := "Tiny".toList
  fileName := "tiny.gguf".toList
  sizeGB := 0
  minRamGB := 3
  description := []
  downloadUrl := []

/-- An offline configuration is restored after an online one. -/
theorem getSavedConfig_lastSave_tiny :
    (getSavedConfig (· == .model tiny.fileName) (runCalls (fun _ => none)
      [.save (.onlineConfig proxied), .save (.offlineModel tiny false none)])).map Prod.fst =
      .ok (some (Save.offlineModel tiny false none).config) :=
  (getSavedConfig_lastSave_iff (· == .model tiny.fileName) (fun _ => none)
    [.save (.onlineConfig proxied), .save (.offlineModel tiny false none)]
    (.offlineModel tiny false none) rfl (by decide)).mpr trivial

/-- The base URL of a proxy is lost. -/
theorem getSavedConfig_not_lastSave :
    ¬∀ (fileExists : ModelPath → Bool) (p : SharedPreferences) (calls : List Call) (given : Save),
      lastSave calls = some given → given.fileThere fileExists = true →
        (getSavedConfig fileExists (runCalls p calls)).map Prod.fst = .ok (some given.config) := by
  intro h
  have hread := h (fun _ => false) (fun _ => none) [.save (.onlineConfig proxied)]
    (.onlineConfig proxied) rfl rfl
  revert hread
  decide

end LastModelPreference

end HeyNilo
