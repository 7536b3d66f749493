import HeyNilo.GenerateStream
import HeyNilo.KotlinText

namespace HeyNilo

/-- `BaseBridge.State` -/
inductive BridgeState where
  | uninitialized
  | initializing
  | ready
  | loading
  | busy
  | error
  | released
deriving DecidableEq, Repr

def BridgeState.name : BridgeState → Text
  | .uninitialized => "UNINITIALIZED".toList
  | .initializing => "INITIALIZING".toList
  | .ready => "READY".toList
  | .loading => "LOADING".toList
  | .busy => "BUSY".toList
  | .error => "ERROR".toList
  | .released => "RELEASED".toList

/-- What `g_state` holds, as far as the bridge can tell. -/
structure LoadedState where
  model : Option Text
  ctx : Bool
  history : List (Bytes × Bytes)
deriving DecidableEq, Repr

/-- The native side: the backend (`nativeInit` has run and `nativeRelease` has not since), `g_state`,
`g_system_prompt`, and the message list of each prompt that was built. -/
structure NativeLlama where
  backend : Bool
  state : Option LoadedState
  systemPrompt : Bytes
  built : List (List (Bytes × Bytes))
deriving DecidableEq, Repr

/-- How `nativeLoadModel` ends: the path or the file is not to be had, the file is not a model,
`prepareContext` fails, or all goes well. -/
inductive LoadResult where
  | noPath
  | noFile
  | notParsed
  | noContext
  | loaded
deriving DecidableEq, Repr

namespace NativeLlama

def init (n : NativeLlama) : NativeLlama := { n with backend := true }

/-- `unload` -/
def unloadModel (n : NativeLlama) : NativeLlama := { n with state := none }

def release (n : NativeLlama) : NativeLlama := { n.unloadModel with backend := false }

/-- `loadModel` frees what was there before it looks at the file. -/
def loadModel (n : NativeLlama) (path : Text) : LoadResult → NativeLlama × Bool
  | .noPath => ({ n with state := some ⟨none, false, []⟩ }, false)
  | .noFile => ({ n with state := none }, false)
  | .notParsed => ({ n with state := none }, false)
  | .noContext => ({ n with state := some ⟨some path, false, []⟩ }, false)
  | .loaded => ({ n with state := some ⟨some path, true, []⟩ }, true)

/-- `nativeIsModelLoaded` does not look. -/
def isModelLoaded (_ : NativeLlama) : Bool := true

/-- The body of `nativeSetSystemPrompt` is a TODO. -/
def setSystemPrompt (n : NativeLlama) (_prompt : Bytes) : NativeLlama := n

/-- `nativeAddToHistory`: the last four entries stay. -/
def addToHistory (n : NativeLlama) (role content : Bytes) : NativeLlama :=
  { n with
    state := n.state.map fun state =>
      let history := state.history ++ [(role, truncateForHistory role content)]
      { state with history := history.drop (history.length - 4) } }

/-- `nativeClearContext`; without the mutex it is skipped. -/
def clearContext (n : NativeLlama) (acquired : Bool) : NativeLlama :=
  { n with
    state := n.state.map fun state =>
      if state.ctx && acquired then { state with history := [] } else state }

/-- `nativeGenerateStream` builds its message list, for the template and the fallback alike. -/
def buildPrompt (n : NativeLlama) (prompt : Bytes) : Option NativeLlama :=
  n.state.bind fun state =>
    if state.ctx then
      some { n with built := n.built ++ [buildMessages n.systemPrompt state.history prompt] }
    else none

/-- `g_state` holds both a model and a context; the path is that of the model. -/
def loadedModel (n : NativeLlama) : Option Text :=
  n.state.bind fun state => if state.ctx then state.model else none

end NativeLlama

namespace LlamaBridge

/-- A generation job: launched, in `nativeGenerateStream`, or there with its prompt built. -/
inductive JobPoint where
  | launched
  | native
  | prompted
deriving DecidableEq, Repr

structure GenerationJob where
  id : Nat
  prompt : Bytes
  maxTokens : Nat
  point : JobPoint
  cancelled : Bool
deriving DecidableEq, Repr

inductive Event where
  /-- `failure` is the message of an exception. -/
  | init (failure : Option Text)
  | recoverFromError (failure : Option Text)
  | loadModel (path : Text) (result : LoadResult)
  | unloadModel
  | generate (prompt : Bytes)
  | generateWithMaxTokens (prompt : Bytes) (maxTokens : Nat)
  | stopGeneration
  | release
  | setSystemPrompt (prompt : Bytes)
  | addToHistory (role content : Bytes)
  | clearContext (acquired : Bool)
  /-- The job at place `i` is dispatched. -/
  | start (i : Nat)
  | buildPrompt (i : Nat)
  /-- It returns from the native call and runs its `finally` block. -/
  | finish (i : Nat)
deriving DecidableEq, Repr

end LlamaBridge

open LlamaBridge in
/-- A `LlamaBridge` with the jobs it launched and the native side under it. -/
structure LlamaBridge where
  currentState : BridgeState
  lastError : Option Text
  modelPath : Option Text
  currentSystemPrompt : Bytes
  currentGenerationJob : Option Nat
  jobs : List GenerationJob
  nextId : Nat
  native : NativeLlama
deriving DecidableEq, Repr

namespace LlamaBridge

def defaultSystemPrompt : Bytes :=
  ascii "You are SMITH, a friendly AI assistant. Be helpful and concise."

/-- A new bridge in a fresh process. -/
def new : LlamaBridge where
  currentState := .uninitialized
  lastError := none
  modelPath := none
  currentSystemPrompt := defaultSystemPrompt
  currentGenerationJob := none
  jobs := []
  nextId := 0
  native := ⟨false, none, [], []⟩

def updateState (s : LlamaBridge) (newState : BridgeState) : LlamaBridge :=
  if s.currentState = newState then s
  else
    { s with
      currentState := newState
      lastError := if newState = .error then s.lastError else none }

def setError (s : LlamaBridge) (errorMessage : Text) : LlamaBridge :=
  { s with lastError := some errorMessage }.updateState .error

def isLoaded (s : LlamaBridge) : Bool := s.modelPath.isSome && s.native.isModelLoaded

def init (s : LlamaBridge) (failure : Option Text) : LlamaBridge :=
  if s.currentState = .ready then s
  else
    let s := s.updateState .initializing
    match failure with
    | none => { s with native := s.native.init }.updateState .ready
    | some message => s.setError ("Failed to initialize: ".toList ++ message)

def recoverFromError (s : LlamaBridge) (failure : Option Text) : LlamaBridge :=
  if s.currentState ≠ .error then s
  else ({ s with lastError := none }.updateState .uninitialized).init failure

def loadFailure : Text :=
  ("Failed to load model. Possible causes: (1) The model file is corrupted or not a valid GGUF, " ++
    "(2) Your device doesn't have enough free RAM to load this model, (3) This model architecture " ++
    "is not supported by the app yet. Try a smaller model or reinstall.").toList

def loadModel (s : LlamaBridge) (path : Text) (result : LoadResult) : LlamaBridge :=
  if s.currentState ≠ .ready then
    s.setError ("Cannot load model: bridge not ready (state: ".toList ++ s.currentState.name ++
      ")".toList)
  else
    let s := s.updateState .loading
    let loaded := s.native.loadModel path result
    if loaded.2 then { s with native := loaded.1, modelPath := some path }.updateState .ready
    else { s with native := loaded.1 }.setError loadFailure

def unloadModel (s : LlamaBridge) : LlamaBridge :=
  { s with native := s.native.unloadModel, modelPath := none }

/-- `assertReady("generate")`: the error it sets, if any. -/
def notReady (s : LlamaBridge) : Option Text :=
  if s.currentState ≠ .ready then
    some ("Cannot generate: bridge not ready (state: ".toList ++ s.currentState.name ++ ")".toList)
  else if !s.isLoaded then some "Cannot generate: resources not loaded".toList
  else none

/-- `generate` and `generateWithMaxTokens` up to the launch of their job. -/
def launchGeneration (s : LlamaBridge) (prompt : Bytes) (maxTokens : Nat) : LlamaBridge :=
  match s.notReady with
  | some message => s.setError message
  | none =>
    let s := s.updateState .busy
    { s with
      jobs := s.jobs ++ [⟨s.nextId, prompt, maxTokens, .launched, false⟩]
      nextId := s.nextId + 1
      currentGenerationJob := some s.nextId }

def generate (s : LlamaBridge) (prompt : Bytes) : LlamaBridge := s.launchGeneration prompt 256

def generateWithMaxTokens (s : LlamaBridge) (prompt : Bytes) (maxTokens : Nat) : LlamaBridge :=
  s.launchGeneration prompt maxTokens

/-- `currentGenerationJob?.cancel()`, and the handle is dropped. -/
def cancelGenerationJob (s : LlamaBridge) : LlamaBridge :=
  { s with
    jobs := s.jobs.map fun job =>
      if s.currentGenerationJob = some job.id then { job with cancelled := true } else job
    currentGenerationJob := none }

/-- A native call that is running is only asked to stop; it returns in its own time. -/
def stopGeneration (s : LlamaBridge) : LlamaBridge := s.cancelGenerationJob.updateState .ready

/-- `stopGeneration` has dropped the handle, so `release` waits for no job. -/
def release (s : LlamaBridge) : LlamaBridge :=
  let s := s.stopGeneration
  { s with native := s.native.release, modelPath := none }.updateState .released

def setSystemPrompt (s : LlamaBridge) (prompt : Bytes) : LlamaBridge :=
  { s with currentSystemPrompt := prompt, native := s.native.setSystemPrompt prompt }

def setPoint (s : LlamaBridge) (i : Nat) (point : JobPoint) : LlamaBridge :=
  { s with jobs := s.jobs.modify i fun job => { job with point := point } }

/-- A job that was cancelled before its start runs nothing. -/
def start (s : LlamaBridge) (i : Nat) : Option LlamaBridge :=
  s.jobs[i]?.bind fun job =>
    match job.point with
    | .launched =>
      if job.cancelled then some { s with jobs := s.jobs.eraseIdx i } else some (s.setPoint i .native)
    | _ => none

def buildPrompt (s : LlamaBridge) (i : Nat) : Option LlamaBridge :=
  s.jobs[i]?.bind fun job =>
    match job.point with
    | .native =>
      (s.native.buildPrompt job.prompt).map fun native => { s with native := native }.setPoint i .prompted
    | _ => none

def finish (s : LlamaBridge) (i : Nat) : Option LlamaBridge :=
  s.jobs[i]?.bind fun job =>
    match job.point with
    | .launched => none
    | _ => some ({ s with jobs := s.jobs.eraseIdx i }.updateState .ready)

def step (s : LlamaBridge) : Event → Option LlamaBridge
  | .init failure => some (s.init failure)
  | .recoverFromError failure => some (s.recoverFromError failure)
  | .loadModel path result => some (s.loadModel path result)
  | .unloadModel => some s.unloadModel
  | .generate prompt => some (s.generate prompt)
  | .generateWithMaxTokens prompt maxTokens => some (s.generateWithMaxTokens prompt maxTokens)
  | .stopGeneration => some s.stopGeneration
  | .release => some s.release
  | .setSystemPrompt prompt => some (s.setSystemPrompt prompt)
  | .addToHistory role content => some { s with native := s.native.addToHistory role content }
  | .clearContext acquired => some { s with native := s.native.clearContext acquired }
  | .start i => s.start i
  | .buildPrompt i => s.buildPrompt i
  | .finish i => s.finish i

@[simp] theorem updateState_currentState (s : LlamaBridge) (newState : BridgeState) :
    (s.updateState newState).currentState = newState := by
  unfold updateState
  split
  next h => exact h
  next => rfl

@[simp] theorem updateState_native (s : LlamaBridge) (newState : BridgeState) :
    (s.updateState newState).native = s.native := by
  unfold updateState
  split <;> rfl

@[simp] theorem updateState_modelPath (s : LlamaBridge) (newState : BridgeState) :
    (s.updateState newState).modelPath = s.modelPath := by
  unfold updateState
  split <;> rfl

@[simp] theorem updateState_jobs (s : LlamaBridge) (newState : BridgeState) :
    (s.updateState newState).jobs = s.jobs := by
  unfold updateState
  split <;> rfl

@[simp] theorem updateState_currentGenerationJob (s : LlamaBridge) (newState : BridgeState) :
    (s.updateState newState).currentGenerationJob = s.currentGenerationJob := by
  unfold updateState
  split <;> rfl

@[simp] theorem updateState_nextId (s : LlamaBridge) (newState : BridgeState) :
    (s.updateState newState).nextId = s.nextId := by
  unfold updateState
  split <;> rfl

@[simp] theorem setError_currentState (s : LlamaBridge) (errorMessage : Text) :
    (s.setError errorMessage).currentState = .error := by simp [setError]

@[simp] theorem setError_native (s : LlamaBridge) (errorMessage : Text) :
    (s.setError errorMessage).native = s.native := by simp [setError]

@[simp] theorem setError_modelPath (s : LlamaBridge) (errorMessage : Text) :
    (s.setError errorMessage).modelPath = s.modelPath := by simp [setError]

@[simp] theorem setError_jobs (s : LlamaBridge) (errorMessage : Text) :
    (s.setError errorMessage).jobs = s.jobs := by simp [setError]

end LlamaBridge

end HeyNilo
