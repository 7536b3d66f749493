import HeyNilo.LlamaBridge
import HeyNilo.Machine

namespace HeyNilo

/-- A `memoryPressure` is kept as the literal it prints as. -/
structure BridgeConfig where
  threads : Int := 4
  useMmap : Bool := true
  contextSize : Int := 2048
  batchSize : Int := 512
  memoryPressure : Text := "0.0".toList
  isLowTierDevice : Bool := false
deriving DecidableEq, Repr

/-- A call of `loadModel` past its `compareAndSet`: before its look at the state, or in
`nativeLoadModel`. -/
structure LoadCall where
  path : Text
  config : BridgeConfig
  inNative : Bool
deriving DecidableEq, Repr

/-- A `LlamaBridge` with its configuration and the call that holds `isLoadingModel`. -/
structure ConfiguredBridge where
  bridge : LlamaBridge
  currentConfig : Option BridgeConfig
  load : Option LoadCall
deriving DecidableEq, Repr

namespace ConfiguredBridge

open Machine

inductive Event where
  /-- `loadModel` up to its `compareAndSet`. -/
  | loadModel (path : Text) (config : BridgeConfig)
  /-- The load looks at the state. -/
  | checkReady
  | loadReturns (result : LoadResult)
  | other (e : LlamaBridge.Event)
deriving DecidableEq, Repr

def new : ConfiguredBridge := ⟨.new, none, none⟩

def isLoadingModel (s : ConfiguredBridge) : Bool := s.load.isSome

def loadRefusal (s : LlamaBridge) : Text :=
  "Cannot load model: bridge not ready (state: ".toList ++ s.currentState.name ++ ")".toList

/-- The end of `loadModel`, over whatever state the bridge is in by then. -/
def finishLoad (s : ConfiguredBridge) (call : LoadCall) (result : LoadResult) : ConfiguredBridge :=
  let loaded := s.bridge.native.loadModel call.path result
  if loaded.2 then
    { bridge :=
        { s.bridge with native := loaded.1, modelPath := some call.path }.updateState .ready
      currentConfig := some call.config
      load := none }
  else
    { s with
      bridge := { s.bridge with native := loaded.1 }.setError LlamaBridge.loadFailure
      load := none }

def step (s : ConfiguredBridge) : Event → Option ConfiguredBridge
  | .loadModel path config =>
    if s.isLoadingModel then some s else some { s with load := some ⟨path, config, false⟩ }
  | .checkReady =>
    match s.load with
    | some ⟨path, config, false⟩ =>
      if s.bridge.currentState ≠ .ready then
        some { s with bridge := s.bridge.setError (loadRefusal s.bridge), load := none }
      else
        some { s with
          bridge := s.bridge.updateState .loading
          load := some ⟨path, config, true⟩ }
    | _ => none
  | .loadReturns result =>
    match s.load with
    | some ⟨path, config, true⟩ => some (s.finishLoad ⟨path, config, true⟩ result)
    | _ => none
  | .other (.loadModel _ _) => none
  | .other .unloadModel =>
    if s.isLoadingModel then some s
    else some { s with bridge := s.bridge.unloadModel, currentConfig := none }
  | .other .release => some { s with bridge := s.bridge.release, currentConfig := none }
  | .other e => (s.bridge.step e).map fun bridge => { s with bridge := bridge }

/-- The guard of a call of `loadModel`, `generate` or `generateWithMaxTokens` refuses it. -/
def refuses (s : ConfiguredBridge) : Event → Bool
  | .loadModel _ _ => s.isLoadingModel
  | .checkReady => s.load.any (fun call => !call.inNative) && s.bridge.currentState ≠ .ready
  | .other (.generate _) | .other (.generateWithMaxTokens _ _) => s.bridge.notReady.isSome
  | _ => false

/-- The state, the path, the configuration and the generations are the same. -/
structure Unchanged (s t : ConfiguredBridge) : Prop where
  currentState : t.bridge.currentState = s.bridge.currentState
  modelPath : t.bridge.modelPath = s.bridge.modelPath
  currentConfig : t.currentConfig = s.currentConfig
  jobs : t.bridge.jobs = s.bridge.jobs
  currentGenerationJob : t.bridge.currentGenerationJob = s.bridge.currentGenerationJob

def RefusedUnchanged (s : ConfiguredBridge) (e : Event) : Prop :=
  s.refuses e = true → ∀ t, s.step e = some t → Unchanged s t

/-- A call is refused by `compareAndSet`, or over an error. -/
def refusesQuietly (s : ConfiguredBridge) (e : Event) : Bool :=
  match e with
  | .loadModel _ _ => true
  | e => !s.refuses e || s.bridge.currentState = .error

variable {s t : ConfiguredBridge} {e : Event}

@[simp] theorem setError_currentGenerationJob (b : LlamaBridge) (errorMessage : Text) :
    (b.setError errorMessage).currentGenerationJob = b.currentGenerationJob := by
  simp [LlamaBridge.setError]

theorem launchGeneration_refused {b : LlamaBridge} (h : b.notReady.isSome = true) (prompt : Bytes)
    (maxTokens : Nat) : ∃ message, b.launchGeneration prompt maxTokens = b.setError message := by
  obtain ⟨message, hmessage⟩ := Option.isSome_iff_exists.mp h
  exact ⟨message, by rw [LlamaBridge.launchGeneration, hmessage]⟩

/-- A refusal is no change at all or one to an error; it leaves the rest as it is. -/
theorem refused_step (h : s.refuses e = true) (ht : s.step e = some t) :
    (∃ path config, e = .loadModel path config) ∧ t = s ∨
      ∃ message, t.bridge = s.bridge.setError message ∧ t.currentConfig = s.currentConfig := by
  cases e with
  | loadModel path config =>
    have hnext : some s = some t := by simpa [step, show s.isLoadingModel = true from h] using ht
    exact .inl ⟨⟨path, config, rfl⟩, (Option.some.inj hnext).symm⟩
  | checkReady =>
    obtain ⟨-, hstate⟩ := Bool.and_eq_true_iff.mp h
    simp only [step] at ht
    split at ht
    next =>
      rw [if_pos (by simpa using hstate)] at ht
      cases ht
      exact .inr ⟨_, rfl, rfl⟩
    next => cases ht
  | loadReturns result => cases h
  | other e =>
    cases e with
    | generate prompt =>
      obtain ⟨message, hmessage⟩ := launchGeneration_refused h prompt 256
      cases Option.some.inj ht
      exact .inr ⟨message, hmessage, rfl⟩
    | generateWithMaxTokens prompt maxTokens =>
      obtain ⟨message, hmessage⟩ := launchGeneration_refused h prompt maxTokens
      cases Option.some.inj ht
      exact .inr ⟨message, hmessage, rfl⟩
    | _ => cases h

/-- Only the state can tell that a refused call was made: a refusal never loses the path, the
configuration or a generation. -/
theorem unchanged_iff_of_refused (h : s.refuses e = true) (ht : s.step e = some t) :
    Unchanged s t ↔ s.refusesQuietly e = true := by
  rcases refused_step h ht with ⟨⟨path, config, rfl⟩, rfl⟩ | ⟨message, hbridge, hconfig⟩
  · exact iff_of_true ⟨rfl, rfl, rfl, rfl, rfl⟩ rfl
  have hstate : t.bridge.currentState = .error := by rw [hbridge, LlamaBridge.setError_currentState]
  constructor
  · intro hsame
    have herror : s.bridge.currentState = .error := hsame.currentState.symm.trans hstate
    unfold refusesQuietly
    split
    next => rfl
    next => simp [herror]
  · intro hquiet
    have herror : s.bridge.currentState = .error := by
      unfold refusesQuietly at hquiet
      split at hquiet
      next path config =>
        have hnext : some s = some t := by simpa [step, show s.isLoadingModel = true from h] using ht
        rw [Option.some.inj hnext]
        exact hstate
      next => simpa [h] using hquiet
    refine ⟨hstate.trans herror.symm, ?_, hconfig, ?_, ?_⟩
    · rw [hbridge, LlamaBridge.setError_modelPath]
    · rw [hbridge, LlamaBridge.setError_jobs]
    · rw [hbridge, setError_currentGenerationJob]

theorem refusedUnchanged_iff (hr : ∃ t, s.step e = some t) :
    s.RefusedUnchanged e ↔ s.refusesQuietly e = true := by
  obtain ⟨t, ht⟩ := hr
  cases hrefused : s.refuses e with
  | false =>
    refine iff_of_true (fun h => ?_) ?_
    · cases hrefused.symm.trans h
    · unfold refusesQuietly
      split
      next => rfl
      next => simp [hrefused]
  | true =>
    rw [← unchanged_iff_of_refused hrefused ht]
    constructor
    · exact fun h => h hrefused t ht
    · intro h _ u hu
      cases Option.some.inj (ht.symm.trans hu)
      exact h

theorem finishLoad_bridge (s : ConfiguredBridge) (call : LoadCall) (result : LoadResult)
    (hready : s.bridge.currentState = .ready) :
    ({ s with bridge := s.bridge.updateState .loading, load := some call }.finishLoad call
      result).bridge = s.bridge.loadModel call.path result := by
  unfold finishLoad LlamaBridge.loadModel
  simp only [hready, ne_eq, not_true_eq_false, if_false, LlamaBridge.updateState_native]
  split <;> rfl

/-- An uninterrupted call of `loadModel` is the one of `LlamaBridge`. -/
theorem run_loadModel (h : s.load = none) (path : Text) (config : BridgeConfig)
    (result : LoadResult) :
    ∃ t, Machine.run step s (.loadModel path config :: .checkReady ::
        if s.bridge.currentState = .ready then [.loadReturns result] else []) = some t ∧
      t.bridge = s.bridge.loadModel path result ∧ t.load = none := by
  have htake : s.step (.loadModel path config) =
      some { s with load := some ⟨path, config, false⟩ } := by
    rw [step, isLoadingModel, h]
    rfl
  by_cases hready : s.bridge.currentState = .ready
  · rw [if_pos hready]
    have hcheck : step { s with load := some ⟨path, config, false⟩ } .checkReady =
        some { s with
          bridge := s.bridge.updateState .loading
          load := some ⟨path, config, true⟩ } := by
      simp only [step, hready, ne_eq, not_true_eq_false, if_false]
    refine ⟨_, run_cons_iff.mpr ⟨_, htake, run_cons_iff.mpr ⟨_, hcheck,
      run_cons_iff.mpr ⟨_, rfl, rfl⟩⟩⟩, finishLoad_bridge s ⟨path, config, true⟩ result hready, ?_⟩
    unfold finishLoad
    dsimp only
    split <;> rfl
  · rw [if_neg hready]
    have hcheck : step { s with load := some ⟨path, config, false⟩ } .checkReady =
        some { s with bridge := s.bridge.setError (loadRefusal s.bridge), load := none } := by
      simp only [step, hready, ne_eq, not_false_eq_true, if_true]
    refine ⟨_, run_cons_iff.mpr ⟨_, htake, run_cons_iff.mpr ⟨_, hcheck, rfl⟩⟩, ?_, rfl⟩
    rw [LlamaBridge.loadModel, if_pos hready]
    rfl

/-- Along a run of a new bridge refused calls change nothing exactly when each is refused because
another load is in progress, or over an error. -/
theorem refusals_change_nothing_iff {es : List Event} (hr : Machine.run step new es = some t) :
    Meets step RefusedUnchanged new es ↔
      Meets step (fun s e => s.refusesQuietly e = true) new es :=
  meets_iff_meets (I := fun _ => True) (fun _ _ _ _ _ _ => trivial)
    (fun _ _ t _ ht => refusedUnchanged_iff ⟨t, ht⟩) trivial hr

/-- A second load while the first is in progress, and a generation over the error that it ends in. -/
def quietRefusals : List Event :=
  [.other (.init none), .loadModel "a.gguf".toList {}, .loadModel "b.gguf".toList {}, .checkReady,
    .loadReturns .notParsed, .other (.generate (ascii "hi"))]

theorem refusals_change_nothing_quiet : Meets step RefusedUnchanged new quietRefusals := by
  obtain ⟨t, hr⟩ := Option.isSome_iff_exists.mp
    (show (Machine.run step new quietRefusals).isSome = true by decide)
  exact (refusals_change_nothing_iff hr).mpr (by decide)

/-- A question is asked while the answer to another one is being generated. -/
def askedWhileBusy : List Event :=
  [.other (.init none), .loadModel "a.gguf".toList {}, .checkReady, .loadReturns .loaded,
    .other (.generate (ascii "hi")), .other (.generate (ascii "so"))]

/-- The refused question turns the busy bridge to an error. -/
theorem busy_bridge_in_error : ¬ ∀ (es : List Event) (t : ConfiguredBridge),
    Machine.run step new es = some t → Meets step RefusedUnchanged new es := by
  intro h
  obtain ⟨t, hr⟩ := Option.isSome_iff_exists.mp
    (show (Machine.run step new askedWhileBusy).isSome = true by decide)
  obtain ⟨s, hs, hbusy⟩ : ∃ s, Machine.run step new (askedWhileBusy.take 5) = some s ∧
      s.bridge.currentState = .busy := ⟨_, rfl, by decide⟩
  have hall : Meets step RefusedUnchanged new
      (askedWhileBusy.take 5 ++ [.other (.generate (ascii "so"))]) := h _ t hr
  have hlast := meets_after hall hs
  have hrefused : s.refuses (.other (.generate (ascii "so"))) = true := by
    simp [refuses, LlamaBridge.notReady, hbusy]
  have hstate := (hlast.1 hrefused _ rfl).currentState
  rw [hbusy] at hstate
  have herror : (s.bridge.generate (ascii "so")).currentState = .error := by
    obtain ⟨message, hmessage⟩ := launchGeneration_refused hrefused (ascii "so") 256
    rw [LlamaBridge.generate, hmessage, LlamaBridge.setError_currentState]
  cases hstate.symm.trans herror

end ConfiguredBridge

end HeyNilo
