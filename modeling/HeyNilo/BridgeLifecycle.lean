import HeyNilo.LlamaBridge
import HeyNilo.Machine

namespace HeyNilo

/-- The states in which the bridge counts on its native side. -/
def BridgeState.isLive : BridgeState → Bool
  | .ready | .loading | .busy => true
  | _ => false

/-- The states before `init` and after `release`. -/
def BridgeState.isDown : BridgeState → Bool
  | .uninitialized | .released => true
  | _ => false

namespace LlamaBridge

open Machine

def Event.isInit : Event → Bool
  | .init _ => true
  | _ => false

/-- Did a bridge that was down become ready without `init`? -/
def revived (already : Bool) (s : LlamaBridge) (e : Event) : Bool :=
  already || s.currentState.isDown && !e.isInit &&
    (s.step e).any fun t => t.currentState = .ready

/-- The bridge is live only over an initialised native side, and nothing but `init` has ever brought
it up. -/
def LifecycleKept (x : LlamaBridge × Bool) : Prop :=
  (x.1.currentState.isLive = true → x.1.native.backend = true) ∧ x.2 = false

instance (x : LlamaBridge × Bool) : Decidable (LifecycleKept x) :=
  inferInstanceAs (Decidable ((_ → _) ∧ _))

/-- No stop and no end of a generation job comes while the native side is down. -/
def keepsDown (s : LlamaBridge) : Event → Bool
  | .stopGeneration | .finish _ => s.native.backend
  | _ => true

/-- `LifecycleKept` with what a bridge that is down knows. -/
structure Lifecycle (x : LlamaBridge × Bool) : Prop where
  kept : LifecycleKept x
  down : x.1.currentState.isDown = true → x.1.native.backend = false

/-- What a step that keeps the lifecycle leaves true of the state after it. -/
structure Sound (s : LlamaBridge) (e : Event) (t : LlamaBridge) : Prop where
  live : t.currentState.isLive = true → t.native.backend = true
  down : t.currentState.isDown = true → t.native.backend = false
  ready : s.currentState.isDown = true → e.isInit = false → t.currentState ≠ .ready

variable {s t : LlamaBridge}

theorem init_live (s : LlamaBridge) (failure : Option Text)
    (hs : s.currentState.isLive = true → s.native.backend = true) :
    ((s.init failure).currentState.isLive = true → (s.init failure).native.backend = true) ∧
      (s.init failure).currentState.isDown = false := by
  unfold init
  split
  next hready =>
    refine ⟨hs, ?_⟩
    rw [hready]
    rfl
  next =>
    cases failure with
    | none => simp [NativeLlama.init, BridgeState.isDown]
    | some message => simp [BridgeState.isLive, BridgeState.isDown]

theorem Sound.of_error {e : Event} (ht : t.currentState = .error) : Sound s e t := by
  constructor
  · intro hlive
    rw [ht] at hlive
    cases hlive
  · intro hdown
    rw [ht] at hdown
    cases hdown
  · intro _ _
    rw [ht]
    exact nofun

theorem Sound.of_same {g : Bool} {e : Event} (h : Lifecycle (s, g))
    (ht : t.currentState = s.currentState) (hn : t.native.backend = s.native.backend) :
    Sound s e t := by
  constructor
  · rw [ht, hn]
    exact h.kept.1
  · rw [ht, hn]
    exact h.down
  · intro hdown _
    rw [ht]
    intro hready
    rw [hready] at hdown
    cases hdown

theorem loadModel_sound {g : Bool} (h : Lifecycle (s, g)) (path : Text) (result : LoadResult) :
    Sound s (.loadModel path result) (s.loadModel path result) := by
  unfold loadModel
  split
  next => exact .of_error (setError_currentState _ _)
  next hready =>
    have hstate : s.currentState = .ready := Classical.not_not.mp hready
    have hbackend : s.native.backend = true := h.kept.1 (by rw [hstate]; rfl)
    dsimp only
    split
    next hloaded =>
      constructor
      · cases result <;> simp_all [NativeLlama.loadModel]
      · simp [BridgeState.isDown]
      · rw [hstate]
        exact nofun
    next => exact .of_error (setError_currentState _ _)

theorem launchGeneration_sound {g : Bool} (h : Lifecycle (s, g)) {e : Event} (prompt : Bytes)
    (maxTokens : Nat) : Sound s e (s.launchGeneration prompt maxTokens) := by
  unfold launchGeneration
  split
  next => exact .of_error (setError_currentState _ _)
  next hnone =>
    have hstate : s.currentState = .ready := by
      by_contra hne
      simp [notReady, hne] at hnone
    have hbackend : s.native.backend = true := h.kept.1 (by rw [hstate]; rfl)
    constructor
    · simpa using fun _ => hbackend
    · simp [BridgeState.isDown]
    · simp

theorem updateReady_sound {e : Event} (u : LlamaBridge) (hbackend : s.native.backend = true)
    (hn : u.native = s.native) {g : Bool} (h : Lifecycle (s, g)) :
    Sound s e (u.updateState .ready) := by
  constructor
  · simp [hn, hbackend]
  · simp [BridgeState.isDown]
  · intro hdown _
    have hfalse := h.down hdown
    rw [hbackend] at hfalse
    cases hfalse

theorem recoverFromError_sound {g : Bool} (h : Lifecycle (s, g)) (failure : Option Text) :
    Sound s (.recoverFromError failure) (s.recoverFromError failure) := by
  unfold recoverFromError
  split
  next => exact .of_same h rfl rfl
  next herror =>
    have hstate : s.currentState = .error := Classical.not_not.mp herror
    obtain ⟨hlive, hdown⟩ := init_live ({ s with lastError := none }.updateState .uninitialized)
      failure (by simp [BridgeState.isLive])
    constructor
    · exact hlive
    · rw [hdown]
      exact nofun
    · rw [hstate]
      exact nofun

theorem step_sound {g : Bool} {e : Event} (h : Lifecycle (s, g)) (hok : s.keepsDown e = true)
    (hs : s.step e = some t) : Sound s e t := by
  cases e with
  | init failure =>
    cases Option.some.inj hs
    obtain ⟨hlive, hdown⟩ := init_live s failure h.kept.1
    refine ⟨hlive, ?_, nofun⟩
    rw [hdown]
    exact nofun
  | recoverFromError failure => cases Option.some.inj hs; exact recoverFromError_sound h failure
  | loadModel path result => cases Option.some.inj hs; exact loadModel_sound h path result
  | unloadModel => cases Option.some.inj hs; exact .of_same h rfl rfl
  | generate prompt => cases Option.some.inj hs; exact launchGeneration_sound h prompt 256
  | generateWithMaxTokens prompt maxTokens =>
    cases Option.some.inj hs
    exact launchGeneration_sound h prompt maxTokens
  | stopGeneration =>
    cases Option.some.inj hs
    exact updateReady_sound s.cancelGenerationJob hok rfl h
  | release =>
    cases Option.some.inj hs
    constructor
    · simp [release, BridgeState.isLive]
    · simp [release, NativeLlama.release]
    · simp [release]
  | setSystemPrompt prompt => cases Option.some.inj hs; exact .of_same h rfl rfl
  | addToHistory role content => cases Option.some.inj hs; exact .of_same h rfl rfl
  | clearContext acquired => cases Option.some.inj hs; exact .of_same h rfl rfl
  | start i =>
    obtain ⟨job, -, hs⟩ := Option.bind_eq_some_iff.mp hs
    split at hs
    next =>
      split at hs
      next => cases Option.some.inj hs; exact .of_same h rfl rfl
      next => cases Option.some.inj hs; exact .of_same h rfl rfl
    next => cases hs
  | buildPrompt i =>
    obtain ⟨job, -, hs⟩ := Option.bind_eq_some_iff.mp hs
    split at hs
    next =>
      obtain ⟨native, hnative, rfl⟩ := Option.map_eq_some_iff.mp hs
      obtain ⟨state, -, hbuilt⟩ := Option.bind_eq_some_iff.mp hnative
      split at hbuilt
      next => cases Option.some.inj hbuilt; exact .of_same h rfl rfl
      next => cases hbuilt
    next => cases hs
  | finish i =>
    obtain ⟨job, -, hs⟩ := Option.bind_eq_some_iff.mp hs
    split at hs
    next => cases hs
    next =>
      cases Option.some.inj hs
      exact updateReady_sound { s with jobs := s.jobs.eraseIdx i } hok rfl h

theorem Sound.lifecycle {g : Bool} {e : Event} (h : Lifecycle (s, g)) (hsound : Sound s e t)
    (hs : s.step e = some t) : Lifecycle (t, revived g s e) := by
  refine ⟨⟨hsound.live, ?_⟩, hsound.down⟩
  have hg : g = false := h.kept.2
  have hready := hsound.ready
  cases hdown : s.currentState.isDown with
  | false => simp [revived, hg, hdown]
  | true =>
    cases hinit : e.isInit with
    | true => simp [revived, hg, hinit]
    | false => simpa [revived, hg, hdown, hinit, hs] using hready hdown hinit

/-- A stop or the end of a job makes the bridge ready over a native side that is down. -/
theorem not_kept_of_down {g : Bool} {e : Event} (hok : s.keepsDown e ≠ true)
    (hs : s.step e = some t) : ¬ LifecycleKept (t, revived g s e) := by
  rintro ⟨hlive, -⟩
  cases e with
  | stopGeneration =>
    cases Option.some.inj hs
    have hbackend : s.native.backend = true := by
      simpa [stopGeneration, cancelGenerationJob, BridgeState.isLive] using hlive
    exact hok hbackend
  | finish i =>
    obtain ⟨job, -, hs⟩ := Option.bind_eq_some_iff.mp hs
    split at hs
    next => cases hs
    next =>
      cases Option.some.inj hs
      have hbackend : s.native.backend = true := by simpa [BridgeState.isLive] using hlive
      exact hok hbackend
  | _ => exact hok rfl

/-- Along a run of a new bridge its lifecycle is kept exactly when no stop and no end of a job comes
while the native side is down. -/
theorem lifecycle_kept_iff {es : List Event} {s : LlamaBridge} {g : Bool}
    (hr : run (withHistory step revived) (new, false) es = some (s, g)) :
    Always (withHistory step revived) LifecycleKept (new, false) es ↔
      Meets (withHistory step revived) (fun x e => x.1.keepsDown e = true) (new, false) es := by
  refine always_iff_meets (I := Lifecycle) (fun x h => h.kept) ?_ ?_ ⟨⟨nofun, rfl⟩, fun _ => rfl⟩ hr
  · rintro ⟨s, g⟩ e ⟨t, g'⟩ h hok hstep
    obtain ⟨hs, rfl⟩ := withHistory_iff.mp hstep
    exact (step_sound h hok hs).lifecycle h hs
  · rintro ⟨s, g⟩ e ⟨t, g'⟩ h hok hstep
    obtain ⟨hs, rfl⟩ := withHistory_iff.mp hstep
    exact not_kept_of_down hok hs

/-- A bridge that loads, generates, stops and is released when the generation is over. -/
def orderlyLife : List Event :=
  [.init none, .loadModel "model.gguf".toList .loaded, .generate (ascii "hi"), .start 0,
    .stopGeneration, .finish 0, .release, .init none, .generate (ascii "hi"), .recoverFromError none]

theorem lifecycle_kept_orderly : Always (withHistory step revived) LifecycleKept (new, false)
    orderlyLife := by
  obtain ⟨x, hx⟩ : ∃ x, run (withHistory step revived) (new, false) orderlyLife = some x :=
    ⟨_, rfl⟩
  exact (lifecycle_kept_iff (s := x.1) (g := x.2) hx).mpr (by decide +kernel)

/-- A generation that returns after the release makes the bridge ready again. -/
def lateJob : List Event :=
  [.init none, .loadModel "model.gguf".toList .loaded, .generate (ascii "hi"), .start 0, .release,
    .finish 0]

theorem late_job_revives : ¬ Always (withHistory step revived) LifecycleKept (new, false)
    lateJob := by
  intro h
  obtain ⟨x, hx, hkept⟩ : ∃ x, run (withHistory step revived) (new, false) lateJob = some x ∧
      ¬ LifecycleKept x := ⟨_, rfl, by decide +kernel⟩
  exact hkept (always_run h hx)

end LlamaBridge

end HeyNilo
