import HeyNilo.KotlinText
import HeyNilo.Machine
import HeyNilo.StreamingSpeech

namespace HeyNilo

open Machine

/-- A native context, with the whisper model in it and the call that holds its mutex. -/
structure WhisperContext where
  ctx : Option Nat := none
  modelLoaded : Bool := false
  inferenceMutex : Option Nat := none
deriving DecidableEq, Repr

/-- How far a `nativeTranscribe` has come: it has looked at nothing yet, it has passed all checks, or
it is inside `whisper_full` on a model. -/
inductive WhisperStage where
  | entered
  | checked
  | running (ctx : Nat)
deriving DecidableEq, Repr

structure WhisperCall where
  handle : Nat
  samples : Nat
  stage : WhisperStage
deriving DecidableEq, Repr

/-- A `RealSTTBridge` with the native memory. What `init` and the loading of a model allocate is
numbered from one on, so that `0` is the null handle. -/
structure RealSTTBridge where
  contexts : Nat → Option WhisperContext
  allocated : Nat
  nativeHandle : Nat
  isModelLoaded : Bool
  calls : Nat → Option WhisperCall
  answers : List (Nat × Text)

namespace RealSTTBridge

def hallucinations : List Text :=
  ["bye bye", "bye-bye", "thank you", "thanks for watching", "you", ".", " ", "the", "and", "um", "uh",
    "a", "an", "sorry", "sorry jen", "excuse me", "jen", "i'm sorry", "blank_audio", "[blank_audio]",
    "BLANK_AUDIO", "[BLANK_AUDIO]"].map String.toList

def isValidTranscription (isLetter : Char → Bool) (text : Text) : Bool :=
  let cleaned := lowercase (trim text)
  if utf16Length cleaned < 4 then false
  else if hallucinations.contains cleaned then false
  else !cleaned.all fun c => !isLetter c

def maxSamples : Nat := 16000 * 8

inductive Event where
  | init
  /-- `nativeLoadModel` on the handle of the bridge, which frees the model before. -/
  | loadModel (success : Bool)
  /-- The first half of `release`. -/
  | nativeRelease
  /-- The second half. -/
  | forgetHandle
  | transcribe (id samples : Nat)
  /-- The checks of `nativeTranscribe` up to the lock. -/
  | check (id : Nat)
  /-- `try_to_lock`, and the start of `whisper_full`. -/
  | lock (id : Nat)
  /-- `whisper_full` ends, with the text of the segments unless it fails. -/
  | finish (id : Nat) (text : Option Text)
deriving DecidableEq

def answer (s : RealSTTBridge) (id : Nat) (text : Text) : RealSTTBridge :=
  { s with calls := Function.update s.calls id none, answers := s.answers ++ [(id, text)] }

def setContext (s : RealSTTBridge) (handle : Nat) (c : Option WhisperContext) : RealSTTBridge :=
  { s with contexts := Function.update s.contexts handle c }

def setStage (s : RealSTTBridge) (id : Nat) (call : WhisperCall) (stage : WhisperStage) :
    RealSTTBridge :=
  { s with calls := Function.update s.calls id (some { call with stage }) }

def loadModel (s : RealSTTBridge) (success : Bool) : Option RealSTTBridge :=
  if s.nativeHandle = 0 then some s
  else
    (s.contexts s.nativeHandle).map fun c =>
      if success then
        { s.setContext s.nativeHandle
            (some { c with ctx := some (s.allocated + 1), modelLoaded := true }) with
          allocated := s.allocated + 1
          isModelLoaded := true }
      else
        s.setContext s.nativeHandle
          (some { c with ctx := none, modelLoaded := c.ctx.isNone && c.modelLoaded })

def transcribe (s : RealSTTBridge) (id samples : Nat) : RealSTTBridge :=
  if !s.isModelLoaded || s.nativeHandle = 0 then s.answer id []
  else if samples = 0 then s.answer id []
  else { s with calls := Function.update s.calls id (some ⟨s.nativeHandle, samples, .entered⟩) }

/-- At 16 kHz nothing is resampled. -/
def check (s : RealSTTBridge) (id : Nat) (call : WhisperCall) (c : WhisperContext) :
    RealSTTBridge :=
  if c.ctx.isNone || !c.modelLoaded then s.answer id []
  else if min call.samples maxSamples < 8000 then s.answer id []
  else s.setStage id call .checked

/-- `whisper_full` must not get the null pointer. -/
def lock (s : RealSTTBridge) (id : Nat) (call : WhisperCall) (c : WhisperContext) :
    Option RealSTTBridge :=
  if c.inferenceMutex.isSome then some (s.answer id [])
  else
    c.ctx.map fun ctx =>
      (s.setContext call.handle (some { c with inferenceMutex := some id })).setStage id call
        (.running ctx)

def finish (isLetter : Char → Bool) (s : RealSTTBridge) (id : Nat) (call : WhisperCall)
    (c : WhisperContext) (text : Option Text) : RealSTTBridge :=
  (s.setContext call.handle (some { c with inferenceMutex := none })).answer id
    (text.elim [] fun text => if isValidTranscription isLetter text then text else [])

/-- A step that uses a freed context or a freed model is undefined. -/
def step (isLetter : Char → Bool) (s : RealSTTBridge) : Event → Option RealSTTBridge
  | .init => some
    { s.setContext (s.allocated + 1) (some {}) with
      allocated := s.allocated + 1
      nativeHandle := s.allocated + 1 }
  | .loadModel success => s.loadModel success
  | .nativeRelease => (s.contexts s.nativeHandle).map fun _ => s.setContext s.nativeHandle none
  | .forgetHandle =>
    if s.contexts s.nativeHandle = none then some { s with nativeHandle := 0, isModelLoaded := false }
    else none
  | .transcribe id samples => if s.calls id = none then some (s.transcribe id samples) else none
  | .check id =>
    (s.calls id).bind fun call => (s.contexts call.handle).bind fun c =>
      if call.stage = .entered then some (s.check id call c) else none
  | .lock id =>
    (s.calls id).bind fun call => (s.contexts call.handle).bind fun c =>
      if call.stage = .checked then s.lock id call c else none
  | .finish id text =>
    (s.calls id).bind fun call => (s.contexts call.handle).bind fun c =>
      if c.ctx.map WhisperStage.running = some call.stage then
        some (s.finish isLetter id call c text)
      else none

/-- What a call that has come to a stage still needs of its context. -/
def Needs (id : Nat) (c : WhisperContext) : WhisperStage → Prop
  | .entered => True
  | .checked => c.ctx ≠ none
  | .running ctx => c.ctx = some ctx ∧ c.inferenceMutex = some id

/-- No call holds a freed context or model, and every lock has a holder inside `whisper_full`. -/
structure Sound (s : RealSTTBridge) : Prop where
  alive : ∀ id call, s.calls id = some call →
    ∃ c, s.contexts call.handle = some c ∧ Needs id c call.stage
  held : ∀ handle c id, s.contexts handle = some c → c.inferenceMutex = some id →
    ∃ call ctx, s.calls id = some call ∧ call.handle = handle ∧ call.stage = .running ctx

/-- What lives was allocated. -/
structure Allocated (s : RealSTTBridge) : Prop where
  handles : ∀ handle c, s.contexts handle = some c → 0 < handle ∧ handle ≤ s.allocated
  models : ∀ handle c ctx, s.contexts handle = some c → c.ctx = some ctx → ctx ≤ s.allocated

/-- Nothing is freed or locked away under a call: no release while a call has the handle, no loading
while one is inside `whisper_full`, no failed loading while one is about to be, and no call between
the two halves of a release. -/
def spares (s : RealSTTBridge) : Event → Prop
  | .loadModel success => ∀ id call, s.calls id = some call → call.handle = s.nativeHandle →
      (∀ ctx, call.stage ≠ .running ctx) ∧ (success = false → call.stage ≠ .checked)
  | .nativeRelease => ∀ id call, s.calls id = some call → call.handle ≠ s.nativeHandle
  | .transcribe _ samples => s.isModelLoaded = true → s.nativeHandle ≠ 0 → samples ≠ 0 →
      s.contexts s.nativeHandle ≠ none
  | _ => True

variable {isLetter : Char → Bool} {s t : RealSTTBridge}

/-- The lock of a context lets one call in. -/
theorem Sound.one_running (h : s.Sound) {id id' : Nat} {call call' : WhisperCall} {ctx ctx' : Nat}
    (hcall : s.calls id = some call) (hcall' : s.calls id' = some call')
    (hstage : call.stage = .running ctx) (hstage' : call'.stage = .running ctx')
    (hhandle : call.handle = call'.handle) : id = id' := by
  obtain ⟨c, hc, hneeds⟩ := h.alive id call hcall
  obtain ⟨c', hc', hneeds'⟩ := h.alive id' call' hcall'
  rw [hstage] at hneeds
  rw [hstage'] at hneeds'
  cases Option.some.inj ((hhandle ▸ hc).symm.trans hc')
  exact Option.some.inj (hneeds.2.symm.trans hneeds'.2)

theorem Sound.answer (h : s.Sound) {id : Nat} (text : Text)
    (hid : ∀ call ctx, s.calls id = some call → call.stage ≠ .running ctx) :
    (s.answer id text).Sound where
  alive i call hcall := by
    by_cases hi : i = id
    · subst hi
      cases (Function.update_self (f := s.calls) ..).symm.trans hcall
    · exact h.alive i call ((Function.update_of_ne hi ..).symm.trans hcall)
  held handle c i hc hmutex := by
    obtain ⟨call, ctx, hcall, hhandle, hstage⟩ := h.held handle c i hc hmutex
    have hi : i ≠ id := by
      rintro rfl
      exact hid call ctx hcall hstage
    exact ⟨call, ctx, (Function.update_of_ne hi ..).trans hcall, hhandle, hstage⟩

theorem Sound.setContext (h : s.Sound) (handle : Nat) (c : WhisperContext)
    (hneeds : ∀ id call, s.calls id = some call → call.handle = handle → Needs id c call.stage)
    (hheld : ∀ id, c.inferenceMutex = some id →
      ∃ call ctx, s.calls id = some call ∧ call.handle = handle ∧ call.stage = .running ctx) :
    (s.setContext handle (some c)).Sound where
  alive id call hcall := by
    by_cases hhandle : call.handle = handle
    · exact ⟨c, hhandle ▸ Function.update_self .., hneeds id call hcall hhandle⟩
    · obtain ⟨c', hc', hneeds'⟩ := h.alive id call hcall
      exact ⟨c', (Function.update_of_ne hhandle ..).trans hc', hneeds'⟩
  held i c' id hc' hmutex := by
    by_cases hi : i = handle
    · subst hi
      cases Option.some.inj ((Function.update_self (f := s.contexts) ..).symm.trans hc')
      exact hheld id hmutex
    · exact h.held i c' id ((Function.update_of_ne hi ..).symm.trans hc') hmutex

theorem Sound.setStage (h : s.Sound) {id : Nat} {call : WhisperCall} {c : WhisperContext}
    (hcall : s.calls id = some call) (hc : s.contexts call.handle = some c)
    (hstage : call.stage = .entered) (hctx : c.ctx ≠ none) :
    (s.setStage id call .checked).Sound where
  alive i call' hcall' := by
    by_cases hi : i = id
    · subst hi
      cases Option.some.inj ((Function.update_self (f := s.calls) ..).symm.trans hcall')
      exact ⟨c, hc, hctx⟩
    · exact h.alive i call' ((Function.update_of_ne hi ..).symm.trans hcall')
  held handle c' i hc' hmutex := by
    obtain ⟨call', ctx, hcall', hhandle, hrunning⟩ := h.held handle c' i hc' hmutex
    have hi : i ≠ id := by
      rintro rfl
      cases Option.some.inj (hcall.symm.trans hcall')
      cases hstage.symm.trans hrunning
    exact ⟨call', ctx, (Function.update_of_ne hi ..).trans hcall', hhandle, hrunning⟩

theorem Sound.lock (h : s.Sound) {id : Nat} {call : WhisperCall} {c : WhisperContext}
    (hcall : s.calls id = some call) (hc : s.contexts call.handle = some c)
    (hstage : call.stage = .checked) (ht : s.lock id call c = some t) : t.Sound := by
  unfold RealSTTBridge.lock at ht
  split at ht
  next =>
    cases Option.some.inj ht
    refine h.answer [] fun call' ctx hcall' hrunning => ?_
    cases Option.some.inj (hcall.symm.trans hcall')
    cases hstage.symm.trans hrunning
  next hfree =>
    obtain ⟨ctx, hctx, rfl⟩ := Option.map_eq_some_iff.mp ht
    have hmutex : c.inferenceMutex = none := by simpa using hfree
    constructor
    · intro i call' hcall'
      by_cases hi : i = id
      · subst hi
        cases Option.some.inj ((Function.update_self (f := s.calls) ..).symm.trans hcall')
        exact ⟨{ c with inferenceMutex := some i }, Function.update_self .., hctx, rfl⟩
      · have hcall' : s.calls i = some call' := (Function.update_of_ne hi ..).symm.trans hcall'
        obtain ⟨c', hc', hneeds⟩ := h.alive i call' hcall'
        by_cases hhandle : call'.handle = call.handle
        · cases Option.some.inj (hc.symm.trans (hhandle ▸ hc'))
          refine ⟨{ c with inferenceMutex := some id }, hhandle ▸ Function.update_self .., ?_⟩
          cases hstage' : call'.stage with
          | entered => trivial
          | checked => rwa [hstage'] at hneeds
          | running ctx' =>
            rw [hstage'] at hneeds
            cases hmutex.symm.trans hneeds.2
        · exact ⟨c', (Function.update_of_ne hhandle ..).trans hc', hneeds⟩
    · intro handle c' i hc' hheld
      by_cases hhandle : handle = call.handle
      · subst hhandle
        cases Option.some.inj ((Function.update_self (f := s.contexts) ..).symm.trans hc')
        cases Option.some.inj hheld
        exact ⟨_, ctx, Function.update_self .., rfl, rfl⟩
      · have hc' : s.contexts handle = some c' := (Function.update_of_ne hhandle ..).symm.trans hc'
        obtain ⟨call', ctx', hcall', hhandle', hrunning⟩ := h.held handle c' i hc' hheld
        have hi : i ≠ id := by
          rintro rfl
          cases Option.some.inj (hcall.symm.trans hcall')
          exact hhandle hhandle'.symm
        exact ⟨call', ctx', (Function.update_of_ne hi ..).trans hcall', hhandle', hrunning⟩

theorem Sound.finish (h : s.Sound) {id : Nat} {call : WhisperCall} {c : WhisperContext}
    (hcall : s.calls id = some call) (hc : s.contexts call.handle = some c) {ctx : Nat}
    (hstage : call.stage = .running ctx) (text : Option Text) :
    (s.finish isLetter id call c text).Sound := by
  have hmutex : c.inferenceMutex = some id := by
    obtain ⟨c', hc', hneeds⟩ := h.alive id call hcall
    cases Option.some.inj (hc.symm.trans hc')
    rw [hstage] at hneeds
    exact hneeds.2
  constructor
  · intro i call' hcall'
    by_cases hi : i = id
    · subst hi
      cases (Function.update_self (f := s.calls) ..).symm.trans hcall'
    have hcall' : s.calls i = some call' := (Function.update_of_ne hi ..).symm.trans hcall'
    obtain ⟨c', hc', hneeds⟩ := h.alive i call' hcall'
    by_cases hhandle : call'.handle = call.handle
    · cases Option.some.inj (hc.symm.trans (hhandle ▸ hc'))
      refine ⟨{ c with inferenceMutex := none }, hhandle ▸ Function.update_self .., ?_⟩
      cases hstage' : call'.stage with
      | entered => trivial
      | checked => rwa [hstage'] at hneeds
      | running ctx' =>
        rw [hstage'] at hneeds
        exact absurd (Option.some.inj (hneeds.2.symm.trans hmutex)) hi
    · exact ⟨c', (Function.update_of_ne hhandle ..).trans hc', hneeds⟩
  · intro handle c' i hc' hheld
    by_cases hhandle : handle = call.handle
    · subst hhandle
      cases Option.some.inj ((Function.update_self (f := s.contexts) ..).symm.trans hc')
      cases hheld
    · have hc' : s.contexts handle = some c' := (Function.update_of_ne hhandle ..).symm.trans hc'
      obtain ⟨call', ctx', hcall', hhandle', hrunning⟩ := h.held handle c' i hc' hheld
      have hi : i ≠ id := by
        rintro rfl
        cases Option.some.inj (hcall.symm.trans hcall')
        exact hhandle hhandle'.symm
      exact ⟨call', ctx', (Function.update_of_ne hi ..).trans hcall', hhandle', hrunning⟩

theorem Allocated.update (h : s.Allocated) {n handle : Nat} {c : WhisperContext}
    (hn : s.allocated ≤ n) (hhandle : 0 < handle ∧ handle ≤ n) (hctx : ∀ ctx ∈ c.ctx, ctx ≤ n)
    (hcontexts : t.contexts = Function.update s.contexts handle (some c)) (ht : t.allocated = n) :
    t.Allocated := by
  subst ht
  constructor
  · intro i c' hc'
    rw [hcontexts] at hc'
    by_cases hi : i = handle
    · exact hi ▸ hhandle
    · have hold := h.handles i c' ((Function.update_of_ne hi ..).symm.trans hc')
      exact ⟨hold.1, hold.2.trans hn⟩
  · intro i c' ctx hc'
    rw [hcontexts] at hc'
    by_cases hi : i = handle
    · subst hi
      cases Option.some.inj ((Function.update_self (f := s.contexts) ..).symm.trans hc')
      exact hctx ctx
    · intro h'
      exact (h.models i c' ctx ((Function.update_of_ne hi ..).symm.trans hc') h').trans hn

theorem Allocated.of_contexts (h : s.Allocated)
    (hcontexts : ∀ handle c, t.contexts handle = some c → s.contexts handle = some c)
    (ht : t.allocated = s.allocated) : t.Allocated :=
  ⟨fun handle c hc => ht ▸ h.handles handle c (hcontexts handle c hc),
    fun handle c ctx hc hctx => ht ▸ h.models handle c ctx (hcontexts handle c hc) hctx⟩

theorem Allocated.step {e : Event} (h : s.Allocated) (hs : step isLetter s e = some t) :
    t.Allocated := by
  cases e with
  | init =>
    cases Option.some.inj hs
    exact h.update (Nat.le_succ _) ⟨Nat.succ_pos _, Nat.le_refl _⟩ (by simp) rfl rfl
  | loadModel success =>
    simp only [RealSTTBridge.step, loadModel] at hs
    split at hs
    · cases Option.some.inj hs
      exact h
    obtain ⟨c, hc, rfl⟩ := Option.map_eq_some_iff.mp hs
    obtain ⟨hpos, hle⟩ := h.handles _ c hc
    cases success with
    | true =>
      refine h.update (Nat.le_succ _) ⟨hpos, hle.trans (Nat.le_succ _)⟩ ?_ rfl rfl
      rintro _ ⟨⟩
      exact Nat.le_refl _
    | false => exact h.update (Nat.le_refl _) ⟨hpos, hle⟩ (by simp) rfl rfl
  | nativeRelease =>
    obtain ⟨c, hc, rfl⟩ := Option.map_eq_some_iff.mp hs
    refine h.of_contexts (fun handle c' hc' => ?_) rfl
    by_cases hhandle : handle = s.nativeHandle
    · subst hhandle
      cases (Function.update_self (f := s.contexts) ..).symm.trans hc'
    · exact (Function.update_of_ne hhandle ..).symm.trans hc'
  | forgetHandle =>
    simp only [RealSTTBridge.step] at hs
    split at hs
    next => cases Option.some.inj hs; exact h.of_contexts (fun _ _ hc => hc) rfl
    next => cases hs
  | transcribe id samples =>
    simp only [RealSTTBridge.step, transcribe] at hs
    split at hs
    next =>
      cases Option.some.inj hs
      split
      · exact h.of_contexts (fun _ _ hc => hc) rfl
      split
      · exact h.of_contexts (fun _ _ hc => hc) rfl
      · exact h.of_contexts (fun _ _ hc => hc) rfl
    next => cases hs
  | check id =>
    obtain ⟨call, hcall, hs⟩ := Option.bind_eq_some_iff.mp hs
    obtain ⟨c, hc, hs⟩ := Option.bind_eq_some_iff.mp hs
    split at hs
    next =>
      cases Option.some.inj hs
      unfold check
      split
      · exact h.of_contexts (fun _ _ hc => hc) rfl
      split
      · exact h.of_contexts (fun _ _ hc => hc) rfl
      · exact h.of_contexts (fun _ _ hc => hc) rfl
    next => cases hs
  | lock id =>
    obtain ⟨call, hcall, hs⟩ := Option.bind_eq_some_iff.mp hs
    obtain ⟨c, hc, hs⟩ := Option.bind_eq_some_iff.mp hs
    split at hs
    next =>
      unfold lock at hs
      split at hs
      · cases Option.some.inj hs
        exact h.of_contexts (fun _ _ hc => hc) rfl
      · obtain ⟨ctx, hctx, rfl⟩ := Option.map_eq_some_iff.mp hs
        exact h.update (c := { c with inferenceMutex := some id }) (Nat.le_refl _)
          (h.handles _ c hc) (fun ctx hctx => h.models _ c ctx hc hctx) rfl rfl
    next => cases hs
  | finish id text =>
    obtain ⟨call, hcall, hs⟩ := Option.bind_eq_some_iff.mp hs
    obtain ⟨c, hc, hs⟩ := Option.bind_eq_some_iff.mp hs
    split at hs
    next =>
      cases Option.some.inj hs
      exact h.update (c := { c with inferenceMutex := none }) (Nat.le_refl _)
        (h.handles _ c hc) (fun ctx hctx => h.models _ c ctx hc hctx) rfl rfl
    next => cases hs

theorem Sound.loadModel {success : Bool} (h : s.Sound) (hok : spares s (.loadModel success))
    (hs : s.loadModel success = some t) : t.Sound := by
  unfold RealSTTBridge.loadModel at hs
  split at hs
  · cases Option.some.inj hs
    exact h
  obtain ⟨c, hc, rfl⟩ := Option.map_eq_some_iff.mp hs
  have hheld (id : Nat) (hmutex : c.inferenceMutex = some id) := h.held _ c id hc hmutex
  cases success with
  | true =>
    have hset := h.setContext s.nativeHandle
      { c with ctx := some (s.allocated + 1), modelLoaded := true }
      (fun id call hcall hhandle => ?_) hheld
    · exact ⟨hset.alive, hset.held⟩
    · cases hstage : call.stage with
      | entered => trivial
      | checked => exact Option.some_ne_none _
      | running ctx => exact absurd hstage ((hok id call hcall hhandle).1 ctx)
  | false =>
    refine h.setContext _ _ (fun id call hcall hhandle => ?_) hheld
    cases hstage : call.stage with
    | entered => trivial
    | checked => exact absurd hstage ((hok id call hcall hhandle).2 rfl)
    | running ctx => exact absurd hstage ((hok id call hcall hhandle).1 ctx)

theorem Sound.enter {id samples : Nat} (h : s.Sound) (hfree : s.calls id = none)
    (halive : s.contexts s.nativeHandle ≠ none) :
    Sound { s with
      calls := Function.update s.calls id (some ⟨s.nativeHandle, samples, .entered⟩) } where
  alive i call hcall := by
    by_cases hi : i = id
    · subst hi
      cases Option.some.inj ((Function.update_self (f := s.calls) ..).symm.trans hcall)
      obtain ⟨c, hc⟩ := Option.ne_none_iff_exists'.mp halive
      exact ⟨c, hc, trivial⟩
    · exact h.alive i call ((Function.update_of_ne hi ..).symm.trans hcall)
  held handle c i hc hmutex := by
    obtain ⟨call, ctx, hcall, hhandle, hstage⟩ := h.held handle c i hc hmutex
    have hi : i ≠ id := by
      rintro rfl
      cases hfree.symm.trans hcall
    exact ⟨call, ctx, (Function.update_of_ne hi ..).trans hcall, hhandle, hstage⟩

theorem Sound.step {e : Event} (h : s.Sound) (ha : s.Allocated) (hok : spares s e)
    (hs : step isLetter s e = some t) : t.Sound := by
  cases e with
  | init =>
    cases Option.some.inj hs
    have hset := h.setContext (s.allocated + 1) {} (fun id call hcall hhandle => ?_)
      (fun _ h => nomatch h)
    · exact ⟨hset.alive, hset.held⟩
    · obtain ⟨c, hc, -⟩ := h.alive id call hcall
      exact absurd (hhandle ▸ (ha.handles _ c hc).2) (Nat.not_succ_le_self _)
  | loadModel success => exact h.loadModel hok hs
  | nativeRelease =>
    obtain ⟨c, hc, rfl⟩ := Option.map_eq_some_iff.mp hs
    constructor
    · intro id call hcall
      obtain ⟨c', hc', hneeds⟩ := h.alive id call hcall
      exact ⟨c', (Function.update_of_ne (hok id call hcall) ..).trans hc', hneeds⟩
    · intro handle c' id hc' hmutex
      by_cases hhandle : handle = s.nativeHandle
      · subst hhandle
        cases (Function.update_self (f := s.contexts) ..).symm.trans hc'
      · exact h.held handle c' id ((Function.update_of_ne hhandle ..).symm.trans hc') hmutex
  | forgetHandle =>
    simp only [RealSTTBridge.step] at hs
    split at hs
    next => cases Option.some.inj hs; exact ⟨h.alive, h.held⟩
    next => cases hs
  | transcribe id samples =>
    simp only [RealSTTBridge.step] at hs
    split at hs
    next hfree =>
      cases Option.some.inj hs
      have hnot (call : WhisperCall) (ctx : Nat) (hcall : s.calls id = some call) :
          call.stage ≠ .running ctx := nomatch hfree.symm.trans hcall
      unfold transcribe
      split
      · exact h.answer [] hnot
      next hloaded =>
        split
        · exact h.answer [] hnot
        next hsamples =>
          obtain ⟨hmodel, hhandle⟩ : s.isModelLoaded = true ∧ s.nativeHandle ≠ 0 := by
            simpa using hloaded
          exact h.enter hfree (hok hmodel hhandle hsamples)
    next => cases hs
  | check id =>
    obtain ⟨call, hcall, hs⟩ := Option.bind_eq_some_iff.mp hs
    obtain ⟨c, hc, hs⟩ := Option.bind_eq_some_iff.mp hs
    split at hs
    next hstage =>
      cases Option.some.inj hs
      have hnot (call' : WhisperCall) (ctx : Nat) (hcall' : s.calls id = some call') :
          call'.stage ≠ .running ctx := by
        cases Option.some.inj (hcall.symm.trans hcall')
        exact hstage ▸ nofun
      unfold check
      split
      · exact h.answer [] hnot
      next hloaded =>
        split
        · exact h.answer [] hnot
        · refine h.setStage hcall hc hstage fun hctx => hloaded ?_
          rw [hctx]
          rfl
    next => cases hs
  | lock id =>
    obtain ⟨call, hcall, hs⟩ := Option.bind_eq_some_iff.mp hs
    obtain ⟨c, hc, hs⟩ := Option.bind_eq_some_iff.mp hs
    split at hs
    next hstage => exact h.lock hcall hc hstage hs
    next => cases hs
  | finish id text =>
    obtain ⟨call, hcall, hs⟩ := Option.bind_eq_some_iff.mp hs
    obtain ⟨c, hc, hs⟩ := Option.bind_eq_some_iff.mp hs
    split at hs
    next hstage =>
      cases Option.some.inj hs
      obtain ⟨ctx, -, hctx⟩ := Option.map_eq_some_iff.mp hstage
      exact h.finish hcall hc hctx.symm text
    next => cases hs

theorem spares_of_sound {e : Event} (h : s.Sound) (ha : s.Allocated)
    (hs : step isLetter s e = some t) (ht : t.Sound) : spares s e := by
  cases e with
  | loadModel success =>
    intro id call hcall hhandle
    obtain ⟨c, hc, hneeds⟩ := h.alive id call hcall
    have hzero : s.nativeHandle ≠ 0 :=
      fun hzero => absurd (ha.handles _ c hc).1 (by simp [hhandle, hzero])
    rw [hhandle] at hc
    simp only [RealSTTBridge.step, loadModel, if_neg hzero, hc, Option.map_some] at hs
    cases Option.some.inj hs
    cases success with
    | true =>
      obtain ⟨c', hc', hneeds'⟩ := ht.alive id call hcall
      cases Option.some.inj
        ((Function.update_self (f := s.contexts) ..).symm.trans (hhandle ▸ hc'))
      refine ⟨fun ctx hstage => ?_, fun h => nomatch h⟩
      rw [hstage] at hneeds hneeds'
      have hle := ha.models _ c ctx hc hneeds.1
      cases hneeds'.1
      exact Nat.not_succ_le_self _ hle
    | false =>
      obtain ⟨c', hc', hneeds'⟩ := ht.alive id call hcall
      cases Option.some.inj
        ((Function.update_self (f := s.contexts) ..).symm.trans (hhandle ▸ hc'))
      refine ⟨fun ctx hstage => ?_, fun _ hstage => ?_⟩
      · rw [hstage] at hneeds'
        cases hneeds'.1
      · rw [hstage] at hneeds'
        exact hneeds' rfl
  | nativeRelease =>
    obtain ⟨c, hc, rfl⟩ := Option.map_eq_some_iff.mp hs
    intro id call hcall hhandle
    obtain ⟨c', hc', -⟩ := ht.alive id call hcall
    rw [hhandle] at hc'
    cases (Function.update_self (f := s.contexts) ..).symm.trans hc'
  | transcribe id samples =>
    intro hmodel hhandle hsamples hdead
    simp only [RealSTTBridge.step] at hs
    split at hs
    next =>
      cases Option.some.inj hs
      have hentered : (s.transcribe id samples).calls id = some ⟨s.nativeHandle, samples, .entered⟩ := by
        simp [transcribe, hmodel, hhandle, hsamples]
      have hcontexts : (s.transcribe id samples).contexts = s.contexts := by
        simp [transcribe, hmodel, hhandle, hsamples]
      obtain ⟨c, hc, -⟩ := ht.alive id _ hentered
      cases hdead.symm.trans (hcontexts ▸ hc)
    next => cases hs
  | _ => trivial

def start : RealSTTBridge := ⟨fun _ => none, 0, 0, false, fun _ => none, []⟩

end RealSTTBridge

end HeyNilo
