import HeyNilo.LlamaBridge
import HeyNilo.Machine

namespace HeyNilo

/-- How far a call of `loadModel` or `unloadModel` has come. -/
inductive LoadPoint where
  | loadRequested
  /-- `compareAndSet` has set the flag. -/
  | loadGuarded
  | loadNative
  /-- Out of `nativeLoadModel`, before the `finally` block. -/
  | loadReturning
  | unloadRequested
  /-- The flag was read as unset. -/
  | unloadChecked
  | unloadNative
  | returned
deriving DecidableEq, Repr

/-- What the calls of `loadModel` and `unloadModel` share, and the calls. -/
structure LoadGuard where
  isLoadingModel : Bool
  currentState : BridgeState
  calls : List LoadPoint
deriving DecidableEq, Repr

namespace LoadGuard

open Machine LoadPoint

inductive Event where
  | loadModel
  | unloadModel
  /-- The call at place `i` makes its next access of the flag, or enters or leaves its native call;
  `success` is what `nativeLoadModel` answers. -/
  | resume (i : Nat) (success : Bool)
  /-- Another method of the bridge sets its state. -/
  | updateState (newState : BridgeState)
deriving DecidableEq, Repr

def new : LoadGuard := ⟨false, .uninitialized, []⟩

def goTo (s : LoadGuard) (i : Nat) (point : LoadPoint) : LoadGuard :=
  { s with calls := s.calls.set i point }

/-- One step of a call, from where it stands. -/
def resume (s : LoadGuard) (i : Nat) (success : Bool) : LoadPoint → Option LoadGuard
  | .loadRequested =>
    if s.isLoadingModel then some (s.goTo i .returned)
    else some ({ s with isLoadingModel := true }.goTo i .loadGuarded)
  | .loadGuarded =>
    -- the state is looked at under the flag, right before the native call
    if s.currentState = .ready then some ({ s with currentState := .loading }.goTo i .loadNative)
    else some ({ s with currentState := .error }.goTo i .loadReturning)
  | .loadNative =>
    some ({ s with currentState := if success then .ready else .error }.goTo i .loadReturning)
  | .loadReturning => some ({ s with isLoadingModel := false }.goTo i .returned)
  | .unloadRequested =>
    if s.isLoadingModel then some (s.goTo i .returned) else some (s.goTo i .unloadChecked)
  | .unloadChecked => some (s.goTo i .unloadNative)
  | .unloadNative => some (s.goTo i .returned)
  | .returned => none

def step (s : LoadGuard) : Event → Option LoadGuard
  | .loadModel => some { s with calls := s.calls ++ [.loadRequested] }
  | .unloadModel => some { s with calls := s.calls ++ [.unloadRequested] }
  | .resume i success => s.calls[i]?.bind (s.resume i success)
  | .updateState newState => some { s with currentState := newState }

def inNative (point : LoadPoint) : Bool := point = .loadNative || point = .unloadNative

/-- Between its `compareAndSet` and its `set(false)` a load holds the flag. -/
def holdsFlag (point : LoadPoint) : Bool :=
  point = .loadGuarded || point = .loadNative || point = .loadReturning

/-- At most one native load or unload is in progress. -/
def OneInNative (s : LoadGuard) : Prop := s.calls.countP inNative ≤ 1

instance (s : LoadGuard) : Decidable (OneInNative s) := inferInstanceAs (Decidable (_ ≤ _))

/-- No unload enters its native call over another call, and no load over an unload. -/
def entersAlone (s : LoadGuard) : Event → Bool
  | .resume i _ =>
    match s.calls[i]? with
    | some .unloadChecked => s.calls.countP inNative = 0
    | some .loadGuarded => s.currentState ≠ .ready || s.calls.countP (· = .unloadNative) = 0
    | _ => true
  | _ => true

/-- The invariant behind `OneInNative`: the flag is set exactly while one load holds it. -/
structure Guarded (s : LoadGuard) : Prop where
  flag : s.calls.countP holdsFlag = if s.isLoadingModel then 1 else 0
  one : OneInNative s

variable {s t : LoadGuard}

theorem countP_goTo (p : LoadPoint → Bool) {i : Nat} {point : LoadPoint}
    (hi : s.calls[i]? = some point) (next : LoadPoint) :
    (s.goTo i next).calls.countP p + (if p point then 1 else 0) =
      s.calls.countP p + if p next then 1 else 0 := by
  obtain ⟨hlt, hget⟩ := List.getElem?_eq_some_iff.mp hi
  have hmem : point ∈ s.calls := List.mem_of_getElem? hi
  have hpos : p point = true → 0 < s.calls.countP p := fun h => List.countP_pos_iff.mpr ⟨point, hmem, h⟩
  have hset := List.countP_set (p := p) (a := next) hlt
  rw [hget] at hset
  show (s.calls.set i next).countP p + _ = _
  rw [hset]
  split
  next h =>
    have := hpos h
    omega
  next => omega

/-- A load that holds the flag before its native call is the only load near it. -/
theorem loads_of_guarded (calls : List LoadPoint) :
    calls.countP (· = .loadGuarded) + calls.countP (· = .loadNative) ≤ calls.countP holdsFlag ∧
      calls.countP inNative = calls.countP (· = .loadNative) + calls.countP (· = .unloadNative) := by
  induction calls with
  | nil => simp
  | cons point calls ih =>
    obtain ⟨hholds, hnative⟩ := ih
    cases point <;> simp [holdsFlag, inNative] <;> omega

/-- A call that holds the flag, or is in native code, and goes on to where it does neither. -/
theorem Guarded.goTo (h : Guarded s) {i : Nat} {point next : LoadPoint}
    (hi : s.calls[i]? = some point) (hholds : holdsFlag next = holdsFlag point)
    (hnative : inNative next = true → inNative point = true) : Guarded (s.goTo i next) := by
  have hflag := countP_goTo holdsFlag hi next
  have hcount := countP_goTo inNative hi next
  rw [hholds] at hflag
  constructor
  · show (s.goTo i next).calls.countP holdsFlag = if s.isLoadingModel then 1 else 0
    have := h.flag
    omega
  · have hone : s.calls.countP inNative ≤ 1 := h.one
    show (s.goTo i next).calls.countP inNative ≤ 1
    cases hnext : inNative next with
    | false => simp only [hnext, Bool.false_eq_true, if_false] at hcount; omega
    | true => simp only [hnext, hnative hnext, if_true] at hcount; omega

theorem Guarded.updateState (h : Guarded s) (newState : BridgeState) :
    Guarded { s with currentState := newState } := ⟨h.flag, h.one⟩

theorem Guarded.newCall (h : Guarded s) {point : LoadPoint} (hholds : holdsFlag point = false)
    (hnative : inNative point = false) : Guarded { s with calls := s.calls ++ [point] } := by
  constructor
  · simpa [List.countP_append, hholds] using h.flag
  · simpa [OneInNative, List.countP_append, hnative] using h.one

theorem Guarded.take (h : Guarded s) {i : Nat} (hi : s.calls[i]? = some .loadRequested)
    (hfree : s.isLoadingModel = false) :
    Guarded ({ s with isLoadingModel := true }.goTo i .loadGuarded) := by
  have hflag := countP_goTo holdsFlag hi .loadGuarded
  have hcount := countP_goTo inNative hi .loadGuarded
  have hnone := h.flag
  have hone : s.calls.countP inNative ≤ 1 := h.one
  rw [hfree] at hnone
  constructor
  · show (s.goTo i .loadGuarded).calls.countP holdsFlag = 1
    have hrequested : holdsFlag .loadRequested = false := rfl
    have hguarded : holdsFlag .loadGuarded = true := rfl
    simp only [hrequested, hguarded, if_true, Bool.false_eq_true, if_false] at hflag hnone
    omega
  · show (s.goTo i .loadGuarded).calls.countP inNative ≤ 1
    have hrequested : inNative .loadRequested = false := rfl
    have hguarded : inNative .loadGuarded = false := rfl
    simp only [hrequested, hguarded, Bool.false_eq_true, if_false] at hcount
    omega

theorem Guarded.giveBack (h : Guarded s) {i : Nat} (hi : s.calls[i]? = some .loadReturning) :
    Guarded ({ s with isLoadingModel := false }.goTo i .returned) := by
  have hflag := countP_goTo holdsFlag hi .returned
  have hcount := countP_goTo inNative hi .returned
  have hone : s.calls.countP inNative ≤ 1 := h.one
  have hholders : s.calls.countP holdsFlag ≤ 1 := by
    rw [h.flag]
    split <;> omega
  constructor
  · show (s.goTo i .returned).calls.countP holdsFlag = 0
    have hreturning : holdsFlag .loadReturning = true := rfl
    have hreturned : holdsFlag .returned = false := rfl
    simp only [hreturning, hreturned, if_true, Bool.false_eq_true, if_false] at hflag
    omega
  · show (s.goTo i .returned).calls.countP inNative ≤ 1
    have hreturning : inNative .loadReturning = false := rfl
    have hreturned : inNative .returned = false := rfl
    simp only [hreturning, hreturned, Bool.false_eq_true, if_false] at hcount
    omega

theorem countP_enter {i : Nat} {point : LoadPoint} (hi : s.calls[i]? = some point)
    (next : LoadPoint) (hpoint : inNative point = false) (hnext : inNative next = true) :
    (s.goTo i next).calls.countP inNative = s.calls.countP inNative + 1 := by
  have hcount := countP_goTo inNative hi next
  simp only [hpoint, hnext, if_true, Bool.false_eq_true, if_false] at hcount
  omega

theorem Guarded.no_load (h : Guarded s) {i : Nat} (hi : s.calls[i]? = some .loadGuarded) :
    s.calls.countP inNative = s.calls.countP (· = .unloadNative) := by
  obtain ⟨hloads, hnative⟩ := loads_of_guarded s.calls
  have hholders : s.calls.countP holdsFlag ≤ 1 := by
    rw [h.flag]
    split <;> omega
  have hhere : 0 < s.calls.countP (· = .loadGuarded) :=
    List.countP_pos_iff.mpr ⟨_, List.mem_of_getElem? hi, by simp⟩
  omega

theorem Guarded.enter (h : Guarded s) {i : Nat} {point next : LoadPoint}
    (hi : s.calls[i]? = some point) (hpoint : inNative point = false) (hnext : inNative next = true)
    (hholds : holdsFlag next = holdsFlag point) (halone : s.calls.countP inNative = 0) :
    Guarded (s.goTo i next) := by
  have hflag := countP_goTo holdsFlag hi next
  rw [hholds] at hflag
  constructor
  · show (s.goTo i next).calls.countP holdsFlag = if s.isLoadingModel then 1 else 0
    have := h.flag
    omega
  · show (s.goTo i next).calls.countP inNative ≤ 1
    rw [countP_enter hi next hpoint hnext, halone]

theorem resume_guarded {i : Nat} {success : Bool} {point : LoadPoint} (h : Guarded s)
    (hi : s.calls[i]? = some point) (hok : s.entersAlone (.resume i success) = true)
    (hs : s.resume i success point = some t) : Guarded t := by
  simp only [entersAlone, hi] at hok
  cases point with
  | loadRequested =>
    simp only [resume] at hs
    split at hs
    next => cases Option.some.inj hs; exact h.goTo hi rfl nofun
    next hfree => cases Option.some.inj hs; exact h.take hi (eq_false_of_ne_true hfree)
  | loadGuarded =>
    simp only [resume] at hs
    split at hs
    next hready =>
      cases Option.some.inj hs
      have halone : s.calls.countP inNative = 0 := by
        rw [h.no_load hi]
        simpa [hready] using hok
      exact (h.updateState .loading).enter hi rfl rfl rfl halone
    next => cases Option.some.inj hs; exact (h.updateState .error).goTo hi rfl nofun
  | loadNative =>
    cases Option.some.inj hs
    exact (h.updateState _).goTo hi rfl nofun
  | loadReturning => cases Option.some.inj hs; exact h.giveBack hi
  | unloadRequested =>
    simp only [resume] at hs
    split at hs
    next => cases Option.some.inj hs; exact h.goTo hi rfl nofun
    next => cases Option.some.inj hs; exact h.goTo hi rfl nofun
  | unloadChecked =>
    cases Option.some.inj hs
    exact h.enter hi rfl rfl rfl (by simpa using hok)
  | unloadNative => cases Option.some.inj hs; exact h.goTo hi rfl nofun
  | returned => cases hs

theorem step_guarded {e : Event} (h : Guarded s) (hok : s.entersAlone e = true)
    (hs : s.step e = some t) : Guarded t := by
  cases e with
  | loadModel => cases Option.some.inj hs; exact h.newCall rfl rfl
  | unloadModel => cases Option.some.inj hs; exact h.newCall rfl rfl
  | resume i success =>
    obtain ⟨point, hi, hs⟩ := Option.bind_eq_some_iff.mp hs
    exact resume_guarded h hi hok hs
  | updateState newState => cases Option.some.inj hs; exact h.updateState newState

/-- Where a call does not enter its native call alone, two are in progress after the step. -/
theorem two_of_enter {e : Event} (hok : s.entersAlone e ≠ true) (hs : s.step e = some t) :
    ¬ OneInNative t := by
  intro hone
  cases e with
  | resume i success =>
    obtain ⟨point, hi, hs⟩ := Option.bind_eq_some_iff.mp hs
    simp only [entersAlone, hi] at hok
    cases point with
    | loadGuarded =>
      obtain ⟨hready, hunload⟩ : s.currentState = .ready ∧ 0 < s.calls.countP (· = .unloadNative) := by
        simpa [Nat.pos_iff_ne_zero] using hok
      simp only [resume, if_pos hready] at hs
      cases Option.some.inj hs
      have hcount := countP_enter hi .loadNative rfl rfl
      have hnative := (loads_of_guarded s.calls).2
      have htwo : (s.goTo i .loadNative).calls.countP inNative ≤ 1 := hone
      omega
    | unloadChecked =>
      cases Option.some.inj hs
      have hcount := countP_enter hi .unloadNative rfl rfl
      have htwo : (s.goTo i .unloadNative).calls.countP inNative ≤ 1 := hone
      have hsome : s.calls.countP inNative ≠ 0 := by simpa using hok
      omega
    | _ => exact hok rfl
  | _ => exact hok rfl

/-- Two loads and an unload at once: the second load and the unload find the flag set. -/
def guardedCalls : List Event :=
  [.updateState .ready, .loadModel, .loadModel, .unloadModel, .resume 0 true, .resume 1 true,
    .resume 0 true, .resume 2 true, .resume 0 true, .resume 0 true]

/-- An unload reads the flag before a load sets it, and enters while the load is under way. -/
def uncheckedUnload : List Event :=
  [.updateState .ready, .unloadModel, .loadModel, .resume 0 true, .resume 1 true, .resume 1 true,
    .resume 0 true]

end LoadGuard

end HeyNilo
