import HeyNilo.Machine
import Mathlib.Data.List.Basic

namespace HeyNilo

open Machine

variable {β : Type*}

/-- The registered bridges, as the linked map has them, and the names in the order in which they came. -/
structure BridgeManager (β : Type*) where
  bridges : List (String × β) := []
  initializationOrder : List String := []
deriving DecidableEq, Repr

namespace BridgeManager

def find (name : String) (bridges : List (String × β)) : Option β :=
  (bridges.find? fun entry => entry.1 == name).map Prod.snd

def getBridge (m : BridgeManager β) (name : String) : Option β := find name m.bridges

/-- `bridges[name] = bridge`, in place where the name is there. -/
def putBridge (name : String) (bridge : β) : List (String × β) → List (String × β)
  | [] => [(name, bridge)]
  | entry :: rest =>
    if entry.1 == name then (name, bridge) :: rest else entry :: putBridge name bridge rest

def registerBridge (m : BridgeManager β) (name : String) (bridge : β) : BridgeManager β where
  bridges := putBridge name bridge m.bridges
  initializationOrder :=
    if m.initializationOrder.contains name then m.initializationOrder
    else m.initializationOrder ++ [name]

/-- The manager, and the bridge that it releases. -/
def unregisterBridge (m : BridgeManager β) (name : String) (release : Bool) :
    BridgeManager β × List β :=
  match m.getBridge name with
  | none => (m, [])
  | some bridge =>
    (⟨m.bridges.filter fun entry => entry.1 != name, m.initializationOrder.erase name⟩,
      if release then [bridge] else [])

/-- The bridges that `initializeAll` calls `init` on, in its order. -/
def initializeAll (m : BridgeManager β) : List β := m.initializationOrder.filterMap m.getBridge

/-- The manager, and the bridges that it releases in turn. -/
def releaseAll (m : BridgeManager β) : BridgeManager β × List β :=
  ({}, m.initializationOrder.reverse.filterMap m.getBridge)

/-- The two collections have the same names, each once. -/
structure Ordered (m : BridgeManager β) : Prop where
  order : m.initializationOrder = m.bridges.map Prod.fst
  nodup : m.initializationOrder.Nodup

theorem find_cons_self (name : String) (bridge : β) (rest : List (String × β)) :
    find name ((name, bridge) :: rest) = some bridge := by
  simp [find]

theorem find_cons_of_ne {name : String} {entry : String × β} (h : entry.1 ≠ name)
    (rest : List (String × β)) : find name (entry :: rest) = find name rest := by
  simp [find, h]

theorem map_putBridge (name : String) (bridge : β) (entries : List (String × β)) :
    (putBridge name bridge entries).map Prod.fst =
      if (entries.map Prod.fst).contains name then entries.map Prod.fst
      else entries.map Prod.fst ++ [name] := by
  induction entries with
  | nil => rfl
  | cons entry rest ih =>
    by_cases h : entry.1 = name
    · simp [putBridge, h]
    · simp only [putBridge, beq_iff_eq, if_neg h, List.map_cons, ih, List.contains_cons,
        beq_false_of_ne (Ne.symm h), Bool.false_or]
      split
      · rfl
      · rfl

/-- The bridge that was there under the name makes room for the new one. -/
theorem putBridge_perm (name : String) (bridge : β) (entries : List (String × β)) :
    ((find name entries).toList ++ (putBridge name bridge entries).map Prod.snd).Perm
      (bridge :: entries.map Prod.snd) := by
  induction entries with
  | nil => exact .refl _
  | cons entry rest ih =>
    by_cases h : entry.1 = name
    · obtain ⟨_, old⟩ := entry
      subst h
      simpa [find_cons_self, putBridge] using .swap bridge old _
    · rw [find_cons_of_ne h, putBridge, if_neg (by simpa using h), List.map_cons, List.map_cons]
      exact (List.perm_middle.trans (ih.cons entry.2)).trans (.swap bridge entry.2 _)

theorem filter_perm (name : String) {entries : List (String × β)}
    (h : (entries.map Prod.fst).Nodup) :
    ((find name entries).toList ++ (entries.filter fun entry => entry.1 != name).map Prod.snd).Perm
      (entries.map Prod.snd) := by
  induction entries with
  | nil => exact .refl _
  | cons entry rest ih =>
    obtain ⟨hentry, hrest⟩ := List.nodup_cons.mp h
    by_cases hname : entry.1 = name
    · obtain ⟨first, bridge⟩ := entry
      subst hname
      have hkeep : (rest.filter fun other => other.1 != first) = rest := by
        refine List.filter_eq_self.mpr fun other hother => ?_
        exact bne_iff_ne.mpr fun heq => hentry (List.mem_map.mpr ⟨other, hother, heq⟩)
      simp [find_cons_self, hkeep]
    · rw [find_cons_of_ne hname, List.filter_cons_of_pos (by simpa using hname), List.map_cons,
        List.map_cons]
      exact List.perm_middle.trans ((ih hrest).cons entry.2)

theorem filterMap_find {entries all : List (String × β)}
    (h : ∀ entry ∈ entries, find entry.1 all = some entry.2) :
    (entries.map Prod.fst).filterMap (find · all) = entries.map Prod.snd := by
  induction entries with
  | nil => rfl
  | cons entry rest ih =>
    obtain ⟨hentry, hrest⟩ := List.forall_mem_cons.mp h
    rw [List.map_cons, List.filterMap_cons_some (f := (find · all)) hentry, ih hrest, List.map_cons]

theorem find_of_mem {entries : List (String × β)} (h : (entries.map Prod.fst).Nodup)
    {entry : String × β} (hentry : entry ∈ entries) : find entry.1 entries = some entry.2 := by
  induction entries with
  | nil => cases hentry
  | cons first rest ih =>
    obtain ⟨hfirst, hrest⟩ := List.nodup_cons.mp h
    rcases List.mem_cons.mp hentry with rfl | hmem
    · exact find_cons_self ..
    · rw [find_cons_of_ne fun heq => hfirst (heq ▸ List.mem_map_of_mem hmem)]
      exact ih hrest hmem

theorem Ordered.initializeAll {m : BridgeManager β} (h : m.Ordered) :
    m.initializeAll = m.bridges.map Prod.snd := by
  have hnodup := h.order ▸ h.nodup
  rw [BridgeManager.initializeAll, h.order]
  exact filterMap_find fun entry hentry => find_of_mem hnodup hentry

theorem Ordered.releaseAll {m : BridgeManager β} (h : m.Ordered) :
    m.releaseAll.2 = (m.bridges.map Prod.snd).reverse := by
  rw [← h.initializeAll, BridgeManager.initializeAll, ← List.filterMap_reverse]
  rfl

theorem Ordered.registerBridge {m : BridgeManager β} (h : m.Ordered) (name : String) (bridge : β) :
    (m.registerBridge name bridge).Ordered := by
  constructor
  · rw [BridgeManager.registerBridge, map_putBridge, ← h.order]
  · rw [BridgeManager.registerBridge]
    split
    · exact h.nodup
    next hnew =>
      have hname : name ∉ m.initializationOrder := by simpa using hnew
      exact List.nodup_append.mpr ⟨h.nodup, by simp, fun a ha b hb => by
        rw [List.mem_singleton.mp hb]
        exact ne_of_mem_of_not_mem ha hname⟩

theorem Ordered.unregisterBridge {m : BridgeManager β} (h : m.Ordered) (name : String)
    (release : Bool) : (m.unregisterBridge name release).1.Ordered := by
  unfold BridgeManager.unregisterBridge
  split
  · exact h
  · refine ⟨?_, h.nodup.erase name⟩
    have hfilter := h.nodup.erase_eq_filter name
    rw [hfilter, h.order, List.filter_map]
    rfl

/-- What the manager has done: the bridges registered with it, those it released, and those it let go
without. -/
structure Ledger (β : Type*) where
  manager : BridgeManager β := {}
  registered : List β := []
  released : List β := []
  dropped : List β := []
deriving DecidableEq, Repr

inductive Event (β : Type*) where
  | registerBridge (name : String) (bridge : β)
  | unregisterBridge (name : String) (release : Bool)
  | releaseAll
deriving DecidableEq, Repr

/-- A bridge that is replaced is not released. -/
def step (s : Ledger β) : Event β → Option (Ledger β)
  | .registerBridge name bridge => some
    { s with
      manager := s.manager.registerBridge name bridge
      registered := s.registered ++ [bridge]
      dropped := s.dropped ++ (s.manager.getBridge name).toList }
  | .unregisterBridge name release =>
    let (manager, released) := s.manager.unregisterBridge name release
    some { s with
      manager
      released := s.released ++ released
      dropped := s.dropped ++ if release then [] else (s.manager.getBridge name).toList }
  | .releaseAll =>
    let (manager, released) := s.manager.releaseAll
    some { s with manager, released := s.released ++ released }

/-- Every bridge is with the manager, released or dropped, as often as it was registered. -/
def Ledger.Accounted (s : Ledger β) : Prop :=
  s.registered.Perm (s.manager.bridges.map Prod.snd ++ (s.released ++ s.dropped))

theorem step_accounted {s t : Ledger β} {e : Event β} (ho : s.manager.Ordered) (ha : s.Accounted)
    (hs : step s e = some t) : t.manager.Ordered ∧ t.Accounted := by
  classical
  cases e with
  | registerBridge name bridge =>
    cases Option.some.inj hs
    refine ⟨ho.registerBridge name bridge, List.perm_iff_count.mpr fun b => ?_⟩
    have hcount := ha.count_eq b
    have hput := (putBridge_perm name bridge s.manager.bridges).count_eq b
    simp only [List.count_append, List.count_cons, List.count_nil, BridgeManager.registerBridge,
      getBridge] at hcount hput ⊢
    omega
  | unregisterBridge name release =>
    cases Option.some.inj hs
    refine ⟨ho.unregisterBridge name release, List.perm_iff_count.mpr fun b => ?_⟩
    have hcount := ha.count_eq b
    have hfilter := (filter_perm name (ho.order ▸ ho.nodup)).count_eq b
    cases hfind : s.manager.getBridge name with
    | none => cases release <;> simpa using hcount
    | some bridge =>
      have hfind : find name s.manager.bridges = some bridge := hfind
      cases release <;>
        simp only [hfind, Option.toList_some, List.count_append, List.append_nil, if_true,
          Bool.false_eq_true, if_false] at hcount hfilter ⊢ <;>
        omega
  | releaseAll =>
    cases Option.some.inj hs
    refine ⟨⟨rfl, List.nodup_nil⟩, List.perm_iff_count.mpr fun b => ?_⟩
    have hcount := ha.count_eq b
    have hreleased := congrArg (List.count b) ho.releaseAll
    simp only [BridgeManager.releaseAll, List.count_reverse, List.count_append, List.map_nil,
      List.count_nil] at hcount hreleased ⊢
    omega

/-- After any run the manager initialises every bridge that it has once, in the order in which their
names came, and releases them in the reverse order; and every bridge that was ever registered is
still there, has been released, or was dropped, by a replacement or on request. -/
theorem bridges_accounted {es : List (Event β)} {t : Ledger β}
    (hr : run step ({} : Ledger β) es = some t) :
    t.manager.initializeAll = t.manager.bridges.map Prod.snd ∧
      t.manager.releaseAll.2 = t.manager.initializeAll.reverse ∧
      (t.manager.bridges.map Prod.fst).Nodup ∧ t.Accounted := by
  obtain ⟨ho, ha⟩ := run_preserves (I := fun s => s.manager.Ordered ∧ s.Accounted)
    (fun s e t h hs => step_accounted h.1 h.2 hs) ⟨⟨rfl, List.nodup_nil⟩, .refl _⟩ hr
  exact ⟨ho.initializeAll, ho.releaseAll.trans (congrArg _ ho.initializeAll.symm), ho.order ▸ ho.nodup, ha⟩

/-- The bridge of a second activity takes the place of the first one's, which is never released. -/
theorem bridges_accounted_replaced :
    ∃ t, run step ({} : Ledger Nat) [.registerBridge "llm" 1, .registerBridge "llm" 2, .releaseAll] =
        some t ∧ (t.released, t.dropped) = ([2], [1]) ∧ t.Accounted := by
  obtain ⟨t, ht⟩ : ∃ t, run step ({} : Ledger Nat)
    [.registerBridge "llm" 1, .registerBridge "llm" 2, .releaseAll] = some t := ⟨_, rfl⟩
  refine ⟨t, ht, ?_, (bridges_accounted ht).2.2.2⟩
  cases Option.some.inj ht
  rfl

end BridgeManager

/-- How far the job that `onCreate` launches has come. -/
inductive ActivityStage where
  | created
  | registered
  | initialized
  | running (queue : Nat)
  | failed
deriving DecidableEq, Repr

structure Activity where
  stage : ActivityStage
  destroyed : Bool
deriving DecidableEq, Repr

/-- The field `queue`. -/
def Activity.queue (x : Activity) : Option Nat :=
  match x.stage with
  | .running queue => some queue
  | _ => none

theorem Activity.queue_eq_some {x : Activity} {queue : Nat} :
    x.queue = some queue ↔ x.stage = .running queue := by
  unfold Activity.queue
  split
  next other hstage => simp [hstage]
  next hstage => exact ⟨nofun, fun h => absurd h (hstage queue)⟩

/-- The activities of one process, numbered, with what they share: the `BridgeManager`, and the
`instance` of `InferenceQueue`. The bridge of an activity and a queue that is made for it go by its
number. A bridge is ready if it is initialised and not released. -/
structure AppProcess where
  activities : Nat → Option Activity
  manager : BridgeManager Nat
  ready : Nat → Bool
  queueInstance : Option Nat
  closed : Nat → Bool

namespace AppProcess

inductive Event where
  | onCreate (a : Nat)
  | registerBridge (a : Nat)
  /-- With the result of each bridge's `init`. -/
  | initializeAll (a : Nat) (success : Nat → Bool)
  | getInstance (a : Nat)
  | onDestroy (a : Nat)

def setStage (s : AppProcess) (a : Nat) (x : Activity) (stage : ActivityStage) : AppProcess :=
  { s with activities := Function.update s.activities a (some { x with stage }) }

/-- `initResults["llm"]!!` throws where no such bridge is registered any more. -/
def initialized (s : AppProcess) (success : Nat → Bool) : ActivityStage :=
  match s.manager.getBridge "llm" with
  | none => .failed
  | some b => if success b then .initialized else .failed

/-- `queue?.destroy()` and `releaseAll()`. -/
def onDestroy (s : AppProcess) (a : Nat) (x : Activity) : AppProcess where
  activities := Function.update s.activities a (some { x with destroyed := true })
  manager := s.manager.releaseAll.1
  ready b := s.ready b && !s.manager.releaseAll.2.contains b
  queueInstance := if x.queue.isSome then none else s.queueInstance
  closed queue := s.closed queue || x.queue == some queue

def step (s : AppProcess) : Event → Option AppProcess
  | .onCreate a =>
    if s.activities a = none then
      some { s with activities := Function.update s.activities a (some ⟨.created, false⟩) }
    else none
  | .registerBridge a => (s.activities a).bind fun x =>
    if x.stage = .created then
      some { s.setStage a x .registered with manager := s.manager.registerBridge "llm" a }
    else none
  | .initializeAll a success => (s.activities a).bind fun x =>
    if x.stage = .registered then
      some { s.setStage a x (s.initialized success) with
        ready := fun b => if s.manager.initializeAll.contains b then success b else s.ready b }
    else none
  | .getInstance a => (s.activities a).bind fun x =>
    if x.stage = .initialized then
      some { s.setStage a x (.running (s.queueInstance.getD a)) with
        queueInstance := some (s.queueInstance.getD a) }
    else none
  | .onDestroy a => (s.activities a).bind fun x =>
    if x.destroyed then none else some (s.onDestroy a x)

/-- The activity shows the chat, over the given queue. -/
def Shows (s : AppProcess) (a queue : Nat) : Prop := s.activities a = some ⟨.running queue, false⟩

/-- Every chat that is shown goes to a queue that is open and works on the activity's own bridge, which
is ready. -/
def Usable (s : AppProcess) : Prop :=
  ∀ a queue, s.Shows a queue → queue = a ∧ s.closed a = false ∧ s.ready a = true

/-- An activity that is not destroyed gets its own queue for a ready bridge; no bridge behind a chat
that is shown fails when all are initialised again; and no activity is destroyed while the manager
has the bridge of another one that shows its chat. -/
def undisturbed (s : AppProcess) : Event → Prop
  | .getInstance a => ∀ x, s.activities a = some x → x.destroyed = false →
      s.queueInstance = none ∧ s.ready a = true
  | .initializeAll _ success => ∀ b queue, s.Shows b queue → b ∈ s.manager.initializeAll →
      success b = true
  | .onDestroy a => ∀ b queue, s.Shows b queue → b ≠ a → b ∉ s.manager.releaseAll.2
  | _ => True

def Ran (s : AppProcess) (a : Nat) : Prop :=
  ∃ x queue, s.activities a = some x ∧ x.stage = .running queue

/-- A queue is made for an activity that then runs. -/
structure Made (s : AppProcess) : Prop where
  queueInstance : ∀ queue, s.queueInstance = some queue → s.Ran queue
  closed : ∀ queue, s.closed queue = true → s.Ran queue

variable {s t : AppProcess} {a b queue : Nat} {x : Activity}

theorem shows_of_stage (hx : s.activities a = some x) (halive : ¬ x.destroyed = true)
    (hstage : x.stage = .running queue) : s.Shows a queue := by
  obtain ⟨stage, destroyed⟩ := x
  subst hstage
  cases Bool.not_eq_true _ ▸ halive
  exact hx

theorem shows_of_update {y : Activity} (ht : t.activities = Function.update s.activities a (some y))
    (h : t.Shows b queue) : b ≠ a ∧ s.Shows b queue ∨ b = a ∧ y = ⟨.running queue, false⟩ := by
  unfold Shows at h ⊢
  rw [ht] at h
  by_cases hb : b = a
  · subst hb
    rw [Function.update_self] at h
    exact .inr ⟨rfl, Option.some.inj h⟩
  · rw [Function.update_of_ne hb] at h
    exact .inl ⟨hb, h⟩

theorem shows_update_of_ne {y : Activity} (ht : t.activities = Function.update s.activities a (some y))
    (hb : b ≠ a) (h : s.Shows b queue) : t.Shows b queue := by
  unfold Shows at h ⊢
  rw [ht, Function.update_of_ne hb]
  exact h

/-- The first steps of a job show nothing and spoil nothing. -/
theorem Usable.of_update {y : Activity} (h : s.Usable)
    (ht : t.activities = Function.update s.activities a (some y))
    (hy : ∀ queue, y ≠ ⟨.running queue, false⟩) (hclosed : t.closed = s.closed)
    (hready : ∀ b queue, s.Shows b queue → b ≠ a → t.ready b = true) : t.Usable := by
  intro b queue hb
  rcases shows_of_update ht hb with ⟨hne, hshows⟩ | ⟨-, hrunning⟩
  · obtain ⟨hqueue, hopen, -⟩ := h b queue hshows
    exact ⟨hqueue, hclosed ▸ hopen, hready b queue hshows hne⟩
  · exact absurd hrunning (hy queue)

/-- A step changes one activity, and takes none out of the chat. -/
theorem step_update {e : Event} (hs : step s e = some t) :
    ∃ a y, t.activities = Function.update s.activities a (some y) ∧
      (∀ x queue, s.activities a = some x → x.stage = .running queue → y.stage = .running queue) := by
  cases e with
  | onCreate a =>
    simp only [step] at hs
    split at hs
    next hnew =>
      cases Option.some.inj hs
      exact ⟨a, _, rfl, fun x queue hx => nomatch hnew.symm.trans hx⟩
    next => cases hs
  | registerBridge a =>
    obtain ⟨x, hx, hs⟩ := Option.bind_eq_some_iff.mp hs
    split at hs
    next hstage =>
      cases Option.some.inj hs
      refine ⟨a, _, rfl, fun y queue hy hrunning => ?_⟩
      cases Option.some.inj (hx.symm.trans hy)
      cases hstage.symm.trans hrunning
    next => cases hs
  | initializeAll a success =>
    obtain ⟨x, hx, hs⟩ := Option.bind_eq_some_iff.mp hs
    split at hs
    next hstage =>
      cases Option.some.inj hs
      refine ⟨a, _, rfl, fun y queue hy hrunning => ?_⟩
      cases Option.some.inj (hx.symm.trans hy)
      cases hstage.symm.trans hrunning
    next => cases hs
  | getInstance a =>
    obtain ⟨x, hx, hs⟩ := Option.bind_eq_some_iff.mp hs
    split at hs
    next hstage =>
      cases Option.some.inj hs
      refine ⟨a, _, rfl, fun y queue hy hrunning => ?_⟩
      cases Option.some.inj (hx.symm.trans hy)
      cases hstage.symm.trans hrunning
    next => cases hs
  | onDestroy a =>
    obtain ⟨x, hx, hs⟩ := Option.bind_eq_some_iff.mp hs
    split at hs
    next => cases hs
    next =>
      cases Option.some.inj hs
      refine ⟨a, { x with destroyed := true }, rfl, fun y queue hy hrunning => ?_⟩
      cases Option.some.inj (hx.symm.trans hy)
      exact hrunning

theorem Ran.step {e : Event} (h : s.Ran b) (hs : step s e = some t) : t.Ran b := by
  obtain ⟨a, y, ht, hy⟩ := step_update hs
  obtain ⟨z, queue, hz, hstage⟩ := h
  by_cases hb : b = a
  · subst hb
    exact ⟨y, queue, ht ▸ Function.update_self .., hy z queue hz hstage⟩
  · exact ⟨z, queue, ht ▸ (Function.update_of_ne hb ..).trans hz, hstage⟩

theorem Made.step {e : Event} (h : s.Made) (hu : s.Usable) (hs : step s e = some t) : t.Made := by
  have hran {b : Nat} (hb : s.Ran b) : t.Ran b := hb.step hs
  cases e with
  | onCreate a =>
    simp only [AppProcess.step] at hs
    split at hs
    next =>
      cases Option.some.inj hs
      exact ⟨fun queue hq => hran (h.queueInstance queue hq),
        fun queue hq => hran (h.closed queue hq)⟩
    next => cases hs
  | registerBridge a | initializeAll a success =>
    obtain ⟨x, hx, hs⟩ := Option.bind_eq_some_iff.mp hs
    split at hs
    next =>
      cases Option.some.inj hs
      exact ⟨fun queue hq => hran (h.queueInstance queue hq),
        fun queue hq => hran (h.closed queue hq)⟩
    next => cases hs
  | getInstance a =>
    obtain ⟨x, hx, hs⟩ := Option.bind_eq_some_iff.mp hs
    split at hs
    next =>
      cases Option.some.inj hs
      refine ⟨fun queue hq => ?_, fun queue hq => hran (h.closed queue hq)⟩
      rcases Option.eq_none_or_eq_some s.queueInstance with hnone | ⟨other, hsome⟩
      · rw [hnone] at hq
        cases hq
        exact ⟨_, _, Function.update_self .., rfl⟩
      · rw [hsome] at hq
        cases hq
        exact hran (h.queueInstance _ hsome)
    next => cases hs
  | onDestroy a =>
    obtain ⟨x, hx, hs⟩ := Option.bind_eq_some_iff.mp hs
    split at hs
    next => cases hs
    next halive =>
      cases Option.some.inj hs
      refine ⟨fun queue hq => ?_, fun queue hq => ?_⟩
      · simp only [onDestroy] at hq
        split at hq
        · cases hq
        · exact hran (h.queueInstance queue hq)
      · rcases Bool.or_eq_true_iff.mp hq with hclosed | hown
        · exact hran (h.closed queue hclosed)
        · have hstage := Activity.queue_eq_some.mp (beq_iff_eq.mp hown)
          rw [(hu a queue (shows_of_stage hx halive hstage)).1]
          exact hran ⟨x, queue, hx, hstage⟩

theorem Usable.step {e : Event} (h : s.Usable) (hm : s.Made) (hok : undisturbed s e)
    (hs : step s e = some t) : t.Usable := by
  cases e with
  | onCreate a =>
    simp only [AppProcess.step] at hs
    split at hs
    next =>
      cases Option.some.inj hs
      exact h.of_update rfl nofun rfl fun b queue hb _ => (h b queue hb).2.2
    next => cases hs
  | registerBridge a =>
    obtain ⟨x, hx, hs⟩ := Option.bind_eq_some_iff.mp hs
    split at hs
    next =>
      cases Option.some.inj hs
      exact h.of_update rfl nofun rfl fun b queue hb _ => (h b queue hb).2.2
    next => cases hs
  | initializeAll a success =>
    obtain ⟨x, hx, hs⟩ := Option.bind_eq_some_iff.mp hs
    split at hs
    next =>
      cases Option.some.inj hs
      refine h.of_update (y := { x with stage := s.initialized success }) rfl ?_ rfl
        fun b queue hb _ => ?_
      · intro queue
        unfold initialized
        split
        · exact nofun
        · split <;> exact nofun
      · dsimp only
        split
        next hmem => exact hok b queue hb (List.contains_iff_mem.mp hmem)
        next => exact (h b queue hb).2.2
    next => cases hs
  | getInstance a =>
    obtain ⟨x, hx, hs⟩ := Option.bind_eq_some_iff.mp hs
    split at hs
    next hstage =>
      cases Option.some.inj hs
      intro b queue hb
      rcases shows_of_update rfl hb with ⟨hne, hshows⟩ | ⟨rfl, hrunning⟩
      · exact h b queue hshows
      · obtain ⟨hnone, hready⟩ := hok x hx (congrArg Activity.destroyed hrunning)
        rw [hnone] at hrunning
        have hqueue : b = queue := ActivityStage.running.inj (congrArg Activity.stage hrunning)
        refine ⟨hqueue.symm, ?_, hready⟩
        by_contra hclosed
        obtain ⟨y, other, hy, hother⟩ := hm.closed b (Bool.not_eq_false _ ▸ hclosed)
        cases Option.some.inj (hx.symm.trans hy)
        cases hstage.symm.trans hother
    next => cases hs
  | onDestroy a =>
    obtain ⟨x, hx, hs⟩ := Option.bind_eq_some_iff.mp hs
    split at hs
    next => cases hs
    next halive =>
      cases Option.some.inj hs
      intro b queue hb
      rcases shows_of_update rfl hb with ⟨hne, hshows⟩ | ⟨-, hrunning⟩
      · obtain ⟨hqueue, hopen, hready⟩ := h b queue hshows
        refine ⟨hqueue, ?_, ?_⟩
        · refine Bool.or_eq_false_iff.mpr ⟨hopen, beq_eq_false_iff_ne.mpr fun hown => hne ?_⟩
          exact (h a b (shows_of_stage hx halive (Activity.queue_eq_some.mp hown))).1
        · have hkept := hok b queue hshows hne
          simp [onDestroy, hready, hkept]
      · cases congrArg Activity.destroyed hrunning

theorem undisturbed_of_usable {e : Event} (hm : s.Made) (hs : step s e = some t)
    (ht : t.Usable) : undisturbed s e := by
  cases e with
  | onCreate | registerBridge => trivial
  | initializeAll a success =>
    obtain ⟨x, hx, hs⟩ := Option.bind_eq_some_iff.mp hs
    split at hs
    next hstage =>
      cases Option.some.inj hs
      intro b queue hb hmem
      have hne : b ≠ a := by
        rintro rfl
        cases Option.some.inj (hx.symm.trans hb)
        cases hstage
      have hready := (ht b queue (shows_update_of_ne rfl hne hb)).2.2
      simpa [hmem] using hready
    next => cases hs
  | getInstance a =>
    obtain ⟨x, hx, hs⟩ := Option.bind_eq_some_iff.mp hs
    split at hs
    next hstage =>
      cases Option.some.inj hs
      intro y hy halive
      cases Option.some.inj (hx.symm.trans hy)
      have hshows : Shows { s.setStage a x (.running (s.queueInstance.getD a)) with
          queueInstance := some (s.queueInstance.getD a) } a (s.queueInstance.getD a) := by
        rw [Shows, ← halive]
        exact Function.update_self ..
      obtain ⟨hqueue, -, hready⟩ := ht a _ hshows
      refine ⟨?_, hready⟩
      by_contra hsome
      obtain ⟨queue, hqueue'⟩ := Option.ne_none_iff_exists'.mp hsome
      obtain ⟨z, other, hz, hother⟩ := hm.queueInstance queue hqueue'
      rw [hqueue', Option.getD_some] at hqueue
      subst hqueue
      cases Option.some.inj (hx.symm.trans hz)
      cases hstage.symm.trans hother
    next => cases hs
  | onDestroy a =>
    obtain ⟨x, hx, hs⟩ := Option.bind_eq_some_iff.mp hs
    split at hs
    next => cases hs
    next =>
      cases Option.some.inj hs
      intro b queue hb hne hmem
      have hready := (ht b queue (shows_update_of_ne rfl hne hb)).2.2
      simp [onDestroy, hmem] at hready

def start : AppProcess := ⟨fun _ => none, {}, fun _ => false, none, fun _ => false⟩

/-- However activities come and go and their jobs overlap, every chat that is shown can be used
exactly if none of them disturbs another one. -/
theorem always_usable_iff {es : List Event} (hr : run step start es = some t) :
    Always step Usable start es ↔ Meets step undisturbed start es := by
  refine always_iff_meets (I := fun s => s.Usable ∧ s.Made) (fun s h => h.1) ?_ ?_ ?_ hr
  · rintro s e u ⟨h, hm⟩ hok hs
    exact ⟨h.step hm hok hs, hm.step h hs⟩
  · rintro s e u ⟨-, hm⟩ hok hs hu
    exact hok (undisturbed_of_usable hm hs hu)
  · exact ⟨nofun, nofun, nofun⟩

/-- An activity is destroyed, and created again. -/
theorem usable_after_recreation : Always step Usable start
    [.onCreate 1, .registerBridge 1, .initializeAll 1 fun _ => true, .getInstance 1, .onDestroy 1,
      .onCreate 2, .registerBridge 2, .initializeAll 2 fun _ => true, .getInstance 2] := by
  obtain ⟨t, ht⟩ : ∃ t, run step start
    [.onCreate 1, .registerBridge 1, .initializeAll 1 fun _ => true, .getInstance 1, .onDestroy 1,
      .onCreate 2, .registerBridge 2, .initializeAll 2 fun _ => true, .getInstance 2] = some t :=
    ⟨_, rfl⟩
  refine (always_usable_iff ht).mpr ⟨trivial, ?_⟩
  rintro _ ⟨⟩
  refine ⟨trivial, ?_⟩
  rintro _ ⟨⟩
  refine ⟨fun _ _ _ _ => rfl, ?_⟩
  rintro _ ⟨⟩
  refine ⟨fun _ h _ => by cases h; exact ⟨rfl, rfl⟩, ?_⟩
  rintro _ ⟨⟩
  refine ⟨fun b queue h hne => ?_, ?_⟩
  · match b with
    | 1 => exact absurd rfl hne
    | 0 | _ + 2 => cases h
  rintro _ ⟨⟩
  refine ⟨trivial, ?_⟩
  rintro _ ⟨⟩
  refine ⟨trivial, ?_⟩
  rintro _ ⟨⟩
  refine ⟨fun _ _ _ _ => rfl, ?_⟩
  rintro _ ⟨⟩
  exact ⟨fun _ h _ => by cases h; exact ⟨rfl, rfl⟩, fun _ _ => trivial⟩

end AppProcess

end HeyNilo
