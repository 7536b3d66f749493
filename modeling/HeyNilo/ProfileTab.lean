import HeyNilo.GsonText
import HeyNilo.Machine
import HeyNilo.LaggingCopy

namespace HeyNilo

open JsonFile LaggingCopy

/-- A press of the button that adds the text of the field, or of the one that deletes a row. -/
inductive FactPress where
  | add
  | delete (index : Nat) (fact : String)
deriving DecidableEq, Repr

/-- A coroutine's call of the memory manager; a deletion knows its row by the index. -/
inductive FactCall where
  | addFact (fact : String)
  | removeFact (index : Nat) (fact : String)
deriving DecidableEq, Repr

/-- How far a call has come that has changed the list of facts (or refused to). -/
inductive SaveStage where
  | edited
  | serialised (profile : UserProfile)
  | returned
deriving DecidableEq

structure FactEdit where
  call : FactCall
  stage : SaveStage
deriving DecidableEq

/-- The facts card of the screen, its coroutines by how far they have come, and the memory manager.
`written` is the profile that the last write to begin has put on file, `deletions` the facts whose
deletion was pressed, each with the row that went. -/
structure ProfileTab where
  newFact : String
  facts : List String
  launched : List FactPress
  calls : List FactCall
  edits : List FactEdit
  manager : MemoryManager
  written : Option UserProfile
  deletions : List (String × Option String)

def FactPress.call (newFact : String) : FactPress → FactCall
  | .add => .addFact newFact
  | .delete index fact => .removeFact index fact

def FactPress.removed : FactPress → Option String
  | .add => none
  | .delete _ fact => some fact

namespace FactCall

/-- `addFact` and `removeFact` up to the save, `none` where they refuse. -/
def edited (now : String) (p : UserProfile) : FactCall → Option UserProfile
  | addFact fact => p.withFact now fact
  | removeFact _ fact => p.withoutFact now fact

def added : FactCall → Option String
  | addFact fact => some fact
  | removeFact .. => none

def removed : FactCall → Option String
  | addFact _ => none
  | removeFact _ fact => some fact

end FactCall

namespace ProfileTab

def start (manager : MemoryManager) : ProfileTab where
  newFact := ""
  facts := manager.userProfile.facts
  launched := []
  calls := []
  edits := []
  manager := manager
  written := some manager.userProfile
  deletions := []

inductive Event where
  | type (text : String)
  | pressAdd
  | pressDelete (index : Nat)
  /-- A launched coroutine begins and calls the memory manager. -/
  | begin (k : Nat)
  /-- The memory manager changes its list. -/
  | edit (k : Nat) (now : String)
  | serialise (k : Nat)
  | write (k : Nat) (outcome : WriteOutcome)
  /-- The coroutine goes on after the call and changes the list on the screen. -/
  | resume (k : Nat)
deriving DecidableEq

def withProfile (s : ProfileTab) (p : UserProfile) : ProfileTab :=
  { s with manager := { s.manager with userProfile := p } }

def writeFile (gson : Gson) (s : ProfileTab) (p : UserProfile) (outcome : WriteOutcome) :
    ProfileTab :=
  let file := (JsonFile.write s.manager.files.userProfile (gson.userProfile.toJson p) outcome).2
  { s with
    manager := { s.manager with files := { s.manager.files with userProfile := file } }
    written :=
      match outcome with
      | .ok => some p
      | .failed none => s.written
      | .failed (some _) => none }

/-- A row that is no longer there throws, which leaves the list as it is. -/
def removeAt (s : ProfileTab) (index : Nat) (fact : String) : ProfileTab :=
  { s with
    facts := s.facts.eraseIdx index
    deletions := s.deletions ++ [(fact, s.facts[index]?)] }

def step (gson : Gson) (s : ProfileTab) : Event → Option ProfileTab
  | .type text => some { s with newFact := text }
  | .pressAdd =>
    some (if isBlank s.newFact.toList then s else { s with launched := s.launched ++ [.add] })
  | .pressDelete index =>
    s.facts[index]?.map fun fact => { s with launched := s.launched ++ [.delete index fact] }
  | .begin k =>
    s.launched[k]?.map fun press =>
      { s with
        launched := s.launched.eraseIdx k
        calls := s.calls ++ [press.call s.newFact] }
  | .edit k now =>
    s.calls[k]?.map fun call =>
      let rest := { s with calls := s.calls.eraseIdx k }
      match call.edited now s.manager.userProfile with
      | some p => { rest.withProfile p with edits := s.edits ++ [⟨call, .edited⟩] }
      | none => { rest with edits := s.edits ++ [⟨call, .returned⟩] }
  | .serialise k =>
    match s.edits[k]? with
    | some ⟨call, .edited⟩ =>
      some { s with edits := s.edits.set k ⟨call, .serialised s.manager.userProfile⟩ }
    | _ => none
  | .write k outcome =>
    match s.edits[k]? with
    | some ⟨call, .serialised p⟩ =>
      some { s.writeFile gson p outcome with edits := s.edits.set k ⟨call, .returned⟩ }
    | _ => none
  | .resume k =>
    match s.edits[k]? with
    | some ⟨.addFact _, .returned⟩ =>
      some { s with
        facts := s.facts ++ [s.newFact]
        newFact := ""
        edits := s.edits.eraseIdx k }
    | some ⟨.removeFact index fact, .returned⟩ =>
      some { s.removeAt index fact with edits := s.edits.eraseIdx k }
    | _ => none

/-- The facts that the memory manager has added, in its order, and the rows show not yet. -/
def added (edits : List FactEdit) : List String := edits.filterMap (·.call.added)

/-- The facts that it has removed and the rows still show. -/
def removed (edits : List FactEdit) : List String := edits.filterMap (·.call.removed)

/-- The facts whose deletion has been pressed and that it is still to remove. -/
def waiting (launched : List FactPress) (calls : List FactCall) : List String :=
  launched.filterMap FactPress.removed ++ calls.filterMap FactCall.removed

def Finished (s : ProfileTab) : Prop := s.launched = [] ∧ s.calls = [] ∧ s.edits = []

/-- When all coroutines have finished, the rows are the facts that the memory manager has; and
whenever a fact was to be deleted, its row went. -/
structure ShowsStored (s : ProfileTab) : Prop where
  same : s.Finished → s.facts = s.manager.userProfile.facts
  pressed : ∀ d ∈ s.deletions, d.2 = some d.1

/-- They are the facts on file, too. -/
def ShowsFile (gson : Gson) (s : ProfileTab) : Prop :=
  s.Finished → s.facts = (load gson.userProfile {} s.manager.files.userProfile).facts

/-- A coroutine that is to add a fact begins before the field is blank, and goes on when the field
has its fact and no other fact waits longer. One that is to delete a fact finds it stored, and then
its row at the index; and if an equal row before that one is to stay, all between the two are equal
or about to go. -/
def Steady (s : ProfileTab) : Event → Prop
  | .begin k => s.launched[k]? = some .add → isBlank s.newFact.toList = false
  | .edit k _ => ∀ index fact, s.calls[k]? = some (.removeFact index fact) →
    fact ∈ s.manager.userProfile.facts
  | .resume k => match s.edits[k]? with
    | some ⟨.addFact fact, _⟩ => s.newFact = fact ∧ ∀ other ∈ added (s.edits.take k), other = fact
    | some ⟨.removeFact index fact, _⟩ =>
      s.facts[index]? = some fact ∧
        ∀ row ∈ ((s.facts.take index).diff (removed (s.edits.eraseIdx k) ++
          waiting s.launched s.calls)).dropWhile (· ≠ fact), row = fact
    | none => True
  | _ => True

/-- When the last coroutine goes on, the last write has succeeded, with all the facts. -/
def Saved (s : ProfileTab) : Event → Prop
  | .resume k => s.launched = [] → s.calls = [] → s.edits.eraseIdx k = [] →
    s.written.map (·.facts) = some s.manager.userProfile.facts
  | _ => True

/-- Gson reads back what is written. -/
def ReadBack (gson : Gson) (s : ProfileTab) : Event → Prop
  | .write k _ => ∀ call p, s.edits[k]? = some ⟨call, .serialised p⟩ →
    gson.userProfile.fromJson (gson.userProfile.toJson p) = .value p
  | _ => True

variable {gson : Gson} {s t : ProfileTab} {e : Event} {k : Nat}

/-- What a call adds or removes does not depend on how far it has come. -/
theorem filterMap_set {f : FactCall → Option String} {edits : List FactEdit} {call : FactCall}
    {stage stage' : SaveStage} (h : edits[k]? = some ⟨call, stage⟩) :
    (edits.set k ⟨call, stage'⟩).filterMap (fun e => f e.call) =
      edits.filterMap fun e => f e.call := by
  have hk := (List.getElem?_eq_some_iff.mp h).1
  rw [List.set_eq_take_append_cons_drop, if_pos hk]
  conv_rhs => rw [eq_take_cons_drop h]
  simp only [List.filterMap_append, List.filterMap_cons]

theorem filterMap_entry {α : Type*} {g : α → Option String} {entries : List α} {entry : α}
    (h : entries[k]? = some entry) :
    entries.filterMap g =
      (entries.take k).filterMap g ++ ((g entry).toList ++ (entries.drop (k + 1)).filterMap g) := by
  conv_lhs => rw [eq_take_cons_drop h]
  rw [List.filterMap_append, List.filterMap_cons]
  cases g entry <;> rfl

theorem filterMap_eraseIdx {α : Type*} {g : α → Option String} {entries : List α} :
    (entries.eraseIdx k).filterMap g =
      (entries.take k).filterMap g ++ (entries.drop (k + 1)).filterMap g := by
  rw [List.eraseIdx_eq_take_drop_succ, List.filterMap_append]

theorem filterMap_perm {α : Type*} {g : α → Option String} {entries : List α} {entry : α}
    (h : entries[k]? = some entry) :
    (entries.filterMap g).Perm ((g entry).toList ++ (entries.eraseIdx k).filterMap g) := by
  rw [filterMap_entry h, filterMap_eraseIdx, ← List.append_assoc, ← List.append_assoc]
  exact List.perm_append_comm.append_right _

/-- A coroutine that begins is waited for as before. -/
theorem waiting_begin {launched : List FactPress} {calls : List FactCall} {press : FactPress}
    (h : launched[k]? = some press) (newFact : String) :
    (waiting launched calls).Perm
      (waiting (launched.eraseIdx k) (calls ++ [press.call newFact])) := by
  have hcall : ([press.call newFact].filterMap FactCall.removed) = press.removed.toList := by
    cases press <;> rfl
  rw [waiting, waiting, List.filterMap_append, hcall, ← List.append_assoc]
  have hmove := (filterMap_perm (g := FactPress.removed) h).append_right
    (calls.filterMap FactCall.removed)
  exact hmove.trans (by
    rw [List.append_assoc]
    exact List.perm_append_comm)

theorem waiting_edit {launched : List FactPress} {calls : List FactCall} {call : FactCall}
    (h : calls[k]? = some call) : (waiting launched calls).Perm
      (call.removed.toList ++ waiting launched (calls.eraseIdx k)) := by
  have hmove := (filterMap_perm (g := FactCall.removed) h).append_left
    (launched.filterMap FactPress.removed)
  refine hmove.trans ?_
  rw [waiting, ← List.append_assoc, ← List.append_assoc]
  exact List.perm_append_comm.append_right _

/-- As long as each step is steady, the rows lag behind the stored facts. -/
structure InStep (s : ProfileTab) : Prop where
  lags : Lags s.manager.userProfile.facts s.facts (added s.edits) (removed s.edits)
    (waiting s.launched s.calls)
  texts : ∀ fact, .addFact fact ∈ s.calls → isBlank fact.toList = false
  pressed : ∀ d ∈ s.deletions, d.2 = some d.1

theorem inStep_start (manager : MemoryManager) : (start manager).InStep where
  lags := lags_refl
  texts := nofun
  pressed := nofun

theorem InStep.showsStored (h : s.InStep) : s.ShowsStored where
  same hfinished := by
    have hlags := h.lags
    rw [hfinished.1, hfinished.2.1, hfinished.2.2] at hlags
    exact hlags.caught_up
  pressed := h.pressed

theorem inStep_press {press : FactPress} (hs : s.InStep) :
    InStep { s with launched := s.launched ++ [press] } where
  lags := by
    have hlags : Lags s.manager.userProfile.facts s.facts (added s.edits) (removed s.edits)
        (press.removed.toList ++ waiting s.launched s.calls) := by
      cases press with
      | add => exact hs.lags
      | delete index fact => exact hs.lags.wait fact
    refine hlags.perm (.refl _) ?_
    have hlast : [press].filterMap FactPress.removed = press.removed.toList := by
      cases press <;> rfl
    rw [waiting, waiting, List.filterMap_append, hlast, ← List.append_assoc]
    exact List.perm_append_comm.append_right _
  texts := hs.texts
  pressed := hs.pressed

theorem inStep_begin (hs : s.InStep) (hok : s.Steady (.begin k))
    (ht : step gson s (.begin k) = some t) : t.InStep := by
  obtain ⟨press, hpress, rfl⟩ := Option.map_eq_some_iff.mp ht
  refine ⟨hs.lags.perm (.refl _) (waiting_begin hpress _), fun fact hfact => ?_, hs.pressed⟩
  rcases List.mem_append.mp hfact with hfact | hfact
  · exact hs.texts fact hfact
  · rw [List.mem_singleton] at hfact
    cases press with
    | add =>
      cases hfact
      exact hok hpress
    | delete index fact => cases hfact

theorem inStep_edit {now : String} (hs : s.InStep) (hok : s.Steady (.edit k now))
    (ht : step gson s (.edit k now) = some t) : t.InStep := by
  obtain ⟨call, hcall, rfl⟩ := Option.map_eq_some_iff.mp ht
  have htexts (fact : String) (h : .addFact fact ∈ s.calls.eraseIdx k) :=
    hs.texts fact (List.mem_of_mem_eraseIdx h)
  have hlags := hs.lags.perm (.refl _) (waiting_edit hcall)
  cases call with
  | addFact fact =>
    have hfact := hs.texts fact (List.mem_of_getElem? hcall)
    have hmade := hlags.append fact
    simp only [FactCall.edited, UserProfile.withFact, hfact, Bool.false_eq_true, if_false]
    refine ⟨?_, htexts, hs.pressed⟩
    simpa [added, removed, withProfile, FactCall.added, FactCall.removed] using hmade
  | removeFact index fact =>
    have hfact := hok index fact hcall
    have hmade := (Lags.erase hlags hfact).perm (List.perm_append_singleton ..).symm (.refl _)
    simp only [FactCall.edited, UserProfile.withoutFact, List.contains_iff_mem, hfact, if_true]
    refine ⟨?_, htexts, hs.pressed⟩
    simpa [added, removed, withProfile, FactCall.added, FactCall.removed] using hmade

theorem inStep_resume (hs : s.InStep) (hok : s.Steady (.resume k))
    (ht : step gson s (.resume k) = some t) : t.InStep := by
  have hlags := hs.lags
  simp only [step] at ht
  split at ht
  case h_3 => cases ht
  case h_1 fact hentry =>
    obtain rfl := Option.some.inj ht
    simp only [Steady, hentry] at hok
    obtain ⟨hfield, hearlier⟩ := hok
    have hremoved : removed (s.edits.eraseIdx k) = removed s.edits :=
      filterMap_eraseIdx.trans (filterMap_entry hentry).symm
    rw [added, filterMap_entry hentry] at hlags
    refine ⟨?_, hs.texts, hs.pressed⟩
    simp only [added, hremoved, filterMap_eraseIdx, hfield]
    exact hlags.copy_append hearlier
  case h_2 index fact hentry =>
    obtain rfl := Option.some.inj ht
    simp only [Steady, hentry] at hok
    obtain ⟨hrow, hbefore⟩ := hok
    have hadded : added (s.edits.eraseIdx k) = added s.edits :=
      filterMap_eraseIdx.trans (filterMap_entry hentry).symm
    have hremoved : (removed s.edits).Perm (fact :: removed (s.edits.eraseIdx k)) :=
      filterMap_perm hentry
    refine ⟨?_, hs.texts, fun d hd => ?_⟩
    · simp only [removeAt, hadded]
      exact (hlags.perm hremoved (.refl _)).copy_eraseIdx hrow hbefore
    · rcases List.mem_append.mp hd with hd | hd
      · exact hs.pressed d hd
      · rw [List.mem_singleton] at hd
        rw [hd, hrow]

theorem inStep_step (hs : s.InStep) (hok : s.Steady e) (ht : step gson s e = some t) :
    t.InStep := by
  cases e with
  | type text => exact Option.some.inj ht ▸ ⟨hs.lags, hs.texts, hs.pressed⟩
  | pressAdd =>
    obtain rfl := Option.some.inj ht
    split
    · exact hs
    · exact inStep_press hs
  | pressDelete index =>
    obtain ⟨fact, _, rfl⟩ := Option.map_eq_some_iff.mp ht
    exact inStep_press hs
  | begin k => exact inStep_begin hs hok ht
  | edit k now => exact inStep_edit hs hok ht
  | serialise k =>
    simp only [step] at ht
    split at ht
    · rename_i call hentry
      obtain rfl := Option.some.inj ht
      refine ⟨?_, hs.texts, hs.pressed⟩
      simp only [added, removed, filterMap_set hentry]
      exact hs.lags
    · cases ht
  | write k outcome =>
    simp only [step] at ht
    split at ht
    · rename_i call p hentry
      obtain rfl := Option.some.inj ht
      refine ⟨?_, hs.texts, hs.pressed⟩
      simp only [added, removed, filterMap_set hentry]
      exact hs.lags
    · cases ht
  | resume k => exact inStep_resume hs hok ht

/-- The facts on file are those of the last write, and those of the rows when all is finished. -/
structure OnFile (gson : Gson) (s : ProfileTab) : Prop where
  shows : s.ShowsFile gson
  reads : ∀ p, s.written = some p →
    (load gson.userProfile {} s.manager.files.userProfile).facts = p.facts

theorem onFile_start {manager : MemoryManager}
    (h : (load gson.userProfile {} manager.files.userProfile).facts = manager.userProfile.facts) :
    (start manager).OnFile gson where
  shows _ := h.symm
  reads p hp := by
    cases hp
    exact h

/-- Before the last coroutine goes on, only the file has to be looked after. -/
theorem OnFile.unfinished (hs : s.OnFile gson) (hfile : t.manager.files = s.manager.files)
    (hwritten : t.written = s.written) (hfinished : ¬t.Finished) : t.OnFile gson where
  shows h := absurd h hfinished
  reads p hp := by
    rw [hfile]
    exact hs.reads p (hwritten ▸ hp)

theorem onFile_write {outcome : WriteOutcome} (hs : s.OnFile gson)
    (hread : s.ReadBack gson (.write k outcome)) (ht : step gson s (.write k outcome) = some t) :
    t.OnFile gson := by
  simp only [step] at ht
  split at ht
  case h_2 => cases ht
  case h_1 call p hentry =>
  obtain rfl := Option.some.inj ht
  have hk := (List.getElem?_eq_some_iff.mp hentry).1
  constructor
  · rintro ⟨-, -, hnone⟩
    rw [List.set_eq_nil_iff] at hnone
    simp [hnone] at hk
  · intro q hq
    cases outcome with
    | ok =>
      cases hq
      simp [writeFile, JsonFile.write, load, hread call p hentry]
    | failed kept =>
      cases kept with
      | none => exact hs.reads q hq
      | some kept => cases hq

theorem onFile_resume (hs : s.OnFile gson) (hsaved : s.Saved (.resume k)) (hin : t.InStep)
    (ht : step gson s (.resume k) = some t) : t.OnFile gson := by
  obtain ⟨hlaunched, hcalls, hedits, hmanager, hwritten⟩ : t.launched = s.launched ∧
      t.calls = s.calls ∧ t.edits = s.edits.eraseIdx k ∧ t.manager = s.manager ∧
      t.written = s.written := by
    simp only [step] at ht
    split at ht
    · exact Option.some.inj ht ▸ ⟨rfl, rfl, rfl, rfl, rfl⟩
    · exact Option.some.inj ht ▸ ⟨rfl, rfl, rfl, rfl, rfl⟩
    · cases ht
  have hreads (p : UserProfile) (hp : t.written = some p) :
      (load gson.userProfile {} t.manager.files.userProfile).facts = p.facts := by
    rw [hmanager]
    exact hs.reads p (hwritten ▸ hp)
  refine ⟨fun hfinished => ?_, hreads⟩
  have hlast := hsaved (hlaunched ▸ hfinished.1) (hcalls ▸ hfinished.2.1) (hedits ▸ hfinished.2.2)
  obtain ⟨p, hp, hfacts⟩ := Option.map_eq_some_iff.mp hlast
  rw [hin.showsStored.same hfinished, hreads p (hwritten.trans hp), hfacts, hmanager]

theorem onFile_step (hs : s.OnFile gson) (hsaved : s.Saved e) (hread : s.ReadBack gson e)
    (hin : t.InStep) (ht : step gson s e = some t) : t.OnFile gson := by
  cases e with
  | type text => exact Option.some.inj ht ▸ ⟨hs.shows, hs.reads⟩
  | pressAdd =>
    obtain rfl := Option.some.inj ht
    split
    · exact hs
    · exact hs.unfinished rfl rfl fun h => by simp [Finished] at h
  | pressDelete index =>
    obtain ⟨fact, _, rfl⟩ := Option.map_eq_some_iff.mp ht
    exact hs.unfinished rfl rfl fun h => by simp [Finished] at h
  | begin k =>
    obtain ⟨press, _, rfl⟩ := Option.map_eq_some_iff.mp ht
    exact hs.unfinished rfl rfl fun h => by simp [Finished] at h
  | edit k now =>
    obtain ⟨call, _, rfl⟩ := Option.map_eq_some_iff.mp ht
    split
    · exact hs.unfinished rfl rfl fun h => by simp [Finished] at h
    · exact hs.unfinished rfl rfl fun h => by simp [Finished] at h
  | serialise k =>
    simp only [step] at ht
    split at ht
    · rename_i call hentry
      obtain rfl := Option.some.inj ht
      have hk := (List.getElem?_eq_some_iff.mp hentry).1
      refine hs.unfinished rfl rfl fun ⟨_, _, hnone⟩ => ?_
      rw [List.set_eq_nil_iff] at hnone
      simp [hnone] at hk
    · cases ht
  | write k outcome => exact onFile_write hs hread ht
  | resume k => exact onFile_resume hs hsaved hin ht

/-- Along steady steps the rows are what the memory manager stores, whatever becomes of the saves;
and what is on file, too, where the last save of each group succeeds. -/
theorem steady_shows (gson : Gson) (manager : MemoryManager) (es : List Event) :
    (Machine.Meets (step gson) Steady (start manager) es →
      Machine.Always (step gson) ShowsStored (start manager) es) ∧
    ((load gson.userProfile {} manager.files.userProfile).facts = manager.userProfile.facts →
      Machine.Meets (step gson) (ReadBack gson) (start manager) es →
      Machine.Meets (step gson) (fun s e => Steady s e ∧ Saved s e) (start manager) es →
      Machine.Always (step gson) (fun s => ShowsStored s ∧ ShowsFile gson s) (start manager) es) := by
  constructor
  · exact Machine.always_of_meets (fun _ h => h.showsStored) (fun _ _ _ => inStep_step)
      (inStep_start manager)
  · intro hfile hread hsteady
    refine Machine.always_of_meets (I := fun s => s.InStep ∧ s.OnFile gson)
      (fun s h => ⟨h.1.showsStored, h.2.shows⟩) (fun s e t hs hok ht => ?_)
      ⟨inStep_start manager, onFile_start hfile⟩ (hsteady.and hread)
    have hin : t.InStep := inStep_step hs.1 hok.1.1 ht
    exact ⟨hin, onFile_step hs.2 hok.1.2 hok.2 hin ht⟩

/-- A profile with one fact, on file. -/
def oneFact : UserProfile := { facts := ["likes tea"] }

/-- It without the fact. -/
def noFact : UserProfile := { facts := [], lastUpdated := "t" }

def tabGson : Gson := sampleGson [oneFact, noFact] []

def savedFact : MemoryManager where
  userProfile := oneFact
  relationships := []
  reminders := {}
  memoryStats := {}
  files := ⟨some (tabGson.userProfile.toJson oneFact), none, none, none⟩

theorem tabGson_exact {p : UserProfile} (hp : p ∈ [oneFact, noFact]) :
    tabGson.userProfile.Exact p := by
  have hpre : ∀ p ∈ [oneFact, noFact], ∀ b ∈ [oneFact, noFact],
      b.json.pretty 0 <+: p.json.pretty 0 → b = p := by decide +kernel
  exact sampleCodec_exact hp (hpre p hp)

/-- The fact is deleted, and the profile saved without it. -/
def pressedOnce : List Event :=
  [.pressDelete 0, .begin 0, .edit 0 "t", .serialise 0, .write 0 .ok, .resume 0]

theorem pressedOnce_shows :
    Machine.Always (step tabGson) (fun s => ShowsStored s ∧ ShowsFile tabGson s) (start savedFact)
      pressedOnce := by
  refine (steady_shows tabGson savedFact pressedOnce).2 ?_ ?_ ?_
  · exact congrArg UserProfile.facts (load_toJson (tabGson_exact (List.mem_cons_self ..)))
  · refine ⟨trivial, fun t ht => ?_⟩
    cases ht
    refine ⟨trivial, fun t ht => ?_⟩
    cases ht
    refine ⟨trivial, fun t ht => ?_⟩
    cases ht
    refine ⟨trivial, fun t ht => ?_⟩
    cases ht
    refine ⟨fun call p hp => ?_, fun _ _ => ⟨trivial, fun _ _ => trivial⟩⟩
    obtain rfl : noFact = p := by
      cases hp
      rfl
    exact (tabGson_exact (List.mem_cons_of_mem _ (List.mem_singleton_self _))).inverts
  · refine ⟨⟨trivial, trivial⟩, fun t ht => ?_⟩
    cases ht
    refine ⟨⟨nofun, trivial⟩, fun t ht => ?_⟩
    cases ht
    refine ⟨⟨fun index fact hcall => ?_, trivial⟩, fun t ht => ?_⟩
    · cases hcall
      exact List.mem_singleton_self _
    cases ht
    refine ⟨⟨trivial, trivial⟩, fun t ht => ?_⟩
    cases ht
    refine ⟨⟨trivial, trivial⟩, fun t ht => ?_⟩
    cases ht
    exact ⟨⟨⟨rfl, nofun⟩, fun _ _ _ => rfl⟩, fun _ _ => trivial⟩

/-- The memory manager with two facts, and no files. -/
def twoFacts : MemoryManager where
  userProfile := { facts := ["likes tea", "likes coffee"] }
  relationships := []
  reminders := {}
  memoryStats := {}
  files := ⟨none, none, none, none⟩

/-- The first row's button is pressed twice before the row has gone. -/
def pressedTwice : List Event :=
  [.pressDelete 0, .pressDelete 0, .begin 0, .begin 0, .edit 0 "t", .edit 0 "t", .serialise 0,
    .write 0 .ok, .resume 0, .resume 0]

/-- The second deletion takes the other row, though both facts were not pressed. -/
theorem pressedTwice_shows_less :
    ¬Machine.Always (step (sampleGson [] [])) ShowsStored (start twoFacts) pressedTwice := by
  intro h
  have hshows := Machine.always_run h rfl
  have hsame := hshows.same ⟨rfl, rfl, rfl⟩
  cases hsame

end ProfileTab

end HeyNilo
