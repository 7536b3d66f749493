import HeyNilo.MemoryCompaction

open Machine

namespace HeyNilo

namespace MemoryCompaction

/-- What a summary counts for a file. -/
structure Tally where
  path : Text
  lastModified : Int
  exchanges : Nat
deriving DecidableEq, Repr

/-- The tally that a file is due. -/
def due (file : ConversationFile) : Tally :=
  ⟨file.path, file.lastModified, countExchanges file.content⟩

/-- The tally that a summary takes from a file as it finds it. -/
def tally (dir : ConversationDir) (unreadable : List Text) (path : Text) : Tally :=
  ⟨path, dir.lastModified path, ((readText dir unreadable path).map countExchanges).getD 0⟩

/-- The files that compaction has deleted, as they were, and what the last summary written for each
quarter was made from. -/
structure Ledger where
  deleted : List ConversationFile
  counted : Text → List Tally

def Ledger.next (g : Ledger) (s : MemoryCompaction) (e : Event) : Ledger :=
  match e, s.phase with
  | .summarise unreadable outcome, .processing ((quarter, files) :: _) =>
    match outcome.written with
    | .all =>
      { g with
        counted := Function.update g.counted quarter
          (files.map (tally s.conversations unreadable)) }
    | _ => g
  | .delete true, .deleting (path :: _) _ | .clean true, .cleaning (path :: _) =>
    { g with deleted := g.deleted ++ (s.conversations.lookup path).toList }
  | _, _ => g

/-- The summary's totals are those of the tallies. -/
def Totals (summary : QuarterSummary) (counted : List Tally) : Prop :=
  summary.totalConversations = counted.length ∧
    summary.totalExchanges = (counted.map (·.exchanges)).sum

/-- The summary of its quarter is there and accounts for the file. -/
def AccountsFor (calendar : Calendar) (s : MemoryCompaction) (g : Ledger)
    (file : ConversationFile) : Prop :=
  ∃ summary, s.archive (getQuarter calendar file.lastModified) = some (.written summary) ∧
    Totals summary (g.counted (getQuarter calendar file.lastModified)) ∧
    due file ∈ g.counted (getQuarter calendar file.lastModified)

/-- Every deleted file is accounted for. -/
def Accounted (calendar : Calendar) (x : MemoryCompaction × Ledger) : Prop :=
  ∀ file ∈ x.2.deleted, AccountsFor calendar x.1 x.2 file

def SummaryFile.isWritten : SummaryFile → Bool
  | .written _ => true
  | .torn => false

/-- A deleted file has been counted, as it is, by the summary of its quarter that is there. -/
def countedBefore (calendar : Calendar) (s : MemoryCompaction) (g : Ledger) (path : Text) : Bool :=
  (s.conversations.lookup path).all fun file =>
    (s.archive (getQuarter calendar file.lastModified)).any SummaryFile.isWritten &&
      decide (due file ∈ g.counted (getQuarter calendar file.lastModified))

/-- A step that writes a summary counts again the files of the quarter deleted before, one that
tears it finds none deleted, and a deleted file has been counted. -/
def countsDeleted (calendar : Calendar) (x : MemoryCompaction × Ledger) (e : Event) : Bool :=
  match e, x.1.phase with
  | .summarise unreadable outcome, .processing ((quarter, files) :: _) =>
    match outcome.written with
    | .nothing => true
    | .part => x.2.deleted.all fun file => getQuarter calendar file.lastModified ≠ quarter
    | .all => x.2.deleted.all fun file =>
      getQuarter calendar file.lastModified ≠ quarter ||
        decide (due file ∈ files.map (tally x.1.conversations unreadable))
  | .delete true, .deleting (path :: _) _ => countedBefore calendar x.1 x.2 path
  | .clean true, .cleaning (path :: _) => countedBefore calendar x.1 x.2 path
  | _, _ => true

structure CompactionInv (calendar : Calendar) (x : MemoryCompaction × Ledger) : Prop where
  accounted : Accounted calendar x
  totals : ∀ quarter summary, x.1.archive quarter = some (.written summary) →
    Totals summary (x.2.counted quarter)

theorem totals_generateQuarterSummary (calendar : Calendar) (dir : ConversationDir)
    (unreadable : List Text) (quarter : Text) (files : List Text) :
    Totals (generateQuarterSummary calendar dir unreadable quarter files)
      (files.map (tally dir unreadable)) := by
  constructor
  · simp [generateQuarterSummary]
  · simp [generateQuarterSummary, tally, Function.comp_def]

theorem accountsFor_iff {calendar : Calendar} {s : MemoryCompaction} {g : Ledger}
    (h : CompactionInv calendar (s, g)) (file : ConversationFile) :
    AccountsFor calendar s g file ↔
      (s.archive (getQuarter calendar file.lastModified)).any SummaryFile.isWritten = true ∧
        due file ∈ g.counted (getQuarter calendar file.lastModified) := by
  constructor
  · intro ⟨summary, harchive, _, hdue⟩
    exact ⟨by simp [harchive, SummaryFile.isWritten], hdue⟩
  · intro ⟨hwritten, hdue⟩
    cases harchive : s.archive (getQuarter calendar file.lastModified) with
    | none => simp [harchive] at hwritten
    | some summaryFile =>
      cases summaryFile with
      | torn => simp [harchive, SummaryFile.isWritten] at hwritten
      | written summary => exact ⟨summary, harchive, h.totals _ summary harchive, hdue⟩

theorem CompactionInv.frame {calendar : Calendar} {s t : MemoryCompaction} {g : Ledger}
    (h : CompactionInv calendar (s, g)) (harchive : t.archive = s.archive) :
    CompactionInv calendar (t, g) := by
  obtain ⟨haccounted, htotals⟩ := h
  constructor
  · intro file hfile
    have hold := haccounted file hfile
    unfold AccountsFor at hold ⊢
    rw [harchive]
    exact hold
  · show ∀ quarter summary, t.archive quarter = some (.written summary) → _
    rw [harchive]
    exact htotals

theorem deleteFile_archive (s : MemoryCompaction) (path : Text) (counts : Nat) :
    (s.deleteFile path counts).archive = s.archive := by
  unfold deleteFile
  split <;> rfl

theorem summarise_archive (calendar : Calendar) (s : MemoryCompaction) (unreadable : List Text)
    (outcome : SaveOutcome) (quarter : Text) (files : List Text)
    (todo : List (Text × List Text)) :
    (s.summarise calendar unreadable outcome quarter files todo).archive =
      Function.update s.archive quarter (saveQuarterlySummary (s.archive quarter)
        (generateQuarterSummary calendar s.conversations unreadable quarter files)
        outcome.written) := by
  cases outcome <;> rfl

/-- A deletion: the file has to be accounted for before. -/
theorem accounted_delete_iff {calendar : Calendar} {s t : MemoryCompaction} {g : Ledger}
    {path : Text} (h : CompactionInv calendar (s, g)) (harchive : t.archive = s.archive) :
    Accounted calendar
        (t, { g with deleted := g.deleted ++ (s.conversations.lookup path).toList }) ↔
      countedBefore calendar s g path = true := by
  have hsame (file : ConversationFile) :
      AccountsFor calendar t
          { g with deleted := g.deleted ++ (s.conversations.lookup path).toList } file ↔
        AccountsFor calendar s g file := by
    unfold AccountsFor
    rw [harchive]
  unfold Accounted countedBefore
  simp only [hsame, List.mem_append, Option.mem_toList]
  constructor
  · intro hall
    cases hfile : s.conversations.lookup path with
    | none => rfl
    | some file =>
      have hcounted := (accountsFor_iff h file).mp (hall file (Or.inr hfile))
      simpa using hcounted
  · intro hcounted file hfile
    rcases hfile with hfile | hfile
    · exact h.accounted file hfile
    · rw [hfile] at hcounted
      exact (accountsFor_iff h file).mpr (by simpa using hcounted)

/-- A summary saved in full: what it was made from replaces what its quarter had. -/
theorem accounted_all_iff {calendar : Calendar} {s t : MemoryCompaction} {g : Ledger}
    {quarter : Text} {summary : QuarterSummary} {counted : List Tally}
    (h : CompactionInv calendar (s, g)) (htotals : Totals summary counted)
    (harchive : t.archive = Function.update s.archive quarter (some (.written summary))) :
    Accounted calendar (t, { g with counted := Function.update g.counted quarter counted }) ↔
      ∀ file ∈ g.deleted,
        getQuarter calendar file.lastModified ≠ quarter ∨ due file ∈ counted := by
  refine forall₂_congr fun file hfile => ?_
  unfold AccountsFor
  rw [harchive]
  by_cases hquarter : getQuarter calendar file.lastModified = quarter
  · rw [hquarter]
    simp [htotals]
  · have hold := h.accounted file hfile
    unfold AccountsFor at hold
    simp only [Function.update_of_ne hquarter]
    exact ⟨fun _ => Or.inl hquarter, fun _ => hold⟩

theorem accounted_part_iff {calendar : Calendar} {s t : MemoryCompaction} {g : Ledger}
    {quarter : Text} (h : CompactionInv calendar (s, g))
    (harchive : t.archive = Function.update s.archive quarter (some .torn)) :
    Accounted calendar (t, g) ↔
      ∀ file ∈ g.deleted, getQuarter calendar file.lastModified ≠ quarter := by
  refine forall₂_congr fun file hfile => ?_
  unfold AccountsFor
  rw [harchive]
  by_cases hquarter : getQuarter calendar file.lastModified = quarter
  · simp [hquarter]
  · have hold := h.accounted file hfile
    unfold AccountsFor at hold
    simp only [Function.update_of_ne hquarter]
    exact ⟨fun _ => hquarter, fun _ => hold⟩

theorem totals_update {s t : MemoryCompaction} {g : Ledger} {calendar : Calendar} {quarter : Text}
    {summary : QuarterSummary} {counted : List Tally} (h : CompactionInv calendar (s, g))
    (htotals : Totals summary counted)
    (harchive : t.archive = Function.update s.archive quarter (some (.written summary)))
    (q : Text) (present : QuarterSummary) (hpresent : t.archive q = some (.written present)) :
    Totals present (Function.update g.counted quarter counted q) := by
  rw [harchive] at hpresent
  by_cases hq : q = quarter
  · subst hq
    simp only [Function.update_self, Option.some.injEq, SummaryFile.written.injEq] at hpresent ⊢
    rw [← hpresent]
    exact htotals
  · rw [Function.update_of_ne hq] at hpresent ⊢
    exact h.totals q present hpresent

/-- What a step does to the accounts. -/
def StepAccounts (calendar : Calendar) (s : MemoryCompaction) (g : Ledger) (e : Event)
    (t : MemoryCompaction) : Prop :=
  (Accounted calendar (t, g.next s e) ↔ countsDeleted calendar (s, g) e = true) ∧
    ∀ quarter summary, t.archive quarter = some (.written summary) →
      Totals summary ((g.next s e).counted quarter)

theorem CompactionInv.stepAccounts_frame {calendar : Calendar} {s t : MemoryCompaction}
    {g : Ledger} {e : Event} (h : CompactionInv calendar (s, g)) (harchive : t.archive = s.archive)
    (hnext : g.next s e = g) (hok : countsDeleted calendar (s, g) e = true) :
    StepAccounts calendar s g e t := by
  have hinv : CompactionInv calendar (t, g) := h.frame harchive
  refine ⟨?_, ?_⟩
  · rw [hnext]
    exact ⟨fun _ => hok, fun _ => hinv.accounted⟩
  · rw [hnext]
    exact hinv.totals

theorem CompactionInv.stepAccounts_delete {calendar : Calendar} {s t : MemoryCompaction}
    {g : Ledger} {e : Event} (path : Text) (h : CompactionInv calendar (s, g))
    (harchive : t.archive = s.archive)
    (hnext : g.next s e =
      { g with deleted := g.deleted ++ (s.conversations.lookup path).toList })
    (hok : countsDeleted calendar (s, g) e = countedBefore calendar s g path) :
    StepAccounts calendar s g e t := by
  refine ⟨?_, ?_⟩
  · rw [hnext, hok]
    exact accounted_delete_iff h harchive
  · rw [hnext, harchive]
    exact h.totals

theorem CompactionInv.stepAccounts_summarise {calendar : Calendar} {s : MemoryCompaction}
    {g : Ledger} {unreadable : List Text} {outcome : SaveOutcome} {quarter : Text}
    {files : List Text} {todo : List (Text × List Text)} (h : CompactionInv calendar (s, g))
    (hp : s.phase = .processing ((quarter, files) :: todo)) :
    StepAccounts calendar s g (.summarise unreadable outcome)
      (s.summarise calendar unreadable outcome quarter files todo) := by
  have harchive := summarise_archive calendar s unreadable outcome quarter files todo
  have htotals := totals_generateQuarterSummary calendar s.conversations unreadable quarter files
  cases hwritten : outcome.written with
  | nothing =>
    rw [hwritten] at harchive
    have hsame : (s.summarise calendar unreadable outcome quarter files todo).archive =
        s.archive := by
      rw [harchive]
      exact Function.update_eq_self quarter s.archive
    exact h.stepAccounts_frame hsame (by simp [Ledger.next, hp, hwritten])
      (by simp [countsDeleted, hp, hwritten])
  | part =>
    rw [hwritten] at harchive
    have hnext : g.next s (.summarise unreadable outcome) = g := by
      simp [Ledger.next, hp, hwritten]
    refine ⟨?_, ?_⟩
    · rw [hnext, accounted_part_iff h harchive]
      simp [countsDeleted, hp, hwritten]
    · intro q present hpresent
      rw [hnext]
      rw [harchive] at hpresent
      by_cases hq : q = quarter
      · subst hq
        simp [saveQuarterlySummary] at hpresent
      · rw [Function.update_of_ne hq] at hpresent
        exact h.totals q present hpresent
  | all =>
    rw [hwritten] at harchive
    have hnext : g.next s (.summarise unreadable outcome) =
        { g with
          counted := Function.update g.counted quarter
            (files.map (tally s.conversations unreadable)) } := by
      simp [Ledger.next, hp, hwritten]
    refine ⟨?_, ?_⟩
    · rw [hnext, accounted_all_iff h htotals harchive]
      simp [countsDeleted, hp, hwritten]
    · rw [hnext]
      exact totals_update h htotals harchive

theorem CompactionInv.step {calendar : Calendar} {s t : MemoryCompaction} {g : Ledger} {e : Event}
    (h : CompactionInv calendar (s, g)) (hs : s.step calendar e = some t) :
    StepAccounts calendar s g e t := by
  cases e with
  | write file =>
    cases Option.some.inj hs
    exact h.stepAccounts_frame rfl rfl rfl
  | start now =>
    simp only [MemoryCompaction.step] at hs
    split at hs <;> cases hs
    exact h.stepAccounts_frame rfl rfl rfl
  | summarise unreadable outcome =>
    simp only [MemoryCompaction.step] at hs
    split at hs
    next quarter files todo hp =>
      cases hs
      exact h.stepAccounts_summarise hp
    next => cases hs
  | delete deleted =>
    simp only [MemoryCompaction.step] at hs
    split at hs
    next path files todo hp =>
      cases hs
      cases deleted with
      | false => exact h.stepAccounts_frame rfl (by simp [Ledger.next]) rfl
      | true =>
        exact h.stepAccounts_delete path (deleteFile_archive s path 1) (by simp [Ledger.next, hp])
          (by simp [countsDeleted, hp])
    next todo hp =>
      split at hs <;> cases hs
      next hdeleted =>
      rw [Bool.not_eq_true] at hdeleted
      subst hdeleted
      exact h.stepAccounts_frame rfl (by simp [Ledger.next]) rfl
    next => cases hs
  | cleanUp now =>
    simp only [MemoryCompaction.step] at hs
    split at hs <;> cases hs
    exact h.stepAccounts_frame rfl rfl rfl
  | clean deleted =>
    simp only [MemoryCompaction.step] at hs
    split at hs
    next path files hp =>
      cases hs
      cases deleted with
      | false => exact h.stepAccounts_frame rfl (by simp [Ledger.next]) rfl
      | true =>
        exact h.stepAccounts_delete path (deleteFile_archive s path 0) (by simp [Ledger.next, hp])
          (by simp [countsDeleted, hp])
    next => cases hs
  | finish =>
    simp only [MemoryCompaction.step] at hs
    split at hs <;> cases hs
    exact h.stepAccounts_frame rfl rfl rfl

/-- A calendar for the times of January 1970. -/
def january1970 : Calendar where
  year := fun _ => 1970
  month := fun _ => 0
  formatDate := fun time =>
    let day := time / 86400000 + 1
    "1970-01-".toList ++ (if day < 10 then ['0'] else []) ++ (toString day).toList

def firstDay : ConversationFile :=
  ⟨"1970/01/1970-01-01.md".toList, 0, "**User:** hi".toList, 12⟩

def secondDay : ConversationFile :=
  ⟨"1970/01/1970-01-02.md".toList, 86400000, "**User:** ho".toList, 12⟩

def twoDays : ConversationDir := ⟨[firstDay, secondDay], by decide⟩

/-- A whole compaction at the time `now`, with one file to archive. -/
def archiveOne (now : Int) : List Event :=
  [.start now, .summarise [] .saved, .delete true, .delete false, .cleanUp now, .finish]

end MemoryCompaction

end HeyNilo
