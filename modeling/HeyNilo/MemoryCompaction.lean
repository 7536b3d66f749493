import HeyNilo.KotlinText
import HeyNilo.Machine
import Mathlib.Algebra.Order.Ring.Nat
import Mathlib.Data.List.Sort
import Mathlib.Logic.Function.Basic

namespace HeyNilo

/-- A file under `memory/conversations`; its path is relative to that directory. -/
structure ConversationFile where
  path : Text
  lastModified : Int
  content : Text
  length : Nat
deriving DecidableEq, Repr

/-- The directory `memory/conversations`, in the order of `walkTopDown`. -/
structure ConversationDir where
  files : List ConversationFile
  distinct : (files.map (·.path)).Nodup
deriving DecidableEq

namespace ConversationDir

def lookup (dir : ConversationDir) (path : Text) : Option ConversationFile :=
  dir.files.find? (·.path = path)

theorem distinct_filter {files : List ConversationFile} (h : (files.map (·.path)).Nodup)
    (keep : ConversationFile → Bool) : ((files.filter keep).map (·.path)).Nodup :=
  h.sublist (List.filter_sublist.map _)

def delete (dir : ConversationDir) (path : Text) : ConversationDir where
  files := dir.files.filter (·.path ≠ path)
  distinct := distinct_filter dir.distinct _

/-- A file is created or written again. -/
def write (dir : ConversationDir) (file : ConversationFile) : ConversationDir where
  files := dir.files.filter (·.path ≠ file.path) ++ [file]
  distinct := by
    rw [List.map_append, List.nodup_append]
    refine ⟨distinct_filter dir.distinct _, by simp, ?_⟩
    intro path hpath last hlast heq
    obtain ⟨f, hf, rfl⟩ := List.mem_map.mp hpath
    have hne := (List.mem_filter.mp hf).2
    simp_all

/-- `File.lastModified()`. -/
def lastModified (dir : ConversationDir) (path : Text) : Int :=
  ((dir.lookup path).map (·.lastModified)).getD 0

end ConversationDir

namespace MemoryCompaction

def retentionDays : Int := 365

def archiveCutoffDays : Int := 730

structure QuarterSummary where
  quarter : Text
  totalConversations : Nat
  totalExchanges : Nat
  topics : List Text
  dateRange : Text
deriving DecidableEq, Repr

/-- A file `<quarter>-summary.md`: the summary that it renders, or a part of one. -/
inductive SummaryFile where
  | written (summary : QuarterSummary)
  | torn
deriving DecidableEq, Repr

/-- How far a failed write of the summary came. -/
inductive Written where
  | nothing
  | part
  | all
deriving DecidableEq, Repr

inductive SaveOutcome where
  | saved
  | failed (written : Written) (message : Option Text)
deriving DecidableEq, Repr

def SaveOutcome.written : SaveOutcome → Written
  | .saved => .all
  | .failed written _ => written

structure CompactionResult where
  success : Bool
  filesArchived : Nat
  bytesFreed : Nat
  quartersArchived : List Text
  errors : List Text
deriving DecidableEq, Repr

/-- Where `performCompaction` stands: at the next quarter of step 3, deleting the files of one, or
in step 4. -/
inductive Phase where
  | idle
  | processing (todo : List (Text × List Text))
  | deleting (files : List Text) (todo : List (Text × List Text))
  | cleaning (files : List Text)
deriving DecidableEq, Repr

/-- A write of a conversation file, and the steps of `performCompaction`. -/
inductive Event where
  | write (file : ConversationFile)
  | start (now : Int)
  | summarise (unreadable : List Text) (outcome : SaveOutcome)
  | delete (deleted : Bool)
  | cleanUp (now : Int)
  | clean (deleted : Bool)
  | finish
deriving DecidableEq, Repr

def extension (path : Text) : Text :=
  substringAfterLast '.' [] (substringAfterLast '/' path path)

/-- `findConversationsOlderThan` at the time `now`. -/
def findConversationsOlderThan (dir : ConversationDir) (days now : Int) : List ConversationFile :=
  let cutoffTime := now - days * 24 * 60 * 60 * 1000
  dir.files.filter fun file =>
    extension file.path = "md".toList && !containsText "/archive/".toList ('/' :: file.path) &&
      file.lastModified < cutoffTime

/-- The calendar of the device: year and month (0 to 11) of a time, and its date as text. -/
structure Calendar where
  year : Int → Int
  month : Int → Nat
  formatDate : Int → Text

def getQuarter (calendar : Calendar) (lastModified : Int) : Text :=
  let month := calendar.month lastModified
  let quarter := if month ≤ 2 then "Q1" else if month ≤ 5 then "Q2" else if month ≤ 8 then "Q3"
    else "Q4"
  (toString (calendar.year lastModified)).toList ++ "-".toList ++ quarter.toList

/-- `groupBy { getQuarter(it) }`, with the files by their paths. -/
def byQuarter (calendar : Calendar) (files : List ConversationFile) : List (Text × List Text) :=
  let quarters := (files.map fun file => getQuarter calendar file.lastModified).eraseDups
  quarters.map fun quarter =>
    (quarter,
      (files.filter fun file => getQuarter calendar file.lastModified = quarter).map (·.path))

def topicKeywords : List (String × List String) :=
  [("work", ["work", "job", "office", "meeting", "project", "deadline"]),
    ("family", ["family", "mom", "dad", "mother", "father", "sister", "brother"]),
    ("food", ["food", "eat", "restaurant", "cooking", "recipe", "dinner", "lunch"]),
    ("health", ["health", "doctor", "medicine", "sick", "appointment"]),
    ("travel", ["travel", "trip", "vacation", "flight", "hotel", "booking"]),
    ("shopping", ["shopping", "buy", "purchase", "store", "amazon"]),
    ("technology", ["phone", "computer", "app", "software", "internet"]),
    ("entertainment", ["movie", "music", "game", "show", "netflix"])]

def extractTopics (content : Text) : List Text :=
  (topicKeywords.filter fun topic =>
    topic.2.any fun keyword => containsText keyword.toList (lowercase content)).map (·.1.toList)

/-- The exchanges that `generateQuarterSummary` counts in a text. -/
def countExchanges (content : Text) : Nat := occurrences "**User:**".toList content

def getDateRange (calendar : Calendar) (dates : List Int) : Text :=
  match dates.insertionSort (· ≤ ·) with
  | [] => []
  | oldest :: dates =>
    calendar.formatDate oldest ++ " to ".toList ++
      calendar.formatDate ((oldest :: dates).getLast (List.cons_ne_nil _ _))

/-- `readText`: none where it throws. -/
def readText (dir : ConversationDir) (unreadable : List Text) (path : Text) : Option Text :=
  if path ∈ unreadable then none else (dir.lookup path).map (·.content)

def generateQuarterSummary (calendar : Calendar) (dir : ConversationDir) (unreadable : List Text)
    (quarter : Text) (files : List Text) : QuarterSummary where
  quarter := quarter
  totalConversations := files.length
  totalExchanges :=
    (files.map fun path => ((readText dir unreadable path).map countExchanges).getD 0).sum
  topics := ((files.filterMap (readText dir unreadable)).flatMap extractTopics).eraseDups.take 20
  dateRange := getDateRange calendar (files.map dir.lastModified)

/-- `<quarter>-summary.md` after `saveQuarterlySummary`. -/
def saveQuarterlySummary (old : Option SummaryFile) (summary : QuarterSummary) :
    Written → Option SummaryFile
  | .nothing => old
  | .part => some .torn
  | .all => some (.written summary)

end MemoryCompaction

open MemoryCompaction in
/-- The conversations, the archived summaries by quarter, and the run of `performCompaction` under
way with its result so far. -/
structure MemoryCompaction where
  conversations : ConversationDir
  archive : Text → Option SummaryFile
  phase : Phase
  result : CompactionResult

namespace MemoryCompaction

def start (conversations : ConversationDir) : MemoryCompaction where
  conversations := conversations
  archive := fun _ => none
  phase := .idle
  result := ⟨true, 0, 0, [], []⟩

/-- The next quarter: its summary is generated and saved, and only then are its files deleted. -/
def summarise (calendar : Calendar) (s : MemoryCompaction) (unreadable : List Text)
    (outcome : SaveOutcome) (quarter : Text) (files : List Text)
    (todo : List (Text × List Text)) : MemoryCompaction :=
  let summary := generateQuarterSummary calendar s.conversations unreadable quarter files
  let s := { s with
    archive := Function.update s.archive quarter
      (saveQuarterlySummary (s.archive quarter) summary outcome.written) }
  match outcome with
  | .saved =>
    { s with
      phase := .deleting files todo
      result := { s.result with quartersArchived := s.result.quartersArchived ++ [quarter] } }
  | .failed _ message =>
    { s with
      phase := .processing todo
      result := { s.result with
        errors := s.result.errors ++ [quarter ++ ": ".toList ++ message.getD "null".toList] } }

/-- `file.delete()` of step 3 or of step 4, which counts the file or only its bytes. -/
def deleteFile (s : MemoryCompaction) (path : Text) (counts : Nat) : MemoryCompaction :=
  match s.conversations.lookup path with
  | some file =>
    { s with
      conversations := s.conversations.delete path
      result := { s.result with
        filesArchived := s.result.filesArchived + counts
        bytesFreed := s.result.bytesFreed + file.length } }
  | none => s

def step (calendar : Calendar) (s : MemoryCompaction) : Event → Option MemoryCompaction
  | .write file => some { s with conversations := s.conversations.write file }
  | .start now =>
    match s.phase with
    | .idle =>
      let oldConversations := findConversationsOlderThan s.conversations retentionDays now
      some { s with
        phase := .processing (byQuarter calendar oldConversations)
        result := ⟨true, 0, 0, [], []⟩ }
    | _ => none
  | .summarise unreadable outcome =>
    match s.phase with
    | .processing ((quarter, files) :: todo) =>
      some (s.summarise calendar unreadable outcome quarter files todo)
    | _ => none
  | .delete deleted =>
    match s.phase with
    | .deleting (path :: files) todo =>
      let s := if deleted then s.deleteFile path 1 else s
      some { s with phase := .deleting files todo }
    | .deleting [] todo => if deleted then none else some { s with phase := .processing todo }
    | _ => none
  | .cleanUp now =>
    match s.phase with
    | .processing [] =>
      let veryOldFiles := findConversationsOlderThan s.conversations archiveCutoffDays now
      some { s with phase := .cleaning (veryOldFiles.map (·.path)) }
    | _ => none
  | .clean deleted =>
    match s.phase with
    | .cleaning (path :: files) =>
      let s := if deleted then s.deleteFile path 0 else s
      some { s with phase := .cleaning files }
    | _ => none
  | .finish =>
    match s.phase with
    | .cleaning [] => some { s with phase := .idle }
    | _ => none

end MemoryCompaction

end HeyNilo
