import HeyNilo.CapturePattern
import HeyNilo.MemoryManager
import HeyNilo.MemoryRaces
import HeyNilo.ReplyFilter
import HeyNilo.StreamingSpeech

namespace HeyNilo

open CapturePattern

/-- What the standard library and the regular expressions take from the Unicode tables. -/
structure CharacterTables where
  lowercase : Text → Text
  uppercase : Char → Text
  /-- `\w` -/
  isWord : Char → Bool
  /-- `\d` -/
  isDecimal : Char → Bool

namespace MemoryExtractionHelper

def personalIndicators : List String := [
  "my name is", "i am", "i'm", "i live", "i work", "my ",
  "call me", "remind me", "don't forget", "remember to",
  "my mom", "my dad", "my friend", "my brother", "my sister",
  "birthday", "anniversary", "meeting", "appointment"]

/-- The assistant's message is not looked at. -/
def isWorthExtracting (tables : CharacterTables) (userMessage _assistantMessage : Text) : Bool :=
  if utf16Length userMessage < 10 then false
  else personalIndicators.any fun indicator =>
    containsText indicator.toList (tables.lowercase userMessage)

/-- Two facts of which one contains the other, in lower case and trimmed. -/
def similar (tables : CharacterTables) (existing newFact : String) : Bool :=
  let newNormalized := trim (tables.lowercase newFact.toList)
  let existingNormalized := trim (tables.lowercase existing.toList)
  existingNormalized == newNormalized || containsText newNormalized existingNormalized ||
    containsText existingNormalized newNormalized

/-- The new facts are compared with the existing ones, not among each other. -/
def deduplicateFacts (tables : CharacterTables) (existingFacts newFacts : List String) :
    List String :=
  newFacts.filter fun newFact => !existingFacts.any fun existing => similar tables existing newFact

end MemoryExtractionHelper

/-- `UUID.randomUUID()` enters as `uuid`. -/
def generateId (kind uuid : String) : String := kind ++ "_" ++ String.ofList (uuid.toList.take 8)

namespace MemoryExtraction

abbrev Pattern := CapturePattern Char

/-- A text as it stands under `IGNORE_CASE`. -/
def text (s : String) : Pattern := inOrder ((TextFilter.letters s).map .item)

def many (accepts : Char → Bool) (least : Nat) : Pattern := .item (TextFilter.many accepts least)

/-- `([^,.]+)`, as the group with this number. -/
def clause (number : Nat) : Pattern := .group number (many (fun c => c != ',' && c != '.') 1)

/-- `replaceFirstChar { it.uppercase() }`; the first unit of a surrogate pair stays as it is. -/
def capitalize (tables : CharacterTables) : Text → Text
  | [] => []
  | c :: s => (if c.toNat < 0x10000 then tables.uppercase c else [c]) ++ s

/-- `replace(Regex("^i ", IGNORE_CASE), "")` -/
def withoutI (s : Text) : Text :=
  match matchFront (text "i ") s with
  | some m => s.drop m.value.length
  | none => s

/-- The first group of the first match. -/
def firstGroup (message : Text) (p : Pattern) : Option Text := (find p message).bind (·.group 1)

def namePatterns (tables : CharacterTables) : List Pattern := [
  inOrder [text "my name is ", .group 1 (many tables.isWord 1)],
  inOrder [text "i am ", .group 1 (many tables.isWord 1), many isPatternSpace 0, maybe (text ","),
    many isPatternSpace 0, maybe (.group 2 (many tables.isDecimal 1))],
  inOrder [text "call me ", .group 1 (many tables.isWord 1)],
  inOrder [text "i'm ", .group 1 (many tables.isWord 1)]]

def noNames : List String := ["the", "and", "but", "here", "there"]

def nameFact (name : Text) : Option String :=
  if utf16Length name > 2 && !noNames.any fun w => w.toList == name
  then some ("Name is " ++ String.ofList name) else none

def agePatterns (tables : CharacterTables) : List Pattern :=
  let age := inOrder [.group 1 (many tables.isDecimal 1), text " year", maybe (text "s"), text " old"]
  [inOrder [text "i am ", age], inOrder [text "i'm ", age], age]

def ageFact (age : Text) : Option String := some (String.ofList age ++ " years old")

def locationPatterns : List Pattern :=
  [inOrder [text "i live in ", clause 1], inOrder [text "i am from ", clause 1],
    inOrder [text "i'm from ", clause 1]]

def locationFact (location : Text) : Option String := some ("Lives in " ++ String.ofList location)

def jobPatterns : List Pattern :=
  let article := oneOf [text "a", text "an"]
  [inOrder [text "i work as ", article, text " ", clause 1],
    inOrder [text "i am ", article, text " ", clause 1],
    inOrder [text "i'm ", article, text " ", clause 1], inOrder [text "i work at ", clause 1]]

def jobFact (job : Text) : Option String :=
  if utf16Length job > 3 then some ("Works as " ++ String.ofList job) else none

def preferencePatterns : List Pattern :=
  [inOrder [text "i ", oneOf [text "like", text "love", text "enjoy"], text " ", clause 1],
    inOrder [text "my favorite ", clause 1, text " is ", clause 2],
    inOrder [text "i prefer ", clause 1]]

/-- The whole match is the fact, less a leading `i`. -/
def preferenceFact (tables : CharacterTables) (fullMatch : Text) : Option String :=
  if utf16Length fullMatch > 10 && utf16Length fullMatch < 100
  then some (String.ofList (capitalize tables (withoutI fullMatch))) else none

def extractFactsRuleBased (tables : CharacterTables) (message : Text) : List String :=
  let facts :=
    (namePatterns tables).filterMap (fun p => (firstGroup message p).bind nameFact) ++
    (agePatterns tables).filterMap (fun p => (firstGroup message p).bind ageFact) ++
    locationPatterns.filterMap (fun p => (firstGroup message p).bind locationFact) ++
    jobPatterns.filterMap (fun p => (firstGroup message p).bind jobFact) ++
    preferencePatterns.filterMap fun p =>
      (find p message).bind fun m => preferenceFact tables m.value
  facts.eraseDups

/-- `my … (?:is|name is) ([^,.]+)` -/
def relativePattern (names : List String) : Pattern :=
  inOrder [text "my ", oneOf (names.map text), text " ", oneOf [text "is", text "name is"], text " ",
    clause 1]

def familyPatterns : List (Pattern × String) := [
  (relativePattern ["mom", "mother"], "mother"),
  (relativePattern ["dad", "father"], "father"),
  (relativePattern ["sister"], "sister"),
  (relativePattern ["brother"], "brother"),
  (relativePattern ["wife"], "wife"),
  (relativePattern ["husband"], "husband"),
  (relativePattern ["child", "son", "daughter"], "child")]

def familyMember (message : Text) (entry : Pattern × String) : Option (String × Text) :=
  (firstGroup message entry.1).bind fun name =>
    if utf16Length name > 2 && !containsText "name".toList name
    then some (entry.2, trim name) else none

def friend (m : Match Char) : Option (String × Text) :=
  (m.group 1).bind fun name => if utf16Length name > 2 then some ("friend", trim name) else none

/-- The relations and names that `extractRelationshipsRuleBased` finds. -/
def relationsFound (message : Text) : List (String × Text) :=
  familyPatterns.filterMap (familyMember message) ++
    (findAll (relativePattern ["friend"]) message).filterMap friend

/-- The `i`-th one found takes its id from the UUID `uuid i`. -/
def extractRelationshipsRuleBased (uuid : Nat → String) (message : Text) : List Relationship :=
  (relationsFound message).mapIdx fun i found =>
    { id := generateId "rel" (uuid i)
      relation := some found.1
      name := some (String.ofList found.2) }

def remindPatterns : List Pattern :=
  ["remind me to ", "don't forget to ", "remember to ", "i need to "].map fun words =>
    inOrder [text words, clause 1]

/-- A reminder without its id. -/
structure Task where
  type : ReminderType
  text : Text
  targetPerson : Option Text := none

def Task.reminder (task : Task) (uuid : String) : Reminder where
  id := generateId "rem" uuid
  type := task.type
  text := String.ofList task.text
  targetPerson := task.targetPerson.map String.ofList

def containsIgnoreCase (words : String) (s : Text) : Bool :=
  (indexOfIgnoreCase words.toList s).isSome

def taskType (task : Text) : ReminderType :=
  if containsIgnoreCase "call" task then .call
  else if containsIgnoreCase "text" task || containsIgnoreCase "message" task then .messageSms
  else .reminder

def remindTask (m : Match Char) : Option Task :=
  (m.group 1).bind fun task =>
    if utf16Length task > 5 then some { type := taskType task, text := trim task } else none

def callPattern : Pattern :=
  inOrder [text "call ", clause 1, text " ", maybe (oneOf [text "at", text "on", text "about"])]

def callTask (m : Match Char) : Option Task :=
  (m.group 1).bind fun target =>
    if utf16Length target > 2 && utf16Length target < 50 then
      some { type := .call, text := "Call ".toList ++ target, targetPerson := some (trim target) }
    else none

/-- The tasks that `extractRemindersRuleBased` finds. -/
def tasksFound (message : Text) : List Task :=
  remindPatterns.flatMap (fun p => (findAll p message).filterMap remindTask) ++
    (findAll callPattern message).filterMap callTask

/-- The `i`-th one found takes its id from the UUID `uuid i`; of several with one text the first
stays. -/
def extractRemindersRuleBased (tables : CharacterTables) (uuid : Nat → String) (message : Text) :
    List Reminder :=
  let reminders := (tasksFound message).mapIdx fun i task => task.reminder (uuid i)
  reminders.eraseDupsBy fun a b =>
    tables.lowercase a.text.toList == tables.lowercase b.text.toList

variable {message : Text}

theorem firstGroup_piece {p : Pattern} {w : Text} (h : firstGroup message p = some w) :
    w <:+: message := by
  obtain ⟨m, hm, hw⟩ := Option.bind_eq_some_iff.mp h
  exact (find_within hm).group hw

/-- A name that is found is a piece of the message, trimmed. -/
theorem relationsFound_piece {found : String × Text} (h : found ∈ relationsFound message) :
    ∃ w, w <:+: message ∧ found.2 = trim w := by
  rcases List.mem_append.mp h with hfamily | hfriend
  · obtain ⟨entry, -, hmember⟩ := List.mem_filterMap.mp hfamily
    obtain ⟨w, hw, hkept⟩ := Option.bind_eq_some_iff.mp hmember
    obtain ⟨-, hfound⟩ := Option.ite_none_right_eq_some.mp hkept
    cases Option.some.inj hfound
    exact ⟨w, firstGroup_piece hw, rfl⟩
  · obtain ⟨m, hm, hmember⟩ := List.mem_filterMap.mp hfriend
    obtain ⟨w, hw, hkept⟩ := Option.bind_eq_some_iff.mp hmember
    obtain ⟨-, hfound⟩ := Option.ite_none_right_eq_some.mp hkept
    cases Option.some.inj hfound
    exact ⟨w, (findAll_within hm).group hw, rfl⟩

end MemoryExtraction

namespace MemoryManager

open JsonFile MemoryExtraction MemoryExtractionHelper

/-- The time a call takes down and what becomes of its save. -/
structure Saving where
  now : String
  outcome : WriteOutcome

/-- What one `extractAndSave` gets from its surroundings; the `i`-th of several calls gets the
`i`-th value. -/
structure Surroundings where
  relationshipUuid : Nat → String
  reminderUuid : Nat → String
  fact : Nat → Saving
  relationship : Nat → Saving
  reminder : Nat → Saving
  stats : Saving

/-- `forEach` of calls that save. -/
def forEach {α : Type} (call : MemoryManager → Saving → α → MemoryManager) (savings : Nat → Saving)
    (s : MemoryManager) (items : List α) : MemoryManager :=
  items.zipIdx.foldl (fun s item => call s (savings item.2) item.1) s

def saveFact (gson : Gson) (s : MemoryManager) (saving : Saving) (fact : String) : MemoryManager :=
  (s.addFact gson saving.now fact saving.outcome).2

/-- The `exists` test for people: a stored one has this name and relation. -/
def knowsRelationship (tables : CharacterTables) (s : MemoryManager) (rel : Relationship) : Bool :=
  let lower := Option.map fun w : String => tables.lowercase w.toList
  s.relationships.any fun r =>
    lower r.name == lower rel.name && lower r.relation == lower rel.relation

def saveRelationship (gson : Gson) (tables : CharacterTables) (s : MemoryManager) (saving : Saving)
    (rel : Relationship) : MemoryManager :=
  if s.knowsRelationship tables rel then s
  else (s.addRelationship gson saving.now rel saving.outcome).2

/-- The `exists` test for reminders: a stored one with this text is not completed. -/
def knowsReminder (tables : CharacterTables) (s : MemoryManager) (rem : Reminder) : Bool :=
  s.reminders.reminders.any fun r =>
    tables.lowercase r.text.toList == tables.lowercase rem.text.toList && r.status != .completed

def saveReminder (gson : Gson) (tables : CharacterTables) (s : MemoryManager) (saving : Saving)
    (rem : Reminder) : MemoryManager :=
  if s.knowsReminder tables rem then s else (s.addReminder gson rem saving.outcome).2

def updateStats (gson : Gson) (s : MemoryManager) (stats : MemoryStats) (outcome : WriteOutcome) :
    Bool × MemoryManager :=
  let (success, file) := write s.files.memoryStats (gson.memoryStats.toJson stats) outcome
  (success, { s with memoryStats := stats, files := { s.files with memoryStats := file } })

def updateExtractionStats (gson : Gson) (s : MemoryManager) (saving : Saving)
    (facts relationships reminders : Nat) : MemoryManager :=
  (s.updateStats gson
    (StatsJob.updateExtraction saving.now facts relationships reminders s.memoryStats)
    saving.outcome).2

/-- The assistant's response and the mode play no part. -/
def extractAndSave (gson : Gson) (tables : CharacterTables) (around : Surroundings)
    (s : MemoryManager) (userMessage llmResponse _mode : Text) : MemoryManager :=
  if isWorthExtracting tables userMessage llmResponse then
    let extractedFacts := extractFactsRuleBased tables userMessage
    let extractedRelationships := extractRelationshipsRuleBased around.relationshipUuid userMessage
    let extractedReminders := extractRemindersRuleBased tables around.reminderUuid userMessage
    let newFacts := deduplicateFacts tables s.userProfile.facts extractedFacts
    let s := forEach (saveFact gson) around.fact s newFacts
    let s := forEach (saveRelationship gson tables) around.relationship s extractedRelationships
    let s := forEach (saveReminder gson tables) around.reminder s extractedReminders
    s.updateExtractionStats gson around.stats newFacts.length extractedRelationships.length
      extractedReminders.length
  else s

end MemoryManager

end HeyNilo
