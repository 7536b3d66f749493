import HeyNilo.KotlinText

namespace HeyNilo

structure Identity where
  name : Option String := none
  preferredName : Option String := none
  birthdate : Option String := none
  age : Option Int := none
  gender : Option String := none
deriving DecidableEq, Repr

structure Contact where
  address : Option String := none
  city : Option String := none
  country : Option String := none
  phone : Option String := none
deriving DecidableEq, Repr

structure Occupation where
  title : Option String := none
  company : Option String := none
  industry : Option String := none
deriving DecidableEq, Repr

structure Preferences where
  communicationStyle : String := "friendly"
  food : List String := []
  music : List String := []
  hobbies : List String := []
deriving DecidableEq, Repr

structure UserProfile where
  version : Int := 1
  lastUpdated : String := ""
  identity : Identity := {}
  contact : Contact := {}
  occupation : Occupation := {}
  preferences : Preferences := {}
  facts : List String := []
deriving DecidableEq, Repr

/-- The `value: Any?` of a profile update. -/
inductive FieldValue where
  | null
  | string (s : String)
  | int (n : Int)
  | other
deriving DecidableEq, Repr

/-- `value as? String`. -/
def FieldValue.asString : FieldValue → Option String
  | .string s => some s
  | _ => none

/-- `value as? Int`. -/
def FieldValue.asInt : FieldValue → Option Int
  | .int n => some n
  | _ => none

inductive RelationshipCategory where
  | family
  | friend
  | colleague
  | important
deriving DecidableEq, Repr

structure Relationship where
  id : String
  relation : Option String := none
  name : Option String := none
  contact : Option String := none
  notes : Option String := none
  birthdate : Option String := none
deriving DecidableEq, Repr

def familyRelations : List String :=
  ["mother", "father", "mom", "dad", "parent", "sister", "brother", "sibling", "daughter", "son",
    "child", "grandmother", "grandfather", "grandparent", "aunt", "uncle", "cousin", "wife",
    "husband", "spouse", "partner"]

def friendRelations : List String := ["friend", "buddy", "pal"]

def colleagueRelations : List String := ["colleague", "coworker", "boss", "manager", "teammate"]

def Relationship.category (r : Relationship) : RelationshipCategory :=
  match r.relation with
  | none => .important
  | some relation =>
    let word := lowercase relation.toList
    if familyRelations.any fun w => w.toList == word then .family
    else if friendRelations.any fun w => w.toList == word then .friend
    else if colleagueRelations.any fun w => w.toList == word then .colleague
    else .important

structure RelationshipUpdates where
  name : Option String := none
  relation : Option String := none
  contact : Option String := none
  notes : Option String := none
  birthdate : Option String := none
deriving DecidableEq, Repr

def Relationship.updated (existing : Relationship) (updates : RelationshipUpdates) :
    Relationship :=
  { existing with
    name := updates.name <|> existing.name
    relation := updates.relation <|> existing.relation
    contact := updates.contact <|> existing.contact
    notes := updates.notes <|> existing.notes
    birthdate := updates.birthdate <|> existing.birthdate }

structure Relationships where
  version : Int := 1
  lastUpdated : String := ""
  family : List Relationship := []
  friends : List Relationship := []
  colleagues : List Relationship := []
  importantPeople : List Relationship := []
deriving DecidableEq, Repr

def Relationships.getAll (r : Relationships) : List Relationship :=
  r.family ++ r.friends ++ r.colleagues ++ r.importantPeople

inductive ReminderType where
  | call
  | alarm
  | messageWhatsapp
  | messageInstagram
  | messageSms
  | reminder
  | note
deriving DecidableEq, Repr

inductive ReminderPriority where
  | low
  | normal
  | high
  | urgent
deriving DecidableEq, Repr

inductive ReminderStatus where
  | pending
  | completed
  | cancelled
deriving DecidableEq, Repr

structure Reminder where
  id : String
  type : ReminderType
  text : String
  targetPerson : Option String := none
  dueDate : Option String := none
  priority : ReminderPriority := .normal
  status : ReminderStatus := .pending
  createdAt : String := ""
  completedAt : Option String := none
deriving DecidableEq, Repr

structure Reminders where
  version : Int := 1
  lastUpdated : String := ""
  reminders : List Reminder := []
deriving DecidableEq, Repr

/-- Replace the first entry that satisfies `p`, as `indexOfFirst` and an indexed assignment do;
`none` where there is no such entry. -/
def updateFirst {α : Type*} (p : α → Bool) (f : α → α) : List α → Option (List α)
  | [] => none
  | x :: xs => if p x then some (f x :: xs) else (updateFirst p f xs).map (x :: ·)

def Reminders.add (r : Reminders) (reminder : Reminder) : Reminders :=
  { r with reminders := r.reminders ++ [reminder] }

def Reminders.completeById (r : Reminders) (now id : String) : Option Reminders :=
  (updateFirst (fun x => x.id == id)
    (fun x => { x with status := .completed, completedAt := some now }) r.reminders).map
      fun xs => { r with reminders := xs }

/-- Kotlin's `removeAll`; `none` where it removed nothing. -/
def removeAll {α : Type*} (p : α → Bool) (xs : List α) : Option (List α) :=
  if xs.any p then some (xs.filter fun x => !p x) else none

def Reminders.deleteById (r : Reminders) (id : String) : Option Reminders :=
  (removeAll (fun x => x.id == id) r.reminders).map fun xs => { r with reminders := xs }

structure StorageStats where
  totalBytes : Int := 0
  maxBytes : Int := 350 * 1024 * 1024
  coreBytes : Int := 0
  conversationsBytes : Int := 0
  workBytes : Int := 0
  systemBytes : Int := 0
deriving DecidableEq, Repr

structure MemoryCounts where
  profileFacts : Int := 0
  relationships : Int := 0
  pendingReminders : Int := 0
  completedReminders : Int := 0
  conversationFiles : Int := 0
  archivedFiles : Int := 0
deriving DecidableEq, Repr

structure CompactionInfo where
  lastCompactionDate : Option String := none
  filesCompacted : Int := 0
  bytesSaved : Int := 0
  nextScheduled : Option String := none
deriving DecidableEq, Repr

structure ExtractionStats where
  totalFactsExtracted : Int := 0
  totalRelationshipsExtracted : Int := 0
  totalRemindersExtracted : Int := 0
  lastExtractionAt : Option String := none
  extractionsToday : Int := 0
deriving DecidableEq, Repr

structure MemoryStats where
  version : Int := 1
  lastUpdated : String := ""
  storage : StorageStats := {}
  counts : MemoryCounts := {}
  compaction : CompactionInfo := {}
  extractionStats : ExtractionStats := {}
deriving DecidableEq, Repr

/-- The `copy` that `updateProfileField` makes; `none` for a field name it does not know. -/
def UserProfile.withField (p : UserProfile) (now field : String) (value : FieldValue) :
    Option UserProfile :=
  let stamped := { p with lastUpdated := now }
  match field with
  | "name" => some { stamped with identity := { p.identity with name := value.asString } }
  | "preferredName" =>
    some { stamped with identity := { p.identity with preferredName := value.asString } }
  | "age" => some { stamped with identity := { p.identity with age := value.asInt } }
  | "birthdate" => some { stamped with identity := { p.identity with birthdate := value.asString } }
  | "gender" => some { stamped with identity := { p.identity with gender := value.asString } }
  | "city" => some { stamped with contact := { p.contact with city := value.asString } }
  | "country" => some { stamped with contact := { p.contact with country := value.asString } }
  | "address" => some { stamped with contact := { p.contact with address := value.asString } }
  | "title" => some { stamped with occupation := { p.occupation with title := value.asString } }
  | "company" => some { stamped with occupation := { p.occupation with company := value.asString } }
  | "industry" =>
    some { stamped with occupation := { p.occupation with industry := value.asString } }
  | "communicationStyle" =>
    some { stamped with
      preferences :=
        { p.preferences with communicationStyle := value.asString.getD "friendly" } }
  | _ => none

/-- `addFact` on the profile; a blank fact is refused. -/
def UserProfile.withFact (p : UserProfile) (now fact : String) : Option UserProfile :=
  if isBlank fact.toList then none
  else some { p with facts := p.facts ++ [fact], lastUpdated := now }

/-- `removeFact` on the profile; refused where the fact is not stored. -/
def UserProfile.withoutFact (p : UserProfile) (now fact : String) : Option UserProfile :=
  if p.facts.contains fact then some { p with facts := p.facts.erase fact, lastUpdated := now }
  else none

end HeyNilo
