import HeyNilo.MemoryManager

namespace HeyNilo

open JsonFile

/-- The part of JSON that the memory records are written in. -/
inductive Json where
  | null
  | num (n : Int)
  | str (s : String)
  | arr (elems : List Json)
  | obj (fields : List (String × Json))

namespace Json

/-- Gson's string escapes, with its default HTML-safe ones. -/
def escapeChar (c : Char) : Text :=
  if c = '"' then ['\\', '"']
  else if c = '\\' then ['\\', '\\']
  else if c = '\n' then ['\\', 'n']
  else if c = '\r' then ['\\', 'r']
  else if c = '\t' then ['\\', 't']
  else if c.toNat = 8 then ['\\', 'b']
  else if c.toNat = 12 then ['\\', 'f']
  else if c.toNat < 0x20 || c ∈ ['<', '>', '&', '=', '\''] || c.toNat = 0x2028 || c.toNat = 0x2029 then
    ['\\', 'u', Nat.digitChar (c.toNat / 4096), Nat.digitChar (c.toNat / 256 % 16),
      Nat.digitChar (c.toNat / 16 % 16), Nat.digitChar (c.toNat % 16)]
  else [c]

def quote (s : String) : Text := '"' :: s.toList.flatMap escapeChar ++ ['"']

def newline (indent : Nat) : Text := '\n' :: List.replicate (2 * indent) ' '

mutual

/-- Pretty printing as Gson does it, two blanks a level. -/
def pretty (indent : Nat) : Json → Text
  | .null => "null".toList
  | .num n => (toString n).toList
  | .str s => quote s
  | .arr [] => "[]".toList
  | .arr (x :: xs) =>
    '[' :: newline (indent + 1) ++ pretty (indent + 1) x ++ prettyElems (indent + 1) xs ++
      newline indent ++ [']']
  | .obj [] => "\x7b\x7d".toList
  | .obj ((name, x) :: xs) =>
    '{' :: newline (indent + 1) ++ quote name ++ ": ".toList ++ pretty (indent + 1) x ++
      prettyFields (indent + 1) xs ++ newline indent ++ ['}']

def prettyElems (indent : Nat) : List Json → Text
  | [] => []
  | x :: xs => ',' :: newline indent ++ pretty indent x ++ prettyElems indent xs

def prettyFields (indent : Nat) : List (String × Json) → Text
  | [] => []
  | (name, x) :: xs =>
    ',' :: newline indent ++ quote name ++ ": ".toList ++ pretty indent x ++ prettyFields indent xs

end

def ofOption : Option String → Json
  | none => .null
  | some s => .str s

end Json

def ReminderType.name : ReminderType → String
  | .call => "CALL"
  | .alarm => "ALARM"
  | .messageWhatsapp => "MESSAGE_WHATSAPP"
  | .messageInstagram => "MESSAGE_INSTAGRAM"
  | .messageSms => "MESSAGE_SMS"
  | .reminder => "REMINDER"
  | .note => "NOTE"

def ReminderPriority.name : ReminderPriority → String
  | .low => "LOW"
  | .normal => "NORMAL"
  | .high => "HIGH"
  | .urgent => "URGENT"

def ReminderStatus.name : ReminderStatus → String
  | .pending => "PENDING"
  | .completed => "COMPLETED"
  | .cancelled => "CANCELLED"

def Reminder.json (r : Reminder) : Json :=
  .obj [("id", .str r.id), ("type", .str r.type.name), ("text", .str r.text),
    ("target_person", .ofOption r.targetPerson), ("due_date", .ofOption r.dueDate),
    ("priority", .str r.priority.name), ("status", .str r.status.name),
    ("created_at", .str r.createdAt), ("completed_at", .ofOption r.completedAt)]

def Reminders.json (r : Reminders) : Json :=
  .obj [("version", .num r.version), ("last_updated", .str r.lastUpdated),
    ("reminders", .arr (r.reminders.map Reminder.json))]

def Identity.json (i : Identity) : Json :=
  .obj [("name", .ofOption i.name), ("preferred_name", .ofOption i.preferredName),
    ("birthdate", .ofOption i.birthdate), ("age", (i.age.map Json.num).getD .null),
    ("gender", .ofOption i.gender)]

def Contact.json (c : Contact) : Json :=
  .obj [("address", .ofOption c.address), ("city", .ofOption c.city),
    ("country", .ofOption c.country), ("phone", .ofOption c.phone)]

def Occupation.json (o : Occupation) : Json :=
  .obj [("title", .ofOption o.title), ("company", .ofOption o.company),
    ("industry", .ofOption o.industry)]

def Preferences.json (p : Preferences) : Json :=
  .obj [("communication_style", .str p.communicationStyle), ("food", .arr (p.food.map .str)),
    ("music", .arr (p.music.map .str)), ("hobbies", .arr (p.hobbies.map .str))]

def UserProfile.json (p : UserProfile) : Json :=
  .obj [("version", .num p.version), ("last_updated", .str p.lastUpdated),
    ("identity", p.identity.json), ("contact", p.contact.json), ("occupation", p.occupation.json),
    ("preferences", p.preferences.json), ("facts", .arr (p.facts.map .str))]

def Relationship.json (r : Relationship) : Json :=
  .obj [("id", .str r.id), ("relation", .ofOption r.relation), ("name", .ofOption r.name),
    ("contact", .ofOption r.contact), ("notes", .ofOption r.notes),
    ("birthdate", .ofOption r.birthdate)]

def Relationships.json (r : Relationships) : Json :=
  .obj [("version", .num r.version), ("last_updated", .str r.lastUpdated),
    ("family", .arr (r.family.map Relationship.json)),
    ("friends", .arr (r.friends.map Relationship.json)),
    ("colleagues", .arr (r.colleagues.map Relationship.json)),
    ("important_people", .arr (r.importantPeople.map Relationship.json))]

def StorageStats.json (s : StorageStats) : Json :=
  .obj [("total_bytes", .num s.totalBytes), ("max_bytes", .num s.maxBytes),
    ("core_bytes", .num s.coreBytes), ("conversations_bytes", .num s.conversationsBytes),
    ("work_bytes", .num s.workBytes), ("system_bytes", .num s.systemBytes)]

def MemoryCounts.json (c : MemoryCounts) : Json :=
  .obj [("profile_facts", .num c.profileFacts), ("relationships", .num c.relationships),
    ("pending_reminders", .num c.pendingReminders),
    ("completed_reminders", .num c.completedReminders),
    ("conversation_files", .num c.conversationFiles), ("archived_files", .num c.archivedFiles)]

def CompactionInfo.json (c : CompactionInfo) : Json :=
  .obj [("last_compaction_date", .ofOption c.lastCompactionDate),
    ("files_compacted", .num c.filesCompacted), ("bytes_saved", .num c.bytesSaved),
    ("next_scheduled", .ofOption c.nextScheduled)]

def ExtractionStats.json (e : ExtractionStats) : Json :=
  .obj [("total_facts_extracted", .num e.totalFactsExtracted),
    ("total_relationships_extracted", .num e.totalRelationshipsExtracted),
    ("total_reminders_extracted", .num e.totalRemindersExtracted),
    ("last_extraction_at", .ofOption e.lastExtractionAt),
    ("extractions_today", .num e.extractionsToday)]

def MemoryStats.json (m : MemoryStats) : Json :=
  .obj [("version", .num m.version), ("last_updated", .str m.lastUpdated),
    ("storage", m.storage.json), ("counts", m.counts.json), ("compaction", m.compaction.json),
    ("extraction", m.extractionStats.json)]

example : (Reminders.json {}).pretty 0 =
    "\x7b\n  \"version\": 1,\n  \"last_updated\": \"\",\n  \"reminders\": []\n\x7d".toList := by
  decide

/-- A parser that knows the given records and takes every other text for incomplete. -/
def sampleCodec {α : Type} (json : α → Json) (samples : List α) : Codec α where
  toJson := fun a => (json a).pretty 0
  fromJson := fun text =>
    match samples.find? fun a => (json a).pretty 0 == text with
    | some a => .value a
    | none => if text.isEmpty then .null else .threw

def sampleGson (profiles : List UserProfile) (reminders : List Reminders) : Gson where
  userProfile := sampleCodec UserProfile.json profiles
  relationships := sampleCodec Relationships.json [{}]
  reminders := sampleCodec Reminders.json reminders
  memoryStats := sampleCodec MemoryStats.json [{}]

/-- No sample is written as a beginning of another one's text. -/
theorem sampleCodec_exact {α : Type} {json : α → Json} {samples : List α} {a : α}
    (hmem : a ∈ samples)
    (hpre : ∀ b ∈ samples, (json b).pretty 0 <+: (json a).pretty 0 → b = a) :
    (sampleCodec json samples).Exact a := by
  have hfound (b : α) (text : Text) (h : (sampleCodec json samples).fromJson text = .value b) :
      b ∈ samples ∧ (json b).pretty 0 = text := by
    simp only [sampleCodec] at h
    split at h
    next c hc =>
      cases h
      exact ⟨List.mem_of_find?_eq_some hc, by simpa using List.find?_some hc⟩
    next => split at h <;> cases h
  constructor
  · simp only [sampleCodec]
    cases hc : samples.find? fun b => (json b).pretty 0 == (json a).pretty 0 with
    | none =>
      have := List.find?_eq_none.mp hc a hmem
      simp at this
    | some b =>
      have heq : (json b).pretty 0 = (json a).pretty 0 := by simpa using List.find?_some hc
      rw [hpre b (List.mem_of_find?_eq_some hc) (heq ▸ List.prefix_refl _)]
  · intro k hk b hb
    obtain ⟨hmem, htext⟩ := hfound b _ hb
    rw [hpre b hmem (htext ▸ List.take_prefix k _)] at htext
    have hlen := congrArg List.length htext
    rw [List.length_take] at hlen
    change k < ((json a).pretty 0).length at hk
    change _ = min k ((json a).pretty 0).length at hlen
    omega

end HeyNilo
