import HeyNilo.SpeechFilter

namespace HeyNilo

/-- Characters compared with `ignoreCase`: besides `foldCase` the two other letters I. -/
def foldLetter (c : Char) : Char :=
  if c.toNat = 0x130 || c.toNat = 0x131 then 'i' else foldCase c

def startsWithIgnoreCase : Text → Text → Bool
  | [], _ => true
  | c :: old, d :: text => foldLetter c == foldLetter d && startsWithIgnoreCase old text
  | _ :: _, [] => false

def indexOfIgnoreCase (old : Text) : Text → Option Nat
  | [] => if old.isEmpty then some 0 else none
  | c :: text =>
    if startsWithIgnoreCase old (c :: text) then some 0
    else (indexOfIgnoreCase old text).map (· + 1)

/-- `String.lines`, cut at each of the three line ends. -/
def lines : Text → List Text
  | [] => [[]]
  | '\r' :: '\n' :: text => [] :: lines text
  | c :: text =>
    if c == '\n' || c == '\r' then [] :: lines text
    else
      match lines text with
      | line :: rest => (c :: line) :: rest
      | [] => [[c]]

namespace ReplyFilter

open TextFilter

def endMarkers : List String := [
  "---EndConversation---", "--- End Conversation ---",
  "---End Context---", "--- End Context ---",
  "[/s]", "</s>", "</s", "<|system|>", "<|assistant|>", "<|user|>",
  "|im_end|", "|im_end|>", "<|im_end|>", "<|im_start|>assistant"]

/-- The loop over the end markers: the first of them in the list that occurs decides. -/
def truncate (text : Text) : Text :=
  match endMarkers.findSome? fun marker => indexOfIgnoreCase marker.toList text with
  | some index => text.take index
  | none => text

/-- Steps 2 and 3. -/
def rules : List Rule := [
  -- special tokens and memory-related noise
  .pattern [letters "[MEMORY]"] " ",
  .pattern [letters "[/MEMORY]"] " ",
  .pattern [letters "---" ++ [spaces 0] ++ letters "Memory Context" ++ [spaces 0] ++ letters "---"] " ",
  .pattern [letters "---" ++ [spaces 0] ++ letters "End Context" ++ [spaces 0] ++ letters "---"] " ",
  .pattern [letters "---" ++ [spaces 0] ++ letters "End Conversation" ++ [spaces 0] ++
    letters "---"] " ",
  .pattern [letters "---" ++ [spaces 0] ++ letters "EndConversation" ++ [spaces 0] ++
    letters "---"] " ",
  .pattern [letters "---" ++ [many (· != '-') 1] ++ letters "---"] " ",
  -- memory echo patterns
  .pattern [letters "END" ++ [spaces 0] ++ letters "OF" ++ [spaces 0] ++ letters "MEMORY"] " ",
  .pattern [letters "START" ++ [spaces 0] ++ letters "OF" ++ [spaces 0] ++ letters "MEMORY"] " ",
  .pattern [letters "<--" ++ [spaces 0] ++ letters "START"] " ",
  .pattern [letters "<--" ++ [spaces 0] ++ letters "END"] " ",
  .pattern [letters "MEMORY"] " ",
  .pattern [letters "The" ++ [spaces 1] ++ letters "user's" ++ [spaces 1] ++ letters "name" ++
    [spaces 1] ++ letters "is"] " ",
  .pattern (["are", "live", "work", "prefer"].map fun verb =>
    letters "They" ++ [spaces 1] ++ letters verb) " ",
  .literal "</s>" " ",
  .literal "<|system|>" " ",
  .literal "<|user|>" " ",
  .literal "<|assistant|>" " ",
  -- in a raw string `\\` is one backslash, and `|` after it stands for an alternative
  .pattern [[one (· == '<'), one (· == '\\')], [many (· != '|') 1, one (· == '\\')],
    [one (· == '>')]] " ",
  .pattern [[one (· == '\\'), one fun c => c == '/' || c == 's' || c == '\\']] " ",
  .pattern [[one (· == '\\'), one fun c => c == 's' || c == '\\']] " ",
  -- incomplete special tokens
  .literal "<|im_end|>" " ",
  .literal "<|im_start|>" " ",
  .literal "|im_end|>" " ",
  .literal "|im_start|>" " ",
  .literal "|im_end|" " ",
  .literal "|im_start|" " ",
  .literal "<|im_end" " ",
  .literal "<|im_start" " ",
  .literal "im_end|>" " ",
  .literal "im_start|>" " ",
  .literal "<|" " ",
  .literal "|>" " ",
  .literal "<" " ",
  .anchored [[spaces 0] ++ letters "system" ++ [spaces 0]] "",
  .anchored [[spaces 0] ++ letters "assistant" ++ [spaces 0]] "",
  .anchored [[spaces 0] ++ letters "user" ++ [spaces 0]] "",
  -- word spacing
  .separate (fun c => 'a' ≤ c && c ≤ 'z') (fun c => 'A' ≤ c && c ≤ 'Z'),
  .separate (fun c => c == ',' || c == '!' || c == '?')
    (fun c => ('a' ≤ c && c ≤ 'z') || ('A' ≤ c && c ≤ 'Z')),
  .literal "Iam" "I am",
  .literal "IamSMITH" "I am SMITH",
  .literal "yourpersonal" "your personal",
  .literal "personalAI" "personal AI",
  .literal "AIassistant" "AI assistant",
  .literal "Howcan" "How can",
  .literal "Howare" "How are",
  .literal "you today?Is" "you today? Is",
  .literal "Isthere" "Is there",
  .literal "inparticular" "in particular",
  .literal "thatyou" "that you",
  .literal "wouldlike" "would like",
  .literal "toknow" "to know",
  .literal "ordiscuss" "or discuss",
  .literal "Letmeknow" "Let me know",
  .literal "we'llget" "we'll get",
  .literal "startedona" "started on a",
  .literal "conversation!---" "conversation!",
  .literal "don'thesitate" "don't hesitate",
  .literal "toask" "to ask",
  .literal "I'mjust" "I'm just",
  .literal "theretochat" "there to chat",
  .literal "sodon't" "so don't",
  .literal "sharethoughts" "share thoughts",
  .literal "I'mjustheretochat,sodon'thesitatetoask"
    "I'm just here to chat, so don't hesitate to ask"]

/-- What the trimmed lines that step 4 drops start with. -/
def promptLineStarts : List String := [
  "User:", "Facts:", "People:", "Pending:", "Last session:", "How are you today?",
  "I'm just here to chat", ">"]

def isPromptLine (line : Text) : Bool :=
  let trimmed := trim line
  promptLineStarts.any (fun start => startsWithIgnoreCase start.toList trimmed) ||
    (indexOfIgnoreCase "don't hesitate to ask".toList trimmed).isSome

def removePromptLines (text : Text) : Text :=
  trim (['\n'].intercalate ((lines text).filter fun line => !isPromptLine line))

def cleanup : List Rule := [
  .pattern [[spaces 2]] " ",
  .pattern [[many (· == '\n') 3]] "\n\n"]

end ReplyFilter

open ReplyFilter in
def filterAiResponse (text : Text) : Text :=
  if isBlank text then text
  else
    trim (TextFilter.applyAll cleanup
      (removePromptLines (TextFilter.applyAll rules (truncate text))))

end HeyNilo
