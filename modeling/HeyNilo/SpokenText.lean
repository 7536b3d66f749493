import HeyNilo.SpeechFilter
import HeyNilo.StandingWords

open TextPieces

namespace HeyNilo

/-- The classes of characters that the runtime goes by. -/
structure WordTables where
  /-- `\w` -/
  isWord : Char → Bool
  /-- Combining and format characters, which `\b` passes over. -/
  isMark : Char → Bool
  /-- `\d` -/
  isDecimal : Char → Bool
  isLetter : Char → Bool
  isPunctuation : Char → Bool
  letter : ∀ c, isLatin (foldCase c) = true →
    isWord c = true ∧ isMark c = false ∧ isDecimal c = false ∧ isLetter c = true
  dot : isWord '.' = false ∧ isMark '.' = false
  space : isWord ' ' = false ∧ isMark ' ' = false ∧ isDecimal ' ' = false

namespace WordTables

variable (tables : WordTables)

def words : WholeWords Char := ⟨tables.isWord, tables.isMark, foldCase⟩

end WordTables

namespace SpokenText

/-- `.` stands for anything else. -/
def isLineTerminator (c : Char) : Bool :=
  let n := c.toNat
  (10 ≤ n && n ≤ 13) || n == 0x85 || n == 0x2028 || n == 0x2029

def isNonSpace (c : Char) : Bool := !isPatternSpace c

/-- The text up to the first occurrence of `mark`, which is not empty. -/
def upTo (mark : Text) : Text → Option Text
  | [] => none
  | c :: s => if mark <+: c :: s then some [] else (upTo mark s).map (c :: ·)

/-- `.*?\)` behind a parenthesis: what is before the closing one. -/
def upToParen : Text → Option Text
  | [] => none
  | c :: s =>
    if c = ')' then some []
    else if isLineTerminator c then none else (upToParen s).map (c :: ·)

/-- `\]\(.*?\)` -/
def linkEnd (s : Text) : Option Text :=
  if "](".toList <+: s then
    (upToParen (s.drop 2)).map fun address => "](".toList ++ address ++ [')']
  else none

/-- `(.*?)\]\(.*?\)`: the group, and what comes behind it. -/
def linkText : Text → Option (Text × Text)
  | [] => none
  | c :: s =>
    match linkEnd (c :: s) with
    | some last => some ([], last)
    | none =>
      if isLineTerminator c then none else (linkText s).map fun found => (c :: found.1, found.2)

/-- A pattern whose match is replaced as a whole; `front` gives the match at the front of a text. -/
def whole (front : Text → Option Text) (new : String) : Rewrite Char :=
  .checked fun _ rest => (front rest).map fun w => [.swapped w new.toList]

/-- A character, or a class of characters, one by one. -/
def each (accepts : Char → Bool) (new : String) : Rewrite Char :=
  whole (fun rest => rest.head?.bind fun c => if accepts c then some [c] else none) new

/-- As many characters of a class as there are. -/
def run (accepts : Char → Bool) (new : String) : Rewrite Char :=
  whole (fun rest => some (rest.takeWhile accepts)) new

/-- "```[\s\S]*?```" -/
def codeBlock : Rewrite Char :=
  whole (fun rest =>
    if "```".toList <+: rest then
      (upTo "```".toList (rest.drop 3)).map fun body => "```".toList ++ body ++ "```".toList
    else none) ""

/-- `[*_~#>]` and the backquote -/
def isMarkdown (c : Char) : Bool := c ∈ "*_~`#>".toList

def isEmoji (c : Char) : Bool := 0x1F600 ≤ c.toNat && c.toNat ≤ 0x1F9FF

/-- `\[(.*?)\]\(.*?\)` by `$1` -/
def link : Rewrite Char :=
  .checked fun _ rest =>
    match rest with
    | '[' :: s => (linkText s).map fun found =>
      .swapped ['['] [] :: found.1.map .kept ++ [.swapped found.2 []]
    | _ => none

/-- `<[^>]+>` -/
def tag : Rewrite Char :=
  whole (fun rest =>
    match rest with
    | '<' :: s =>
      let body := s.takeWhile (· ≠ '>')
      if body ≠ [] ∧ s.drop body.length ≠ [] then some ('<' :: body ++ ['>']) else none
    | _ => none) ""

/-- `https?://\S+` -/
def url : Rewrite Char :=
  whole (fun rest =>
    ["https://".toList, "http://".toList].findSome? fun scheme =>
      let host := (rest.drop scheme.length).takeWhile isNonSpace
      if scheme <+: rest ∧ host ≠ [] then some (scheme ++ host) else none) ""

/-- The removal passes. -/
def removals : List (Rewrite Char) :=
  [codeBlock, run isMarkdown "", each isEmoji "", link, tag, url]

def abbreviation (word new : String) : WholeWords.Rule Char :=
  ⟨word.toList.map foldCase, new.toList⟩

/-- `\bword\b` in any case, by its expansion. -/
def abbreviations : List (WholeWords.Rule Char) :=
  [abbreviation "e.g." "for example", abbreviation "i.e." "that is",
    abbreviation "etc." "etcetera", abbreviation "vs." "versus", abbreviation "vs" "versus",
    abbreviation "Mr." "Mister", abbreviation "Mrs." "Misses", abbreviation "Ms." "Ms",
    abbreviation "Dr." "Doctor", abbreviation "Prof." "Professor", abbreviation "St." "Saint",
    abbreviation "Ave." "Avenue", abbreviation "Blvd." "Boulevard", abbreviation "Rd." "Road",
    abbreviation "Inc." "Incorporated", abbreviation "Ltd." "Limited",
    abbreviation "Corp." "Corporation"]

section Tables

variable (tables : WordTables)

/-- `\bNo\.\s*(\d+)` in any case, by `number $1` -/
def number : Rewrite Char :=
  .checked fun before rest =>
    let blanks := (rest.drop 3).takeWhile isPatternSpace
    let digits := (rest.drop (3 + blanks.length)).takeWhile tables.isDecimal
    if tables.words.boundary before rest ∧ (rest.take 3).map foldCase = "no.".toList ∧ digits ≠ [] then
      some (.swapped (rest.take 3 ++ blanks) "number ".toList :: digits.map .kept)
    else none

/-- The `n` decimals at the front of a text. -/
def decimals (n : Nat) (s : Text) : Option Text :=
  if (s.take n).length = n ∧ (s.take n).all tables.isDecimal then some (s.take n) else none

/-- `\b([A-Z][a-z]{2})\.\s*(\d{1,2})\b` by `$1 $2` -/
def date : Rewrite Char :=
  .checked fun before rest =>
    match rest with
    | a :: b :: c :: '.' :: s =>
      let blanks := s.takeWhile isPatternSpace
      let month := [a, b, c]
      if tables.words.boundary before rest ∧ 'A' ≤ a ∧ a ≤ 'Z' ∧ isLatin b ∧ isLatin c then
        [2, 1].findSome? fun n => (decimals tables n (s.drop blanks.length)).bind fun day =>
          if tables.words.boundary (before ++ month ++ '.' :: blanks ++ day)
              (s.drop (blanks.length + n)) then
            some (month.map .kept ++ .swapped ('.' :: blanks) [' '] :: day.map .kept)
          else none
      else none
    | _ => none

/-- `\b(\d{1,2}):(\d{2})\s*AM\b` in any case, by `$1 $2 A M`; `half` is `am` or `pm`. -/
def time (half new : String) : Rewrite Char :=
  .checked fun before rest =>
    if tables.words.boundary before rest then
      [2, 1].findSome? fun n => (decimals tables n rest).bind fun hours =>
        match rest.drop n with
        | ':' :: s => (decimals tables 2 s).bind fun minutes =>
          let blanks := (s.drop 2).takeWhile isPatternSpace
          let last := (s.drop (2 + blanks.length)).take 2
          if last.map foldCase = half.toList ∧
              tables.words.boundary (before ++ hours ++ ':' :: minutes ++ blanks ++ last)
                (s.drop (4 + blanks.length)) then
            some (hours.map .kept ++ .swapped [':'] [' '] :: minutes.map .kept ++
              [.swapped (blanks ++ last) new.toList])
          else none
        | _ => none
    else none

/-- `([.!?])([^\s])` by `$1  $2` -/
def pause : Rewrite Char :=
  .checked fun _ rest =>
    match rest with
    | a :: b :: _ =>
      if a ∈ ".!?".toList ∧ isNonSpace b then
        some [.kept a, .swapped [] "  ".toList, .kept b]
      else none
    | _ => none

/-- `\s+`; a single space is left as it is. -/
def spaces : Rewrite Char :=
  .checked fun _ rest =>
    let blanks := rest.takeWhile isPatternSpace
    if blanks = [' '] then some [.kept ' '] else some [.swapped blanks [' ']]

/-- `trim()`: white space with nothing else before it, or behind it, is removed. -/
def trimEnds : Rewrite Char :=
  .checked fun before rest =>
    match rest with
    | c :: s =>
      if isWhitespace c ∧ (isBlank before ∨ isBlank s) then some [.swapped [c] []] else none
    | [] => none

/-- What comes after the abbreviations. -/
def spelling : List (Rewrite Char) :=
  [number tables, each (· == '!') ".", each (· == '?') "?", each (· == '&') " and ",
    each (· == '+') " plus ", each (· == '=') " equals ", each (· == '%') " percent ",
    each (· == '$') " dollars ", each (· == '€') " euros ", each (· == '£') " pounds ",
    each (· == '°') " degrees ", each (· == '#') " number ", each (· == '@') " at ",
    date tables, time tables "am" " A M", time tables "pm" " P M", pause, spaces]

/-- The words of the table are expanded. -/
def expansions : List (Rewrite Char) := abbreviations.map tables.words.rewrite

end Tables

end SpokenText

open SpokenText in
def preprocessText (tables : WordTables) (raw : Text) : Text :=
  trim (Rewrite.applyAll (removals ++ expansions tables ++ spelling tables) raw)

end HeyNilo
