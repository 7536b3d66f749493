import HeyNilo.CapturePattern
import HeyNilo.CompactionReports
import HeyNilo.SpokenText

namespace HeyNilo

open CapturePattern

/-- The digits that the locale writes numbers with. -/
structure LocaleDigits where
  digit : Nat → Char
  plain : ∀ n, digit n ≠ '*'

def LocaleDigits.number (digits : LocaleDigits) (width n : Nat) : Text :=
  (List.range width).reverse.map fun i => digits.digit (n / 10 ^ i % 10)

namespace MemoryDefaults

def monthNames : List String := [
  "01-January", "02-February", "03-March", "04-April",
  "05-May", "06-June", "07-July", "08-August",
  "09-September", "10-October", "11-November", "12-December"]

def getMonthFolder (month : Nat) : Text := (monthNames.getD (month - 1) "00-Unknown").toList

end MemoryDefaults

/-- A call of `appendConversationExchange`: what the clock shows, when the file is said to have been
modified after it, and the exchange. -/
structure LogCall where
  year : Nat
  month : Nat
  day : Nat
  hour : Nat
  minute : Nat
  currentTimeMillis : Int
  modified : Int
  userMessage : Text
  assistantMessage : Text

namespace LogCall

def date (digits : LocaleDigits) (call : LogCall) : Text :=
  digits.number 4 call.year ++ '-' :: digits.number 2 call.month ++ '-' :: digits.number 2 call.day

def time (digits : LocaleDigits) (call : LogCall) : Text :=
  digits.number 2 call.hour ++ '-' :: digits.number 2 call.minute

def path (digits : LocaleDigits) (call : LogCall) : Text :=
  digits.number 4 call.year ++ '/' :: MemoryDefaults.getMonthFolder call.month ++
    '/' :: call.date digits ++ ".md".toList

end LogCall

namespace FileSystemManager

/-- `appendLine` -/
def line (s : Text) : Text := s ++ ['\n']

/-- What stands before the exchange: the header of a new file, or that of a new session. -/
def heading (digits : LocaleDigits) (call : LogCall) : Option ConversationFile → Text
  | none => line ("# Conversation - ".toList ++ call.date digits) ++ line [] ++
      line ("## Session ".toList ++ call.time digits) ++ line []
  | some file =>
    if file.lastModified < call.currentTimeMillis - 30 * 60 * 1000 then
      line [] ++ line ("## Session ".toList ++ call.time digits) ++ line []
    else line []

def exchange (call : LogCall) : Text :=
  line ("**User:** ".toList ++ call.userMessage) ++ line [] ++
    line ("**Assistant:** ".toList ++ call.assistantMessage) ++ line []

/-- The file of the call's date with the text appended. -/
def appended (digits : LocaleDigits) (dir : ConversationDir) (call : LogCall) : ConversationFile :=
  let file := dir.lookup (call.path digits)
  let content := (file.map (·.content)).getD [] ++ (heading digits call file ++ exchange call)
  { path := call.path digits
    lastModified := call.modified
    content
    length := (content.map Char.utf8Size).sum }

def appendConversationExchange (digits : LocaleDigits) (dir : ConversationDir) (call : LogCall) :
    ConversationDir :=
  dir.write (appended digits dir call)

/-- The calls one after the other, from no file. -/
def appendAll (digits : LocaleDigits) (calls : List LogCall) : ConversationDir :=
  calls.foldl (appendConversationExchange digits) ⟨[], List.nodup_nil⟩

end FileSystemManager

namespace MemoryManager

/-- `\*\*User:\*\* (.+)` -/
def userPattern : CapturePattern Char :=
  andThen (inOrder ("**User:** ".toList.map fun c => item { accepts := (· == c) }))
    (group 1 (item { accepts := fun c => !SpokenText.isLineTerminator c, most := none }))

def extractFirstExchange (content : Text) : Text :=
  ((find userPattern content).bind (·.group 1)).getD "Conversation".toList

end MemoryManager

open FileSystemManager MemoryManager MemoryCompaction

def firstLine (text : Text) : Text := text.takeWhile fun c => !SpokenText.isLineTerminator c

/-- As many exchanges are counted in the files as were appended, and of each file the first line of
its first message is read back. -/
structure CountsBack (digits : LocaleDigits) (calls : List LogCall) : Prop where
  count : ∀ calendar quarter, (generateQuarterSummary calendar (appendAll digits calls) [] quarter
    ((appendAll digits calls).files.map (·.path))).totalExchanges = calls.length
  first : ∀ file ∈ (appendAll digits calls).files, ∀ call,
    calls.find? (fun call => call.path digits = file.path) = some call →
      extractFirstExchange file.content = firstLine call.userMessage

/-- No message contains the marker, and the first message of a file has a first line. -/
structure Unmistakable (digits : LocaleDigits) (calls : List LogCall) : Prop where
  unmarked : ∀ call ∈ calls, ¬"**User:**".toList <:+: call.userMessage ∧
    ¬"**User:**".toList <:+: call.assistantMessage
  begun : ∀ before call after, calls = before ++ call :: after →
    (∀ earlier ∈ before, earlier.path digits ≠ call.path digits) → firstLine call.userMessage ≠ []

section Occurrences

variable {old a b s : Text} {c : Char}

theorem prefix_append_cons (hc : c ∉ old) : old <+: a ++ c :: b ↔ old <+: a := by
  induction old generalizing a with
  | nil => exact iff_of_true (List.nil_prefix) List.nil_prefix
  | cons d old ih =>
    rw [List.mem_cons, not_or] at hc
    cases a with
    | nil =>
      rw [List.nil_append, List.cons_prefix_cons]
      exact iff_of_false (fun h => hc.1 h.1.symm) fun h => by simp at h
    | cons e a => rw [List.cons_append, List.cons_prefix_cons, List.cons_prefix_cons, ih hc.2]

theorem occurrencesLoop_append_cons (hc : c ∉ old) (hold : old ≠ []) {skip : Nat}
    (hskip : skip ≤ a.length) : occurrencesLoop old skip (a ++ c :: b) =
      occurrencesLoop old skip a + occurrencesLoop old 0 b := by
  induction a generalizing skip with
  | nil =>
    obtain rfl : skip = 0 := Nat.le_zero.mp hskip
    have hnot : old.isPrefixOf (c :: b) = false := by
      rw [Bool.eq_false_iff, Ne, List.isPrefixOf_iff_prefix]
      intro h
      exact hold (List.prefix_nil.mp ((prefix_append_cons (a := []) hc).mp h))
    simp [occurrencesLoop, hnot]
  | cons d a ih =>
    cases skip with
    | succ skip => exact ih (Nat.le_of_succ_le_succ hskip)
    | zero =>
      rw [List.cons_append, occurrencesLoop, occurrencesLoop]
      have hsame : old.isPrefixOf (d :: (a ++ c :: b)) = old.isPrefixOf (d :: a) := by
        rw [Bool.eq_iff_iff, List.isPrefixOf_iff_prefix, List.isPrefixOf_iff_prefix]
        exact prefix_append_cons (a := d :: a) hc
      rw [hsame]
      split
      next h =>
        have hlength := (List.isPrefixOf_iff_prefix.mp h).length_le
        rw [List.length_cons] at hlength
        rw [ih (by omega)]
        omega
      next => exact ih (Nat.zero_le _)

/-- A character that the marker does not have parts its occurrences. -/
theorem occurrences_append_cons (hc : c ∉ old) (hold : old ≠ []) :
    occurrences old (a ++ c :: b) = occurrences old a + occurrences old b :=
  occurrencesLoop_append_cons hc hold (Nat.zero_le _)

theorem occurrencesLoop_skip (old a s : Text) :
    occurrencesLoop old a.length (a ++ s) = occurrencesLoop old 0 s := by
  induction a with
  | nil => rfl
  | cons d a ih => exact ih

theorem occurrences_self_append (hold : old ≠ []) :
    occurrences old (old ++ s) = occurrences old s + 1 := by
  cases old with
  | nil => exact absurd rfl hold
  | cons d w =>
    have hprefix : (d :: w).isPrefixOf (d :: (w ++ s)) = true :=
      List.isPrefixOf_iff_prefix.mpr (List.prefix_append (d :: w) s)
    rw [occurrences, List.cons_append, occurrencesLoop, if_pos hprefix]
    exact congrArg (· + 1) (occurrencesLoop_skip (d :: w) w s)

theorem occurrences_eq_zero_iff (hold : old ≠ []) : occurrences old s = 0 ↔ ¬old <:+: s := by
  unfold occurrences
  induction s with
  | nil => exact iff_of_true rfl fun h => hold (List.infix_nil.mp h)
  | cons d s ih =>
    rw [occurrencesLoop, List.infix_cons_iff, not_or, ← List.isPrefixOf_iff_prefix]
    split
    next h => exact iff_of_false (Nat.succ_ne_zero _) fun hnot => hnot.1 h
    next h => rw [ih, and_iff_right h]

theorem occurrences_of_not_mem (hc : c ∈ old) (h : c ∉ s) : occurrences old s = 0 := by
  rw [occurrences_eq_zero_iff (List.ne_nil_of_mem hc)]
  exact fun hin => h (hin.subset hc)

end Occurrences

section Reader

variable {s t pre rest user : Text}

theorem readings_letter (c : Char) (s : Text) : readings (item { accepts := (· == c) }) s =
    if [c] <+: s then [⟨[], s.drop 1⟩] else [] := by
  cases s with
  | nil => simp [readings, TextPattern.leading]
  | cons d s =>
    by_cases hd : d = c
    · subst hd
      simp [readings, TextPattern.leading]
    · simp [readings, TextPattern.leading, hd, Ne.symm hd]

theorem readings_exact (w s : Text) :
    readings (inOrder (w.map fun c => item { accepts := (· == c) })) s =
      if w <+: s then [⟨[], s.drop w.length⟩] else [] := by
  induction w generalizing s with
  | nil => simp [inOrder, readings]
  | cons c w ih =>
    have hcons : inOrder ((c :: w).map fun c => item { accepts := (· == c) }) =
        andThen (item { accepts := (· == c) })
          (inOrder (w.map fun c => item { accepts := (· == c) })) := rfl
    rw [hcons, readings, readings_letter]
    cases s with
    | nil => simp
    | cons d s =>
      by_cases hd : c = d
      · subst hd
        have hone : [c] <+: c :: s := ⟨s, rfl⟩
        rw [if_pos hone, List.flatMap_singleton, ih]
        by_cases hw : w <+: s
        · simp [hw]
        · simp [hw]
      · simp [hd]

theorem consumed_drop (s : Text) {k : Nat} (h : k ≤ s.length) : consumed s (s.drop k) = s.take k := by
  rw [consumed, List.length_drop, Nat.sub_sub_self h]

theorem take_firstLine (t : Text) : t.take (firstLine t).length = firstLine t :=
  (List.prefix_iff_eq_take.mp (List.takeWhile_prefix _)).symm

/-- The group takes the whole line. -/
theorem readings_line (t : Text) : (readings (group 1 (item
      { accepts := fun c => !SpokenText.isLineTerminator c, most := none })) t).head? =
    if firstLine t = [] then none
    else some ⟨[(1, firstLine t)], t.drop (firstLine t).length⟩ := by
  have hleading : TextPattern.leading
      { accepts := fun c => !SpokenText.isLineTerminator c, most := none } t =
        (firstLine t).length := rfl
  rw [readings, readings, hleading, Nat.add_sub_cancel]
  cases hline : (firstLine t).length with
  | zero => simp [List.length_eq_zero_iff.mp hline]
  | succ n =>
    have hne : firstLine t ≠ [] := List.ne_nil_of_length_eq_add_one hline
    have hle : n + 1 ≤ t.length := by
      rw [← hline]
      exact (List.takeWhile_prefix _).length_le
    have hgroup : consumed t (t.drop (n + 1)) = firstLine t := by
      rw [consumed_drop t hle, ← hline, take_firstLine]
    rw [if_neg hne, List.range'_1_concat, List.reverse_append]
    simp [Nat.add_comm 1 n, hgroup]

theorem matchFront_userPattern (t : Text) :
    matchFront userPattern ("**User:** ".toList ++ t) =
      if firstLine t = [] then none
      else some ⟨"**User:** ".toList ++ firstLine t, [(1, firstLine t)]⟩ := by
  have hprefix : "**User:** ".toList <+: "**User:** ".toList ++ t := List.prefix_append _ _
  rw [matchFront, userPattern, readings, readings_exact, if_pos hprefix, List.flatMap_singleton,
    List.drop_left, List.head?_map, readings_line]
  split
  next => rfl
  next =>
    have hle : (firstLine t).length ≤ t.length := (List.takeWhile_prefix _).length_le
    have hdrop : t.drop (firstLine t).length =
        ("**User:** ".toList ++ t).drop ("**User:** ".toList.length + (firstLine t).length) := by
      rw [← List.drop_drop, List.drop_left]
    simp only [Option.map_some, List.nil_append, Option.some.injEq, Match.mk.injEq, and_true]
    rw [hdrop, consumed_drop _ (by rw [List.length_append]; omega), List.take_append,
      List.take_of_length_le (Nat.le_add_right _ _), Nat.add_sub_cancel_left, take_firstLine]

theorem matchFront_of_not_prefix (h : ¬"**User:** ".toList <+: s) :
    matchFront userPattern s = none := by
  rw [matchFront, userPattern, readings, readings_exact, if_neg h]
  rfl

/-- What is read is never empty. -/
theorem extractFirstExchange_ne_nil (content : Text) : extractFirstExchange content ≠ [] := by
  rw [extractFirstExchange]
  cases hfind : find userPattern content with
  | none => decide
  | some m =>
    obtain ⟨s, -, hmatch⟩ := find_front hfind
    by_cases hprefix : "**User:** ".toList <+: s
    · obtain ⟨t, rfl⟩ := hprefix
      rw [matchFront_userPattern] at hmatch
      split at hmatch
      next => cases hmatch
      next hline =>
        cases hmatch
        exact hline
    · have hnone := matchFront_of_not_prefix hprefix
      cases hnone.symm.trans hmatch

theorem find_skip (hpre : '*' ∉ pre) : find userPattern (pre ++ "**User:** ".toList ++ t) =
    find userPattern ("**User:** ".toList ++ t) := by
  induction pre with
  | nil => rfl
  | cons c pre ih =>
    rw [List.mem_cons, not_or] at hpre
    have hnot : ¬"**User:** ".toList <+: c :: (pre ++ "**User:** ".toList ++ t) := fun h =>
      hpre.1 (List.cons_prefix_cons.mp h).1
    rw [List.cons_append, List.cons_append, find, matchFront_of_not_prefix hnot, Option.none_or]
    exact ih hpre.2

theorem firstLine_append (user rest : Text) : firstLine (user ++ '\n' :: rest) = firstLine user := by
  have hend : (!SpokenText.isLineTerminator '\n') = false := by decide
  rw [firstLine, List.takeWhile_append]
  split
  next h =>
    rw [List.takeWhile_cons, hend, if_neg Bool.false_ne_true, List.append_nil, firstLine]
    exact (List.takeWhile_prefix _).eq_of_length h |>.symm
  next => rfl

/-- The first message is read back exactly if it has a first line. -/
theorem extractFirstExchange_iff (hpre : '*' ∉ pre) :
    extractFirstExchange (pre ++ "**User:** ".toList ++ user ++ '\n' :: rest) = firstLine user ↔
      firstLine user ≠ [] := by
  constructor
  · intro h hline
    rw [hline] at h
    exact extractFirstExchange_ne_nil _ h
  · intro hline
    have hfind : find userPattern (pre ++ "**User:** ".toList ++ user ++ '\n' :: rest) =
        some ⟨"**User:** ".toList ++ firstLine user, [(1, firstLine user)]⟩ := by
      have hcons : "**User:** ".toList ++ (user ++ '\n' :: rest) =
          '*' :: ("*User:** ".toList ++ (user ++ '\n' :: rest)) := rfl
      have hfront := matchFront_userPattern (user ++ '\n' :: rest)
      rw [firstLine_append, if_neg hline] at hfront
      rw [List.append_assoc _ user, find_skip hpre, hcons, find, ← hcons, hfront, Option.some_or]
    rw [extractFirstExchange, hfind]
    rfl

end Reader

section Writer

variable {digits : LocaleDigits} {calls : List LogCall} {call : LogCall} {dir : ConversationDir}
  {file : ConversationFile} {s t : Text}

theorem star_number (width n : Nat) : '*' ∉ digits.number width n := by
  intro h
  obtain ⟨i, -, hi⟩ := List.mem_map.mp h
  exact digits.plain _ hi

theorem star_date (call : LogCall) : '*' ∉ call.date digits := by
  simp [LogCall.date, star_number]

theorem star_time (call : LogCall) : '*' ∉ call.time digits := by
  simp [LogCall.time, star_number]

/-- Nothing before the exchange looks like its marker, and it begins on a line of its own. -/
theorem heading_plain (call : LogCall) (file : Option ConversationFile) :
    '*' ∉ heading digits call file ∧ ∃ body, heading digits call file = line body := by
  have hdate : '*' ∉ call.date digits := star_date call
  have htime : '*' ∉ call.time digits := star_time call
  have hconversation : '*' ∉ "# Conversation - ".toList := by decide
  have hsession : '*' ∉ "## Session ".toList := by decide
  cases file with
  | none =>
    refine ⟨?_, line ("# Conversation - ".toList ++ call.date digits) ++ line [] ++
      line ("## Session ".toList ++ call.time digits), rfl⟩
    simp only [heading, line, List.mem_append, List.mem_singleton, List.not_mem_nil, hdate, htime,
      hconversation, hsession, or_self, not_false_eq_true, Char.reduceEq]
  | some file =>
    rw [heading]
    split
    next =>
      refine ⟨?_, line [] ++ line ("## Session ".toList ++ call.time digits), rfl⟩
      simp only [line, List.mem_append, List.mem_singleton, List.not_mem_nil, htime,
        hsession, or_self, not_false_eq_true, Char.reduceEq]
    next => exact ⟨by simp [line], [], rfl⟩

theorem exchange_eq (call : LogCall) : exchange call =
    "**User:**".toList ++ ' ' :: (call.userMessage ++ '\n' :: '\n' ::
      ("**Assistant:**".toList ++ ' ' :: (call.assistantMessage ++ '\n' :: ['\n']))) := by
  have huser : "**User:** ".toList = "**User:**".toList ++ [' '] := rfl
  have hassistant : "**Assistant:** ".toList = "**Assistant:**".toList ++ [' '] := rfl
  simp only [exchange, line, huser, hassistant, List.append_assoc, List.cons_append,
    List.nil_append]

/-- What a call adds to the count. -/
def counted (call : LogCall) : Nat :=
  1 + countExchanges call.userMessage + countExchanges call.assistantMessage

theorem countExchanges_append (c : Char) (hc : c ∉ "**User:**".toList) (s t : Text) :
    countExchanges (s ++ c :: t) = countExchanges s + countExchanges t :=
  occurrences_append_cons hc (by decide)

theorem countExchanges_line (s t : Text) :
    countExchanges (line s ++ t) = countExchanges (line s) + countExchanges t := by
  have hnil : countExchanges [] = 0 := rfl
  rw [line, List.append_assoc, List.cons_append, List.nil_append,
    countExchanges_append _ (by decide), countExchanges_append _ (by decide), hnil, Nat.add_zero]

theorem countExchanges_exchange (call : LogCall) :
    countExchanges (exchange call) = counted call := by
  have hassistant : countExchanges "**Assistant:**".toList = 0 := by decide
  have hnil : countExchanges [] = 0 := rfl
  have hself (s : Text) : countExchanges ("**User:**".toList ++ s) = countExchanges s + 1 :=
    occurrences_self_append (by decide)
  have hcons (c : Char) (hc : c ∉ "**User:**".toList) (s : Text) :
      countExchanges (c :: s) = countExchanges s := by
    have happend := countExchanges_append c hc [] s
    rw [hnil, Nat.zero_add] at happend
    exact happend
  rw [exchange_eq, hself, hcons _ (by decide), countExchanges_append _ (by decide),
    hcons _ (by decide), countExchanges_append _ (by decide), hassistant,
    countExchanges_append _ (by decide), hcons _ (by decide), hnil, counted]
  omega

theorem countExchanges_heading (call : LogCall) (file : Option ConversationFile) :
    countExchanges (heading digits call file) = 0 :=
  occurrences_of_not_mem (c := '*') (by decide) (heading_plain call file).1

/-- What the files count, together. -/
def total (dir : ConversationDir) : Nat := (dir.files.map fun file => countExchanges file.content).sum

/-- The files end with a line, each begins with the first call for it, and every call has its file;
what they count is what the calls add. -/
structure LogInv (digits : LocaleDigits) (calls : List LogCall) (dir : ConversationDir) : Prop where
  ended : ∀ file ∈ dir.files, ∃ body, file.content = line body
  begun : ∀ file ∈ dir.files, ∃ call,
    calls.find? (fun call => call.path digits = file.path) = some call ∧ ∃ pre rest, '*' ∉ pre ∧
      file.content = pre ++ "**User:** ".toList ++ call.userMessage ++ '\n' :: rest
  logged : ∀ call ∈ calls, ∃ file ∈ dir.files, file.path = call.path digits
  counts : total dir = (calls.map counted).sum

theorem total_write (dir : ConversationDir) (file : ConversationFile) :
    total (dir.write file) + (((dir.lookup file.path).map fun old =>
      countExchanges old.content).getD 0) = total dir + countExchanges file.content := by
  have hfilter := filter_path_eq dir.distinct file.path
  have hsplit := sum_filter_or dir.files (fun other => decide (other.path = file.path))
    (fun _ => true) fun other => countExchanges other.content
  simp only [Bool.or_true, List.filter_true] at hsplit
  have hlookup : ((dir.files.filter fun other => decide (other.path = file.path)).map fun other =>
      countExchanges other.content).sum =
        ((dir.lookup file.path).map fun old => countExchanges old.content).getD 0 := by
    rw [hfilter, ← ConversationDir.lookup]
    cases dir.lookup file.path <;> simp
  have hrest : total (dir.write file) = ((dir.files.filter fun other =>
      !decide (other.path = file.path)).map fun other => countExchanges other.content).sum +
        countExchanges file.content := by
    simp [total, ConversationDir.write]
  rw [hrest, ← hlookup, total, hsplit]
  omega

theorem countExchanges_appended (call : LogCall)
    (hended : ∀ file ∈ dir.files, ∃ body, file.content = line body) :
    countExchanges (appended digits dir call).content =
      ((dir.lookup (call.path digits)).map fun old => countExchanges old.content).getD 0 +
        counted call := by
  obtain ⟨-, body, hbody⟩ := @heading_plain digits call (dir.lookup (call.path digits))
  have hheading := @countExchanges_heading digits call (dir.lookup (call.path digits))
  have hexchange : countExchanges
      (heading digits call (dir.lookup (call.path digits)) ++ exchange call) = counted call := by
    rw [hbody, countExchanges_line, ← hbody, hheading, countExchanges_exchange, Nat.zero_add]
  rw [appended]
  cases hlookup : dir.lookup (call.path digits) with
  | none =>
    rw [hlookup] at hexchange
    exact hexchange.trans (Nat.zero_add _).symm
  | some file =>
    rw [hlookup] at hexchange
    obtain ⟨body, hline⟩ := hended file (List.mem_of_find?_eq_some hlookup)
    simp only [Option.map_some, Option.getD_some]
    rw [hline, countExchanges_line, ← hline, hexchange]

theorem total_append (call : LogCall)
    (hended : ∀ file ∈ dir.files, ∃ body, file.content = line body) :
    total (appendConversationExchange digits dir call) = total dir + counted call := by
  have hwrite := total_write dir (appended digits dir call)
  have hpath : (appended digits dir call).path = call.path digits := rfl
  rw [countExchanges_appended call hended, hpath] at hwrite
  rw [appendConversationExchange]
  omega

theorem mem_append_iff : file ∈ (appendConversationExchange digits dir call).files ↔
    (file ∈ dir.files ∧ file.path ≠ call.path digits) ∨ file = appended digits dir call := by
  have hpath : (appended digits dir call).path = call.path digits := rfl
  rw [appendConversationExchange, ConversationDir.write, List.mem_append, List.mem_filter,
    List.mem_singleton, decide_eq_true_eq, hpath]

theorem lookup_some {path : Text} (h : dir.lookup path = some file) :
    file ∈ dir.files ∧ file.path = path := by
  rw [ConversationDir.lookup] at h
  have hpath := List.find?_some h
  exact ⟨List.mem_of_find?_eq_some h, of_decide_eq_true hpath⟩

theorem LogInv.step (h : LogInv digits calls dir) (call : LogCall) :
    LogInv digits (calls ++ [call]) (appendConversationExchange digits dir call) := by
  have hself : [call].find? (fun c => c.path digits = call.path digits) = some call := by
    simp
  constructor
  · intro file hfile
    rcases mem_append_iff.mp hfile with ⟨hold, -⟩ | rfl
    · exact h.ended file hold
    · exact ⟨((dir.lookup (call.path digits)).map (·.content)).getD [] ++
        (heading digits call (dir.lookup (call.path digits)) ++
          (line ("**User:** ".toList ++ call.userMessage) ++ line [] ++
            line ("**Assistant:** ".toList ++ call.assistantMessage))),
        by simp [appended, exchange, line]⟩
  · intro file hfile
    rcases mem_append_iff.mp hfile with ⟨hold, -⟩ | rfl
    · obtain ⟨first, hfirst, hcontent⟩ := h.begun file hold
      exact ⟨first, by rw [List.find?_append, hfirst]; rfl, hcontent⟩
    · have hown : (appended digits dir call).path = call.path digits := rfl
      rw [hown]
      cases hlookup : dir.lookup (call.path digits) with
      | none =>
        -- the first call for its file
        have hnone : calls.find? (fun c => c.path digits = call.path digits) = none := by
          rw [List.find?_eq_none]
          intro c hc hpath
          obtain ⟨file, hfile, hsame⟩ := h.logged c hc
          have hmissing := List.find?_eq_none.mp hlookup file hfile
          exact hmissing (decide_eq_true (hsame.trans (of_decide_eq_true hpath)))
        refine ⟨call, ?_, heading digits call none,
          line [] ++ line ("**Assistant:** ".toList ++ call.assistantMessage) ++ line [],
          (heading_plain call none).1, ?_⟩
        · exact List.find?_append.trans (by rw [hnone]; exact hself)
        · simp [appended, hlookup, exchange, line]
      | some old =>
        obtain ⟨hold, hpath⟩ := lookup_some hlookup
        obtain ⟨first, hfirst, pre, rest, hpre, hcontent⟩ := h.begun old hold
        rw [hpath] at hfirst
        refine ⟨first, List.find?_append.trans (by rw [hfirst]; rfl), pre,
          rest ++ (heading digits call (some old) ++ exchange call), hpre, ?_⟩
        simp [appended, hlookup, hcontent]
  · intro c hc
    rw [List.mem_append, List.mem_singleton] at hc
    rcases hc with hc | rfl
    · obtain ⟨file, hfile, hpath⟩ := h.logged c hc
      by_cases hsame : file.path = call.path digits
      · exact ⟨_, mem_append_iff.mpr (Or.inr rfl), hsame.symm.trans hpath⟩
      · exact ⟨file, mem_append_iff.mpr (Or.inl ⟨hfile, hsame⟩), hpath⟩
    · exact ⟨_, mem_append_iff.mpr (Or.inr rfl), rfl⟩
  · rw [total_append call h.ended, h.counts, List.map_append, List.sum_append]
    rfl

theorem logInv_appendAll (digits : LocaleDigits) (calls : List LogCall) :
    LogInv digits calls (appendAll digits calls) := by
  induction calls using List.reverseRecOn with
  | nil => exact ⟨nofun, nofun, nofun, rfl⟩
  | append_singleton calls call ih =>
    rw [appendAll, List.foldl_append]
    exact ih.step call

theorem totalExchanges_eq (calendar : Calendar) (dir : ConversationDir) (quarter : Text) :
    (generateQuarterSummary calendar dir [] quarter (dir.files.map (·.path))).totalExchanges =
      total dir := by
  have hlookup (file : ConversationFile) (h : file ∈ dir.files) :
      dir.lookup file.path = some file := by
    cases hfind : dir.lookup file.path with
    | none => exact absurd (decide_eq_true rfl) (List.find?_eq_none.mp hfind file h)
    | some other =>
      obtain ⟨hother, hpath⟩ := lookup_some hfind
      rw [path_inj hother h hpath]
  simp only [generateQuarterSummary, readText, List.not_mem_nil, if_false, List.map_map, total]
  refine congrArg List.sum (List.map_congr_left fun file h => ?_)
  simp [hlookup file h]

theorem countExchanges_eq_zero_iff (text : Text) :
    countExchanges text = 0 ↔ ¬"**User:**".toList <:+: text :=
  occurrences_eq_zero_iff (by decide)

/-- Each call adds one at least. -/
theorem length_le_counted (calls : List LogCall) : calls.length ≤ (calls.map counted).sum := by
  induction calls with
  | nil => exact Nat.le_refl 0
  | cons call calls ih =>
    rw [List.map_cons, List.sum_cons, List.length_cons, counted]
    omega

theorem sum_counted_iff (calls : List LogCall) : (calls.map counted).sum = calls.length ↔
    ∀ call ∈ calls, ¬"**User:**".toList <:+: call.userMessage ∧
      ¬"**User:**".toList <:+: call.assistantMessage := by
  induction calls with
  | nil => exact iff_of_true rfl nofun
  | cons call calls ih =>
    have hrest := length_le_counted calls
    rw [List.forall_mem_cons, ← ih, List.map_cons, List.sum_cons, List.length_cons, counted,
      ← countExchanges_eq_zero_iff, ← countExchanges_eq_zero_iff]
    omega

theorem count_iff (digits : LocaleDigits) (calls : List LogCall) :
    (∀ calendar quarter, (generateQuarterSummary calendar (appendAll digits calls) [] quarter
      ((appendAll digits calls).files.map (·.path))).totalExchanges = calls.length) ↔
        ∀ call ∈ calls, ¬"**User:**".toList <:+: call.userMessage ∧
          ¬"**User:**".toList <:+: call.assistantMessage := by
  simp only [totalExchanges_eq, (logInv_appendAll digits calls).counts, sum_counted_iff]
  exact ⟨fun h => h ⟨fun _ => 0, fun _ => 0, fun _ => []⟩ [], fun h _ _ => h⟩

theorem countsBack_iff (digits : LocaleDigits) (calls : List LogCall) :
    CountsBack digits calls ↔ Unmistakable digits calls := by
  have hinv := logInv_appendAll digits calls
  constructor
  · intro h
    refine ⟨(count_iff digits calls).mp h.count, fun before call after hcalls hearlier => ?_⟩
    have hfind : calls.find? (fun c => c.path digits = call.path digits) = some call := by
      have hnone : before.find? (fun c => c.path digits = call.path digits) = none := by
        rw [List.find?_eq_none]
        exact fun c hc hpath => hearlier c hc (of_decide_eq_true hpath)
      rw [hcalls, List.find?_append, hnone]
      simp
    obtain ⟨file, hfile, hpath⟩ := hinv.logged call (by simp [hcalls])
    rw [← hpath] at hfind
    obtain ⟨first, hfirst, pre, rest, hpre, hcontent⟩ := hinv.begun file hfile
    obtain rfl := Option.some.inj (hfirst.symm.trans hfind)
    have hread := h.first file hfile first hfirst
    rw [hcontent] at hread
    exact (extractFirstExchange_iff hpre).mp hread
  · intro h
    refine ⟨(count_iff digits calls).mpr h.unmarked, fun file hfile call hfind => ?_⟩
    obtain ⟨first, hfirst, pre, rest, hpre, hcontent⟩ := hinv.begun file hfile
    obtain rfl := Option.some.inj (hfirst.symm.trans hfind)
    obtain ⟨hpath, before, after, hcalls, hearlier⟩ := List.find?_eq_some_iff_append.mp hfind
    have hsame : first.path digits = file.path := of_decide_eq_true hpath
    rw [hcontent, extractFirstExchange_iff hpre]
    refine h.begun before first after hcalls fun earlier hmem heq => ?_
    have hnot := hearlier earlier hmem
    rw [heq, hsame] at hnot
    simp at hnot

end Writer

def latinDigits : LocaleDigits where
  digit := fun n => Nat.digitChar (n % 10)
  plain := fun n => by
    have hdigits : ∀ m < 10, Nat.digitChar m ≠ '*' := by decide
    exact hdigits (n % 10) (Nat.mod_lt n (by omega))

/-- A question about the marker itself. -/
def markerCall : LogCall where
  year := 2025
  month := 1
  day := 2
  hour := 10
  minute := 30
  currentTimeMillis := 0
  modified := 0
  userMessage := "What does **User:** mean?".toList
  assistantMessage := "It marks what you say.".toList

theorem marker_counted_twice : ¬∀ digits calls, CountsBack digits calls := by
  intro h
  have hfree := (count_iff _ _).mp (h latinDigits [markerCall]).count
  exact (hfree markerCall List.mem_cons_self).1 (by decide)

end HeyNilo
