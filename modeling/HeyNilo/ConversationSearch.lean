import HeyNilo.MemoryCompaction
import HeyNilo.ReplyFilter

namespace HeyNilo

/-- A Kotlin `String` as its UTF-16 units. -/
abbrev Units := List UInt16

/-- For characters that are one unit each. -/
def units (s : String) : Units := s.toList.map fun c => c.toNat.toUInt16

/-- Capital I with a dot above. -/
def dottedI : UInt16 := 0x130

/-- `lowercase()`, unit by unit: surrogates and a final sigma go by what stands before and behind
them, and only the dotted capital I becomes two units. -/
structure CaseTables where
  lowerAt : (before : Units) → (unit : UInt16) → (after : Units) → Units
  length_lowerAt : ∀ before unit after,
    (lowerAt before unit after).length = if unit = dottedI then 2 else 1

namespace CaseTables

/-- What each unit of a text becomes. -/
def piecesFrom (tables : CaseTables) : (before s : Units) → List Units
  | _, [] => []
  | before, u :: s => tables.lowerAt before u s :: tables.piecesFrom (before ++ [u]) s

def pieces (tables : CaseTables) (s : Units) : List Units := tables.piecesFrom [] s

def lowercase (tables : CaseTables) (s : Units) : Units := (tables.pieces s).flatten

end CaseTables

/-- `\s`; no surrogate is one. -/
def isSpaceUnit (u : UInt16) : Bool := isPatternSpace (Char.ofNat u.toNat)

def isWhitespaceUnit (u : UInt16) : Bool := isWhitespace (Char.ofNat u.toNat)

/-- `replace(Regex("…+"), new)` for a class of units. `inRun` says that the run has begun. -/
def replaceRuns (accepts : UInt16 → Bool) (new : Units) : (inRun : Bool) → Units → Units
  | _, [] => []
  | inRun, u :: s =>
    if accepts u then (if inRun then [] else new) ++ replaceRuns accepts new true s
    else u :: replaceRuns accepts new false s

def trimUnits (s : Units) : Units :=
  ((s.dropWhile isWhitespaceUnit).reverse.dropWhile isWhitespaceUnit).reverse

/-- `indexOf(old)` -/
def indexOf (old : Units) : Units → Option Nat
  | [] => if old = [] then some 0 else none
  | u :: s => if old <+: u :: s then some 0 else (indexOf old s).map (· + 1)

/-- `substring(start, stop)`: none where it throws. -/
def substring (s : Units) (start stop : Nat) : Option Units :=
  if start ≤ stop ∧ stop ≤ s.length then some ((s.take stop).drop start) else none

namespace MemoryManager

/-- The places between which `extractExcerpt` cuts the content for a hit at `index`. -/
def excerptStart (index : Nat) : Nat := index - 50

def excerptEnd (content query : Units) (index : Nat) : Nat :=
  min (index + query.length + 50) content.length

/-- Removal of the markdown, white space, `trim()`. -/
def cleanExcerpt (excerpt : Units) : Units :=
  trimUnits (replaceRuns isSpaceUnit (units " ") false
    (replaceRuns (· == 0x2A) [] false excerpt))

/-- None where it throws. -/
def extractExcerpt (tables : CaseTables) (content query : Units) (maxLength : Nat) :
    Option Units :=
  match indexOf (tables.lowercase query) (tables.lowercase content) with
  | none => some (content.take maxLength)
  | some index =>
    let start := excerptStart index
    let stop := excerptEnd content query index
    (substring content start stop).map fun excerpt =>
      let excerpt := if start > 0 then units "..." ++ excerpt else excerpt
      let excerpt := if stop < content.length then excerpt ++ units "..." else excerpt
      cleanExcerpt excerpt

/-- A file under `memory/conversations`; no content where reading it throws. -/
structure SearchedFile where
  path : Text
  lastModified : Int
  content : Option Units

/-- What `walkTopDown` comes to, in its order. -/
structure SearchedDir where
  files : List SearchedFile
  distinct : (files.map (·.path)).Nodup

def SearchedFile.name (file : SearchedFile) : Text := substringAfterLast '/' file.path file.path

structure ConversationMatch where
  fileName : Text
  filePath : Text
  date : Text
  excerpt : Units
  lastModified : Int

/-- `removeSuffix(".md")` -/
def extractDateFromFileName (fileName : Text) : Text :=
  if ".md".toList <:+ fileName then fileName.take (fileName.length - 3) else fileName

/-- The files that are looked at. -/
def examined (now : Int) (dir : SearchedDir) : List SearchedFile :=
  let thirtyDaysAgo := now - 30 * 24 * 60 * 60 * 1000
  ((dir.files.filter fun file => MemoryCompaction.extension file.path = "md".toList).filter fun file =>
    thirtyDaysAgo < file.lastModified).take 50

/-- A file whose search throws gives nothing. -/
def searchFile (tables : CaseTables) (query : Units) (file : SearchedFile) :
    Option ConversationMatch :=
  file.content.bind fun content =>
    if query <:+: tables.lowercase content then
      (extractExcerpt tables content query 150).map fun excerpt =>
        { fileName := file.name
          filePath := file.path
          date := extractDateFromFileName file.name
          excerpt
          lastModified := file.lastModified }
    else none

def searchConversations (tables : CaseTables) (now : Int) (dir : SearchedDir) (query : Units) :
    List ConversationMatch :=
  ((examined now dir).filterMap (searchFile tables query)).insertionSort fun a b =>
    b.lastModified ≤ a.lastModified

/-- The slice is taken, and the lower case of a part of the content in it contains the query. -/
def ShowsHit (tables : CaseTables) (content query : Units) : Prop :=
  (extractExcerpt tables content query 150).isSome ∧
    ∃ index, indexOf (tables.lowercase query) (tables.lowercase content) = some index ∧
      ∃ a b, excerptStart index ≤ a ∧ a ≤ b ∧ b ≤ excerptEnd content query index ∧
        tables.lowercase query <:+: (((tables.pieces content).take b).drop a).flatten

/-- How many of the first `n` units are dotted capital I. -/
def dots (content : Units) (n : Nat) : Nat := (content.take n).count dottedI

def ExcerptShowsHit (tables : CaseTables) (content query : Units) : Prop :=
  tables.lowercase query <:+: tables.lowercase content → ShowsHit tables content query

/-- A hit, at `i` of the lower-cased content, of which the 50 units before and behind the place of the
first one, at `index`, reach all. -/
def WithinReach (tables : CaseTables) (content query : Units) (index : Nat) : Prop :=
  ∃ i, tables.lowercase query <+: (tables.lowercase content).drop i ∧
    index - 50 + dots content (index - 50) ≤ i ∧
      i + (tables.lowercase query).length ≤
        index + query.length + 50 + dots content (index + query.length + 50)

/-- Each readable file that is looked at and contains the query has a match. -/
def MatchesEach (tables : CaseTables) (now : Int) (dir : SearchedDir) (query : Units) : Prop :=
  ∀ file ∈ examined now dir, ∀ content, file.content = some content →
    query <:+: tables.lowercase content →
      ∃ m ∈ searchConversations tables now dir query, m.filePath = file.path

end MemoryManager

section Pieces

variable {α : Type*} {ps : List (List α)} {q s : List α} {a b i : Nat}

/-- The hits in a slice of the pieces. -/
theorem infix_slice_iff (hab : a ≤ b) :
    q <:+: ((ps.take b).drop a).flatten ↔ ∃ i, q <+: ps.flatten.drop i ∧
      (ps.take a).flatten.length ≤ i ∧ i + q.length ≤ (ps.take b).flatten.length := by
  have hfront : (ps.take b).flatten = (ps.take a).flatten ++ ((ps.take b).drop a).flatten := by
    have htake := List.take_append_drop a (ps.take b)
    rw [List.take_take, Nat.min_eq_left hab] at htake
    rw [← List.flatten_append, htake]
  have hall : ps.flatten = (ps.take b).flatten ++ (ps.drop b).flatten := by
    rw [← List.flatten_append, List.take_append_drop]
  rw [hall, hfront]
  generalize (ps.take a).flatten = x
  generalize ((ps.take b).drop a).flatten = y
  generalize (ps.drop b).flatten = z
  constructor
  · rintro ⟨u, v, rfl⟩
    refine ⟨x.length + u.length, ⟨v ++ z, ?_⟩, Nat.le_add_right _ _, ?_⟩
    · have hsplit : x ++ (u ++ q ++ v) ++ z = (x ++ u) ++ (q ++ (v ++ z)) := by simp
      rw [hsplit, ← List.length_append, List.drop_left]
    · simp only [List.length_append]
      omega
  · rintro ⟨i, hq, hstart, hend⟩
    have hdrop : (x ++ y ++ z).drop i = y.drop (i - x.length) ++ z := by
      rw [List.append_assoc, List.drop_append, List.drop_eq_nil_of_le hstart, List.nil_append,
        List.drop_append_of_le_length]
      rw [List.length_append] at hend
      omega
    rw [hdrop] at hq
    rw [List.length_append] at hend
    have hshort : q.length ≤ (y.drop (i - x.length)).length := by
      rw [List.length_drop]
      omega
    have hprefix : q <+: y.drop (i - x.length) :=
      List.prefix_of_prefix_length_le hq (List.prefix_append _ _) hshort
    exact hprefix.isInfix.trans (List.drop_suffix _ _).isInfix

end Pieces

namespace CaseTables

variable {tables : CaseTables} {content before s : Units} {n : Nat}

theorem length_piecesFrom : (tables.piecesFrom before s).length = s.length := by
  induction s generalizing before with
  | nil => rfl
  | cons u s ih => exact congrArg Nat.succ ih

/-- The lower case of the first `n` units is as long as they are, and one more for each dotted I. -/
theorem length_take_pieces : ((tables.pieces content).take n).flatten.length =
    (content.take n).length + MemoryManager.dots content n := by
  unfold pieces MemoryManager.dots
  generalize ([] : Units) = before
  induction content generalizing before n with
  | nil => simp [piecesFrom]
  | cons u s ih =>
    cases n with
    | zero => rfl
    | succ n =>
      rw [piecesFrom, List.take_succ_cons, List.take_succ_cons, List.flatten_cons,
        List.length_append, ih, tables.length_lowerAt, List.length_cons, List.count_cons]
      split <;> simp_all <;> omega

end CaseTables

namespace MemoryManager

variable {tables : CaseTables} {content query old s : Units} {index i n : Nat} {now : Int}
  {dir : SearchedDir} {file : SearchedFile}

theorem indexOf_some (h : indexOf old s = some i) : old <+: s.drop i ∧ i ≤ s.length := by
  induction s generalizing i with
  | nil =>
    rw [indexOf] at h
    split at h
    next hnil =>
      cases h
      exact ⟨hnil ▸ List.nil_prefix, Nat.le_refl _⟩
    next => cases h
  | cons u s ih =>
    rw [indexOf] at h
    split at h
    next hhead =>
      cases h
      exact ⟨hhead, Nat.zero_le _⟩
    next =>
      obtain ⟨j, hj, rfl⟩ := Option.map_eq_some_iff.mp h
      exact ⟨(ih hj).1, Nat.succ_le_succ (ih hj).2⟩

theorem indexOf_nil (s : Units) : indexOf [] s = some 0 := by
  cases s with
  | nil => rfl
  | cons u s => exact if_pos List.nil_prefix

theorem indexOf_isSome (h : old <:+: s) : ∃ i, indexOf old s = some i := by
  induction s with
  | nil => exact ⟨0, if_pos (List.infix_nil.mp h)⟩
  | cons u s ih =>
    by_cases hprefix : old <+: u :: s
    · exact ⟨0, if_pos hprefix⟩
    · obtain ⟨i, hi⟩ := ih ((List.infix_cons_iff.mp h).resolve_left hprefix)
      exact ⟨i + 1, by rw [indexOf, if_neg hprefix, hi, Option.map_some]⟩

theorem dots_mono {m : Nat} (h : n ≤ m) : dots content n ≤ dots content m :=
  ((List.take_prefix_take_left h).sublist).count_le _

theorem excerptStart_le_end (h : index - 50 ≤ content.length) :
    excerptStart index ≤ excerptEnd content query index := by
  unfold excerptStart excerptEnd
  omega

/-- The only thing that throws is a slice that begins behind the content. -/
theorem extractExcerpt_isSome_iff : (extractExcerpt tables content query n).isSome ↔
    ∀ index, indexOf (tables.lowercase query) (tables.lowercase content) = some index →
      index ≤ content.length + 50 := by
  unfold extractExcerpt
  cases hindex : indexOf (tables.lowercase query) (tables.lowercase content) with
  | none => exact ⟨fun _ _ h => absurd h (Option.some_ne_none _).symm, fun _ => rfl⟩
  | some index =>
    have hstop : excerptEnd content query index ≤ content.length := Nat.min_le_right _ _
    rw [Option.isSome_map, substring]
    constructor
    · intro h j hj
      cases hj
      split at h
      next hslice =>
        have hstart : index - 50 ≤ content.length := hslice.1.trans hstop
        omega
      next => cases h
    · intro h
      have hle := h index rfl
      rw [if_pos ⟨excerptStart_le_end (by omega), hstop⟩]
      rfl

theorem showsHit_iff : ShowsHit tables content query ↔ ∃ index,
    indexOf (tables.lowercase query) (tables.lowercase content) = some index ∧
      WithinReach tables content query index := by
  have hlower (n : Nat) := @CaseTables.length_take_pieces tables content n
  constructor
  · rintro ⟨-, index, hindex, a, b, ha, hab, hb, hslice⟩
    obtain ⟨i, hi, hstart, hend⟩ := (infix_slice_iff hab).mp hslice
    have hlen : b ≤ content.length := hb.trans (Nat.min_le_right _ _)
    have hreach : b ≤ index + query.length + 50 := hb.trans (Nat.min_le_left _ _)
    have hbegin : index - 50 ≤ a := ha
    have hdotsStart := @dots_mono content _ _ hbegin
    have hdotsEnd := @dots_mono content _ _ hreach
    rw [hlower, List.length_take_of_le (hab.trans hlen)] at hstart
    rw [hlower, List.length_take_of_le hlen] at hend
    exact ⟨index, hindex, i, hi, by omega, by omega⟩
  · rintro ⟨index, hindex, i, hi, hstart, hend⟩
    by_cases hnil : tables.lowercase query = []
    · rw [hnil, indexOf_nil] at hindex
      cases hindex
      have hsome : (extractExcerpt tables content query 150).isSome :=
        extractExcerpt_isSome_iff.mpr fun index h => by
          rw [hnil, indexOf_nil] at h
          cases h
          exact Nat.zero_le _
      refine ⟨hsome, 0, by rw [hnil, indexOf_nil], 0, 0, Nat.le_refl _, Nat.le_refl _,
        Nat.zero_le _, ?_⟩
      rw [hnil]
      exact List.nil_infix
    · have hwhole : (tables.lowercase content).length = content.length + dots content content.length := by
        have hall := hlower content.length
        have hpieces : (tables.pieces content).length = content.length :=
          CaseTables.length_piecesFrom
        rwa [List.take_of_length_le (Nat.le_of_eq hpieces), List.take_length] at hall
      have hpos := List.length_pos_iff.mpr hnil
      have hfits := hi.length_le
      rw [List.length_drop, hwhole] at hfits
      have hlen : index - 50 ≤ content.length := by
        by_contra hfar
        have hdots : dots content (index - 50) = dots content content.length := by
          unfold dots
          rw [List.take_length, List.take_of_length_le (by omega)]
        omega
      have hsome : (extractExcerpt tables content query 150).isSome :=
        extractExcerpt_isSome_iff.mpr fun j hj => by
          cases hindex.symm.trans hj
          omega
      have hslice : excerptStart index ≤ excerptEnd content query index := excerptStart_le_end hlen
      refine ⟨hsome, index, hindex, _, _, Nat.le_refl _, hslice, Nat.le_refl _, ?_⟩
      refine (infix_slice_iff hslice).mpr ⟨i, hi, ?_, ?_⟩
      · rw [hlower, excerptStart, List.length_take_of_le hlen]
        exact hstart
      · rw [hlower]
        unfold excerptEnd
        rcases Nat.le_total (index + query.length + 50) content.length with hshort | hlong
        · rw [Nat.min_eq_left hshort, List.length_take_of_le hshort]
          exact hend
        · rw [Nat.min_eq_right hlong, List.take_length]
          omega

theorem mem_searchConversations {m : ConversationMatch} :
    m ∈ searchConversations tables now dir query ↔
      ∃ file ∈ examined now dir, searchFile tables query file = some m := by
  rw [searchConversations, List.mem_insertionSort, List.mem_filterMap]

theorem examined_sublist : (examined now dir).Sublist dir.files :=
  (List.take_sublist _ _).trans (List.filter_sublist.trans List.filter_sublist)

theorem matchesEach_iff : MatchesEach tables now dir query ↔
    ∀ file ∈ examined now dir, ∀ content, file.content = some content →
      query <:+: tables.lowercase content → ∀ index,
        indexOf (tables.lowercase query) (tables.lowercase content) = some index →
          index ≤ content.length + 50 := by
  constructor
  · intro h file hfile content hcontent hquery
    obtain ⟨m, hm, hpath⟩ := h file hfile content hcontent hquery
    obtain ⟨other, hother, hsearch⟩ := mem_searchConversations.mp hm
    obtain ⟨text, htext, hsearch⟩ := Option.bind_eq_some_iff.mp hsearch
    obtain ⟨-, hmatch⟩ := Option.ite_none_right_eq_some.mp hsearch
    obtain ⟨excerpt, hexcerpt, rfl⟩ := Option.map_eq_some_iff.mp hmatch
    obtain rfl : other = file := List.inj_on_of_nodup_map dir.distinct
      (examined_sublist.subset hother) (examined_sublist.subset hfile) hpath
    cases htext.symm.trans hcontent
    exact extractExcerpt_isSome_iff.mp (Option.isSome_of_eq_some hexcerpt)
  · intro h file hfile content hcontent hquery
    have hsome : (extractExcerpt tables content query 150).isSome :=
      extractExcerpt_isSome_iff.mpr (h file hfile content hcontent hquery)
    obtain ⟨excerpt, hexcerpt⟩ := Option.isSome_iff_exists.mp hsome
    have hsearch : searchFile tables query file =
        some ⟨file.name, file.path, extractDateFromFileName file.name, excerpt, file.lastModified⟩ := by
      rw [searchFile, hcontent, Option.bind_some, if_pos hquery, hexcerpt, Option.map_some]
    exact ⟨_, mem_searchConversations.mpr ⟨file, hfile, hsearch⟩, rfl⟩

theorem excerptShowsHit_iff : ExcerptShowsHit tables content query ↔ ∀ index,
    indexOf (tables.lowercase query) (tables.lowercase content) = some index →
      WithinReach tables content query index := by
  rw [ExcerptShowsHit, showsHit_iff]
  constructor
  · intro h index hindex
    have hinfix := (indexOf_some hindex).1.isInfix.trans (List.drop_suffix _ _).isInfix
    obtain ⟨j, hj, hreach⟩ := h hinfix
    cases hindex.symm.trans hj
    exact hreach
  · intro h hinfix
    obtain ⟨index, hindex⟩ := indexOf_isSome hinfix
    exact ⟨index, hindex, h index hindex⟩

/-- Without a dotted capital I an excerpt shows the hit. -/
theorem withinReach_of_plain (hcontent : dottedI ∉ content) (hquery : dottedI ∉ query)
    (hindex : indexOf (tables.lowercase query) (tables.lowercase content) = some index) :
    WithinReach tables content query index := by
  have hdots {s : Units} (hs : dottedI ∉ s) (n : Nat) : dots s n = 0 :=
    List.count_eq_zero.mpr fun hmem => hs (List.mem_of_mem_take hmem)
  have hlength : (tables.lowercase query).length = query.length := by
    have hall := @CaseTables.length_take_pieces tables query query.length
    have hpieces : (tables.pieces query).length = query.length := CaseTables.length_piecesFrom
    rwa [List.take_of_length_le (Nat.le_of_eq hpieces), List.take_length, hdots hquery] at hall
  refine ⟨index, (indexOf_some hindex).1, ?_, ?_⟩
  · rw [hdots hcontent]
    omega
  · rw [hlength]
    omega

/-- When an excerpt shows the hit, and when each file with a hit has a match. -/
theorem search_shows_hits_iff (tables : CaseTables) :
    (∀ content query, ExcerptShowsHit tables content query ↔ ∀ index,
      indexOf (tables.lowercase query) (tables.lowercase content) = some index →
        WithinReach tables content query index) ∧
      ∀ now dir query, MatchesEach tables now dir query ↔
        ∀ file ∈ examined now dir, ∀ content, file.content = some content →
          query <:+: tables.lowercase content → ∀ index,
            indexOf (tables.lowercase query) (tables.lowercase content) = some index →
              index ≤ content.length + 50 :=
  ⟨fun _ _ => excerptShowsHit_iff, fun _ _ _ => matchesEach_iff⟩

/-- The lower case of ASCII and of the dotted capital I. -/
def asciiCase : CaseTables where
  lowerAt _ u _ :=
    if u = dottedI then [0x69, 0x307] else if 65 ≤ u ∧ u ≤ 90 then [u + 32] else [u]
  length_lowerAt _ u _ := by
    split
    next => rfl
    next => split <;> rfl

def dottedContent : Units := List.replicate 60 dottedI ++ units "cat"

def dottedDir : SearchedDir where
  files := [⟨"2025/01-January/2025-01-01.md".toList, 0, some dottedContent⟩]
  distinct := by decide

/-- Behind 60 dotted capital I the slice throws, and the file is not among the results. -/
theorem search_throws_behind_dots :
    ¬ ExcerptShowsHit asciiCase dottedContent (units "cat") ∧
      ¬ MatchesEach asciiCase 0 dottedDir (units "cat") := by
  have hinfix : asciiCase.lowercase (units "cat") <:+: asciiCase.lowercase dottedContent := by
    decide +kernel
  have hthrows : extractExcerpt asciiCase dottedContent (units "cat") 150 = none := by
    decide +kernel
  have hempty : (searchConversations asciiCase 0 dottedDir (units "cat")).isEmpty = true := by
    decide +kernel
  constructor
  · intro h
    obtain ⟨hsome, -⟩ := h hinfix
    rw [hthrows] at hsome
    cases hsome
  · intro h
    have hexamined : examined 0 dottedDir =
        [⟨"2025/01-January/2025-01-01.md".toList, 0, some dottedContent⟩] := rfl
    obtain ⟨m, hm, -⟩ := h _ (hexamined.symm ▸ List.mem_singleton_self _) _ rfl
      (show units "cat" <:+: asciiCase.lowercase dottedContent by decide +kernel)
    rw [List.isEmpty_iff.mp hempty] at hm
    exact absurd hm List.not_mem_nil

end MemoryManager

end HeyNilo
