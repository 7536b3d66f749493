import HeyNilo.TokenOutput
import Mathlib.Data.List.TakeWhile

namespace HeyNilo

open Utf8

def stopMarkers : List Bytes := [ascii "<|im_start|>", ascii "--EndConversation--"]

/-- The text of the pieces as the loop displays it. -/
def display (pieces : List Bytes) : Bytes := (pieces.map (replaceSpaceMarker 0)).flatten

/-- The sanitised concatenation of the pieces. -/
def sanitized (pieces : List Bytes) : Bytes := sanitizeForJNI (display pieces)

/-- The pieces before the first one that stops the loop. -/
def beforeStop (pieces : List Bytes) : List Bytes := pieces.takeWhile fun p => !stopsAt p

/-- `text` holds no marker and is the sanitised text of the pieces, cut where the loop stopped, and
that is at or before the first marker of the whole text. -/
structure CutAtMarker (pieces : List Bytes) (text : Bytes) : Prop where
  hidden : ∀ marker ∈ stopMarkers, ¬marker <:+: text
  cut : text = sanitized (beforeStop pieces)
  early : ∀ marker ∈ stopMarkers, ∀ u v, sanitized pieces = u ++ marker ++ v →
    text.length ≤ u.length

/-- A character stands across the end of `x`. -/
def Split (x y : Bytes) : Prop :=
  ∃ u w, u ≠ [] ∧ w ≠ [] ∧ IsSequence (u ++ w) ∧ u <:+ x ∧ w <+: y

/-- No character is spread over several of these pieces. -/
def Unsplit (pieces : List Bytes) : Prop :=
  ∀ before after, pieces = before ++ after → ¬Split (display before) (display after)

/-- In the text of `p` and the pieces behind it, a marker begins inside of what `p` shows. -/
def BeginsIn (marker p : Bytes) (after : List Bytes) : Prop :=
  ∃ u v, sanitized (p :: after) = u ++ marker ++ v ∧ u.length < (shown p).length

/-- Before the first piece that holds a whole marker no character is spread over several pieces, and
no marker begins. -/
structure MarkersWhole (pieces : List Bytes) : Prop where
  chars : Unsplit (beforeStop pieces)
  markers : ∀ before p after, pieces = before ++ p :: after →
    (∀ q ∈ before ++ [p], stopsAt q = false) → ∀ marker ∈ stopMarkers, ¬BeginsIn marker p after

section

variable {x y u w : Bytes} {pieces before after more : List Bytes} {p q : Bytes}

@[simp] theorem display_nil : display [] = [] := rfl

@[simp] theorem display_cons (p : Bytes) (pieces : List Bytes) :
    display (p :: pieces) = replaceSpaceMarker 0 p ++ display pieces := rfl

@[simp] theorem display_append (pieces more : List Bytes) :
    display (pieces ++ more) = display pieces ++ display more := by
  simp [display]

theorem sanitizeForJNI_tails {tails : Bytes} (htails : ∀ b ∈ tails, isTail b = true) (s : Bytes) :
    sanitizeForJNI (tails ++ s) = sanitizeForJNI s := by
  induction tails with
  | nil => rfl
  | cons b tails ih =>
    obtain ⟨hb, htails⟩ := List.forall_mem_cons.mp htails
    rw [List.cons_append, sanitizeForJNI_tail hb, ih htails]

/-- What follows the first part of a cut character is tail bytes. -/
theorem tails_of_split (hu : u ≠ []) (h : IsSequence (u ++ w)) : ∀ b ∈ w, isTail b = true := by
  obtain ⟨lead, tails, heq, -, htails⟩ := h
  obtain ⟨b, u, rfl⟩ := List.exists_cons_of_ne_nil hu
  obtain ⟨-, hrest⟩ := List.cons.inj heq
  intro b hb
  exact htails b (hrest ▸ List.mem_append_right u hb)

/-- The sanitiser works on each of two parts, but for a character that stands across their border. -/
theorem sanitizeForJNI_append (x y : Bytes) :
    sanitizeForJNI (x ++ y) = sanitizeForJNI x ++ sanitizeForJNI y ∨
      ∃ u w, u ≠ [] ∧ w ≠ [] ∧ IsSequence (u ++ w) ∧ u <:+ x ∧ w <+: y ∧
        sanitizeForJNI (x ++ y) = sanitizeForJNI x ++ (u ++ w) ++ sanitizeForJNI y := by
  induction x using sanitize_induction with
  | nil => exact .inl rfl
  | unit e s he hne ih =>
    rw [List.append_assoc, sanitizeForJNI_unit he hne, sanitizeForJNI_unit he hne]
    rcases ih with ih | ⟨u, w, hu, hw, hunit, hsuffix, hafter, ih⟩
    · exact .inl (by rw [ih, List.append_assoc])
    · refine .inr ⟨u, w, hu, hw, hunit, hsuffix.trans (List.suffix_append e s), hafter, ?_⟩
      rw [ih]
      simp only [List.append_assoc]
  | dropped c s hc ih =>
    have hshort : sanitizeForJNI (c :: s) = sanitizeForJNI s := sanitizeForJNI_drop hc
    have hlater (hdrop : sanitizeForJNI (c :: (s ++ y)) = sanitizeForJNI (s ++ y)) :
        sanitizeForJNI (c :: s ++ y) = sanitizeForJNI (c :: s) ++ sanitizeForJNI y ∨
          ∃ u w, u ≠ [] ∧ w ≠ [] ∧ IsSequence (u ++ w) ∧ u <:+ c :: s ∧ w <+: y ∧
            sanitizeForJNI (c :: s ++ y) =
              sanitizeForJNI (c :: s) ++ (u ++ w) ++ sanitizeForJNI y := by
      rw [List.cons_append, hdrop, hshort]
      rcases ih with ih | ⟨u, w, hu, hw, hunit, hsuffix, hafter, ih⟩
      · exact .inl ih
      · exact .inr ⟨u, w, hu, hw, hunit, hsuffix.trans (List.suffix_cons c s), hafter, ih⟩
    by_cases hzero : c = 0
    · exact hlater (sanitizeForJNI_drop (.inl hzero))
    by_cases hlonger : ∃ e rest, IsSequence e ∧ c :: (s ++ y) = e ++ rest
    · obtain ⟨e, rest, he, heq⟩ := hlonger
      have hnone := hc.resolve_left hzero
      -- `e` does not end within `c :: s`
      rcases List.append_eq_append_iff.mp (show c :: s ++ y = e ++ rest from heq) with
        ⟨w, hcs, hy⟩ | ⟨s', hcs, -⟩
      · have hw : w ≠ [] := by
          rintro rfl
          rw [List.append_nil] at hcs
          exact hnone e [] he (by rw [hcs, List.append_nil])
        have hne : c :: s ++ w ≠ [0] := by
          intro hnul
          exact hzero (List.cons.inj hnul).1
        rw [hcs] at he
        have htails := tails_of_split (List.cons_ne_nil c s) he
        have htails' : ∀ b ∈ s, isTail b = true := fun b hb =>
          tails_of_split (u := [c]) (w := s ++ w) (List.cons_ne_nil c []) he b
            (List.mem_append_left w hb)
        have hsnone : sanitizeForJNI s = [] := by
          have hall := sanitizeForJNI_tails htails' []
          rwa [List.append_nil] at hall
        refine .inr ⟨c :: s, w, List.cons_ne_nil c s, hw, he, List.suffix_refl _,
          ⟨rest, hy.symm⟩, ?_⟩
        rw [hy, ← List.append_assoc, sanitizeForJNI_unit he hne, hshort, hsnone,
          sanitizeForJNI_tails htails, List.nil_append]
      · exact absurd hcs (hnone e s' he)
    · refine hlater (sanitizeForJNI_drop (.inr ?_))
      intro e rest he heq
      exact hlonger ⟨e, rest, he, heq⟩

theorem append_of_not_split (h : ¬Split x y) :
    sanitizeForJNI (x ++ y) = sanitizeForJNI x ++ sanitizeForJNI y := by
  rcases sanitizeForJNI_append x y with heq | ⟨u, w, hu, hw, hunit, hsuffix, hafter, -⟩
  · exact heq
  · exact absurd ⟨u, w, hu, hw, hunit, hsuffix, hafter⟩ h

/-- A cut character is in the whole text and in neither part. -/
theorem length_of_split (h : Split x y) :
    (sanitizeForJNI x).length + (sanitizeForJNI y).length < (sanitizeForJNI (x ++ y)).length := by
  obtain ⟨u, w, hu, hw, hunit, ⟨x', rfl⟩, y', rfl⟩ := h
  obtain ⟨b, t, rfl⟩ := List.exists_cons_of_ne_nil hu
  have hb : isTail b = false := hunit.head_not_tail
  have ht : ∀ c ∈ t, isTail c = true := by
    obtain ⟨lead, tails, heq, -, htails⟩ := hunit
    exact fun c hc => htails c ((List.cons.inj heq).2 ▸ List.mem_append_left w hc)
  have hborder (z : Bytes) : ¬Split x' (b :: z) := by
    intro hsplit
    obtain ⟨u', w', hu', hw', hunit', -, hafter⟩ := hsplit
    obtain ⟨c, w', rfl⟩ := List.exists_cons_of_ne_nil hw'
    obtain ⟨z', hz'⟩ := hafter
    have htail := tails_of_split hu' hunit' c List.mem_cons_self
    rw [(List.cons.inj hz').1, hb] at htail
    cases htail
  have hne : b :: t ++ w ≠ [0] := by
    intro hnul
    have hlen := congrArg List.length hnul
    have hpos := List.length_pos_iff.mpr hw
    simp only [List.length_append, List.length_cons, List.length_nil] at hlen
    omega
  have hpart : sanitizeForJNI (b :: t) = [] := by
    have hdrop : sanitizeForJNI (b :: t) = sanitizeForJNI t := by
      refine sanitizeForJNI_drop (.inr fun e rest he heq => hw ?_)
      have hlong : b :: t ++ w = e ++ (rest ++ w) := by rw [heq, List.append_assoc]
      have hsame := (hunit.append_inj he (s := []) (by rw [List.append_nil]; exact hlong)).2
      exact (List.append_eq_nil_iff.mp hsame.symm).2
    rw [hdrop, ← List.append_nil t, sanitizeForJNI_tails ht]
    rfl
  have hwhole : x' ++ b :: t ++ (w ++ y') = x' ++ (b :: t ++ w ++ y') := by
    simp only [List.append_assoc]
  have hall : sanitizeForJNI (x' ++ (b :: t ++ w ++ y')) =
      sanitizeForJNI x' ++ sanitizeForJNI (b :: t ++ w ++ y') :=
    append_of_not_split (hborder (t ++ w ++ y'))
  rw [hwhole, hall, append_of_not_split (hborder t), hpart, sanitizeForJNI_unit hunit hne,
    sanitizeForJNI_tails (tails_of_split hu hunit)]
  simp only [List.length_append, List.length_cons, List.length_nil]
  omega

theorem unsplit_cons : Unsplit (p :: pieces) ↔
    ¬Split (replaceSpaceMarker 0 p) (display pieces) ∧ Unsplit pieces := by
  constructor
  · intro h
    refine ⟨fun hsplit => ?_, fun before after heq hsplit => ?_⟩
    · refine h [p] pieces rfl ?_
      rwa [display_cons, display_nil, List.append_nil]
    · obtain ⟨u, w, hu, hw, hunit, hsuffix, hafter⟩ := hsplit
      exact h (p :: before) after (by rw [heq]; rfl)
        ⟨u, w, hu, hw, hunit, hsuffix.trans (List.suffix_append _ _), hafter⟩
  · rintro ⟨hfirst, hrest⟩ before after heq ⟨u, w, hu, hw, hunit, hsuffix, hafter⟩
    cases before with
    | nil => exact hu (List.suffix_nil.mp hsuffix)
    | cons q before =>
      obtain ⟨rfl, hpieces⟩ := List.cons.inj heq
      replace hpieces : pieces = before ++ after := hpieces
      subst hpieces
      rw [display_cons] at hsuffix
      by_cases hin : u <:+ display before
      · exact hrest before after rfl ⟨u, w, hu, hw, hunit, hin, hafter⟩
      · -- the character begins in `p`
        rcases List.suffix_or_suffix_of_suffix hsuffix (List.suffix_append _ _) with hin' | hover
        · exact hin hin'
        · obtain ⟨u', rfl⟩ := hover
          refine hfirst ⟨u', display before ++ w, ?_, ?_, ?_, ?_, ?_⟩
          · rintro rfl
            exact hin (List.suffix_refl _)
          · exact fun hnil => hw (List.append_eq_nil_iff.mp hnil).2
          · rwa [← List.append_assoc]
          · exact List.suffix_append_self_iff.mp hsuffix
          · rw [display_append]
            exact (List.prefix_append_right_inj _).mpr hafter

theorem Unsplit.left (h : Unsplit (pieces ++ more)) : Unsplit pieces := by
  intro before after heq hsplit
  obtain ⟨u, w, hu, hw, hunit, hsuffix, hafter⟩ := hsplit
  refine h before (after ++ more) (by rw [heq, List.append_assoc])
    ⟨u, w, hu, hw, hunit, hsuffix, ?_⟩
  rw [display_append]
  exact hafter.trans (List.prefix_append _ _)

theorem length_shown_le (pieces : List Bytes) :
    (pieces.map shown).flatten.length ≤ (sanitized pieces).length := by
  induction pieces with
  | nil => exact Nat.zero_le _
  | cons p pieces ih =>
    have hparts : (sanitizeForJNI (replaceSpaceMarker 0 p)).length + (sanitized pieces).length ≤
        (sanitized (p :: pieces)).length := by
      by_cases hsplit : Split (replaceSpaceMarker 0 p) (display pieces)
      · exact Nat.le_of_lt (length_of_split hsplit)
      · rw [sanitized, sanitized, display_cons, append_of_not_split hsplit, List.length_append]
    rw [List.map_cons, List.flatten_cons, List.length_append]
    exact Nat.le_trans (Nat.add_le_add_left ih _) hparts

/-- The pieces show their sanitised concatenation exactly where no character is spread over them. -/
theorem shown_eq_sanitized_iff (pieces : List Bytes) :
    (pieces.map shown).flatten = sanitized pieces ↔ Unsplit pieces := by
  induction pieces with
  | nil =>
    refine iff_of_true rfl ?_
    intro before after heq hsplit
    obtain ⟨u, w, hu, -, -, hsuffix, -⟩ := hsplit
    rw [(List.append_eq_nil_iff.mp heq.symm).1] at hsuffix
    exact hu (List.suffix_nil.mp hsuffix)
  | cons p pieces ih =>
    rw [unsplit_cons, List.map_cons, List.flatten_cons]
    by_cases hsplit : Split (replaceSpaceMarker 0 p) (display pieces)
    · refine iff_of_false (fun heq => ?_) fun hnone => hnone.1 hsplit
      have hlen := congrArg List.length heq
      have hfewer := length_shown_le pieces
      have hmore := length_of_split hsplit
      simp only [List.length_append, sanitized, display_cons, shown, shownFrom] at hlen hfewer hmore
      omega
    · rw [sanitized, display_cons, append_of_not_split hsplit, ← sanitized, ← ih]
      constructor
      · intro heq
        exact ⟨hsplit, List.append_cancel_left heq⟩
      · intro heq
        rw [heq.2]
        rfl

theorem stopsAt_of_mem_beforeStop (h : q ∈ beforeStop pieces) : stopsAt q = false := by
  have hgoes := List.mem_takeWhile_imp h
  simpa using hgoes

theorem beforeStop_append (h : ∀ q ∈ before, stopsAt q = false) (after : List Bytes) :
    beforeStop (before ++ after) = before ++ beforeStop after :=
  List.takeWhile_append_of_pos fun q hq => by simp [h q hq]

/-- The sanitised text from a piece that shows something on, where no character is spread over the
pieces before the stop. -/
theorem sanitized_from (hunsplit : Unsplit (before ++ p :: more)) (hshown : shown p ≠ [])
    (rest : List Bytes) :
    sanitized (before ++ p :: (more ++ rest)) =
      (before.map shown).flatten ++ sanitized (p :: (more ++ rest)) := by
  have hborder : ¬Split (display before) (display (p :: (more ++ rest))) := by
    intro hsplit
    obtain ⟨u, w, hu, hw, hunit, hsuffix, hafter⟩ := hsplit
    have htails := tails_of_split hu hunit
    rw [display_cons] at hafter
    rcases List.prefix_or_prefix_of_prefix hafter (List.prefix_append _ _) with hin | hover
    · refine hunsplit before (p :: more) rfl ⟨u, w, hu, hw, hunit, hsuffix, ?_⟩
      rw [display_cons]
      exact hin.trans (List.prefix_append _ _)
    · -- all of `p` would be tail bytes
      refine hshown ?_
      have hall : ∀ b ∈ replaceSpaceMarker 0 p, isTail b = true :=
        fun b hb => htails b (hover.subset hb)
      have hnone := sanitizeForJNI_tails hall []
      rw [List.append_nil] at hnone
      exact hnone
  rw [(shown_eq_sanitized_iff before).mpr hunsplit.left, sanitized, display_append,
    append_of_not_split hborder]
  rfl

/-- The piece that shows the byte at an offset. -/
theorem exists_showing {n : Nat} (h : n < (pieces.map shown).flatten.length) :
    ∃ before p after, pieces = before ++ p :: after ∧
      (before.map shown).flatten.length ≤ n ∧
      n < (before.map shown).flatten.length + (shown p).length := by
  induction pieces generalizing n with
  | nil => exact absurd h (Nat.not_lt_zero n)
  | cons p pieces ih =>
    rw [List.map_cons, List.flatten_cons, List.length_append] at h
    by_cases hn : n < (shown p).length
    · exact ⟨[], p, pieces, rfl, Nat.zero_le n, by simpa using hn⟩
    · obtain ⟨before, q, after, rfl, hle, hlt⟩ := @ih (n - (shown p).length) (by omega)
      refine ⟨p :: before, q, after, rfl, ?_, ?_⟩
      · rw [List.map_cons, List.flatten_cons, List.length_append]
        omega
      · rw [List.map_cons, List.flatten_cons, List.length_append]
        omega

theorem MarkersWhole.early (h : MarkersWhole pieces) {marker : Bytes} (hmarker : marker ∈ stopMarkers)
    (htext : sanitized pieces = u ++ marker ++ w) :
    ((beforeStop pieces).map shown).flatten.length ≤ u.length := by
  by_contra hlong
  obtain ⟨before, p, more, hbefore, hle, hlt⟩ := exists_showing (Nat.lt_of_not_le hlong)
  have hpieces : pieces = before ++ p :: (more ++ pieces.dropWhile fun p => !stopsAt p) := by
    have hparts := List.takeWhile_append_dropWhile (p := fun p => !stopsAt p) (l := pieces)
    rw [← beforeStop, hbefore, List.append_assoc, List.cons_append] at hparts
    exact hparts.symm
  have hchars := h.chars
  rw [hbefore] at hchars
  have hshown : shown p ≠ [] := by
    intro hnone
    rw [hnone, List.length_nil] at hlt
    omega
  have hfrom := sanitized_from hchars hshown (pieces.dropWhile fun p => !stopsAt p)
  rw [← hpieces, htext, List.append_assoc] at hfrom
  obtain ⟨u', rfl⟩ : (before.map shown).flatten <+: u :=
    List.prefix_of_prefix_length_le ⟨_, hfrom.symm⟩ (List.prefix_append _ _) hle
  rw [List.append_assoc] at hfrom
  have hbegins := List.append_cancel_left hfrom
  refine h.markers before p _ hpieces (fun q hq => ?_) marker hmarker ⟨u', w, ?_, ?_⟩
  · have hmem : q ∈ beforeStop pieces := by
      rw [hbefore]
      simp only [List.mem_append, List.mem_cons, List.not_mem_nil, or_false] at hq ⊢
      tauto
    exact stopsAt_of_mem_beforeStop hmem
  · rw [← hbegins, List.append_assoc]
  · rw [List.length_append] at hlt
    omega

theorem marker_ne_nil {marker : Bytes} (h : marker ∈ stopMarkers) : marker ≠ [] := by
  rintro rfl
  exact absurd h (by decide)

/-- The sanitised text of the pieces before the stop begins that of all of them. -/
theorem sanitized_beforeStop (pieces : List Bytes) :
    sanitized (beforeStop pieces) <+: sanitized pieces := by
  have hparts := List.takeWhile_append_dropWhile (p := fun p => !stopsAt p) (l := pieces)
  have hall : sanitized pieces = sanitizeForJNI (display (beforeStop pieces) ++
      display (pieces.dropWhile fun p => !stopsAt p)) := by
    rw [← display_append, beforeStop, hparts, sanitized]
  rw [hall]
  rcases sanitizeForJNI_append (display (beforeStop pieces))
    (display (pieces.dropWhile fun p => !stopsAt p)) with heq | ⟨u, w, -, -, -, -, -, heq⟩
  · exact ⟨_, heq.symm⟩
  · refine ⟨(u ++ w) ++ sanitizeForJNI (display (pieces.dropWhile fun p => !stopsAt p)), ?_⟩
    rw [heq, List.append_assoc (sanitizeForJNI _), sanitized]

/-- The text shown before the stop is cut before the first marker exactly where no marker and, before
the stop, no character is spread over several pieces. -/
theorem cutAtMarker_iff (pieces : List Bytes) :
    CutAtMarker pieces ((beforeStop pieces).map shown).flatten ↔ MarkersWhole pieces := by
  constructor
  · intro h
    have hchars := (shown_eq_sanitized_iff (beforeStop pieces)).mp h.cut
    refine ⟨hchars, fun before p after hpieces hunstopped marker hmarker hbegins => ?_⟩
    obtain ⟨u, v, htext, hlt⟩ := hbegins
    have hbefore : beforeStop pieces = before ++ p :: beforeStop after := by
      have hgoes := beforeStop_append hunstopped after
      rwa [List.append_assoc, List.singleton_append, List.append_assoc, List.singleton_append,
        ← hpieces] at hgoes
    have hshown : shown p ≠ [] := by
      intro hnone
      rw [hnone] at hlt
      exact absurd hlt (Nat.not_lt_zero _)
    have hparts := List.takeWhile_append_dropWhile (p := fun p => !stopsAt p) (l := after)
    rw [hbefore] at hchars
    have hfrom := sanitized_from hchars hshown (after.dropWhile fun p => !stopsAt p)
    rw [beforeStop, hparts, ← hpieces, htext, ← List.append_assoc, ← List.append_assoc] at hfrom
    have hearly := h.early marker hmarker _ v hfrom
    rw [hbefore, List.map_append, List.flatten_append, List.map_cons, List.flatten_cons] at hearly
    simp only [List.length_append] at hearly
    omega
  · intro h
    have hcut := (shown_eq_sanitized_iff (beforeStop pieces)).mpr h.chars
    refine ⟨fun marker hmarker hin => ?_, hcut, fun marker hmarker u v => h.early hmarker⟩
    obtain ⟨u, v, htext⟩ := hin
    obtain ⟨rest, hrest⟩ := sanitized_beforeStop pieces
    rw [← hcut, ← htext, List.append_assoc] at hrest
    have hearly := h.early hmarker hrest.symm
    have hpos := List.length_pos_iff.mpr (marker_ne_nil hmarker)
    rw [← htext, List.length_append, List.length_append] at hearly
    omega

end

namespace LlamaState

variable {m : LlamaModel} {s t : LlamaState} {gen : Generation} {token : LlamaToken}

/-- What a call has said after it converted one more token, whether that stopped it or not. -/
theorem textOf_sampled (h : OutputInv m s) (hg : s.gen = some gen)
    (hconverts : converts m gen token = true) (ht : s.step m (.sampled token) = some t) :
    t.textOf gen.turn =
      ((beforeStop (gen.pieces m ++ [pieceOf m token])).map shown).flatten := by
  have hsaid := h.said gen hg
  have hafter : t = s.afterSample m gen token := by
    obtain ⟨gen', hg', ht⟩ := Option.bind_eq_some_iff.mp ht
    cases Option.some.inj (hg.symm.trans hg')
    cases hpc : gen.pc <;> simp only [hpc] at ht <;> cases ht
    rfl
  rw [beforeStop_append hsaid.unstopped, List.map_append, List.flatten_append, ← hsaid.response,
    ← hsaid.text, hafter]
  rcases afterSample_output m token hg with
    ⟨hstop, hquiet, -⟩ | ⟨-, gen', hshows⟩
  · have hstop : stopsAt (pieceOf m token) = true :=
      hstop.resolve_left (by simp [hconverts])
    have hnone : beforeStop [pieceOf m token] = [] := by simp [beforeStop, hstop]
    rw [hnone, LlamaState.textOf, hquiet.emitted]
    exact (List.append_nil _).symm
  · have hone : beforeStop [pieceOf m token] = [pieceOf m token] := by
      simp [beforeStop, hshows.unstopped]
    rw [hone, hshows.textOf]
    simp

/-- Tokens 1 and 2 spell a marker in two pieces and 3 in one; any other token is a letter. -/
def markerModel : LlamaModel :=
  { byteModel with
    tokenToPiece := fun token =>
      if token = 1 then ascii "<|im_"
      else if token = 2 then ascii "start|>"
      else if token = 3 then ascii "<|im_start|>"
      else ascii "A" }

end LlamaState

end HeyNilo
