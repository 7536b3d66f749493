import HeyNilo.SpaceMarker

namespace HeyNilo

open Utf8

/-- What is shown of the rest of a piece, of which a replacement still swallows `skip` bytes. -/
def shownFrom (skip : Nat) (piece : Bytes) : Bytes :=
  sanitizeForJNI (replaceSpaceMarker skip piece)

/-- The text that a piece is passed to `onToken` as. -/
def shown (piece : Bytes) : Bytes := shownFrom 0 piece

/-- The next `n` bytes are tail bytes that the replacement leaves alone. -/
def WholeTails (n : Nat) (s : Bytes) : Prop :=
  ∃ tails rest, s = tails ++ rest ∧ tails.length = n ∧ (∀ b ∈ tails, isTail b = true) ∧
    (0x81 : UInt8) ∉ tails

/-- What a byte of a lost character shows: the byte 0x81 becomes a space. -/
def lost (skip : Nat) (b : UInt8) : Bytes := if skip = 0 ∧ b = 0x81 then [0x20] else []

/-- The bytes that are still swallowed behind a byte of a lost character. -/
def skipAfter (skip : Nat) (b : UInt8) : Nat :=
  if skip = 0 then if b = 0x81 then 2 else 0 else skip - 1

/-- The character `c`, encoded behind the text `xs`, stands whole in one piece, has no byte 0x81 and
does not follow one in its piece. -/
def Intact (pieces : List Bytes) (xs : List Char) (c : Char) : Prop :=
  (0x81 : UInt8) ∉ String.utf8EncodeChar c ∧
    ∃ before after a b, pieces = before ++ (a ++ (String.utf8EncodeChar c ++ b)) :: after ∧
      before.flatten ++ a = encode xs ∧ a.getLast? ≠ some 0x81

theorem skipAfter_le {skip : Nat} (h : skip ≤ 2) (b : UInt8) : skipAfter skip b ≤ 2 := by
  unfold skipAfter
  split_ifs <;> omega

theorem skipAfter_other {b : UInt8} (hb : b ≠ 0x81) (skip : Nat) : skipAfter skip b = skip - 1 := by
  unfold skipAfter
  split_ifs <;> omega

theorem lost_other {b : UInt8} (hb : b ≠ 0x81) (skip : Nat) : lost skip b = [] :=
  if_neg fun hspace => hb hspace.2

theorem length_lost_le (skip : Nat) (b : UInt8) : (lost skip b).length ≤ 1 := by
  unfold lost
  split_ifs <;> simp

theorem wholeTails_of_continued {n : Nat} {s : Bytes}
    (h : continued n (replaceSpaceMarker 0 s) = true) : WholeTails n s := by
  induction n generalizing s with
  | zero => exact ⟨[], s, rfl, rfl, by simp, by simp⟩
  | succ n ih =>
    cases s with
    | nil => cases h
    | cons b s =>
      by_cases hb : b = 0x81
      · rw [hb] at h
        have hspace : isContinuation 0x20 = true := (Bool.and_eq_true_iff.mp h).1
        exact absurd hspace (by decide)
      · rw [replaceSpaceMarker, if_neg (by simpa using hb), continued, Bool.and_eq_true,
          isContinuation_eq_isTail] at h
        obtain ⟨tails, rest, rfl, hlen, htails, hout⟩ := ih h.2
        refine ⟨b :: tails, rest, rfl, by rw [List.length_cons, hlen],
          List.forall_mem_cons.mpr ⟨h.1, htails⟩, ?_⟩
        exact fun hmem => (List.mem_cons.mp hmem).elim (fun heq => hb heq.symm) hout

theorem sanitizeForJNI_tail {b : UInt8} (hb : isTail b = true) (s : Bytes) :
    sanitizeForJNI (b :: s) = sanitizeForJNI s := by
  refine sanitizeForJNI_drop (.inr ?_)
  intro u rest hu heq
  obtain ⟨lead, tails, rfl, hlead, -⟩ := hu
  have hsame : b = lead := (List.cons.inj heq).1
  rw [← hsame, tailCount_of_isTail hb] at hlead
  cases hlead

/-- A byte that is not part of a kept character. -/
theorem shownFrom_pass {skip : Nat} {b : UInt8} {s : Bytes}
    (h : skip = 0 → isTail b = true ∨ ∃ n, tailCount b = some n ∧ ¬WholeTails n s) :
    shownFrom skip (b :: s) = lost skip b ++ shownFrom (skipAfter skip b) s := by
  cases skip with
  | succ skip => rfl
  | zero =>
    by_cases hb : b = 0x81
    · subst hb
      have hspace : IsSequence [0x20] := ⟨0x20, [], rfl, by decide, by simp⟩
      exact sanitizeForJNI_unit hspace (by decide) (replaceSpaceMarker 2 s)
    · have hscan : replaceSpaceMarker 0 (b :: s) = b :: replaceSpaceMarker 0 s := by
        rw [replaceSpaceMarker, if_neg (by simpa using hb)]
      rw [lost_other hb, skipAfter_other hb, shownFrom, hscan, List.nil_append]
      rcases h rfl with htail | ⟨n, hlead, hcut⟩
      · exact sanitizeForJNI_tail htail _
      · have hcontinued : ¬continued n (replaceSpaceMarker 0 s) = true :=
          fun hc => hcut (wholeTails_of_continued hc)
        rw [sanitizeForJNI, sanitizeLoop_cons, hlead]
        simp only [hcontinued, Bool.false_eq_true, if_false, ite_self]
        rfl

theorem shownFrom_unit {u : Bytes} (hu : IsSequence u) (hne : u ≠ [0]) (hout : (0x81 : UInt8) ∉ u)
    (s : Bytes) : shownFrom 0 (u ++ s) = u ++ shownFrom 0 s := by
  rw [shownFrom, replaceSpaceMarker_of_notMem hout, sanitizeForJNI_unit hu hne]
  rfl

/-- A point in a list of pieces: the pieces before the current one, what of that has been passed and
what is left of it, and the pieces behind it. -/
structure Cursor where
  before : List Bytes
  passed : Bytes
  rest : Bytes
  later : List Bytes
  skip : Nat

namespace Cursor

def pieces (c : Cursor) : List Bytes := c.before ++ (c.passed ++ c.rest) :: c.later

def consumed (c : Cursor) : Bytes := c.before.flatten ++ c.passed

def remaining (c : Cursor) : Bytes := c.rest ++ c.later.flatten

/-- What is shown from here on. -/
def text (c : Cursor) : Bytes := shownFrom c.skip c.rest ++ (c.later.map shown).flatten

/-- Behind a byte of a lost character. -/
def pass (c : Cursor) (b : UInt8) (s : Bytes) : Cursor :=
  { c with passed := c.passed ++ [b], rest := s, skip := skipAfter c.skip b }

theorem consumed_remaining (c : Cursor) : c.consumed ++ c.remaining = c.pieces.flatten := by
  simp [consumed, remaining, pieces]

/-- From `c` to `d` the pieces hold `bytes`, shown as `out`. -/
structure Moves (c : Cursor) (bytes out : Bytes) (d : Cursor) : Prop where
  pieces : d.pieces = c.pieces
  consumed : d.consumed = c.consumed ++ bytes
  text : c.text = out ++ d.text
  skip : d.skip ≤ 2

section

variable {b : UInt8} {bytes more out out' tails e s : Bytes} {c d f : Cursor} {x : Char}
  {xs ys : List Char}

theorem Moves.remaining (h : Moves c bytes out d) : c.remaining = bytes ++ d.remaining := by
  have hsame : c.consumed ++ c.remaining = c.consumed ++ (bytes ++ d.remaining) := by
    rw [consumed_remaining, ← h.pieces, ← consumed_remaining d, h.consumed, List.append_assoc]
  exact List.append_cancel_left hsame

theorem Moves.trans (h : Moves c bytes out d) (h' : Moves d more out' f) :
    Moves c (bytes ++ more) (out ++ out') f where
  pieces := h'.pieces.trans h.pieces
  consumed := by rw [h'.consumed, h.consumed, List.append_assoc]
  text := by rw [h.text, h'.text, List.append_assoc]
  skip := h'.skip

/-- Empty pieces are passed over. -/
theorem exists_at_byte (hskip : c.skip ≤ 2) (h : c.remaining = b :: more) :
    ∃ d s, Moves c [] [] d ∧ d.rest = b :: s ∧ (d = c ∨ d.passed = [] ∧ d.skip = 0) := by
  obtain ⟨before, passed, rest, later, skip⟩ := c
  induction later generalizing before passed rest skip with
  | nil =>
    refine ⟨_, more, ⟨rfl, by simp, rfl, hskip⟩, ?_, .inl rfl⟩
    simpa [Cursor.remaining] using h
  | cons p later ih =>
    cases rest with
    | cons b' s =>
      have hb : b' = b := (List.cons.inj h).1
      exact ⟨_, s, ⟨rfl, by simp, rfl, hskip⟩, by rw [hb], .inl rfl⟩
    | nil =>
      obtain ⟨d, s, hmoves, hrest, hat⟩ := ih (before ++ [passed]) [] p 0 (by simp) h
      refine ⟨d, s, ⟨?_, ?_, ?_, hmoves.skip⟩, hrest, .inr ?_⟩
      · rw [hmoves.pieces]
        simp [Cursor.pieces]
      · rw [hmoves.consumed]
        simp [Cursor.consumed]
      · rw [List.nil_append, ← List.nil_append d.text, ← hmoves.text]
        have hempty : shownFrom skip [] = [] := by
          simp [shownFrom, replaceSpaceMarker, sanitizeForJNI, sanitizeLoop]
        simp [Cursor.text, hempty, shown]
      · rcases hat with rfl | hat
        · exact ⟨rfl, rfl⟩
        · exact hat

theorem pass_moves (hskip : c.skip ≤ 2) (hrest : c.rest = b :: s)
    (h : c.skip = 0 → isTail b = true ∨ ∃ n, tailCount b = some n ∧ ¬WholeTails n s) :
    Moves c [b] (lost c.skip b) (c.pass b s) where
  pieces := by simp [Cursor.pieces, pass, hrest]
  consumed := by simp [Cursor.consumed, pass]
  text := by
    rw [Cursor.text, hrest, shownFrom_pass h, List.append_assoc]
    rfl
  skip := skipAfter_le hskip b

/-- Tail bytes without their lead byte show nothing but spaces. -/
theorem pass_tails (hskip : c.skip ≤ 2) (htails : ∀ b ∈ tails, isTail b = true)
    (h : c.remaining = tails ++ more) :
    ∃ d out, Moves c tails out d ∧ out.length ≤ tails.length := by
  induction tails generalizing c with
  | nil => exact ⟨c, [], ⟨rfl, by simp, rfl, hskip⟩, Nat.le_refl 0⟩
  | cons b tails ih =>
    obtain ⟨hb, htails⟩ := List.forall_mem_cons.mp htails
    obtain ⟨d, s, hat, hrest, -⟩ := exists_at_byte hskip h
    have hone := hat.trans (pass_moves hat.skip hrest fun _ => .inl hb)
    have hleft : (d.pass b s).remaining = tails ++ more := by
      have hrem := hone.remaining
      rw [h] at hrem
      exact (List.cons.inj hrem).2.symm
    obtain ⟨f, out, hmoves, hlen⟩ := ih hone.skip htails hleft
    refine ⟨f, _, hone.trans hmoves, ?_⟩
    have hlost := length_lost_le d.skip b
    simp only [List.nil_append, List.length_append, List.length_cons]
    omega

/-- A character that is cut, swallowed in part or holds a byte 0x81 shows fewer bytes than it has. -/
theorem char_lost (hskip : c.skip ≤ 2) (hc : IsSequence e) (hrest : c.rest = b :: s)
    (h : c.remaining = e ++ more) (hcut : ¬(c.skip = 0 ∧ e <+: c.rest ∧ (0x81 : UInt8) ∉ e)) :
    ∃ d out, Moves c e out d ∧ out.length < e.length := by
  obtain ⟨lead, tails, rfl, hlead, htails⟩ := hc
  have hremaining : b :: (s ++ c.later.flatten) = lead :: (tails ++ more) := by
    rw [← List.cons_append, ← hrest]
    exact h
  obtain ⟨rfl, hbehind⟩ := List.cons.inj hremaining
  have hlead' : b ≠ 0x81 := by
    rintro rfl
    cases hlead
  have hone : Moves c [b] (lost c.skip b) (c.pass b s) := by
    refine pass_moves hskip hrest fun hzero => .inr ⟨tails.length, hlead, fun hwhole => hcut ?_⟩
    obtain ⟨tails', rest, rfl, hlen, -, hout⟩ := hwhole
    rw [List.append_assoc] at hbehind
    obtain ⟨rfl, -⟩ := List.append_inj hbehind hlen
    refine ⟨hzero, ⟨rest, by rw [hrest]; rfl⟩, fun hmem => ?_⟩
    exact (List.mem_cons.mp hmem).elim (fun heq => hlead' heq.symm) hout
  rw [lost_other hlead'] at hone
  have hleft : (c.pass b s).remaining = tails ++ more := by
    have hrem := hone.remaining
    rw [h] at hrem
    exact (List.cons.inj hrem).2.symm
  obtain ⟨d, out, hmoves, hlen⟩ := pass_tails hone.skip htails hleft
  refine ⟨d, _, hone.trans hmoves, ?_⟩
  rw [List.nil_append, List.length_cons]
  omega

theorem char_kept (hc : IsSequence e) (hne : e ≠ [0]) (hzero : c.skip = 0) (hrest : c.rest = e ++ s)
    (hout : (0x81 : UInt8) ∉ e) :
    Moves c e e { c with passed := c.passed ++ e, rest := s } where
  pieces := by simp [Cursor.pieces, hrest]
  consumed := by simp [Cursor.consumed]
  text := by
    rw [Cursor.text, hrest, hzero, shownFrom_unit hc hne hout, List.append_assoc]
    simp [Cursor.text]
  skip := by simp [hzero]

/-- U+2581 is shown as one space, wherever it is cut. What follows it in its piece is swallowed. -/
theorem marker_shown (hskip : c.skip ≤ 2) (h : c.remaining = [0xE2, 0x96, 0x81] ++ more) :
    ∃ d, Moves c [0xE2, 0x96, 0x81] [0x20] d ∧ d.skip = 2 ∧ d.passed.getLast? = some 0x81 := by
  obtain ⟨c₁, s₁, hat₁, hrest₁, -⟩ := exists_at_byte hskip h
  have hrem₁ : s₁ ++ c₁.later.flatten = [0x96, 0x81] ++ more := by
    have hrem := hat₁.remaining
    rw [h, Cursor.remaining, hrest₁] at hrem
    exact (List.cons.inj hrem).2.symm
  have hfirst : Moves c₁ [0xE2] (lost c₁.skip 0xE2) (c₁.pass 0xE2 s₁) := by
    refine pass_moves hat₁.skip hrest₁ fun _ => .inr ⟨2, by decide, fun hwhole => ?_⟩
    obtain ⟨tails, rest, rfl, hlen, -, hout⟩ := hwhole
    rw [List.append_assoc] at hrem₁
    obtain ⟨rfl, -⟩ := List.append_inj hrem₁ hlen
    exact hout (by decide)
  rw [lost_other (by decide)] at hfirst
  have hle₁ : (c₁.pass 0xE2 s₁).skip ≤ 1 := by
    have hle := hat₁.skip
    have hskip : (c₁.pass 0xE2 s₁).skip = c₁.skip - 1 := skipAfter_other (by decide) c₁.skip
    omega
  obtain ⟨c₂, s₂, hat₂, hrest₂, hsame₂⟩ := exists_at_byte hfirst.skip hrem₁
  have hle₂ : c₂.skip ≤ 1 := by
    rcases hsame₂ with rfl | ⟨-, hzero⟩
    · exact hle₁
    · omega
  have hsecond : Moves c₂ [0x96] (lost c₂.skip 0x96) (c₂.pass 0x96 s₂) :=
    pass_moves hat₂.skip hrest₂ fun _ => .inl (by decide)
  rw [lost_other (by decide)] at hsecond
  have hzero₂ : (c₂.pass 0x96 s₂).skip = 0 := by
    have hskip : (c₂.pass 0x96 s₂).skip = c₂.skip - 1 := skipAfter_other (by decide) c₂.skip
    omega
  have hrem₂ : (c₂.pass 0x96 s₂).remaining = 0x81 :: more := by
    have hrem := (hat₂.trans hsecond).remaining
    rw [Cursor.remaining] at hrem
    exact (List.cons.inj (hrem₁.symm.trans hrem)).2.symm
  obtain ⟨c₃, s₃, hat₃, hrest₃, hsame₃⟩ := exists_at_byte hsecond.skip hrem₂
  have hzero₃ : c₃.skip = 0 := by
    rcases hsame₃ with rfl | ⟨-, hzero⟩
    · exact hzero₂
    · exact hzero
  have hthird : Moves c₃ [0x81] (lost c₃.skip 0x81) (c₃.pass 0x81 s₃) :=
    pass_moves hat₃.skip hrest₃ fun _ => .inl (by decide)
  have hspace : lost c₃.skip 0x81 = [0x20] := if_pos ⟨hzero₃, rfl⟩
  rw [hspace] at hthird
  have hall := hat₁.trans (hfirst.trans (hat₂.trans (hsecond.trans (hat₃.trans hthird))))
  refine ⟨c₃.pass 0x81 s₃, hall, ?_, List.getLast?_concat ..⟩
  simp [pass, skipAfter, hzero₃]

theorem text_nil (h : c.remaining = []) : c.text = [] := by
  obtain ⟨hrest, hlater⟩ := List.append_eq_nil_iff.mp h
  have hempty (skip : Nat) : shownFrom skip [] = [] := by
    simp [shownFrom, replaceSpaceMarker, sanitizeForJNI, sanitizeLoop]
  rw [Cursor.text, hrest, hempty, List.nil_append, List.flatten_eq_nil_iff]
  intro p hp
  obtain ⟨q, hq, rfl⟩ := List.mem_map.mp hp
  rw [List.flatten_eq_nil_iff.mp hlater q hq]
  exact hempty 0

theorem encode_single (x : Char) : encode [x] = String.utf8EncodeChar x := by simp

/-- One character on: kept, or shown with fewer bytes. -/
theorem char_moves (hskip : c.skip ≤ 2) (hne : String.utf8EncodeChar x ≠ [0])
    (h : c.remaining = String.utf8EncodeChar x ++ more) :
    ∃ d out, Moves c (String.utf8EncodeChar x) out d ∧
      out.length ≤ (String.utf8EncodeChar (spaceFor x)).length := by
  by_cases hx : x = '\u2581'
  · rw [hx] at h ⊢
    rw [utf8EncodeChar_marker] at h ⊢
    obtain ⟨d, hmoves, -⟩ := marker_shown hskip h
    exact ⟨d, _, hmoves, by decide⟩
  · have hunit := utf8EncodeChar_isSequence x
    rw [spaceFor, if_neg hx]
    obtain ⟨b, tail, hcons⟩ := List.exists_cons_of_ne_nil hunit.ne_nil
    have hrem : c.remaining = b :: (tail ++ more) := by rw [h, hcons, List.cons_append]
    obtain ⟨d, s, hat, hrest, -⟩ := exists_at_byte hskip hrem
    have hthere : d.remaining = String.utf8EncodeChar x ++ more := hat.remaining.symm.trans h
    by_cases hkept : d.skip = 0 ∧ String.utf8EncodeChar x <+: d.rest ∧
        (0x81 : UInt8) ∉ String.utf8EncodeChar x
    · obtain ⟨hzero, ⟨rest, hrest'⟩, hout⟩ := hkept
      exact ⟨_, _, hat.trans (char_kept hunit hne hzero hrest'.symm hout), Nat.le_refl _⟩
    · obtain ⟨f, out, hmoves, hlen⟩ := char_lost hat.skip hunit hrest hthere hkept
      exact ⟨f, _, hat.trans hmoves, Nat.le_of_lt hlen⟩

/-- The pieces never show more bytes than the text they are cut from. -/
theorem text_length_le (hskip : c.skip ≤ 2) (hzero : (0 : UInt8) ∉ encode ys)
    (h : c.remaining = encode ys) : c.text.length ≤ (encode (ys.map spaceFor)).length := by
  induction ys generalizing c with
  | nil => rw [text_nil h]; exact Nat.zero_le _
  | cons y ys ih =>
    rw [encode_cons] at h hzero
    obtain ⟨hfirst, hlater⟩ := not_or.mp (mt List.mem_append.mpr hzero)
    have hne : String.utf8EncodeChar y ≠ [0] := fun heq => hfirst (by rw [heq]; decide)
    obtain ⟨d, out, hmoves, hlen⟩ := char_moves hskip hne h
    have hleft : d.remaining = encode ys :=
      List.append_cancel_left (hmoves.remaining.symm.trans h)
    have hrest := ih hmoves.skip hlater hleft
    rw [hmoves.text, List.map_cons, encode_cons, List.length_append, List.length_append]
    omega

/-- A point inside a piece belongs to that piece only. -/
theorem split_unique {l before before' after after' : List Bytes} {a a' s s' : Bytes}
    (h : l = before ++ (a ++ s) :: after) (h' : l = before' ++ (a' ++ s') :: after')
    (hs : s ≠ []) (hs' : s' ≠ []) (hat : before.flatten ++ a = before'.flatten ++ a') :
    a = a' ∧ s = s' := by
  induction before generalizing l before' with
  | nil =>
    cases before' with
    | nil =>
      have ha : a = a' := hat
      rw [h] at h'
      have hpiece : a ++ s = a' ++ s' := (List.cons.inj h').1
      rw [ha] at hpiece
      exact ⟨ha, List.append_cancel_left hpiece⟩
    | cons p before' =>
      rw [h] at h'
      have hpiece : a ++ s = p := (List.cons.inj h').1
      have hlen := congrArg List.length hat
      simp only [← hpiece, List.flatten_nil, List.flatten_cons, List.nil_append, List.length_append]
        at hlen
      have hpos := List.length_pos_iff.mpr hs
      omega
  | cons p before ih =>
    cases before' with
    | nil =>
      rw [h] at h'
      have hpiece : p = a' ++ s' := (List.cons.inj h').1
      have hlen := congrArg List.length hat
      simp only [hpiece, List.flatten_nil, List.flatten_cons, List.nil_append, List.length_append]
        at hlen
      have hpos := List.length_pos_iff.mpr hs'
      omega
    | cons p' before' =>
      subst h
      obtain ⟨hpiece, hrest⟩ := List.cons.inj h'
      rw [hpiece, List.flatten_cons, List.flatten_cons, List.append_assoc, List.append_assoc] at hat
      exact ih rfl hrest (List.append_cancel_left hat)

/-- From a boundary between characters on, the text is shown exactly where every other character than
U+2581 is intact. -/
theorem text_eq_iff (hskip : c.skip ≤ 2) (hzero : (0 : UInt8) ∉ encode ys)
    (hpast : c.consumed = encode xs) (h : c.remaining = encode ys)
    (hready : c.skip = 0 ↔ c.passed.getLast? ≠ some 0x81) :
    c.text = encode (ys.map spaceFor) ↔
      ∀ zs y rest, ys = zs ++ y :: rest → y ≠ '\u2581' → Intact c.pieces (xs ++ zs) y := by
  induction ys generalizing c xs with
  | nil => simp [text_nil h]
  | cons y ys ih =>
    rw [encode_cons] at h hzero
    obtain ⟨hfirst, hlater⟩ := not_or.mp (mt List.mem_append.mpr hzero)
    have hne : String.utf8EncodeChar y ≠ [0] := fun heq => hfirst (by rw [heq]; decide)
    -- the other characters, once `y` is past
    have hgoes {out : Bytes} {d : Cursor} (hmoves : Moves c (String.utf8EncodeChar y) out d)
        (hshown : out = String.utf8EncodeChar (spaceFor y))
        (hready' : d.skip = 0 ↔ d.passed.getLast? ≠ some 0x81) :
        c.text = encode ((y :: ys).map spaceFor) ↔
          ∀ zs z rest, ys = zs ++ z :: rest → z ≠ '\u2581' → Intact c.pieces (xs ++ y :: zs) z := by
      have hleft : d.remaining = encode ys :=
        List.append_cancel_left (hmoves.remaining.symm.trans h)
      have hpast' : d.consumed = encode (xs ++ [y]) := by
        rw [hmoves.consumed, hpast, encode_append, encode_single]
      have hrest := ih hmoves.skip hlater hpast' hleft hready'
      rw [hmoves.pieces] at hrest
      rw [hmoves.text, hshown, List.map_cons, encode_cons, List.append_cancel_left_eq, hrest]
      simp only [List.append_assoc, List.singleton_append]
    have hsplit : (∀ zs z rest, y :: ys = zs ++ z :: rest → z ≠ '\u2581' →
        Intact c.pieces (xs ++ zs) z) ↔ (y ≠ '\u2581' → Intact c.pieces xs y) ∧
        ∀ zs z rest, ys = zs ++ z :: rest → z ≠ '\u2581' → Intact c.pieces (xs ++ y :: zs) z := by
      constructor
      · intro hall
        refine ⟨fun hy => ?_, fun zs z rest heq => hall (y :: zs) z rest (by rw [heq]; rfl)⟩
        have hhere := hall [] y ys rfl hy
        rwa [List.append_nil] at hhere
      · intro hall zs z rest heq hz
        cases zs with
        | nil =>
          obtain ⟨rfl, rfl⟩ := List.cons.inj heq
          rw [List.append_nil]
          exact hall.1 hz
        | cons z' zs =>
          obtain ⟨rfl, htail⟩ := List.cons.inj heq
          exact hall.2 zs z rest htail hz
    rw [hsplit]
    by_cases hy : y = '\u2581'
    · have hmarker : c.remaining = [0xE2, 0x96, 0x81] ++ encode ys := by
        rw [h, hy, utf8EncodeChar_marker]
      obtain ⟨d, hmoves, htwo, hlast⟩ := marker_shown hskip hmarker
      rw [← utf8EncodeChar_marker, ← hy] at hmoves
      rw [hgoes hmoves (by rw [hy]; decide) (by simp [htwo, hlast])]
      exact (and_iff_right fun hother => absurd hy hother).symm
    · have hunit := utf8EncodeChar_isSequence y
      obtain ⟨b, tail, hcons⟩ := List.exists_cons_of_ne_nil hunit.ne_nil
      have hrem : c.remaining = b :: (tail ++ encode ys) := by rw [h, hcons, List.cons_append]
      obtain ⟨d, s, hat, hrest, hsame⟩ := exists_at_byte hskip hrem
      have hthere : d.remaining = String.utf8EncodeChar y ++ encode ys :=
        hat.remaining.symm.trans h
      have hready' : d.skip = 0 ↔ d.passed.getLast? ≠ some 0x81 := by
        rcases hsame with rfl | ⟨hpassed, hskip⟩
        · exact hready
        · simp [hpassed, hskip]
      have hpast' : d.before.flatten ++ d.passed = encode xs := by
        rw [← hpast, ← List.append_nil c.consumed]
        exact hat.consumed
      by_cases hkept : d.skip = 0 ∧ String.utf8EncodeChar y <+: d.rest ∧
          (0x81 : UInt8) ∉ String.utf8EncodeChar y
      · obtain ⟨hzero, ⟨rest, hrest'⟩, hout⟩ := hkept
        have hintact : Intact c.pieces xs y :=
          ⟨hout, d.before, d.later, d.passed, rest, by rw [hrest', ← hat.pieces]; rfl, hpast',
            hready'.mp hzero⟩
        have hmoves := hat.trans (char_kept hunit hne hzero hrest'.symm hout)
        have hlast : (d.passed ++ String.utf8EncodeChar y).getLast? ≠ some 0x81 := by
          intro hlast
          rw [List.getLast?_append_of_ne_nil _ hunit.ne_nil] at hlast
          exact hout (List.mem_of_getLast? hlast)
        rw [hgoes hmoves (by rw [spaceFor, if_neg hy, List.nil_append])
          ⟨fun _ => hlast, fun _ => hzero⟩]
        exact (and_iff_right fun _ => hintact).symm
      · obtain ⟨f, out, hmoves, hlen⟩ := char_lost hat.skip hunit hrest hthere hkept
        have hleft : f.remaining = encode ys :=
          List.append_cancel_left (hmoves.remaining.symm.trans hthere)
        have hfewer := text_length_le hmoves.skip hlater hleft
        refine iff_of_false (fun heq => ?_) fun hall => hkept ?_
        · have hsize := congrArg List.length heq
          rw [(hat.trans hmoves).text, List.nil_append, List.map_cons, encode_cons, spaceFor,
            if_neg hy, List.length_append, List.length_append] at hsize
          omega
        · obtain ⟨hout, before, after, a, b', hpieces, hpast'', hlast⟩ := hall.1 hy
          obtain ⟨rfl, hrest'⟩ := split_unique (hat.pieces.symm) hpieces (by simp [hrest])
            (by simp [hunit.ne_nil]) (hpast'.trans hpast''.symm)
          exact ⟨hready'.mpr hlast, ⟨b', hrest'.symm⟩, hout⟩

end

end Cursor

/-- The pieces of a well-formed text show it, with a space for each U+2581, exactly where every other
character is intact. -/
theorem shown_eq_iff {pieces : List Bytes} {chars : List Char} (hzero : (0 : UInt8) ∉ encode chars)
    (h : pieces.flatten = encode chars) :
    (pieces.map shown).flatten = encode (chars.map spaceFor) ↔
      ∀ xs c ys, chars = xs ++ c :: ys → c ≠ '\u2581' → Intact pieces xs c := by
  cases pieces with
  | nil =>
    have hchars : chars = [] := by
      cases chars with
      | nil => rfl
      | cons c chars =>
        rw [encode_cons] at h
        exact absurd (List.append_eq_nil_iff.mp h.symm).1 (utf8EncodeChar_isSequence c).ne_nil
    simp [hchars]
  | cons p pieces =>
    have hstart : Cursor.text ⟨[], [], p, pieces, 0⟩ = encode (chars.map spaceFor) ↔
        ∀ xs c ys, chars = xs ++ c :: ys → c ≠ '\u2581' → Intact (p :: pieces) ([] ++ xs) c :=
      Cursor.text_eq_iff (by simp) hzero rfl h (by simp)
    exact hstart

end HeyNilo
