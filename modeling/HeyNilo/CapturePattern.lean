import HeyNilo.TextPattern

/-- A backtracking pattern with numbered groups. -/
inductive CapturePattern (α : Type*) where
  | empty
  | item (piece : PatternItem α)
  | andThen (first second : CapturePattern α)
  | either (first second : CapturePattern α)
  | group (number : Nat) (inner : CapturePattern α)

namespace CapturePattern

variable {α : Type*}

/-- A way to match at the front of a text: what the groups took, and the text after it. -/
structure Reading (α : Type*) where
  groups : List (Nat × List α)
  rest : List α

/-- What stands in `s` before its end `rest`. -/
def consumed (s rest : List α) : List α := s.take (s.length - rest.length)

/-- The ways to match at the front of a text, in the order in which backtracking comes to them. -/
def readings : CapturePattern α → List α → List (Reading α)
  | empty, s => [⟨[], s⟩]
  | item piece, s =>
    let longest := TextPattern.leading piece s
    (List.range' piece.least (longest + 1 - piece.least)).reverse.map fun k => ⟨[], s.drop k⟩
  | andThen first second, s =>
    (readings first s).flatMap fun r =>
      (readings second r.rest).map fun t => ⟨r.groups ++ t.groups, t.rest⟩
  | either first second, s => readings first s ++ readings second s
  | group number inner, s =>
    (readings inner s).map fun r => ⟨(number, consumed s r.rest) :: r.groups, r.rest⟩

/-- A sequence of patterns. -/
def inOrder (patterns : List (CapturePattern α)) : CapturePattern α := patterns.foldr andThen empty

/-- The first pattern that matches is taken; the others are for backtracking. -/
def oneOf : List (CapturePattern α) → CapturePattern α
  | [] => empty
  | [last] => last
  | first :: others => either first (oneOf others)

/-- `(…)?` -/
def maybe (inner : CapturePattern α) : CapturePattern α := either inner empty

structure Match (α : Type*) where
  value : List α
  groups : List (Nat × List α)

/-- `groups[number]`, where the group took part in the match. -/
def Match.group (m : Match α) (number : Nat) : Option (List α) := m.groups.lookup number

def matchFront (p : CapturePattern α) (s : List α) : Option (Match α) :=
  (readings p s).head?.map fun r => ⟨consumed s r.rest, r.groups⟩

/-- The first match, from left to right. -/
def find (p : CapturePattern α) : List α → Option (Match α)
  | [] => matchFront p []
  | c :: s => (matchFront p (c :: s)).or (find p s)

/-- The loop of `findAll`. `skip` counts the elements of a match still to be passed over. -/
def findLoop (p : CapturePattern α) : Nat → List α → List (Match α)
  | _ + 1, [] => []
  | 0, [] => (matchFront p []).toList
  | skip + 1, _ :: s => findLoop p skip s
  | 0, c :: s =>
    match matchFront p (c :: s) with
    | some m => m :: findLoop p (m.value.length - 1) s
    | none => findLoop p 0 s

/-- The matches from left to right that do not overlap. -/
def findAll (p : CapturePattern α) (s : List α) : List (Match α) := findLoop p 0 s

variable {p q : CapturePattern α} {s t : List α}

theorem consumed_within (s t : List α) : consumed s t <:+: s := (List.take_prefix _ _).isInfix

/-- A reading leaves an end of the text, and its groups hold pieces of the text. -/
theorem readings_sound {r : Reading α} (h : r ∈ readings p s) :
    r.rest <:+ s ∧ ∀ g ∈ r.groups, g.2 <:+: s := by
  induction p generalizing s r with
  | empty =>
    rw [readings, List.mem_singleton] at h
    subst h
    exact ⟨List.suffix_refl _, fun g hg => absurd hg List.not_mem_nil⟩
  | item piece =>
    obtain ⟨k, -, rfl⟩ := List.mem_map.mp h
    exact ⟨List.drop_suffix _ _, fun g hg => absurd hg List.not_mem_nil⟩
  | andThen first second ihf ihs =>
    obtain ⟨a, ha, hr⟩ := List.mem_flatMap.mp h
    obtain ⟨b, hb, rfl⟩ := List.mem_map.mp hr
    obtain ⟨hrest, hgroups⟩ := ihf ha
    obtain ⟨hlast, hlater⟩ := ihs hb
    refine ⟨hlast.trans hrest, fun g hg => ?_⟩
    rcases List.mem_append.mp hg with hg | hg
    · exact hgroups g hg
    · exact (hlater g hg).trans hrest.isInfix
  | either first second ihf ihs =>
    rcases List.mem_append.mp h with h | h
    · exact ihf h
    · exact ihs h
  | group number inner ih =>
    obtain ⟨a, ha, rfl⟩ := List.mem_map.mp h
    obtain ⟨hrest, hgroups⟩ := ih ha
    refine ⟨hrest, fun g hg => ?_⟩
    rcases List.mem_cons.mp hg with rfl | hg
    · exact consumed_within _ _
    · exact hgroups g hg

/-- A match is about the text: its value and its groups are pieces of it. -/
def Match.Within (m : Match α) (s : List α) : Prop :=
  m.value <:+: s ∧ ∀ g ∈ m.groups, g.2 <:+: s

theorem Match.Within.mono {m : Match α} (h : m.Within s) (hst : s <:+: t) : m.Within t :=
  ⟨h.1.trans hst, fun g hg => (h.2 g hg).trans hst⟩

theorem Match.Within.group {m : Match α} (h : m.Within s) {number : Nat} {w : List α}
    (hw : m.group number = some w) : w <:+: s := by
  obtain ⟨before, after, heq, -⟩ := List.lookup_eq_some_iff.mp hw
  have hmem : (number, w) ∈ m.groups := heq ▸ List.mem_append_right before List.mem_cons_self
  exact h.2 _ hmem

theorem matchFront_within {m : Match α} (h : matchFront p s = some m) : m.Within s := by
  obtain ⟨r, hr, rfl⟩ := Option.map_eq_some_iff.mp h
  exact ⟨consumed_within _ _, (readings_sound (List.mem_of_head? hr)).2⟩

/-- A match is one at the front of an end of the text. -/
theorem find_front {m : Match α} (h : find p s = some m) : ∃ t, t <:+ s ∧ matchFront p t = some m := by
  induction s with
  | nil => exact ⟨[], List.suffix_refl _, h⟩
  | cons c s ih =>
    rcases Option.or_eq_some_iff.mp h with hfront | ⟨-, hlater⟩
    · exact ⟨c :: s, List.suffix_refl _, hfront⟩
    · obtain ⟨t, ht, hmatch⟩ := ih hlater
      exact ⟨t, ht.trans (List.suffix_cons c s), hmatch⟩

theorem findLoop_front {skip : Nat} {m : Match α} (h : m ∈ findLoop p skip s) :
    ∃ t, t <:+ s ∧ matchFront p t = some m := by
  induction s generalizing skip with
  | nil =>
    cases skip with
    | zero => exact ⟨[], List.suffix_refl _, Option.mem_toList.mp h⟩
    | succ skip => exact absurd h List.not_mem_nil
  | cons c s ih =>
    have hlater {k : Nat} (hm : m ∈ findLoop p k s) : ∃ t, t <:+ c :: s ∧ matchFront p t = some m := by
      obtain ⟨t, ht, hmatch⟩ := ih hm
      exact ⟨t, ht.trans (List.suffix_cons c s), hmatch⟩
    cases skip with
    | succ skip => exact hlater h
    | zero =>
      rw [findLoop] at h
      split at h
      next first hfront =>
        rcases List.mem_cons.mp h with rfl | h
        · exact ⟨c :: s, List.suffix_refl _, hfront⟩
        · exact hlater h
      next => exact hlater h

theorem findAll_front {m : Match α} (h : m ∈ findAll p s) :
    ∃ t, t <:+ s ∧ matchFront p t = some m :=
  findLoop_front h

theorem find_within {m : Match α} (h : find p s = some m) : m.Within s := by
  obtain ⟨t, ht, hmatch⟩ := find_front h
  exact (matchFront_within hmatch).mono ht.isInfix

theorem findAll_within {m : Match α} (h : m ∈ findAll p s) : m.Within s := by
  obtain ⟨t, ht, hmatch⟩ := findAll_front h
  exact (matchFront_within hmatch).mono ht.isInfix

end CapturePattern
