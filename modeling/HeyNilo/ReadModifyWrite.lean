import HeyNilo.Machine
import Mathlib.Logic.Function.Basic
import Mathlib.Data.List.Range

namespace ReadModifyWrite

variable {α β : Type*}

/-- What a call does to the cell: compute from what it read, or overwrite without reading. -/
inductive Update (α : Type*) where
  | modify (f : α → α)
  | replace (a : α)

def Update.apply : Update α → α → α
  | .modify f, a => f a
  | .replace b, _ => b

/-- A call that changes a shared part in place, replaces the cell, and writes both to a file. The
file gets the value the call assigned itself (`writesOwn`) or the cell as it is by then. -/
structure Call (α β : Type*) where
  touch : Option (β → β)
  update : Update α
  writesOwn : Bool

def Call.touched (c : Call α β) (b : β) : β := (c.touch.map fun g => g b).getD b

/-- The call as one atomic operation. -/
def Call.apply (c : Call α β) (x : α × β) : α × β := (c.update.apply x.1, c.touched x.2)

inductive Phase (α β : Type*) where
  | ready
  | touched
  | read (base : α)
  | assigned (own : α)
  | serialised (copy : α × β)
  | returned
deriving DecidableEq

/-- Between the first step and the assignment. -/
def Phase.inSection : Phase α β → Bool
  | .touched | .read _ => true
  | _ => false

def Phase.hasAssigned : Phase α β → Bool
  | .assigned _ | .serialised _ | .returned => true
  | _ => false

structure State (α β : Type*) where
  cell : α
  shared : β
  file : α × β
  phase : Nat → Phase α β

namespace State

def setPhase (s : State α β) (i : Nat) (p : Phase α β) : State α β :=
  { s with phase := Function.update s.phase i p }

def assign (s : State α β) (i : Nat) (a : α) : State α β :=
  { s with cell := a }.setPhase i (.assigned a)

/-- Call `i` takes its next step. -/
def step (calls : List (Call α β)) (s : State α β) (i : Nat) : Option (State α β) :=
  calls[i]?.bind fun c =>
    match s.phase i with
    | .ready =>
      match c.touch, c.update with
      | some g, _ => some ({ s with shared := g s.shared }.setPhase i .touched)
      | none, .modify _ => some (s.setPhase i (.read s.cell))
      | none, .replace a => some (s.assign i a)
    | .touched => some (s.setPhase i (.read s.cell))
    | .read base => some (s.assign i (c.update.apply base))
    | .assigned own =>
      some (s.setPhase i (.serialised (if c.writesOwn then own else s.cell, s.shared)))
    | .serialised copy => some ({ s with file := copy }.setPhase i .returned)
    | .returned => none

def start (x : α × β) : State α β := ⟨x.1, x.2, x, fun _ => .ready⟩

end State

/-- History variables: the calls in the order of their assignments, for each serialised copy how
many assignments it has seen, and that number for the file. -/
structure Ledger where
  order : List Nat
  stamp : Nat → Nat
  written : Nat

namespace Ledger

def start : Ledger := ⟨[], fun _ => 0, 0⟩

def assign (g : Ledger) (i : Nat) : Ledger :=
  { g with
    order := g.order ++ [i]
    stamp := Function.update g.stamp i (g.order.length + 1) }

def next (calls : List (Call α β)) (g : Ledger) (s : State α β) (i : Nat) : Ledger :=
  match calls[i]? with
  | none => g
  | some c =>
    match s.phase i with
    | .ready =>
      match c.touch, c.update with
      | none, .replace _ => g.assign i
      | _, _ => g
    | .read _ => g.assign i
    | .assigned _ =>
      if c.writesOwn then g else { g with stamp := Function.update g.stamp i g.order.length }
    | .serialised _ => { g with written := g.stamp i }
    | _ => g

end Ledger

/-- A call starts only while no other is between its first step and its assignment, and writes only
a copy that is not older than the file. -/
def keepsOrder (calls : List (Call α β)) (s : State α β × Ledger) (i : Nat) : Bool :=
  match s.1.phase i with
  | .ready => (List.range calls.length).all fun j => !(s.1.phase j).inSection
  | .serialised _ => decide (s.2.written ≤ s.2.stamp i)
  | _ => true

/-- The calls of a list of numbers, one after another. -/
def applied (calls : List (Call α β)) (x : α × β) (order : List Nat) : α × β :=
  order.foldl (fun x i => (calls[i]?.map fun c => c.apply x).getD x) x

structure Inv (calls : List (Call α β)) (x : α × β) (s : State α β) (g : Ledger) : Prop where
  nodup : g.order.Nodup
  mem : ∀ i, i ∈ g.order ↔ (s.phase i).hasAssigned = true
  bound : ∀ i, s.phase i = .ready ∨ i < calls.length
  cell : s.cell = (applied calls x g.order).1
  shared : (∀ j, (s.phase j).inSection = false) → s.shared = (applied calls x g.order).2
  sharedTouched : ∀ j c, (s.phase j).inSection = true → calls[j]? = some c →
    s.shared = c.touched (applied calls x g.order).2
  exclusive : ∀ i j, (s.phase i).inSection = true → (s.phase j).inSection = true → i = j
  read : ∀ i base, s.phase i = .read base → base = s.cell
  own : ∀ i own, s.phase i = .assigned own → g.stamp i = g.order.length → own = s.cell
  copy : ∀ i copy, s.phase i = .serialised copy → g.stamp i = g.order.length →
    (∀ j, (s.phase j).inSection = false) → copy = (s.cell, s.shared)
  file : g.written = g.order.length → (∀ j, (s.phase j).inSection = false) →
    s.file = (s.cell, s.shared)
  stamp : ∀ i, g.stamp i ≤ g.order.length
  written : g.written ≤ g.order.length
  stamped : ∀ n i, g.order[n]? = some i → s.phase i ≠ .returned → n + 1 ≤ g.stamp i
  wrote : ∀ n i, g.order[n]? = some i → s.phase i = .returned → n + 1 ≤ g.written

theorem Inv.start (calls : List (Call α β)) (x : α × β) :
    Inv calls x (State.start x) Ledger.start := by
  constructor <;> simp [State.start, Ledger.start, Phase.hasAssigned, Phase.inSection, applied]

@[simp] theorem State.setPhase_self (s : State α β) (i : Nat) (p : Phase α β) :
    (s.setPhase i p).phase i = p := by
  simp [State.setPhase]

theorem State.setPhase_of_ne (s : State α β) {i j : Nat} (p : Phase α β) (h : j ≠ i) :
    (s.setPhase i p).phase j = s.phase j := by
  simp [State.setPhase, h]

theorem applied_append {calls : List (Call α β)} {c : Call α β} {i : Nat} (hc : calls[i]? = some c)
    (x : α × β) (order : List Nat) :
    applied calls x (order ++ [i]) = c.apply (applied calls x order) := by
  simp [applied, hc]

theorem Phase.not_inSection_of_hasAssigned {p : Phase α β} (h : p.hasAssigned = true) :
    p.inSection = false := by
  cases p <;> first | rfl | cases h

/-- The assignment of the only call that is between its first step and its assignment. -/
theorem Inv.assign {calls : List (Call α β)} {x : α × β} {s : State α β} {g : Ledger} {i : Nat}
    {c : Call α β} (h : Inv calls x s g) (hc : calls[i]? = some c)
    (hnot : (s.phase i).hasAssigned = false)
    (halone : ∀ j, j ≠ i → (s.phase j).inSection = false)
    (hshared : s.shared = c.touched (applied calls x g.order).2) :
    Inv calls x (s.assign i (c.update.apply s.cell)) (g.assign i) := by
  have hi : i < calls.length := (List.getElem?_eq_some_iff.mp hc).1
  have hnew : i ∉ g.order := fun hm => by simp [(h.mem i).mp hm] at hnot
  have happ : applied calls x (g.order ++ [i]) = (c.update.apply s.cell, s.shared) := by
    rw [applied_append hc, Call.apply, ← h.cell, ← hshared]
  have hself : (s.assign i (c.update.apply s.cell)).phase i = .assigned (c.update.apply s.cell) :=
    State.setPhase_self _ _ _
  have hother (j : Nat) (hj : j ≠ i) :
      (s.assign i (c.update.apply s.cell)).phase j = s.phase j := State.setPhase_of_ne _ _ hj
  have hnone (j : Nat) : ((s.assign i (c.update.apply s.cell)).phase j).inSection = false := by
    by_cases hj : j = i
    · rw [hj, hself]
      rfl
    · rw [hother j hj]
      exact halone j hj
  have hstamp (j : Nat) (hj : j ≠ i) : (g.assign i).stamp j = g.stamp j :=
    Function.update_of_ne hj _ _
  have hstampSelf : (g.assign i).stamp i = g.order.length + 1 := Function.update_self _ _ _
  have hlen : (g.assign i).order.length = g.order.length + 1 := by simp [Ledger.assign]
  have hold (j : Nat) (hj : j ≠ i) : (g.assign i).stamp j ≠ (g.assign i).order.length := by
    have := h.stamp j
    rw [hstamp j hj, hlen]
    omega
  have hpre (n j : Nat) (hj : j ≠ i) (hn : (g.order ++ [i])[n]? = some j) :
      g.order[n]? = some j := by
    rcases Nat.lt_or_ge n g.order.length with hlt | hge
    · rwa [List.getElem?_append_left hlt] at hn
    · rw [List.getElem?_append_right hge] at hn
      exact absurd (List.mem_singleton.mp (List.mem_of_getElem? hn)) hj
  refine
    { nodup := ?_, mem := ?_, bound := ?_, cell := ?_, shared := ?_, sharedTouched := ?_,
      exclusive := ?_, read := ?_, own := ?_, copy := ?_, file := ?_, stamp := ?_, written := ?_,
      stamped := ?_, wrote := ?_ }
  · refine List.nodup_append.mpr ⟨h.nodup, by simp, fun j hj k hk => ?_⟩
    rintro rfl
    exact hnew (List.mem_singleton.mp hk ▸ hj)
  · intro j
    by_cases hj : j = i
    · rw [hj, hself]
      simp [Ledger.assign, Phase.hasAssigned]
    · rw [hother j hj, ← h.mem j]
      simp [Ledger.assign, hj]
  · intro j
    by_cases hj : j = i
    · exact .inr (hj ▸ hi)
    · rw [hother j hj]
      exact h.bound j
  · exact (congrArg Prod.fst happ).symm
  · exact fun _ => (congrArg Prod.snd happ).symm
  · intro j _ hj
    simp [hnone j] at hj
  · intro j _ hj
    simp [hnone j] at hj
  · intro j base hj
    have := hnone j
    simp [hj, Phase.inSection] at this
  · intro j own hj heq
    by_cases hji : j = i
    · rw [hji, hself] at hj
      cases hj
      rfl
    · exact absurd heq (hold j hji)
  · intro j copy hj heq
    by_cases hji : j = i
    · rw [hji, hself] at hj
      cases hj
    · exact absurd heq (hold j hji)
  · intro heq
    have := h.written
    rw [hlen] at heq
    change g.written = g.order.length + 1 at heq
    omega
  · intro j
    by_cases hj : j = i
    · rw [hj, hstampSelf, hlen]
    · rw [hstamp j hj, hlen]
      exact Nat.le_succ_of_le (h.stamp j)
  · rw [hlen]
    exact Nat.le_succ_of_le h.written
  · intro n j hn hj
    by_cases hji : j = i
    · rw [hji, hstampSelf]
      have := (List.getElem?_eq_some_iff.mp hn).1
      omega
    · rw [hother j hji] at hj
      rw [hstamp j hji]
      exact h.stamped n j (hpre n j hji hn) hj
  · intro n j hn hj
    by_cases hji : j = i
    · rw [hji, hself] at hj
      cases hj
    · rw [hother j hji] at hj
      exact h.wrote n j (hpre n j hji hn) hj

theorem Inv.enter {calls : List (Call α β)} {x : α × β} {s : State α β} {g : Ledger} {i : Nat}
    {c : Call α β} {p : Phase α β} {b : β} (h : Inv calls x s g) (hc : calls[i]? = some c)
    (hnot : (s.phase i).hasAssigned = false) (hp : p.inSection = true)
    (hread : ∀ base, p = .read base → base = s.cell)
    (halone : ∀ j, j ≠ i → (s.phase j).inSection = false)
    (hb : b = c.touched (applied calls x g.order).2) :
    Inv calls x ({ s with shared := b }.setPhase i p) g := by
  have hi : i < calls.length := (List.getElem?_eq_some_iff.mp hc).1
  have hself : ({ s with shared := b }.setPhase i p).phase i = p := State.setPhase_self _ _ _
  have hother (j : Nat) (hj : j ≠ i) : ({ s with shared := b }.setPhase i p).phase j = s.phase j :=
    State.setPhase_of_ne _ _ hj
  have hpnot : p.hasAssigned = false := by
    cases p <;> first | rfl | cases hp
  have honly (j : Nat) (hj : (({ s with shared := b }.setPhase i p).phase j).inSection = true) :
      j = i := by
    by_contra hji
    rw [hother j hji, halone j hji] at hj
    cases hj
  have hinside : ¬∀ j, (({ s with shared := b }.setPhase i p).phase j).inSection = false := by
    intro hall
    have := hall i
    rw [hself, hp] at this
    cases this
  have hnew (n : Nat) : g.order[n]? ≠ some i := by
    intro hn
    simp [(h.mem i).mp (List.mem_of_getElem? hn)] at hnot
  refine
    { nodup := h.nodup, mem := ?_, bound := ?_, cell := h.cell
      shared := fun hall => absurd hall hinside, sharedTouched := ?_, exclusive := ?_, read := ?_
      own := ?_, copy := fun _ _ _ _ hall => absurd hall hinside
      file := fun _ hall => absurd hall hinside, stamp := h.stamp, written := h.written
      stamped := ?_, wrote := ?_ }
  · intro j
    by_cases hj : j = i
    · rw [hj, hself, hpnot, h.mem i, hnot]
    · rw [hother j hj]
      exact h.mem j
  · intro j
    by_cases hj : j = i
    · exact .inr (hj ▸ hi)
    · rw [hother j hj]
      exact h.bound j
  · intro j d hj hd
    cases honly j hj
    cases Option.some.inj (hc.symm.trans hd)
    exact hb
  · intro j k hj hk
    rw [honly j hj, honly k hk]
  · intro j base hj
    have hji := honly j (by rw [hj]; rfl)
    rw [hji, hself] at hj
    exact hread base hj
  · intro j own hj
    have hji : j ≠ i := by
      rintro rfl
      rw [hself] at hj
      rw [hj] at hp
      cases hp
    rw [hother j hji] at hj
    exact h.own j own hj
  · intro n j hn hj
    have hji : j ≠ i := fun hji => hnew n (hji ▸ hn)
    rw [hother j hji] at hj
    exact h.stamped n j hn hj
  · intro n j hn hj
    have hji : j ≠ i := fun hji => hnew n (hji ▸ hn)
    rw [hother j hji] at hj
    exact h.wrote n j hn hj

/-- A step of a call that has assigned: the cell and the shared part stay. -/
theorem Inv.after {calls : List (Call α β)} {x : α × β} {s : State α β} {g g' : Ledger} {i : Nat}
    {p : Phase α β} {f : α × β} (h : Inv calls x s g) (hhas : (s.phase i).hasAssigned = true)
    (hp : p.hasAssigned = true) (hpown : ∀ own, p ≠ .assigned own) (horder : g'.order = g.order)
    (hstampOther : ∀ j, j ≠ i → g'.stamp j = g.stamp j) (hstamp : g'.stamp i ≤ g.order.length)
    (hwritten : g'.written ≤ g.order.length) (hle : g.written ≤ g'.written)
    (hcopy : ∀ copy, p = .serialised copy → g'.stamp i = g.order.length →
      (∀ j, (s.phase j).inSection = false) → copy = (s.cell, s.shared))
    (hfile : g'.written = g.order.length → (∀ j, (s.phase j).inSection = false) →
      f = (s.cell, s.shared))
    (hstamped : p ≠ .returned → ∀ n, g.order[n]? = some i → n + 1 ≤ g'.stamp i)
    (hwrote : p = .returned → ∀ n, g.order[n]? = some i → n + 1 ≤ g'.written) :
    Inv calls x ({ s with file := f }.setPhase i p) g' := by
  have hself : ({ s with file := f }.setPhase i p).phase i = p := State.setPhase_self _ _ _
  have hother (j : Nat) (hj : j ≠ i) : ({ s with file := f }.setPhase i p).phase j = s.phase j :=
    State.setPhase_of_ne _ _ hj
  have hin (j : Nat) :
      (({ s with file := f }.setPhase i p).phase j).inSection = (s.phase j).inSection := by
    by_cases hj : j = i
    · rw [hj, hself, Phase.not_inSection_of_hasAssigned hp,
        Phase.not_inSection_of_hasAssigned hhas]
    · rw [hother j hj]
  refine
    { nodup := horder ▸ h.nodup, mem := ?_, bound := ?_, cell := horder ▸ h.cell, shared := ?_
      sharedTouched := ?_, exclusive := ?_, read := ?_, own := ?_, copy := ?_, file := ?_
      stamp := ?_, written := horder ▸ hwritten, stamped := ?_, wrote := ?_ }
  · intro j
    by_cases hj : j = i
    · rw [hj, hself, horder, h.mem i, hhas, hp]
    · rw [hother j hj, horder]
      exact h.mem j
  · intro j
    by_cases hj : j = i
    · rcases h.bound i with hr | hlt
      · rw [hr] at hhas
        cases hhas
      · exact .inr (hj ▸ hlt)
    · rw [hother j hj]
      exact h.bound j
  · intro hall
    rw [horder]
    exact h.shared fun j => (hin j).symm.trans (hall j)
  · intro j d hj hd
    rw [horder]
    exact h.sharedTouched j d ((hin j).symm.trans hj) hd
  · intro j k hj hk
    exact h.exclusive j k ((hin j).symm.trans hj) ((hin k).symm.trans hk)
  · intro j base hj
    have hji : j ≠ i := by
      rintro rfl
      rw [hself] at hj
      rw [hj] at hp
      cases hp
    rw [hother j hji] at hj
    exact h.read j base hj
  · intro j own hj heq
    have hji : j ≠ i := by
      rintro rfl
      rw [hself] at hj
      exact hpown own hj
    rw [hother j hji] at hj
    rw [hstampOther j hji, horder] at heq
    exact h.own j own hj heq
  · intro j copy hj heq hall
    have hnone (k : Nat) : (s.phase k).inSection = false := (hin k).symm.trans (hall k)
    rw [horder] at heq
    by_cases hji : j = i
    · rw [hji, hself] at hj
      exact hcopy copy hj (hji ▸ heq) hnone
    · rw [hother j hji] at hj
      rw [hstampOther j hji] at heq
      exact h.copy j copy hj heq hnone
  · intro heq hall
    rw [horder] at heq
    exact hfile heq fun k => (hin k).symm.trans (hall k)
  · intro j
    rw [horder]
    by_cases hj : j = i
    · rw [hj]
      exact hstamp
    · rw [hstampOther j hj]
      exact h.stamp j
  · intro n j hn hj
    rw [horder] at hn
    by_cases hji : j = i
    · rw [hji, hself] at hj
      rw [hji] at hn ⊢
      exact hstamped hj n hn
    · rw [hother j hji] at hj
      rw [hstampOther j hji]
      exact h.stamped n j hn hj
  · intro n j hn hj
    rw [horder] at hn
    by_cases hji : j = i
    · rw [hji, hself] at hj
      exact hwrote hj n (hji ▸ hn)
    · rw [hother j hji] at hj
      exact (h.wrote n j hn hj).trans hle

theorem Inv.step {calls : List (Call α β)} {x : α × β} {s t : State α β} {g : Ledger} {i : Nat}
    (h : Inv calls x s g) (hok : keepsOrder calls (s, g) i) (ht : s.step calls i = some t) :
    Inv calls x t (g.next calls s i) := by
  obtain ⟨c, hc, ht⟩ := Option.bind_eq_some_iff.mp ht
  cases hphase : s.phase i with
  | ready =>
    have hnone (j : Nat) : (s.phase j).inSection = false := by
      rcases h.bound j with hr | hlt
      · rw [hr]
        rfl
      · simp only [keepsOrder, hphase, List.all_eq_true, List.mem_range] at hok
        simpa using hok j hlt
    have hshared := h.shared hnone
    have hnot : (s.phase i).hasAssigned = false := by rw [hphase]; rfl
    simp only [hphase] at ht
    cases htouch : c.touch with
    | some f =>
      simp only [htouch] at ht
      cases ht
      have hb : f s.shared = c.touched (applied calls x g.order).2 := by
        simp [Call.touched, htouch, hshared]
      simp only [Ledger.next, hc, hphase, htouch]
      exact h.enter hc hnot rfl (fun _ hr => nomatch hr) (fun j _ => hnone j) hb
    | none =>
      have hb : s.shared = c.touched (applied calls x g.order).2 := by
        simp [Call.touched, htouch, hshared]
      cases hupdate : c.update with
      | modify f =>
        simp only [htouch, hupdate] at ht
        cases ht
        simp only [Ledger.next, hc, hphase, htouch, hupdate]
        exact h.enter hc hnot rfl (fun _ hr => by cases hr; rfl) (fun j _ => hnone j) hb
      | replace a =>
        simp only [htouch, hupdate] at ht
        cases ht
        simp only [Ledger.next, hc, hphase, htouch, hupdate]
        have hassign := h.assign hc hnot (fun j _ => hnone j) hb
        rwa [hupdate] at hassign
  | touched =>
    have hin : (s.phase i).inSection = true := by rw [hphase]; rfl
    have halone (j : Nat) (hj : j ≠ i) : (s.phase j).inSection = false := by
      by_contra hjin
      exact hj (h.exclusive j i (by simpa using hjin) hin)
    simp only [hphase] at ht
    cases ht
    simp only [Ledger.next, hc, hphase]
    exact h.enter hc (by rw [hphase]; rfl) rfl (fun _ hr => by cases hr; rfl) halone
      (h.sharedTouched i c hin hc)
  | read base =>
    have hin : (s.phase i).inSection = true := by rw [hphase]; rfl
    have halone (j : Nat) (hj : j ≠ i) : (s.phase j).inSection = false := by
      by_contra hjin
      exact hj (h.exclusive j i (by simpa using hjin) hin)
    simp only [hphase] at ht
    cases ht
    simp only [Ledger.next, hc, hphase, h.read i base hphase]
    exact h.assign hc (by rw [hphase]; rfl) halone (h.sharedTouched i c hin hc)
  | assigned own =>
    simp only [hphase] at ht
    cases ht
    simp only [Ledger.next, hc, hphase]
    have hn (n : Nat) (hn : g.order[n]? = some i) : n + 1 ≤ g.order.length :=
      (List.getElem?_eq_some_iff.mp hn).1
    have hhas : (s.phase i).hasAssigned = true := by rw [hphase]; rfl
    by_cases hown : c.writesOwn = true
    · rw [if_pos hown, if_pos hown]
      refine h.after hhas rfl (by simp) rfl (fun _ _ => rfl) (h.stamp i) h.written (Nat.le_refl _)
        (fun copy hcopy heq _ => ?_) h.file (fun _ n hn => h.stamped n i hn (by simp [hphase]))
        (by simp)
      cases hcopy
      rw [h.own i own hphase heq]
    · rw [if_neg hown, if_neg hown]
      refine h.after hhas rfl (by simp) rfl (fun j hj => Function.update_of_ne hj _ _)
        (by simp) h.written (Nat.le_refl _) (fun copy hcopy _ _ => ?_) h.file
        (fun _ n hin => by simpa using hn n hin) (by simp)
      cases hcopy
      rfl
  | serialised copy =>
    simp only [hphase] at ht
    cases ht
    simp only [Ledger.next, hc, hphase]
    have hle : g.written ≤ g.stamp i := by simpa [keepsOrder, hphase] using hok
    exact h.after (by rw [hphase]; rfl) rfl (by simp) rfl (fun _ _ => rfl) (h.stamp i)
      (h.stamp i) hle (by simp) (h.copy i copy hphase) (by simp)
      (fun _ n hn => h.stamped n i hn (by simp [hphase]))
  | returned => simp [hphase] at ht

/-- With every call returned, the cell, the shared part and the file are those of the calls made one
after another, in the order of their assignments. -/
theorem Inv.serial {calls : List (Call α β)} {x : α × β} {s : State α β} {g : Ledger}
    (h : Inv calls x s g) (hall : ∀ i < calls.length, s.phase i = .returned) :
    g.order.Perm (List.range calls.length) ∧ (s.cell, s.shared) = applied calls x g.order ∧
      s.file = (s.cell, s.shared) := by
  have hnone (j : Nat) : (s.phase j).inSection = false := by
    rcases h.bound j with hr | hlt
    · rw [hr]
      rfl
    · rw [hall j hlt]
      rfl
  have hmem (i : Nat) : i ∈ g.order ↔ i ∈ List.range calls.length := by
    rw [h.mem i, List.mem_range]
    constructor
    · intro hi
      rcases h.bound i with hr | hlt
      · rw [hr] at hi
        cases hi
      · exact hlt
    · intro hi
      rw [hall i hi]
      rfl
  have hlast : g.written = g.order.length := by
    refine Nat.le_antisymm h.written ?_
    rcases Nat.eq_zero_or_pos g.order.length with hzero | hpos
    · omega
    · have hget : g.order[g.order.length - 1]? = some g.order[g.order.length - 1] :=
        List.getElem?_eq_getElem (by omega)
      have hret := hall _ (List.mem_range.mp ((hmem _).mp (List.mem_of_getElem? hget)))
      have := h.wrote _ _ hget hret
      omega
  refine ⟨(List.perm_ext_iff_of_nodup h.nodup List.nodup_range).mpr hmem, ?_, h.file hlast hnone⟩
  exact Prod.ext h.cell (h.shared hnone)

theorem filterMap_range_getElem? {γ : Type*} (jobs : List γ) :
    (List.range jobs.length).filterMap (fun i => jobs[i]?) = jobs := by
  induction jobs with
  | nil => rfl
  | cons j jobs ih =>
    rw [List.length_cons, List.range_succ_eq_map, List.filterMap_cons, List.filterMap_map]
    simpa using ih

theorem applied_map {γ : Type*} (jobs : List γ) (call : γ → Call α β) (x : α × β)
    (order : List Nat) :
    applied (jobs.map call) x order =
      (order.filterMap fun i => jobs[i]?).foldl (fun x j => (call j).apply x) x := by
  induction order generalizing x with
  | nil => rfl
  | cons i order ih =>
    rw [applied, List.foldl_cons, ← applied, ih, List.filterMap_cons]
    cases hj : jobs[i]? with
    | none => simp [hj]
    | some j => simp [hj]

theorem Inv.serialJobs {γ : Type*} {jobs : List γ} {call : γ → Call α β} {x : α × β}
    {s : State α β} {g : Ledger} (h : Inv (jobs.map call) x s g)
    (hall : ∀ i < (jobs.map call).length, s.phase i = .returned) :
    ∃ order : List γ, order.Perm jobs ∧
      (s.cell, s.shared) = order.foldl (fun x j => (call j).apply x) x ∧
      s.file = (s.cell, s.shared) := by
  obtain ⟨hperm, hcell, hfile⟩ := h.serial hall
  rw [List.length_map] at hperm
  refine ⟨g.order.filterMap fun i => jobs[i]?, ?_, hcell.trans (applied_map jobs call x g.order),
    hfile⟩
  have hjobs := hperm.filterMap fun i => jobs[i]?
  rwa [filterMap_range_getElem?] at hjobs

end ReadModifyWrite
