import Forth.Workspace
import Forth.Interpreter

/-!
# Clones work apart

The callers of several interpreters give them tasks in any order: programs, lines and definitions, each of
which may fail. What an interpreter does for its tasks depends on its own machine and on the values that its
callers keep for it. The stores of a workspace are common, but a clone has a place of its own in each of them,
or in each but that of the dictionaries (`Workspace.clones_apart`).
-/
namespace Forth

/-! ### What is kept and asked for -/

abbrev Shelf (α : Type) := String → α

namespace Shelf

variable {α : Type} [Inhabited α]

/-- The value under a name. Where no name is given it is a new one. -/
def get (shelf : Shelf α) : Option String → α
  | none => default
  | some n => shelf n

def set (shelf : Shelf α) (name : Option String) (x : α) : Shelf α :=
  match name with
  | none => shelf
  | some n => fun k => if k = n then x else shelf k

theorem get_set_of_ne (shelf : Shelf α) {a b : Option String} (x : α)
    (h : ¬ (a.isSome ∧ a = b)) : (shelf.set a x).get b = shelf.get b := by
  cases a with
  | none => rfl
  | some n =>
    cases b with
    | none => rfl
    | some k =>
      have : k ≠ n := fun e => h ⟨rfl, congrArg some e.symm⟩
      simp [set, get, this]

theorem get_set_congr {shelf shelf' : Shelf α} (a : Option String) {b : Option String} (x : α)
    (h : shelf.get b = shelf'.get b) : (shelf.set a x).get b = (shelf'.set a x).get b := by
  cases a with
  | none => exact h
  | some n =>
    cases b with
    | none => rfl
    | some k =>
      by_cases e : k = n
      · simp [set, get, e]
      · simpa [set, get, e] using h

end Shelf

structure Kept where
  spaces : Shelf Variables
  targets : Shelf String

inductive Task where
  | interpret (loop : Option Int) (tokens : List String) (space : Option String)
  | line (text : String) (input : Option String) (target : Option String)
  | define (name : String) (body : List String) (effect : String)
  deriving DecidableEq, Repr

structure Reply (ε : Type) where
  result : Except Abort String
  machine : Machine ε
  vars : Variables
  target : String

namespace Task

def space? : Task → Option String
  | .interpret _ _ space => space
  | _ => none

def target? : Task → Option String
  | .line _ _ target => target
  | _ => none

/-- Two tasks use the same namespace, or the same target. -/
def Meets (t u : Task) : Prop :=
  (t.space?.isSome ∧ t.space? = u.space?) ∨ (t.target?.isSome ∧ t.target? = u.target?)

instance (t u : Task) : Decidable (t.Meets u) := inferInstanceAs (Decidable (_ ∨ _))

variable {ε : Type} [Host ε]

def run (t : Task) (m : Machine ε) (vars : Variables) (target : String) : Reply ε :=
  match t with
  | .interpret loop tokens _ =>
    match Forth.interpret loop tokens ⟨m, vars⟩ with
    | .ok () s => ⟨.ok "", s.toMachine, s.vars, target⟩
    | .error a s => ⟨.error a, s.toMachine, s.vars, target⟩
  | .line text input _ =>
    match interpretLine text input (m, target) with
    | .ok output (m, target) => ⟨.ok output, m, vars, target⟩
    | .error a (m, target) => ⟨.error a, m, vars, target⟩
  | .define name body effect =>
    match Machine.define name body effect m with
    | .ok () m => ⟨.ok "", m, vars, target⟩
    | .error (.cause c) m => ⟨.error (.failed ⟨c, []⟩), m, vars, target⟩
    | .error (.fault f) m => ⟨.error (.fault f), m, vars, target⟩

end Task

namespace Kept

variable {ε : Type}

def after (k : Kept) (t : Task) (r : Reply ε) : Kept where
  spaces := k.spaces.set t.space? r.vars
  targets := k.targets.set t.target? r.target

/-- What is kept for a task is the same. -/
def SameFor (t : Task) (k k' : Kept) : Prop :=
  k.spaces.get t.space? = k'.spaces.get t.space? ∧ k.targets.get t.target? = k'.targets.get t.target?

theorem SameFor.trans {t : Task} {k k' k'' : Kept} (h : SameFor t k k') (h' : SameFor t k' k'') :
    SameFor t k k'' :=
  ⟨h.1.trans h'.1, h.2.trans h'.2⟩

theorem SameFor.after {u : Task} {k k' : Kept} (h : SameFor u k k') (t : Task) (r : Reply ε) :
    SameFor u (k.after t r) (k'.after t r) :=
  ⟨Shelf.get_set_congr _ _ h.1, Shelf.get_set_congr _ _ h.2⟩

/-- A task leaves alone what is kept for one that it does not meet. -/
theorem sameFor_after (k : Kept) {t u : Task} (r : Reply ε) (h : ¬ t.Meets u) :
    SameFor u (k.after t r) k :=
  ⟨Shelf.get_set_of_ne _ _ fun same => h (.inl same),
    Shelf.get_set_of_ne _ _ fun same => h (.inr same)⟩

end Kept

/-! ### Places of a workspace -/

namespace Workspace

variable {ε : Type}

theorem machine?_eq_some {w : Workspace ε} {i : Nat} {m : Machine ε} :
    w.machine? i = some m ↔ ∃ seat, w.seats[i]? = some seat ∧
      w.stackStore[seat.stack]? = some m.stack ∧ w.wordStore[seat.words]? = some m.words ∧
      w.consoleStore[seat.console]? = some m.console ∧
      seat.memory = m.memory ∧ seat.journal = m.journal := by
  obtain ⟨stack, memory, words, console, journal⟩ := m
  simp only [machine?, Option.bind_eq_bind, Option.bind_eq_some_iff, Option.pure_def, Option.some.injEq,
    Machine.mk.injEq]
  constructor
  · rintro ⟨seat, hseat, s, hs, d, hd, c, hc, rfl, hm, rfl, rfl, hj⟩
    exact ⟨seat, hseat, hs, hd, hc, hm, hj⟩
  · rintro ⟨seat, hseat, hs, hd, hc, hm, hj⟩
    exact ⟨seat, hseat, _, hs, _, hd, _, hc, rfl, hm, rfl, rfl, hj⟩

/-- Two interpreters with stacks and consoles of their own; `R` relates the places of their
dictionaries. -/
structure Neighbours (R : Nat → Nat → Prop) (w : Workspace ε) (i j : Nat) : Prop where
  ne : i ≠ j
  own : ∀ {a b}, w.seats[i]? = some a → w.seats[j]? = some b →
    a.stack ≠ b.stack ∧ a.console ≠ b.console ∧ R a.words b.words

/-- Two interpreters that have no place in common. -/
abbrev Apart (w : Workspace ε) (i j : Nat) : Prop := w.Neighbours (· ≠ ·) i j

/-- Two interpreters that have the dictionary in common, and nothing else. -/
abbrev Twins (w : Workspace ε) (i j : Nat) : Prop := w.Neighbours (· = ·) i j

theorem Neighbours.symm {R : Nat → Nat → Prop} (hR : ∀ {a b}, R a b → R b a) {w : Workspace ε} {i j : Nat}
    (h : w.Neighbours R i j) : w.Neighbours R j i where
  ne := h.ne.symm
  own ha hb :=
    have ⟨hs, hc, hw⟩ := h.own hb ha
    ⟨hs.symm, hc.symm, hR hw⟩

theorem seats_put (w : Workspace ε) (k : Nat) (n : Machine ε) (i : Nat) :
    (w.put k n).seats[i]? = (w.seats[i]?).map fun seat =>
      if k = i then { seat with memory := n.memory, journal := n.journal } else seat := by
  cases hk : w.seats[k]? with
  | none =>
    by_cases e : k = i
    · subst e
      simp [put, hk]
    · simp [put, hk, e]
  | some seat =>
    by_cases e : k = i
    · subst e
      have : k < w.seats.size := (Array.getElem?_eq_some_iff.1 hk).1
      simp [put, this]
    · simp [put, hk, e]

/-- Interpreters keep their places while they work. -/
theorem Neighbours.put {R : Nat → Nat → Prop} {w : Workspace ε} {i j : Nat} (h : w.Neighbours R i j) (k : Nat)
    (n : Machine ε) : (w.put k n).Neighbours R i j where
  ne := h.ne
  own ha hb := by
    rw [seats_put, Option.map_eq_some_iff] at ha hb
    obtain ⟨a, ha, rfl⟩ := ha
    obtain ⟨b, hb, rfl⟩ := hb
    have := h.own ha hb
    split <;> split <;> exact this

theorem machine?_put_self {w : Workspace ε} {i : Nat} {m : Machine ε} (h : w.machine? i = some m)
    (n : Machine ε) : (w.put i n).machine? i = some n := by
  obtain ⟨seat, hseat, hs, hd, hc, -, -⟩ := machine?_eq_some.1 h
  refine machine?_eq_some.2 ⟨{ seat with memory := n.memory, journal := n.journal }, ?_⟩
  have hs := (Array.getElem?_eq_some_iff.1 hs).1
  have hd := (Array.getElem?_eq_some_iff.1 hd).1
  have hc := (Array.getElem?_eq_some_iff.1 hc).1
  rw [seats_put]
  simp [put, hseat, hs, hd, hc]

/-- The work of one interpreter reaches another only through the dictionary. -/
theorem machine?_put_neighbour {R : Nat → Nat → Prop} {w : Workspace ε} {i j : Nat} {m n : Machine ε}
    {d : Dictionary ε} (h : w.Neighbours R i j) (hm : w.machine? i = some m)
    (hd : ∀ a, w.seats[i]? = some a → (w.put j n).wordStore[a.words]? = some d) :
    (w.put j n).machine? i = some { m with words := d } := by
  obtain ⟨a, ha, hs, -, hc, hmem, hj⟩ := machine?_eq_some.1 hm
  refine machine?_eq_some.2 ⟨a, ?_, ?_, hd a ha, ?_, hmem, hj⟩
  · simp [seats_put, ha, h.ne.symm]
  · cases hb : w.seats[j]? with
    | none => simpa [put, hb] using hs
    | some b => simpa [put, hb, (h.own ha hb).1.symm] using hs
  · cases hb : w.seats[j]? with
    | none => simpa [put, hb] using hc
    | some b => simpa [put, hb, (h.own ha hb).2.1.symm] using hc

theorem machine?_put_apart {w : Workspace ε} {i j : Nat} {m : Machine ε} (h : w.Apart i j)
    (hm : w.machine? i = some m) (n : Machine ε) : (w.put j n).machine? i = some m := by
  refine machine?_put_neighbour h hm fun a ha => ?_
  obtain ⟨a', ha', -, hd, -⟩ := machine?_eq_some.1 hm
  cases ha.symm.trans ha'
  cases hb : w.seats[j]? with
  | none => simpa [put, hb] using hd
  | some b => simpa [put, hb, (h.own ha hb).2.2.symm] using hd

theorem machine?_put_twin {w : Workspace ε} {i j : Nat} {m m' : Machine ε} (h : w.Twins i j)
    (hm : w.machine? i = some m) (hm' : w.machine? j = some m') (n : Machine ε) :
    (w.put j n).machine? i = some { m with words := n.words } := by
  refine machine?_put_neighbour h hm fun a ha => ?_
  obtain ⟨b, hb, -, hd, -⟩ := machine?_eq_some.1 hm'
  have := (Array.getElem?_eq_some_iff.1 hd).1
  simp [put, hb, (h.own ha hb).2.2, this]

/-- Twins see the same dictionary. -/
theorem Neighbours.words_eq {w : Workspace ε} {i j : Nat} {m m' : Machine ε} (h : w.Twins i j)
    (hm : w.machine? i = some m) (hm' : w.machine? j = some m') : m.words = m'.words := by
  obtain ⟨a, ha, -, hd, -⟩ := machine?_eq_some.1 hm
  obtain ⟨b, hb, -, hd', -⟩ := machine?_eq_some.1 hm'
  rw [(h.own ha hb).2.2, hd'] at hd
  exact (Option.some.inj hd).symm

end Workspace

/-! ### Cloning -/

/-- The machine that a clone starts as. -/
def Machine.sibling {ε : Type} (m : Machine ε) : Machine ε where
  stack := []
  memory := .zeros m.memory.size
  words := m.words
  console := .ofText ""
  journal := #[]

namespace Workspace

variable {ε : Type} {w w' : Workspace ε} {i : Nat} {seat : Seat} {m : Machine ε} {shareWords : Bool}

section

variable (hseat : w.seats[i]? = some seat) (core : seat.hosted = false) (hm : w.machine? i = some m)

include hseat core hm

/-- A clone of an interpreter with its own console takes the next seat. Its stack and its console are new,
and so is its dictionary unless that is shared. -/
theorem clone_eq :
    w.clone i shareWords = some
      { stackStore := w.stackStore.push []
        wordStore := if shareWords then w.wordStore else w.wordStore.push m.words
        consoleStore := w.consoleStore.push (.ofText "")
        seats := w.seats.push
          ⟨w.stackStore.size, if shareWords then seat.words else w.wordStore.size, w.consoleStore.size,
            .zeros m.memory.size, #[], false⟩ } := by
  obtain ⟨_, h, -, hd, -, hmem, -⟩ := machine?_eq_some.1 hm
  cases hseat.symm.trans h
  simp [clone, seatText, hseat, hd, core, hmem]

/-- Cloning changes nothing for those that are there. -/
theorem machine?_clone (h : w.clone i shareWords = some w') {k : Nat} {n : Machine ε}
    (hn : w.machine? k = some n) : w'.machine? k = some n := by
  cases (clone_eq hseat core hm).symm.trans h
  obtain ⟨a, ha, hs, hd, hc, hrest⟩ := machine?_eq_some.1 hn
  refine machine?_eq_some.2 ⟨a, ?_, ?_, ?_, ?_, hrest⟩
  · simp [Array.getElem?_push, ha, Nat.ne_of_lt (Array.getElem?_eq_some_iff.1 ha).1]
  · simp [Array.getElem?_push, hs, Nat.ne_of_lt (Array.getElem?_eq_some_iff.1 hs).1]
  · cases shareWords
    · simp [Array.getElem?_push, hd, Nat.ne_of_lt (Array.getElem?_eq_some_iff.1 hd).1]
    · exact hd
  · simp [Array.getElem?_push, hc, Nat.ne_of_lt (Array.getElem?_eq_some_iff.1 hc).1]

/-- A clone starts with an empty stack, zeroed memory and the dictionary of the time. -/
theorem machine?_clone_size (h : w.clone i shareWords = some w') :
    w'.machine? w.seats.size = some m.sibling := by
  cases (clone_eq hseat core hm).symm.trans h
  obtain ⟨_, h, -, hd, -⟩ := machine?_eq_some.1 hm
  cases hseat.symm.trans h
  refine machine?_eq_some.2 ⟨_, Array.getElem?_push_size, ?_, ?_, ?_, rfl, rfl⟩
  · exact Array.getElem?_push_size
  · cases shareWords
    · exact Array.getElem?_push_size
    · exact hd
  · exact Array.getElem?_push_size

theorem neighbours_clone {R : Nat → Nat → Prop} (h : w.clone i shareWords = some w')
    (hR : R seat.words (if shareWords then seat.words else w.wordStore.size)) :
    w'.Neighbours R i w.seats.size where
  ne := Nat.ne_of_lt (Array.getElem?_eq_some_iff.1 hseat).1
  own {a b} ha hb := by
    cases (clone_eq hseat core hm).symm.trans h
    obtain ⟨_, h, hs, -, hc, -⟩ := machine?_eq_some.1 hm
    cases hseat.symm.trans h
    have hi := (Array.getElem?_eq_some_iff.1 hseat).1
    have hs := (Array.getElem?_eq_some_iff.1 hs).1
    have hc := (Array.getElem?_eq_some_iff.1 hc).1
    have ha : some seat = some a := by simpa [Array.getElem?_push, hseat, Nat.ne_of_lt hi] using ha
    cases ha
    cases Array.getElem?_push_size.symm.trans hb
    exact ⟨Nat.ne_of_lt hs, Nat.ne_of_lt hc, hR⟩

/-- A clone with a copy of the dictionary has all places of its own. -/
theorem apart_clone (h : w.clone i false = some w') : w'.Apart i w.seats.size := by
  refine neighbours_clone hseat core hm h ?_
  obtain ⟨_, h, -, hd, -⟩ := machine?_eq_some.1 hm
  cases hseat.symm.trans h
  exact Nat.ne_of_lt (Array.getElem?_eq_some_iff.1 hd).1

theorem twins_clone (h : w.clone i true = some w') : w'.Twins i w.seats.size :=
  neighbours_clone hseat core hm h rfl

end

theorem machine?_single (m : Machine ε) (hosted : Bool) : (single m hosted).machine? 0 = some m := rfl

end Workspace

/-! ### Interpreters side by side -/

structure Setting (ε : Type) where
  workspace : Workspace ε
  kept : Kept

namespace Setting

variable {ε : Type} [Host ε]

/-- Give a task to the interpreter in a seat. -/
def step (s : Setting ε) (k : Nat) (t : Task) : Option (Reply ε) × Setting ε :=
  match s.workspace.machine? k with
  | none => (none, s)
  | some m =>
    let r := t.run m (s.kept.spaces.get t.space?) (s.kept.targets.get t.target?)
    (some r, ⟨s.workspace.put k r.machine, s.kept.after t r⟩)

/-- The setting after tasks for several interpreters, each with the seat that it is for. -/
def after (s : Setting ε) : List (Nat × Task) → Setting ε
  | [] => s
  | (k, t) :: rest => (s.step k t).2.after rest

def replies (s : Setting ε) (i : Nat) : List (Nat × Task) → List (Reply ε)
  | [] => []
  | (k, t) :: rest =>
    (if k = i then (s.step k t).1.toList else []) ++ (s.step k t).2.replies i rest

/-- What one of the interpreters shows: its replies, and the machine that it is in the end. -/
def view (s : Setting ε) (i : Nat) (tasks : List (Nat × Task)) : List (Reply ε) × Option (Machine ε) :=
  (s.replies i tasks, (s.after tasks).workspace.machine? i)

end Setting

/-- The tasks of one seat, given to another. -/
def tasksFor (i k : Nat) (tasks : List (Nat × Task)) : List (Nat × Task) :=
  (tasks.filter (·.1 = i)).map fun p => (k, p.2)

/-- No task of one seat meets a task of another. -/
def NothingInCommon (tasks : List (Nat × Task)) : Prop :=
  ∀ p ∈ tasks, ∀ q ∈ tasks, p.1 ≠ q.1 → ¬ p.2.Meets q.2

instance (tasks : List (Nat × Task)) : Decidable (NothingInCommon tasks) :=
  inferInstanceAs (Decidable (∀ p ∈ tasks, ∀ q ∈ tasks, p.1 ≠ q.1 → ¬ p.2.Meets q.2))

namespace Setting

variable {ε : Type} [Host ε] {s s' : Setting ε} {i j k : Nat} {m : Machine ε}

theorem step_eq (h : s.workspace.machine? k = some m) (t : Task) :
    s.step k t =
      let r := t.run m (s.kept.spaces.get t.space?) (s.kept.targets.get t.target?)
      (some r, ⟨s.workspace.put k r.machine, s.kept.after t r⟩) := by
  simp [step, h]

/-- Interpreters keep their places while they work. -/
theorem neighbours_step {R : Nat → Nat → Prop} (h : s.workspace.Neighbours R i j) (k : Nat) (t : Task) :
    (s.step k t).2.workspace.Neighbours R i j := by
  cases hk : s.workspace.machine? k with
  | none => simpa [step, hk] using h
  | some n =>
    rw [step_eq hk]
    exact h.put k _

/-- A task of one interpreter leaves another alone that has no place in common with it. -/
theorem machine?_step_apart (h : s.workspace.Apart i k) (hm : s.workspace.machine? i = some m)
    (t : Task) : (s.step k t).2.workspace.machine? i = some m := by
  cases hk : s.workspace.machine? k with
  | none => simpa [step, hk] using hm
  | some n =>
    rw [step_eq hk]
    exact Workspace.machine?_put_apart h hm _

theorem sameFor_step {t u : Task} (h : ¬ t.Meets u) (s : Setting ε) (k : Nat) :
    Kept.SameFor u (s.step k t).2.kept s.kept := by
  cases hk : s.workspace.machine? k with
  | none => simp [step, hk, Kept.SameFor]
  | some n =>
    rw [step_eq hk]
    exact s.kept.sameFor_after _ h

/-- The same machine does the same for a task in every setting where the same is kept for the task. -/
theorem step_same (hm : s.workspace.machine? i = some m) (hm' : s'.workspace.machine? k = some m)
    {t : Task} (h : Kept.SameFor t s.kept s'.kept) :
    (s.step i t).1 = (s'.step k t).1 ∧
      ∃ n, (s.step i t).2.workspace.machine? i = some n ∧
        (s'.step k t).2.workspace.machine? k = some n ∧
        ∀ u, Kept.SameFor u s.kept s'.kept →
          Kept.SameFor u (s.step i t).2.kept (s'.step k t).2.kept := by
  rw [step_eq hm, step_eq hm', h.1, h.2]
  exact ⟨rfl, _, Workspace.machine?_put_self hm _, Workspace.machine?_put_self hm' _,
    fun u hu => hu.after t _⟩

/-- An interpreter that has no place in common with any other at work, and nothing kept in common with
them, shows what it shows when it does its tasks alone, in this setting or in another where it is the same
machine. -/
theorem view_eq {tasks : List (Nat × Task)} (hm : s.workspace.machine? i = some m)
    (hm' : s'.workspace.machine? k = some m)
    (hapart : ∀ p ∈ tasks, p.1 ≠ i → s.workspace.Apart i p.1)
    (hkept : ∀ p ∈ tasks, p.1 = i → Kept.SameFor p.2 s.kept s'.kept)
    (hmeet : NothingInCommon tasks) :
    s.view i tasks = s'.view k (tasksFor i k tasks) := by
  induction tasks generalizing s s' m with
  | nil => simp [view, replies, after, tasksFor, hm, hm']
  | cons p rest ih =>
    obtain ⟨l, t⟩ := p
    have hrest : NothingInCommon rest := fun p hp q hq =>
      hmeet p (List.mem_cons_of_mem _ hp) q (List.mem_cons_of_mem _ hq)
    have hplaces : ∀ p ∈ rest, p.1 ≠ i → (s.step l t).2.workspace.Apart i p.1 := fun p hp hi =>
      neighbours_step (hapart p (List.mem_cons_of_mem _ hp) hi) l t
    by_cases hl : l = i
    · subst hl
      obtain ⟨hreply, n, hn, hn', hafter⟩ := step_same hm hm' (hkept _ List.mem_cons_self rfl)
      have := ih hn hn' hplaces
        (fun p hp hi => hafter p.2 (hkept p (List.mem_cons_of_mem _ hp) hi)) hrest
      simpa [view, replies, after, tasksFor, hreply] using this
    · have hn := machine?_step_apart (hapart _ List.mem_cons_self hl) hm t
      have hkept : ∀ p ∈ rest, p.1 = i → Kept.SameFor p.2 (s.step l t).2.kept s'.kept := by
        intro p hp hi
        have hp := List.mem_cons_of_mem (l, t) hp
        have : ¬ t.Meets p.2 := hmeet _ List.mem_cons_self p hp (by simpa [hi] using hl)
        exact (sameFor_step this s l).trans (hkept p hp hi)
      simpa [view, replies, after, tasksFor, hl] using ih hn hm' hplaces hkept hrest

/-- What a task changes for a twin is the dictionary. -/
theorem machine?_step_twin {m' : Machine ε} (h : s.workspace.Twins i j)
    (hm : s.workspace.machine? i = some m) (hm' : s.workspace.machine? j = some m') (t : Task) :
    ∃ n, (s.step i t).2.workspace.machine? i = some n ∧
      (s.step i t).2.workspace.machine? j = some { m' with words := n.words } := by
  rw [step_eq hm]
  exact ⟨_, Workspace.machine?_put_self hm _,
    Workspace.machine?_put_twin (h.symm Eq.symm) hm' hm _⟩

/-- Twins stay twins, and stay at work, whatever they do. -/
theorem twins_after {tasks : List (Nat × Task)} {m' : Machine ε} (h : s.workspace.Twins i j)
    (hm : s.workspace.machine? i = some m) (hm' : s.workspace.machine? j = some m')
    (htasks : ∀ p ∈ tasks, p.1 ∈ [i, j]) :
    (s.after tasks).workspace.Twins i j ∧ ∃ n n', (s.after tasks).workspace.machine? i = some n ∧
      (s.after tasks).workspace.machine? j = some n' := by
  induction tasks generalizing s m m' with
  | nil => exact ⟨h, m, m', hm, hm'⟩
  | cons p rest ih =>
    obtain ⟨l, t⟩ := p
    have hrest : ∀ p ∈ rest, p.1 ∈ [i, j] := fun p hp => htasks p (List.mem_cons_of_mem _ hp)
    have hl : l = i ∨ l = j := by simpa using htasks _ List.mem_cons_self
    obtain rfl | rfl := hl
    · obtain ⟨_, hn, hn'⟩ := machine?_step_twin h hm hm' t
      exact ih (neighbours_step h _ t) hn hn' hrest
    · obtain ⟨_, hn, hn'⟩ := machine?_step_twin (h.symm Eq.symm) hm' hm t
      exact ih (neighbours_step h _ t) hn' hn hrest

end Setting

variable {ε : Type} [Host ε]

/-- A clone with a copy of the dictionary and the interpreter it was made from work apart: whatever the
order of their tasks, if callers keep nothing for both, each of the two shows what it shows when the other
does nothing, and the clone what an interpreter of its own shows that starts with the dictionary of the
time, an empty stack and zeroed memory. A clone that shares the dictionary always sees the same one, and a
task of either of the two changes nothing else for the other. -/
theorem Workspace.clones_apart (w : Workspace ε) {i : Nat} {seat : Seat} {m : Machine ε}
    (hseat : w.seats[i]? = some seat) (core : seat.hosted = false) (hm : w.machine? i = some m) :
    (∃ w', w.clone i false = some w' ∧ w'.machine? i = some m ∧
      ∀ (kept : Kept) (tasks : List (Nat × Task)),
        (∀ p ∈ tasks, p.1 ∈ [i, w.seats.size]) → NothingInCommon tasks →
          Setting.view ⟨w', kept⟩ i tasks = Setting.view ⟨w', kept⟩ i (tasksFor i i tasks) ∧
          Setting.view ⟨w', kept⟩ w.seats.size tasks =
            Setting.view ⟨.single m.sibling false, kept⟩ 0 (tasksFor w.seats.size 0 tasks)) ∧
    (∃ w', w.clone i true = some w' ∧ w'.machine? i = some m ∧
      w'.machine? w.seats.size = some m.sibling ∧
      ∀ (kept : Kept) (tasks : List (Nat × Task)), (∀ p ∈ tasks, p.1 ∈ [i, w.seats.size]) →
        ∀ k ∈ [i, w.seats.size], ∀ l ∈ [i, w.seats.size], k ≠ l →
          let s := Setting.after ⟨w', kept⟩ tasks
          ∃ a b, s.workspace.machine? k = some a ∧ s.workspace.machine? l = some b ∧
            a.words = b.words ∧
            ∀ t, ∃ a', (s.step k t).2.workspace.machine? k = some a' ∧
              (s.step k t).2.workspace.machine? l = some { b with words := a'.words }) := by
  constructor
  · obtain ⟨w', hw⟩ : ∃ w', w.clone i false = some w' := ⟨_, clone_eq hseat core hm⟩
    have hi := machine?_clone hseat core hm hw hm
    have hj := machine?_clone_size hseat core hm hw
    have hapart := apart_clone hseat core hm hw
    refine ⟨w', hw, hi, fun kept tasks hseats hmeet => ⟨?_, ?_⟩⟩
    · refine Setting.view_eq hi hi (fun p hp hne => ?_) (fun p _ _ => ⟨rfl, rfl⟩) hmeet
      have : p.1 = w.seats.size := by simpa [hne] using hseats p hp
      exact this ▸ hapart
    · refine Setting.view_eq hj (machine?_single _ _) (fun p hp hne => ?_)
        (fun p _ _ => ⟨rfl, rfl⟩) hmeet
      have : p.1 = i := by simpa [hne] using hseats p hp
      exact this ▸ hapart.symm Ne.symm
  · obtain ⟨w', hw⟩ : ∃ w', w.clone i true = some w' := ⟨_, clone_eq hseat core hm⟩
    have hi := machine?_clone hseat core hm hw hm
    have hj := machine?_clone_size hseat core hm hw
    refine ⟨w', hw, hi, hj, fun kept tasks hseats => ?_⟩
    obtain ⟨htwins, a, b, ha, hb⟩ :=
      Setting.twins_after (s := ⟨w', kept⟩) (twins_clone hseat core hm hw) hi hj hseats
    have hwords := htwins.words_eq ha hb
    intro k hk l hl hne
    obtain ⟨rfl, rfl⟩ | ⟨rfl, rfl⟩ : k = i ∧ l = w.seats.size ∨ k = w.seats.size ∧ l = i := by
      simp only [List.mem_cons, List.not_mem_nil, or_false] at hk hl
      omega
    · exact ⟨a, b, ha, hb, hwords, Setting.machine?_step_twin htwins ha hb⟩
    · exact ⟨b, a, hb, ha, hwords.symm, Setting.machine?_step_twin (htwins.symm Eq.symm) hb ha⟩

/-- An interpreter and its clone give a word different meanings, and each keeps to its own. -/
theorem Workspace.clones_apart_two_meanings :
    let m : Machine Empty := ⟨[7], .zeros 2, ⟨[⟨"one", "", .definition ["1"]⟩]⟩, .ofText "", #[]⟩
    let tasks : List (Nat × Task) :=
      [(0, .define "two" ["one", "one"] ""), (1, .define "two" ["2"] ""),
        (1, .interpret none ["two", "frob"] (some "a")), (0, .interpret none ["two"] (some "b"))]
    let kept : Kept := ⟨fun _ => [], fun _ => ""⟩
    (Workspace.single m false).machine? 0 = some m ∧ NothingInCommon tasks ∧
      ∃ w', (Workspace.single m false).clone 0 false = some w' ∧
        Setting.view ⟨w', kept⟩ 0 tasks = Setting.view ⟨w', kept⟩ 0 (tasksFor 0 0 tasks) ∧
        Setting.view ⟨w', kept⟩ 1 tasks =
          Setting.view ⟨.single m.sibling false, kept⟩ 0 (tasksFor 1 0 tasks) ∧
        (Setting.view ⟨w', kept⟩ 0 tasks).2.map (·.stack) = some [1, 1, 7] ∧
        (Setting.view ⟨w', kept⟩ 1 tasks).2.map (·.stack) = some [2] := by
  intro m tasks kept
  have hmeet : NothingInCommon tasks := by decide
  obtain ⟨⟨w', hw, -, h⟩, -⟩ := Workspace.clones_apart (.single m false) (i := 0) rfl rfl rfl
  obtain ⟨hown, hcloned⟩ := h kept tasks (by decide) hmeet
  refine ⟨rfl, hmeet, w', hw, hown, hcloned, ?_, ?_⟩
  all_goals
    cases hw
    clear h hown hcloned hmeet
    decide +kernel +revert

end Forth
