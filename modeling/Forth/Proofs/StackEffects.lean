import Forth.Proofs.Composition
import Forth.Proofs.Frames
import Forth.Proofs.Nesting

/-!
# What a sequence does to the stack

Many words work on the stack alone: what they do is an effect on stacks, which leaves a stack even where something
goes wrong. Numbers have such effects, and so have calls and choices of sequences that have them. The effect of one
sequence after another is the one effect after the other (`Denotes.append`), so that what a body does is read off
its words.
-/
namespace Forth

inductive Mishap where
  | missingCell
  | zeroDivisor
  deriving DecidableEq, Repr

@[simp] def Mishap.cause : Mishap → Cause
  | .missingCell => .stackUnderflow
  | .zeroDivisor => .divisionByZero

/-- What is done to a stack. Something that goes wrong leaves a stack too. -/
abbrev StackAction (α : Type) := EStateM Mishap Stack α

abbrev StackEffect := StackAction Unit

namespace StackEffect

def push (n : Int) : StackEffect := fun st => .ok () (n :: st)

def pop : StackAction Int
  | [] => .error .missingCell []
  | n :: below => .ok n below

def binary (f : Int → Int → Int) : StackEffect := do
  let b ← pop
  let a ← pop
  push (f a b)

def divide (part : Int × Int → Int) : StackEffect := do
  let b ← pop
  let a ← pop
  match Cell.divMod? a b with
  | some qr => push (part qr)
  | none => throw .zeroDivisor

def choose (yes no : StackEffect) : StackEffect := do
  let n ← pop
  if Cell.truthy n then yes else no

@[simp] theorem pure_apply (st : Stack) : (pure () : StackEffect) st = .ok () st := rfl

@[simp] theorem push_apply (n : Int) (st : Stack) : push n st = .ok () (n :: st) := rfl

@[simp] theorem pop_nil : pop [] = .error .missingCell [] := rfl

@[simp] theorem pop_cons (n : Int) (below : Stack) : pop (n :: below) = .ok n below := rfl

@[simp] theorem binary_nil (f : Int → Int → Int) : binary f [] = .error .missingCell [] := rfl

@[simp] theorem binary_singleton (f : Int → Int → Int) (b : Int) :
    binary f [b] = .error .missingCell [] := rfl

@[simp] theorem binary_cons (f : Int → Int → Int) (a b : Int) (base : Stack) :
    binary f (b :: a :: base) = .ok () (f a b :: base) := rfl

@[simp] theorem divide_nil (part : Int × Int → Int) : divide part [] = .error .missingCell [] := rfl

@[simp] theorem divide_singleton (part : Int × Int → Int) (b : Int) :
    divide part [b] = .error .missingCell [] := rfl

@[simp] theorem divide_zero (part : Int × Int → Int) (a : Int) (base : Stack) :
    divide part (0 :: a :: base) = .error .zeroDivisor base := rfl

theorem divide_cons (part : Int × Int → Int) {b : Int} (hb : b ≠ 0) (a : Int) (base : Stack) :
    divide part (b :: a :: base) = .ok () (part (Cell.truncDiv a b, Cell.truncMod a b) :: base) := by
  simp [divide, bind, EStateM.bind, Cell.divMod?, hb]

@[simp] theorem choose_nil (yes no : StackEffect) : choose yes no [] = .error .missingCell [] := rfl

@[simp] theorem choose_cons (yes no : StackEffect) (n : Int) (below : Stack) :
    choose yes no (n :: below) = if n = 0 then no below else yes below := by
  by_cases hn : n = 0 <;> simp [choose, bind, EStateM.bind, Cell.truthy, hn]

@[simp] theorem seq_apply (e f : StackEffect) (st : Stack) :
    (do e; f : StackEffect) st =
      match e st with
      | .ok () st => f st
      | .error c st => .error c st := by
  simp only [bind, EStateM.bind]
  cases e st <;> rfl

end StackEffect

/-- What a simple word does to the stack, if it does nothing else. -/
def Simple.effect? : Simple → Option StackEffect
  | .dup => some do
    let a ← StackEffect.pop
    StackEffect.push a
    StackEffect.push a
  | .drop => some do
    let _ ← StackEffect.pop
  | .swap => some do
    let b ← StackEffect.pop
    let a ← StackEffect.pop
    StackEffect.push b
    StackEffect.push a
  | .over => some do
    let b ← StackEffect.pop
    let a ← StackEffect.pop
    StackEffect.push a
    StackEffect.push b
    StackEffect.push a
  | .rot => some do
    let c ← StackEffect.pop
    let b ← StackEffect.pop
    let a ← StackEffect.pop
    StackEffect.push b
    StackEffect.push c
    StackEffect.push a
  | .depth => some do StackEffect.push (← get).length
  | .isEmpty => some do StackEffect.push (Cell.flag (← get).isEmpty)
  | .add => some (.binary (· + ·))
  | .sub => some (.binary (· - ·))
  | .mul => some (.binary (· * ·))
  | .div => some (.divide (·.1))
  | .mod => some (.divide (·.2))
  | .eq => some (.binary fun a b => Cell.flag (a == b))
  | .gt => some (.binary fun a b => Cell.flag (decide (b < a)))
  | .lt => some (.binary fun a b => Cell.flag (decide (a < b)))
  | .both => some (.binary fun a b => Cell.flag (Cell.truthy a && Cell.truthy b))
  | .either => some (.binary fun a b => Cell.flag (Cell.truthy a || Cell.truthy b))
  | .printChar | .print | .printStack | .readChar | .readNumber | .memoryFetch | .memoryStore
  | .memorySize => none

/-! ### Actions on the stack of a machine -/

/-- The action does to the stack of any machine what the other does to the stack alone. -/
def OnStack {α : Type} (a : Action Empty α) (e : StackAction α) : Prop :=
  ∀ m, a m =
    match e m.stack with
    | .ok x stack => .ok x { m with stack }
    | .error c stack => .error (.cause c.cause) { m with stack }

namespace OnStack

variable {α β : Type} {a : Action Empty α} {e : StackAction α}

theorem pure (x : α) : OnStack (Pure.pure x) (Pure.pure x) := fun _ => rfl

theorem throw (c : Mishap) :
    OnStack (MonadExcept.throw (.cause c.cause) : Action Empty α) (MonadExcept.throw c) := fun _ => rfl

theorem bind {f : α → Action Empty β} {g : α → StackAction β} (ha : OnStack a e)
    (hf : ∀ x, OnStack (f x) (g x)) : OnStack (a >>= f) (e >>= g) := by
  intro m
  simp only [Bind.bind, EStateM.bind, ha m]
  cases e m.stack with
  | error c stack => rfl
  | ok x stack => exact hf x { m with stack }

theorem get {f : Machine Empty → Action Empty β} {g : Stack → StackAction β}
    (hf : ∀ m : Machine Empty, OnStack (f m) (g m.stack)) :
    OnStack (MonadState.get >>= f) (MonadState.get >>= g) := fun m => hf m m

theorem push (n : Int) : OnStack (Machine.push n) (StackEffect.push n) := fun _ => rfl

theorem pop : OnStack Machine.pop StackEffect.pop := by
  rintro ⟨stack, memory, words, console, journal⟩
  cases stack <;> rfl

theorem binary (f : Int → Int → Int) : OnStack (Forth.binary f) (StackEffect.binary f) :=
  .bind .pop fun _ => .bind .pop fun _ => .push _

theorem divide (part : Int × Int → Int) : OnStack (Forth.divide part) (StackEffect.divide part) := by
  refine .bind .pop fun b => .bind .pop fun a => ?_
  cases Cell.divMod? a b with
  | none => exact throw .zeroDivisor
  | some qr => exact .push _

end OnStack

/-- The words that are said to have an effect on the stack alone have it. -/
theorem Simple.onStack {w : Simple} {e : StackEffect} (h : w.effect? = some e) : OnStack w.act e := by
  cases w with
  | dup =>
    cases h
    exact .bind .pop fun _ => .bind (.push _) fun _ => .push _
  | drop =>
    cases h
    exact .bind .pop fun _ => .pure _
  | swap =>
    cases h
    exact .bind .pop fun _ => .bind .pop fun _ => .bind (.push _) fun _ => .push _
  | «over» =>
    cases h
    exact .bind .pop fun _ => .bind .pop fun _ =>
      .bind (.push _) fun _ => .bind (.push _) fun _ => .push _
  | rot =>
    cases h
    exact .bind .pop fun _ => .bind .pop fun _ => .bind .pop fun _ =>
      .bind (.push _) fun _ => .bind (.push _) fun _ => .push _
  | depth =>
    cases h
    exact .get fun _ => .push _
  | isEmpty =>
    cases h
    exact .get fun _ => .push _
  | div =>
    cases h
    exact .divide _
  | mod =>
    cases h
    exact .divide _
  | add | sub | mul | eq | gt | lt | both | either =>
    cases h
    exact .binary _
  | _ => cases h

/-! ### Tokens and sequences -/

variable {d : Dictionary Empty} {limit : Nat} {loop : Option Int} {token : String} {rest xs ys body : List String}
  {e f yes no : StackEffect}

/-- A token does to the stack what the effect says, and nothing else, and takes `width` of the tokens `rest`
behind it. -/
def Acts (d : Dictionary Empty) (limit : Nat) (loop : Option Int) (token : String) (rest : List String)
    (width : Nat) (e : StackEffect) : Prop :=
  ∀ (tokens : List String) (pos : Int) (s : Scope Empty), s.words = d →
    match e s.stack with
    | .ok () stack =>
      step (inside limit) ⟨tokens, pos, loop⟩ token rest s = .ok (.next width) { s with stack }
    | .error c stack =>
      ∃ contexts offset, step (inside limit) ⟨tokens, pos, loop⟩ token rest s =
        .error ⟨.failed ⟨c.cause, contexts⟩, offset⟩ { s with stack }

/-- A sequence does to the stack what the effect says, and nothing else. -/
def Denotes (d : Dictionary Empty) (limit : Nat) (loop : Option Int) (tokens : List String)
    (e : StackEffect) : Prop :=
  ∀ s : Scope Empty, s.words = d →
    match e s.stack with
    | .ok () stack => evaluate limit loop tokens s = .ok () { s with stack }
    | .error c stack =>
      ∃ contexts, evaluate limit loop tokens s = .error (.failed ⟨c.cause, contexts⟩) { s with stack }

/-- What goes wrong on a stack is no construct that was cut off. -/
theorem Mishap.not_cutOff (c : Mishap) : ¬ c.cause.CutOff := by
  cases c <;> decide

namespace Denotes

theorem nil : Denotes d (limit + 1) loop [] (pure ()) := by
  intro s _
  exact evaluate_nil loop limit s

/-- One effect after the other. -/
theorem append (hx : Denotes d limit loop xs e) (hy : Denotes d limit loop ys f) :
    Denotes d limit loop (xs ++ ys) (do e; f) := by
  intro s hs
  have hboth := evaluate_append loop limit xs ys s
  have hfirst := hx s hs
  simp only [bind, EStateM.bind]
  cases he : e s.stack with
  | ok u stack =>
    rw [he] at hfirst
    rw [hfirst] at hboth
    have hsecond := hy { s with stack } hs
    simp only at hsecond hboth ⊢
    cases hf : f stack with
    | ok u stack =>
      rw [hf] at hsecond
      rw [hsecond] at hboth
      obtain h | ⟨g, k, t, h, -⟩ := hboth.cases
      · exact h.symm
      · cases h
    | error c stack =>
      rw [hf] at hsecond
      obtain ⟨contexts, hsecond⟩ := hsecond
      rw [hsecond] at hboth
      obtain h | ⟨g, ⟨cause, cs⟩, t, h, hlast, hcause, -⟩ := hboth.cases
      · exact ⟨contexts, h.symm⟩
      · cases h
        cases hcause
        exact ⟨cs, hlast⟩
  | error c stack =>
    rw [he] at hfirst
    obtain ⟨contexts, hfirst⟩ := hfirst
    rw [hfirst] at hboth
    obtain ⟨h, hlast, rfl | ⟨g, ⟨cause, cs⟩, hg, rfl, hcause, -⟩⟩ | ⟨cause, context, hcut, hcause⟩ := hboth
    · exact ⟨contexts, hlast⟩
    · cases hg
      cases hcause
      exact ⟨cs, hlast⟩
    · cases hcause
      exact absurd hcut c.not_cutOff

theorem congr (h : Denotes d limit loop xs e) (he : ∀ st, e st = f st) : Denotes d limit loop xs f := by
  obtain rfl : e = f := funext he
  exact h

/-- More room for nesting makes no difference. -/
theorem mono {limit' : Nat} (h : Denotes d limit loop xs e) (hle : limit ≤ limit') :
    Denotes d limit' loop xs e := by
  intro s hs
  have hshort := h s hs
  have hsame : evaluate limit' loop xs s = evaluate limit loop xs s := by
    refine evaluate_of_le hle fun t ht => ?_
    rw [ht] at hshort
    cases he : e s.stack with
    | ok u stack =>
      rw [he] at hshort
      cases hshort
    | error c stack =>
      rw [he] at hshort
      obtain ⟨contexts, hshort⟩ := hshort
      cases hshort
  rw [hsame]
  exact hshort

end Denotes

/-- A token that takes all tokens behind it makes a sequence with them. -/
theorem Acts.denotes (h : Acts d limit loop token rest rest.length e) :
    Denotes d (limit + 1) loop (token :: rest) e := by
  intro s hs
  have hstep := h (token :: rest) 0 s hs
  cases he : e s.stack with
  | ok u stack =>
    rw [he] at hstep
    exact evaluate_of_step hstep (Nat.le_refl _)
  | error c stack =>
    rw [he] at hstep
    obtain ⟨contexts, offset, hstep⟩ := hstep
    exact ⟨_, evaluate_of_step_error hstep⟩

/-! ### Numbers, words, calls and choices -/

theorem acts_number {n : Int} (h : Numeral.read token = .value n) :
    Acts d limit loop token rest 0 (.push n) := by
  intro tokens pos s _
  exact step_number _ _ h

theorem acts_simple {w : Simple} (hw : d.sense token = .primitive (.simple w)) (he : w.effect? = some e) :
    Acts d limit loop token rest 0 e := by
  rintro tokens pos s rfl
  have hact := w.onStack he s.toMachine
  rw [step_simple _ _ hw, hact]
  cases e s.stack with
  | ok u stack => rfl
  | error c stack => exact ⟨[], 0, rfl⟩

/-- An inner sequence has its effect behind that of the token which evaluates it. -/
theorem carryOut_denotes {s : Scope Empty} (width : Nat) (hbody : Denotes s.words limit loop body e) :
    match e s.stack with
    | .ok () stack => carryOut (inside limit) (.ok ⟨width, [⟨loop, body⟩]⟩ s) = .ok (.next width) { s with stack }
    | .error c stack =>
      ∃ contexts offset, carryOut (inside limit) (.ok ⟨width, [⟨loop, body⟩]⟩ s) =
        .error ⟨.failed ⟨c.cause, contexts⟩, offset⟩ { s with stack } := by
  have hinner := hbody ⟨s.toMachine, []⟩ rfl
  simp only [carryOut, series, bind, EStateM.bind, inside, isolated]
  cases he : e s.stack with
  | ok u stack =>
    simp only [he] at hinner
    rw [hinner]
    rfl
  | error c stack =>
    simp only [he] at hinner
    obtain ⟨contexts, hinner⟩ := hinner
    rw [hinner]
    exact ⟨contexts, width, rfl⟩

theorem acts_call (hw : d.sense token = .definition body) (hbody : Denotes d limit loop body e) :
    Acts d limit loop token rest 0 e := by
  rintro tokens pos s rfl
  have hplan : plan loop token rest s = .ok ⟨0, [⟨loop, body⟩]⟩ s := by
    rw [plan, hw]
    rfl
  rw [step_eq_carryOut, hplan]
  exact carryOut_denotes 0 hbody

theorem acts_choose {b : Branches} (hw : d.sense token = .primitive (.lookahead .choose))
    (hb : Branches.scan rest = .ok b) (hyes : Denotes d limit loop b.consequent yes)
    (hno : Denotes d limit loop (b.alternative.getD []) no) :
    Acts d limit loop token rest b.width (.choose yes no) := by
  rintro tokens pos s rfl
  have hplan := Lookahead.plan_choose loop rest s
  rw [step_eq_carryOut, plan_of_lookahead _ _ hw]
  simp only [hb] at hplan
  cases hs : s.stack with
  | nil =>
    simp only [hs] at hplan
    rw [hplan]
    exact ⟨[], b.width, by rw [← hs]; rfl⟩
  | cons n below =>
    simp only [hs] at hplan
    rw [hplan]
    have hpick : Denotes s.words limit loop (b.pick (Cell.truthy n)) (if Cell.truthy n then yes else no) := by
      cases Cell.truthy n with
      | true => exact hyes
      | false => exact hno
    exact carryOut_denotes (s := { s with stack := below }) b.width hpick

namespace Denotes

theorem number {n : Int} (h : Numeral.read token = .value n) :
    Denotes d (limit + 1) loop [token] (.push n) :=
  Acts.denotes (acts_number h)

theorem simple {w : Simple} (hw : d.sense token = .primitive (.simple w)) (he : w.effect? = some e) :
    Denotes d (limit + 1) loop [token] e :=
  Acts.denotes (acts_simple hw he)

theorem call (hw : d.sense token = .definition body) (hbody : Denotes d limit loop body e) :
    Denotes d (limit + 1) loop [token] e :=
  Acts.denotes (acts_call hw hbody)

theorem choose {b : Branches} (hw : d.sense token = .primitive (.lookahead .choose))
    (hb : Branches.scan rest = .ok b) (hwidth : b.width = rest.length)
    (hyes : Denotes d limit loop b.consequent yes) (hno : Denotes d limit loop (b.alternative.getD []) no) :
    Denotes d (limit + 1) loop (token :: rest) (.choose yes no) := by
  refine Acts.denotes ?_
  rw [← hwidth]
  exact acts_choose hw hb hyes hno

end Denotes

end Forth
