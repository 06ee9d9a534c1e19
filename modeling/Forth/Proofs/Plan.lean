import Forth.Evaluate

/-!
# What a word does by itself

A word first does work of its own. That ends the evaluation, or it leaves a plan: how many of the
following tokens it takes, and the inner sequences that are evaluated before the walk goes on after them.
Plans do not depend on how inner sequences are evaluated, so statements about runs need no word by
word analysis beyond the equations of this module. The vocabulary has no host words.
-/
namespace Forth

open Machine

structure Inner where
  loop : Option Int
  tokens : List String
  deriving DecidableEq, Repr

structure Plan where
  width : Nat
  inner : List Inner
  deriving DecidableEq, Repr

/-- What inner evaluation is for the words that have none. -/
def idle : Nested Empty := fun _ _ => pure ()

namespace Lookahead

open Step

/-- The own work of a lookahead word. Only branches and loops evaluate anything. -/
def plan (loop : Option Int) (rest : List String) : Lookahead → Step Empty Plan
  | .choose => do
    let b ← scanned (Branches.scan rest)
    let n ← Step.act b.width pop
    pure ⟨b.width, [⟨loop, b.pick (Cell.truthy n)⟩]⟩
  | .loop => do
    let (body, _) ← scanned (Fence.loop.scan 0 rest)
    let n ← Step.act (body.length + 1) pop
    pure ⟨body.length + 1, (List.range n.toNat).map fun (k : Nat) => ⟨some (k : Int), body⟩⟩
  | w => do pure ⟨← w.act idle loop rest, []⟩

end Lookahead

def Primitive.plan (loop : Option Int) (rest : List String) : Primitive Empty → Step Empty Plan
  | .simple w => do
    Step.act 0 w.act
    pure ⟨0, []⟩
  | .lookahead w => w.plan loop rest
  | .index =>
    match loop with
    | none => Step.fail 0 .indexOutsideLoop
    | some k => do
      Step.act 0 (push k)
      pure ⟨0, []⟩
  | .bye => throw ⟨.bye, 0⟩
  | .host w => nomatch w

inductive Sense where
  | number (n : Int)
  | longNumber
  | unknown
  | definition (body : List String)
  | primitive (p : Primitive Empty)
  deriving DecidableEq, Repr

/-- Literals come first; what is none may name a word. -/
def Dictionary.sense (d : Dictionary Empty) (token : String) : Sense :=
  match Numeral.read token with
  | .value n => .number n
  | .tooLong => .longNumber
  | .other =>
    match d.find? token with
    | none => .unknown
    | some w =>
      match w.code with
      | .definition body => .definition body
      | .primitive p => .primitive p

def Sense.code? : Sense → Option (Code Empty)
  | .definition body => some (.definition body)
  | .primitive p => some (.primitive p)
  | _ => none

theorem Dictionary.find?_of_sense {d : Dictionary Empty} {token : String} {code : Code Empty}
    (h : (d.sense token).code? = some code) : ∃ w, d.find? token = some w ∧ w.code = code := by
  unfold sense at h
  split at h
  · cases h
  · cases h
  · cases hf : d.find? token with
    | none =>
      rw [hf] at h
      cases h
    | some w =>
      rw [hf] at h
      refine ⟨w, rfl, ?_⟩
      cases hc : w.code with
      | definition body =>
        simp only [hc, Sense.code?] at h
        exact Option.some.inj h
      | primitive p =>
        simp only [hc, Sense.code?] at h
        exact Option.some.inj h

/-- The own work of a token, by what it stands for. -/
def Sense.plan (loop : Option Int) (token : String) (rest : List String) : Sense → Step Empty Plan
  | .number n => do
    Step.act 0 (push n)
    pure ⟨0, []⟩
  | .longNumber => throw ⟨.fault .digitLimit, 0⟩
  | .unknown => Step.fail 0 (.unknownWord token)
  | .definition body => pure ⟨0, [⟨loop, body⟩]⟩
  | .primitive p => p.plan loop rest

/-- The own work of a token. -/
def plan (loop : Option Int) (token : String) (rest : List String) : Step Empty Plan := fun s =>
  (s.words.sense token).plan loop token rest s

def series (nested : Nested Empty) : List Inner → EStateM Halt (Machine Empty) Unit
  | [] => pure ()
  | x :: xs => do
    nested x.loop x.tokens
    series nested xs

/-- The own work of a token, then its inner sequences; failures in those point at its last token. -/
def carryOut (nested : Nested Empty) : EStateM.Result Break (Scope Empty) Plan →
    EStateM.Result Break (Scope Empty) (Move Empty)
  | .error b s => .error b s
  | .ok p s =>
    match series nested p.inner s.toMachine with
    | .ok () m => .ok (.next p.width) ⟨m, s.vars⟩
    | .error h m => .error ⟨h, p.width⟩ ⟨m, s.vars⟩

theorem get_apply {ε σ : Type} (s : σ) : (get : EStateM ε σ σ) s = .ok s s := rfl

variable (nested : Nested Empty) (loop : Option Int) (rest : List String)

/-- A word without inner sequences acts alike under every evaluation of them. -/
theorem carryOut_idle (a : Step Empty Nat) (s : Scope Empty) :
    (do pure (.next (← a)) : Step Empty (Move Empty)) s =
      carryOut nested ((do pure ⟨← a, []⟩ : Step Empty Plan) s) := by
  simp only [bind, EStateM.bind]
  cases a s <;> rfl

/-- The turns of a loop are a series of evaluations of its body. -/
theorem turns_eq_series (offset : Nat) (body : List String) (n k : Nat) (s : Scope Empty) :
    Lookahead.turns nested offset body n k s =
      match series nested ((List.range' k n).map fun (j : Nat) => ⟨some (j : Int), body⟩)
        s.toMachine with
      | .ok () m => .ok () ⟨m, s.vars⟩
      | .error h m => .error ⟨h, offset⟩ ⟨m, s.vars⟩ := by
  induction n generalizing k s with
  | zero => rfl
  | succ n ih =>
    simp only [Lookahead.turns, bind, EStateM.bind, Step.enter, List.range'_succ, List.map_cons,
      series]
    cases nested (some (k : Int)) body s.toMachine with
    | error h m => rfl
    | ok u m => exact ih (k + 1) ⟨m, s.vars⟩

theorem Lookahead.act_eq_carryOut (w : Lookahead) (s : Scope Empty) :
    (do pure (.next (← w.act nested loop rest)) : Step Empty (Move Empty)) s =
      carryOut nested (w.plan loop rest s) := by
  cases w with
  | choose =>
    simp only [act, plan, bind, EStateM.bind]
    cases Step.scanned (Branches.scan rest) s with
    | error b s => rfl
    | ok b s =>
      simp only
      cases Step.act b.width pop s with
      | error e s => rfl
      | ok n s =>
        simp only [Step.enter, carryOut, series, bind, EStateM.bind, pure, EStateM.pure]
        cases nested loop (b.pick (Cell.truthy n)) s.toMachine <;> rfl
  | loop =>
    simp only [act, plan, bind, EStateM.bind]
    cases Step.scanned (Fence.loop.scan 0 rest) s with
    | error b s => rfl
    | ok r s =>
      simp only [Int.natCast_add, Int.natCast_one]
      cases Step.act (r.1.length + 1) pop s with
      | error e s => rfl
      | ok n s =>
        have h := turns_eq_series nested (r.1.length + 1) r.1 n.toNat 0 s
        simp only [Int.natCast_add, Int.natCast_one] at h
        simp only [h, carryOut, List.range_eq_range', pure, EStateM.pure]
        cases series nested ((List.range' 0 n.toNat).map fun (k : Nat) => ⟨some (k : Int), r.1⟩)
          s.toMachine <;> rfl
  | comment => exact carryOut_idle nested (act idle loop rest .comment) s
  | colon => exact carryOut_idle nested (act idle loop rest .colon) s
  | say => exact carryOut_idle nested (act idle loop rest .say) s
  | declare => exact carryOut_idle nested (act idle loop rest .declare) s
  | «recall» => exact carryOut_idle nested (act idle loop rest .recall) s
  | assign => exact carryOut_idle nested (act idle loop rest .assign) s

/-- Every step is a plan that is carried out. -/
theorem step_eq_carryOut (site : Site) (token : String) (s : Scope Empty) :
    step nested site token rest s = carryOut nested (plan site.loop token rest s) := by
  unfold step plan Dictionary.sense
  cases Numeral.read token with
  | value n => rfl
  | tooLong => rfl
  | other =>
    simp only [bind, EStateM.bind, get_apply]
    cases s.words.find? token with
    | none => rfl
    | some w =>
      obtain ⟨name, effect, code⟩ := w
      cases code with
      | definition body =>
        simp only [Sense.plan, Step.enter, carryOut, series, bind, EStateM.bind, pure, EStateM.pure]
        cases nested site.loop body s.toMachine <;> rfl
      | primitive p =>
        cases p with
        | simple w =>
          simp only [Sense.plan, Primitive.act, Primitive.plan, bind, EStateM.bind]
          cases Step.act 0 w.act s <;> rfl
        | lookahead w => exact w.act_eq_carryOut nested site.loop rest s
        | index =>
          simp only [Sense.plan, Primitive.act, Primitive.plan]
          cases site.loop <;> rfl
        | bye => rfl
        | host w => exact w.elim

theorem plan_of_lookahead {token : String} {w : Lookahead} {s : Scope Empty}
    (h : s.words.sense token = .primitive (.lookahead w)) : plan loop token rest s = w.plan loop rest s := by
  rw [plan, h]
  rfl

/-! ### The words one by one -/

theorem Primitive.plan_simple (w : Simple) (s : Scope Empty) :
    Primitive.plan loop rest (.simple w) s =
      match w.act s.toMachine with
      | .error t m => .error (.ofTrouble 0 t) ⟨m, s.vars⟩
      | .ok () m => .ok ⟨0, []⟩ ⟨m, s.vars⟩ := by
  simp only [Primitive.plan, bind, EStateM.bind, Step.act]
  cases w.act s.toMachine <;> rfl

theorem step_simple {site : Site} {token : String} {w : Simple} {s : Scope Empty}
    (hw : s.words.sense token = .primitive (.simple w)) :
    step nested site token rest s =
      match w.act s.toMachine with
      | .error t m => .error (.ofTrouble 0 t) ⟨m, s.vars⟩
      | .ok () m => .ok (.next 0) ⟨m, s.vars⟩ := by
  rw [step_eq_carryOut, Forth.plan, hw]
  simp only [Sense.plan, Primitive.plan_simple]
  cases w.act s.toMachine <;> rfl

theorem step_number {site : Site} {token : String} {n : Int} {s : Scope Empty}
    (h : Numeral.read token = .value n) :
    step nested site token rest s = .ok (.next 0) { s with stack := n :: s.stack } := by
  simp only [step, h]
  rfl

theorem step_unknown {site : Site} {token : String} {s : Scope Empty} (h : s.words.sense token = .unknown) :
    step nested site token rest s = .error ⟨.failed ⟨.unknownWord token, []⟩, 0⟩ s := by
  rw [step_eq_carryOut, Forth.plan, h]
  rfl

theorem Primitive.plan_index (s : Scope Empty) :
    Primitive.plan loop rest .index s =
      match loop with
      | none => .error ⟨.failed ⟨.indexOutsideLoop, []⟩, 0⟩ s
      | some k => .ok ⟨0, []⟩ { s with stack := k :: s.stack } := by
  cases loop <;> rfl

namespace Lookahead

open Step

theorem plan_comment (s : Scope Empty) :
    plan loop rest .comment s =
      match Fence.comment.scan 0 rest with
      | .error e => .error ⟨.failed ⟨e.cause, []⟩, 1 + e.passed⟩ s
      | .ok (inside, _) => .ok ⟨inside.length + 1, []⟩ s := by
  simp only [plan, act, bind, EStateM.bind]
  cases Fence.comment.scan 0 rest <;> rfl

theorem plan_say (s : Scope Empty) :
    plan loop rest .say s =
      match Fence.text.scan 0 rest with
      | .error e => .error ⟨.failed ⟨e.cause, []⟩, 1 + e.passed⟩ s
      | .ok (inside, _) =>
        match writeLine (Text.strip (Text.spaced inside)) s.toMachine with
        | .error t m => .error (.ofTrouble (inside.length + 1) t) ⟨m, s.vars⟩
        | .ok () m => .ok ⟨inside.length + 1, []⟩ ⟨m, s.vars⟩ := by
  simp only [plan, act, bind, EStateM.bind]
  cases Fence.text.scan 0 rest with
  | error e => rfl
  | ok r =>
    simp only [scanned, pure, EStateM.pure, Step.act]
    cases writeLine (Text.strip (Text.spaced r.1)) s.toMachine <;> rfl

theorem plan_colon (s : Scope Empty) :
    plan loop rest .colon s =
      match Fence.definition.scan 0 rest with
      | .error e => .error ⟨.failed ⟨e.cause, []⟩, 1 + e.passed⟩ s
      | .ok (inside, _) =>
        match Heading.ofTokens inside with
        | .error c => .error ⟨.failed ⟨c, []⟩, inside.length + 1⟩ s
        | .ok h =>
          if s.vars.contains h.name then
            .error ⟨.failed ⟨.nameIsVariable h.name, []⟩, inside.length + 1⟩ s
          else match s.words.add ⟨h.name, h.effect, .definition h.body⟩ with
            | .error c => .error ⟨.failed ⟨c, []⟩, inside.length + 1⟩ s
            | .ok words =>
              .ok ⟨inside.length + 1, []⟩
                ⟨{ s.toMachine with words }.note (.defined h.name h.body.length), s.vars⟩ := by
  obtain ⟨⟨stack, memory, words, console, journal⟩, vars⟩ := s
  simp only [plan, act, bind, EStateM.bind]
  cases Fence.definition.scan 0 rest with
  | error e => rfl
  | ok r =>
    simp only [scanned, pure, EStateM.pure]
    cases Heading.ofTokens r.1 with
    | error c => rfl
    | ok h =>
      simp only [EStateM.bind, get_apply]
      cases vars.contains h.name with
      | true => rfl
      | false =>
        simp only [Bool.false_eq_true, if_false, EStateM.bind, Step.act, define]
        cases words.add ⟨h.name, h.effect, .definition h.body⟩ <;> rfl

theorem plan_choose (s : Scope Empty) :
    plan loop rest .choose s =
      match Branches.scan rest with
      | .error e => .error ⟨.failed ⟨e.cause, []⟩, 1 + e.passed⟩ s
      | .ok b =>
        match s.stack with
        | [] => .error ⟨.failed ⟨.stackUnderflow, []⟩, b.width⟩ s
        | n :: below =>
          .ok ⟨b.width, [⟨loop, b.pick (Cell.truthy n)⟩]⟩ { s with stack := below } := by
  obtain ⟨⟨stack, memory, words, console, journal⟩, vars⟩ := s
  simp only [plan, bind, EStateM.bind]
  cases Branches.scan rest with
  | error e => rfl
  | ok b => cases stack <;> rfl

theorem plan_loop (s : Scope Empty) :
    plan loop rest .loop s =
      match Fence.loop.scan 0 rest with
      | .error e => .error ⟨.failed ⟨e.cause, []⟩, 1 + e.passed⟩ s
      | .ok (body, _) =>
        match s.stack with
        | [] => .error ⟨.failed ⟨.stackUnderflow, []⟩, body.length + 1⟩ s
        | n :: below =>
          .ok ⟨body.length + 1, (List.range n.toNat).map fun (k : Nat) => ⟨some (k : Int), body⟩⟩
            { s with stack := below } := by
  obtain ⟨⟨stack, memory, words, console, journal⟩, vars⟩ := s
  simp only [plan, bind, EStateM.bind]
  cases Fence.loop.scan 0 rest with
  | error e => rfl
  | ok r => cases stack <;> rfl

theorem plan_declare (s : Scope Empty) :
    plan loop rest .declare s =
      match rest with
      | [] => .error ⟨.failed ⟨.missingIdentifier, []⟩, 1⟩ s
      | name :: _ =>
        if s.words.contains name then .error ⟨.failed ⟨.nameIsWord name, []⟩, 1⟩ s
        else if s.vars.contains name then .error ⟨.failed ⟨.nameIsVariable name, []⟩, 1⟩ s
        else match s.stack with
          | [] => .error ⟨.failed ⟨.stackUnderflow, []⟩, 1⟩ s
          | n :: below =>
            .ok ⟨1, []⟩
              ⟨{ s.toMachine with stack := below }.note (.declared name n), s.vars.set name n⟩ := by
  obtain ⟨⟨stack, memory, words, console, journal⟩, vars⟩ := s
  cases rest with
  | nil => rfl
  | cons name rest =>
    simp only [plan, act, identifier, bind, EStateM.bind, pure, EStateM.pure, get_apply]
    cases words.contains name with
    | true => rfl
    | false =>
      cases vars.contains name with
      | true => rfl
      | false => cases stack <;> rfl

theorem plan_recall (s : Scope Empty) :
    plan loop rest .recall s =
      match rest with
      | [] => .error ⟨.failed ⟨.missingIdentifier, []⟩, 1⟩ s
      | name :: _ =>
        if s.words.contains name then .error ⟨.failed ⟨.notAVariable name, []⟩, 1⟩ s
        else match s.vars.get? name with
          | none => .error ⟨.failed ⟨.unknownVariable name, []⟩, 1⟩ s
          | some n => .ok ⟨1, []⟩ { s with stack := n :: s.stack } := by
  cases rest with
  | nil => rfl
  | cons name rest =>
    simp only [plan, act, variableNamed, identifier, bind, EStateM.bind, pure, EStateM.pure, get_apply]
    cases s.words.contains name with
    | true => rfl
    | false => cases s.vars.get? name <;> rfl

theorem plan_assign (s : Scope Empty) :
    plan loop rest .assign s =
      match rest with
      | [] => .error ⟨.failed ⟨.missingIdentifier, []⟩, 1⟩ s
      | name :: _ =>
        if s.words.contains name then .error ⟨.failed ⟨.notAVariable name, []⟩, 1⟩ s
        else match s.vars.get? name with
          | none => .error ⟨.failed ⟨.unknownVariable name, []⟩, 1⟩ s
          | some _ =>
            match s.stack with
            | [] => .error ⟨.failed ⟨.stackUnderflow, []⟩, 1⟩ s
            | n :: below =>
              .ok ⟨1, []⟩ ⟨{ s.toMachine with stack := below }, s.vars.set name n⟩ := by
  obtain ⟨⟨stack, memory, words, console, journal⟩, vars⟩ := s
  cases rest with
  | nil => rfl
  | cons name rest =>
    simp only [plan, act, variableNamed, identifier, bind, EStateM.bind, pure, EStateM.pure, get_apply]
    cases words.contains name with
    | true => rfl
    | false =>
      cases vars.get? name with
      | none => rfl
      | some k => cases stack <;> rfl

end Lookahead

end Forth
