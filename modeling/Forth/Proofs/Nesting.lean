import Forth.Standard
import Forth.Proofs.Contexts
import Forth.Proofs.Lockstep

/-!
# The limit on the nesting

A limit on the nesting shows only in runs that come up against it. Such a run ends in a failure without
contexts, however its sequences were nested; all other runs stay as they are when the limit is raised
(`limit_shows_as_overflow`).

The outermost evaluation alone reports that the nesting was too deep. An interpreter that has one procedure for
all sequences tells the outermost by counting those under way. Such a procedure does what `interpretWithin`
does, and it leaves the count at zero, in whatever way it ends (`Counted.interpret_eq`).
-/
namespace Forth

/-! ### Raising the limit -/

/-- Equal states have equal outcomes. -/
theorem Keeps.eq {ε σ α : Type} {X : ε → Prop} (a : EStateM ε σ α) : Keeps Eq (fun _ => True) X a := by
  rintro s _ rfl
  cases a s with
  | ok x t => exact ⟨rfl, rfl⟩
  | error e t => exact .inr ⟨rfl, trivial, rfl⟩

/-- Equal machines go alike; the second may go on where the first was nested too deep. -/
theorem lockstep_eq : Lockstep Eq (· = .overflow) where
  memory h := by rw [h]
  push _ := .eq _
  pop := .eq _
  put := by
    rintro m _ rfl i n
    rfl
  emit _ := .eq _
  readLine := .eq _
  cause _ := trivial
  words h := by rw [h]
  define := by
    rintro m _ words name effect body rfl hadd
    rfl
  note := by
    rintro m _ rfl e
    rfl
  inspects _ _ _ _ _ h := by rw [h]
  context h := by cases h
  bye := by simp

/-- An evaluation that was not nested too deep is the same under every higher limit. -/
theorem evaluate_of_le {limit limit' : Nat} (hle : limit ≤ limit') {loop : Option Int}
    {tokens : List String} {s : Scope Empty}
    (h : ∀ s', evaluate limit loop tokens s ≠ .error .overflow s') :
    evaluate limit' loop tokens s = evaluate limit loop tokens s := by
  have hbeside : Beside Eq s s := ⟨rfl, rfl⟩
  have htokens : ∀ t ∈ tokens, True := fun _ _ => trivial
  have halike := lockstep_eq.lockstepOn.evaluate_alike hle (.inr rfl) loop htokens hbeside
  have heq {t t' : Scope Empty} (ht : Beside Eq t t') : t' = t := by
    obtain ⟨m, vars⟩ := t
    obtain ⟨m', vars'⟩ := t'
    obtain ⟨hm, hv⟩ := ht
    cases hm
    cases hv
    rfl
  obtain ⟨u, t, t', hx, hy, ht⟩ | ⟨e, t, t', hx, hy, -, ht⟩ | ⟨e, t, hx, rfl⟩ := halike.cases
  · rw [hx, hy, heq ht]
  · rw [hx, hy, heq ht]
  · exact absurd hx (h t)

/-- Only an evaluation that was nested too deep is reported as such, and without contexts. -/
theorem interpretWithin_overflow_iff (limit : Nat) (loop : Option Int) (tokens : List String)
    (s : Scope Empty) (f : Failure) (s' : Scope Empty) :
    (interpretWithin limit loop tokens s = .error (.failed f) s' ∧
        f.cause.kind = .returnStackOverflow) ↔
      evaluate limit loop tokens s = .error .overflow s' ∧ f = ⟨.returnStackOverflow, []⟩ := by
  unfold interpretWithin
  cases he : evaluate limit loop tokens s with
  | ok u t => simp
  | error h t =>
    cases h with
    | bye => simp
    | fault f => simp
    | overflow =>
      simp only [EStateM.Result.error.injEq, Abort.failed.injEq, true_and]
      constructor
      · rintro ⟨⟨rfl, rfl⟩, -⟩
        exact ⟨rfl, rfl⟩
      · rintro ⟨rfl, rfl⟩
        exact ⟨⟨rfl, rfl⟩, rfl⟩
    | failed g =>
      simp only [EStateM.Result.error.injEq, reduceCtorEq, false_and, iff_false]
      rintro ⟨⟨⟨⟩, -⟩, hkind⟩
      obtain ⟨outer, here, b, t', -, hbreaks, heq, -⟩ := reaches_of_evaluate (by simp) (by simp) he
      rw [b.annotate_through] at heq
      obtain ⟨halt, k⟩ := b
      cases halt with
      | failed f =>
        cases heq
        exact hbreaks.kind_ne hkind
      | bye => cases heq
      | fault f => cases heq
      | overflow => cases heq

/-! ### Counting the evaluations under way -/

structure Counted extends Scope Empty where
  depth : Nat

def Abort.halt : Abort → Halt
  | .failed f => .failed f
  | .fault f => .fault f

namespace Counted

def series (nested : Inner → EStateM Halt Counted Unit) : List Inner → EStateM Halt Counted Unit
  | [] => pure ()
  | x :: xs => fun c =>
    match nested x { c with vars := [] } with
    | .ok () c' => series nested xs { c' with vars := c.vars }
    | .error h c' => .error h { c' with vars := c.vars }

def resume (nested : Inner → EStateM Halt Counted Unit) (loop : Option Int) (tokens : List String)
    (i : Nat) : EStateM Halt Counted Unit := fun c =>
  if h : i < tokens.length then
    match plan loop tokens[i] (tokens.drop (i + 1)) c.toScope with
    | .error b s => .error (b.annotate tokens i) { c with toScope := s }
    | .ok p s =>
      match series nested p.inner { c with toScope := s } with
      | .ok () c => resume nested loop tokens (i + 1 + p.width) c
      | .error h c => .error (Break.annotate ⟨h, p.width⟩ tokens i) c
  else .ok () c
termination_by tokens.length - i

/-- Evaluate with the count one higher. Whether the end is reported depends on the count alone. -/
def counting (e : EStateM Halt Counted Unit) : EStateM Halt Counted Unit := fun c =>
  let back (c : Counted) : Counted := { c with depth := c.depth - 1 }
  match e { c with depth := c.depth + 1 } with
  | .ok () c => .ok () (back c)
  | .error .bye c => .ok () (back c)
  | .error .overflow c =>
    if 1 < c.depth then .error .overflow (back c)
    else .error (.failed ⟨.returnStackOverflow, []⟩) (back c)
  | .error (.failed f) c =>
    if c.depth = 1 then
      .error (.failed f) (back { c with toMachine := c.toMachine.note (.evaluationFailed f.report) })
    else .error (.failed f) (back c)
  | .error (.fault f) c => .error (.fault f) (back c)

/-- Evaluate a sequence, be it the outermost or an inner one. There is room for `limit` evaluations. -/
def interpret : (limit : Nat) → (loop : Option Int) → (tokens : List String) →
    EStateM Halt Counted Unit
  | 0, _, _ => counting (throw .overflow)
  | limit + 1, loop, tokens =>
    counting (resume (fun x => interpret limit x.loop x.tokens) loop tokens 0)

def result {ε ε' α : Type} (f : ε → ε') (depth : Nat) :
    EStateM.Result ε (Scope Empty) α → EStateM.Result ε' Counted α
  | .ok x s => .ok x ⟨s, depth⟩
  | .error e s => .error (f e) ⟨s, depth⟩

/-- Inner sequences are evaluated as on a machine that does not count. -/
def Faithful (limit depth : Nat) (nested : Inner → EStateM Halt Counted Unit) : Prop :=
  ∀ (x : Inner) (m : Machine Empty),
    ∃ vars, nested x ⟨⟨m, []⟩, depth⟩ =
      match inside limit x.loop x.tokens m with
      | .ok () m => .ok () ⟨⟨m, vars⟩, depth⟩
      | .error h m => .error h ⟨⟨m, vars⟩, depth⟩

variable {limit depth : Nat} {nested : Inner → EStateM Halt Counted Unit}

theorem series_eq (hn : Faithful limit depth nested) (xs : List Inner) (s : Scope Empty) :
    series nested xs ⟨s, depth⟩ =
      match Forth.series (inside limit) xs s.toMachine with
      | .ok () m => .ok () ⟨⟨m, s.vars⟩, depth⟩
      | .error h m => .error h ⟨⟨m, s.vars⟩, depth⟩ := by
  induction xs generalizing s with
  | nil => rfl
  | cons x xs ih =>
    obtain ⟨vars, hx⟩ := hn x s.toMachine
    simp only [series, Forth.series, bind, EStateM.bind]
    rw [hx]
    cases inside limit x.loop x.tokens s.toMachine with
    | error h m => rfl
    | ok u m => exact ih ⟨m, s.vars⟩

theorem resume_eq (hn : Faithful limit depth nested) (loop : Option Int) (tokens : List String) (i : Nat)
    (s : Scope Empty) :
    resume nested loop tokens i ⟨s, depth⟩ =
      result id depth (Forth.resume (inside limit) loop tokens i s) := by
  induction i using forward_induction tokens generalizing s with
  | done i hi =>
    rw [resume, dif_neg (Nat.not_lt.2 hi), Forth.resume_of_le _ _ _ hi]
    rfl
  | next i hi ih =>
    rw [resume, dif_pos hi, Forth.resume_eq _ _ _ (List.getElem?_eq_getElem hi)]
    unfold stride
    cases plan loop tokens[i] (tokens.drop (i + 1)) s with
    | error b t => rfl
    | ok p t =>
      simp only [series_eq hn]
      cases Forth.series (inside limit) p.inner t.toMachine with
      | error h m => rfl
      | ok u m => exact ih (i + 1 + p.width) (by omega) ⟨m, t.vars⟩

/-- What is counted is the evaluation of the sequence, whatever the room for it. -/
theorem interpret_eq_counting (limit : Nat) (loop : Option Int) (tokens : List String)
    (s : Scope Empty) (depth : Nat) :
    interpret limit loop tokens ⟨s, depth⟩ =
      counting (fun c => result id c.depth (evaluate limit loop tokens c.toScope)) ⟨s, depth⟩ := by
  induction limit generalizing loop tokens s depth with
  | zero => rfl
  | succ limit ih =>
    have hn : Faithful limit (depth + 1) fun x => interpret limit x.loop x.tokens := by
      intro x m
      refine ⟨(finish (evaluate limit x.loop x.tokens ⟨m, []⟩)).vars, ?_⟩
      simp only [ih, counting, inside, isolated]
      cases evaluate limit x.loop x.tokens ⟨m, []⟩ with
      | ok u t => rfl
      | error h t => cases h <;> simp [result, finish]
    simp only [interpret, counting, resume_eq hn, evaluate_succ]

/-- An outermost evaluation ends as it does without a count, and leaves the count at zero. -/
theorem interpret_eq (limit : Nat) (loop : Option Int) (tokens : List String) (s : Scope Empty) :
    interpret limit loop tokens ⟨s, 0⟩ =
      result Abort.halt 0 (interpretWithin limit loop tokens s) := by
  rw [interpret_eq_counting]
  simp only [counting, interpretWithin]
  cases evaluate limit loop tokens s with
  | ok u t => rfl
  | error h t => cases h <;> rfl

end Counted

/-! ### What shows of the limit -/

/-- Raising the limit changes only runs that were nested too deep. Such a run ends in a failure with the
message of its class and without contexts. In whatever way a run ends, it leaves no evaluation under way, so
that the next one is outermost again. -/
theorem limit_shows_as_overflow {limit limit' : Nat} (hle : limit ≤ limit') (loop : Option Int)
    (tokens : List String) (s : Scope Empty) :
    ((∀ f, raised? (interpretWithin limit loop tokens s) = some (.failed f) →
        f.cause.kind ≠ .returnStackOverflow) →
      interpretWithin limit' loop tokens s = interpretWithin limit loop tokens s) ∧
    (∀ f, raised? (interpretWithin limit loop tokens s) = some (.failed f) →
      f.cause.kind = .returnStackOverflow →
      f.contexts = [] ∧ f.report = Kind.returnStackOverflow.message) ∧
    Counted.interpret limit loop tokens ⟨s, 0⟩ =
      Counted.result Abort.halt 0 (interpretWithin limit loop tokens s) ∧
    ∀ next loop' tokens' vars,
      Counted.interpret next loop' tokens'
          { finish (Counted.interpret limit loop tokens ⟨s, 0⟩) with vars } =
        Counted.result Abort.halt 0 (interpretWithin next loop' tokens'
          { finish (interpretWithin limit loop tokens s) with vars }) := by
  refine ⟨fun hrun => ?_, fun f hf hkind => ?_, Counted.interpret_eq limit loop tokens s,
    fun next loop' tokens' vars => ?_⟩
  · have hfits (s' : Scope Empty) : evaluate limit loop tokens s ≠ .error .overflow s' := by
      intro he
      obtain ⟨hf, hkind⟩ := (interpretWithin_overflow_iff limit loop tokens s _ s').2 ⟨he, rfl⟩
      exact hrun _ (raised?_eq_some.2 ⟨s', hf⟩) hkind
    simp only [interpretWithin, evaluate_of_le hle hfits]
  · obtain ⟨s', hs'⟩ := raised?_eq_some.1 hf
    obtain ⟨-, rfl⟩ := (interpretWithin_overflow_iff limit loop tokens s f s').1 ⟨hs', hkind⟩
    exact ⟨rfl, rfl⟩
  · rw [Counted.interpret_eq]
    cases interpretWithin limit loop tokens s with
    | ok u t => exact Counted.interpret_eq next loop' tokens' { t with vars }
    | error a t => exact Counted.interpret_eq next loop' tokens' { t with vars }

/-- A call inside a branch takes room for three evaluations. With less the run overflows; more makes no
difference. -/
theorem limit_shows_in_nested_call :
    let tokens := [":", "twice", "dup", "+", ";", "3", "1", "if", "twice", "then"]
    let s : Scope Empty := ⟨bootMachine, []⟩
    2 ≤ 3 ∧ 3 ≤ 7 ∧
      raised? (interpretWithin 2 none tokens s) = some (.failed ⟨.returnStackOverflow, []⟩) ∧
      (finish (interpretWithin 3 none tokens s)).stack = [6] ∧
      interpretWithin 7 none tokens s = interpretWithin 3 none tokens s ∧
      Counted.interpret 2 none tokens ⟨s, 0⟩ =
        Counted.result Abort.halt 0 (interpretWithin 2 none tokens s) := by
  intro tokens s
  have hdeep : raised? (interpretWithin 2 none tokens s) =
      some (.failed ⟨.returnStackOverflow, []⟩) := by decide +kernel
  have hfits : raised? (interpretWithin 3 none tokens s) = none := by decide +kernel
  obtain ⟨-, -, hcount, -⟩ := limit_shows_as_overflow (show 2 ≤ 3 by decide) none tokens s
  obtain ⟨hraise, -⟩ := limit_shows_as_overflow (show 3 ≤ 7 by decide) none tokens s
  have hrun : ∀ f, raised? (interpretWithin 3 none tokens s) = some (.failed f) →
      f.cause.kind ≠ .returnStackOverflow := by
    rw [hfits]
    simp
  exact ⟨by decide, by decide, hdeep, by decide +kernel, hraise hrun, hcount⟩

end Forth
