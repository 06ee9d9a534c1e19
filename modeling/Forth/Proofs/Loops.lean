import Forth.Standard
import Forth.Proofs.Engine
import Forth.Proofs.Fences

/-!
# The turns of a loop

A loop is `do`, a body, and the `loop` that matches: the body is balanced and holds no colon. It takes as many
turns as the cell on top of the stack says, none if that is negative. Each turn evaluates the body on variables
of its own under the number of the turn, on the machine that the turns before it have left. `bye` ends a turn,
anything else that ends one early ends the loop (`takes_turns`).
-/
namespace Forth.Loop

/-- A turn with number `k` evaluates the body under that number, without variables. -/
def turn (limit k : Nat) (body : List String) (m : Machine Empty) :
    EStateM.Result Halt (Scope Empty) Unit :=
  evaluate limit (some (k : Int)) body ⟨m, []⟩

/-- A turn comes to its end, by `bye` or behind the last token of the body. -/
def Completes (limit k : Nat) (body : List String) (m m' : Machine Empty) : Prop :=
  (raised? (turn limit k body m) = none ∨ raised? (turn limit k body m) = some .bye) ∧
    (finish (turn limit k body m)).toMachine = m'

/-- A turn is ended by something that ends the loop too. -/
def Raises (limit k : Nat) (body : List String) (m : Machine Empty) (h : Halt) (m' : Machine Empty) : Prop :=
  h ≠ .bye ∧ raised? (turn limit k body m) = some h ∧ (finish (turn limit k body m)).toMachine = m'

instance (limit k : Nat) (body : List String) (m m' : Machine Empty) :
    Decidable (Completes limit k body m m') := inferInstanceAs (Decidable (_ ∧ _))

inductive Turns (limit : Nat) (body : List String) (m : Machine Empty) : Nat → Machine Empty → Prop
  | zero : Turns limit body m 0 m
  | succ {k : Nat} {m' m'' : Machine Empty} :
      Turns limit body m k m' → Completes limit k body m' m'' → Turns limit body m (k + 1) m''

variable {limit n : Nat} {loop : Option Int} {tokens body after : List String} {i : Nat} {token : String}
  {s : Scope Empty} {m m' : Machine Empty} {h : Halt} {below : Stack}

def innerTurns (body : List String) (n : Nat) : List Inner :=
  (List.range n).map fun (k : Nat) => ⟨some (k : Int), body⟩

theorem inside_ok_iff : inside limit (some (n : Int)) body m = .ok () m' ↔ Completes limit n body m m' := by
  unfold inside isolated Completes turn
  cases evaluate limit (some (n : Int)) body ⟨m, []⟩ with
  | ok u s => simp [raised?, finish]
  | error h s => cases h <;> simp [raised?, finish]

theorem inside_raises_iff :
    inside limit (some (n : Int)) body m = .error h m' ↔ Raises limit n body m h m' := by
  rw [inside_error_iff]
  unfold Raises turn
  cases evaluate limit (some (n : Int)) body ⟨m, []⟩ with
  | ok u s => simp [raised?]
  | error e s =>
    simp only [raised?, finish, EStateM.Result.error.injEq, Option.some.injEq, ne_eq, and_congr_right_iff]
    intro hb
    constructor
    · rintro ⟨s', ⟨rfl, rfl⟩, hm⟩
      exact ⟨rfl, hm⟩
    · rintro ⟨rfl, hm⟩
      exact ⟨s, ⟨rfl, rfl⟩, hm⟩

theorem series_append (nested : Nested Empty) (xs ys : List Inner) (m : Machine Empty) :
    series nested (xs ++ ys) m =
      match series nested xs m with
      | .ok () m => series nested ys m
      | .error h m => .error h m := by
  induction xs generalizing m with
  | nil => rfl
  | cons x xs ih =>
    simp only [List.cons_append, series, bind, EStateM.bind]
    cases nested x.loop x.tokens m with
    | error h m => rfl
    | ok u m => exact ih m

/-- All turns go well exactly if each does, after those before it. -/
theorem series_ok_iff : series (inside limit) (innerTurns body n) m = .ok () m' ↔ Turns limit body m n m' := by
  induction n generalizing m' with
  | zero =>
    constructor
    · intro hs
      cases hs
      exact .zero
    · intro ht
      cases ht
      rfl
  | succ n ih =>
    have hlast : innerTurns body (n + 1) = innerTurns body n ++ [⟨some (n : Int), body⟩] := by
      simp [innerTurns, List.range_succ]
    have hone (m₁ : Machine Empty) : series (inside limit) [⟨some (n : Int), body⟩] m₁ =
        inside limit (some (n : Int)) body m₁ := by
      simp only [series, bind, EStateM.bind]
      cases inside limit (some (n : Int)) body m₁ <;> rfl
    rw [hlast, series_append]
    constructor
    · intro hs
      split at hs
      · next m₁ hfirst =>
        rw [hone] at hs
        exact .succ (ih.1 hfirst) (inside_ok_iff.1 hs)
      · cases hs
    · intro ht
      cases ht with
      | succ hfirst hturn =>
        rw [ih.2 hfirst]
        simp only [hone]
        exact inside_ok_iff.2 hturn

/-- The series fails exactly if one of the turns does, after those before it. -/
theorem series_raises_iff :
    series (inside limit) (innerTurns body n) m = .error h m' ↔
      ∃ k m₁, k < n ∧ Turns limit body m k m₁ ∧ Raises limit k body m₁ h m' := by
  rw [series_error_iff]
  constructor
  · intro ⟨before, x, after, m₁, hsplit, hbefore, hx⟩
    obtain ⟨hk, rfl, hfirst⟩ := range_map_eq_append hsplit
    rw [hfirst] at hbefore
    exact ⟨before.length, m₁, hk, series_ok_iff.1 hbefore, inside_raises_iff.1 hx⟩
  · intro ⟨k, m₁, hk, hturns, hraises⟩
    obtain ⟨after, hsplit⟩ := range_map_split (fun (j : Nat) => (⟨some (j : Int), body⟩ : Inner)) hk
    exact ⟨_, _, after, m₁, hsplit, series_ok_iff.2 hturns, inside_raises_iff.2 hraises⟩

/-- What the turns of a loop come to: the machine after the last of them, or the end that the first one met
with that did not come to its own. -/
inductive Course (limit : Nat) (body : List String) (n : Nat) (m : Machine Empty) :
    EStateM.Result Halt (Machine Empty) Unit → Prop
  | done {m' : Machine Empty} : Turns limit body m n m' → Course limit body n m (.ok () m')
  | cut {k : Nat} {m₁ m' : Machine Empty} {h : Halt} : k < n → Turns limit body m k m₁ →
      Raises limit k body m₁ h m' → Course limit body n m (.error h m')

theorem series_eq_iff_course {r : EStateM.Result Halt (Machine Empty) Unit} :
    series (inside limit) (innerTurns body n) m = r ↔ Course limit body n m r := by
  cases r with
  | ok u m' =>
    rw [series_ok_iff]
    constructor
    · exact .done
    · intro hc
      cases hc with
      | done ht => exact ht
  | error h m' =>
    rw [series_raises_iff]
    constructor
    · intro ⟨k, m₁, hk, hturns, hraises⟩
      exact .cut hk hturns hraises
    · intro hc
      cases hc with
      | cut hk hturns hraises => exact ⟨_, _, hk, hturns, hraises⟩

/-! ### The loop as a word -/

structure Encloses (rest body after : List String) : Prop where
  split : rest = body ++ "loop" :: after
  colon : ":" ∉ body
  balanced : Balanced "do" "loop" body

theorem Encloses.scan_eq {rest : List String} (he : Encloses rest body after) :
    Fence.loop.scan 0 rest = .ok (body, "loop") := by
  rw [he.split]
  refine Fence.loop_nests.scan_closed he.colon he.balanced ?_ (by decide) after
  simp [Marked, Fence.loop]

/-- Tokens without a loop are read to their end, or to the first colon. -/
theorem scan_error {rest : List String} (hno : ∀ body after, ¬ Encloses rest body after) :
    (":" ∉ rest ∧ Fence.loop.scan 0 rest = .error ⟨.unterminatedLoop, rest.length⟩) ∨
      ∃ front after, rest = front ++ ":" :: after ∧ ":" ∉ front ∧
        Fence.loop.scan 0 rest = .error ⟨.definitionInLoop, front.length⟩ := by
  obtain ⟨hc, hm⟩ | ⟨front, after, rfl, hc, hm⟩ | ⟨body, last, after, hsplit, hlast, hc, hb, -⟩ :=
    Fence.loop_nests.reads rest
  · exact .inl ⟨hc, Fence.loop_nests.scan_open hc hm⟩
  · exact .inr ⟨front, after, rfl, hc, Fence.loop_nests.scan_colon hc hm after⟩
  · obtain rfl : last = "loop" := Fence.eq_closer_of_mem_marks rfl hlast
    exact absurd ⟨hsplit, hc, hb⟩ (hno body after)

theorem Encloses.unique {rest body' after' : List String} (he : Encloses rest body after)
    (he' : Encloses rest body' after') : body' = body ∧ after' = after := by
  obtain ⟨rfl, -⟩ := Prod.mk.inj (Except.ok.inj (he'.scan_eq.symm.trans he.scan_eq))
  have hafter := List.append_cancel_left (he'.split.symm.trans he.split)
  exact ⟨rfl, (List.cons.inj hafter).2⟩

section Turns

variable {x : Int} (ht : tokens[i]? = some token) (hs : s.words.sense token = .primitive (.lookahead .loop))
  (he : Encloses (tokens.drop (i + 1)) body after) (hx : s.stack = x :: below)

include ht hs he hx

/-- Behind its last turn a loop is left. -/
theorem step_done (hc : Course limit body x.toNat { s.toMachine with stack := below } (.ok () m')) :
    step (inside limit) ⟨tokens, i, loop⟩ token (tokens.drop (i + 1)) s =
        .ok (.next (body.length + 1)) ⟨m', s.vars⟩ ∧
      resume (inside limit) loop tokens i s =
        resume (inside limit) loop tokens (i + 1 + body.length + 1) ⟨m', s.vars⟩ := by
  have hseries := series_eq_iff_course.2 hc
  have hstep : step (inside limit) ⟨tokens, i, loop⟩ token (tokens.drop (i + 1)) s =
      .ok (.next (body.length + 1)) ⟨m', s.vars⟩ := by
    rw [step_loop (inside limit) hs he.scan_eq hx, carryOut]
    simp only [innerTurns] at hseries
    rw [hseries]
  refine ⟨hstep, ?_⟩
  rw [resume_eq _ _ _ ht, stride_of_step hstep]
  rfl

/-- A turn that fails ends its loop, which adds a context of its own. -/
theorem step_cut (hc : Course limit body x.toNat { s.toMachine with stack := below } (.error h m')) :
    step (inside limit) ⟨tokens, i, loop⟩ token (tokens.drop (i + 1)) s =
        .error ⟨h, body.length + 1⟩ ⟨m', s.vars⟩ ∧
      resume (inside limit) loop tokens i s =
        .error (Break.annotate ⟨h, body.length + 1⟩ tokens i) ⟨m', s.vars⟩ := by
  have hseries := series_eq_iff_course.2 hc
  have hstep : step (inside limit) ⟨tokens, i, loop⟩ token (tokens.drop (i + 1)) s =
      .error ⟨h, body.length + 1⟩ ⟨m', s.vars⟩ := by
    rw [step_loop (inside limit) hs he.scan_eq hx, carryOut]
    simp only [innerTurns] at hseries
    rw [hseries]
    rfl
  refine ⟨hstep, ?_⟩
  rw [resume_eq _ _ _ ht, stride_of_step_error hstep]

end Turns

/-- A loop takes the number of its turns from the stack, and then the turns. If all come to their end, evaluation
goes on behind its `loop`, on the variables from before; if one does not, the loop ends as that turn does. Tokens
enclose only one body; where they enclose none, the loop takes nothing and evaluates nothing: it fails at the
first colon, or behind the last token. -/
theorem takes_turns (ht : tokens[i]? = some token)
    (hs : s.words.sense token = .primitive (.lookahead .loop)) :
    (∀ body after, Encloses (tokens.drop (i + 1)) body after →
      Fence.loop.scan 0 (tokens.drop (i + 1)) = .ok (body, "loop") ∧
      (∀ body' after', Encloses (tokens.drop (i + 1)) body' after' → body' = body ∧ after' = after) ∧
      (s.stack = [] → ∀ nested,
        step nested ⟨tokens, i, loop⟩ token (tokens.drop (i + 1)) s =
          .error ⟨.failed ⟨.stackUnderflow, []⟩, body.length + 1⟩ s) ∧
      ∀ n below, s.stack = n :: below →
        (∃ r, Course limit body n.toNat { s.toMachine with stack := below } r) ∧
        (∀ m', Course limit body n.toNat { s.toMachine with stack := below } (.ok () m') →
          step (inside limit) ⟨tokens, i, loop⟩ token (tokens.drop (i + 1)) s =
              .ok (.next (body.length + 1)) ⟨m', s.vars⟩ ∧
            resume (inside limit) loop tokens i s =
              resume (inside limit) loop tokens (i + 1 + body.length + 1) ⟨m', s.vars⟩) ∧
        ∀ h m', Course limit body n.toNat { s.toMachine with stack := below } (.error h m') →
          step (inside limit) ⟨tokens, i, loop⟩ token (tokens.drop (i + 1)) s =
              .error ⟨h, body.length + 1⟩ ⟨m', s.vars⟩ ∧
            resume (inside limit) loop tokens i s =
              .error (Break.annotate ⟨h, body.length + 1⟩ tokens i) ⟨m', s.vars⟩) ∧
    ((∀ body after, ¬ Encloses (tokens.drop (i + 1)) body after) →
      ∃ cause q, (cause = .definitionInLoop ∧ FirstAfter ":" tokens i q ∨
          cause = .unterminatedLoop ∧ ":" ∉ tokens.drop (i + 1) ∧ q = tokens.length) ∧
        ∀ nested, step nested ⟨tokens, i, loop⟩ token (tokens.drop (i + 1)) s =
          .error ⟨.failed ⟨cause, []⟩, (q - i : Int)⟩ s) := by
  constructor
  · intro body after he
    refine ⟨he.scan_eq, fun body' after' => he.unique, ?_, ?_⟩
    · intro hempty nested
      rw [step_eq_carryOut, plan_of_lookahead _ _ hs, Lookahead.plan_loop, he.scan_eq]
      simp only [hempty]
      rfl
    · intro n below hn
      refine ⟨⟨_, series_eq_iff_course.1 rfl⟩, ?_, ?_⟩
      · intro m' hc
        exact step_done ht hs he hn hc
      · intro h m' hc
        exact step_cut ht hs he hn hc
  · intro hno
    obtain ⟨hcolon, hscan⟩ | ⟨front, after, hsplit, hcolon, hscan⟩ := scan_error hno
    · obtain ⟨hi, -⟩ := List.getElem?_eq_some_iff.1 ht
      refine ⟨.unterminatedLoop, tokens.length, .inr ⟨rfl, hcolon, rfl⟩, fun nested => ?_⟩
      have hoffset : (1 + (tokens.drop (i + 1)).length : Int) = tokens.length - i := by
        rw [List.length_drop]
        omega
      rw [step_eq_carryOut, plan_of_lookahead _ _ hs, Lookahead.plan_loop, hscan, ← hoffset]
      rfl
    · refine ⟨.definitionInLoop, i + 1 + front.length, .inl ⟨rfl, firstAfter_of_drop hsplit hcolon⟩,
        fun nested => ?_⟩
      have hoffset : (1 + front.length : Int) = (i + 1 + front.length : Nat) - i := by omega
      rw [step_eq_carryOut, plan_of_lookahead _ _ hs, Lookahead.plan_loop, hscan, ← hoffset]
      rfl

/-- An inner loop, and a `bye` that ends each turn before the word that nobody knows. -/
theorem takes_turns_inner_loop :
    let tokens := ["do", "1", "do", "index", "loop", "index", "bye", "no-word", "loop", "3"]
    let m : Machine Empty := ⟨[2], .zeros 0, primitiveWords, .ofText "", #[]⟩
    tokens[0]? = some "do" ∧ primitiveWords.sense "do" = .primitive (.lookahead .loop) ∧
      resume (inside 2) none tokens 0 ⟨m, [("v", 3)]⟩ =
        resume (inside 2) none tokens 9 ⟨{ m with stack := [1, 0, 0, 0] }, [("v", 3)]⟩ := by
  intro tokens m
  let body := ["1", "do", "index", "loop", "index", "bye", "no-word"]
  have ht : tokens[0]? = some "do" := rfl
  have hs : primitiveWords.sense "do" = .primitive (.lookahead .loop) := by decide
  have he : Encloses (tokens.drop 1) body ["3"] := by
    have hscan : Fence.loop.scan 0 (tokens.drop 1) = .ok (body, "loop") := rfl
    exact ⟨rfl, by decide, Fence.balanced_of_scan rfl (by decide) hscan⟩
  have hfirst : Completes 2 0 body { m with stack := [] } { m with stack := [0, 0] } := by
    decide +kernel
  have hsecond : Completes 2 1 body { m with stack := [0, 0] } { m with stack := [1, 0, 0, 0] } := by
    decide +kernel
  have hcourse := Course.done (.succ (.succ .zero hfirst) hsecond)
  have hloop := @takes_turns 2 none tokens 0 "do" ⟨m, [("v", 3)]⟩ ht hs
  obtain ⟨-, -, -, hturns⟩ := hloop.1 body ["3"] he
  exact ⟨ht, hs, ((hturns 2 [] rfl).2.1 _ hcourse).2⟩

end Forth.Loop
