import Forth.Proofs.Horizon
import Forth.Proofs.Landmarks

/-!
# Walking through a sequence

Without host words the cursor never goes back: a sequence is evaluated by strides, each of which carries
out the plan of one token and goes on behind the tokens that it took. `resume` is evaluation from a
position on, and `evaluate` is `resume` from the beginning.
-/
namespace Forth

/-- Inner evaluation, nested at most `limit` deep. -/
def inside (limit : Nat) : Nested Empty := fun loop tokens => isolated (evaluate limit loop tokens)

/-- Evaluate the token at position `i`; the result is the position to go on at. -/
def stride (nested : Nested Empty) (loop : Option Int) (tokens : List String) (i : Nat)
    (token : String) : Evaluation Empty Nat := fun s =>
  match plan loop token (tokens.drop (i + 1)) s with
  | .error b s => .error (b.annotate tokens i) s
  | .ok p s =>
    match series nested p.inner s.toMachine with
    | .ok () m => .ok (i + 1 + p.width) ⟨m, s.vars⟩
    | .error h m => .error (Break.annotate ⟨h, p.width⟩ tokens i) ⟨m, s.vars⟩

/-- Evaluate a sequence from position `i` on. -/
def resume (nested : Nested Empty) (loop : Option Int) (tokens : List String) (i : Nat) :
    Evaluation Empty Unit := fun s =>
  match walk nested loop tokens 0 i (tokens.drop i) s with
  | .ok _ s => .ok () s
  | .error h s => .error h s

/-- The state in which something ends, well or not. -/
def finish {ε σ α : Type} : EStateM.Result ε σ α → σ
  | .ok _ s => s
  | .error _ s => s

/-- What something goes wrong with, if it does. -/
def raised? {ε σ α : Type} : EStateM.Result ε σ α → Option ε
  | .ok _ _ => none
  | .error e _ => some e

theorem raised?_eq_some {ε σ α : Type} {r : EStateM.Result ε σ α} {e : ε} :
    raised? r = some e ↔ ∃ s, r = .error e s := by
  cases r <;> simp [raised?]

theorem raised?_eq_none {ε σ : Type} {r : EStateM.Result ε σ Unit} :
    raised? r = none ↔ r = .ok () (finish r) := by
  cases r <;> simp [raised?, finish]

/-- By induction on what is left of a sequence: something holds of every position if it holds of those behind
the end, and of each of the others if it holds of all that come after that one. -/
theorem forward_induction (tokens : List String) {motive : Nat → Prop}
    (done : ∀ i, tokens.length ≤ i → motive i)
    (next : ∀ (i : Nat), i < tokens.length → (∀ j, i < j → motive j) → motive i) (i : Nat) :
    motive i := by
  generalize hn : tokens.length - i = n
  induction n using Nat.strongRecOn generalizing i with
  | _ n ih =>
    rcases Nat.lt_or_ge i tokens.length with hi | hi
    · exact next i hi fun j hj => ih (tokens.length - j) (by omega) j rfl
    · exact done i hi

variable (nested : Nested Empty) (loop : Option Int) (tokens : List String)

theorem walk_skip (skip : Nat) (pos : Int) (rest : List String) :
    walk nested loop tokens skip pos rest =
      walk nested loop tokens 0 (pos + skip) (rest.drop skip) := by
  induction skip generalizing pos rest with
  | zero => simp
  | succ skip ih =>
    cases rest with
    | nil => simp [walk]
    | cons token rest =>
      have hp : pos + 1 + (skip : Int) = pos + ((skip + 1 : Nat) : Int) := by omega
      rw [walk, ih, hp, List.drop_succ_cons]

theorem resume_of_le {i : Nat} (h : tokens.length ≤ i) (s : Scope Empty) :
    resume nested loop tokens i s = .ok () s := by
  rw [resume, List.drop_eq_nil_of_le h]
  rfl

/-- Evaluation goes on where the stride of its first token ends. -/
theorem resume_eq {i : Nat} {token : String} (h : tokens[i]? = some token) (s : Scope Empty) :
    resume nested loop tokens i s =
      match stride nested loop tokens i token s with
      | .ok j s => resume nested loop tokens j s
      | .error halt s => .error halt s := by
  obtain ⟨hi, ht⟩ := List.getElem?_eq_some_iff.1 h
  have hd : tokens.drop i = token :: tokens.drop (i + 1) := by
    rw [List.drop_eq_getElem_cons hi, ht]
  rw [resume, hd]
  simp only [walk, step_eq_carryOut, stride]
  cases plan loop token (tokens.drop (i + 1)) s with
  | error b s => rfl
  | ok p s =>
    simp only [carryOut]
    cases series nested p.inner s.toMachine with
    | error h m => rfl
    | ok u m =>
      have hp : (i : Int) + 1 + p.width = ((i + 1 + p.width : Nat) : Int) := by omega
      have ht : takesToEnd (i : Int) p.width = false := takesToEnd_eq_false (by omega) p.width
      simp only [ht, Bool.false_eq_true, if_false]
      rw [walk_skip, hp, List.drop_drop]
      rfl

/-- A stride goes forward, and not beyond the end. -/
theorem stride_le {i j : Nat} {token : String} {s s' : Scope Empty} (hi : i < tokens.length)
    (h : stride nested loop tokens i token s = .ok j s') : i < j ∧ j ≤ tokens.length := by
  unfold stride at h
  split at h
  · cases h
  · next p s hp =>
    split at h <;> cases h
    have hw := plan_width_le hp
    rw [List.length_drop] at hw
    omega

theorem travel_eq_resume (jumps : Nat) (s : Scope Empty) :
    travel nested loop tokens jumps 0 s = resume nested loop tokens 0 s := by
  have hf : tokensFrom? tokens 0 = some tokens := by simp [tokensFrom?]
  have hr : resume nested loop tokens 0 s =
      match walk nested loop tokens 0 0 tokens s with
      | .ok _ s => .ok () s
      | .error h s => .error h s := rfl
  unfold travel
  rw [hf, hr]
  simp only [bind, EStateM.bind]
  cases walk nested loop tokens 0 0 tokens s with
  | error h s => rfl
  | ok r s =>
    cases r with
    | none => rfl
    | some target => exact target.1.elim

theorem evaluate_succ (limit : Nat) (s : Scope Empty) :
    evaluate (limit + 1) loop tokens s = resume (inside limit) loop tokens 0 s :=
  travel_eq_resume (inside limit) loop tokens jumpLimit s

theorem evaluate_nil (loop : Option Int) (limit : Nat) (s : Scope Empty) :
    evaluate (limit + 1) loop [] s = .ok () s := by
  rw [evaluate_succ]
  exact resume_of_le (inside limit) loop [] (Nat.le_refl 0) s

end Forth
