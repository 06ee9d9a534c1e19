import Forth.Interpreter
import Forth.Proofs.Frames
import Forth.Proofs.Input

/-!
# Evaluation step by step

The same evaluation as a machine of small steps. It holds the sequences that are being evaluated, the
innermost first, each with the place where it goes on; a step evaluates one token, begins or leaves one
sequence, or asks for one line of input. Nothing but the nesting is bounded: the machine may go on, turn in
loops and ask for lines as long as it likes. Still every run ends, and as `interpretWithin` says
(`Config.leads_start`, `interpretWithin_ends`).
-/
namespace Forth

open Machine

/-- A sequence under evaluation. It goes on at `pos`, after the inner sequences that are still pending for
the word before. -/
structure Activation where
  tokens : List String
  loop : Option Int
  pos : Nat
  pending : List Inner
  vars : Variables

namespace Activation

/-- An inner sequence at its beginning. -/
def fresh (x : Inner) : Activation := ⟨x.tokens, x.loop, 0, [], []⟩

def frame (a : Activation) : Frame := ⟨a.tokens, a.pos - 1⟩

/-- The variables of the outermost of some sequences, the innermost of which has the given ones. -/
def outermost (vars : Variables) : List Activation → Variables
  | [] => vars
  | a :: waiting => outermost a.vars waiting

end Activation

/-- A moment between two steps of an evaluation. Either the active sequence goes on while the others wait, the
innermost first, or the word at hand asks for lines until it accepts one. -/
inductive Config where
  | going (m : Machine Empty) (active : Activation) (waiting : List Activation)
  | asking (accept : String → Option Int) (m : Machine Empty) (active : Activation)
    (waiting : List Activation)
  | ended (r : EStateM.Result Abort (Scope Empty) Unit)

/-- What the end of the outermost sequence is reported as. -/
def Halt.report (h : Halt) (s : Scope Empty) : EStateM.Result Abort (Scope Empty) Unit :=
  match h with
  | .bye => .ok () s
  | .overflow => .error (.failed ⟨.returnStackOverflow, []⟩) s
  | .failed f =>
    .error (.failed f) { s with toMachine := s.toMachine.note (.evaluationFailed f.report) }
  | .fault f => .error (.fault f) s

/-- What a token takes from a line, if it reads any. -/
def Sense.accepts? : Sense → Option (String → Option Int)
  | .primitive (.simple w) => w.accepts?
  | _ => none

namespace Config

/-- The active sequence is done. -/
def leave (m : Machine Empty) (vars : Variables) : List Activation → Config
  | [] => .ended (.ok () ⟨m, vars⟩)
  | a :: waiting => .going m a waiting

/-- The active sequence is cut short. Only `bye` lets those go on that wait. -/
def stop (h : Halt) (m : Machine Empty) (vars : Variables) (waiting : List Activation) : Config :=
  match h with
  | .bye => leave m vars waiting
  | h => .ended ((h.through (waiting.map Activation.frame)).report
      ⟨m, Activation.outermost vars waiting⟩)

/-- Begin a sequence, unless it would be nested too deep. -/
def enter (limit : Nat) (m : Machine Empty) (a : Activation) (waiting : List Activation) : Config :=
  if waiting.length < limit then .going m a waiting else stop .overflow m a.vars waiting

/-- What the active sequence does after the own work of a token. -/
def settle (a : Activation) (waiting : List Activation) :
    EStateM.Result Break (Scope Empty) Plan → Config
  | .ok p s =>
    .going s.toMachine { a with pos := a.pos + 1 + p.width, pending := p.inner, vars := s.vars } waiting
  | .error b s => stop (b.annotate a.tokens a.pos) s.toMachine s.vars waiting

def answered (vars : Variables) :
    EStateM.Result Trouble (Machine Empty) Int → EStateM.Result Break (Scope Empty) Plan
  | .ok n m => .ok ⟨0, []⟩ ⟨{ m with stack := n :: m.stack }, vars⟩
  | .error t m => .error (.ofTrouble 0 t) ⟨m, vars⟩

def step (limit : Nat) : Config → Config
  | .ended r => .ended r
  | .asking accept m a waiting =>
    match askOnce accept m with
    | .ok none m => .asking accept m a waiting
    | .ok (some n) m => settle a waiting (answered a.vars (.ok n m))
    | .error t m => settle a waiting (answered a.vars (.error t m))
  | .going m a waiting =>
    match a.pending with
    | x :: rest => enter limit m (.fresh x) ({ a with pending := rest } :: waiting)
    | [] =>
      match a.tokens[a.pos]? with
      | none => leave m a.vars waiting
      | some token =>
        match (m.words.sense token).accepts? with
        | some accept => .asking accept m a waiting
        | none => settle a waiting (plan a.loop token (a.tokens.drop (a.pos + 1)) ⟨m, a.vars⟩)

section Step

variable {limit : Nat} {m : Machine Empty} {a : Activation} {waiting : List Activation} {token : String}

theorem step_enter {x : Inner} {rest : List Inner} (hp : a.pending = x :: rest) :
    step limit (.going m a waiting) =
      enter limit m (.fresh x) ({ a with pending := rest } :: waiting) := by
  simp only [step, hp]

theorem step_leave (hp : a.pending = []) (ht : a.tokens[a.pos]? = none) :
    step limit (.going m a waiting) = leave m a.vars waiting := by
  simp only [step, hp, ht]

theorem step_ask {accept : String → Option Int} (hp : a.pending = [])
    (ht : a.tokens[a.pos]? = some token) (hs : (m.words.sense token).accepts? = some accept) :
    step limit (.going m a waiting) = .asking accept m a waiting := by
  simp only [step, hp, ht, hs]

theorem step_work (hp : a.pending = []) (ht : a.tokens[a.pos]? = some token)
    (hs : (m.words.sense token).accepts? = none) :
    step limit (.going m a waiting) =
      settle a waiting (plan a.loop token (a.tokens.drop (a.pos + 1)) ⟨m, a.vars⟩) := by
  simp only [step, hp, ht, hs]

variable {accept : String → Option Int} {m' : Machine Empty}

theorem step_again (h : askOnce accept m = .ok none m') :
    step limit (.asking accept m a waiting) = .asking accept m' a waiting := by
  simp only [step, h]

theorem step_answer {n : Int} (h : askOnce accept m = .ok (some n) m') :
    step limit (.asking accept m a waiting) = settle a waiting (answered a.vars (.ok n m')) := by
  simp only [step, h]

theorem step_unanswered {t : Trouble} (h : askOnce accept m = .error t m') :
    step limit (.asking accept m a waiting) = settle a waiting (answered a.vars (.error t m')) := by
  simp only [step, h]

end Step

def run (limit : Nat) : Nat → Config → Config
  | 0, c => c
  | n + 1, c => run limit n (step limit c)

/-- An outermost evaluation at its beginning. -/
def start (limit : Nat) (loop : Option Int) (tokens : List String) (s : Scope Empty) : Config :=
  enter limit s.toMachine ⟨tokens, loop, 0, [], s.vars⟩ []

def Leads (limit : Nat) (c c' : Config) : Prop := ∃ n, run limit n c = c'

variable {limit : Nat} {c c' c'' : Config}

theorem run_add (m n : Nat) (c : Config) : run limit (m + n) c = run limit n (run limit m c) := by
  induction m generalizing c with
  | zero => simp [run]
  | succ m ih => simpa [Nat.succ_add, run] using ih (step limit c)

theorem Leads.refl (c : Config) : Leads limit c c := ⟨0, rfl⟩

theorem Leads.trans (h : Leads limit c c') (h' : Leads limit c' c'') : Leads limit c c'' := by
  obtain ⟨m, hm⟩ := h
  obtain ⟨n, hn⟩ := h'
  exact ⟨m + n, by rw [run_add, hm, hn]⟩

theorem Leads.step (h : step limit c = c') : Leads limit c c' := ⟨1, h⟩

/-- One step first. -/
theorem Leads.cons (h : Config.step limit c = c') (h' : Leads limit c' c'') : Leads limit c c'' :=
  (Leads.step h).trans h'

end Config

/-- The own work of a word that reads input. -/
theorem plan_of_accepts {accept : String → Option Int} {loop : Option Int} {token : String}
    {rest : List String} {s : Scope Empty} (h : (s.words.sense token).accepts? = some accept) :
    plan loop token rest s =
      Config.answered s.vars (readCell accept (s.console.source.remaining + 1) s.toMachine) := by
  unfold plan
  cases hs : s.words.sense token with
  | primitive p =>
    rw [hs] at h
    cases p with
    | simple w =>
      simp only [Sense.plan, Primitive.plan_simple, Simple.act_of_accepts (w := w) h, pushInput, bind,
        EStateM.bind, get_apply]
      cases readCell accept (s.console.source.remaining + 1) s.toMachine <;> rfl
    | _ => cases h
  | _ =>
    rw [hs] at h
    cases h

/-! ### The steps of a whole evaluation -/

namespace Config

variable {limit : Nat}

/-- Asking ends, at the latest when there are no more lines. -/
theorem leads_asking (accept : String → Option Int) (a : Activation) (waiting : List Activation)
    {n : Nat} {m : Machine Empty} (hn : m.console.source.remaining < n) :
    Leads limit (.asking accept m a waiting)
      (settle a waiting (answered a.vars (readCell accept n m))) := by
  induction n generalizing m with
  | zero => omega
  | succ n ih =>
    rw [readCell_succ]
    cases ha : askOnce accept m with
    | error t m' => exact .step (step_unanswered ha)
    | ok k m' =>
      cases k with
      | some k => exact .step (step_answer ha)
      | none =>
        have hlt := remaining_askOnce ha
        exact .cons (step_again ha) (ih (by omega))

/-- The own work of a token takes finitely many steps. -/
theorem leads_settle {m : Machine Empty} {a : Activation} {waiting : List Activation}
    {token : String} (hp : a.pending = []) (ht : a.tokens[a.pos]? = some token) :
    Leads limit (.going m a waiting)
      (settle a waiting (plan a.loop token (a.tokens.drop (a.pos + 1)) ⟨m, a.vars⟩)) := by
  cases hs : (m.words.sense token).accepts? with
  | none => exact .step (step_work hp ht hs)
  | some accept =>
    have hplan : plan a.loop token (a.tokens.drop (a.pos + 1)) ⟨m, a.vars⟩ = _ :=
      plan_of_accepts (s := ⟨m, a.vars⟩) hs
    rw [hplan]
    exact .cons (step_ask hp ht hs) (leads_asking accept a waiting (Nat.lt_succ_self _))

/-- What becomes of the sequences that wait when the active one comes to a result. -/
def conclude (waiting : List Activation) : EStateM.Result Halt (Scope Empty) Unit → Config
  | .ok () s => leave s.toMachine s.vars waiting
  | .error h s => stop h s.toMachine s.vars waiting

/-- What the active sequence does after its inner ones. -/
def rejoin (a : Activation) (waiting : List Activation) :
    EStateM.Result Halt (Machine Empty) Unit → Config
  | .ok () m => .going m { a with pending := [] } waiting
  | .error h m => stop (Break.annotate ⟨h, 0⟩ a.tokens a.frame.pos) m a.vars waiting

/-- An early end in an inner sequence ends the sequence that waits for it, but for `bye`. -/
theorem stop_cons {h : Halt} (hb : h ≠ .bye) (m : Machine Empty) (vars : Variables) (a : Activation)
    (waiting : List Activation) :
    stop h m vars (a :: waiting) =
      stop (Break.annotate ⟨h, 0⟩ a.tokens a.frame.pos) m a.vars waiting := by
  cases h with
  | bye => exact absurd rfl hb
  | failed f => rfl
  | fault f => rfl
  | overflow => rfl

/-- `Arrives k`: within `k` more levels of nesting, a sequence comes to its result in finitely many steps,
whatever waits for it. -/
def Arrives (limit k : Nat) : Prop :=
  ∀ (m : Machine Empty) (a : Activation) (waiting : List Activation), a.pending = [] →
    waiting.length + 1 + k = limit →
    Leads limit (.going m a waiting)
      (conclude waiting (resume (inside k) a.loop a.tokens a.pos ⟨m, a.vars⟩))

/-- An inner sequence comes to its result, one level deeper. -/
theorem leads_inner {k : Nat} (ih : ∀ j, k = j + 1 → Arrives limit j) (m : Machine Empty)
    (a : Activation) (x : Inner) (rest : List Inner) {waiting : List Activation}
    (hk : waiting.length + 1 + k = limit) :
    Leads limit (.going m { a with pending := x :: rest } waiting)
      (match inside k x.loop x.tokens m with
      | .ok () m => .going m { a with pending := rest } waiting
      | .error h m => stop (Break.annotate ⟨h, 0⟩ a.tokens a.frame.pos) m a.vars waiting) := by
  refine .cons (step_enter rfl) ?_
  unfold enter
  cases k with
  | zero =>
    have hdeep : ¬ ({ a with pending := rest } :: waiting).length < limit := by
      simp only [List.length_cons]
      omega
    rw [if_neg hdeep, stop_cons (by simp)]
    exact .refl _
  | succ j =>
    have hfits : ({ a with pending := rest } :: waiting).length < limit := by
      simp only [List.length_cons]
      omega
    rw [if_pos hfits]
    have hj := ih j rfl m (.fresh x) ({ a with pending := rest } :: waiting) rfl
      (by simp only [List.length_cons]; omega)
    refine hj.trans ?_
    have hevaluate := evaluate_succ x.loop x.tokens j ⟨m, []⟩
    simp only [inside, isolated, hevaluate, Activation.fresh]
    cases resume (inside j) x.loop x.tokens 0 ⟨m, []⟩ with
    | ok u s => exact .refl _
    | error h s =>
      cases h with
      | bye => exact .refl _
      | _ => exact .refl _

/-- The inner sequences of a word are evaluated one after another. -/
theorem leads_series {k : Nat} (ih : ∀ j, k = j + 1 → Arrives limit j) (m : Machine Empty)
    (a : Activation) {waiting : List Activation} (hk : waiting.length + 1 + k = limit) :
    Leads limit (.going m a waiting) (rejoin a waiting (series (inside k) a.pending m)) := by
  obtain ⟨tokens, loop, pos, pending, vars⟩ := a
  induction pending generalizing m with
  | nil => exact .refl _
  | cons x rest ihRest =>
    have hx := leads_inner ih m ⟨tokens, loop, pos, [], vars⟩ x rest hk
    refine Leads.trans hx ?_
    simp only [series, bind, EStateM.bind]
    cases inside k x.loop x.tokens m with
    | error h m => exact .refl _
    | ok u m => exact ihRest m

/-- Every sequence comes to its result: the nesting gets smaller from one level to the next, and the tokens
that are left get fewer from one word to the next. -/
theorem arrives (k : Nat) : Arrives limit k := by
  induction k using Nat.strongRecOn with
  | _ k ihk =>
    have ih : ∀ j, k = j + 1 → Arrives limit j := fun j hj => ihk j (by omega)
    rintro m ⟨tokens, loop, i, pending, vars⟩ waiting hp hk
    simp only at hp
    subst hp
    induction i using forward_induction tokens generalizing m vars with
    | done i hi =>
      have hnone : tokens[i]? = none := List.getElem?_eq_none hi
      rw [resume_of_le _ _ _ hi]
      exact .step (step_leave rfl hnone)
    | next i hi ihn =>
      have ht : tokens[i]? = some tokens[i] := List.getElem?_eq_getElem hi
      refine (leads_settle rfl ht).trans ?_
      rw [resume_eq _ _ _ ht]
      unfold stride
      simp only
      cases plan loop tokens[i] (tokens.drop (i + 1)) ⟨m, vars⟩ with
      | error b s => exact .refl _
      | ok p s =>
        let b : Activation := ⟨tokens, loop, i + 1 + p.width, p.inner, s.vars⟩
        have hb : b.frame.pos = i + p.width := by
          simp only [Activation.frame, b]
          omega
        refine (leads_series ih s.toMachine b hk).trans ?_
        simp only
        cases series (inside k) p.inner s.toMachine with
        | error h m' =>
          simp only [rejoin, conclude, b, Break.annotate_offset]
          rw [← hb]
          exact .refl _
        | ok u m' => exact ihn (i + 1 + p.width) (by omega) m' s.vars

/-- From its start every evaluation comes to its end. -/
theorem leads_start (limit : Nat) (loop : Option Int) (tokens : List String) (s : Scope Empty) :
    Leads limit (start limit loop tokens s) (.ended (interpretWithin limit loop tokens s)) := by
  unfold start enter interpretWithin
  cases limit with
  | zero => exact .refl _
  | succ limit =>
    rw [if_pos (by simp)]
    have h := @arrives (limit + 1) limit s.toMachine ⟨tokens, loop, 0, [], s.vars⟩ [] rfl
      (by simp; omega)
    rw [evaluate_succ]
    refine h.trans ?_
    cases resume (inside limit) loop tokens 0 s with
    | ok u t => exact .refl _
    | error e t => cases e <;> exact .refl _

end Config

/-! ### Every run ends -/

/-- Evaluation goes on behind the token at hand, in the same sequence. -/
theorem resume_of_step {nested : Nested Empty} {loop : Option Int} {tokens : List String} {i : Nat}
    {token : String} {move : Move Empty} {s₁ s₂ : Scope Empty} (ht : tokens[i]? = some token)
    (h : Forth.step nested ⟨tokens, i, loop⟩ token (tokens.drop (i + 1)) s₁ = .ok move s₂) :
    ∃ j, i < j ∧ j ≤ tokens.length ∧
      resume nested loop tokens i s₁ = resume nested loop tokens j s₂ := by
  cases move with
  | jump w target => exact w.elim
  | next skip =>
    have hstride := stride_of_step h
    obtain ⟨hi, -⟩ := List.getElem?_eq_some_iff.1 ht
    obtain ⟨hlt, hle⟩ := stride_le _ _ _ hi hstride
    refine ⟨i + 1 + skip, hlt, hle, ?_⟩
    rw [resume_eq nested loop tokens ht, hstride]

/-- A loop evaluates its body as often as the cell says that it takes from the stack, and not at all if that
is negative. -/
theorem step_loop (nested : Nested Empty) {site : Site} {token last : String}
    {rest body : List String} {s : Scope Empty} {n : Int} {below : Stack}
    (hs : s.words.sense token = .primitive (.lookahead .loop))
    (hb : Fence.loop.scan 0 rest = .ok (body, last)) (hn : s.stack = n :: below) :
    Forth.step nested site token rest s =
      carryOut nested (.ok ⟨body.length + 1, (List.range n.toNat).map fun (k : Nat) => ⟨some k, body⟩⟩
        { s with stack := below }) := by
  rw [step_eq_carryOut, plan_of_lookahead _ _ hs, Lookahead.plan_loop, hb]
  simp only [hn]

/-- Every run ends, and as `interpretWithin` says. A word that does not end its sequence has it go on behind
that word; a loop takes a fixed number of turns; and whoever asks for input does so in rounds each of which
uses up a line, so that a bound on the rounds does not matter if it is above the number of lines. -/
theorem interpretWithin_ends (limit : Nat) (loop : Option Int) (tokens : List String)
    (s : Scope Empty) :
    (∃ n, Config.run limit n (Config.start limit loop tokens s) =
      .ended (interpretWithin limit loop tokens s)) ∧
    (∀ (nested : Nested Empty) (i : Nat) (token : String) (move : Move Empty) (s₁ s₂ : Scope Empty),
      tokens[i]? = some token →
      Forth.step nested ⟨tokens, i, loop⟩ token (tokens.drop (i + 1)) s₁ = .ok move s₂ →
      ∃ j, i < j ∧ j ≤ tokens.length ∧
        resume nested loop tokens i s₁ = resume nested loop tokens j s₂) ∧
    (∀ (nested : Nested Empty) (site : Site) (token last : String) (rest body : List String)
      (s₁ : Scope Empty) (n : Int) (below : Stack),
      s₁.words.sense token = .primitive (.lookahead .loop) →
      Fence.loop.scan 0 rest = .ok (body, last) → s₁.stack = n :: below →
      Forth.step nested site token rest s₁ =
        carryOut nested
          (.ok ⟨body.length + 1, (List.range n.toNat).map fun (k : Nat) => ⟨some k, body⟩⟩
            { s₁ with stack := below })) ∧
    (∀ (accept : String → Option Int) (m : Machine Empty) (n : Nat),
      readCell accept (n + 1) m =
        match askOnce accept m with
        | .ok (some k) m => .ok k m
        | .ok none m => readCell accept n m
        | .error t m => .error t m) ∧
    (∀ (accept : String → Option Int) (m m' : Machine Empty) (r : Option Int),
      askOnce accept m = .ok r m' → m'.console.source.remaining < m.console.source.remaining) ∧
    ∀ (accept : String → Option Int) (m : Machine Empty) (n : Nat),
      m.console.source.remaining < n →
      readCell accept n m = readCell accept (m.console.source.remaining + 1) m := by
  refine ⟨Config.leads_start limit loop tokens s, ?_, ?_, ?_, ?_, ?_⟩
  · intro nested i token move s₁ s₂ ht hstep
    exact resume_of_step ht hstep
  · intro nested site token last rest body s₁ n below hs hb hn
    exact step_loop nested hs hb hn
  · intro accept m n
    exact readCell_succ accept n m
  · intro accept m m' r h
    exact remaining_askOnce h
  · intro accept m n hn
    exact readCell_eq accept hn (Nat.lt_succ_self _)

end Forth
