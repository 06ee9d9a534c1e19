import Forth.Prompt
import Forth.Proofs.Actions
import Forth.Proofs.Frames

/-!
# What no evaluation can break

An invariant of machines that does not depend on the stack, and that words can neither write nor read away,
holds after every evaluation, whether it succeeds or not, and at every token that the evaluation reaches.
-/
namespace Forth

open Machine

/-- The machine is the same, and it has `I`. -/
def Only (I : Machine Empty → Prop) (m m' : Machine Empty) : Prop := m' = m ∧ I m

/-- An action ended on a machine with `I`, and what it raised has `T`. -/
def Ends {α : Type} (I : Machine Empty → Prop) (T : Trouble → Prop) :
    EStateM.Result Trouble (Machine Empty) α → Prop
  | .ok _ m => I m
  | .error t m => I m ∧ T t

/-- An invariant that no basic action breaks, with the troubles that they raise under it. -/
structure Steady (I : Machine Empty → Prop) (T : Trouble → Prop) : Prop where
  stack : ∀ {m}, I m → ∀ stack, I { m with stack }
  words : ∀ {m w words}, I m → w.Plain → m.words.add w = .ok words → I { m with words }
  note : ∀ {m}, I m → ∀ e, I (m.note e)
  put : ∀ {m}, I m → ∀ i n, I { m with memory := m.memory.put i n }
  emit : ∀ {t m}, Uttered t → I m → Ends I T (emit t m)
  readLine : ∀ m, I m → Ends I T (readLine m)
  cause : ∀ {c : Cause}, c.kind ≠ .returnStackOverflow → T (.cause c)

section Invariants

variable {I : Machine Empty → Prop} {T : Trouble → Prop}

theorem alike_self_iff {α : Type} {r : EStateM.Result Trouble (Machine Empty) α} :
    Alike (Only I) T (fun _ => False) r r ↔ Ends I T r := by
  cases r with
  | ok x m => simp [Alike, Only, Ends]
  | error t m => simp [Alike, Only, Ends, and_comm]

theorem Only.stack_eq {m m' : Machine Empty} (h : Only I m m') : m'.stack = m.stack := by
  rw [h.1]

/-- An invariant that does not depend on the console survives whatever is written. -/
theorem ends_emit (hc : ∀ {m}, I m → ∀ console, I { m with console })
    (hf : T (.fault .unsupported)) (t : String) {m : Machine Empty} (hm : I m) :
    Ends I T (emit t m) := by
  unfold emit
  split
  · exact hm
  · split
    · exact hc hm _
    · exact ⟨hm, hf⟩

/-- An invariant that does not depend on the console survives whatever is read. -/
theorem ends_readLine (hc : ∀ {m}, I m → ∀ console, I { m with console })
    (hf : ∀ f, T (.fault f)) {m : Machine Empty} (hm : I m) : Ends I T (readLine m) := by
  unfold readLine
  split
  · exact hc hm _
  · exact ⟨hc hm _, hf _⟩

section Relations

variable (hstack : ∀ {m}, I m → ∀ stack, I { m with stack })
  (hput : ∀ {m}, I m → ∀ i n, I { m with memory := m.memory.put i n })
  (hemit : ∀ {t m}, Uttered t → I m → Ends I T (emit t m))
  (hcause : ∀ {c : Cause}, c.kind ≠ .returnStackOverflow → T (.cause c))

include hstack hput hemit hcause

/-- An invariant that the basic actions do not break is a relation that they respect. -/
theorem secluded_only : Secluded (Only I) T fun _ => False := by
  have hwith {m m' : Machine Empty} (hm : Only I m m') (stack : Stack) :
      Only I { m with stack } { m' with stack } := by
    obtain ⟨rfl, hm⟩ := hm
    exact ⟨rfl, hstack hm stack⟩
  constructor
  case memory =>
    rintro m _ ⟨rfl, -⟩
    rfl
  case push => exact .push Only.stack_eq hwith
  case pop => exact .pop Only.stack_eq hwith (hcause (by simp))
  case put =>
    rintro m _ ⟨rfl, hm⟩ i n
    exact ⟨rfl, hput hm i n⟩
  case emit =>
    rintro t ht m _ ⟨rfl, hm⟩
    exact alike_self_iff.2 (hemit ht hm)
  case cause => exact hcause

theorem tame_only (hread : ∀ m, I m → Ends I T (readLine m)) : Tame (Only I) T fun _ => False where
  toSecluded := secluded_only hstack hput hemit hcause
  readLine := by
    rintro m _ ⟨rfl, hm⟩
    exact alike_self_iff.2 (hread _ hm)

end Relations

theorem Steady.tame (h : Steady I T) : Tame (Only I) T fun _ => False :=
  tame_only h.stack h.put h.emit h.cause h.readLine

theorem Simple.ends (h : Tame (Only I) T fun _ => False) (w : Simple)
    (hd : w.Spells → T (.fault .digitLimit)) {m : Machine Empty} (hm : I m) : Ends I T (w.act m) :=
  alike_self_iff.1 (w.keeps h hd (fun _ => Only.stack_eq) m m ⟨rfl, hm⟩)

end Invariants

/-! ### Plans -/

/-- What ends a sequence is `bye` or a trouble with `T`. -/
def Halt.Within (T : Trouble → Prop) : Halt → Prop
  | .bye => True
  | .failed f => T (.cause f.cause)
  | .fault f => T (.fault f)
  | .overflow => False

theorem Halt.within_ofTrouble {T : Trouble → Prop} {t : Trouble} (h : T t) (k : Int) :
    (Break.ofTrouble k t).halt.Within T := by
  cases t with
  | cause c => exact h
  | fault f => exact h

/-- A piece of work came to a machine with `I`, and what ended it has `T`. -/
def Upholds (I : Machine Empty → Prop) (T : Trouble → Prop) :
    EStateM.Result Break (Scope Empty) Plan → Prop
  | .ok _ s => I s.toMachine
  | .error b s => I s.toMachine ∧ b.halt.Within T

section Plans

variable {I : Machine Empty → Prop} {T : Trouble → Prop} {loop : Option Int} {rest : List String}

theorem Steady.fail (h : Steady I T) {s : Scope Empty} (hs : I s.toMachine) {c : Cause}
    (hc : c.kind ≠ .returnStackOverflow) (k : Int) :
    Upholds I T (.error ⟨.failed ⟨c, []⟩, k⟩ s) :=
  ⟨hs, h.cause hc⟩

theorem Lookahead.plan_upholds (h : Steady I T) (w : Lookahead) {s : Scope Empty}
    (hs : I s.toMachine) : Upholds I T (w.plan loop rest s) := by
  have written {line : String} (hline : Uttered (line ++ "\n")) :
      Ends I T (writeLine line s.toMachine) := h.emit hline hs
  have ho : w.Outcome rest s (w.plan loop rest s) := w.plan_outcome s
  generalize w.plan loop rest s = r at ho ⊢
  cases ho with
  | failed hc => exact h.fail hs hc _
  | @refused line t m k hline hw =>
    have hline := written hline
    rw [hw] at hline
    exact ⟨hline.1, Halt.within_ofTrouble hline.2 k⟩
  | @written line m p hline hw hwidth =>
    have hline := written hline
    rw [hw] at hline
    exact hline
  | changed hwidth => exact h.stack hs _
  | declared hw hname hword hstack hwidth => exact h.note (h.stack hs _) _
  | assigned hw hname hword hstack hwidth => exact h.stack hs _
  | defined hw hplain hvar hadd hwidth => exact h.note (h.words hs hplain hadd) _

/-- The own work of a token breaks no invariant, and its failures are tame. -/
theorem plan_upholds (h : Steady I T) (hd : T (.fault .digitLimit)) (loop : Option Int)
    (token : String) (rest : List String) {s : Scope Empty} (hs : I s.toMachine) :
    Upholds I T (plan loop token rest s) := by
  unfold plan
  cases s.words.sense token with
  | number n => exact h.stack hs _
  | longNumber => exact ⟨hs, hd⟩
  | unknown => exact h.fail hs (by simp) _
  | definition body => exact hs
  | primitive p =>
    cases p with
    | simple w =>
      have hw := w.ends h.tame (fun _ => hd) hs
      simp only [Sense.plan, Primitive.plan_simple]
      cases hm : w.act s.toMachine with
      | ok u m =>
        rw [hm] at hw
        exact hw
      | error t m =>
        rw [hm] at hw
        exact ⟨hw.1, Halt.within_ofTrouble hw.2 0⟩
    | lookahead w => exact w.plan_upholds h hs
    | index =>
      simp only [Sense.plan, Primitive.plan_index]
      cases loop with
      | none => exact h.fail hs (by simp) _
      | some k => exact h.stack hs _
    | bye => exact ⟨hs, trivial⟩
    | host w => exact w.elim

end Plans

/-! ### Runs -/

section Runs

variable {I : Machine Empty → Prop} {T : Trouble → Prop} {nested : Nested Empty}

theorem series_upholds (xs : List Inner)
    (hn : ∀ x ∈ xs, ∀ m, I m → I (finish (nested x.loop x.tokens m))) {m : Machine Empty} (hm : I m) :
    I (finish (series nested xs m)) := by
  induction xs generalizing m with
  | nil => exact hm
  | cons x xs ih =>
    have h := hn x List.mem_cons_self m hm
    simp only [series, bind, EStateM.bind]
    cases hx : nested x.loop x.tokens m with
    | ok u m₁ =>
      rw [hx] at h
      exact ih (fun y hy => hn y (List.mem_cons_of_mem x hy)) h
    | error e m₁ =>
      rw [hx] at h
      exact h

theorem isolated_upholds {e : Evaluation Empty Unit} {m : Machine Empty}
    (he : I (finish (e ⟨m, []⟩)).toMachine) : I (finish (isolated e m)) := by
  unfold isolated
  cases hr : e ⟨m, []⟩ with
  | ok u t =>
    rw [hr] at he
    exact he
  | error halt t =>
    rw [hr] at he
    cases halt <;> exact he

variable (h : Steady I T) (hd : T (.fault .digitLimit))

include h hd

theorem resume_upholds (hn : ∀ loop tokens m, I m → I (finish (nested loop tokens m)))
    (loop : Option Int) (tokens : List String) (i : Nat) {s : Scope Empty} (hs : I s.toMachine) :
    I (finish (resume nested loop tokens i s)).toMachine := by
  induction i using forward_induction tokens generalizing s with
  | done i hi =>
    rw [resume_of_le _ _ _ hi]
    exact hs
  | next i hi ih =>
    have hp := plan_upholds h hd loop tokens[i] (tokens.drop (i + 1)) hs
    rw [resume_eq _ _ _ (List.getElem?_eq_getElem hi)]
    unfold stride
    cases hr : plan loop tokens[i] (tokens.drop (i + 1)) s with
    | error b t =>
      rw [hr] at hp
      exact hp.1
    | ok p t =>
      rw [hr] at hp
      have hm := series_upholds p.inner (fun x _ => hn x.loop x.tokens) hp
      simp only
      cases hx : series nested p.inner t.toMachine with
      | error e m =>
        rw [hx] at hm
        exact hm
      | ok u m =>
        rw [hx] at hm
        exact ih (i + 1 + p.width) (by omega) hm

/-- Evaluation breaks no invariant. -/
theorem evaluate_upholds (limit : Nat) (loop : Option Int) (tokens : List String)
    {s : Scope Empty} (hs : I s.toMachine) :
    I (finish (evaluate limit loop tokens s)).toMachine := by
  induction limit generalizing loop tokens s with
  | zero => exact hs
  | succ limit ih =>
    rw [evaluate_succ]
    exact resume_upholds h hd (fun loop tokens m hm => isolated_upholds (ih loop tokens hm))
      loop tokens 0 hs

theorem inside_upholds (limit : Nat) (loop : Option Int) (tokens : List String)
    {m : Machine Empty} (hm : I m) : I (finish (inside limit loop tokens m)) :=
  isolated_upholds (evaluate_upholds h hd limit loop tokens hm)

theorem Comes.upholds {limit : Nat} {loop : Option Int} {tokens : List String} {i : Nat}
    {s s₁ : Scope Empty} (hc : Comes (inside limit) loop tokens s i s₁) (hs : I s.toMachine) :
    I s₁.toMachine := by
  induction hc with
  | start => exact hs
  | @next i skip token s₁ s₂ hc ht hstep ih =>
    obtain ⟨p, t, m, hp, hm, rfl, rfl⟩ := step_eq_ok_iff.1 hstep
    have ht := plan_upholds h hd loop token (tokens.drop (i + 1)) ih
    rw [hp] at ht
    have hseries := series_upholds p.inner (fun x _ _ => inside_upholds h hd limit x.loop x.tokens) ht
    rw [hm] at hseries
    exact hseries

theorem Enters.upholds {limit : Nat} {loop : Option Int} {tokens : List String} {i q : Nat}
    {s : Scope Empty} {x : Inner} {m : Machine Empty}
    (he : Enters (inside limit) loop tokens i s q x m) (hs : I s.toMachine) : I m := by
  cases he with
  | call ht hd => exact hs
  | branch ht hd hscan hstack hq => exact h.stack hs _
  | @turn token last body n below _ k _ ht hl hscan hstack hq hk hm =>
    have hseries := series_upholds ((List.range k).map fun (j : Nat) => ⟨some (j : Int), body⟩)
      (fun x _ _ => inside_upholds h hd limit x.loop x.tokens) (h.stack hs below)
    rw [hm] at hseries
    exact hseries

/-- Whatever an evaluation reaches satisfies every invariant that its beginning satisfies. -/
theorem Reaches.upholds {limit : Nat} {loop : Option Int} {tokens : List String}
    {s : Scope Empty} {outer : List Frame} {here : Moment}
    (hr : Reaches limit loop tokens s outer here) (hs : I s.toMachine) :
    I here.scope.toMachine := by
  induction hr with
  | here hc hi => exact hc.upholds h hd hs
  | inner hc he hr ih => exact ih (he.upholds h hd (hc.upholds h hd hs))

end Runs

/-! ### Outermost evaluations -/

/-- Whatever becomes of the action, it does not break the invariant. -/
def Stable {ε α : Type} (I : Machine Empty → Prop) (a : EStateM ε (Machine Empty) α) : Prop :=
  ∀ m, I m → I (finish (a m))

section Stable

variable {I : Machine Empty → Prop} {ε α β : Type}

theorem Stable.pure (x : α) : Stable I (Pure.pure x : EStateM ε (Machine Empty) α) := fun _ hm => hm

theorem Stable.throw (e : ε) : Stable I (MonadExcept.throw e : EStateM ε (Machine Empty) α) :=
  fun _ hm => hm

theorem Stable.bind {a : EStateM ε (Machine Empty) α} {f : α → EStateM ε (Machine Empty) β}
    (ha : Stable I a) (hf : ∀ x, Stable I (f x)) : Stable I (a >>= f) := by
  intro m hm
  have h := ha m hm
  simp only [Bind.bind, EStateM.bind]
  cases hx : a m with
  | error e m' =>
    rw [hx] at h
    exact h
  | ok x m' =>
    rw [hx] at h
    exact hf x m' h

theorem Stable.get {f : Machine Empty → EStateM ε (Machine Empty) β} (hf : ∀ m, Stable I (f m)) :
    Stable I (MonadState.get >>= f) := fun m hm => hf m m hm

end Stable

section Outermost

variable {I : Machine Empty → Prop} {T : Trouble → Prop}

theorem interpretWithin_upholds (h : Steady I T) (hd : T (.fault .digitLimit)) (limit : Nat)
    (loop : Option Int) (tokens : List String) {s : Scope Empty} (hs : I s.toMachine) :
    I (finish (interpretWithin limit loop tokens s)).toMachine := by
  have he := evaluate_upholds h hd limit loop tokens hs
  unfold interpretWithin
  cases hr : evaluate limit loop tokens s with
  | ok u t =>
    rw [hr] at he
    exact he
  | error e t =>
    rw [hr] at he
    cases e with
    | bye => exact he
    | overflow => exact he
    | failed f => exact h.note he _
    | fault f => exact he

/-- What the prompt writes by itself breaks no invariant either. -/
def Unwritten (I : Machine Empty → Prop) : Prop :=
  ∀ {m t sink}, I m → m.console.sink.write t = .ok sink →
    I { m with console := { m.console with sink } }

variable (h : Steady I T) (hd : T (.fault .digitLimit)) (hw : Unwritten I)

include h hd hw

theorem run_upholds (text : String) {s : Scope Empty} (hs : I s.toMachine) :
    I (finish (run text s)).toMachine := by
  have hi := interpretWithin_upholds h hd nestingLimit none (tokenize text) hs
  unfold run interpret
  cases hr : interpretWithin nestingLimit none (tokenize text) s with
  | ok u t =>
    rw [hr] at hi
    exact hi
  | error a t =>
    rw [hr] at hi
    cases a with
    | fault f => exact hi
    | failed f =>
      have hnote := h.note hi .runFailed
      simp only
      split
      · next hsink => exact hw hnote hsink
      · exact hnote

theorem runLine_stable (line : String) : Stable I (runLine line) := by
  intro m hm
  have hrun := run_upholds h hd hw line (s := ⟨m, []⟩) hm
  unfold runLine
  cases hr : run line ⟨m, []⟩ with
  | ok b t =>
    rw [hr] at hrun
    exact hrun
  | error f t =>
    rw [hr] at hrun
    exact hrun

omit h hd in
theorem write_stable (t : String) : Stable I (Machine.write t) := by
  intro m hm
  unfold Machine.write
  cases hs : m.console.sink.write t with
  | ok sink => exact hw hm hs
  | error f => exact hm

theorem handleLine_stable (line : String) : Stable I (handleLine line) := by
  unfold handleLine
  simp only
  split
  · exact .pure true
  · split
    · exact .pure false
    · refine .get fun m => ?_
      split
      · exact .throw _
      · exact .bind (write_stable hw _) fun _ => .pure true
    · refine .bind (runLine_stable h hd hw _) fun ok => ?_
      cases ok with
      | true => exact .bind (write_stable hw _) fun _ => .pure true
      | false => exact .pure true

end Outermost

end Forth
