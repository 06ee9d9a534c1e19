import Forth.Proofs.Atomicity

/-!
# Too few cells

A word pops its operands before it does anything else. So it underflows exactly if there are fewer cells than
operands, and then it leaves an empty stack and no other trace (`Takes`). Nothing on the way out of the sequences
around it pushes or writes, so that is how the whole evaluation ends (`underflow_leaves_empty_stack`).
-/
namespace Forth

open Machine

def Trouble.Underflow : Trouble → Prop
  | .cause c => c.kind = .stackUnderflow
  | .fault _ => False

/-- The action pops `k` cells first, and needs no more. -/
structure Takes {α : Type} (k : Nat) (a : Action Empty α) : Prop where
  short : ∀ m, m.stack.length < k → a m = .error (.cause .stackUnderflow) { m with stack := [] }
  enough : ∀ m t m', k ≤ m.stack.length → a m = .error t m' → ¬ t.Underflow

def Simple.operands : Simple → Nat
  | .dup | .drop | .printChar | .print | .memoryFetch => 1
  | .swap | .over | .add | .sub | .mul | .div | .mod | .eq | .gt | .lt | .both | .either
  | .memoryStore => 2
  | .rot => 3
  | .depth | .isEmpty | .printStack | .readChar | .readNumber | .memorySize => 0

def Primitive.operands : Primitive Empty → Nat
  | .simple w => w.operands
  | .lookahead w => w.operands
  | .index | .bye => 0
  | .host w => nomatch w

/-! ### Actions -/

namespace Takes

variable {α β : Type} {k : Nat} {a : Action Empty α} {f : α → Action Empty β}

/-- What never underflows takes nothing. -/
theorem zero (h : ∀ m t m', a m = .error t m' → ¬ t.Underflow) : Takes 0 a where
  short _ hm := absurd hm (Nat.not_lt_zero _)
  enough m t m' _ := h m t m'

theorem pure (x : α) : Takes 0 (Pure.pure x : Action Empty α) :=
  zero fun _ _ _ h => nomatch h

theorem throw {t : Trouble} (ht : ¬ t.Underflow) : Takes 0 (MonadExcept.throw t : Action Empty α) := by
  refine zero fun m t' m' h => ?_
  cases h
  exact ht

theorem bind (ha : Takes 0 a) (hf : ∀ x, Takes 0 (f x)) : Takes 0 (a >>= f) := by
  refine zero fun m t m' h => ?_
  simp only [Bind.bind, EStateM.bind] at h
  cases hx : a m with
  | ok x m₁ =>
    rw [hx] at h
    exact (hf x).enough m₁ t m' (Nat.zero_le _) h
  | error e m₁ =>
    rw [hx] at h
    cases h
    exact ha.enough m t m' (Nat.zero_le _) hx

theorem get {f : Machine Empty → Action Empty β} (hf : ∀ m, Takes 0 (f m)) :
    Takes 0 (MonadState.get >>= f) :=
  zero fun m t m' h => (hf m).enough m t m' (Nat.zero_le _) h

/-- One cell is popped before the others. -/
theorem pop_bind {f : Int → Action Empty β} (hf : ∀ n, Takes k (f n)) : Takes (k + 1) (pop >>= f) where
  short m hm := by
    simp only [Bind.bind, EStateM.bind, pop]
    cases hs : m.stack with
    | nil => simp only [← hs]
    | cons n below =>
      rw [hs, List.length_cons] at hm
      exact (hf n).short { m with stack := below } (Nat.lt_of_succ_lt_succ hm)
  enough m t m' hm h := by
    simp only [Bind.bind, EStateM.bind, pop] at h
    cases hs : m.stack with
    | nil => simp [hs] at hm
    | cons n below =>
      rw [hs, List.length_cons] at hm
      rw [hs] at h
      exact (hf n).enough { m with stack := below } t m' (Nat.le_of_succ_le_succ hm) h

theorem push (n : Int) : Takes 0 (push n) := zero fun _ _ _ h => nomatch h

theorem emit (text : String) : Takes 0 (emit text) := by
  refine zero fun m t m' h => ?_
  obtain ⟨-, rfl, -⟩ := emit_error h
  exact id

theorem emit? (text : Option String) : Takes 0 (emit? text) := by
  cases text with
  | none => exact throw id
  | some text => exact emit text

theorem readLine : Takes 0 readLine := by
  refine zero fun m t m' h => ?_
  unfold Machine.readLine at h
  split at h <;> cases h
  exact id

theorem check {m : Memory} {address : Int} {t : Trouble} (h : m.check address = .error t) :
    ¬ t.Underflow := by
  unfold Memory.check at h
  split at h
  · cases h
  · split at h <;> cases h
    · exact id
    · simp [Trouble.Underflow]

theorem fetch (address : Int) : Takes 0 (fetch address) := by
  refine zero fun m t m' h => ?_
  unfold Machine.fetch Memory.fetch at h
  cases hc : m.memory.check address with
  | ok i => simp [hc, Except.map] at h
  | error e =>
    simp only [hc, Except.map] at h
    cases h
    exact check hc

theorem store (address n : Int) : Takes 0 (store address n) := by
  refine zero fun m t m' h => ?_
  unfold Machine.store at h
  split at h <;> cases h
  next hc => exact check hc

/-- Asking for input may find none, but takes nothing from the stack. -/
theorem readCell (accept : String → Option Int) (n : Nat) : Takes 0 (readCell accept n) := by
  induction n with
  | zero => exact throw (by simp [Trouble.Underflow])
  | succ n ih =>
    refine bind readLine fun line => ?_
    cases line with
    | none => exact throw (by simp [Trouble.Underflow])
    | some line =>
      by_cases hl : line.isEmpty = true
      · simp only [hl, if_true]
        exact bind (emit _) fun _ => ih
      · simp only [hl]
        cases accept line with
        | none => exact bind (emit _) fun _ => ih
        | some k => exact pure k

theorem pushInput (accept : String → Option Int) : Takes 0 (pushInput accept) :=
  get fun _ => bind (readCell accept _) fun _ => push _

theorem binary (f : Int → Int → Int) : Takes 2 (binary f) :=
  pop_bind fun _ => pop_bind fun _ => push _

theorem divide (part : Int × Int → Int) : Takes 2 (divide part) := by
  refine pop_bind fun b => pop_bind fun a => ?_
  cases Cell.divMod? a b with
  | none => exact throw (by simp [Trouble.Underflow])
  | some qr => exact push _

end Takes

/-! ### Words -/

/-- Every simple word pops its operands first. -/
theorem Simple.takes (w : Simple) : Takes w.operands w.act := by
  cases w with
  | dup => exact .pop_bind fun _ => .bind (.push _) fun _ => .push _
  | drop => exact .pop_bind fun _ => .pure _
  | swap => exact .pop_bind fun _ => .pop_bind fun _ => .bind (.push _) fun _ => .push _
  | «over» =>
    exact .pop_bind fun _ => .pop_bind fun _ =>
      .bind (.push _) fun _ => .bind (.push _) fun _ => .push _
  | rot =>
    exact .pop_bind fun _ => .pop_bind fun _ => .pop_bind fun _ =>
      .bind (.push _) fun _ => .bind (.push _) fun _ => .push _
  | depth => exact .get fun _ => .push _
  | isEmpty => exact .get fun _ => .push _
  | add => exact .binary _
  | sub => exact .binary _
  | mul => exact .binary _
  | div => exact .divide _
  | mod => exact .divide _
  | eq => exact .binary _
  | gt => exact .binary _
  | lt => exact .binary _
  | both => exact .binary _
  | either => exact .binary _
  | printChar => exact .pop_bind fun _ => .emit _
  | print => exact .pop_bind fun _ => .emit? _
  | printStack => exact .get fun _ => .emit? _
  | readChar => exact .pushInput _
  | readNumber => exact .pushInput _
  | memoryFetch => exact .pop_bind fun _ => .bind (.fetch _) fun _ => .push _
  | memoryStore => exact .pop_bind fun _ => .pop_bind fun _ => .store _ _
  | memorySize => exact .get fun _ => .push _

/-- A lookahead word objects that cells are missing only if they are. -/
theorem Lookahead.Objects.underflow_of_kind {w : Lookahead} {rest : List String} {s : Scope Empty} {c : Cause}
    (h : w.Objects rest s c) (hc : c.kind = .stackUnderflow) :
    c = .stackUnderflow ∧ s.stack.length < w.operands := by
  cases h with
  | scan he => exact absurd hc (he.kind.ne (by decide))
  | heading hs hh => rcases Heading.error_of_ofTokens hh with rfl | rfl <;> cases hc
  | underflow hlt => exact ⟨rfl, hlt⟩
  | _ => cases hc

/-! ### Evaluations -/

/-- A token that breaks with an underflow is a word with more operands than there are cells. It has emptied the
stack and changed nothing else. -/
theorem Moment.Breaks.underflow {here : Moment} {f : Failure} {k : Int} {t : Scope Empty}
    (h : here.Breaks ⟨.failed f, k⟩ t) (hf : f.cause.kind = .stackUnderflow) :
    f = ⟨.stackUnderflow, []⟩ ∧ t = { here.scope with stack := [] } ∧
      ∃ token p, here.tokens[here.pos]? = some token ∧ here.scope.words.sense token = .primitive p ∧
        here.scope.stack.length < p.operands := by
  obtain ⟨token, ht, hp⟩ := (Moment.breaks_iff _ _ _).1 h
  cases hs : here.scope.words.sense token with
  | number n =>
    rw [plan, hs] at hp
    cases hp
  | longNumber =>
    rw [plan, hs] at hp
    cases hp
  | unknown =>
    rw [plan, hs] at hp
    cases hp
    cases hf
  | definition body =>
    rw [plan, hs] at hp
    cases hp
  | primitive p =>
    cases p with
    | simple w =>
      simp only [plan, hs, Sense.plan, Primitive.plan_simple] at hp
      cases ha : w.act here.scope.toMachine with
      | ok u m =>
        rw [ha] at hp
        cases hp
      | error e m =>
        rw [ha] at hp
        cases e with
        | fault g => cases hp
        | cause c =>
          cases hp
          rcases Nat.lt_or_ge here.scope.stack.length w.operands with hlt | hge
          · rw [w.takes.short _ hlt] at ha
            cases ha
            exact ⟨rfl, rfl, token, _, ht, hs, hlt⟩
          · exact absurd hf (w.takes.enough _ _ _ hge ha)
    | lookahead w =>
      obtain ⟨rfl, hfails⟩ := h.lookahead ht hs
      cases hfails with
      | objects ho =>
        obtain ⟨rfl, hlt⟩ := ho.underflow_of_kind hf
        have hempty : here.scope.stack = [] := by
          have hle : w.operands ≤ 1 := by cases w <;> decide
          exact List.eq_nil_of_length_eq_zero (by omega)
        refine ⟨rfl, ?_, token, _, ht, hs, hlt⟩
        rw [← hempty]
    | index =>
      simp only [plan, hs, Sense.plan, Primitive.plan_index] at hp
      split at hp <;> cases hp
      cases hf
    | bye =>
      rw [plan, hs] at hp
      cases hp
    | host w => exact w.elim

/-- A simple word underflows exactly if there are fewer cells than operands. -/
theorem Moment.simple_underflow_iff {here : Moment} {token : String} {w : Simple}
    (ht : here.tokens[here.pos]? = some token)
    (hs : here.scope.words.sense token = .primitive (.simple w)) :
    (∃ f k t, here.Breaks ⟨.failed f, k⟩ t ∧ f.cause.kind = .stackUnderflow) ↔
      here.scope.stack.length < w.operands := by
  constructor
  · rintro ⟨f, k, t, hb, hf⟩
    obtain ⟨-, -, token', p, ht', hs', hlt⟩ := hb.underflow hf
    obtain rfl : token = token' := Option.some.inj (ht.symm.trans ht')
    rw [hs] at hs'
    cases hs'
    exact hlt
  · intro hlt
    refine ⟨⟨.stackUnderflow, []⟩, 0, { here.scope with stack := [] }, ?_, rfl⟩
    refine (Moment.breaks_iff _ _ _).2 ⟨token, ht, ?_⟩
    simp only [plan, hs, Sense.plan, Primitive.plan_simple, w.takes.short _ hlt]
    rfl

/-- An evaluation that fails, but for too deep a nesting, has reached a token that broke with that cause, and
ends on its machine. -/
theorem reaches_of_interpretWithin {limit : Nat} {loop : Option Int} {tokens : List String}
    {s s' : Scope Empty} {f : Failure} (h : interpretWithin limit loop tokens s = .error (.failed f) s')
    (hf : f.cause.kind ≠ .returnStackOverflow) :
    ∃ outer here g k t, Reaches limit loop tokens s outer here ∧ here.Breaks ⟨.failed g, k⟩ t ∧
      g.cause = f.cause ∧ ∃ journal, s'.toMachine = { t.toMachine with journal } := by
  unfold interpretWithin at h
  cases he : evaluate limit loop tokens s with
  | ok u t =>
    rw [he] at h
    cases h
  | error e t =>
    rw [he] at h
    cases e with
    | bye => cases h
    | overflow =>
      cases h
      exact absurd rfl hf
    | fault g => cases h
    | failed g =>
      cases h
      obtain ⟨outer, here, ⟨halt, k⟩, t', hr, hb, heq, hm⟩ := reaches_of_evaluate (by simp) (by simp) he
      rw [Break.annotate_through] at heq
      cases halt with
      | bye => cases heq
      | overflow => cases heq
      | fault g => cases heq
      | failed g =>
        cases heq
        exact ⟨outer, here, g, k, t', hr, hb, rfl, _, by rw [Machine.note, hm]⟩

/-- A simple word underflows exactly if there are fewer cells than operands. An evaluation that ends in an
underflow ends with an empty stack. It came from a word with too few cells, somewhere in the sequences that were
being evaluated; that word has emptied the stack and changed nothing else, and neither has anything after it. -/
theorem underflow_leaves_empty_stack :
    (∀ (here : Moment) (token : String) (w : Simple), here.tokens[here.pos]? = some token →
      here.scope.words.sense token = .primitive (.simple w) →
      ((∃ f k t, here.Breaks ⟨.failed f, k⟩ t ∧ f.cause.kind = .stackUnderflow) ↔
        here.scope.stack.length < w.operands)) ∧
    ∀ (limit : Nat) (loop : Option Int) (tokens : List String) (s s' : Scope Empty) (f : Failure),
      interpretWithin limit loop tokens s = .error (.failed f) s' → f.cause.kind = .stackUnderflow →
      s'.stack = [] ∧ ∃ outer here token p k journal, Reaches limit loop tokens s outer here ∧
        here.tokens[here.pos]? = some token ∧ here.scope.words.sense token = .primitive p ∧
        here.scope.stack.length < p.operands ∧
        here.Breaks ⟨.failed ⟨.stackUnderflow, []⟩, k⟩ { here.scope with stack := [] } ∧
        s'.toMachine = { here.scope.toMachine with stack := [], journal } := by
  constructor
  · intro here token w ht hs
    exact Moment.simple_underflow_iff ht hs
  · intro limit loop tokens s s' f h hf
    obtain ⟨outer, here, g, k, t, hr, hb, hg, journal, hm⟩ :=
      reaches_of_interpretWithin h (by rw [hf]; decide)
    obtain ⟨rfl, rfl, token, p, ht, hs, hlt⟩ := hb.underflow (by rw [hg, hf])
    exact ⟨by rw [hm], outer, here, token, p, k, journal, hr, ht, hs, hlt, hb, hm⟩

/-- In a loop, an addition finds one cell: it takes that cell away before it fails. -/
theorem underflow_leaves_empty_stack_in_loop :
    let tokens := ["7", "1", "do", "+", "loop"]
    let s : Scope Empty := ⟨bootMachine, []⟩
    ∃ f s', interpretWithin 2 none tokens s = .error (.failed f) s' ∧
      f = ⟨.stackUnderflow, [">>+<<", "+ >>loop<<"]⟩ ∧ f.cause.kind = .stackUnderflow ∧ s'.stack = [] := by
  intro tokens s
  have hr : raised? (interpretWithin 2 none tokens s) =
      some (.failed ⟨.stackUnderflow, [">>+<<", "+ >>loop<<"]⟩) := by decide +kernel
  obtain ⟨s', hs'⟩ := raised?_eq_some.1 hr
  obtain ⟨-, hrun⟩ := underflow_leaves_empty_stack
  exact ⟨_, s', hs', rfl, rfl, (hrun 2 none tokens _ s' _ hs' rfl).1⟩

end Forth
