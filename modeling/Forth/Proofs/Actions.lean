import Forth.Proofs.Input
import Forth.Proofs.Output

/-!
# What the simple words depend on

Two runs of a simple word go alike if their machines look alike to it: `Keeps` says so for any relation of
machines that the basic actions respect. An invariant is such a relation of a machine to itself. Along with
it goes what can be raised: some troubles come from the console, some from numbers that are too long, and all
others are classified failures. Some troubles may excuse the second run from everything.
-/
namespace Forth

open Machine

/-- The same outcome, in related states. What is raised has `T`, unless it has `X`: then the second run may
do as it likes. -/
def Alike {ε σ α : Type} (R : σ → σ → Prop) (T X : ε → Prop) :
    EStateM.Result ε σ α → EStateM.Result ε σ α → Prop
  | .ok x s, .ok y s' => x = y ∧ R s s'
  | .error e s, .error e' s' => X e ∨ e = e' ∧ T e ∧ R s s'
  | .error e _, .ok _ _ => X e
  | .ok _ _, .error _ _ => False

/-- From related states an action comes to related states, with the same outcome. -/
def Keeps {ε σ α : Type} (R : σ → σ → Prop) (T X : ε → Prop) (a : EStateM ε σ α) : Prop :=
  ∀ m m', R m m' → Alike R T X (a m) (a m')

/-- A relation that the basic actions respect but for reading, with the troubles that they raise under it. Any
cause is tame that is not for the outermost evaluation alone to raise. -/
structure Secluded (R : Machine Empty → Machine Empty → Prop) (T X : Trouble → Prop) : Prop where
  memory : ∀ {m m'}, R m m' → m'.memory = m.memory
  push : ∀ n, Keeps R T X (push n)
  pop : Keeps R T X pop
  put : ∀ {m m'}, R m m' → ∀ i n,
    R { m with memory := m.memory.put i n } { m' with memory := m.memory.put i n }
  emit : ∀ {t}, Uttered t → Keeps R T X (emit t)
  cause : ∀ {c : Cause}, c.kind ≠ .returnStackOverflow → T (.cause c)

structure Tame (R : Machine Empty → Machine Empty → Prop) (T X : Trouble → Prop) : Prop
    extends Secluded R T X where
  readLine : Keeps R T X readLine

theorem Alike.excused {ε σ α : Type} {R : σ → σ → Prop} {T X : ε → Prop} {e : ε} (h : X e) (s : σ)
    (r : EStateM.Result ε σ α) : Alike R T X (.error e s) r := by
  cases r with
  | ok y s' => exact h
  | error e' s' => exact .inl h

/-- Either both runs succeed, or both fail, or the first fails in a way that excuses the second. -/
theorem Alike.cases {ε σ α : Type} {R : σ → σ → Prop} {T X : ε → Prop} {r r' : EStateM.Result ε σ α}
    (h : Alike R T X r r') :
    (∃ x s s', r = .ok x s ∧ r' = .ok x s' ∧ R s s') ∨
      (∃ e s s', r = .error e s ∧ r' = .error e s' ∧ T e ∧ R s s') ∨
      ∃ e s, r = .error e s ∧ X e := by
  cases r with
  | ok x s =>
    cases r' with
    | ok y s' =>
      obtain ⟨rfl, hs⟩ := h
      exact .inl ⟨x, s, s', rfl, rfl, hs⟩
    | error e' s' => exact h.elim
  | error e s =>
    cases r' with
    | ok y s' => exact .inr (.inr ⟨e, s, rfl, h⟩)
    | error e' s' =>
      obtain hx | ⟨rfl, ht, hs⟩ := h
      · exact .inr (.inr ⟨e, s, rfl, hx⟩)
      · exact .inr (.inl ⟨e, s, s', rfl, rfl, ht, hs⟩)

section Sequencing

variable {ε σ α β : Type} {R : σ → σ → Prop} {T X : ε → Prop}

theorem Keeps.pure (x : α) : Keeps R T X (Pure.pure x : EStateM ε σ α) := fun _ _ h => ⟨rfl, h⟩

theorem Keeps.throw {t : ε} (h : T t) : Keeps R T X (MonadExcept.throw t : EStateM ε σ α) :=
  fun _ _ hm => .inr ⟨rfl, h, hm⟩

/-- Runs that go alike up to some point, and from there on, go alike. -/
theorem Alike.bind {a a' : EStateM ε σ α} {f f' : α → EStateM ε σ β} {m m' : σ}
    (ha : Alike R T X (a m) (a' m'))
    (hf : ∀ x n n', R n n' → Alike R T X (f x n) (f' x n')) :
    Alike R T X ((a >>= f) m) ((a' >>= f') m') := by
  simp only [Bind.bind, EStateM.bind]
  obtain ⟨x, n, n', hx, hy, hn⟩ | ⟨e, n, n', hx, hy, ht, hn⟩ | ⟨e, n, hx, hexcused⟩ := ha.cases
  · rw [hx, hy]
    exact hf x n n' hn
  · rw [hx, hy]
    exact .inr ⟨rfl, ht, hn⟩
  · rw [hx]
    exact .excused hexcused n _

theorem Keeps.bind {a : EStateM ε σ α} {f : α → EStateM ε σ β} (ha : Keeps R T X a)
    (hf : ∀ x, Keeps R T X (f x)) : Keeps R T X (a >>= f) :=
  fun m m' hm => .bind (ha m m' hm) hf

/-- Looking at the state changes nothing; related states have to look the same. -/
theorem Keeps.get {f : σ → EStateM ε σ β} (hf : ∀ m m', R m m' → f m' = f m)
    (h : ∀ m, Keeps R T X (f m)) : Keeps R T X (MonadState.get >>= f) := by
  intro m m' hm
  change Alike R T X (f m m) (f m' m')
  rw [hf m m' hm]
  exact h m m m' hm

theorem Keeps.modify {f : σ → σ} (hf : ∀ m m', R m m' → R (f m) (f m')) :
    Keeps R T X (modify f : EStateM ε σ Unit) := fun m m' hm => ⟨rfl, hf m m' hm⟩

end Sequencing

section Rules

variable {R : Machine Empty → Machine Empty → Prop} {T X : Trouble → Prop}

/-- Machines with the same stack have the same cell pushed. -/
theorem Keeps.push (hs : ∀ {m m'}, R m m' → m'.stack = m.stack)
    (hr : ∀ {m m'}, R m m' → ∀ stack, R { m with stack } { m' with stack }) (n : Int) :
    Keeps R T X (push n) := by
  intro m m' hm
  unfold Machine.push
  rw [hs hm]
  exact ⟨rfl, hr hm _⟩

/-- Machines with the same stack have the same cell popped. -/
theorem Keeps.pop (hs : ∀ {m m'}, R m m' → m'.stack = m.stack)
    (hr : ∀ {m m'}, R m m' → ∀ stack, R { m with stack } { m' with stack })
    (hc : T (.cause .stackUnderflow)) : Keeps R T X pop := by
  intro m m' hm
  unfold Machine.pop
  rw [hs hm]
  cases m.stack with
  | nil => exact .inr ⟨rfl, hc, hm⟩
  | cons n below => exact ⟨rfl, hr hm below⟩

/-- Machines with the same console write the same. -/
theorem Keeps.emit (hc : ∀ {m m'}, R m m' → m'.console = m.console)
    (hr : ∀ {m m'}, R m m' → ∀ console, R { m with console } { m' with console })
    (hf : T (.fault .unsupported)) (t : String) : Keeps R T X (emit t) := by
  intro m m' hm
  unfold Machine.emit
  rw [hc hm]
  split
  · exact ⟨rfl, hm⟩
  · split
    · exact ⟨rfl, hr hm _⟩
    · exact .inr ⟨rfl, hf, hm⟩

/-- Machines with the same console read the same. -/
theorem Keeps.readLine (hc : ∀ {m m'}, R m m' → m'.console = m.console)
    (hr : ∀ {m m'}, R m m' → ∀ console, R { m with console } { m' with console })
    (hf : ∀ f, T (.fault f)) : Keeps R T X readLine := by
  intro m m' hm
  unfold Machine.readLine
  rw [hc hm]
  split
  · exact ⟨rfl, hr hm _⟩
  · exact .inr ⟨rfl, hf _, hr hm _⟩

end Rules

namespace Secluded

variable {R : Machine Empty → Machine Empty → Prop} {T X : Trouble → Prop} (h : Secluded R T X)

include h

theorem binary (f : Int → Int → Int) : Keeps R T X (binary f) :=
  .bind h.pop fun _ => .bind h.pop fun _ => h.push _

theorem divide (part : Int × Int → Int) : Keeps R T X (divide part) := by
  refine .bind h.pop fun b => .bind h.pop fun a => ?_
  cases Cell.divMod? a b with
  | none => exact .throw (h.cause (by simp))
  | some qr => exact h.push _

theorem emit? (hd : T (.fault .digitLimit)) {t : Option String} (ht : ∀ {t'}, t = some t' → Uttered t') :
    Keeps R T X (emit? t) := by
  cases t with
  | none => exact .throw hd
  | some t => exact h.emit (ht rfl)

theorem check (hd : T (.fault .digitLimit)) (mem : Memory) (a : Int) {t : Trouble}
    (ht : mem.check a = .error t) : T t := by
  unfold Memory.check at ht
  split at ht
  · cases ht
  · split at ht <;> cases ht
    · exact hd
    · exact h.cause (by simp)

theorem fetch (hd : T (.fault .digitLimit)) (a : Int) : Keeps R T X (fetch a) := by
  intro m m' hm
  unfold Machine.fetch Memory.fetch
  rw [h.memory hm]
  cases hc : m.memory.check a with
  | ok i => exact ⟨rfl, hm⟩
  | error t => exact .inr ⟨rfl, h.check hd _ _ hc, hm⟩

theorem store (hd : T (.fault .digitLimit)) (a n : Int) : Keeps R T X (store a n) := by
  intro m m' hm
  unfold Machine.store
  rw [h.memory hm]
  cases hc : m.memory.check a with
  | ok i => exact ⟨rfl, h.put hm i n⟩
  | error t => exact .inr ⟨rfl, h.check hd _ _ hc, hm⟩

end Secluded

namespace Tame

variable {R : Machine Empty → Machine Empty → Prop} {T X : Trouble → Prop} (h : Tame R T X)

include h

theorem readCell (accept : String → Option Int) (n : Nat) : Keeps R T X (readCell accept n) := by
  induction n with
  | zero => exact .throw (h.cause (by simp))
  | succ n ih =>
    refine .bind h.readLine fun line => ?_
    cases line with
    | none => exact .throw (h.cause (by simp))
    | some line =>
      by_cases hl : line.isEmpty = true
      · simp only [hl, if_true]
        exact .bind (h.emit .inputEmpty) fun _ => ih
      · simp only [hl]
        cases accept line with
        | none => exact .bind (h.emit .notNumber) fun _ => ih
        | some k => exact .pure k

/-- The consoles need not have the same number of lines to come: a bound will do that is above both. -/
theorem pushInput (accept : String → Option Int) : Keeps R T X (pushInput accept) := by
  intro m m' hm
  let n := m.console.source.remaining + m'.console.source.remaining + 1
  rw [pushInput_eq accept (show m.console.source.remaining < n by omega),
    pushInput_eq accept (show m'.console.source.remaining < n by omega)]
  have hkeeps : Keeps R T X (do Machine.push (← Forth.readCell accept n)) :=
    .bind (h.readCell accept n) fun _ => h.push _
  exact hkeeps m m' hm

end Tame

/-- The words that write a cell as text, if only in a complaint. -/
def Simple.Spells : Simple → Prop
  | .print | .printStack | .memoryFetch | .memoryStore => True
  | _ => False

/-- The words that look at the whole stack. -/
def Simple.Inspects : Simple → Prop
  | .depth | .isEmpty | .printStack => True
  | _ => False

/-- The words that read no input. -/
theorem Simple.keeps_secluded {R : Machine Empty → Machine Empty → Prop}
    {T X : Trouble → Prop} (h : Secluded R T X) (w : Simple) (hw : w.accepts? = none)
    (hd : w.Spells → T (.fault .digitLimit))
    (hs : w.Inspects → ∀ {m m'}, R m m' → m'.stack = m.stack) : Keeps R T X w.act := by
  cases w with
  | dup => exact .bind h.pop fun _ => .bind (h.push _) fun _ => h.push _
  | drop => exact .bind h.pop fun _ => .pure _
  | swap => exact .bind h.pop fun _ => .bind h.pop fun _ => .bind (h.push _) fun _ => h.push _
  | «over» =>
    exact .bind h.pop fun _ => .bind h.pop fun _ =>
      .bind (h.push _) fun _ => .bind (h.push _) fun _ => h.push _
  | rot =>
    exact .bind h.pop fun _ => .bind h.pop fun _ => .bind h.pop fun _ =>
      .bind (h.push _) fun _ => .bind (h.push _) fun _ => h.push _
  | depth => exact .get (fun m m' hm => by simp only [hs trivial hm]) fun _ => h.push _
  | isEmpty => exact .get (fun m m' hm => by simp only [hs trivial hm]) fun _ => h.push _
  | add => exact h.binary _
  | sub => exact h.binary _
  | mul => exact h.binary _
  | div => exact h.divide _
  | mod => exact h.divide _
  | eq => exact h.binary _
  | gt => exact h.binary _
  | lt => exact h.binary _
  | both => exact h.binary _
  | either => exact h.binary _
  | printChar => exact .bind h.pop fun _ => h.emit (.char _)
  | print =>
    refine .bind h.pop fun n => ?_
    unfold Machine.writeNumber
    -- the text is given a name, so that no bound on numbers is evaluated
    generalize ht : Numeral.text? n = t
    exact h.emit? (hd trivial) fun heq => .number (ht.trans heq)
  | printStack =>
    exact .get (fun m m' hm => by simp only [hs trivial hm]) fun _ => h.emit? (hd trivial) .listing
  | readChar => cases hw
  | readNumber => cases hw
  | memoryFetch => exact .bind h.pop fun _ => .bind (h.fetch (hd trivial) _) fun _ => h.push _
  | memoryStore => exact .bind h.pop fun _ => .bind h.pop fun _ => h.store (hd trivial) _ _
  | memorySize => exact .get (fun m m' hm => by simp only [h.memory hm]) fun _ => h.push _

theorem Simple.keeps {R : Machine Empty → Machine Empty → Prop}
    {T X : Trouble → Prop} (h : Tame R T X) (w : Simple)
    (hd : w.Spells → T (.fault .digitLimit))
    (hs : w.Inspects → ∀ {m m'}, R m m' → m'.stack = m.stack) : Keeps R T X w.act := by
  cases hw : w.accepts? with
  | none => exact w.keeps_secluded h.toSecluded hw hd hs
  | some accept =>
    rw [Simple.act_of_accepts hw]
    exact h.pushInput accept

end Forth
