import Forth.Interpreter
import Forth.Proofs.Actions
import Forth.Proofs.Walk

/-!
# Two runs in lockstep

Two runs take the same course if their machines stay related in a way that every basic action respects. Their
dictionaries need to agree on the tokens only that the runs come across, which are those of the program and
of the bodies. So to compare runs it is enough to compare basic actions: what words, sequences and whole
evaluations do follows from that once and for all (`plan_alike`, `resume_alike`, `evaluate_alike`). A failure
of the first run may excuse the second, and then the second may also nest deeper.
-/
namespace Forth

open Machine

def Trouble.halt : Trouble → Halt
  | .cause c => .failed ⟨c, []⟩
  | .fault f => .fault f

theorem Break.halt_ofTrouble (k : Int) (t : Trouble) : (Break.ofTrouble k t).halt = t.halt := by
  cases t <;> rfl

/-- A relation of machines that all work of words respects as long as all tokens have `P`, with the ends that
excuse the second run. -/
structure LockstepOn (P : String → Prop) (R : Machine Empty → Machine Empty → Prop)
    (X : Halt → Prop) : Prop extends Tame R (fun _ => True) fun t => X t.halt where
  sense : ∀ {m m' token}, R m m' → P token → m'.words.sense token = m.words.sense token
  contains : ∀ {m m' name}, R m m' → P name → m'.words.contains name = m.words.contains name
  body : ∀ {m m' token body}, R m m' → m.words.sense token = .definition body → ∀ t ∈ body, P t
  define : ∀ {name effect body}, (∀ t ∈ name :: body, P t) →
    Keeps R (fun _ => True) (fun t => X t.halt) (define name body effect)
  note : ∀ {m m'}, R m m' → ∀ e, R (m.note e) (m'.note e)
  inspects : ∀ {m m' token w}, R m m' → m.words.sense token = .primitive (.simple w) →
    w.Inspects → ∀ {n n'}, R n n' → n'.stack = n.stack
  context : ∀ {f}, X (.failed f) → ∀ c, X (.failed (f.addContext c))
  bye : ¬ X .bye

structure Lockstep (R : Machine Empty → Machine Empty → Prop) (X : Halt → Prop) : Prop
    extends Tame R (fun _ => True) fun t => X t.halt where
  words : ∀ {m m'}, R m m' → m'.words = m.words
  define : ∀ {m m' words name effect body}, R m m' →
    m.words.add ⟨name, effect, .definition body⟩ = .ok words → R { m with words } { m' with words }
  note : ∀ {m m'}, R m m' → ∀ e, R (m.note e) (m'.note e)
  inspects : ∀ {m m' token w}, R m m' → m.words.sense token = .primitive (.simple w) →
    w.Inspects → ∀ {n n'}, R n n' → n'.stack = n.stack
  context : ∀ {f}, X (.failed f) → ∀ c, X (.failed (f.addContext c))
  bye : ¬ X .bye

/-- Related machines, and the same variables. -/
def Beside (R : Machine Empty → Machine Empty → Prop) (s s' : Scope Empty) : Prop :=
  R s.toMachine s'.toMachine ∧ s'.vars = s.vars

abbrev KeepsStep {α : Type} (R : Machine Empty → Machine Empty → Prop) (X : Halt → Prop)
    (a : Step Empty α) : Prop :=
  Keeps (Beside R) (fun _ => True) (fun b => X b.halt) a

section Steps

variable {α : Type} {R : Machine Empty → Machine Empty → Prop} {X : Halt → Prop}

theorem Keeps.act {a : Action Empty α} (h : Keeps R (fun _ => True) (fun t => X t.halt) a)
    (k : Int) : KeepsStep R X (Step.act k a) := by
  rintro ⟨m, vars⟩ ⟨m', _⟩ ⟨hm, rfl⟩
  simp only [Step.act]
  obtain ⟨x, n, n', hx, hy, hn⟩ | ⟨t, n, n', hx, hy, -, hn⟩ | ⟨t, n, hx, hexcused⟩ :=
    (h m m' hm).cases
  · rw [hx, hy]
    exact ⟨rfl, hn, rfl⟩
  · rw [hx, hy]
    exact .inr ⟨rfl, trivial, hn, rfl⟩
  · rw [hx]
    refine .excused ?_ _ _
    rw [Break.halt_ofTrouble]
    exact hexcused

theorem Keeps.fail (k : Int) (c : Cause) : KeepsStep R X (Step.fail k c : Step Empty α) :=
  .throw trivial

/-- What follows a failure does not matter. -/
theorem Keeps.fail_bind {β : Type} (k : Int) (c : Cause) (f : α → Step Empty β) :
    KeepsStep R X (Step.fail k c >>= f) := fun _ _ hs => .inr ⟨rfl, trivial, hs⟩

theorem Keeps.scanned (r : Except ScanError α) : KeepsStep R X (Step.scanned r) := by
  cases r with
  | ok x => exact .pure x
  | error e => exact .fail _ _

/-- What follows a scan may rely on what was found. -/
theorem Keeps.scanned_bind {β : Type} {r : Except ScanError α} {f : α → Step Empty β}
    (hf : ∀ x, r = .ok x → KeepsStep R X (f x)) : KeepsStep R X (Step.scanned r >>= f) := by
  cases r with
  | ok x => exact fun s s' hs => hf x rfl s s' hs
  | error e => exact .fail_bind _ _ _

/-- What follows an identifier may rely on its being one of the tokens. -/
theorem Keeps.identifier_bind {P : String → Prop} {rest : List String} (hrest : ∀ t ∈ rest, P t)
    {f : String → Step Empty α} (hf : ∀ name, P name → KeepsStep R X (f name)) :
    KeepsStep R X (Lookahead.identifier rest >>= f) := by
  cases rest with
  | nil => exact .fail_bind _ _ _
  | cons name rest => exact fun s s' hs => hf name (hrest name List.mem_cons_self) s s' hs

theorem Keeps.setVariable (name : String) (n : Int) :
    KeepsStep R X (Lookahead.setVariable name n) :=
  .modify fun s s' hs => ⟨hs.1, by simp only [hs.2]⟩

end Steps

/-- Series of inner evaluations go alike if each evaluation does. -/
theorem series_alike {P : String → Prop} {R : Machine Empty → Machine Empty → Prop} {X : Halt → Prop}
    {nested nested' : Nested Empty}
    (hn : ∀ loop tokens m m', (∀ t ∈ tokens, P t) → R m m' →
      Alike R (fun _ => True) X (nested loop tokens m) (nested' loop tokens m'))
    {xs : List Inner} (hxs : ∀ x ∈ xs, ∀ t ∈ x.tokens, P t) {m m' : Machine Empty} (hm : R m m') :
    Alike R (fun _ => True) X (series nested xs m) (series nested' xs m') := by
  induction xs generalizing m m' with
  | nil => exact ⟨rfl, hm⟩
  | cons x xs ih =>
    have hx := hn x.loop x.tokens m m' (hxs x List.mem_cons_self) hm
    exact .bind hx fun _ n n' hn => ih (fun y hy => hxs y (List.mem_cons_of_mem x hy)) hn

namespace LockstepOn

variable {P : String → Prop} {R : Machine Empty → Machine Empty → Prop} {X : Halt → Prop}
  (h : LockstepOn P R X)

include h

section Words

variable {rest : List String} (hrest : ∀ t ∈ rest, P t)

include hrest

theorem variableNamed : KeepsStep R X (Lookahead.variableNamed rest) := by
  refine .identifier_bind hrest fun name hname => .get (fun s s' hs => ?_) fun s => ?_
  · simp only [h.contains hs.1 hname, hs.2]
  · split
    · exact .fail _ _
    · split
      · exact .fail _ _
      · exact .pure _

theorem lookahead_keeps (w : Lookahead) (loop : Option Int) : KeepsStep R X (w.plan loop rest) := by
  cases w with
  | comment => exact .bind (.bind (.scanned _) fun _ => .pure _) fun _ => .pure _
  | say =>
    refine .bind (.bind (.scanned _) fun r => ?_) fun _ => .pure _
    have hsaid := Uttered.said r.1
    simp only
    generalize Text.strip (Text.spaced r.1) = line at hsaid ⊢
    exact .bind (.act (h.emit hsaid) _) fun _ => .pure _
  | colon =>
    refine .bind (.scanned_bind fun inside hscan => ?_) fun _ => .pure _
    simp only
    split
    · exact .fail _ _
    · next head hhead =>
      have hmem : ∀ t ∈ head.name :: head.body, P t := fun t ht =>
        hrest t (Fence.mem_of_scan hscan t (Heading.mem_of_ofTokens hhead t ht))
      refine .get (fun s s' hs => ?_) fun s => ?_
      · simp only [hs.2]
      · split
        · exact .fail_bind _ _ _
        · exact .bind (.act (h.define hmem) _) fun _ => .pure _
  | choose => exact .bind (.scanned _) fun _ => .bind (.act h.pop _) fun _ => .pure _
  | loop => exact .bind (.scanned _) fun _ => .bind (.act h.pop _) fun _ => .pure _
  | declare =>
    refine .bind (.identifier_bind hrest fun name hname => ?_) fun _ => .pure _
    refine .get (fun s s' hs => ?_) fun s => ?_
    · simp only [h.contains hs.1 hname, hs.2]
    · simp only
      split
      · exact .fail_bind _ _ _
      · split
        · exact .fail_bind _ _ _
        · refine .bind (.act h.pop _) fun n => .bind (.setVariable name n) fun _ => ?_
          exact .bind (.modify fun s s' hs => ⟨h.note hs.1 _, hs.2⟩) fun _ => .pure _
  | «recall» =>
    exact .bind (.bind (h.variableNamed hrest) fun _ => .bind (.act (h.push _) _) fun _ => .pure _)
      fun _ => .pure _
  | assign =>
    exact .bind (.bind (h.variableNamed hrest) fun _ => .bind (.act h.pop _) fun _ =>
      .bind (.setVariable _ _) fun _ => .pure _) fun _ => .pure _

/-- The own work of a token is the same in both runs. -/
theorem plan_alike (loop : Option Int) {token : String} (ht : P token) {s s' : Scope Empty}
    (hs : Beside R s s') :
    Alike (Beside R) (fun _ => True) (fun b => X b.halt) (plan loop token rest s)
      (plan loop token rest s') := by
  suffices hkeeps : KeepsStep R X ((s.words.sense token).plan loop token rest) by
    unfold plan
    rw [h.sense hs.1 ht]
    exact hkeeps s s' hs
  cases hw : s.words.sense token with
  | number n => exact .bind (.act (h.push _) _) fun _ => .pure _
  | longNumber => exact .throw trivial
  | unknown => exact .fail _ _
  | definition body => exact .pure _
  | primitive p =>
    cases p with
    | simple w =>
      have hact := w.keeps h.toTame (fun _ => trivial) (h.inspects hs.1 hw)
      exact .bind (.act hact _) fun _ => .pure _
    | lookahead w => exact h.lookahead_keeps hrest w loop
    | index =>
      cases loop with
      | none => exact .fail _ _
      | some k => exact .bind (.act (h.push _) _) fun _ => .pure _
    | bye => exact .throw trivial
    | host w => exact w.elim

omit hrest in
/-- The tokens of inner sequences are among those that the runs may come across. -/
theorem inner_mem {loop : Option Int} {token : String} {s s' t : Scope Empty} {p : Plan}
    (hrest : ∀ t ∈ rest, P t) (hs : Beside R s s') (hp : plan loop token rest s = .ok p t) :
    ∀ x ∈ p.inner, ∀ t ∈ x.tokens, P t := by
  intro x hx
  rcases plan_inner_mem hp x hx with hmem | hbody
  · exact fun t ht => hrest t (hmem t ht)
  · exact h.body hs.1 hbody

end Words

/-! ### Whole evaluations -/

theorem annotate {b : Break} (hb : X b.halt) (tokens : List String) (pos : Int) :
    X (b.annotate tokens pos) := by
  obtain ⟨halt, offset⟩ := b
  cases halt with
  | failed f => exact h.context hb _
  | bye => exact hb
  | fault f => exact hb
  | overflow => exact hb

section Nested

variable {nested nested' : Nested Empty}
  (hn : ∀ loop tokens m m', (∀ t ∈ tokens, P t) → R m m' →
    Alike R (fun _ => True) X (nested loop tokens m) (nested' loop tokens m'))
  {tokens : List String} (htokens : ∀ t ∈ tokens, P t)

include hn htokens

theorem stride_alike (loop : Option Int) {i : Nat} {token : String} (ht : tokens[i]? = some token)
    {s s' : Scope Empty} (hs : Beside R s s') :
    Alike (Beside R) (fun _ => True) X (stride nested loop tokens i token s)
      (stride nested' loop tokens i token s') := by
  have hrest : ∀ t ∈ tokens.drop (i + 1), P t := fun t ht => htokens t (List.mem_of_mem_drop ht)
  have htoken : P token := htokens token (List.mem_of_getElem? ht)
  unfold stride
  obtain ⟨p, t, t', hp, hp', ht⟩ | ⟨b, t, t', hp, hp', -, ht⟩ | ⟨b, t, hp, hexcused⟩ :=
    (h.plan_alike hrest loop htoken hs).cases
  · rw [hp, hp']
    simp only
    obtain ⟨u, m, m', hm, hm', hr⟩ | ⟨e, m, m', hm, hm', -, hr⟩ | ⟨e, m, hm, hexcused⟩ :=
      (series_alike hn (h.inner_mem hrest hs hp) ht.1).cases
    · rw [hm, hm']
      exact ⟨rfl, hr, ht.2⟩
    · rw [hm, hm']
      exact .inr ⟨rfl, trivial, hr, ht.2⟩
    · rw [hm]
      exact .excused (h.annotate hexcused tokens i) _ _
  · rw [hp, hp']
    exact .inr ⟨rfl, trivial, ht⟩
  · rw [hp]
    exact .excused (h.annotate hexcused tokens i) _ _

/-- The two runs of a sequence go alike if those of its inner sequences do. -/
theorem resume_alike (loop : Option Int) (i : Nat) {s s' : Scope Empty} (hs : Beside R s s') :
    Alike (Beside R) (fun _ => True) X (resume nested loop tokens i s)
      (resume nested' loop tokens i s') := by
  induction i using forward_induction tokens generalizing s s' with
  | done i hi =>
    rw [resume_of_le nested loop tokens hi, resume_of_le nested' loop tokens hi]
    exact ⟨rfl, hs⟩
  | next i hi ih =>
    have ht : tokens[i]? = some tokens[i] := List.getElem?_eq_getElem hi
    rw [resume_eq nested loop tokens ht, resume_eq nested' loop tokens ht]
    obtain ⟨j, t, t', hj, hj', hr⟩ | ⟨e, t, t', hj, hj', -, hr⟩ | ⟨e, t, hj, hexcused⟩ :=
      (h.stride_alike hn htokens loop ht hs).cases
    · rw [hj, hj']
      exact ih j (stride_le nested loop tokens hi hj).1 hr
    · rw [hj, hj']
      exact .inr ⟨rfl, trivial, hr⟩
    · rw [hj]
      exact .excused hexcused _ _

end Nested

/-- Out of the variables of an inner sequence nothing comes but what its machine shows. -/
theorem isolated_alike {e e' : Evaluation Empty Unit} {m m' : Machine Empty}
    (he : Alike (Beside R) (fun _ => True) X (e ⟨m, []⟩) (e' ⟨m', []⟩)) :
    Alike R (fun _ => True) X (isolated e m) (isolated e' m') := by
  unfold isolated
  obtain ⟨u, t, t', hx, hy, hr⟩ | ⟨halt, t, t', hx, hy, -, hr⟩ | ⟨halt, t, hx, hexcused⟩ := he.cases
  · rw [hx, hy]
    exact ⟨rfl, hr.1⟩
  · rw [hx, hy]
    cases halt with
    | bye => exact ⟨rfl, hr.1⟩
    | _ => exact .inr ⟨rfl, trivial, hr.1⟩
  · rw [hx]
    cases halt with
    | bye => exact absurd hexcused h.bye
    | _ => exact .excused hexcused _ _

/-- Evaluations go alike. The second may nest deeper if too deep a nesting of the first excuses it. -/
theorem evaluate_alike {limit limit' : Nat} (hle : limit ≤ limit')
    (hlimit : limit = limit' ∨ X .overflow) (loop : Option Int) {tokens : List String}
    (htokens : ∀ t ∈ tokens, P t) {s s' : Scope Empty} (hs : Beside R s s') :
    Alike (Beside R) (fun _ => True) X (evaluate limit loop tokens s)
      (evaluate limit' loop tokens s') := by
  induction limit generalizing limit' loop tokens s s' with
  | zero =>
    rcases hlimit with rfl | hx
    · exact .inr ⟨rfl, trivial, hs⟩
    · exact .excused hx _ _
  | succ limit ih =>
    obtain ⟨limit', rfl⟩ : ∃ k, limit' = k + 1 := ⟨limit' - 1, by omega⟩
    have hsucc : limit = limit' ∨ X .overflow := hlimit.imp_left Nat.succ.inj
    rw [evaluate_succ, evaluate_succ]
    refine h.resume_alike (fun loop tokens m m' htokens hm => ?_) htokens loop 0 hs
    exact h.isolated_alike (ih (by omega) hsucc loop htokens ⟨hm, rfl⟩)

end LockstepOn

/-- Outermost evaluations that nothing excuses go alike. -/
theorem LockstepOn.interpretWithin_alike {P : String → Prop} {R : Machine Empty → Machine Empty → Prop}
    (h : LockstepOn P R fun _ => False) (limit : Nat) (loop : Option Int) {tokens : List String}
    (htokens : ∀ t ∈ tokens, P t) {s s' : Scope Empty} (hs : Beside R s s') :
    Alike (Beside R) (fun _ => True) (fun _ => False) (interpretWithin limit loop tokens s)
      (interpretWithin limit loop tokens s') := by
  have he := h.evaluate_alike (Nat.le_refl limit) (.inl rfl) loop htokens hs
  unfold interpretWithin
  obtain ⟨u, t, t', hx, hy, ht⟩ | ⟨e, t, t', hx, hy, -, ht⟩ | ⟨-, -, -, hexcused⟩ := he.cases
  · rw [hx, hy]
    exact ⟨rfl, ht⟩
  · rw [hx, hy]
    cases e with
    | bye => exact ⟨rfl, ht⟩
    | overflow => exact .inr ⟨rfl, trivial, ht⟩
    | failed f => exact .inr ⟨rfl, trivial, h.note ht.1 _, ht.2⟩
    | fault f => exact .inr ⟨rfl, trivial, ht⟩
  · exact hexcused.elim

namespace Lockstep

variable {R : Machine Empty → Machine Empty → Prop} {X : Halt → Prop} (h : Lockstep R X)

include h

/-- Machines with the same dictionary define the same words. -/
theorem keeps_define (name : String) (body : List String) (effect : String) :
    Keeps R (fun _ => True) (fun t => X t.halt) (Machine.define name body effect) := by
  intro m m' hm
  unfold Machine.define
  rw [h.words hm]
  cases ha : m.words.add ⟨name, effect, .definition body⟩ with
  | error c => exact .inr ⟨rfl, trivial, hm⟩
  | ok words => exact ⟨rfl, h.note (h.define hm ha) _⟩

/-- With the same dictionary, runs may come across any token. -/
theorem lockstepOn : LockstepOn (fun _ => True) R X where
  toTame := h.toTame
  sense hm _ := by rw [h.words hm]
  contains hm _ := by rw [h.words hm]
  body _ _ _ _ := trivial
  define _ := h.keeps_define _ _ _
  note := h.note
  inspects := h.inspects
  context := h.context
  bye := h.bye

theorem evaluate_alike (limit : Nat) (loop : Option Int) (tokens : List String)
    {s s' : Scope Empty} (hs : Beside R s s') :
    Alike (Beside R) (fun _ => True) X (evaluate limit loop tokens s)
      (evaluate limit loop tokens s') :=
  h.lockstepOn.evaluate_alike (Nat.le_refl _) (.inl rfl) loop (fun _ _ => trivial) hs

end Lockstep

end Forth
