import Forth.Proofs.Actions
import Forth.Proofs.Plan
import Forth.Proofs.Tree.Evaluate

/-!
# Trees in a dictionary

A dictionary of definitions as trees corresponds to one that holds the flattened bodies behind the
primitives: names have the same meaning in both. Words that work on stack, memory and console act alike on
the states of the two evaluators.
-/
namespace Forth.Tree

def Definition.word (d : Definition) : Word Empty :=
  ⟨d.name, d.effectText, .definition (flattenAll d.body)⟩

/-- The dictionary that holds the primitives and some definitions. -/
def flatWords (words : List Definition) : Dictionary Empty :=
  ⟨primitiveWords.words ++ words.map Definition.word⟩

/-- The state of the interpreter that stands for a state of the evaluation of trees. The journal is left
open. -/
def State.scope (t : State) (journal : Array Event) : Scope Empty :=
  ⟨⟨t.stack, t.memory, flatWords t.words, t.console, journal⟩, t.vars⟩

/-! ### Names -/

theorem find?_map_primitive (l : List (String × String × Primitive Empty)) (name : String) :
    (l.map fun (name, effect, p) => (⟨name, effect, .primitive p⟩ : Word Empty)).find?
        (fun w => w.name == name) =
      (l.lookup name).map fun (effect, p) => ⟨name, effect, .primitive p⟩ := by
  induction l with
  | nil => rfl
  | cons entry l ih =>
    obtain ⟨other, effect, p⟩ := entry
    by_cases h : other = name
    · subst h
      simp
    · have h' : (name == other) = false := by
        rw [beq_eq_false_iff_ne]
        exact fun e => h e.symm
      simp [List.lookup_cons, h, h', ih]

theorem find?_flatWords (words : List Definition) (name : String) :
    (flatWords words).find? name =
      match standardPrimitives.lookup name with
      | some (effect, p) => some ⟨name, effect, .primitive p⟩
      | none => (definition? words name).map Definition.word := by
  have hd : (words.map Definition.word).find? (fun w => w.name == name) =
      (definition? words name).map Definition.word := by
    rw [List.find?_map]
    rfl
  simp only [flatWords, Dictionary.find?, List.find?_append, primitiveWords, find?_map_primitive, hd]
  cases standardPrimitives.lookup name with
  | none => rfl
  | some entry => rfl

theorem contains_flatWords (words : List Definition) (name : String) :
    (flatWords words).contains name = isWord words name := by
  rw [Dictionary.contains, find?_flatWords, isWord, primitive?]
  cases standardPrimitives.lookup name with
  | none => cases definition? words name <;> rfl
  | some entry => rfl

/-- A name that is no number is a primitive, a definition or unknown. -/
theorem sense_flatWords (words : List Definition) {name : String}
    (h : Numeral.read name = .other) :
    (flatWords words).sense name =
      match primitive? name with
      | some p => .primitive p
      | none =>
        match definition? words name with
        | some d => .definition (flattenAll d.body)
        | none => .unknown := by
  rw [Dictionary.sense, h, find?_flatWords, primitive?]
  cases standardPrimitives.lookup name with
  | none => cases definition? words name <;> rfl
  | some entry => rfl

/-- Definitions are added alike. -/
theorem add_flatWords (words : List Definition) (d : Definition) :
    (flatWords words).add d.word =
      if isWord words d.name then .error (.duplicateDefinition d.name)
      else .ok (flatWords (words ++ [d])) := by
  have hc : (flatWords words).contains d.word.name = isWord words d.name :=
    contains_flatWords words d.name
  rw [Dictionary.add, hc]
  simp [flatWords, Definition.word]

/-! ### Actions -/

/-- The second machine is the first with other words and another journal. -/
def Dressed (words : Dictionary Empty) (journal : Array Event) (m m' : Machine Empty) : Prop :=
  m' = { m with words, journal }

theorem Dressed.stack_eq {words : Dictionary Empty} {journal : Array Event} {m m' : Machine Empty}
    (h : Dressed words journal m m') : m'.stack = m.stack := by
  rw [h]

theorem Dressed.with_stack {words : Dictionary Empty} {journal : Array Event} {m m' : Machine Empty}
    (h : Dressed words journal m m') (stack : Stack) :
    Dressed words journal { m with stack } { m' with stack } := by
  rw [h]
  rfl

theorem Dressed.console_eq {words : Dictionary Empty} {journal : Array Event} {m m' : Machine Empty}
    (h : Dressed words journal m m') : m'.console = m.console := by
  rw [h]

theorem Dressed.with_console {words : Dictionary Empty} {journal : Array Event}
    {m m' : Machine Empty} (h : Dressed words journal m m') (console : Console) :
    Dressed words journal { m with console } { m' with console } := by
  rw [h]
  rfl

theorem tame_dressed (words : Dictionary Empty) (journal : Array Event) :
    Tame (Dressed words journal) (fun _ => True) fun _ => False where
  memory := by
    rintro m _ rfl
    rfl
  push n := .push Dressed.stack_eq Dressed.with_stack n
  pop := .pop Dressed.stack_eq Dressed.with_stack trivial
  put := by
    rintro m _ rfl i n
    rfl
  emit _ := .emit Dressed.console_eq Dressed.with_console trivial _
  readLine := .readLine Dressed.console_eq Dressed.with_console fun _ => trivial
  cause _ := trivial

/-- An action that looks at stack, memory and console alone acts alike on both states. -/
theorem act_scope {a : Action Empty Unit}
    (ha : ∀ words journal, Keeps (Dressed words journal) (fun _ => True) (fun _ => False) a) (t : State)
    (journal : Array Event) :
    (∃ t', a (t.scope journal).toMachine = .ok () (t'.scope journal).toMachine ∧
        act a t = .ok () t' ∧ t'.vars = t.vars) ∨
      ∃ e t', a (t.scope journal).toMachine = .error e (t'.scope journal).toMachine ∧
        act a t = .error (.trouble e) t' ∧ t'.vars = t.vars := by
  have h := ha (flatWords t.words) journal ⟨t.stack, t.memory, .empty, t.console, #[]⟩ _ rfl
  change Alike _ _ _ _ (a (t.scope journal).toMachine) at h
  unfold act
  obtain ⟨u, m, m', hx, hy, rfl⟩ | ⟨e, m, m', hx, hy, -, rfl⟩ | ⟨e, m, hx, hexcused⟩ := h.cases
  · rw [hx, hy]
    exact .inl ⟨_, rfl, rfl, rfl⟩
  · rw [hx, hy]
    exact .inr ⟨e, _, rfl, rfl, rfl⟩
  · exact hexcused.elim

end Forth.Tree
