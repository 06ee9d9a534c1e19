import Forth.Standard
import Forth.Proofs.Lockstep

/-!
# What lies below on the stack

A program that does not run out of cells uses none of those that lie below. With more cells below, it takes
the same course, comes to the same end and leaves them there (`interpretWithin_over`). That holds of all
dictionaries without the three words that look at the whole stack.
-/
namespace Forth

open Machine

/-- The machine with more cells below those on its stack. -/
def Machine.over (base : Stack) (m : Machine Empty) : Machine Empty :=
  { m with stack := m.stack ++ base }

def Scope.over (base : Stack) (s : Scope Empty) : Scope Empty := ⟨s.toMachine.over base, s.vars⟩

def resultOver (base : Stack) :
    EStateM.Result Abort (Scope Empty) Unit → EStateM.Result Abort (Scope Empty) Unit
  | .ok u s => .ok u (s.over base)
  | .error a s => .error a (s.over base)

/-- No word looks at the whole stack. -/
def Dictionary.Local (d : Dictionary Empty) : Prop :=
  ∀ word ∈ d.words, word.code ≠ .primitive (.simple .depth) ∧
    word.code ≠ .primitive (.simple .isEmpty) ∧ word.code ≠ .primitive (.simple .printStack)

theorem Dictionary.Local.not_inspects {d : Dictionary Empty} (h : d.Local) {token : String}
    {w : Simple} (hs : d.sense token = .primitive (.simple w)) : ¬ w.Inspects := by
  have hcode : (d.sense token).code? = some (.primitive (.simple w)) := by
    rw [hs]
    rfl
  obtain ⟨word, hfind, hw⟩ := find?_of_sense hcode
  obtain ⟨hdepth, hempty, hprint⟩ := h word (List.mem_of_find?_eq_some hfind)
  rw [hw] at hdepth hempty hprint
  intro hi
  cases w with
  | depth => exact hdepth rfl
  | isEmpty => exact hempty rfl
  | printStack => exact hprint rfl
  | _ => exact hi

/-- A definition is no word that looks at the stack. -/
theorem Dictionary.Local.add {d d' : Dictionary Empty} (h : d.Local) {name effect : String}
    {body : List String} (ha : d.add ⟨name, effect, .definition body⟩ = .ok d') : d'.Local := by
  intro word hmem
  rw [words_add ha, List.mem_append, List.mem_singleton] at hmem
  rcases hmem with hmem | rfl
  · exact h word hmem
  · exact ⟨by simp, by simp, by simp⟩

/-- The second machine is the first with more cells below, and no word looks at them. -/
def Over (base : Stack) (m m' : Machine Empty) : Prop := m' = m.over base ∧ m.words.Local

/-- The end for want of cells. -/
def Halt.Underflow : Halt → Prop
  | .failed f => f.cause = .stackUnderflow
  | _ => False

section Over

variable {base : Stack}

theorem Over.console_eq {m m' : Machine Empty} (h : Over base m m') : m'.console = m.console := by
  rw [h.1]
  rfl

theorem Over.with_console {m m' : Machine Empty} (h : Over base m m') (console : Console) :
    Over base { m with console } { m' with console } := by
  obtain ⟨rfl, hlocal⟩ := h
  exact ⟨rfl, hlocal⟩

/-- Words that take cells from the stack do not see those below, unless they find too few. -/
theorem lockstep_over (base : Stack) : Lockstep (Over base) Halt.Underflow where
  memory := by
    rintro m _ ⟨rfl, -⟩
    rfl
  push := by
    rintro n m _ ⟨rfl, hlocal⟩
    exact ⟨rfl, rfl, hlocal⟩
  pop := by
    rintro ⟨stack, memory, words, console, journal⟩ _ ⟨rfl, hlocal⟩
    cases stack with
    | nil =>
      change Alike _ _ _ (.error (Trouble.cause .stackUnderflow) _) _
      refine .excused ?_ _ _
      exact rfl
    | cons n below => exact ⟨rfl, rfl, hlocal⟩
  put := by
    rintro m _ ⟨rfl, hlocal⟩ i n
    exact ⟨rfl, hlocal⟩
  emit _ := .emit Over.console_eq Over.with_console trivial _
  readLine := .readLine Over.console_eq Over.with_console fun _ => trivial
  cause _ := trivial
  words := by
    rintro m _ ⟨rfl, -⟩
    rfl
  define := by
    rintro m _ words name effect body ⟨rfl, hlocal⟩ hadd
    exact ⟨rfl, hlocal.add hadd⟩
  note := by
    rintro m _ ⟨rfl, hlocal⟩ e
    exact ⟨rfl, hlocal⟩
  inspects hm hs hi := absurd hi (hm.2.not_inspects hs)
  context hf _ := hf
  bye := id

theorem Beside.eq_over {s s' : Scope Empty} (h : Beside (Over base) s s') : s' = s.over base := by
  obtain ⟨m', vars⟩ := s'
  obtain ⟨⟨hm, -⟩, hv⟩ := h
  cases hm
  cases hv
  rfl

end Over

/-- A program that does not end for want of cells comes to the same end, with the same report, when there are
more cells below, and leaves these as they are. -/
theorem interpretWithin_over (limit : Nat) (loop : Option Int) (tokens : List String) (base : Stack)
    {s : Scope Empty} (hlocal : s.words.Local)
    (hrun : ∀ f s', interpretWithin limit loop tokens s = .error (.failed f) s' →
      f.cause ≠ .stackUnderflow) :
    interpretWithin limit loop tokens (s.over base) =
      resultOver base (interpretWithin limit loop tokens s) := by
  have hbeside : Beside (Over base) s (s.over base) := ⟨⟨rfl, hlocal⟩, rfl⟩
  have halike := (lockstep_over base).evaluate_alike limit loop tokens hbeside
  unfold interpretWithin
  obtain ⟨u, t, t', hx, hy, ht⟩ | ⟨e, t, t', hx, hy, -, ht⟩ | ⟨e, t, hx, hunder⟩ := halike.cases
  · rw [hx, hy, ht.eq_over]
    rfl
  · rw [hx, hy, ht.eq_over]
    cases e <;> rfl
  · cases e with
    | failed f =>
      have herror : interpretWithin limit loop tokens s = .error (.failed f)
          { t with toMachine := t.toMachine.note (.evaluationFailed f.report) } := by
        rw [interpretWithin, hx]
      exact absurd hunder (hrun f _ herror)
    | _ => exact hunder.elim

/-- A definition is made and called; then a division by zero takes its operands along, but not what lies
below. -/
theorem division_over_cells :
    let words : Dictionary Empty :=
      ⟨primitiveWords.words.filter fun w => w.name ∉ ["depth", "empty", ".s"]⟩
    let s : Scope Empty := ⟨⟨[4], .zeros 0, words, .ofText "", #[]⟩, []⟩
    let tokens := [":", "double", "dup", "+", ";", "double", "0", "/"]
    words.Local ∧
      (∀ f s', interpretWithin 2 none tokens s = .error (.failed f) s' →
        f.cause ≠ .stackUnderflow) ∧
      interpretWithin 2 none tokens (s.over [7]) = resultOver [7] (interpretWithin 2 none tokens s) ∧
      (finish (interpretWithin 2 none tokens (s.over [7]))).stack = [7] := by
  intro words s tokens
  have hlocal : words.Local := by
    unfold Dictionary.Local
    decide
  have hdivision : raised? (interpretWithin 2 none tokens s) =
      some (.failed ⟨.divisionByZero, ["0 >>/<<"]⟩) := by
    decide +kernel
  have hrun : ∀ f s', interpretWithin 2 none tokens s = .error (.failed f) s' →
      f.cause ≠ .stackUnderflow := by
    intro f s' h
    rw [h] at hdivision
    cases hdivision
    decide
  have hover := interpretWithin_over 2 none tokens [7] hlocal hrun
  refine ⟨hlocal, hrun, hover, ?_⟩
  rw [hover]
  decide +kernel

end Forth
