import Forth.Proofs.Lockstep
import Forth.Standard

/-!
# Words that nothing mentions

Which word a token stands for is looked up when the token is evaluated, and all tokens come from the program or
from the bodies of definitions. So a word whose name is in neither makes no difference: the program takes the
same course without it, and the word stands in the dictionary where it was put in
(`interpretWithin_insertAt`).
-/
namespace Forth

open Machine

namespace Dictionary

/-- The dictionary with a word put in behind its first `i` words. -/
def insertAt (d : Dictionary Empty) (i : Nat) (w : Word Empty) : Dictionary Empty :=
  ⟨d.words.take i ++ w :: d.words.drop i⟩

/-- The name is new, and no body holds it. -/
def Unused (d : Dictionary Empty) (name : String) : Prop :=
  d.contains name = false ∧ ∀ w ∈ d.words, name ∉ w.body

instance (d : Dictionary Empty) (name : String) : Decidable (d.Unused name) :=
  inferInstanceAs (Decidable (_ ∧ _))

variable {d d' : Dictionary Empty} {i : Nat} {v w : Word Empty} {token : String}

/-- Other words are found as before. -/
theorem find?_insertAt (h : token ≠ w.name) : (d.insertAt i w).find? token = d.find? token := by
  have hw : (w.name == token) = false := by simpa using fun e : w.name = token => h e.symm
  have hsplit : d.find? token = (d.words.take i ++ d.words.drop i).find? fun v => v.name == token := by
    rw [List.take_append_drop]
    rfl
  rw [hsplit]
  simp only [insertAt, find?, List.find?_append, List.find?_cons, hw]

theorem contains_insertAt (h : token ≠ w.name) : (d.insertAt i w).contains token = d.contains token := by
  rw [contains, contains, find?_insertAt h]

theorem sense_insertAt (h : token ≠ w.name) : (d.insertAt i w).sense token = d.sense token := by
  rw [sense, sense, find?_insertAt h]

/-- A word that is added under another name comes last, with or without the one put in. -/
theorem add_insertAt (hi : i ≤ d.size) (hv : v.name ≠ w.name) :
    (d.insertAt i w).add v = (d.add v).map (·.insertAt i w) := by
  unfold add
  rw [contains_insertAt hv]
  split
  · rfl
  · simp [insertAt, Except.map, List.take_append_of_le_length hi, List.drop_append_of_le_length hi]

/-- A word is added under a new name, and put in behind all the others. -/
theorem add_eq_ok_iff :
    d.add w = .ok d' ↔ d.contains w.name = false ∧ d' = d.insertAt d.size w := by
  have hlast : d.insertAt d.size w = ⟨d.words ++ [w]⟩ := by simp [insertAt, size]
  rw [hlast]
  unfold add
  cases d.contains w.name <;> simp [eq_comm]

theorem Unused.add {name : String} (h : d.Unused name) (hv : v.name ≠ name) (hbody : name ∉ v.body)
    (ha : d.add v = .ok d') : d'.Unused name := by
  refine ⟨?_, fun u hu => ?_⟩
  · rw [contains, find?_add ha, if_neg hv.symm]
    exact h.1
  · rw [words_add ha, List.mem_append, List.mem_singleton] at hu
    rcases hu with hu | rfl
    · exact h.2 u hu
    · exact hbody

/-- What a token stands for does not hold the name. -/
theorem Unused.ne_of_sense {name : String} {body : List String} (h : d.Unused name)
    (hs : d.sense token = .definition body) : ∀ t ∈ body, t ≠ name := by
  have hcode : (d.sense token).code? = some (.definition body) := by
    rw [hs]
    rfl
  obtain ⟨u, hu, hc⟩ := find?_of_sense hcode
  have hname := h.2 u (List.mem_of_find?_eq_some hu)
  rw [Word.body, hc] at hname
  rintro t ht rfl
  exact hname ht

end Dictionary

/-- The second machine is the first with a word put in that nothing in it mentions. -/
def Inserted (i : Nat) (w : Word Empty) (m m' : Machine Empty) : Prop :=
  m' = { m with words := m.words.insertAt i w } ∧ i ≤ m.words.size ∧ m.words.Unused w.name

section Inserted

variable {i : Nat} {w : Word Empty} {m m' : Machine Empty}

theorem Inserted.stack_eq (h : Inserted i w m m') : m'.stack = m.stack := by rw [h.1]

theorem Inserted.with_stack (h : Inserted i w m m') (stack : Stack) :
    Inserted i w { m with stack } { m' with stack } := by
  obtain ⟨rfl, hi, hw⟩ := h
  exact ⟨rfl, hi, hw⟩

theorem Inserted.console_eq (h : Inserted i w m m') : m'.console = m.console := by rw [h.1]

theorem Inserted.with_console (h : Inserted i w m m') (console : Console) :
    Inserted i w { m with console } { m' with console } := by
  obtain ⟨rfl, hi, hw⟩ := h
  exact ⟨rfl, hi, hw⟩

/-- The invariant of two runs that both know all the words but one, which neither comes across. -/
theorem lockstep_inserted (i : Nat) (w : Word Empty) :
    LockstepOn (· ≠ w.name) (Inserted i w) fun _ => False where
  memory h := by rw [h.1]
  push := .push Inserted.stack_eq Inserted.with_stack
  pop := .pop Inserted.stack_eq Inserted.with_stack trivial
  put := by
    rintro m _ ⟨rfl, hi, hw⟩ j n
    exact ⟨rfl, hi, hw⟩
  emit _ := .emit Inserted.console_eq Inserted.with_console trivial _
  readLine := .readLine Inserted.console_eq Inserted.with_console fun _ => trivial
  cause _ := trivial
  sense h ht := by
    rw [h.1]
    exact Dictionary.sense_insertAt ht
  contains h ht := by
    rw [h.1]
    exact Dictionary.contains_insertAt ht
  body h hs := h.2.2.ne_of_sense hs
  define := by
    rintro name effect body hne m _ ⟨rfl, hi, hw⟩
    have hname : name ≠ w.name := hne name List.mem_cons_self
    have hbody : w.name ∉ body := fun hmem => hne _ (List.mem_cons_of_mem _ hmem) rfl
    simp only [define, Dictionary.add_insertAt (v := ⟨name, effect, .definition body⟩) hi hname]
    cases ha : m.words.add ⟨name, effect, .definition body⟩ with
    | error c => exact .inr ⟨rfl, trivial, rfl, hi, hw⟩
    | ok words =>
      have hunused : words.Unused w.name := hw.add (v := ⟨name, effect, .definition body⟩) hname hbody ha
      refine ⟨rfl, rfl, ?_, hunused⟩
      rw [Machine.note, Dictionary.size, Dictionary.words_add ha, List.length_append]
      exact Nat.le_add_right_of_le hi
  note := by
    rintro m _ ⟨rfl, hi, hw⟩ e
    exact ⟨rfl, hi, hw⟩
  inspects h _ _ _ _ hn := hn.stack_eq
  context h := h.elim
  bye := id

end Inserted

def Scope.insertAt (i : Nat) (w : Word Empty) (s : Scope Empty) : Scope Empty :=
  { s with words := s.words.insertAt i w }

def resultWith (i : Nat) (w : Word Empty) :
    EStateM.Result Abort (Scope Empty) Unit → EStateM.Result Abort (Scope Empty) Unit
  | .ok u s => .ok u (s.insertAt i w)
  | .error a s => .error a (s.insertAt i w)

theorem Beside.eq_insertAt {i : Nat} {w : Word Empty} {s s' : Scope Empty}
    (h : Beside (Inserted i w) s s') : s' = s.insertAt i w := by
  obtain ⟨m', vars⟩ := s'
  obtain ⟨⟨hm, -⟩, hv⟩ := h
  cases hm
  cases hv
  rfl

/-- A word is added that is mentioned neither in the program nor in any body. The program comes to the same
end, with the same report, in the same state; the dictionary has the new word behind those it had before, and
does not know the name without it. -/
theorem interpretWithin_insertAt (limit : Nat) (loop : Option Int) {tokens : List String}
    {s : Scope Empty} {w : Word Empty} {words : Dictionary Empty} (hadd : s.words.add w = .ok words)
    (htokens : w.name ∉ tokens) (hbodies : ∀ v ∈ s.words.words, w.name ∉ v.body) :
    interpretWithin limit loop tokens { s with words } =
        resultWith s.words.size w (interpretWithin limit loop tokens s) ∧
      s.words.size ≤ (finish (interpretWithin limit loop tokens s)).words.size ∧
      (finish (interpretWithin limit loop tokens s)).words.contains w.name = false := by
  obtain ⟨hnew, rfl⟩ := Dictionary.add_eq_ok_iff.1 hadd
  have hunused : s.words.Unused w.name := ⟨hnew, hbodies⟩
  have hbeside : Beside (Inserted s.words.size w) s (s.insertAt s.words.size w) :=
    ⟨⟨rfl, Nat.le_refl _, hunused⟩, rfl⟩
  have htoken : ∀ t ∈ tokens, t ≠ w.name := by
    rintro t ht rfl
    exact htokens ht
  have halike := (lockstep_inserted s.words.size w).interpretWithin_alike limit loop htoken hbeside
  change interpretWithin limit loop tokens (s.insertAt s.words.size w) = _ ∧ _
  obtain ⟨u, t, t', hx, hy, ht⟩ | ⟨a, t, t', hx, hy, -, ht⟩ | ⟨-, -, -, h⟩ := halike.cases
  · rw [hx, hy, ht.eq_insertAt]
    exact ⟨rfl, ht.1.2.1, ht.1.2.2.1⟩
  · rw [hx, hy, ht.eq_insertAt]
    exact ⟨rfl, ht.1.2.1, ht.1.2.2.1⟩
  · exact h.elim

/-- A word that calls itself for ever does no harm to a program that does not call it. Words that the program
defines come behind it. -/
theorem unmentioned_forever :
    let s : Scope Empty := ⟨bootMachine, []⟩
    let w : Word Empty := ⟨"forever", "", .definition ["forever"]⟩
    let tokens := [":", "twice", "dup", "+", ";", "3", "twice"]
    s.words.add w = .ok (s.words.insertAt s.words.size w) ∧ w.name ∉ tokens ∧
      (∀ v ∈ s.words.words, w.name ∉ v.body) ∧
      interpretWithin 2 none tokens { s with words := s.words.insertAt s.words.size w } =
        resultWith s.words.size w (interpretWithin 2 none tokens s) ∧
      (finish (interpretWithin 2 none tokens
        { s with words := s.words.insertAt s.words.size w })).words.names.drop s.words.size =
          ["forever", "twice"] ∧
      (finish (interpretWithin 2 none tokens s)).stack = [6] := by
  intro s w tokens
  have hadd : s.words.add w = .ok (s.words.insertAt s.words.size w) :=
    Dictionary.add_eq_ok_iff.2 ⟨by decide, rfl⟩
  have htokens : w.name ∉ tokens := by decide
  have hbodies : ∀ v ∈ s.words.words, w.name ∉ v.body := by decide
  obtain ⟨hrun, -, -⟩ := interpretWithin_insertAt 2 none hadd htokens hbodies
  exact ⟨hadd, htokens, hbodies, hrun, by decide +kernel, by decide +kernel⟩

end Forth
