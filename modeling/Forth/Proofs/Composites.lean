import Forth.Proofs.StackEffects
import Forth.Proofs.Turns
import Forth.Proofs.Tree.Standard

/-!
# The words that are defined in the language

The words that compare, negate and answer questions are programs of the language itself. Their bodies hold words
that nothing can define anew, so they do the same on every dictionary that the standard words grow into
(`Composite.computes`).
-/
namespace Forth

inductive Composite where
  | invert | differs | atLeast | atMost | isZero | nop | negate | abs | isEmpty
  deriving DecidableEq, Repr

namespace Composite

def name : Composite → String
  | .invert => "invert"
  | .differs => "!="
  | .atLeast => ">="
  | .atMost => "<="
  | .isZero => "0="
  | .nop => "nop"
  | .negate => "negate"
  | .abs => "abs"
  | .isEmpty => "empty?"

/-- How many cells the word takes from the stack. -/
def operands : Composite → Nat
  | .differs | .atLeast | .atMost => 2
  | .invert | .isZero | .negate | .abs => 1
  | .nop | .isEmpty => 0

/-- The stack that the name of the word promises, the top cell first; there is none where cells are missing. -/
def result : Composite → Stack → Option Stack
  | .invert, a :: base | .isZero, a :: base => some ((if a = 0 then -1 else 0) :: base)
  | .differs, b :: a :: base => some ((if a ≠ b then -1 else 0) :: base)
  | .atLeast, b :: a :: base => some ((if b ≤ a then -1 else 0) :: base)
  | .atMost, b :: a :: base => some ((if a ≤ b then -1 else 0) :: base)
  | .negate, a :: base => some (-a :: base)
  | .abs, a :: base => some ((a.natAbs : Int) :: base)
  | .isEmpty, stack => some ((if stack = [] then -1 else 0) :: stack)
  | .nop, stack => some stack
  | _, _ => none

def body : Composite → List String
  | .invert => ["0", "=", "if", "-1", "else", "0", "then"]
  | .differs => ["=", "invert"]
  | .atLeast => ["<", "invert"]
  | .atMost => [">", "invert"]
  | .isZero => ["0", "="]
  | .nop => []
  | .negate => ["0", "swap", "-"]
  | .abs => ["dup", "0", "<", "if", "negate", "then"]
  | .isEmpty => ["depth", "0="]

/-- How deep evaluations are nested below that of the word. -/
def nesting : Composite → Nat
  | .isZero | .nop | .negate => 1
  | .invert | .isEmpty => 2
  | .differs | .atLeast | .atMost | .abs => 3

/-- The promise of the word as an effect. -/
def effect (w : Composite) : StackEffect := fun st =>
  match w.result st with
  | some st => .ok () st
  | none => .error .missingCell []

theorem sense_standardWords (w : Composite) : standardWords.sense w.name = .definition w.body := by
  rw [Tree.standardWords_eq]
  cases w <;> decide

variable {P : Word Empty → Prop} {d : Dictionary Empty} {limit : Nat} {loop : Option Int}

theorem result_eq_none_iff (w : Composite) (st : Stack) : w.result st = none ↔ st.length < w.operands := by
  cases w <;> rcases st with _ | ⟨b, _ | ⟨a, base⟩⟩ <;> simp [result, operands]

/-! ### Bodies -/

theorem denotes_zero : Denotes d (limit + 1) loop ["0"] (.push 0) := .number (by decide)

section Bodies

variable (hd : standardWords.Extends P d)

include hd

/-- Words keep their bodies. -/
theorem sense_name (w : Composite) : d.sense w.name = .definition w.body := by
  rw [hd.sense (by rw [w.sense_standardWords]; rfl), w.sense_standardWords]

theorem denotes_simple {token : String} {w : Simple} {e : StackEffect}
    (hw : primitiveWords.sense token = .primitive (.simple w)) (he : w.effect? = some e) :
    Denotes d (limit + 1) loop [token] e :=
  .simple (hd.sense_primitive hw) he

theorem denotes_eq : Denotes d (limit + 1) loop ["="] (.binary fun a b => Cell.flag (a == b)) :=
  denotes_simple hd (w := .eq) (by decide) rfl

theorem denotes_isZero : Denotes d (limit + 1) loop (body .isZero) (effect .isZero) := by
  have hzero : Denotes d (limit + 1) loop ["0"] (.push 0) := denotes_zero
  refine (hzero.append (denotes_eq hd)).congr fun st => ?_
  cases st with
  | nil => rfl
  | cons a base => by_cases ha : a = 0 <;> simp [effect, result, Cell.flag, ha]

theorem denotes_invert : Denotes d (limit + 2) loop (body .invert) (effect .invert) := by
  have hchoose : Denotes d (limit + 2) loop ["if", "-1", "else", "0", "then"]
      (.choose (.push (-1)) (.push 0)) :=
    .choose (b := ⟨["-1"], some ["0"]⟩) (hd.sense_primitive (by decide)) (by decide) rfl
      (.number (by decide)) denotes_zero
  have hbody := denotes_zero.append ((denotes_eq hd).append hchoose)
  refine hbody.congr fun st => ?_
  cases st with
  | nil => rfl
  | cons a base => by_cases ha : a = 0 <;> simp [effect, result, Cell.flag, ha]

/-- A comparison, turned around. -/
theorem denotes_inverted {token : String} {w : Simple} {p : Int → Int → Bool}
    (hw : primitiveWords.sense token = .primitive (.simple w))
    (he : w.effect? = some (.binary fun a b => Cell.flag (p a b))) :
    Denotes d (limit + 3) loop [token, "invert"] (.binary fun a b => Cell.flag (!p a b)) := by
  have hinvert : Denotes d (limit + 3) loop ["invert"] (effect .invert) :=
    .call (sense_name hd .invert) (denotes_invert hd)
  refine ((denotes_simple hd hw he).append hinvert).congr fun st => ?_
  rcases st with _ | ⟨b, _ | ⟨a, base⟩⟩
  · rfl
  · rfl
  · cases hp : p a b <;> simp [effect, result, Cell.flag, hp]

theorem denotes_negate : Denotes d (limit + 1) loop (body .negate) (effect .negate) := by
  have hswap : Denotes d (limit + 1) loop ["swap"] _ := denotes_simple hd (w := .swap) (by decide) rfl
  have hsub : Denotes d (limit + 1) loop ["-"] _ := denotes_simple hd (w := .sub) (by decide) rfl
  refine (denotes_zero.append (hswap.append hsub)).congr fun st => ?_
  cases st with
  | nil => rfl
  | cons a base => simp [effect, result, bind, EStateM.bind]

theorem denotes_abs : Denotes d (limit + 3) loop (body .abs) (effect .abs) := by
  have hdup : Denotes d (limit + 3) loop ["dup"] _ := denotes_simple hd (w := .dup) (by decide) rfl
  have hlt : Denotes d (limit + 3) loop ["<"] _ := denotes_simple hd (w := .lt) (by decide) rfl
  have hnegate : Denotes d (limit + 2) loop ["negate"] (effect .negate) :=
    .call (sense_name hd .negate) (denotes_negate hd)
  have hchoose : Denotes d (limit + 3) loop ["if", "negate", "then"] (.choose (effect .negate) (pure ())) :=
    .choose (b := ⟨["negate"], none⟩) (hd.sense_primitive (by decide)) (by decide) rfl hnegate .nil
  refine (hdup.append (denotes_zero.append (hlt.append hchoose))).congr fun st => ?_
  cases st with
  | nil => rfl
  | cons a base =>
    by_cases ha : a < 0
    · have habs : (a.natAbs : Int) = -a := by omega
      simp [effect, result, Cell.flag, bind, EStateM.bind, ha, habs]
    · have habs : (a.natAbs : Int) = a := by omega
      simp [effect, result, Cell.flag, bind, EStateM.bind, ha, habs]

theorem denotes_isEmpty : Denotes d (limit + 2) loop (body .isEmpty) (effect .isEmpty) := by
  have hdepth : Denotes d (limit + 2) loop ["depth"] _ := denotes_simple hd (w := .depth) (by decide) rfl
  have hzero : Denotes d (limit + 2) loop ["0="] (effect .isZero) :=
    .call (sense_name hd .isZero) (denotes_isZero hd)
  refine (hdepth.append hzero).congr fun st => ?_
  cases st with
  | nil => rfl
  | cons n below =>
    have hne : (below.length : Int) + 1 ≠ 0 := by omega
    simp [effect, result, bind, EStateM.bind, get_apply, hne]

/-- Every body does what its word promises. -/
theorem denotes_body (w : Composite) : Denotes d w.nesting loop w.body w.effect := by
  have inverted (token : String) {v : Simple} {p : Int → Int → Bool}
      (hv : primitiveWords.sense token = .primitive (.simple v))
      (he : v.effect? = some (.binary fun a b => Cell.flag (p a b))) :
      Denotes d 3 loop [token, "invert"] (.binary fun a b => Cell.flag (!p a b)) := denotes_inverted hd hv he
  cases w with
  | invert => exact denotes_invert hd
  | differs =>
    refine (inverted "=" (v := .eq) (by decide) rfl).congr fun st => ?_
    rcases st with _ | ⟨b, _ | ⟨a, base⟩⟩
    · rfl
    · rfl
    · by_cases h : a = b <;> simp [effect, result, Cell.flag, h]
  | atLeast =>
    refine (inverted "<" (v := .lt) (by decide) rfl).congr fun st => ?_
    rcases st with _ | ⟨b, _ | ⟨a, base⟩⟩
    · rfl
    · rfl
    · simp [effect, result, Cell.flag]
  | atMost =>
    refine (inverted ">" (v := .gt) (by decide) rfl).congr fun st => ?_
    rcases st with _ | ⟨b, _ | ⟨a, base⟩⟩
    · rfl
    · rfl
    · simp [effect, result, Cell.flag]
  | isZero => exact denotes_isZero hd
  | nop => exact .nil
  | negate => exact denotes_negate hd
  | abs => exact denotes_abs hd
  | isEmpty => exact denotes_isEmpty hd

end Bodies

/-- On every dictionary that grows out of the standard words, with room enough for the nesting, a word leaves the
stack that its name promises, wherever it stands: memory, dictionary, console and variables stay as they are. That
stack is there if there are as many cells as the word takes. With fewer it underflows, and empties the stack. -/
theorem computes {given : List (Word Empty)} {s : Scope Empty} (hd : Later standardWords given s.words)
    (w : Composite) (hlimit : w.nesting ≤ limit) (loop : Option Int) :
    (w.result s.stack = none ↔ s.stack.length < w.operands) ∧
    (∀ st, w.result s.stack = some st →
      interpretWithin (limit + 1) loop [w.name] s = .ok () { s with stack := st } ∧
      ∀ tokens pos rest, step (inside limit) ⟨tokens, pos, loop⟩ w.name rest s =
        .ok (.next 0) { s with stack := st }) ∧
    (s.stack.length < w.operands →
      (∃ contexts journal, interpretWithin (limit + 1) loop [w.name] s =
        .error (.failed ⟨.stackUnderflow, contexts⟩) { s with stack := [], journal }) ∧
      ∀ tokens pos rest, ∃ contexts offset, step (inside limit) ⟨tokens, pos, loop⟩ w.name rest s =
        .error ⟨.failed ⟨.stackUnderflow, contexts⟩, offset⟩ { s with stack := [] }) := by
  have hbody : Denotes s.words limit loop w.body w.effect := (denotes_body hd.extends w).mono hlimit
  have hword : Denotes s.words (limit + 1) loop [w.name] w.effect := .call (sense_name hd.extends w) hbody
  have hrun := hword s rfl
  have hacts (rest : List String) : Acts s.words limit loop w.name rest 0 w.effect :=
    acts_call (sense_name hd.extends w) hbody
  have hstep (tokens : List String) (pos : Int) (rest : List String) := hacts rest tokens pos s rfl
  refine ⟨w.result_eq_none_iff s.stack, fun st hst => ?_, fun hshort => ?_⟩
  · simp only [effect, hst] at hrun hstep
    refine ⟨?_, hstep⟩
    rw [interpretWithin, hrun]
  · have hnone := (w.result_eq_none_iff s.stack).2 hshort
    simp only [effect, hnone] at hrun hstep
    obtain ⟨contexts, hrun⟩ := hrun
    have hreport : interpretWithin (limit + 1) loop [w.name] s =
        .error (.failed ⟨.stackUnderflow, contexts⟩)
          { s with
            stack := []
            journal := s.journal.push (.evaluationFailed (Failure.report ⟨.stackUnderflow, contexts⟩)) } := by
      rw [interpretWithin, hrun]
      rfl
    exact ⟨⟨contexts, _, hreport⟩, hstep⟩

/-- A comparison of 2 and 5 in a loop, after a definition. -/
theorem computes_atLeast :
    let m : Machine Empty := ⟨[], .zeros 2, standardWords, .ofText "", #[]⟩
    let words := ((Request.interpret 3 none [":", "distance", "-", "abs", ";"] []).after m).words
    let s : Scope Empty := ⟨⟨[5, 2, 3], .zeros 2, words, .ofText "", #[]⟩, [("v", 1)]⟩
    Later standardWords [] s.words ∧ words.size = standardWords (ε := Empty).size + 1 ∧ nesting .atLeast ≤ 3 ∧
      interpretWithin 4 (some 7) [">="] s = .ok () { s with stack := [0, 3] } := by
  rw [Tree.standardWords_eq]
  intro m words s
  have hgrown : Later (Tree.flatWords Tree.compositeWords) [] s.words := .evaluate (m := m) _ .now
  have hsize : words.size = (Tree.flatWords Tree.compositeWords).size + 1 := by decide +kernel
  have hd : Later standardWords [] s.words := by
    rw [Tree.standardWords_eq]
    exact hgrown
  have hnesting : nesting .atLeast ≤ 3 := by decide
  obtain ⟨-, hresult, -⟩ := computes hd .atLeast hnesting (some 7)
  exact ⟨hgrown, hsize, hnesting, (hresult [0, 3] rfl).1⟩

end Composite
end Forth
