import Forth.Proofs.BackEnds
import Forth.Proofs.Numbers
import Forth.Proofs.Turns

/-!
# Words that ask for input

A word that asks takes lines until one is acceptable. Each line before that one gets a remark, and the lines behind
it are not touched; if there is none, the word has remarked on all lines and fails (`asks_until_acceptable`).
-/
namespace Forth

inductive Question where
  | character
  | number
  deriving DecidableEq, Repr

namespace Question

def name : Question → String
  | .character => "input"
  | .number => "inputn"

/-- What a line has to say, and the cell that it gives: there is a first character, or the whole line is the
spelling of a number that is not too long. -/
def Accepts (line : String) (n : Int) : Question → Prop
  | .character => ∃ c cs, line.toList = c :: cs ∧ n = c.toNat
  | .number => ∃ sign digits, Numeral.Spells line sign digits ∧ digits.length ≤ Numeral.digitLimit ∧
      n = sign.apply (Numeral.positional digits)

/-- No cell can be got from the line. -/
def Refuses (line : String) (q : Question) : Prop := ∀ n, ¬ q.Accepts line n

def word : Question → Simple
  | .character => .readChar
  | .number => .readNumber

def parse : Question → String → Option Int
  | .character => firstCode?
  | .number => wholeNumber?

variable {line : String} {n : Int}

theorem accepts_parse (q : Question) : q.word.accepts? = some q.parse := by
  cases q <;> rfl

theorem sense_name (q : Question) : primitiveWords.sense q.name = .primitive (.simple q.word) := by
  cases q <;> decide

theorem accepts_iff (q : Question) : q.Accepts line n ↔ line.isEmpty = false ∧ q.parse line = some n := by
  cases q with
  | character =>
    simp only [Accepts, parse, firstCode?]
    cases hline : line.toList with
    | nil => simp
    | cons c cs =>
      have hne : line ≠ "" := by
        rintro rfl
        cases hline
      constructor
      · rintro ⟨c', cs', h, rfl⟩
        cases h
        exact ⟨by simpa using hne, rfl⟩
      · rintro ⟨-, h⟩
        cases h
        exact ⟨c, cs, rfl, rfl⟩
  | number =>
    have hparse : wholeNumber? line = some n ↔ Numeral.read line = .value n := by
      unfold wholeNumber?
      cases Numeral.read line <;> simp
    rw [parse, hparse, Accepts, Numeral.read_eq_value_iff, iff_and_self]
    rintro ⟨sign, digits, hspells, -⟩
    exact hspells.solid.isEmpty_eq

theorem refuses_iff (q : Question) : q.Refuses line ↔ line.isEmpty = true ∨ q.parse line = none := by
  simp only [Refuses, accepts_iff, not_and]
  cases line.isEmpty with
  | true => simp
  | false => simp [Option.eq_none_iff_forall_ne_some]

end Question

/-! ### Lines in turn -/

inductive Source.Gives : Source → List String → Source → Prop
  | nil {source : Source} : Gives source [] source
  | cons {source next last : Source} {line : String} {lines : List String} :
      source.readLine = (.ok (some line), next) → Gives next lines last → Gives source (line :: lines) last

def Sink.remarks (sink : Sink) (lines : List String) : Sink :=
  lines.foldl (fun sink line => sink.append (remark line ++ "\n")) sink

theorem Sink.remarks_cons (sink : Sink) (line : String) (lines : List String) :
    sink.remarks (line :: lines) = (sink.append (remark line ++ "\n")).remarks lines := rfl

/-- A remark takes one line of the output. -/
theorem Sink.output_remarks {sink : Sink} (h : sink.accepts = true) (lines : List String) :
    (sink.remarks lines).output = sink.output ++ lined (lines.map remark) := by
  induction lines generalizing sink with
  | nil => simp [remarks, lined]
  | cons line lines ih =>
    rw [remarks_cons, ih (accepts_append h _), output_append h]
    simp only [lined, List.map_cons, String.join_cons, String.append_assoc]

namespace Source

variable {source next : Source} {line : String} {lines : List String}

theorem Gives.append_singleton (h : source.Gives (lines ++ [line]) next) :
    ∃ middle, source.Gives lines middle ∧ middle.readLine = (.ok (some line), next) := by
  induction lines generalizing source with
  | nil =>
    cases h with
    | cons hline hrest =>
      cases hrest
      exact ⟨source, .nil, hline⟩
  | cons first lines ih =>
    cases h with
    | cons hfirst hrest =>
      obtain ⟨middle, hlines, hline⟩ := ih hrest
      exact ⟨middle, .cons hfirst hlines, hline⟩

end Source

/-- Text streams and queues give their lines. -/
theorem BackEnd.gives (b : BackEnd) {lines later : List String} (h : ∀ line ∈ lines ++ later, PlainLine line) :
    (b.source (lines ++ later)).Gives lines (b.source later) := by
  induction lines with
  | nil => exact .nil
  | cons line lines ih =>
    exact .cons (b.readLine_source h) (ih fun line hline => h line (List.mem_cons_of_mem _ hline))

/-- A queue may hold any lines. -/
theorem Source.gives_queue (lines later : List String) :
    (Source.queue (lines ++ later)).Gives lines (.queue later) := by
  induction lines with
  | nil => exact .nil
  | cons line lines ih => exact .cons rfl ih

/-! ### Rounds -/

section Rounds

variable {q : Question} {m : Machine Empty} {refused : List String} {line : String} {next ended : Source} {n : Int}

/-- Every line that is refused takes one round, and leaves a remark. -/
theorem readCell_of_refused (hlines : m.console.source.Gives refused next)
    (hrefused : ∀ line ∈ refused, q.Refuses line) (hs : m.console.sink.accepts = true) (rounds : Nat) :
    readCell q.parse (refused.length + rounds) m =
      readCell q.parse rounds { m with console := ⟨m.console.sink.remarks refused, next⟩ } := by
  -- every line takes one from the bound and moves the source on, so both vary in the induction
  induction refused generalizing m with
  | nil =>
    cases hlines
    rw [List.length_nil, Nat.zero_add]
    rfl
  | cons line refused ih =>
    obtain ⟨hline, hrest⟩ := List.forall_mem_cons.1 hrefused
    cases hlines with
    | cons hread hlines =>
      have hlength : (line :: refused).length + rounds = refused.length + rounds + 1 := by
        rw [List.length_cons]
        omega
      rw [hlength, readCell_succ, askOnce_of_refused hread (q.refuses_iff.1 hline) hs]
      exact ih hlines hrest (Sink.accepts_append hs _)

theorem act_of_refused (hlines : m.console.source.Gives refused next)
    (hrefused : ∀ line ∈ refused, q.Refuses line) (hs : m.console.sink.accepts = true) :
    q.word.act m = q.word.act { m with console := ⟨m.console.sink.remarks refused, next⟩ } := by
  let rounds := m.console.source.remaining + next.remaining + 1
  have hbefore : m.console.source.remaining < refused.length + rounds := by omega
  have hafter : next.remaining < rounds := by omega
  rw [Simple.act_of_accepts q.accepts_parse, pushInput_eq q.parse hbefore, pushInput_eq q.parse hafter]
  simp only [bind, EStateM.bind, readCell_of_refused hlines hrefused hs]

theorem act_of_accepted (hlines : m.console.source.Gives (refused ++ [line]) next)
    (hrefused : ∀ line ∈ refused, q.Refuses line) (hline : q.Accepts line n)
    (hs : m.console.sink.accepts = true) :
    q.word.act m =
      .ok () { m with stack := n :: m.stack, console := ⟨m.console.sink.remarks refused, next⟩ } := by
  obtain ⟨middle, hlines, hread⟩ := hlines.append_singleton
  obtain ⟨hempty, hparse⟩ := q.accepts_iff.1 hline
  rw [act_of_refused hlines hrefused hs, Simple.act_of_accepts q.accepts_parse]
  exact pushInput_of_accepted hread hempty hparse

theorem act_of_exhausted (hlines : m.console.source.Gives refused next)
    (hrefused : ∀ line ∈ refused, q.Refuses line) (hend : next.readLine = (.ok none, ended))
    (hs : m.console.sink.accepts = true) :
    q.word.act m =
      .error (.cause .inputExhausted) { m with console := ⟨m.console.sink.remarks refused, ended⟩ } := by
  rw [act_of_refused hlines hrefused hs, Simple.act_of_accepts q.accepts_parse]
  exact pushInput_of_ended q.parse hend

end Rounds

namespace Question

/-- There is a first acceptable line, or none. -/
theorem refuses_all_or_first (q : Question) (lines : List String) :
    (∀ line ∈ lines, q.Refuses line) ∨ ∃ refused line later n, lines = refused ++ line :: later ∧
      (∀ line ∈ refused, q.Refuses line) ∧ q.Accepts line n := by
  induction lines with
  | nil => exact .inl (by simp)
  | cons line lines ih =>
    by_cases hline : q.Refuses line
    · obtain hall | ⟨refused, first, later, n, rfl, hrefused, hfirst⟩ := ih
      · exact .inl (List.forall_mem_cons.2 ⟨hline, hall⟩)
      · exact .inr ⟨line :: refused, first, later, n, rfl, List.forall_mem_cons.2 ⟨hline, hrefused⟩, hfirst⟩
    · simp only [Refuses, not_forall, not_not] at hline
      obtain ⟨n, hn⟩ := hline
      exact .inr ⟨[], line, lines, n, rfl, by simp, hn⟩

/-- A word that asks takes the lines up to the first acceptable one, pushes what that one gives, and leaves the source
just behind it. Of the lines before it there is one remark each. If no line is acceptable, there is a remark on
every one, and the word fails without a change of the stack. Every list of lines is one or the other; a queue may
hold any, and a text those without line ends of their own. -/
theorem asks_until_acceptable {given : List (Word Empty)} {s : Scope Empty} (hd : Later standardWords given s.words)
    (hs : s.console.sink.accepts = true) (q : Question) :
    (∀ refused line next n, s.console.source.Gives (refused ++ [line]) next →
      (∀ line ∈ refused, q.Refuses line) → q.Accepts line n →
      let left : Scope Empty := { s with stack := n :: s.stack, console := ⟨s.console.sink.remarks refused, next⟩ }
      (∀ limit loop, interpretWithin (limit + 1) loop [q.name] s = .ok () left) ∧
      ∀ nested site rest, step nested site q.name rest s = .ok (.next 0) left) ∧
    (∀ lines last ended, s.console.source.Gives lines last → last.readLine = (.ok none, ended) →
      (∀ line ∈ lines, q.Refuses line) →
      let left : Scope Empty := { s with console := ⟨s.console.sink.remarks lines, ended⟩ }
      (∀ limit loop, ∃ contexts journal, interpretWithin (limit + 1) loop [q.name] s =
        .error (.failed ⟨.inputExhausted, contexts⟩) { left with journal }) ∧
      ∀ nested site rest, step nested site q.name rest s =
        .error ⟨.failed ⟨.inputExhausted, []⟩, 0⟩ left) ∧
    (∀ lines, (s.console.sink.remarks lines).output = s.console.sink.output ++ lined (lines.map remark)) ∧
    (∀ lines, (∀ line ∈ lines, q.Refuses line) ∨ ∃ refused line later n, lines = refused ++ line :: later ∧
      (∀ line ∈ refused, q.Refuses line) ∧ q.Accepts line n) ∧
    (∀ lines later, (Source.queue (lines ++ later)).Gives lines (.queue later)) ∧
    ∀ (b : BackEnd) lines later, (∀ line ∈ lines ++ later, PlainLine line) →
      (b.source (lines ++ later)).Gives lines (b.source later) := by
  have hword : s.words.sense q.name = .primitive (.simple q.word) := hd.extends.sense_primitive q.sense_name
  refine ⟨?_, ?_, Sink.output_remarks hs, q.refuses_all_or_first, Source.gives_queue, fun b _ _ => b.gives⟩
  · intro refused line next n hlines hrefused hline left
    have hact : q.word.act s.toMachine = _ := act_of_accepted hlines hrefused hline hs
    have hstep (nested : Nested Empty) (site : Site) (rest : List String) :
        step nested site q.name rest s = .ok (.next 0) left := by
      rw [step_simple _ _ hword, hact]
    exact ⟨fun limit loop => interpretWithin_of_step (hstep _ _ _), hstep⟩
  · intro lines last ended hlines hend hrefused left
    have hact : q.word.act s.toMachine = _ := act_of_exhausted hlines hrefused hend hs
    have hstep (nested : Nested Empty) (site : Site) (rest : List String) :
        step nested site q.name rest s = .error ⟨.failed ⟨.inputExhausted, []⟩, 0⟩ left := by
      rw [step_simple _ _ hword, hact]
      rfl
    exact ⟨fun limit loop => interpretWithin_of_step_error (hstep _ _ _), hstep⟩

/-- A number behind two lines that are none, and a queue with nothing but such a line. -/
theorem asks_until_acceptable_queue :
    let words : Dictionary Empty := standardWords
    let s (stack : Stack) (written : String) (lines : List String) : Scope Empty :=
      ⟨⟨stack, .zeros 2, words, ⟨.text written, .queue lines⟩, #[]⟩, []⟩
    interpretWithin 1 none ["inputn"] (s [5] "" ["", "1_000", "+7", "9"]) =
        .ok () (s [7, 5] "INPUT EMPTY\nNOT A NUMBER\n" ["9"]) ∧
      step (inside 0) ⟨["inputn"], 0, none⟩ "inputn" [] (s [5] "a" ["1_000"]) =
        .error ⟨.failed ⟨.inputExhausted, []⟩, 0⟩ (s [5] "aNOT A NUMBER\n" []) := by
  intro words s
  have hrefuses {line : String} (h : wholeNumber? line = none) : Question.number.Refuses line :=
    (refuses_iff .number).2 (.inr h)
  obtain ⟨hfirst, -⟩ := asks_until_acceptable (s := s [5] "" ["", "1_000", "+7", "9"]) .now rfl .number
  obtain ⟨-, hnone, -⟩ := asks_until_acceptable (s := s [5] "a" ["1_000"]) .now rfl .number
  constructor
  · have hlines : (Source.queue ["", "1_000", "+7", "9"]).Gives (["", "1_000"] ++ ["+7"]) (.queue ["9"]) :=
      Source.gives_queue ["", "1_000", "+7"] ["9"]
    have hrefused : ∀ line ∈ ["", "1_000"], Question.number.Refuses line := by
      simp only [List.forall_mem_cons]
      exact ⟨hrefuses (by decide), hrefuses (by decide), by simp⟩
    have haccepted : Question.number.Accepts "+7" 7 := ⟨.plus, ['7'], .of_isDigits rfl (by decide), by decide, rfl⟩
    exact (hfirst _ _ _ _ hlines hrefused haccepted).1 0 none
  · have hlines : (Source.queue ["1_000"]).Gives ["1_000"] (.queue []) := Source.gives_queue ["1_000"] []
    exact (hnone _ _ _ hlines rfl (by simpa using hrefuses (by decide))).2 _ _ _

end Question
end Forth
