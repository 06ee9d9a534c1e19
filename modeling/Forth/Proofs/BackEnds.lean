import Forth.Standard
import Forth.Proofs.Lockstep

/-!
# Streams, queues and events

Input is cut from a text or taken from a queue of lines, and output is appended to a text or kept write by
write. A program cannot tell which: as long as the lines are such as a text can hold, it takes the same course
on each of the back ends, reads as many lines and writes the same (`interpretWithin_backEnds`).
-/
namespace Forth

open Machine

inductive BackEnd where
  | core
  | stdio
  | buffer
  deriving DecidableEq, Repr

def lined (lines : List String) : String := String.join (lines.map (· ++ "\n"))

/-- A text can hold the line: it has no line feed, and its end does not read as part of one. -/
def PlainLine (line : String) : Prop := '\n' ∉ line.toList ∧ line.toList.getLast? ≠ some '\r'

instance (line : String) : Decidable (PlainLine line) := inferInstanceAs (Decidable (_ ∧ _))

namespace BackEnd

def console : BackEnd → List String → Console
  | .buffer, lines => .ofLines lines
  | _, lines => .ofText (lined lines)

def source (b : BackEnd) (lines : List String) : Source := (b.console lines).source

/-- What becomes of the output when a text is written. The core writes the empty text like any other; the
consoles are not asked to. -/
def emit (b : BackEnd) (t : String) (sink : Sink) : Sink :=
  match b with
  | .core => sink.append t
  | .stdio | .buffer => if t.isEmpty then sink else sink.append t

/-- The output so far, none of it as an empty event. -/
def Shows (b : BackEnd) (output : String) (sink : Sink) : Prop :=
  match b with
  | .core | .stdio => sink = .text output
  | .buffer => sink.output = output ∧ ∃ latest, sink = .events latest ∧ "" ∉ latest

structure At (b : BackEnd) (output : String) (lines : List String) (c : Console) : Prop where
  shows : b.Shows output c.sink
  source : c.source = b.source lines

end BackEnd

/-! ### Lines of a text -/

theorem toList_lined_cons (line : String) (lines : List String) :
    (lined (line :: lines)).toList = line.toList ++ '\n' :: (lined lines).toList := by
  simp [lined]

/-- Nothing is cut off at the end of a plain line. -/
theorem PlainLine.chomp {line : String} (h : PlainLine line) : Source.chomp line.toList = line := by
  obtain ⟨hlf, hcr⟩ := h
  have hlast : line.toList.reverse.dropWhile Source.isLineEnd = line.toList.reverse := by
    cases hr : line.toList.reverse with
    | nil => rfl
    | cons c rest =>
      have hc : line.toList.getLast? = some c := by rw [List.getLast?_eq_head?_reverse, hr, List.head?_cons]
      have hmem : c ∈ line.toList := List.mem_of_getLast? hc
      rw [hc] at hcr
      refine List.dropWhile_cons_of_neg ?_
      simp only [Source.isLineEnd, Bool.or_eq_true, decide_eq_true_eq]
      rintro (rfl | rfl)
      · exact hcr rfl
      · exact hlf hmem
  rw [Source.chomp, hlast, List.reverse_reverse, String.ofList_toList]

namespace BackEnd

variable {b b' : BackEnd} {output : String} {lines : List String} {m m' : Machine Empty}

/-- Lines come one after another, and none is taken for the end. -/
theorem readLine_source (b : BackEnd) (hlines : ∀ line ∈ lines, PlainLine line) :
    (b.source lines).readLine = (.ok lines.head?, b.source lines.tail) := by
  have htext : (Source.text (lined lines).toList).readLine =
      (.ok lines.head?, .text (lined lines.tail).toList) := by
    cases lines with
    | nil => rfl
    | cons line lines =>
      have hline := hlines line List.mem_cons_self
      have hfeed : ∀ c ∈ line.toList, (decide (c ≠ '\n')) = true := by
        rintro c hc
        exact decide_eq_true fun h => hline.1 (h ▸ hc)
      rw [toList_lined_cons]
      generalize hrest : line.toList ++ '\n' :: (lined lines).toList = rest
      have htake : rest.takeWhile (· ≠ '\n') = line.toList := by
        rw [← hrest, List.takeWhile_append_of_pos hfeed]
        simp
      have hdrop : (rest.dropWhile (· ≠ '\n')).drop 1 = (lined lines).toList := by
        rw [← hrest, List.dropWhile_append_of_pos hfeed]
        simp
      cases rest with
      | nil => simp at hrest
      | cons c rest =>
        simp only [Source.readLine, htake, hdrop, hline.chomp]
        rfl
  cases b with
  | core => exact htext
  | stdio => exact htext
  | buffer => cases lines <;> rfl

theorem Shows.accepts {sink : Sink} (h : b.Shows output sink) : sink.accepts = true := by
  cases b with
  | core | stdio =>
    cases h
    rfl
  | buffer =>
    obtain ⟨-, latest, rfl, -⟩ := h
    rfl

theorem emit_of_ne (b : BackEnd) {t : String} (ht : t ≠ "") (sink : Sink) :
    b.emit t sink = sink.append t := by
  cases b <;> simp [BackEnd.emit, ht]

/-- To write the empty text is to write nothing. -/
theorem Shows.emit_empty {sink : Sink} (h : b.Shows output sink) : b.emit "" sink = sink := by
  cases b with
  | core =>
    cases h
    simp [BackEnd.emit, Sink.append]
  | stdio | buffer => rfl

/-- Words write as the back end says, be it one that takes the empty text or not. -/
theorem emit_eq (h : b.Shows output m.console.sink) (t : String) :
    Machine.emit t m =
      .ok () { m with console := { m.console with sink := b.emit t m.console.sink } } := by
  unfold Machine.emit
  by_cases ht : t = ""
  · subst ht
    rw [h.emit_empty]
    rfl
  · have hempty : t.isEmpty = false := by simpa using ht
    simp only [hempty, h.accepts, emit_of_ne b ht, Bool.false_eq_true, if_false, if_true]

/-- What is written comes after the output so far. -/
theorem Shows.emit {sink : Sink} (h : b.Shows output sink) (t : String) :
    b.Shows (output ++ t) (b.emit t sink) := by
  by_cases ht : t = ""
  · subst ht
    rw [h.emit_empty, String.append_empty]
    exact h
  · rw [emit_of_ne b ht]
    cases b with
    | core | stdio =>
      cases h
      exact rfl
    | buffer =>
      obtain ⟨rfl, latest, rfl, hlatest⟩ := h
      refine ⟨Sink.output_append rfl t, t :: latest, rfl, ?_⟩
      rw [List.mem_cons, not_or]
      exact ⟨Ne.symm ht, hlatest⟩

theorem at_console (b : BackEnd) (lines : List String) : b.At "" lines (b.console lines) := by
  refine ⟨?_, rfl⟩
  cases b with
  | core | stdio => exact rfl
  | buffer => exact ⟨rfl, [], rfl, by simp⟩

/-- A buffer shows what was written and which lines are to come. -/
theorem At.unique {output' : String} {lines' : List String} {c : Console}
    (h : buffer.At output lines c) (h' : buffer.At output' lines' c) :
    output = output' ∧ lines = lines' :=
  ⟨h.shows.1.symm.trans h'.shows.1, Source.queue.inj (h.source.symm.trans h'.source)⟩

end BackEnd

/-! ### The same program on two of them -/

/-- Machines that differ in nothing but their consoles. To the one and to the other the same was written, and
the same of the given lines are to come. -/
def Linked (b b' : BackEnd) (given : List String) (m m' : Machine Empty) : Prop :=
  ∃ c', m' = { m with console := c' } ∧
    ∃ output lines, b.At output lines m.console ∧ b'.At output lines c' ∧ lines <:+ given

section Linked

variable {b b' : BackEnd} {given : List String} {m m' : Machine Empty}

theorem Linked.stack_eq (h : Linked b b' given m m') : m'.stack = m.stack := by
  obtain ⟨c', rfl, -⟩ := h
  rfl

theorem Linked.with_stack (h : Linked b b' given m m') (stack : Stack) :
    Linked b b' given { m with stack } { m' with stack } := by
  obtain ⟨c', rfl, h⟩ := h
  exact ⟨c', rfl, h⟩

/-- On two back ends a program takes the same course. -/
theorem lockstep_linked (b b' : BackEnd) (hgiven : ∀ line ∈ given, PlainLine line) :
    Lockstep (Linked b b' given) fun _ => False where
  memory := by
    rintro m _ ⟨c', rfl, h⟩
    rfl
  push := .push Linked.stack_eq Linked.with_stack
  pop := .pop Linked.stack_eq Linked.with_stack trivial
  put := by
    rintro m _ ⟨c', rfl, h⟩ i n
    exact ⟨c', rfl, h⟩
  emit := by
    rintro t - m _ ⟨c', rfl, output, lines, hc, hc', hlines⟩
    rw [BackEnd.emit_eq hc.shows t, BackEnd.emit_eq (b := b') hc'.shows t]
    exact ⟨rfl, _, rfl, output ++ t, lines, ⟨hc.shows.emit t, hc.source⟩, ⟨hc'.shows.emit t, hc'.source⟩,
      hlines⟩
  readLine := by
    rintro m _ ⟨c', rfl, output, lines, hc, hc', hlines⟩
    have hplain : ∀ line ∈ lines, PlainLine line := fun line h => hgiven line (hlines.subset h)
    simp only [readLine, hc.source, hc'.source, BackEnd.readLine_source _ hplain]
    exact ⟨rfl, _, rfl, output, lines.tail, ⟨hc.shows, rfl⟩, ⟨hc'.shows, rfl⟩,
      (List.tail_suffix lines).trans hlines⟩
  cause _ := trivial
  words := by
    rintro m _ ⟨c', rfl, h⟩
    rfl
  define := by
    rintro m _ words name effect body ⟨c', rfl, h⟩ hadd
    exact ⟨c', rfl, h⟩
  note := by
    rintro m _ ⟨c', rfl, h⟩ e
    exact ⟨c', rfl, h⟩
  inspects _ _ _ _ _ hn := hn.stack_eq
  context h := h.elim
  bye := id

end Linked

/-- The same end, on another console. -/
def resultOn (c : Console) :
    EStateM.Result Abort (Scope Empty) Unit → EStateM.Result Abort (Scope Empty) Unit
  | .ok u s => .ok u { s with console := c }
  | .error a s => .error a { s with console := c }

/-- What becomes of a program on linked machines. -/
theorem Linked.interpretWithin {b b' : BackEnd} {given : List String} {m m' : Machine Empty}
    (hgiven : ∀ line ∈ given, PlainLine line) (h : Linked b b' given m m') (limit : Nat)
    (loop : Option Int) (tokens : List String) (vars : Variables) :
    ∃ c' output lines,
      Forth.interpretWithin limit loop tokens ⟨m', vars⟩ =
        resultOn c' (Forth.interpretWithin limit loop tokens ⟨m, vars⟩) ∧
      b.At output lines (finish (Forth.interpretWithin limit loop tokens ⟨m, vars⟩)).console ∧
      b'.At output lines c' ∧ lines <:+ given := by
  have hbeside : Beside (Linked b b' given) ⟨m, vars⟩ ⟨m', vars⟩ := ⟨h, rfl⟩
  have htokens : ∀ t ∈ tokens, True := fun _ _ => trivial
  have halike :=
    (lockstep_linked b b' hgiven).lockstepOn.interpretWithin_alike limit loop htokens hbeside
  have hend {t t' : Scope Empty} (ht : Beside (Linked b b' given) t t') :
      ∃ c' output lines, t' = { t with console := c' } ∧ b.At output lines t.console ∧
        b'.At output lines c' ∧ lines <:+ given := by
    obtain ⟨n, vars⟩ := t
    obtain ⟨n', vars'⟩ := t'
    obtain ⟨⟨c', hn, output, lines, hat⟩, hv⟩ := ht
    cases hn
    cases hv
    exact ⟨c', output, lines, rfl, hat⟩
  obtain ⟨u, t, t', hx, hy, ht⟩ | ⟨a, t, t', hx, hy, -, ht⟩ | ⟨-, -, -, h⟩ := halike.cases
  · obtain ⟨c', output, lines, rfl, hat⟩ := hend ht
    rw [hx, hy]
    exact ⟨c', output, lines, rfl, hat⟩
  · obtain ⟨c', output, lines, rfl, hat⟩ := hend ht
    rw [hx, hy]
    exact ⟨c', output, lines, rfl, hat⟩
  · exact h.elim

/-- On all back ends that are given the same lines, a program comes to the same end, with the same report, in
the same state. It has read as many lines and written the same, and there is no empty event. -/
theorem interpretWithin_backEnds (limit : Nat) (loop : Option Int) (tokens : List String)
    (m : Machine Empty) (vars : Variables) {lines : List String}
    (hlines : ∀ line ∈ lines, PlainLine line) :
    ∃ r output k, k ≤ lines.length ∧ ∀ b : BackEnd, ∃ c,
      interpretWithin limit loop tokens ⟨{ m with console := b.console lines }, vars⟩ =
        resultOn c r ∧
      b.At output (lines.drop k) c := by
  let onBuffer : Machine Empty := { m with console := BackEnd.buffer.console lines }
  have hlinked (b : BackEnd) : Linked .buffer b lines onBuffer { m with console := b.console lines } :=
    ⟨_, rfl, "", lines, BackEnd.at_console .buffer lines, b.at_console lines, List.suffix_refl lines⟩
  obtain ⟨-, output, rest, -, hat, -, hrest⟩ :=
    (hlinked .buffer).interpretWithin hlines limit loop tokens vars
  refine ⟨interpretWithin limit loop tokens ⟨onBuffer, vars⟩, output, lines.length - rest.length,
    Nat.sub_le _ _, fun b => ?_⟩
  obtain ⟨c, output', rest', hr, hat', hc, -⟩ := (hlinked b).interpretWithin hlines limit loop tokens vars
  obtain ⟨rfl, rfl⟩ := hat.unique hat'
  rw [← List.suffix_iff_eq_drop.1 hrest]
  exact ⟨c, hr, hc⟩

/-- An empty line and one that is no number are turned down on the way to the first number. -/
theorem backEnds_read_number :
    let lines := ["", "seven", "7", "A", "8"]
    let tokens := ["inputn", ".", "input", "."]
    let s (b : BackEnd) : Scope Empty := ⟨{ bootMachine with console := b.console lines }, []⟩
    (∀ line ∈ lines, PlainLine line) ∧
      (∃ r output k, k ≤ lines.length ∧ ∀ b : BackEnd, ∃ c,
        interpretWithin 1 none tokens (s b) = resultOn c r ∧ b.At output (lines.drop k) c) ∧
      (finish (interpretWithin 1 none tokens (s .core))).console.sink =
        .text "INPUT EMPTY\nNOT A NUMBER\n765" ∧
      (finish (interpretWithin 1 none tokens (s .buffer))).console =
        ⟨.events ["65", "7", "NOT A NUMBER\n", "INPUT EMPTY\n"], .queue ["8"]⟩ := by
  intro lines tokens s
  have hlines : ∀ line ∈ lines, PlainLine line := by decide
  exact ⟨hlines, interpretWithin_backEnds 1 none tokens bootMachine [] hlines, by decide +kernel,
    by decide +kernel⟩

end Forth
