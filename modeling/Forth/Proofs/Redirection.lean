import Forth.Standard
import Forth.Proofs.Lockstep
import Forth.Proofs.Faults

/-!
# Redirected output

One text can be evaluated with its output appended to a target, and with input of its own. That is the evaluation
as it is, written elsewhere: it comes to the same end in the same state, and the target has grown by what would
have been written to the console, also if the evaluation goes wrong (`Call.appends`).
-/
namespace Forth

open Machine

/-- Machines that differ in where they write. What the one has written after `written`, the other has written
after `target`; they read the same. -/
def Redirected (written target : String) (m m' : Machine Empty) : Prop :=
  ∃ output, m.console.sink.accepts = true ∧ m.console.sink.output = written ++ output ∧
    m' = { m with console := ⟨.text (target ++ output), m.console.source⟩ }

section Redirected

variable {written target : String} {m m' : Machine Empty}

theorem Redirected.stack_eq (h : Redirected written target m m') : m'.stack = m.stack := by
  obtain ⟨output, -, -, rfl⟩ := h
  rfl

theorem Redirected.with_stack (h : Redirected written target m m') (stack : Stack) :
    Redirected written target { m with stack } { m' with stack } := by
  obtain ⟨output, haccepts, hout, rfl⟩ := h
  exact ⟨output, haccepts, hout, rfl⟩

/-- What is written to the one is written to the other. -/
theorem Redirected.append (h : Redirected written target m m') (t : String) :
    Redirected written target
      { m with console := { m.console with sink := m.console.sink.append t } }
      { m' with console := { m'.console with sink := m'.console.sink.append t } } := by
  obtain ⟨output, haccepts, hout, rfl⟩ := h
  refine ⟨output ++ t, Sink.accepts_append haccepts t, ?_, ?_⟩
  · rw [Sink.output_append haccepts, hout, String.append_assoc]
  · simp only [Sink.append, String.append_assoc]

/-- Wherever it writes, a program takes the same course. -/
theorem lockstep_redirected (written target : String) :
    Lockstep (Redirected written target) fun _ => False where
  memory := by
    rintro m _ ⟨output, -, -, rfl⟩
    rfl
  push := .push Redirected.stack_eq Redirected.with_stack
  pop := .pop Redirected.stack_eq Redirected.with_stack trivial
  put := by
    rintro m _ ⟨output, haccepts, hout, rfl⟩ i n
    exact ⟨output, haccepts, hout, rfl⟩
  emit := by
    intro t _ m m' h
    unfold Machine.emit
    split
    · exact ⟨rfl, h⟩
    · have haccepts : m.console.sink.accepts = true ∧ m'.console.sink.accepts = true := by
        obtain ⟨output, haccepts, -, rfl⟩ := h
        exact ⟨haccepts, rfl⟩
      rw [if_pos haccepts.1, if_pos haccepts.2]
      exact ⟨rfl, h.append t⟩
  readLine := by
    rintro m _ ⟨output, haccepts, hout, rfl⟩
    simp only [readLine]
    split
    · exact ⟨rfl, output, haccepts, hout, rfl⟩
    · exact .inr ⟨rfl, trivial, output, haccepts, hout, rfl⟩
  cause _ := trivial
  words := by
    rintro m _ ⟨output, -, -, rfl⟩
    rfl
  define := by
    rintro m _ words name effect body ⟨output, haccepts, hout, rfl⟩ -
    exact ⟨output, haccepts, hout, rfl⟩
  note := by
    rintro m _ ⟨output, haccepts, hout, rfl⟩ e
    exact ⟨output, haccepts, hout, rfl⟩
  inspects _ _ _ _ _ hn := hn.stack_eq
  context h := h.elim
  bye := id

end Redirected

/-- A machine that is to evaluate a line, with input of its own or with that of the machine. -/
structure Call where
  machine : Machine Empty
  line : String
  input : Option String

namespace Call

/-- The machine, with the given input if there is some. -/
def supplied (c : Call) : Machine Empty :=
  match c.input with
  | some text => { c.machine with console := { c.machine.console with source := .text text.toList } }
  | none => c.machine

/-- The line is evaluated directly: output goes to the console of the machine. -/
def direct (c : Call) : EStateM.Result Abort (Scope Empty) Unit :=
  interpret none (tokenize c.line) ⟨c.supplied, []⟩

/-- What the direct evaluation adds to the output of the machine. -/
def written (c : Call) : String :=
  String.ofList ((finish c.direct).console.sink.output.toList.drop c.machine.console.sink.output.length)

/-- The state after the direct evaluation, but for the console: its output is that from before, and its input as
well if it was not asked. -/
def after (c : Call) : Machine Empty :=
  { (finish c.direct).toMachine with
    console.sink := c.machine.console.sink
    console.source :=
      match c.input with
      | some _ => c.machine.console.source
      | none => (finish c.direct).console.source }

def redirected (c : Call) (target : String) : EStateM.Result Abort (Machine Empty × String) String :=
  interpretLine c.line c.input (c.machine, target)

/-- The machine on which a call evaluates its line. -/
def aside (c : Call) (target : String) : Machine Empty :=
  { c.machine with console := c.machine.console.redirect target c.input }

/-- What a call hands back from there: the machine and the target. -/
def handedBack (c : Call) (s : Scope Empty) : Machine Empty × String :=
  ({ s.toMachine with console := c.machine.console.restore s.console c.input }, s.console.sink.output)

/-- The end of the direct evaluation, with what it writes appended to the target instead. -/
def appending (c : Call) (target : String) : EStateM.Result Abort (Machine Empty × String) String :=
  match c.direct with
  | .ok () _ => .ok c.written (c.after, target ++ c.written)
  | .error a _ => .error a (c.after, target ++ c.written)

variable {c : Call}

theorem supplied_sink (c : Call) : c.supplied.console.sink = c.machine.console.sink := by
  unfold supplied
  split <;> rfl

/-- Redirecting leaves what the machine reads, and nothing has been written yet. -/
theorem redirected_supplied (haccepts : c.machine.console.sink.accepts = true) (target : String) :
    Redirected c.machine.console.sink.output target c.supplied (c.aside target) := by
  refine ⟨"", ?_, ?_, ?_⟩
  · rw [supplied_sink]
    exact haccepts
  · rw [supplied_sink, String.append_empty]
  · unfold supplied aside Console.redirect
    rw [String.append_empty]
    cases c.input <;> rfl

/-- What a direct evaluation adds can be seen from its output. -/
theorem written_eq {output : String}
    (h : (finish c.direct).console.sink.output = c.machine.console.sink.output ++ output) :
    c.written = output := by
  rw [written, h, String.toList_append, List.drop_left' String.length_toList, String.ofList_toList]

/-- The redirected evaluation goes the same way as the direct one. -/
theorem alike (haccepts : c.machine.console.sink.accepts = true) (target : String) :
    Alike (Beside (Redirected c.machine.console.sink.output target)) (fun _ => True) (fun _ => False) c.direct
      (interpret none (tokenize c.line) ⟨c.aside target, []⟩) := by
  have htokens : ∀ t ∈ tokenize c.line, True := fun _ _ => trivial
  exact (lockstep_redirected c.machine.console.sink.output target).lockstepOn.interpretWithin_alike
    nestingLimit none htokens ⟨redirected_supplied haccepts target, rfl⟩

theorem handedBack_eq {target : String} {s s' : Scope Empty}
    (hs : Beside (Redirected c.machine.console.sink.output target) s s') (hend : finish c.direct = s) :
    s.console.sink.output = c.machine.console.sink.output ++ c.written ∧
      c.handedBack s' = (c.after, target ++ c.written) := by
  subst hend
  obtain ⟨⟨output, -, hout, heq⟩, -⟩ := hs
  rw [written_eq hout]
  refine ⟨hout, ?_⟩
  unfold handedBack
  rw [heq]
  unfold after Console.restore
  cases c.input <;> rfl

theorem redirected_eq (c : Call) (target : String) :
    c.redirected target =
      match interpret none (tokenize c.line) ⟨c.aside target, []⟩ with
      | .ok () s =>
        .ok (String.ofList ((c.handedBack s).2.toList.drop target.length)) (c.handedBack s)
      | .error a s => .error a (c.handedBack s) := by
  unfold redirected interpretLine aside
  simp only
  cases interpret none (tokenize c.line)
    ⟨{ c.machine with console := c.machine.console.redirect target c.input }, []⟩ <;> rfl

/-- The two evaluations come to the same end. -/
theorem ends_alike (haccepts : c.machine.console.sink.accepts = true) (target : String) :
    (finish c.direct).console.sink.output = c.machine.console.sink.output ++ c.written ∧
      c.redirected target = c.appending target := by
  rw [redirected_eq]
  unfold appending
  obtain ⟨u, s, s', hx, hy, hs⟩ | ⟨a, s, s', hx, hy, -, hs⟩ | ⟨-, -, -, h⟩ := (alike haccepts target).cases
  · obtain ⟨hout, hback⟩ := handedBack_eq hs (by rw [hx]; rfl)
    rw [hx, hy]
    simp only [hback, String.toList_append, List.drop_left' String.length_toList, String.ofList_toList]
    exact ⟨hout, trivial⟩
  · obtain ⟨hout, hback⟩ := handedBack_eq hs (by rw [hx]; rfl)
    rw [hx, hy]
    simp only [hback]
    exact ⟨hout, trivial⟩
  · exact h.elim

theorem finish_appending (c : Call) (target : String) :
    finish (c.appending target) = (c.after, target ++ c.written) := by
  unfold appending
  split <;> rfl

/-- Whatever a call comes to, its target has grown by what the line writes when it is evaluated directly. Nothing
else differs from that evaluation but the console, whose own output is as it was. So a target that calls share
holds what they wrote, one after the other, be they calls of one machine that goes on or of several. -/
theorem appends (calls : List Call) (haccepts : ∀ c ∈ calls, c.machine.console.sink.accepts = true) :
    (∀ c ∈ calls, ∀ target,
      (finish c.direct).console.sink.output = c.machine.console.sink.output ++ c.written ∧
        c.redirected target = c.appending target) ∧
    ∀ target, calls.foldl (fun target c => (finish (c.redirected target)).2) target =
      target ++ String.join (calls.map written) := by
  have hends : ∀ c ∈ calls, ∀ target,
      (finish c.direct).console.sink.output = c.machine.console.sink.output ++ c.written ∧
        c.redirected target = c.appending target :=
    fun c hc => ends_alike (haccepts c hc)
  refine ⟨hends, ?_⟩
  clear haccepts
  induction calls with
  | nil => intro target; simp [String.join]
  | cons c calls ih =>
    intro target
    have hc := (hends c List.mem_cons_self target).2
    rw [List.foldl_cons, hc, finish_appending, ih fun d hd => hends d (List.mem_cons_of_mem c hd)]
    simp [String.append_assoc]

/-- Three calls one after another: the first goes wrong after it has written, the second takes the input of the
machine, and the last has its own. -/
theorem appends_past_failure :
    let first : Call :=
      ⟨{ bootMachine with console := ⟨.text "before", .text "5\n6\n".toList⟩ }, "1 . nope", none⟩
    let second : Call := ⟨first.after, "inputn .", none⟩
    let third : Call := ⟨second.after, "inputn .", some "7\n"⟩
    let calls := [first, second, third]
    (∀ c ∈ calls, c.machine.console.sink.accepts = true) ∧
      ((∀ c ∈ calls, ∀ target,
        (finish c.direct).console.sink.output = c.machine.console.sink.output ++ c.written ∧
          c.redirected target = c.appending target) ∧
      ∀ target, calls.foldl (fun target c => (finish (c.redirected target)).2) target =
        target ++ String.join (calls.map written)) ∧
      calls.map written = ["1", "5", "7"] ∧ raised? first.direct ≠ none ∧
      third.after.console = ⟨.text "before", .text "6\n".toList⟩ := by
  intro first second third calls
  have haccepts : ∀ c ∈ calls, c.machine.console.sink.accepts = true := by decide +kernel
  exact ⟨haccepts, appends calls haccepts, by decide +kernel, by decide +kernel, by decide +kernel⟩

end Call

end Forth
