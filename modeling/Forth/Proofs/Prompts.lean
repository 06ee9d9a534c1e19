import Forth.Proofs.Faults
import Forth.Proofs.Spacing

/-!
# What becomes of a line at the prompt

A session goes on after every line but `.bye`, with one exception: no line can deal with a number that has too
many digits (`handleLine_answers`). Such a number is no failure of the classified kind, so nothing on the way
catches it, be it a literal (`handleLine_raises_on_long_literal`), a cell that a word writes, or one that a
dot-command shows. Where input is not given beforehand, a line may also ask for it and get a fault instead
(`Machine.Ready.handleLine_error_iff`).
-/
namespace Forth

open Machine

def DotCommand.shown? (m : Machine Empty) (args : List String) : Option (List Int) :=
  match args with
  | [] => some (leading m.memory.cells.toList defaultCount)
  | arg :: _ => (Numeral.readCount? arg).map (leading m.memory.cells.toList)

/-- The command would have to show a cell that is too long. -/
def DotCommand.Oversized (m : Machine Empty) (args : List String) : DotCommand → Prop
  | .stack => ∃ n ∈ m.stack, Cell.Long n
  | .mem => ∃ cells ∈ shown? m args, ∃ n ∈ cells, Cell.Long n
  | _ => False

namespace Machine

/-- The line asks for a cell that is too long, or evaluating it comes to one. -/
def Oversteps (m : Machine Empty) (line : String) : Prop :=
  ∃ name args, Text.words line = name :: args ∧
    match DotCommand.ofName? name with
    | some c => c.Oversized m args
    | none =>
      ∃ outer here, Reaches nestingLimit none (tokenize (Text.strip line)) ⟨m, []⟩ outer here ∧
        here.Oversized

/-- The line is a program, and evaluating it comes to a word that asks for input and gets a fault instead. -/
def Unanswered (m : Machine Empty) (line : String) (f : Fault) : Prop :=
  ∃ name args, Text.words line = name :: args ∧ DotCommand.ofName? name = none ∧
    ∃ outer here, Reaches nestingLimit none (tokenize (Text.strip line)) ⟨m, []⟩ outer here ∧
      here.Unanswered f

/-- The machine after one more write. -/
def written (m : Machine Empty) (t : String) : Machine Empty :=
  { m with console := { m.console with sink := m.console.sink.append t } }

/-- The machine after some lines, whatever became of each of them. -/
def afterLines (m : Machine Empty) (lines : List String) : Machine Empty :=
  lines.foldl (fun m line => finish (handleLine line m)) m

theorem Ready.write_eq {m : Machine Empty} (hm : m.Ready) (t : String) :
    m.console.sink.write t = .ok (m.console.sink.append t) := by
  rw [Sink.write, hm.accepts]
  rfl

theorem Ready.write {m : Machine Empty} (hm : m.Ready) (t : String) :
    Machine.write t m = .ok () (m.written t) := by
  rw [Machine.write, hm.write_eq]
  rfl

theorem Ready.written {m : Machine Empty} (hm : m.Ready) (t : String) : (m.written t).Ready :=
  ⟨Sink.accepts_append hm.accepts t, hm.fits⟩

/-- Whatever words do, the machine stays ready. -/
theorem steadily_ready : Steady Machine.Ready fun _ => True where
  stack hm _ := ⟨hm.accepts, hm.fits⟩
  words hm _ _ := ⟨hm.accepts, hm.fits⟩
  note hm _ := ⟨hm.accepts, hm.fits⟩
  put hm := hm.put
  cause _ := trivial
  emit {t m} _ hm := by
    obtain ⟨sink, he, hs⟩ := hm.emit_eq t
    rw [he]
    exact ⟨hs, hm.fits⟩
  readLine m hm := by
    unfold readLine
    split
    · exact hm.with_source _
    · exact ⟨hm.with_source _, trivial⟩

theorem Sound.write_eq {m : Machine Empty} (hm : m.Sound) (t : String) :
    m.console.sink.write t = .ok (m.console.sink.append t) := hm.ready.write_eq t

theorem Sound.written {m : Machine Empty} (hm : m.Sound) (t : String) : (m.written t).Sound :=
  ⟨⟨Sink.accepts_append hm.1.1 t, hm.1.2⟩, hm.2⟩

theorem steadily_sound : Steady Machine.Sound fun _ => True := steady_sound fun _ => trivial

theorem unwritten_sound : Unwritten Machine.Sound := by
  intro m t sink hm hs
  rw [hm.write_eq] at hs
  cases hs
  exact hm.written t

theorem fresh_memory (memory : Memory) (console : Console) :
    (fresh memory console : Machine Empty).memory = memory := rfl

theorem fresh_console (memory : Memory) (console : Console) :
    (fresh memory console : Machine Empty).console = console := rfl

theorem fresh_sink (memory : Memory) (input : List String) :
    (fresh memory (.ofLines input) : Machine Empty).console.sink = .events [] := rfl

theorem sound_fresh {room : Nat} {size : Int} {memory : Memory} (h : Memory.ofSize room size = .ok memory)
    (input : List String) : (fresh memory (.ofLines input) : Machine Empty).Sound := by
  refine ⟨?_, ?_⟩
  · rw [fresh_console]
    exact ⟨rfl, .inr ⟨input, rfl⟩⟩
  · rw [fresh_memory]
    exact Memory.fitsWord_of_ofSize h

theorem afterLines_cons (m : Machine Empty) (line : String) (lines : List String) :
    m.afterLines (line :: lines) = (finish (handleLine line m)).afterLines lines := by
  rw [afterLines, List.foldl_cons, afterLines]

theorem Sound.afterLines {m : Machine Empty} (hm : m.Sound) (lines : List String) :
    (m.afterLines lines).Sound := by
  induction lines generalizing m with
  | nil => exact hm
  | cons line lines ih =>
    have hline : (finish (handleLine line m)).Sound :=
      handleLine_stable steadily_sound trivial unwritten_sound line m hm
    rw [afterLines_cons]
    exact ih hline

end Machine

/-! ### Dot-commands -/

namespace DotCommand

variable {m : Machine Empty} {args : List String} {name : String} {f : Fault}

theorem ofName?_eq_bye_iff : ofName? name = some .bye ↔ name = ".bye" := by
  constructor
  · intro h
    obtain ⟨before, after, htable, -⟩ := List.lookup_eq_some_iff.1 h
    have hmem : (name, .bye) ∈ table := by
      rw [htable]
      exact List.mem_append_right before List.mem_cons_self
    simpa [table] using hmem
  · rintro rfl
    rfl

theorem showMemory_error_iff {count : Int} :
    showMemory m count = .error f ↔
      f = .digitLimit ∧ ∃ n ∈ leading m.memory.cells.toList count, Cell.Long n := by
  rw [← Numeral.texts?_eq_none_iff, showMemory]
  cases Numeral.texts? (leading m.memory.cells.toList count) with
  | none => simp [eq_comm]
  | some cells => simp

/-- A command goes wrong exactly if it would have to show a cell that is too long. -/
theorem perform_error_iff (c : DotCommand) :
    c.perform m args = .error f ↔ f = .digitLimit ∧ c.Oversized m args := by
  cases c with
  | stack =>
    have hlist : m.stack.summary? = none ↔ ∃ n ∈ m.stack, Cell.Long n := by
      simp [Stack.summary?, Numeral.texts?_eq_none_iff, Stack.bottomUp]
    rw [Oversized, ← hlist, perform, showStack]
    cases m.stack.summary? with
    | none => simp [eq_comm]
    | some t => simp
  | mem =>
    cases args with
    | nil => simp [perform, Oversized, shown?, showMemory_error_iff]
    | cons arg args =>
      simp only [perform, Oversized, shown?]
      cases Numeral.readCount? arg with
      | none => simp
      | some count => simp [showMemory_error_iff]
  | word => cases args <;> simp [perform, Oversized]
  | see => cases args <;> simp [perform, Oversized]
  | bye => simp [perform, Oversized]
  | dict => simp [perform, Oversized]
  | help => simp [perform, Oversized]

end DotCommand

/-! ### Lines -/

section Lines

variable {m : Machine Empty} {line name text : String} {args : List String} {c : DotCommand} {f : Fault}

theorem handleLine_blank (hw : Text.words line = []) : handleLine line m = .ok true m := by
  unfold handleLine
  rw [Text.words_strip, hw]
  rfl

theorem handleLine_bye (hw : Text.words line = name :: args) (hn : DotCommand.ofName? name = some .bye) :
    handleLine line m = .ok false m := by
  unfold handleLine
  simp only [Text.words_strip, hw, hn]
  rfl

theorem handleLine_of_bye (h : (Text.words line).head? = some ".bye") (m : Machine Empty) :
    handleLine line m = .ok false m := by
  obtain ⟨args, hw⟩ := List.head?_eq_some_iff.1 h
  exact handleLine_bye hw (DotCommand.ofName?_eq_bye_iff.2 rfl)

theorem Machine.Ready.handleLine_command (hm : m.Ready) (hw : Text.words line = name :: args)
    (hn : DotCommand.ofName? name = some c) (hc : c ≠ .bye) :
    handleLine line m =
      match c.perform m args with
      | .error f => .error f m
      | .ok text => .ok true (m.written text) := by
  have hanswer : DotCommand.answer m (Text.strip line) = c.perform m args := by
    rw [DotCommand.answer, Text.words_strip, hw]
    simp only [hn]
  unfold handleLine
  simp only [Text.words_strip, hw, hn]
  rw [← hanswer]
  cases c with
  | bye => exact absurd rfl hc
  | _ =>
    simp only [bind, EStateM.bind, get_apply]
    cases DotCommand.answer m (Text.strip line) with
    | error f => rfl
    | ok text =>
      simp only [EStateM.bind, hm.write]
      rfl

/-- Every failure of a line can be reported. -/
theorem Machine.Ready.runLine_eq (hm : m.Ready) :
    runLine text m =
      match interpret none (tokenize text) ⟨m, []⟩ with
      | .ok () s => .ok true s.toMachine
      | .error (.fault f) s => .error f s.toMachine
      | .error (.failed f) s => .ok false ((s.toMachine.note .runFailed).written (f.report ++ "\n")) := by
  have hready := interpretWithin_upholds steadily_ready trivial nestingLimit none (tokenize text)
    (s := ⟨m, []⟩) hm
  unfold runLine run interpret
  cases hr : interpretWithin nestingLimit none (tokenize text) ⟨m, []⟩ with
  | ok u s => rfl
  | error a s =>
    cases a with
    | fault f => rfl
    | failed f =>
      rw [hr] at hready
      have hnote : (s.toMachine.note .runFailed).Ready := steadily_ready.note hready .runFailed
      simp only [hnote.write_eq]
      rfl

/-- A line that is no dot-command is evaluated, and what becomes of that is written. -/
theorem Machine.Ready.handleLine_program (hm : m.Ready) (hw : Text.words line = name :: args)
    (hn : DotCommand.ofName? name = none) :
    handleLine line m =
      match interpret none (tokenize (Text.strip line)) ⟨m, []⟩ with
      | .ok () s => .ok true (s.toMachine.written " ok\n")
      | .error (.fault f) s => .error f s.toMachine
      | .error (.failed f) s => .ok true ((s.toMachine.note .runFailed).written (f.report ++ "\n")) := by
  have hready := interpretWithin_upholds steadily_ready trivial nestingLimit none (tokenize (Text.strip line))
    (s := ⟨m, []⟩) hm
  unfold handleLine
  simp only [Text.words_strip, hw, hn, bind, EStateM.bind, hm.runLine_eq, interpret]
  cases hr : interpretWithin nestingLimit none (tokenize (Text.strip line)) ⟨m, []⟩ with
  | error a s => cases a <;> rfl
  | ok u s =>
    rw [hr] at hready
    simp only [if_true, EStateM.bind, Ready.write (m := s.toMachine) hready]
    rfl

theorem Machine.Ready.interpret_fault_iff (hm : m.Ready) (tokens : List String) :
    (∃ s', interpret none tokens ⟨m, []⟩ = .error (.fault f) s') ↔
      (f = .digitLimit ∧
        ∃ outer here, Reaches nestingLimit none tokens ⟨m, []⟩ outer here ∧ here.Oversized) ∨
      ∃ outer here, Reaches nestingLimit none tokens ⟨m, []⟩ outer here ∧ here.Unanswered f := by
  have hevaluate : (∃ s', interpret none tokens ⟨m, []⟩ = .error (.fault f) s') ↔
      ∃ s', evaluate nestingLimit none tokens ⟨m, []⟩ = .error (.fault f) s' := by
    unfold interpret interpretWithin
    cases evaluate nestingLimit none tokens ⟨m, []⟩ with
    | ok u s => simp
    | error e s => cases e <;> simp
  have hbreaks {outer : List Frame} {here : Moment}
      (hr : Reaches nestingLimit none tokens ⟨m, []⟩ outer here) :
      (∃ k t, here.Breaks ⟨.fault f, k⟩ t) ↔ f = .digitLimit ∧ here.Oversized ∨ here.Unanswered f :=
    Moment.breaks_fault_iff_of_ready (hr.upholds steadily_ready trivial hm) f
  rw [hevaluate, evaluate_fault_iff]
  constructor
  · rintro ⟨outer, here, k, t, hr, hb⟩
    rcases (hbreaks hr).1 ⟨k, t, hb⟩ with ⟨hf, ho⟩ | hu
    · exact .inl ⟨hf, outer, here, hr, ho⟩
    · exact .inr ⟨outer, here, hr, hu⟩
  · rintro (⟨hf, outer, here, hr, ho⟩ | ⟨outer, here, hr, hu⟩)
    · obtain ⟨k, t, hb⟩ := (hbreaks hr).2 (.inl ⟨hf, ho⟩)
      exact ⟨outer, here, k, t, hr, hb⟩
    · obtain ⟨k, t, hb⟩ := (hbreaks hr).2 (.inr hu)
      exact ⟨outer, here, k, t, hr, hb⟩

/-- A line faults exactly if it would read or write a number that is too long, or asks and gets no answer. -/
theorem Machine.Ready.handleLine_error_iff (hm : m.Ready) :
    (∃ m', handleLine line m = .error f m') ↔ f = .digitLimit ∧ m.Oversteps line ∨ m.Unanswered line f := by
  unfold Oversteps Unanswered
  cases hw : Text.words line with
  | nil => simp [handleLine_blank hw]
  | cons name args =>
    have hsplit (p : String → List String → Prop) :
        (∃ name' args', name :: args = name' :: args' ∧ p name' args') ↔ p name args := by
      constructor
      · rintro ⟨_, _, h, hp⟩
        cases h
        exact hp
      · exact fun hp => ⟨name, args, rfl, hp⟩
    rw [hsplit, hsplit fun name _ => DotCommand.ofName? name = none ∧ _]
    cases hn : DotCommand.ofName? name with
    | some c =>
      simp only [reduceCtorEq, false_and, or_false]
      rw [← DotCommand.perform_error_iff]
      by_cases hc : c = .bye
      · subst hc
        simp [handleLine_bye hw hn, DotCommand.perform]
      · rw [hm.handleLine_command hw hn hc]
        cases c.perform m args <;> simp
    | none =>
      simp only [true_and]
      rw [← hm.interpret_fault_iff, hm.handleLine_program hw hn]
      cases interpret none (tokenize (Text.strip line)) ⟨m, []⟩ with
      | ok u s => simp
      | error a s => cases a <;> simp

theorem Machine.Ready.handleLine_false_iff (hm : m.Ready) {more : Bool} {m' : Machine Empty}
    (h : handleLine line m = .ok more m') :
    more = false ↔ (Text.words line).head? = some ".bye" := by
  cases hw : Text.words line with
  | nil =>
    rw [handleLine_blank hw] at h
    cases h
    simp
  | cons name args =>
    rw [List.head?_cons, Option.some.injEq, ← DotCommand.ofName?_eq_bye_iff]
    cases hn : DotCommand.ofName? name with
    | none =>
      rw [hm.handleLine_program hw hn] at h
      split at h <;> cases h <;> simp
    | some c =>
      by_cases hc : c = .bye
      · subst hc
        rw [handleLine_bye hw hn] at h
        cases h
        simp
      · rw [hm.handleLine_command hw hn hc] at h
        split at h <;> cases h
        simp [hc]

/-! ### Lines with their input given beforehand -/

variable (hm : m.Sound)

include hm

theorem handleLine_command (hw : Text.words line = name :: args)
    (hn : DotCommand.ofName? name = some c) (hc : c ≠ .bye) :
    handleLine line m =
      match c.perform m args with
      | .error f => .error f m
      | .ok text => .ok true (m.written text) :=
  hm.ready.handleLine_command hw hn hc

theorem handleLine_program (hw : Text.words line = name :: args)
    (hn : DotCommand.ofName? name = none) :
    handleLine line m =
      match interpret none (tokenize (Text.strip line)) ⟨m, []⟩ with
      | .ok () s => .ok true (s.toMachine.written " ok\n")
      | .error (.fault f) s => .error f s.toMachine
      | .error (.failed f) s => .ok true ((s.toMachine.note .runFailed).written (f.report ++ "\n")) :=
  hm.ready.handleLine_program hw hn

theorem not_unanswered : ¬ m.Unanswered line f := by
  intro ⟨_, _, _, _, outer, here, hr, token, w, accept, m', _, _, _, hread⟩
  have hsound := hr.upholds steadily_sound trivial hm
  exact hsound.readCell_ne_fault accept _ f hread

/-- A line faults exactly if it would read or write a number that is too long. -/
theorem handleLine_error_iff :
    (∃ m', handleLine line m = .error f m') ↔ f = .digitLimit ∧ m.Oversteps line := by
  rw [hm.ready.handleLine_error_iff]
  exact or_iff_left (not_unanswered hm)

theorem handleLine_false_iff {more : Bool} {m' : Machine Empty}
    (h : handleLine line m = .ok more m') :
    more = false ↔ (Text.words line).head? = some ".bye" :=
  hm.ready.handleLine_false_iff h

end Lines

/-- A line ends the session only if it begins with `.bye`. Otherwise it is dealt with, and each failure is
written to the console; unless it would have to read or write a number that is too long, which no line
survives. -/
theorem handleLine_answers {room : Nat} {size : Int} {memory : Memory}
    (hmemory : Memory.ofSize room size = .ok memory) (input earlier : List String) (line : String) :
    let m := (Machine.fresh memory (.ofLines input)).afterLines earlier
    (∀ f, (∃ m', handleLine line m = .error f m') ↔ f = .digitLimit ∧ m.Oversteps line) ∧
      (∀ more m', handleLine line m = .ok more m' →
        (more = false ↔ (Text.words line).head? = some ".bye")) ∧
      ∀ name args, Text.words line = name :: args →
        (∀ f s', DotCommand.ofName? name = none →
          interpret none (tokenize (Text.strip line)) ⟨m, []⟩ = .error (.failed f) s' →
          handleLine line m = .ok true ((s'.toMachine.note .runFailed).written (f.report ++ "\n"))) ∧
        ∀ c text, DotCommand.ofName? name = some c → c ≠ .bye → c.perform m args = .ok text →
          handleLine line m = .ok true (m.written text) := by
  intro m
  have hm : m.Sound := (sound_fresh hmemory input).afterLines earlier
  refine ⟨fun f => handleLine_error_iff hm, fun more m' => handleLine_false_iff hm, ?_⟩
  intro name args hw
  constructor
  · intro f s' hn hi
    rw [handleLine_program hm hw hn, hi]
  · intro c text hn hc ht
    rw [handleLine_command hm hw hn hc, ht]

/-- Two requests for help, one after the other. -/
theorem handleLine_answers_help :
    let m := (Machine.fresh (.zeros 2) (.ofLines []) : Machine Empty).afterLines [".help"]
    Memory.ofSize 2 2 = .ok (.zeros 2) ∧ handleLine " .help" m = .ok true (m.written DotCommand.helpLine) := by
  intro m
  have hmemory : Memory.ofSize 2 2 = .ok (.zeros 2) := rfl
  have hwords : Text.words " .help" = [".help"] := by decide
  obtain ⟨-, -, h⟩ := handleLine_answers hmemory [] [".help"] " .help"
  exact ⟨hmemory, (h ".help" [] hwords).2 .help _ rfl (by decide) rfl⟩

/-- A line that is a literal with one digit too many is not survived. -/
theorem handleLine_raises_on_long_literal :
    ∃ m', handleLine (String.ofList (List.replicate 4301 '1'))
      (Machine.fresh (.zeros 128) (.ofLines []) : Machine Empty) = .error .digitLimit m' := by
  generalize hline : String.ofList (List.replicate 4301 '1') = line
  have hchars : line.toList = List.replicate 4301 '1' := by rw [← hline, String.toList_ofList]
  have hdigit {p : Char → Bool} (hp : p '1' = false) : ∀ c ∈ line.toList, p c = false := by
    intro c hc
    rw [hchars] at hc
    rw [List.eq_of_mem_replicate hc]
    exact hp
  have hfirst : line.toList.head? = some '1' := by
    rw [hchars]
    rfl
  have hne : line ≠ "" := by
    rintro rfl
    cases hfirst
  have hcommand : DotCommand.ofName? line = none := by
    refine List.lookup_eq_none_iff.2 fun p hp => ?_
    have hdot : ∀ p ∈ DotCommand.table, p.1.toList.head? = some '.' := by decide
    refine bne_iff_ne.2 ?_
    rintro rfl
    cases hfirst.symm.trans (hdot p hp)
  have hlong : Numeral.LongLiteral line := by
    have hdigits : Numeral.isDigits line.toList = true := by
      have hall : line.toList.all Char.isDigit = true := by
        rw [hchars, List.all_replicate]
        decide
      cases hcs : line.toList with
      | nil =>
        rw [hcs] at hfirst
        cases hfirst
      | cons c cs =>
        rw [hcs] at hall
        exact hall
    rw [Numeral.LongLiteral, Numeral.splitSign_of_isDigits hdigits]
    refine ⟨hdigits, ?_⟩
    rw [hchars, List.length_replicate]
    decide
  have hmemory : Memory.ofSize 128 128 = .ok (.zeros 128) := rfl
  have hm := sound_fresh hmemory []
  refine (handleLine_error_iff hm).2 ⟨rfl, line, [], Text.words_eq_singleton hne (hdigit (by decide)), ?_⟩
  rw [hcommand, Text.strip_eq_self (hdigit (by decide)), Text.tokenize_eq_singleton hne (hdigit (by decide))]
  exact ⟨[], _, .here .start Nat.one_pos, line, rfl, .inl hlong⟩

end Forth
