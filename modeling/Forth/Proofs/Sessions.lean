import Forth.Proofs.Prompts

/-!
# Sessions

A session asks its user for lines at the main prompt, and in the middle of a line for the input of its words. An
interrupt at the main prompt is remarked on, and the session goes on with the next answer. An interrupt of a word
that asks for input is no failure of the classified kind: nothing catches it, and it ends the session. But for
numbers that are too long a session ends in no other way than that, with the input at the main prompt, or by
`.bye` there (`session_ends_iff`).
-/
namespace Forth

open Machine

inductive Interrupting (accept : String → Option Int) : List Answer → Prop
  | now {rest : List Answer} : Interrupting accept (.interrupt :: rest)
  | later {line : String} {rest : List Answer} : line.isEmpty = true ∨ accept line = none →
      Interrupting accept rest → Interrupting accept (.line line :: rest)

/-- The token asks for input, and the user interrupts it. -/
def Moment.Interrupted (here : Moment) : Prop :=
  ∃ token w accept u, here.tokens[here.pos]? = some token ∧
    here.scope.words.sense token = .primitive (.simple w) ∧ w.accepts? = some accept ∧
    here.scope.console.source = .user u ∧ Interrupting accept u.answers

namespace Machine

/-- The line is a program, and the user interrupts a word that evaluating it comes to. -/
def Interrupted (m : Machine Empty) (line : String) : Prop :=
  ∃ name args, Text.words line = name :: args ∧ DotCommand.ofName? name = none ∧
    ∃ outer here, Reaches nestingLimit none (tokenize (Text.strip line)) ⟨m, []⟩ outer here ∧ here.Interrupted

/-- A machine that is ready, and a user behind its console with no more answers than the number says. -/
structure Attended (n : Nat) (m : Machine Empty) : Prop extends m.Ready where
  user : ∃ u, m.console.source = .user u ∧ u.answers.length ≤ n

theorem Attended.written {n : Nat} {m : Machine Empty} (hm : m.Attended n) (t : String) :
    (m.written t).Attended n :=
  ⟨hm.toReady.written t, hm.user⟩

/-- Words use up answers, and do nothing else to the user. -/
theorem steadily_attended (n : Nat) : Steady (Attended n) fun _ => True where
  stack hm stack := ⟨steadily_ready.stack hm.toReady stack, hm.user⟩
  words hm hw hadd := ⟨steadily_ready.words hm.toReady hw hadd, hm.user⟩
  note hm e := ⟨steadily_ready.note hm.toReady e, hm.user⟩
  put hm i k := ⟨steadily_ready.put hm.toReady i k, hm.user⟩
  cause _ := trivial
  emit {t m} _ hm := by
    obtain ⟨sink, he, hs⟩ := hm.emit_eq t
    rw [he]
    exact ⟨⟨hs, hm.fits⟩, hm.user⟩
  readLine m hm := by
    obtain ⟨⟨answers, prompts⟩, hu, hn⟩ := hm.user
    simp only [readLine, hu, Source.readLine]
    cases answers with
    | nil => exact ⟨hm.with_source _, _, rfl, hn⟩
    | cons answer rest =>
      have hrest : rest.length ≤ n := Nat.le_of_succ_le hn
      cases answer with
      | line text => exact ⟨hm.with_source _, _, rfl, hrest⟩
      | interrupt => exact ⟨⟨hm.with_source _, _, rfl, hrest⟩, trivial⟩
      | endOfInput => exact ⟨hm.with_source _, _, rfl, hrest⟩

theorem unwritten_attended (n : Nat) : Unwritten (Attended n) := by
  intro m t sink hm hs
  rw [hm.write_eq] at hs
  cases hs
  exact hm.written t

end Machine

variable {accept : String → Option Int} {n : Nat} {m m' : Machine Empty} {f : Fault} {line : String}

/-! ### Words that ask the user -/

theorem Interrupting.line_iff {rest : List Answer} :
    Interrupting accept (.line line :: rest) ↔
      (line.isEmpty = true ∨ accept line = none) ∧ Interrupting accept rest := by
  constructor
  · intro h
    cases h with
    | later hline hrest => exact ⟨hline, hrest⟩
  · intro ⟨hline, hrest⟩
    exact .later hline hrest

theorem askOnce_interrupt (accept : String → Option Int) {rest : List Answer} {prompts : Array String}
    (hu : m.console.source = .user ⟨.interrupt :: rest, prompts⟩) :
    ∃ m', askOnce accept m = .error (.fault .interrupted) m' := by
  simp only [askOnce, bind, EStateM.bind, readLine, hu, Source.readLine, User.ask]
  exact ⟨_, rfl⟩

theorem askOnce_end (accept : String → Option Int) {u : User} (hu : m.console.source = .user u)
    (ha : u.answers = [] ∨ u.answers.head? = some .endOfInput) :
    ∃ m', askOnce accept m = .error (.cause .inputExhausted) m' := by
  obtain ⟨answers, prompts⟩ := u
  cases answers with
  | nil => exact ⟨_, askOnce_of_ended accept (by rw [hu]; rfl)⟩
  | cons answer rest =>
    obtain rfl : answer = .endOfInput := by simpa using ha
    exact ⟨_, askOnce_of_ended accept (by rw [hu]; rfl)⟩

/-- A line of the user is accepted, or remarked on and used up. -/
theorem askOnce_line (accept : String → Option Int) (hm : m.Ready) {rest : List Answer} {prompts : Array String}
    (hu : m.console.source = .user ⟨.line line :: rest, prompts⟩) :
    (∃ k m', askOnce accept m = .ok (some k) m' ∧ line.isEmpty = false ∧ accept line = some k) ∨
      ∃ m' prompts', askOnce accept m = .ok none m' ∧ (line.isEmpty = true ∨ accept line = none) ∧
        m'.Ready ∧ m'.console.source = .user ⟨rest, prompts'⟩ := by
  have hread : m.console.source.readLine =
      (.ok (some line), .user ⟨rest, prompts.push Source.inputPrompt⟩) := by
    rw [hu]
    rfl
  by_cases hline : line.isEmpty = true ∨ accept line = none
  · exact .inr ⟨_, _, askOnce_of_refused hread hline hm.accepts, hline,
      ⟨Sink.accepts_append hm.accepts _, hm.fits⟩, rfl⟩
  · rw [not_or, Bool.not_eq_true, ← ne_eq, Option.ne_none_iff_exists'] at hline
    obtain ⟨hempty, k, ha⟩ := hline
    exact .inl ⟨k, _, askOnce_of_accepted hread hempty ha, hempty, ha⟩

/-- Asking the user faults exactly if the user interrupts it. -/
theorem readCell_fault_iff {u : User} (hm : m.Ready) (hu : m.console.source = .user u)
    (hn : u.answers.length < n) :
    (∃ m', readCell accept n m = .error (.fault f) m') ↔ f = .interrupted ∧ Interrupting accept u.answers := by
  obtain ⟨answers, prompts⟩ := u
  induction answers generalizing m n prompts with
  | nil =>
    obtain ⟨n, rfl⟩ : ∃ k, n = k + 1 := ⟨n - 1, by simp only [List.length_nil] at hn; omega⟩
    obtain ⟨m', hask⟩ := askOnce_end accept hu (.inl rfl)
    rw [readCell_succ, hask]
    refine iff_of_false (by simp) ?_
    rintro ⟨-, ⟨⟩⟩
  | cons answer rest ih =>
    obtain ⟨n, rfl⟩ : ∃ k, n = k + 1 := ⟨n - 1, by simp only [List.length_cons] at hn; omega⟩
    rw [readCell_succ]
    cases answer with
    | interrupt =>
      obtain ⟨m', hask⟩ := askOnce_interrupt accept hu
      rw [hask]
      constructor
      · rintro ⟨m'', ⟨⟩⟩
        exact ⟨rfl, .now⟩
      · rintro ⟨rfl, -⟩
        exact ⟨_, rfl⟩
    | endOfInput =>
      obtain ⟨m', hask⟩ := askOnce_end accept hu (.inr rfl)
      rw [hask]
      refine iff_of_false (by simp) ?_
      rintro ⟨-, ⟨⟩⟩
    | line line =>
      rw [Interrupting.line_iff]
      obtain ⟨k, m', hask, hempty, haccept⟩ | ⟨m', prompts', hask, hline, hm', hu'⟩ :=
        askOnce_line accept hm hu
      · rw [hask]
        refine iff_of_false (by simp) ?_
        rintro ⟨-, hline, -⟩
        simp [hempty, haccept] at hline
      · rw [hask]
        simp only
        rw [ih hm' prompts' hu' (by simp only [List.length_cons] at hn ⊢; omega)]
        simp only [hline, true_and]

theorem Moment.unanswered_iff {here : Moment} (hs : here.scope.Attended n) :
    here.Unanswered f ↔ f = .interrupted ∧ here.Interrupted := by
  obtain ⟨u, hu, -⟩ := hs.user
  have hread {accept : String → Option Int} :
      (∃ m, readCell accept (here.scope.console.source.remaining + 1) here.scope.toMachine =
        .error (.fault f) m) ↔ f = .interrupted ∧ Interrupting accept u.answers := by
    refine readCell_fault_iff hs.toReady hu ?_
    rw [hu]
    exact Nat.lt_succ_self _
  constructor
  · intro ⟨token, w, accept, m, ht, hsense, hw, hm⟩
    obtain ⟨hf, hi⟩ := hread.1 ⟨m, hm⟩
    exact ⟨hf, token, w, accept, u, ht, hsense, hw, hu, hi⟩
  · intro ⟨hf, token, w, accept, u', ht, hsense, hw, hu', hi⟩
    cases hu.symm.trans hu'
    obtain ⟨m, hm⟩ := hread.2 ⟨hf, hi⟩
    exact ⟨token, w, accept, m, ht, hsense, hw, hm⟩

theorem Machine.Attended.unanswered_iff (hm : m.Attended n) :
    m.Unanswered line f ↔ f = .interrupted ∧ m.Interrupted line := by
  have hhere {outer : List Frame} {here : Moment}
      (hr : Reaches nestingLimit none (tokenize (Text.strip line)) ⟨m, []⟩ outer here) :
      here.Unanswered f ↔ f = .interrupted ∧ here.Interrupted :=
    Moment.unanswered_iff (hr.upholds (steadily_attended n) trivial hm)
  constructor
  · intro ⟨name, args, hw, hc, outer, here, hr, hu⟩
    obtain ⟨hf, hi⟩ := (hhere hr).1 hu
    exact ⟨hf, name, args, hw, hc, outer, here, hr, hi⟩
  · intro ⟨hf, name, args, hw, hc, outer, here, hr, hi⟩
    exact ⟨name, args, hw, hc, outer, here, hr, (hhere hr).2 ⟨hf, hi⟩⟩

/-! ### The main prompt -/

namespace Prompt

inductive Returns (start : Machine Empty) : Machine Empty → Prop
  | start : Returns start start
  | interrupt {m m' : Machine Empty} : Returns start m → ask m = (.interrupt, m') →
      Returns start (m'.written interruptNotice)
  | line {m m' m'' : Machine Empty} {line : String} : Returns start m → ask m = (.line line, m') →
      handleLine line m' = .ok true m'' → Returns start m''

/-- What the loop comes to if the main prompt is the last one: the input has ended, the line begins with `.bye`,
or something is raised. -/
inductive Stops (m : Machine Empty) : EStateM.Result Fault (Machine Empty) Unit → Prop
  | endOfInput {m' : Machine Empty} : ask m = (.endOfInput, m') → Stops m (.ok () m')
  | bye {m' : Machine Empty} {line : String} : ask m = (.line line, m') →
      (Text.words line).head? = some ".bye" → Stops m (.ok () m')
  | raised {m' m'' : Machine Empty} {line : String} {f : Fault} : ask m = (.line line, m') →
      handleLine line m' = .error f m'' → Stops m (.error f m'')

variable {k : Nat} {start : Machine Empty} {r : EStateM.Result Fault (Machine Empty) Unit}

/-- Asking uses up an answer, if there is one. -/
theorem attended_ask {answer : Answer} (hm : m.Attended k) (ha : ask m = (answer, m')) :
    m'.Attended k ∧ (answer ≠ .endOfInput → k ≠ 0 ∧ m'.Attended (k - 1)) := by
  obtain ⟨⟨answers, prompts⟩, hu, hk⟩ := hm.user
  simp only [ask, hu, User.ask] at ha
  cases answers with
  | nil =>
    cases ha
    exact ⟨⟨hm.with_source _, _, rfl, Nat.zero_le k⟩, fun h => absurd rfl h⟩
  | cons first rest =>
    cases ha
    have hrest : rest.length + 1 ≤ k := hk
    refine ⟨⟨hm.with_source _, _, rfl, Nat.le_of_succ_le hrest⟩, fun _ => ⟨?_, hm.with_source _, _, rfl, ?_⟩⟩
    · omega
    · exact Nat.le_sub_one_of_lt hrest

theorem attended_handleLine (hm : m.Attended k) (h : handleLine line m = .ok true m') : m'.Attended k := by
  have hstable := handleLine_stable (steadily_attended k) trivial (unwritten_attended k) line m hm
  rw [h] at hstable
  exact hstable

theorem loop_succ (hm : m.Attended k) (n : Nat) :
    loop (n + 1) m =
      match ask m with
      | (.endOfInput, m') => .ok () m'
      | (.interrupt, m') => loop n (m'.written interruptNotice)
      | (.line line, m') =>
        match handleLine line m' with
        | .ok true m'' => loop n m''
        | .ok false m'' => .ok () m''
        | .error f m'' => .error f m'' := by
  have hset (m₁ m₂ : Machine Empty) : (set m₁ : EStateM Fault (Machine Empty) PUnit) m₂ = .ok ⟨⟩ m₁ := rfl
  simp only [loop, bind, EStateM.bind, get_apply, hset]
  rcases ha : ask m with ⟨answer, m'⟩
  have hready := (attended_ask hm ha).1.toReady
  cases answer with
  | endOfInput => rfl
  | interrupt => simp only [EStateM.bind, hready.write]
  | line line =>
    simp only [EStateM.bind]
    cases handleLine line m' with
    | error f m'' => rfl
    | ok more m'' => cases more <;> rfl

/-- From each return the loop goes on to another with fewer answers, or stops. -/
theorem Returns.stops (hr : Returns start m) (hm : m.Attended k) (hk : k < n) :
    ∃ m₁, Returns start m₁ ∧ Stops m₁ (loop n m) := by
  -- the bound of the loop stays above the number of answers, so that it is never what ends it
  induction n generalizing k m with
  | zero => omega
  | succ n ih =>
    rw [loop_succ hm]
    rcases ha : ask m with ⟨answer, m'⟩
    obtain ⟨-, hfewer⟩ := attended_ask hm ha
    cases answer with
    | endOfInput => exact ⟨m, hr, .endOfInput ha⟩
    | interrupt =>
      obtain ⟨hk', hm'⟩ := hfewer (by simp)
      exact ih (.interrupt hr ha) (hm'.written _) (by omega)
    | line line =>
      obtain ⟨hk', hm'⟩ := hfewer (by simp)
      simp only
      cases hline : handleLine line m' with
      | error f m'' => exact ⟨m, hr, .raised ha hline⟩
      | ok more m'' =>
        cases more with
        | true => exact ih (.line hr ha hline) (attended_handleLine hm' hline) (by omega)
        | false =>
          have hbye := (hm'.handleLine_false_iff hline).1 rfl
          cases (handleLine_of_bye hbye m').symm.trans hline
          exact ⟨m, hr, .bye ha hbye⟩

/-- The loop goes on from each return. -/
theorem Returns.loop_eq (hr : Returns start m) (hs : start.Attended k) (hk : k < n) :
    ∃ k' n', m.Attended k' ∧ k' < n' ∧ loop n start = loop n' m := by
  induction hr with
  | start => exact ⟨k, n, hs, hk, rfl⟩
  | interrupt hr ha ih =>
    obtain ⟨k', n', hm, hk', heq⟩ := ih
    obtain ⟨hne, hm'⟩ := (attended_ask hm ha).2 (by simp)
    obtain ⟨n', rfl⟩ : ∃ j, n' = j + 1 := ⟨n' - 1, by omega⟩
    rw [loop_succ hm, ha] at heq
    exact ⟨k' - 1, n', hm'.written _, by omega, heq⟩
  | line hr ha hline ih =>
    obtain ⟨k', n', hm, hk', heq⟩ := ih
    obtain ⟨hne, hm'⟩ := (attended_ask hm ha).2 (by simp)
    obtain ⟨n', rfl⟩ : ∃ j, n' = j + 1 := ⟨n' - 1, by omega⟩
    rw [loop_succ hm, ha] at heq
    simp only [hline] at heq
    exact ⟨k' - 1, n', attended_handleLine hm' hline, by omega, heq⟩

theorem Stops.loop_eq (hm : m.Attended k) (h : Stops m r) (n : Nat) : loop (n + 1) m = r := by
  rw [loop_succ hm]
  cases h with
  | endOfInput ha => rw [ha]
  | bye ha hbye =>
    rw [ha]
    simp only [handleLine_of_bye hbye]
  | raised ha hline =>
    rw [ha]
    simp only [hline]

/-- The loop comes to what it stops with at one of its returns. -/
theorem loop_eq_iff (hs : start.Attended k) (hk : k < n) :
    loop n start = r ↔ ∃ m, Returns start m ∧ Stops m r := by
  constructor
  · rintro rfl
    exact Returns.start.stops hs hk
  · intro ⟨m, hr, hstops⟩
    obtain ⟨k', n', hm, hk', heq⟩ := hr.loop_eq hs hk
    obtain ⟨n', rfl⟩ : ∃ j, n' = j + 1 := ⟨n' - 1, by omega⟩
    rw [heq, hstops.loop_eq hm]

theorem Returns.attended (hr : Returns start m) (hs : start.Attended k) : ∃ k', m.Attended k' := by
  obtain ⟨k', n', hm, -⟩ := hr.loop_eq hs (Nat.lt_succ_self k)
  exact ⟨k', hm⟩

theorem stops_ok_iff :
    Stops m (.ok () m') ↔ ask m = (.endOfInput, m') ∨
      ∃ line, ask m = (.line line, m') ∧ (Text.words line).head? = some ".bye" := by
  constructor
  · intro h
    cases h with
    | endOfInput ha => exact .inl ha
    | bye ha hbye => exact .inr ⟨_, ha, hbye⟩
  · rintro (ha | ⟨line, ha, hbye⟩)
    · exact .endOfInput ha
    · exact .bye ha hbye

theorem stops_error_iff (hm : m.Attended k) :
    (∃ m', Stops m (.error f m')) ↔ ∃ m₂ line, ask m = (.line line, m₂) ∧
      (f = .digitLimit ∧ m₂.Oversteps line ∨ f = .interrupted ∧ m₂.Interrupted line) := by
  have hline {m₂ : Machine Empty} {line : String} (ha : ask m = (.line line, m₂)) :
      (∃ m', handleLine line m₂ = .error f m') ↔
        f = .digitLimit ∧ m₂.Oversteps line ∨ f = .interrupted ∧ m₂.Interrupted line := by
    have hm₂ := (attended_ask hm ha).1
    rw [hm₂.handleLine_error_iff, hm₂.unanswered_iff]
  constructor
  · intro ⟨m', h⟩
    cases h with
    | raised ha hraised => exact ⟨_, _, ha, (hline ha).1 ⟨m', hraised⟩⟩
  · intro ⟨m₂, line, ha, hraises⟩
    obtain ⟨m', hraised⟩ := (hline ha).2 hraises
    exact ⟨m', .raised ha hraised⟩

theorem Stops.ready (hm : m.Attended k) (h : Stops m (.ok () m')) : m'.Ready := by
  cases h with
  | endOfInput ha => exact (attended_ask hm ha).1.toReady
  | bye ha hbye => exact (attended_ask hm ha).1.toReady

/-- The farewell comes behind a loop that does not fail. -/
def takeLeave : EStateM.Result Fault (Machine Empty) Unit → EStateM.Result Fault (Machine Empty) Unit
  | .ok () m => .ok () (m.written farewell)
  | .error f m => .error f m

theorem takeLeave_ok_iff : takeLeave r = .ok () m' ↔ ∃ m, r = .ok () m ∧ m' = m.written farewell := by
  cases r with
  | ok u m => simp [takeLeave, eq_comm]
  | error f m => simp [takeLeave]

theorem takeLeave_error_iff : takeLeave r = .error f m' ↔ r = .error f m' := by
  cases r <;> simp [takeLeave]

theorem session_eq (hm : m.Attended m.console.source.remaining) :
    session m = takeLeave (loop (m.console.source.remaining + 1) (m.written greeting)) := by
  have hstart := hm.written greeting
  simp only [session, bind, EStateM.bind, hm.toReady.write, get_apply]
  have hremaining : (m.written greeting).console.source.remaining = m.console.source.remaining := rfl
  rw [hremaining]
  cases hl : loop (m.console.source.remaining + 1) (m.written greeting) with
  | error f m' => rfl
  | ok u m' =>
    obtain ⟨m₁, hr, hstops⟩ := (loop_eq_iff hstart (Nat.lt_succ_self _)).1 hl
    obtain ⟨k', hm₁⟩ := hr.attended hstart
    exact (hstops.ready hm₁).write farewell

end Prompt

/-- A new machine waits for all the answers. -/
theorem attended_fresh {room : Nat} {size : Int} {memory : Memory} (h : Memory.ofSize room size = .ok memory)
    (answers : List Answer) :
    (fresh memory (.ofUser answers) : Machine Empty).Attended answers.length where
  accepts := by
    rw [fresh_console]
    rfl
  fits := by
    rw [fresh_memory]
    exact Memory.fitsWord_of_ofSize h
  user := by
    rw [fresh_console]
    exact ⟨_, rfl, Nat.le_refl _⟩

section Sessions

open Prompt

/-- A session takes leave exactly if it comes to a main prompt where the input ends, or the line begins with
`.bye`. An interrupt at a main prompt changes nothing but the console, and the session goes on with the next
answer. What a session raises is raised by a line at a main prompt: that would read or write a number that is
too long, or it comes to a word that asks for input, and the user interrupts that. -/
theorem session_ends_iff {room : Nat} {size : Int} {memory : Memory}
    (hmemory : Memory.ofSize room size = .ok memory) (answers : List Answer) :
    let m : Machine Empty := fresh memory (.ofUser answers)
    let start := m.written greeting
    (∀ m', session m = .ok () m' ↔
      ∃ m₁ m₂, Returns start m₁ ∧ m' = m₂.written farewell ∧
        (ask m₁ = (.endOfInput, m₂) ∨
          ∃ line, ask m₁ = (.line line, m₂) ∧ (Text.words line).head? = some ".bye")) ∧
    (∀ f, (∃ m', session m = .error f m') ↔
      ∃ m₁ m₂ line, Returns start m₁ ∧ ask m₁ = (.line line, m₂) ∧
        (f = .digitLimit ∧ m₂.Oversteps line ∨ f = .interrupted ∧ m₂.Interrupted line)) ∧
    ∀ m₁ rest prompts, Returns start m₁ → m₁.console.source = .user ⟨.interrupt :: rest, prompts⟩ →
      let m₂ := { m₁ with console :=
        ⟨m₁.console.sink.append interruptNotice, .user ⟨rest, prompts.push mainPrompt⟩⟩ }
      Returns start m₂ ∧ ∃ n, rest.length < n ∧ session m = takeLeave (loop n m₂) := by
  intro m start
  have hm : m.Attended answers.length := attended_fresh hmemory answers
  have hstart : start.Attended answers.length := hm.written greeting
  have hsession : session m = takeLeave (loop (answers.length + 1) start) := by
    have hremaining : m.console.source.remaining = answers.length := by rw [fresh_console]; rfl
    rw [session_eq (hremaining ▸ hm), hremaining]
  have hloop {r : EStateM.Result Fault (Machine Empty) Unit} :
      loop (answers.length + 1) start = r ↔ ∃ m₁, Returns start m₁ ∧ Stops m₁ r :=
    loop_eq_iff hstart (Nat.lt_succ_self _)
  rw [hsession]
  refine ⟨?_, ?_, ?_⟩
  · intro m'
    simp only [takeLeave_ok_iff, hloop, stops_ok_iff]
    constructor
    · intro ⟨m₂, ⟨m₁, hr, hstops⟩, hm'⟩
      exact ⟨m₁, m₂, hr, hm', hstops⟩
    · intro ⟨m₁, m₂, hr, hm', hstops⟩
      exact ⟨m₂, ⟨m₁, hr, hstops⟩, hm'⟩
  · intro f
    simp only [takeLeave_error_iff, hloop]
    constructor
    · intro ⟨m', m₁, hr, hstops⟩
      obtain ⟨k, hm₁⟩ := hr.attended hstart
      obtain ⟨m₂, line, ha, hraises⟩ := (stops_error_iff hm₁).1 ⟨m', hstops⟩
      exact ⟨m₁, m₂, line, hr, ha, hraises⟩
    · intro ⟨m₁, m₂, line, hr, ha, hraises⟩
      obtain ⟨k, hm₁⟩ := hr.attended hstart
      obtain ⟨m', hstops⟩ := (stops_error_iff hm₁).2 ⟨m₂, line, ha, hraises⟩
      exact ⟨m', m₁, hr, hstops⟩
  · intro m₁ rest prompts hr hu m₂
    have ha : ask m₁ = (.interrupt, { m₁ with console :=
        { m₁.console with source := .user ⟨rest, prompts.push mainPrompt⟩ } }) := by
      simp only [ask, hu, User.ask]
    have hreturns : Returns start m₂ := .interrupt hr ha
    obtain ⟨k, n, hm₂, hk, hl⟩ := hreturns.loop_eq hstart (Nat.lt_succ_self _)
    obtain ⟨u, hsource, hlength⟩ := hm₂.user
    cases hsource
    exact ⟨hreturns, n, Nat.lt_of_le_of_lt hlength hk, by rw [hl]⟩

/-- An interrupt at the main prompt, and then a `.bye`. -/
theorem session_ends_iff_interrupt_bye :
    let answers := [.interrupt, .line " .bye"]
    let m : Machine Empty := fresh (.zeros 2) (.ofUser answers)
    Memory.ofSize 2 2 = .ok (.zeros 2) ∧ ∃ m', session m = .ok () m' := by
  intro answers m
  have hmemory : Memory.ofSize 2 2 = .ok (.zeros 2) := rfl
  have hfirst : Returns (m.written greeting) _ := .interrupt .start rfl
  have hbye : (Text.words " .bye").head? = some ".bye" := by decide
  obtain ⟨h, -⟩ := session_ends_iff hmemory answers
  exact ⟨hmemory, _, (h _).2 ⟨_, _, hfirst, rfl, .inr ⟨" .bye", rfl, hbye⟩⟩⟩

/-- An interrupt at the prompt of a word ends the session, though the user would go on. -/
theorem session_raises_on_interrupt :
    let m : Machine Empty := fresh (.zeros 128) (.ofUser [.line "inputn", .interrupt, .line ".bye"])
    ∃ m', session m = .error .interrupted m' ∧
      m'.console.source = .user ⟨[.line ".bye"], #["csforth> ", "? "]⟩ := by
  intro m
  generalize hr : session m = r
  have hraised : raised? r = some .interrupted := by
    rw [← hr]
    decide +kernel
  have hsource : (finish r).console.source = .user ⟨[.line ".bye"], #["csforth> ", "? "]⟩ := by
    rw [← hr]
    decide +kernel
  obtain ⟨m', rfl⟩ := raised?_eq_some.1 hraised
  exact ⟨m', rfl, hsource⟩

end Sessions

end Forth
