import Forth.Proofs.Composition
import Forth.Proofs.Inlining
import Forth.Proofs.Prompts

/-!
# A session is one program

Lines that the prompt evaluates one by one, each on variables of its own, are as a program the same as their
tokens one after another: a run of them leaves the same state and has written the same, but for the remarks of
the prompt (`run_lines`). For this no line may declare a variable or end itself by `bye`, since a program has
one set of variables and one end. And white space at the ends of a line must separate tokens. The prompt cuts
off some that does not, so that a line may be a program for it and none for a file (`nbsp_divides`).
-/
namespace Forth

open Machine

namespace Text

/-- All white space at the ends of a text separates tokens. -/
def PlainEdges (text : String) : Prop :=
  (∀ c ∈ leading text.toList, isDelimiter c = true) ∧ ∀ c ∈ trailing text.toList, isDelimiter c = true

instance (text : String) : Decidable (PlainEdges text) :=
  decidable_of_iff ((leading text.toList).all isDelimiter ∧ (trailing text.toList).all isDelimiter)
    (by simp only [PlainEdges, List.all_eq_true])

theorem PlainEdges.tokenize_strip {text : String} (h : PlainEdges text) :
    tokenize (strip text) = tokenize text := by
  rw [tokenize, tokenize, strip, String.toList_ofList, runs_stripChars h.1 h.2]

/-- A blank text with such ends has no tokens. -/
theorem PlainEdges.tokenize_eq_nil {text : String} (h : PlainEdges text) (hw : words text = []) :
    tokenize text = [] := by
  have hblank : ∀ c ∈ text.toList, isBlank c = true := runs_eq_nil_iff.1 (List.map_eq_nil_iff.1 hw)
  have hleading : leading text.toList = text.toList := List.takeWhile_eq_self_iff.2 hblank
  have hdelimiters := h.1
  rw [hleading] at hdelimiters
  rw [tokenize, runs_eq_nil_iff.2 hdelimiters, List.map_nil]

end Text

/-! ### Sequences without variables -/

section Unbound

variable {loop : Option Int} {token : String} {rest tokens : List String}

theorem Rebound.eq {s s' : Scope Empty} (h : Rebound [] [] s s') : s = s' := by
  obtain ⟨m, vars⟩ := s
  obtain ⟨rfl, rfl⟩ := h
  rfl

/-- Without variables there is none to assign to. So only a declaration makes one. -/
theorem Lookahead.carries_unbound (w : Lookahead) (hdeclare : w ≠ .declare) :
    Carries [] [] (w.plan loop rest) := by
  intro s s' hs
  obtain rfl := hs.eq
  have hv : s.vars = [] := hs.1
  have hstays {p : Plan} {m : Machine Empty} :
      Alike (Rebound [] []) (fun b : Break => b.halt ≠ .bye) (fun _ => False)
        (.ok p ⟨m, s.vars⟩) (.ok p ⟨m, s.vars⟩) := ⟨rfl, hv, by rw [hv]⟩
  have ho : w.Outcome rest s (w.plan loop rest s) := w.plan_outcome s
  generalize hr : w.plan loop rest s = r at ho
  cases ho with
  | failed hc => exact .inr ⟨rfl, by simp, hs⟩
  | @refused line t m k hline hw =>
    refine .inr ⟨rfl, ?_, hv, by rw [hv]⟩
    cases t <;> simp [Break.ofTrouble]
  | written hline hw hwidth => exact hstays
  | changed hwidth => exact hstays
  | declared hw hname hword hstack hwidth => exact absurd hw hdeclare
  | defined hw hplain hvar hadd hwidth => exact hstays
  | assigned hw hname hword hstack hwidth =>
    subst hw
    obtain ⟨rest', rfl⟩ := List.head?_eq_some_iff.1 hname
    rw [Lookahead.plan_assign] at hr
    simp [hword, hv, Variables.get?] at hr

/-- A sequence without variables gets none, and does not end early, as long as no declaration and no `bye` of
its own comes up. -/
theorem Sense.carries_unbound {σ : Sense} (hbye : σ ≠ .primitive .bye)
    (hdeclare : σ ≠ .primitive (.lookahead .declare)) : Carries [] [] (σ.plan loop token rest) := by
  cases σ with
  | primitive p =>
    cases p with
    | lookahead w => exact w.carries_unbound fun hw => hdeclare (by rw [hw])
    | bye => exact absurd rfl hbye
    | host w => exact w.elim
    | _ =>
      refine Sense.Portable.carries ?_ loop token rest
      rintro _ ⟨⟩
      exact ⟨by simp [Primitive.Private], by simp⟩
  | _ =>
    refine Sense.Portable.carries ?_ loop token rest
    rintro _ ⟨⟩

theorem evaluate_unbound {limit : Nat} {m : Machine Empty}
    (hown : ∀ here, Reaches limit loop tokens ⟨m, []⟩ [] here →
      ¬ here.Dispatches .bye ∧ ¬ here.Dispatches (.lookahead .declare)) :
    match evaluate limit loop tokens ⟨m, []⟩ with
    | .ok () s => s.vars = []
    | .error h _ => h ≠ .bye := by
  obtain _ | limit := limit
  · exact fun h : Halt.overflow = .bye => by cases h
  have hcarries : ∀ i token s, Comes (inside limit) loop tokens ⟨m, []⟩ i s → tokens[i]? = some token →
      Carries [] [] ((s.words.sense token).plan loop token (tokens.drop (i + 1))) := by
    intro i token s hc ht
    obtain ⟨hi, -⟩ := List.getElem?_eq_some_iff.1 ht
    obtain ⟨hbye, hdeclare⟩ := hown ⟨tokens, i, loop, s⟩ (.here hc hi)
    exact Sense.carries_unbound (fun h => hbye ⟨token, ht, h⟩) fun h => hdeclare ⟨token, ht, h⟩
  have halike := resume_rebound (inside_ne_bye limit) [] hcarries .start rfl
  rw [evaluate_succ]
  obtain ⟨u, s, s', hx, -, hs⟩ | ⟨h, s, s', hx, -, hbye, -⟩ | ⟨-, -, -, hf⟩ := halike.cases
  · rw [hx]
    exact hs.1
  · rw [hx]
    exact hbye
  · exact hf.elim

end Unbound

/-! ### Remarks of the prompt -/

/-- A report is not the remark that a line went well: it says where the failure is, or it is longer. -/
theorem interpret_report_ne {tokens : List String} {s s' : Scope Empty} {f : Failure}
    (h : interpret none tokens s = .error (.failed f) s') : f.report ++ "\n" ≠ " ok\n" := by
  have hcontexts : f = ⟨.returnStackOverflow, []⟩ ∨ f.contexts ≠ [] := by
    unfold interpret interpretWithin at h
    cases he : evaluate nestingLimit none tokens s with
    | ok u t =>
      rw [he] at h
      cases h
    | error e t =>
      rw [he] at h
      cases e with
      | bye => cases h
      | fault g => cases h
      | overflow =>
        cases h
        exact .inl rfl
      | failed g =>
        cases h
        obtain ⟨outer, here, ⟨halt, k⟩, -, -, -, heq, -⟩ := reaches_of_evaluate (by simp) (by simp) he
        rw [Break.annotate_through] at heq
        cases halt with
        | failed g =>
          cases heq
          exact .inr (by simp)
        | bye => cases heq
        | fault g => cases heq
        | overflow => cases heq
  rcases hcontexts with rfl | hne
  · decide
  · intro heq
    have hlength := congrArg String.length heq
    have hat : " at: ".length = 5 := rfl
    have hremark : " ok\n".length = 4 := rfl
    simp only [Failure.report, List.isEmpty_iff, hne, if_false, String.length_append, hat, hremark] at hlength
    omega

/-- The second machine differs from the first in its output only, which lacks the remarks of the prompt. -/
def Unremarked (m m' : Machine Empty) : Prop :=
  ∃ latest, m.console.sink = .events latest ∧
    m' = { m with console := { m.console with sink := .events (latest.filter (· ≠ " ok\n")) } }

section Unremarked

variable {m m' : Machine Empty}

theorem Unremarked.stack_eq (h : Unremarked m m') : m'.stack = m.stack := by
  obtain ⟨latest, -, rfl⟩ := h
  rfl

theorem Unremarked.refl (h : m.console.sink = .events []) : Unremarked m m := by
  obtain ⟨stack, memory, words, ⟨sink, source⟩, journal⟩ := m
  cases h
  exact ⟨[], rfl, rfl⟩

theorem Unremarked.with_stack (h : Unremarked m m') (stack : Stack) :
    Unremarked { m with stack } { m' with stack } := by
  obtain ⟨latest, hsink, rfl⟩ := h
  exact ⟨latest, hsink, rfl⟩

/-- Without remarks a program takes the same course: it writes none itself. -/
theorem lockstep_unremarked : Lockstep Unremarked fun _ => False where
  memory := by
    rintro m _ ⟨latest, hsink, rfl⟩
    rfl
  push := .push Unremarked.stack_eq Unremarked.with_stack
  pop := .pop Unremarked.stack_eq Unremarked.with_stack trivial
  put := by
    rintro m _ ⟨latest, hsink, rfl⟩ i n
    exact ⟨latest, hsink, rfl⟩
  emit := by
    rintro t ht m _ ⟨latest, hsink, rfl⟩
    have hne : t ≠ " ok\n" := by
      rintro rfl
      exact absurd (ht.eq_space rfl) (by decide)
    unfold emit
    cases t.isEmpty with
    | true => exact ⟨rfl, latest, hsink, rfl⟩
    | false =>
      simp only [hsink, Sink.accepts, if_true, Bool.false_eq_true, if_false]
      refine ⟨rfl, t :: latest, rfl, ?_⟩
      simp [Sink.append, hne]
  readLine := by
    rintro m _ ⟨latest, hsink, rfl⟩
    simp only [readLine]
    cases m.console.source.readLine with
    | mk line source =>
      cases line with
      | ok line => exact ⟨rfl, latest, hsink, rfl⟩
      | error f => exact .inr ⟨rfl, trivial, latest, hsink, rfl⟩
  cause _ := trivial
  words := by
    rintro m _ ⟨latest, hsink, rfl⟩
    rfl
  define := by
    rintro m _ words name effect body ⟨latest, hsink, rfl⟩ hadd
    exact ⟨latest, hsink, rfl⟩
  note := by
    rintro m _ ⟨latest, hsink, rfl⟩ e
    exact ⟨latest, hsink, rfl⟩
  inspects _ _ _ _ _ hn := hn.stack_eq
  context h := h.elim
  bye := id

theorem Unremarked.written (h : Unremarked m m') : Unremarked (m.written " ok\n") m' := by
  obtain ⟨latest, hsink, rfl⟩ := h
  refine ⟨" ok\n" :: latest, ?_, ?_⟩
  · simp [Machine.written, hsink, Sink.append]
  · simp [Machine.written]

end Unremarked

/-! ### Lines one after another -/

namespace Machine

/-- The line is a program, and the machine evaluates it to its end: what it writes last is the remark. No token
of the line itself declares a variable or is `bye`. -/
structure Accepts (m : Machine Empty) (line : String) : Prop where
  program : ∀ name args, Text.words line = name :: args → DotCommand.ofName? name = none
  answered : ∃ m', handleLine line m = .ok true m' ∧
    (Text.words line ≠ [] → m'.console.sink.writes.getLast? = some " ok\n")
  own : ∀ here, Reaches nestingLimit none (tokenize (Text.strip line)) ⟨m, []⟩ [] here →
    ¬ here.Dispatches .bye ∧ ¬ here.Dispatches (.lookahead .declare)

/-- The machine accepts the lines one after another. -/
def AcceptsAll (m : Machine Empty) : List String → Prop
  | [] => True
  | line :: lines => m.Accepts line ∧ (finish (handleLine line m)).AcceptsAll lines

end Machine

section Lines

variable {m m' : Machine Empty} {line name : String} {args : List String}

/-- A line that is accepted is no failure. -/
theorem Machine.Accepts.interpret_eq (ha : m.Accepts line) (hm : m.Sound) (hr : Unremarked m m')
    (hw : Text.words line = name :: args) :
    ∃ s, interpret none (tokenize (Text.strip line)) ⟨m, []⟩ = .ok () s ∧
      finish (handleLine line m) = s.toMachine.written " ok\n" := by
  obtain ⟨n, hok, hlast⟩ := ha.answered
  have hremark := hlast (by simp [hw])
  have hline := handleLine_program hm hw (ha.program name args hw)
  have hbeside : Beside Unremarked ⟨m, []⟩ ⟨m', []⟩ := ⟨hr, rfl⟩
  have htokens : ∀ t ∈ tokenize (Text.strip line), True := fun _ _ => trivial
  have halike := lockstep_unremarked.lockstepOn.interpretWithin_alike nestingLimit none htokens hbeside
  rw [hok] at hline ⊢
  obtain ⟨u, s, s', hx, -, -⟩ | ⟨a, s, s', hx, -, -, ⟨latest, hsink, -⟩, -⟩ | ⟨-, -, -, hf⟩ := halike.cases
  · rw [interpret, hx] at hline ⊢
    cases hline
    exact ⟨s, rfl, rfl⟩
  · rw [interpret, hx] at hline
    cases a with
    | fault f => cases hline
    | failed f =>
      cases hline
      have hreport := interpret_report_ne hx
      have : f.report ++ "\n" = " ok\n" := by
        simpa [Machine.written, Machine.note, hsink, Sink.append, Sink.writes] using hremark
      exact absurd this hreport
  · exact hf.elim

/-- The prompt and the program come to the same. -/
theorem Unremarked.accepts (hr : Unremarked m m') (hm : m.Sound) (he : Text.PlainEdges line)
    (ha : m.Accepts line) :
    ∃ n, evaluate nestingLimit none (tokenize line) ⟨m', []⟩ = .ok () ⟨n, []⟩ ∧
      Unremarked (finish (handleLine line m)) n := by
  cases hw : Text.words line with
  | nil =>
    rw [handleLine_blank hw, he.tokenize_eq_nil hw]
    exact ⟨m', evaluate_nil none 399 _, hr⟩
  | cons name args =>
    obtain ⟨s, hs, hfinish⟩ := ha.interpret_eq hm hr hw
    have hbeside : Beside Unremarked ⟨m, []⟩ ⟨m', []⟩ := ⟨hr, rfl⟩
    have halike := lockstep_unremarked.evaluate_alike nestingLimit none (tokenize (Text.strip line)) hbeside
    have hown := evaluate_unbound ha.own
    rw [hfinish, ← he.tokenize_strip]
    unfold interpret interpretWithin at hs
    obtain ⟨u, t, t', hx, hy, ht, hvars⟩ | ⟨h, t, t', hx, -, -, -⟩ | ⟨-, -, -, hf⟩ := halike.cases
    · rw [hx] at hs hown
      cases hs
      obtain ⟨n, vars⟩ := t'
      cases hvars.trans hown
      exact ⟨n, hy, ht.written⟩
    · rw [hx] at hs hown
      cases h with
      | bye => exact absurd rfl hown
      | _ => cases hs
    · exact hf.elim

/-- So do the prompt and the program over all the lines. -/
theorem Unremarked.acceptsAll {lines : List String} (hr : Unremarked m m') (hm : m.Sound)
    (he : ∀ line ∈ lines, Text.PlainEdges line) (ha : m.AcceptsAll lines) :
    ∃ n, evaluate nestingLimit none (lines.flatMap tokenize) ⟨m', []⟩ = .ok () ⟨n, []⟩ ∧
      Unremarked (m.afterLines lines) n := by
  induction lines generalizing m m' with
  | nil => exact ⟨m', evaluate_nil none 399 _, hr⟩
  | cons line lines ih =>
    obtain ⟨n, hn, hline⟩ := hr.accepts hm (he line List.mem_cons_self) ha.1
    have hsound : (finish (handleLine line m)).Sound :=
      handleLine_stable steadily_sound trivial unwritten_sound line m hm
    obtain ⟨n', hn', hlines⟩ := ih hline hsound (fun l hl => he l (List.mem_cons_of_mem _ hl)) ha.2
    have happend := evaluate_append none nestingLimit (tokenize line) (lines.flatMap tokenize) ⟨m', []⟩
    rw [hn] at happend
    simp only [hn'] at happend
    rw [List.flatMap_cons, afterLines_cons]
    obtain hends | ⟨f, g, t, ⟨⟩, -⟩ := happend.cases
    exact ⟨n', hends.symm, hlines⟩

end Lines

/-- A program that is given line by line to the prompt, and as a whole to a run. If the prompt accepts every
line, and cuts off nothing that does not separate tokens, the run succeeds. It leaves the same stack, memory,
dictionary and input, and has written the same but for the remarks. -/
theorem run_lines {room : Nat} {size : Int} {memory : Memory}
    (hmemory : Memory.ofSize room size = .ok memory) (input lines : List String) (hedges : ∀ line ∈ lines, Text.PlainEdges line)
    (haccepts : (fresh memory (.ofLines input)).AcceptsAll lines) :
    let m := (fresh memory (.ofLines input)).afterLines lines
    ∃ s, run (String.intercalate "\n" lines) ⟨fresh memory (.ofLines input), []⟩ = .ok true s ∧
      s.stack = m.stack ∧ s.memory = m.memory ∧ s.words = m.words ∧
      s.console.source = m.console.source ∧
      s.console.sink.writes = m.console.sink.writes.filter (· ≠ " ok\n") := by
  intro m
  have hsound := sound_fresh hmemory input
  have hstart := Unremarked.refl (fresh_sink memory input)
  obtain ⟨n, hn, latest, hsink, hmachine⟩ := hstart.acceptsAll hsound hedges haccepts
  refine ⟨⟨n, []⟩, ?_, ?_⟩
  · rw [run, Text.tokenize_intercalate (c := '\n') rfl rfl, interpret, interpretWithin, hn]
  · subst hmachine
    exact ⟨rfl, rfl, rfl, rfl, by simp [m, hsink, Sink.writes]⟩

/-! ### Lines with a single token -/

section Single

variable {token : String} {n : Int} {m : Machine Empty} {latest : List String}

/-- With no frame around it a token is one of the sequence itself. -/
theorem Reaches.tokens_eq {limit : Nat} {loop : Option Int} {tokens : List String} {s : Scope Empty}
    {here : Moment} (h : Reaches limit loop tokens s [] here) : here.tokens = tokens := by
  generalize ho : ([] : List Frame) = outer at h
  cases h with
  | here hc hi => rfl
  | inner hc he hr => simp at ho

theorem evaluate_number (hn : Numeral.read token = .value n) (limit : Nat) (loop : Option Int)
    (s : Scope Empty) :
    evaluate (limit + 1) loop [token] s = .ok () { s with stack := n :: s.stack } :=
  evaluate_of_step (step_number _ _ hn) (Nat.zero_le _)

theorem evaluate_unknown {s : Scope Empty} (hs : s.words.sense token = .unknown) (limit : Nat)
    (loop : Option Int) :
    evaluate (limit + 1) loop [token] s =
      .error (.failed ⟨.unknownWord token, [formatContext [token] 0]⟩) s :=
  evaluate_of_step_error (step_unknown _ _ hs)

/-- A line with a number is accepted. -/
theorem accepts_number (line token : String) (n : Int) (hm : m.Sound) (hsink : m.console.sink = .events latest)
    (hw : Text.words line = [token]) (hc : DotCommand.ofName? token = none)
    (ht : tokenize (Text.strip line) = [token]) (hn : Numeral.read token = .value n) :
    m.Accepts line ∧
      finish (handleLine line m) = ({ m with stack := n :: m.stack } : Machine Empty).written " ok\n" := by
  have hline : handleLine line m =
      .ok true (({ m with stack := n :: m.stack } : Machine Empty).written " ok\n") := by
    rw [handleLine_program hm hw hc, ht, interpret, interpretWithin, nestingLimit, evaluate_number hn]
  refine ⟨⟨?_, ⟨_, hline, fun _ => ?_⟩, ?_⟩, by rw [hline]; rfl⟩
  · intro name args h
    cases hw.symm.trans h
    exact hc
  · simp [Machine.written, hsink, Sink.append, Sink.writes]
  · intro here hr
    rw [ht] at hr
    have hnone (p : Primitive Empty) : ¬ here.Dispatches p := by
      rintro ⟨t, hmem, hp⟩
      rw [hr.tokens_eq] at hmem
      obtain rfl : t = token := List.mem_singleton.1 (List.mem_of_getElem? hmem)
      simp [Dictionary.sense, hn] at hp
    exact ⟨hnone _, hnone _⟩

/-- A run of a word that there is not is reported. -/
theorem run_unknown {text : String} (hm : m.Sound) (ht : tokenize text = [token])
    (hs : m.words.sense token = .unknown) : ∃ s, run text ⟨m, []⟩ = .ok false s := by
  have hunknown := evaluate_unknown (s := ⟨m, []⟩) hs 399 none
  have hwrite (f : Failure) :=
    Sound.write_eq (m := (m.note (.evaluationFailed f.report)).note .runFailed) hm (f.report ++ "\n")
  rw [run, ht, interpret, interpretWithin, nestingLimit, hunknown]
  simp only [hwrite]
  exact ⟨_, rfl⟩

end Single

/-- A number on each of two lines. -/
theorem run_lines_numbers :
    let m : Machine Empty := fresh (.zeros 2) (.ofLines [])
    Memory.ofSize 2 2 = .ok (.zeros 2) ∧ (∀ line ∈ ["5", "\t7"], Text.PlainEdges line) ∧
      m.AcceptsAll ["5", "\t7"] ∧
      ∃ s, run "5\n\t7" ⟨m, []⟩ = .ok true s ∧ s.stack = (m.afterLines ["5", "\t7"]).stack := by
  intro m
  have hmemory : Memory.ofSize 2 2 = .ok (.zeros 2) := rfl
  have hedges : ∀ line ∈ ["5", "\t7"], Text.PlainEdges line := by decide
  have hm : m.Sound := sound_fresh hmemory []
  have hsink : m.console.sink = .events [] := fresh_sink _ _
  obtain ⟨hfive, hafter⟩ := accepts_number "5" "5" 5 hm hsink (by decide) (by decide) (by decide) (by decide)
  have hm' : ({ m with stack := 5 :: m.stack }.written " ok\n").Sound := hm.written " ok\n"
  obtain ⟨hseven, -⟩ := accepts_number "\t7" "7" 7 hm' (by rw [written, hsink]; rfl) (by decide) (by decide)
    (by decide) (by decide)
  have haccepts : m.AcceptsAll ["5", "\t7"] := ⟨hfive, by rw [hafter]; exact ⟨hseven, trivial⟩⟩
  obtain ⟨s, hs, hstack, -⟩ := run_lines hmemory [] ["5", "\t7"] hedges haccepts
  exact ⟨hmemory, hedges, haccepts, s, hs, hstack⟩

/-- The prompt cuts off a no-break space, for a file it is part of a token. So a line may be accepted though a
run of it fails, and this with a space at its beginning and none at its end. -/
theorem nbsp_divides :
    let m : Machine Empty := fresh (.zeros 128) (.ofLines [])
    let line := " \u00a05"
    Memory.ofSize 128 128 = .ok (.zeros 128) ∧ line.toList.head? = some ' ' ∧ line.toList.getLast? = some '5' ∧
      m.AcceptsAll [line] ∧ (m.afterLines [line]).stack = [5] ∧
      ∃ s, run (String.intercalate "\n" [line]) ⟨m, []⟩ = .ok false s := by
  intro m line
  have hmemory : Memory.ofSize 128 128 = .ok (.zeros 128) := rfl
  have hm : m.Sound := sound_fresh hmemory []
  have hsink : m.console.sink = .events [] := fresh_sink _ _
  obtain ⟨haccepts, hafter⟩ := accepts_number line "5" 5 hm hsink (by decide) (by decide) (by decide)
    (by decide)
  refine ⟨hmemory, by decide, by decide, ⟨haccepts, trivial⟩, ?_, ?_⟩
  · rw [afterLines_cons, hafter]
    rfl
  · exact run_unknown hm (show tokenize (String.intercalate "\n" [line]) = ["\u00a05"] by decide)
      (by decide +kernel)

end Forth
