import Forth.Interpreter
import Forth.Proofs.Walk
import Forth.Proofs.Tree.Scanning
import Forth.Proofs.Tree.Vocabulary

/-!
# Scanning in place agrees with trees

Evaluating the tokens of a structured program gives what evaluating its tree gives: the same success or
the same cause of failure, with the same stack, memory, words, variables, output and remaining input.
Only contexts and the journal have no counterpart among trees.

The words of a construct are shown to do, up to the closing token, what the tree of the construct does
(`Item.performs`); from that sequences agree by induction on the items, and evaluations by induction on the
nesting.
-/
namespace Forth.Tree

/-- A state of the interpreter stands for a state of the evaluation of trees. -/
def State.Shows (t : State) (s : Scope Empty) : Prop := ∃ journal, s = t.scope journal

/-- Results of the two evaluators agree, up to what `plain` leaves out of an early end. -/
def Agrees {ε ε' : Type} (plain : ε → ε') :
    EStateM.Result ε (Scope Empty) Unit → EStateM.Result ε' State Unit → Prop
  | .ok () s, .ok () t => t.Shows s
  | .error e s, .error e' t => e' = plain e ∧ t.Shows s
  | _, _ => False

def plainHalt : Forth.Halt → Halt
  | .bye => .bye
  | .failed f => .trouble (.cause f.cause)
  | .fault f => .trouble (.fault f)
  | .overflow => .overflow

/-- A result on a machine, with the variables around it. -/
def around (vars : Variables) :
    EStateM.Result Forth.Halt (Machine Empty) Unit → EStateM.Result Forth.Halt (Scope Empty) Unit
  | .ok () m => .ok () ⟨m, vars⟩
  | .error h m => .error h ⟨m, vars⟩

/-- Evaluations of inner sequences and of subtrees agree. -/
def NestedAgree (flat : Forth.Nested Empty) (tree : Nested) : Prop :=
  ∀ loop body (t : State) journal,
    Agrees plainHalt (around t.vars (flat loop (flattenAll body) (t.scope journal).toMachine))
      (tree loop body t)

/-- The own work of a token and its inner sequences come to a result of the evaluation of trees, with
`width` further tokens taken. -/
def Does (nested : Forth.Nested Empty) (width : Nat) :
    EStateM.Result Break (Scope Empty) Plan → EStateM.Result Halt State Unit → Prop
  | .error b s, r => Agrees plainHalt (.error b.halt s) r
  | .ok p s, r =>
    p.width = width ∧ Agrees plainHalt (around s.vars (series nested p.inner s.toMachine)) r

/-- Evaluating the first of some tokens takes all of them and comes to a result of the evaluation of
trees, whatever follows them. -/
def Performs (nested : Forth.Nested Empty) (loop : Option Int) (tokens : List String)
    (s : Scope Empty) (r : EStateM.Result Halt State Unit) : Prop :=
  ∃ head tail, tokens = head :: tail ∧
    ∀ rest, Does nested tail.length (plan loop head (tail ++ rest) s) r

variable {nested : Forth.Nested Empty} {tree : Nested} {loop : Option Int}

/-- Results agree as successes or as early ends. -/
theorem Agrees.cases {ε ε' : Type} {plain : ε → ε'} {r : EStateM.Result ε (Scope Empty) Unit}
    {r' : EStateM.Result ε' State Unit} (h : Agrees plain r r') :
    (∃ t journal, r = .ok () (State.scope t journal) ∧ r' = .ok () t) ∨
      ∃ e t journal, r = .error e (State.scope t journal) ∧ r' = .error (plain e) t := by
  cases r with
  | ok u s =>
    cases r' with
    | ok u' t =>
      obtain ⟨journal, rfl⟩ := h
      exact .inl ⟨t, journal, rfl, rfl⟩
    | error e' t => exact h.elim
  | error e s =>
    cases r' with
    | ok u' t => exact h.elim
    | error e' t =>
      obtain ⟨rfl, journal, rfl⟩ := h
      exact .inr ⟨e, t, journal, rfl, rfl⟩

/-! ### Sequences -/

theorem plainHalt_annotate (b : Break) (tokens : List String) (i : Int) :
    plainHalt (b.annotate tokens i) = plainHalt b.halt := by
  obtain ⟨halt, offset⟩ := b
  cases halt <;> rfl

/-- A stride comes to position `j` and to a result of the evaluation of trees. -/
def Arrives (j : Nat) :
    EStateM.Result Forth.Halt (Scope Empty) Nat → EStateM.Result Halt State Unit → Prop
  | .ok k s, .ok () t => k = j ∧ t.Shows s
  | .error e s, .error e' t => e' = plainHalt e ∧ t.Shows s
  | _, _ => False

/-- A stride goes as its plan and its inner sequences do. -/
theorem stride_arrives {tokens : List String} {i width : Nat} {token : String} {s : Scope Empty}
    {r : EStateM.Result Halt State Unit}
    (h : Does nested width (plan loop token (tokens.drop (i + 1)) s) r) :
    Arrives (i + 1 + width) (stride nested loop tokens i token s) r := by
  have annotated {b : Break} {s : Scope Empty} (h : Agrees plainHalt (.error b.halt s) r) :
      Arrives (i + 1 + width) (.error (b.annotate tokens i) s) r := by
    obtain ⟨t, journal, hs, -⟩ | ⟨e, t, journal, hs, rfl⟩ := h.cases
    · cases hs
    · cases hs
      exact ⟨(plainHalt_annotate b tokens i).symm, journal, rfl⟩
  unfold stride
  cases hp : plan loop token (tokens.drop (i + 1)) s with
  | error b s' =>
    rw [hp] at h
    exact annotated h
  | ok p s' =>
    rw [hp] at h
    obtain ⟨hw, hseries⟩ := h
    simp only
    cases hm : series nested p.inner s'.toMachine with
    | error e m =>
      rw [hm] at hseries
      exact annotated (b := ⟨e, p.width⟩) hseries
    | ok u m =>
      rw [hm] at hseries
      obtain ⟨t, journal, hs, rfl⟩ | ⟨e, t, journal, hs, -⟩ := hseries.cases
      · exact ⟨by rw [hw], journal, (EStateM.Result.ok.inj hs).2⟩
      · cases hs

/-- If every part of a program is performed by its tokens, so is the program. -/
theorem forM_agrees {α : Type} {flat : α → List String} {run : α → Run}
    (h : ∀ x (t : State) journal, Performs nested loop (flat x) (t.scope journal) (run x t))
    (tokens : List String) (xs : List α) (i : Nat) (t : State) (journal : Array Event)
    (hd : tokens.drop i = xs.flatMap flat) :
    Agrees plainHalt (resume nested loop tokens i (t.scope journal)) (xs.forM run t) := by
  induction xs generalizing i t journal with
  | nil =>
    have hi : tokens.length ≤ i := List.drop_eq_nil_iff.1 hd
    rw [resume_of_le _ _ _ hi]
    exact ⟨journal, rfl⟩
  | cons x xs ih =>
    obtain ⟨head, tail, hflat, hdo⟩ := h x t journal
    rw [List.flatMap_cons, hflat, List.cons_append] at hd
    have hhead : tokens[i]? = some head := by
      rw [← Nat.add_zero i, ← List.getElem?_drop, hd]
      rfl
    have htail : tokens.drop (i + 1) = tail ++ xs.flatMap flat := by
      rw [← List.drop_drop, hd]
      rfl
    have hthis := hdo (xs.flatMap flat)
    rw [← htail] at hthis
    have hstride := stride_arrives hthis
    have hcons : (x :: xs).forM run = (do run x; xs.forM run) := rfl
    rw [resume_eq _ _ _ hhead, hcons]
    simp only [bind, EStateM.bind]
    cases hs : stride nested loop tokens i head (t.scope journal) with
    | error e s =>
      cases hr : run x t with
      | ok u t' =>
        rw [hs, hr] at hstride
        exact hstride.elim
      | error e' t' =>
        rw [hs, hr] at hstride
        exact hstride
    | ok j s =>
      cases hr : run x t with
      | error e' t' =>
        rw [hs, hr] at hstride
        exact hstride.elim
      | ok u t' =>
        rw [hs, hr] at hstride
        obtain ⟨rfl, journal', rfl⟩ := hstride
        refine ih _ t' journal' ?_
        rw [← List.drop_drop, htail, List.drop_left]

theorem flattenAll_eq_flatMap (items : List Item) :
    flattenAll items = items.flatMap Item.flatten := by
  induction items with
  | nil => rfl
  | cons x xs ih => rw [flattenAll, ih, List.flatMap_cons]

/-! ### Single words -/

/-- The own work of the token that names a primitive. -/
theorem plan_primitive {name : String} {p : Primitive Empty} (hn : Numeral.read name = .other)
    (hp : primitive? name = some p) (rest : List String) (t : State) (journal : Array Event) :
    plan loop name rest (t.scope journal) = p.plan loop rest (t.scope journal) := by
  have hs : (t.scope journal).words.sense name = .primitive p := by
    have hsense := sense_flatWords t.words hn
    rw [hp] at hsense
    exact hsense
  rw [plan, hs]
  rfl

/-- An action that looks at stack, memory and console alone does the same to both states. -/
theorem does_act {a : Action Empty Unit}
    (ha : ∀ words journal, Keeps (Dressed words journal) (fun _ => True) (fun _ => False) a) (k : Int)
    (width : Nat) (t : State) (journal : Array Event) :
    Does nested width
      (match a (t.scope journal).toMachine with
        | .error e m => .error (.ofTrouble k e) ⟨m, t.vars⟩
        | .ok () m => .ok ⟨width, []⟩ ⟨m, t.vars⟩)
      (act a t) := by
  obtain ⟨t', hx, hy, hv⟩ | ⟨e, t', hx, hy, hv⟩ := act_scope ha t journal
  · rw [hx, hy, ← hv]
    exact ⟨rfl, journal, rfl⟩
  · rw [hx, hy, ← hv]
    cases e with
    | cause c => exact ⟨rfl, journal, rfl⟩
    | fault f => exact ⟨rfl, journal, rfl⟩

/-- A failure of both evaluators. -/
theorem does_fail {width : Nat} {k : Int} {c : Cause} {t : State} {journal : Array Event} :
    Does nested width (.error ⟨.failed ⟨c, []⟩, k⟩ (t.scope journal)) (fail c t) :=
  ⟨rfl, journal, rfl⟩

theorem writeLine_keeps (text : String) (words : Dictionary Empty) (journal : Array Event) :
    Keeps (Dressed words journal) (fun _ => True) (fun _ => False) (Machine.writeLine text) :=
  .emit Dressed.console_eq Dressed.with_console trivial _

theorem simple_keeps (w : Simple) (words : Dictionary Empty) (journal : Array Event) :
    Keeps (Dressed words journal) (fun _ => True) (fun _ => False) w.act :=
  w.keeps (tame_dressed words journal) (fun _ => trivial) fun _ => Dressed.stack_eq

theorem series_single (x : Inner) (m : Machine Empty) :
    series nested [x] m = nested x.loop x.tokens m := by
  simp only [series, bind, EStateM.bind]
  cases nested x.loop x.tokens m <;> rfl

theorem Literal.performs (n : Literal) (t : State) (journal : Array Event) :
    Performs nested loop [n.token] (t.scope journal) ((Item.literal n).run tree loop t) := by
  refine ⟨n.token, [], rfl, fun rest => ?_⟩
  rw [plan, Dictionary.sense, Item.run]
  cases hr : Numeral.read n.token with
  | value k => exact ⟨rfl, journal, rfl⟩
  | tooLong => exact ⟨rfl, journal, rfl⟩
  | other => exact absurd hr n.isNumber

def looksAhead : Primitive Empty → Bool
  | .lookahead _ => true
  | _ => false

/-- The words that look ahead are reserved. -/
theorem mem_reservedTokens {name : String} {p : Primitive Empty} (h : primitive? name = some p)
    (hp : looksAhead p = true) : name ∈ reservedTokens := by
  have hall : ∀ entry ∈ standardPrimitives,
      looksAhead entry.2.2 = true → entry.1 ∈ reservedTokens := by decide
  obtain ⟨⟨effect, p⟩, hl, rfl⟩ := Option.map_eq_some_iff.1 h
  obtain ⟨before, after, heq, -⟩ := List.lookup_eq_some_iff.1 hl
  have hmem : (name, effect, p) ∈ standardPrimitives := by
    rw [heq]
    simp
  exact hall _ hmem hp

theorem Name.performs (hn : NestedAgree nested tree) (w : Name) (t : State)
    (journal : Array Event) :
    Performs nested loop [w.token] (t.scope journal) ((Item.word w).run tree loop t) := by
  refine ⟨w.token, [], rfl, fun rest => ?_⟩
  have hrun : (Item.word w).run tree loop t = call tree loop w.token t := rfl
  rw [hrun]
  unfold call
  cases hp : primitive? w.token with
  | some p =>
    rw [plan_primitive w.notNumber hp]
    cases p with
    | simple v =>
      rw [Primitive.plan_simple]
      exact does_act (simple_keeps v) 0 0 t journal
    | index =>
      rw [Primitive.plan_index]
      cases loop with
      | none => exact does_fail
      | some k => exact ⟨rfl, journal, rfl⟩
    | bye => exact ⟨rfl, journal, rfl⟩
    | lookahead v => exact absurd (mem_reservedTokens hp rfl) w.notReserved
    | host v => exact v.elim
  | none =>
    have hs := sense_flatWords t.words w.notNumber
    rw [hp] at hs
    have hplan : plan loop w.token ([] ++ rest) (t.scope journal) =
        ((flatWords t.words).sense w.token).plan loop w.token ([] ++ rest) (t.scope journal) := rfl
    rw [hplan, hs]
    simp only [bind, EStateM.bind, get_apply]
    cases definition? t.words w.token with
    | none => exact does_fail
    | some d =>
      refine ⟨rfl, ?_⟩
      rw [series_single]
      exact hn loop d.body t journal

/-- The own work of the token that opens a construct. -/
theorem plan_lookahead {name : String} {w : Lookahead} (hn : Numeral.read name = .other)
    (hp : primitive? name = some (.lookahead w)) (rest : List String) (t : State)
    (journal : Array Event) :
    plan loop name rest (t.scope journal) = w.plan loop rest (t.scope journal) :=
  plan_primitive hn hp rest t journal

theorem performs_comment (ws : List (Part ")")) (t : State) (journal : Array Event) :
    Performs nested loop (Item.comment ws).flatten (t.scope journal)
      ((Item.comment ws).run tree loop t) := by
  refine ⟨"(", Part.tokens ws ++ [")"], rfl, fun rest => ?_⟩
  have hscan := scan_comment ws rest
  rw [plan_lookahead (by decide) rfl, Lookahead.plan_comment, List.append_assoc,
    List.singleton_append, hscan]
  exact ⟨by simp, journal, rfl⟩

theorem performs_say (ws : List (Part "\"")) (t : State) (journal : Array Event) :
    Performs nested loop (Item.say ws).flatten (t.scope journal)
      ((Item.say ws).run tree loop t) := by
  refine ⟨".\"", Part.tokens ws ++ ["\""], rfl, fun rest => ?_⟩
  have hscan := scan_text ws rest
  have hw : (Part.tokens ws ++ ["\""]).length = (Part.tokens ws).length + 1 := by simp
  have hrun : (Item.say ws).run tree loop t =
      act (Machine.writeLine (Text.strip (Text.spaced (Part.tokens ws)))) t := rfl
  rw [plan_lookahead (by decide) rfl, Lookahead.plan_say, List.append_assoc,
    List.singleton_append, hscan, hw, hrun]
  simp only
  generalize Text.strip (Text.spaced (Part.tokens ws)) = line
  exact does_act (writeLine_keeps line) _ _ t journal

/-- The branch that is taken is evaluated as a subtree. -/
theorem performs_choice (hn : NestedAgree nested tree) {tail : List String} {b : Branches}
    {pick : Int → List Item} (hscan : ∀ rest, Branches.scan (tail ++ rest) = .ok b)
    (hw : b.width = tail.length) (hpick : ∀ n, b.pick (Cell.truthy n) = flattenAll (pick n))
    (t : State) (journal : Array Event) :
    Performs nested loop ("if" :: tail) (t.scope journal)
      ((do tree loop (pick (← pop)) : Run) t) := by
  refine ⟨"if", tail, rfl, fun rest => ?_⟩
  obtain ⟨stack, memory, words, console, vars⟩ := t
  rw [plan_lookahead (by decide) rfl, Lookahead.plan_choose, hscan]
  cases stack with
  | nil => exact does_fail
  | cons n below =>
    refine ⟨hw, ?_⟩
    rw [series_single, hpick]
    exact hn loop (pick n) ⟨below, memory, words, console, vars⟩ journal

theorem performs_ifThen (hn : NestedAgree nested tree) (yes : List Item) (t : State)
    (journal : Array Event) :
    Performs nested loop (Item.ifThen yes).flatten (t.scope journal)
      ((Item.ifThen yes).run tree loop t) := by
  refine performs_choice hn (b := ⟨flattenAll yes, none⟩) (fun rest => ?_) ?_ (fun n => ?_) t journal
  · rw [List.append_assoc]
    exact scan_ifThen yes rest
  · simp [Branches.width]
  · cases h : Cell.truthy n <;> simp [Branches.pick, flattenAll]

theorem performs_ifElse (hn : NestedAgree nested tree) (yes no : List Item) (t : State)
    (journal : Array Event) :
    Performs nested loop (Item.ifElse yes no).flatten (t.scope journal)
      ((Item.ifElse yes no).run tree loop t) := by
  refine performs_choice hn (b := ⟨flattenAll yes, some (flattenAll no)⟩) (fun rest => ?_) ?_
    (fun n => ?_) t journal
  · simp only [List.append_assoc, List.cons_append, List.nil_append]
    exact scan_ifElse yes no rest
  · simp [Branches.width]
    omega
  · cases h : Cell.truthy n <;> simp [Branches.pick]

/-- The turns of a loop agree, one after another. -/
theorem turns_agree (hn : NestedAgree nested tree) (body : List Item) (n k : Nat) (t : State)
    (journal : Array Event) :
    Agrees plainHalt
      (around t.vars (series nested
        ((List.range' k n).map fun (j : Nat) => ⟨some (j : Int), flattenAll body⟩)
        (t.scope journal).toMachine))
      (turns tree body n k t) := by
  induction n generalizing k t journal with
  | zero => exact ⟨journal, rfl⟩
  | succ n ih =>
    have hfirst := hn (some (k : Int)) body t journal
    simp only [List.range'_succ, List.map_cons, series, turns, bind, EStateM.bind]
    cases hf : nested (some (k : Int)) (flattenAll body) (t.scope journal).toMachine with
    | ok u m =>
      rw [hf] at hfirst
      obtain ⟨t', journal', hs, hr⟩ | ⟨e, t', journal', hs, -⟩ := hfirst.cases
      · obtain ⟨hm, hv⟩ : m = (t'.scope journal').toMachine ∧ t.vars = t'.vars := by
          simpa [around, State.scope] using hs
        simp only [hm, hv, hr]
        exact ih (k + 1) t' journal'
      · cases hs
    | error e m =>
      rw [hf] at hfirst
      obtain ⟨t', journal', hs, -⟩ | ⟨e', t', journal', hs, hr⟩ := hfirst.cases
      · cases hs
      · obtain ⟨rfl, hs'⟩ := EStateM.Result.error.inj hs
        rw [hr]
        exact ⟨rfl, journal', hs'⟩

theorem performs_loop (hn : NestedAgree nested tree) (body : List Item) (t : State)
    (journal : Array Event) :
    Performs nested loop (Item.loop body).flatten (t.scope journal)
      ((Item.loop body).run tree loop t) := by
  refine ⟨"do", flattenAll body ++ ["loop"], rfl, fun rest => ?_⟩
  have hscan := scan_loop body rest
  obtain ⟨stack, memory, words, console, vars⟩ := t
  rw [plan_lookahead (by decide) rfl, Lookahead.plan_loop, List.append_assoc,
    List.singleton_append, hscan]
  cases stack with
  | nil => exact does_fail
  | cons n below =>
    refine ⟨by simp, ?_⟩
    rw [List.range_eq_range']
    exact turns_agree hn body n.toNat 0 ⟨below, memory, words, console, vars⟩ journal

/-! ### Variables and definitions -/

theorem performs_declare (x : Identifier) (t : State) (journal : Array Event) :
    Performs nested loop (Item.declare x).flatten (t.scope journal)
      ((Item.declare x).run tree loop t) := by
  refine ⟨"variable", [x.token], rfl, fun rest => ?_⟩
  obtain ⟨stack, memory, words, console, vars⟩ := t
  rw [plan_lookahead (by decide) rfl, Lookahead.plan_declare]
  have hw := contains_flatWords words x.token
  simp only [Item.run, bind, EStateM.bind, get_apply, List.singleton_append, State.scope, hw]
  cases isWord words x.token with
  | true => exact does_fail
  | false =>
    by_cases hv : vars.contains x.token = true
    · simp only [hv, if_true]
      exact does_fail
    · simp only [hv]
      cases stack with
      | nil => exact does_fail
      | cons n below => exact ⟨rfl, _, rfl⟩

theorem performs_recall (x : Identifier) (t : State) (journal : Array Event) :
    Performs nested loop (Item.recall x).flatten (t.scope journal)
      ((Item.recall x).run tree loop t) := by
  refine ⟨"@", [x.token], rfl, fun rest => ?_⟩
  obtain ⟨stack, memory, words, console, vars⟩ := t
  rw [plan_lookahead (by decide) rfl, Lookahead.plan_recall]
  have hw := contains_flatWords words x.token
  simp only [Item.run, valueOf, bind, EStateM.bind, get_apply, List.singleton_append, State.scope, hw]
  cases isWord words x.token with
  | true => exact does_fail
  | false =>
    simp only [Bool.false_eq_true, if_false]
    cases vars.get? x.token with
    | none => exact does_fail
    | some n => exact ⟨rfl, journal, rfl⟩

theorem performs_assign (x : Identifier) (t : State) (journal : Array Event) :
    Performs nested loop (Item.assign x).flatten (t.scope journal)
      ((Item.assign x).run tree loop t) := by
  refine ⟨"$", [x.token], rfl, fun rest => ?_⟩
  obtain ⟨stack, memory, words, console, vars⟩ := t
  rw [plan_lookahead (by decide) rfl, Lookahead.plan_assign]
  have hw := contains_flatWords words x.token
  simp only [Item.run, valueOf, bind, EStateM.bind, get_apply, List.singleton_append, State.scope, hw]
  cases isWord words x.token with
  | true => exact does_fail
  | false =>
    simp only [Bool.false_eq_true, if_false]
    cases vars.get? x.token with
    | none => exact does_fail
    | some k =>
      cases stack with
      | nil => exact does_fail
      | cons n below => exact ⟨rfl, journal, rfl⟩

theorem Definition.performs (d : Definition) (t : State) (journal : Array Event) :
    Performs nested loop d.flatten (t.scope journal) (d.run t) := by
  refine ⟨":", d.inside ++ [";"], by simp [flatten, inside], fun rest => ?_⟩
  have hscan := scan_definition d rest
  have hname := ofTokens_inside d
  obtain ⟨stack, memory, words, console, vars⟩ := t
  rw [plan_lookahead (by decide) rfl, Lookahead.plan_colon, List.append_assoc,
    List.singleton_append, hscan]
  have hadd : (flatWords words).add ⟨d.name, d.effectText, .definition (flattenAll d.body)⟩ = _ :=
    add_flatWords words d
  simp only [hname, run, bind, EStateM.bind, get_apply, State.scope, hadd]
  cases vars.contains d.name with
  | true => exact does_fail
  | false =>
    simp only [Bool.false_eq_true, if_false]
    cases isWord words d.name with
    | true => exact does_fail
    | false => exact ⟨by simp, _, rfl⟩

/-- The tokens of an item do what its tree does. -/
theorem Item.performs (hn : NestedAgree nested tree) (x : Item) (t : State)
    (journal : Array Event) :
    Performs nested loop x.flatten (t.scope journal) (x.run tree loop t) := by
  cases x with
  | literal n => exact n.performs t journal
  | word w => exact w.performs hn t journal
  | comment ws => exact performs_comment ws t journal
  | say ws => exact performs_say ws t journal
  | ifThen yes => exact performs_ifThen hn yes t journal
  | ifElse yes no => exact performs_ifElse hn yes no t journal
  | loop body => exact performs_loop hn body t journal
  | declare x => exact performs_declare x t journal
  | «recall» x => exact performs_recall x t journal
  | assign x => exact performs_assign x t journal

theorem Phrase.performs (hn : NestedAgree nested tree) (x : Phrase) (t : State)
    (journal : Array Event) :
    Performs nested loop x.flatten (t.scope journal) (x.run tree loop t) := by
  cases x with
  | item x => exact x.performs hn t journal
  | define d => exact d.performs t journal

/-! ### Evaluations -/

theorem isolated_agree {flat : Evaluation Empty Unit} {run : Run} {t : State}
    {journal : Array Event}
    (h : Agrees plainHalt (flat (({ t with vars := [] } : State).scope journal))
      (run { t with vars := [] })) :
    Agrees plainHalt (around t.vars (Forth.isolated flat (t.scope journal).toMachine))
      (isolated run t) := by
  have hempty : (⟨(t.scope journal).toMachine, []⟩ : Scope Empty) =
      ({ t with vars := [] } : State).scope journal := rfl
  unfold Forth.isolated isolated
  rw [hempty]
  obtain ⟨t', journal', hf, hr⟩ | ⟨e, t', journal', hf, hr⟩ := h.cases
  · rw [hf, hr]
    exact ⟨journal', rfl⟩
  · rw [hf, hr]
    cases e with
    | bye => exact ⟨journal', rfl⟩
    | failed f => exact ⟨rfl, journal', rfl⟩
    | fault f => exact ⟨rfl, journal', rfl⟩
    | overflow => exact ⟨rfl, journal', rfl⟩

/-- Evaluating the tokens of items agrees with evaluating the items. -/
theorem evaluate_agrees (limit : Nat) (loop : Option Int) (items : List Item) (t : State)
    (journal : Array Event) :
    Agrees plainHalt (Forth.evaluate limit loop (flattenAll items) (t.scope journal))
      (evaluate limit loop items t) := by
  induction limit generalizing loop items t journal with
  | zero => exact ⟨rfl, journal, rfl⟩
  | succ limit ih =>
    have hn : NestedAgree (Forth.inside limit) (inside limit) := fun loop body t journal =>
      isolated_agree (ih loop body { t with vars := [] } journal)
    rw [evaluate_succ]
    exact forM_agrees (Item.performs hn) (flattenAll items) items 0 t journal
      (flattenAll_eq_flatMap items)

def plainAbort : Abort → Trouble
  | .failed f => .cause f.cause
  | .fault f => .fault f

/-- Interpreting the tokens of a program agrees with interpreting its tree. -/
theorem interpretWithin_agrees (limit : Nat) (loop : Option Int) (program : List Phrase)
    (t : State) (journal : Array Event) :
    Agrees plainAbort (Forth.interpretWithin limit loop (flatten program) (t.scope journal))
      (interpretWithin limit loop program t) := by
  cases limit with
  | zero => exact ⟨rfl, journal, rfl⟩
  | succ limit =>
    have hn : NestedAgree (Forth.inside limit) (inside limit) := fun loop body t journal =>
      isolated_agree (evaluate_agrees limit loop body { t with vars := [] } journal)
    have h : Agrees plainHalt
        (resume (Forth.inside limit) loop (flatten program) 0 (t.scope journal))
        (program.forM (Phrase.run (inside limit) loop) t) :=
      forM_agrees (Phrase.performs hn) (flatten program) program 0 t journal rfl
    unfold Forth.interpretWithin interpretWithin
    rw [evaluate_succ]
    simp only
    obtain ⟨t', journal', hf, hr⟩ | ⟨e, t', journal', hf, hr⟩ := h.cases
    · rw [hf, hr]
      exact ⟨journal', rfl⟩
    · rw [hf, hr]
      cases e with
      | bye => exact ⟨journal', rfl⟩
      | failed f => exact ⟨rfl, _, rfl⟩
      | fault f => exact ⟨rfl, journal', rfl⟩
      | overflow => exact ⟨rfl, journal', rfl⟩

end Forth.Tree
