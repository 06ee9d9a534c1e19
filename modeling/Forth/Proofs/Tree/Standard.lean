import Forth.Proofs.Tree.Agreement

/-!
# Programs on the standard words

The composite standard words are structured definitions, so the standard dictionary and every dictionary
that structured programs make of it hold trees. On all of these, scanning in place agrees with evaluating
trees (`interpret_flatten`).
-/
namespace Forth.Tree

/-! ### The composite words as trees -/

def number (token : String) (h : Numeral.read token ≠ .other := by decide) : Item :=
  .literal ⟨token, h⟩

def named (token : String) (hn : Numeral.read token = .other := by decide)
    (hr : token ∉ reservedTokens := by decide) : Item :=
  .word ⟨token, hn, hr⟩

def effect (tokens : List String)
    (h : ∀ token ∈ tokens, token ∉ structuralTokens ∧ token ≠ ")" := by decide) :
    List (Part ")") :=
  tokens.attach.map fun ⟨token, ht⟩ => ⟨token, (h token ht).1, (h token ht).2⟩

def composite (name : String) (effect : List (Part ")")) (body : List Item)
    (hc : name ≠ ":" := by decide) (hs : name ≠ ";" := by decide) : Definition where
  name := name
  effect := some effect
  body := body
  notColon := hc
  notSemicolon := hs
  opens h := nomatch h

/-- The words that are defined in the language. -/
def compositeWords : List Definition :=
  [composite "invert" (effect ["n", "--", "!n"])
     [number "0", named "=", .ifElse [number "-1"] [number "0"]],
   composite "!=" (effect ["n", "n", "--", "n!=n"]) [named "=", named "invert"],
   composite ">=" (effect ["n", "n", "--", "n>=n"]) [named "<", named "invert"],
   composite "<=" (effect ["n", "n", "--", "n<=n"]) [named ">", named "invert"],
   composite "0=" (effect ["n", "--", "n==0"]) [number "0", named "="],
   composite "cr" (effect ["--"]) [number "10", named "emit"],
   composite "bl" (effect ["--"]) [number "32", named "emit"],
   composite "nop" (effect ["--"]) [],
   composite "negate" (effect ["n", "--", "-n"]) [number "0", named "swap", named "-"],
   composite "abs" (effect ["n", "--", "|n|"])
     [named "dup", number "0", named "<", .ifThen [named "negate"]],
   composite "empty?" (effect ["--", "flag"]) [named "depth", named "0="],
   composite "dump" (effect ["--"]) [named ".s", named "cr"]]

theorem flatten_compositeWords :
    flatten (compositeWords.map .define) = compositeSource.flatMap tokenize := by
  decide +kernel

def bootState : State := ⟨[], .zeros 0, [], .ofText "", []⟩

/-- Whether each definition, when it is added after those before it, has a new name. -/
def allNew (words : List Definition) : List Definition → Bool
  | [] => true
  | d :: ds => !isWord words d.name && allNew (words ++ [d]) ds

/-- Definitions under new names are added one after another. -/
theorem forM_define {nested : Nested} {loop : Option Int} (ds : List Definition) (t : State)
    (hv : t.vars = []) (h : allNew t.words ds = true) :
    (ds.map .define).forM (Phrase.run nested loop) t =
      .ok () { t with words := t.words ++ ds } := by
  induction ds generalizing t with
  | nil =>
    rw [List.append_nil]
    rfl
  | cons d ds ih =>
    simp only [allNew, Bool.and_eq_true, Bool.not_eq_true'] at h
    have hrun : d.run t = .ok () { t with words := t.words ++ [d] } := by
      have hc : t.vars.contains d.name = false := by
        rw [hv]
        rfl
      simp only [Definition.run, bind, EStateM.bind, get_apply, hc, h.1]
      rfl
    have hcons : ((d :: ds).map .define).forM (Phrase.run nested loop) t =
        (do d.run; (ds.map .define).forM (Phrase.run nested loop) : Run) t := rfl
    rw [hcons]
    simp only [bind, EStateM.bind, hrun]
    rw [ih { t with words := t.words ++ [d] } hv h.2, List.append_assoc, List.singleton_append]

theorem interpret_compositeWords :
    interpretWithin nestingLimit none (compositeWords.map .define) bootState =
      .ok () { bootState with words := compositeWords } := by
  have h : (compositeWords.map .define).forM (Phrase.run (inside 399) none) bootState =
      .ok () { bootState with words := [] ++ compositeWords } :=
    forM_define compositeWords bootState rfl (by decide +kernel)
  simp only [interpretWithin, nestingLimit, h]
  rfl

/-- The standard dictionary holds trees. -/
theorem standardWords_eq : standardWords = flatWords compositeWords := by
  have h := interpretWithin_agrees nestingLimit none (compositeWords.map .define) bootState #[]
  have hboot : bootState.scope #[] = ⟨bootMachine, []⟩ := by
    simp [State.scope, bootState, bootMachine, flatWords]
  rw [flatten_compositeWords, interpret_compositeWords, hboot] at h
  unfold standardWords booted interpret
  obtain ⟨t, journal, hf, hr⟩ | ⟨e, t, journal, -, hr⟩ := h.cases
  · cases hr
    rw [hf]
    rfl
  · cases hr

/-! ### Programs one after another -/

/-- An evaluation at the top level: a program, and all that it depends on but the words. -/
structure Session where
  limit : Nat
  loop : Option Int
  program : List Phrase
  stack : Stack
  memory : Memory
  console : Console
  journal : Array Event
  vars : Variables

namespace Session

def interpretTokens (x : Session) (words : Dictionary Empty) :
    EStateM.Result Abort (Scope Empty) Unit :=
  Forth.interpretWithin x.limit x.loop (flatten x.program)
    ⟨⟨x.stack, x.memory, words, x.console, x.journal⟩, x.vars⟩

def interpretTree (x : Session) (words : List Definition) : EStateM.Result Trouble State Unit :=
  interpretWithin x.limit x.loop x.program ⟨x.stack, x.memory, words, x.console, x.vars⟩

theorem agrees (x : Session) (words : List Definition) :
    Agrees plainAbort (x.interpretTokens (flatWords words)) (x.interpretTree words) :=
  interpretWithin_agrees x.limit x.loop x.program
    ⟨x.stack, x.memory, words, x.console, x.vars⟩ x.journal

end Session

/-- The dictionary that some evaluations, successful or not, make of the standard words. -/
def wordsAfter (earlier : List Session) : Dictionary Empty :=
  earlier.foldl (fun words x => (finish (x.interpretTokens words)).words) standardWords

/-- The definitions that the evaluations of the trees leave. -/
def definitionsAfter (earlier : List Session) : List Definition :=
  earlier.foldl (fun words x => (finish (x.interpretTree words)).words) compositeWords

/-- Results that agree leave corresponding words. -/
theorem Agrees.words {ε ε' : Type} {plain : ε → ε'} {r : EStateM.Result ε (Scope Empty) Unit}
    {r' : EStateM.Result ε' State Unit} (h : Agrees plain r r') :
    (finish r).words = flatWords (finish r').words := by
  obtain ⟨t, journal, rfl, rfl⟩ | ⟨e, t, journal, rfl, rfl⟩ := h.cases
  · rfl
  · rfl

theorem foldl_words (earlier : List Session) (words : List Definition) :
    earlier.foldl (fun words x => (finish (x.interpretTokens words)).words) (flatWords words) =
      flatWords (earlier.foldl (fun words x => (finish (x.interpretTree words)).words) words) := by
  induction earlier generalizing words with
  | nil => rfl
  | cons x earlier ih =>
    have hx := (x.agrees words).words
    rw [List.foldl_cons, List.foldl_cons, hx, ih]

theorem wordsAfter_eq (earlier : List Session) :
    wordsAfter earlier = flatWords (definitionsAfter earlier) := by
  rw [wordsAfter, standardWords_eq, foldl_words, definitionsAfter]

/-- On the words that any structured programs made of the standard ones, interpreting the tokens of a
structured program agrees with interpreting its tree. -/
theorem interpret_flatten (earlier : List Session) (now : Session) :
    Agrees plainAbort (now.interpretTokens (wordsAfter earlier))
      (now.interpretTree (definitionsAfter earlier)) := by
  rw [wordsAfter_eq]
  exact now.agrees (definitionsAfter earlier)

end Forth.Tree
