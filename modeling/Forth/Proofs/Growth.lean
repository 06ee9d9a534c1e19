import Forth.Standard
import Forth.Proofs.Invariants

/-!
# Dictionaries only grow

Whatever is evaluated or defined, in whatever way it ends, the words that were there stay: they come first,
in their old order, and are found under their names as before. What an evaluation puts behind them are
definitions under new names, with no colon and no semicolon inside (`Later.grows`). That holds of the
dictionary at every token on the way, too.
-/
namespace Forth

/-- The second dictionary holds the words of the first and behind them some with `P`; their names are new. -/
def Dictionary.Extends (P : Word Empty → Prop) (d d' : Dictionary Empty) : Prop :=
  ∃ added, d'.words = d.words ++ added ∧ (∀ w ∈ added, P w) ∧ (d.names.Nodup → d'.names.Nodup)

namespace Dictionary

variable {P Q : Word Empty → Prop} {d d' d'' : Dictionary Empty}

theorem Extends.refl (P : Word Empty → Prop) (d : Dictionary Empty) : d.Extends P d :=
  ⟨[], by simp, by simp, fun h => h⟩

theorem Extends.trans (h : d.Extends P d') (h' : d'.Extends P d'') : d.Extends P d'' := by
  obtain ⟨added, hw, hp, hn⟩ := h
  obtain ⟨more, hw', hp', hn'⟩ := h'
  refine ⟨added ++ more, by rw [hw', hw, List.append_assoc], fun w hmem => ?_, fun hd => hn' (hn hd)⟩
  rcases List.mem_append.1 hmem with hmem | hmem
  · exact hp w hmem
  · exact hp' w hmem

theorem Extends.mono (hPQ : ∀ w, P w → Q w) (h : d.Extends P d') : d.Extends Q d' := by
  obtain ⟨added, hw, hp, hn⟩ := h
  exact ⟨added, hw, fun w hmem => hPQ w (hp w hmem), hn⟩

theorem not_mem_names {name : String} (h : d.contains name = false) : name ∉ d.names := by
  intro hmem
  obtain ⟨w, hw, rfl⟩ := List.mem_map.1 hmem
  have hfound : (d.words.find? fun v => v.name == w.name).isSome = true :=
    List.find?_isSome.2 ⟨w, hw, by simp⟩
  rw [contains, find?, hfound] at h
  cases h

/-- Adding a word extends a dictionary by that word. -/
theorem extends_add {w : Word Empty} (h : d.add w = .ok d') : d.Extends (· = w) d' := by
  refine ⟨[w], words_add h, by simp, fun hd => ?_⟩
  unfold add at h
  split at h
  · cases h
  · next hnew =>
    cases h
    have hw : w.name ∉ d.names := not_mem_names (by simpa using hnew)
    rw [names, List.map_append, List.nodup_append]
    refine ⟨hd, by simp, ?_⟩
    rintro name hmem other hother rfl
    simp only [List.map_cons, List.map_nil, List.mem_singleton] at hother
    exact hw (hother ▸ hmem)

/-- What was found before is found again. -/
theorem Extends.find? (h : d.Extends P d') {name : String} {w : Word Empty}
    (hw : d.find? name = some w) : d'.find? name = some w := by
  obtain ⟨added, hd, -, -⟩ := h
  rw [Dictionary.find?] at hw ⊢
  rw [hd, List.find?_append, hw]
  rfl

/-- What stood for a word before stands for it again. -/
theorem Extends.sense (h : d.Extends P d') {token : String} {code : Code Empty}
    (hc : (d.sense token).code? = some code) : d'.sense token = d.sense token := by
  obtain ⟨w, hw, -⟩ := find?_of_sense hc
  have hw' := h.find? hw
  unfold Dictionary.sense at hc ⊢
  cases hr : Numeral.read token with
  | value n => rfl
  | tooLong => rfl
  | other => simp only [hw, hw']

theorem name_of_find? {name : String} {w : Word Empty} (h : d.find? name = some w) :
    w.name = name := by
  simpa using List.find?_some h

end Dictionary

/-! ### Evaluations -/

/-- No action of a word touches the dictionary, but for the one that defines a plain word. -/
theorem steady_extends (d : Dictionary Empty) :
    Steady (fun m => d.Extends Word.Plain m.words) fun _ => True where
  stack hm _ := hm
  words hm hplain hadd := by
    refine hm.trans ((Dictionary.extends_add hadd).mono ?_)
    rintro _ rfl
    exact hplain
  note hm _ := hm
  put hm _ _ := hm
  emit _ hm := ends_emit (fun h _ => h) trivial _ hm
  readLine _ hm := ends_readLine (fun h _ => h) (fun _ => trivial) hm
  cause _ := trivial

theorem evaluate_extends (limit : Nat) (loop : Option Int) (tokens : List String) (s : Scope Empty) :
    s.words.Extends Word.Plain (finish (evaluate limit loop tokens s)).words :=
  evaluate_upholds (steady_extends s.words) trivial limit loop tokens (s := s) (.refl _ _)

theorem Reaches.extends {limit : Nat} {loop : Option Int} {tokens : List String} {s : Scope Empty}
    {outer : List Frame} {here : Moment} (h : Reaches limit loop tokens s outer here) :
    s.words.Extends Word.Plain here.scope.words :=
  h.upholds (steady_extends s.words) trivial (.refl _ _)

theorem interpretWithin_extends (limit : Nat) (loop : Option Int) (tokens : List String)
    (s : Scope Empty) :
    s.words.Extends Word.Plain (finish (interpretWithin limit loop tokens s)).words :=
  interpretWithin_upholds (steady_extends s.words) trivial limit loop tokens (s := s) (.refl _ _)

theorem interpretLine_extends (line : String) (input : Option String) (m : Machine Empty)
    (target : String) :
    m.words.Extends Word.Plain (finish (interpretLine line input (m, target))).1.words := by
  have hi := interpretWithin_extends nestingLimit none (tokenize line)
    ⟨{ m with console := m.console.redirect target input }, []⟩
  unfold interpretLine interpret
  simp only
  cases hr : interpretWithin nestingLimit none (tokenize line)
      ⟨{ m with console := m.console.redirect target input }, []⟩ with
  | ok u t =>
    rw [hr] at hi
    exact hi
  | error a t =>
    rw [hr] at hi
    exact hi

inductive Request where
  | interpret (limit : Nat) (loop : Option Int) (tokens : List String) (vars : Variables)
  | interpretLine (line : String) (input : Option String) (target : String)
  | run (text : String) (vars : Variables)
  | handleLine (line : String)

def Request.after (m : Machine Empty) : Request → Machine Empty
  | .interpret limit loop tokens vars =>
    (finish (interpretWithin limit loop tokens ⟨m, vars⟩)).toMachine
  | .interpretLine line input target => (finish (Forth.interpretLine line input (m, target))).1
  | .run text vars => (finish (Forth.run text ⟨m, vars⟩)).toMachine
  | .handleLine line => finish (Forth.handleLine line m)

theorem Request.extends (r : Request) (m : Machine Empty) :
    m.words.Extends Word.Plain (r.after m).words := by
  cases r with
  | interpret limit loop tokens vars => exact interpretWithin_extends limit loop tokens ⟨m, vars⟩
  | interpretLine line input target => exact interpretLine_extends line input m target
  | run text vars =>
    exact run_upholds (steady_extends m.words) trivial (fun h _ => h) text (s := ⟨m, vars⟩) (.refl _ _)
  | handleLine line =>
    exact handleLine_stable (steady_extends m.words) trivial (fun h _ => h) line m (.refl _ _)

/-- Defining a word from outside adds that word or nothing. -/
theorem define_extends (name : String) (body : List String) (effect : String) (m : Machine Empty) :
    m.words.Extends (· = ⟨name, effect, .definition body⟩)
      (finish (Machine.define name body effect m)).words := by
  unfold Machine.define
  cases ha : m.words.add ⟨name, effect, .definition body⟩ with
  | error c => exact .refl _ _
  | ok words => exact Dictionary.extends_add ha

/-! ### Histories -/

/-- From one dictionary, evaluations and definitions from outside lead to another; the latter are listed. In
between, a machine may change in all but its words. An evaluation may be left at any of its tokens. -/
inductive Later (d : Dictionary Empty) : List (Word Empty) → Dictionary Empty → Prop
  | now : Later d [] d
  | evaluate {given : List (Word Empty)} {m : Machine Empty} (r : Request) :
      Later d given m.words → Later d given (r.after m).words
  | reach {given : List (Word Empty)} {limit : Nat} {loop : Option Int} {tokens : List String}
      {s : Scope Empty} {outer : List Frame} {here : Moment} :
      Later d given s.words → Reaches limit loop tokens s outer here →
      Later d given here.scope.words
  | define {given : List (Word Empty)} {m : Machine Empty} (name : String) (body : List String)
      (effect : String) :
      Later d given m.words →
      Later d (⟨name, effect, .definition body⟩ :: given)
        (finish (Machine.define name body effect m)).words

theorem Later.extends {d d' : Dictionary Empty} {given : List (Word Empty)} (h : Later d given d') :
    d.Extends (fun w => w ∈ given ∨ w.Plain) d' := by
  induction h with
  | now => exact .refl _ _
  | @evaluate given m r h ih => exact ih.trans ((r.extends m).mono fun _ => .inr)
  | @reach given limit loop tokens s outer here h hr ih =>
    exact ih.trans (hr.extends.mono fun _ => .inr)
  | @define given m name body effect h ih =>
    have hold := ih.mono (Q := fun w => w ∈ ⟨name, effect, .definition body⟩ :: given ∨ w.Plain)
      fun w hw => hw.imp (List.mem_cons_of_mem _) fun hp => hp
    refine hold.trans ((define_extends name body effect m).mono fun w hw => .inl ?_)
    rw [hw]
    exact List.mem_cons_self

/-- The words of a dictionary stay as they are, in their order, before those that are added later. Names stay
distinct, and what is found under a name stays what is found there. What was not defined from outside is a
plain definition. -/
theorem Later.grows {d d' : Dictionary Empty} {given : List (Word Empty)} (h : Later d given d') :
    (∃ added, d'.words = d.words ++ added ∧ ∀ w ∈ added, w ∈ given ∨ w.Plain) ∧
      (d.names.Nodup → d'.names.Nodup) ∧
      (∀ name w, d'.find? name = some w → w.name = name) ∧
      ∀ name w, d.find? name = some w → d'.find? name = some w := by
  obtain ⟨added, hwords, hadded, hnames⟩ := h.extends
  exact ⟨⟨added, hwords, hadded⟩, hnames, fun _ _ => Dictionary.name_of_find?,
    fun _ _ => h.extends.find?⟩

/-- A program that defines a word and fails after that: the definition stays, behind the primitives. -/
theorem grows_of_failing_program :
    let after := ((Request.interpret 1 none [":", "two", "2", ";", "frob"] []).after bootMachine).words
    Later primitiveWords [] after ∧
      (∃ added, after.words = primitiveWords.words ++ added ∧ ∀ w ∈ added, w ∈ [] ∨ w.Plain) ∧
      after.names.Nodup ∧ after.find? "two" = some ⟨"two", "", .definition ["2"]⟩ ∧
      after.find? "dup" = some ⟨"dup", "n -- n n", .primitive (.simple .dup)⟩ := by
  intro after
  have h : Later primitiveWords [] after := .evaluate (m := bootMachine) _ .now
  obtain ⟨hadded, hnames, -, hfind⟩ := Later.grows h
  have htwo : after.find? "two" = some ⟨"two", "", .definition ["2"]⟩ := by decide +kernel
  exact ⟨h, hadded, hnames (by decide), htwo, hfind "dup" _ (by decide)⟩

end Forth
