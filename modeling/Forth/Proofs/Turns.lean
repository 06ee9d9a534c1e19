import Forth.Standard
import Forth.Proofs.Engine
import Forth.Proofs.Growth

/-!
# What a step changes

A dictionary that is made of the primitives knows one word that defines others, the colon, and no body in it
holds that token. So the own work of a token touches words and variables in few ways (`plan_changes`), and a
step of the evaluation does few things to the sequences (`Config.turn`).
-/
namespace Forth

open Machine

/-! ### Dictionaries on the primitives -/

/-- A dictionary that begins with the primitives and goes on with plain definitions. -/
def Dictionary.Based (d : Dictionary Empty) : Prop := primitiveWords.Extends Word.Plain d

theorem based_standardWords : (standardWords : Dictionary Empty).Based := by
  have h := interpretWithin_extends nestingLimit none (compositeSource.flatMap tokenize)
    ⟨bootMachine, []⟩
  unfold Dictionary.Based standardWords booted interpret
  cases hr : interpretWithin nestingLimit none (compositeSource.flatMap tokenize)
      (⟨bootMachine, []⟩ : Scope Empty) with
  | ok u s =>
    rw [hr] at h
    exact h
  | error a s =>
    rw [hr] at h
    exact h

theorem based_of_later {d : Dictionary Empty} (h : Later standardWords [] d) : d.Based :=
  based_standardWords.trans (h.extends.mono fun _ hw => hw.resolve_left (by simp))

namespace Dictionary.Based

variable {d : Dictionary Empty} {token : String}

theorem primitive_or_plain (h : d.Based) {w : Word Empty} (hw : d.find? token = some w) :
    w ∈ primitiveWords.words ∨ w.Plain := by
  obtain ⟨added, hd, hadded, -⟩ := h
  have hmem : w ∈ primitiveWords.words ++ added := by
    rw [← hd]
    exact List.mem_of_find?_eq_some hw
  rcases List.mem_append.1 hmem with hmem | hmem
  · exact .inl hmem
  · exact .inr (hadded w hmem)

/-- Primitives keep their meaning. -/
theorem sense_primitive (h : d.Based) {p : Primitive Empty}
    (hp : primitiveWords.sense token = .primitive p) : d.sense token = .primitive p := by
  have hcode : (primitiveWords.sense token).code? = some (.primitive p) := by
    rw [hp]
    rfl
  rw [h.sense hcode, hp]

/-- Bodies hold no colon. -/
theorem colon_not_mem (h : d.Based) {body : List String} (hs : d.sense token = .definition body) :
    ":" ∉ body := by
  have hcode : (d.sense token).code? = some (.definition body) := by
    rw [hs]
    rfl
  obtain ⟨w, hw, hc⟩ := find?_of_sense hcode
  rcases h.primitive_or_plain hw with hp | ⟨body', hbody, hplain⟩
  · have hprimitive : ∀ w ∈ (primitiveWords : Dictionary Empty).words, w.isPrimitive = true := by
      decide
    have := hprimitive w hp
    rw [Word.isPrimitive, hc] at this
    cases this
  · have hb : body' = body := by
      rw [hc] at hbody
      cases hbody
      rfl
    subst hb
    exact fun hmem => (hplain ":" (List.mem_cons_of_mem _ hmem)).1 rfl

/-- Only primitives stand for primitives. -/
theorem word_of_primitive (h : d.Based) {p : Primitive Empty} (hs : d.sense token = .primitive p) :
    ∃ w ∈ (primitiveWords : Dictionary Empty).words, w.name = token ∧ w.code = .primitive p := by
  have hcode : (d.sense token).code? = some (.primitive p) := by
    rw [hs]
    rfl
  obtain ⟨w, hw, hc⟩ := find?_of_sense hcode
  rcases h.primitive_or_plain hw with hp | ⟨body, hbody, -⟩
  · exact ⟨w, hp, name_of_find? hw, hc⟩
  · rw [hc] at hbody
    cases hbody

/-- Nothing defines words but the colon itself. -/
theorem eq_colon (h : d.Based) (hs : d.sense token = .primitive (.lookahead .colon)) :
    token = ":" := by
  obtain ⟨w, hw, rfl, hc⟩ := h.word_of_primitive hs
  have hcolon : ∀ w ∈ (primitiveWords : Dictionary Empty).words,
      w.code = .primitive (.lookahead .colon) → w.name = ":" := by
    decide
  exact hcolon w hw hc

end Dictionary.Based

/-- Primitives keep their meaning on whatever the standard words grow into. -/
theorem Dictionary.Extends.sense_primitive {P : Word Empty → Prop} {d : Dictionary Empty}
    (hd : standardWords.Extends P d) {token : String} {p : Primitive Empty}
    (hp : primitiveWords.sense token = .primitive p) : d.sense token = .primitive p := by
  have hstandard := based_standardWords.sense_primitive hp
  rw [hd.sense (by rw [hstandard]; rfl), hstandard]

/-! ### What a token does to words and variables -/

section Words

variable {α : Type} {d : Dictionary Empty}

theorem Ends.finish {I : Machine Empty → Prop} {T : Trouble → Prop}
    {r : EStateM.Result Trouble (Machine Empty) α} (h : Ends I T r) : I (finish r) := by
  cases r with
  | ok x m => exact h
  | error t m => exact h.1

theorem emit_words (t : String) {m : Machine Empty} (hm : m.words = d) :
    Ends (fun m => m.words = d) (fun _ => True) (emit t m) :=
  ends_emit (fun h _ => h) trivial t hm

theorem readLine_words {m : Machine Empty} (hm : m.words = d) :
    Ends (fun m => m.words = d) (fun _ => True) (readLine m) :=
  ends_readLine (fun h _ => h) (fun _ => trivial) hm

/-- The basic actions leave the dictionary as it is. -/
theorem tame_words (d : Dictionary Empty) :
    Tame (Only fun m => m.words = d) (fun _ => True) fun _ => False :=
  tame_only (fun h _ => h) (fun h _ _ => h) (fun _ => emit_words _) (fun _ => trivial)
    fun _ => readLine_words

theorem Simple.words_act (w : Simple) (m : Machine Empty) : (finish (w.act m)).words = m.words :=
  (w.ends (tame_words m.words) (fun _ => trivial) rfl).finish

/-- So does asking for a line. -/
theorem words_askOnce (accept : String → Option Int) (m : Machine Empty) :
    (finish (askOnce accept m)).words = m.words := by
  have hwrite {t : String} (ht : Uttered (t ++ "\n")) : Keeps (Only fun m' => m'.words = m.words) (fun _ => True)
      (fun _ => False) (do writeLine t; pure none : Action Empty (Option Int)) :=
    .bind ((tame_words m.words).emit ht) fun _ => .pure none
  have hkeeps : Keeps (Only fun m' => m'.words = m.words) (fun _ => True) (fun _ => False)
      (askOnce accept) := by
    refine .bind (tame_words m.words).readLine fun line => ?_
    cases line with
    | none => exact .throw trivial
    | some line =>
      by_cases hl : line.isEmpty = true
      · simp only [hl, if_true]
        exact hwrite .inputEmpty
      · simp only [hl]
        cases accept line with
        | none => exact hwrite .notNumber
        | some k => exact .pure _
  exact (alike_self_iff.1 (hkeeps m m ⟨rfl, rfl⟩)).finish

end Words

namespace Config

/-- The sequences under evaluation, the innermost first. -/
def frames : Config → List Activation
  | .going _ a waiting | .asking _ _ a waiting => a :: waiting
  | .ended _ => []

def words : Config → Dictionary Empty
  | .going m _ _ | .asking _ m _ _ => m.words
  | .ended r => (finish r).words

/-- The variables of every sequence under evaluation; in the end, those of the outermost. -/
def namespaces : Config → List Variables
  | .going _ a waiting | .asking _ _ a waiting => (a :: waiting).map Activation.vars
  | .ended r => [(finish r).vars]

/-- The active sequence is about to evaluate a lookahead word that a name follows. -/
def Dispatches (w : Lookahead) (name : String) : Config → Prop
  | .going m a _ => a.pending = [] ∧ a.tokens[a.pos + 1]? = some name ∧
      ∃ token, a.tokens[a.pos]? = some token ∧ m.words.sense token = .primitive (.lookahead w)
  | _ => False

/-- The active sequence is about to declare a variable or to give it another value. -/
def Binds (name : String) (c : Config) : Prop :=
  c.Dispatches .declare name ∨ c.Dispatches .assign name

end Config

inductive Change (c : Config) (a : Activation) (s : Scope Empty) : Prop
  | none : s.words = c.words → s.vars = a.vars → Change c a s
  | bound {name : String} {n : Int} : c.Binds name → c.words.contains name = false →
      s.words = c.words → s.vars = a.vars.set name n → Change c a s
  | defined {word : Word Empty} : ":" ∈ a.tokens → word.Plain → a.vars.contains word.name = false →
      c.words.add word = .ok s.words → s.vars = a.vars → Change c a s

/-- The own work of a token has changed no more than it may, and leaves no inner sequence with a colon. -/
def Changes (c : Config) (a : Activation) : EStateM.Result Break (Scope Empty) Plan → Prop
  | .ok p s => Change c a s ∧ ∀ x ∈ p.inner, ":" ∉ x.tokens
  | .error _ s => s.words = c.words ∧ s.vars = a.vars

theorem Branches.colon_not_mem {rest : List String} {b : Branches} (h : scan rest = .ok b) (c : Bool) :
    ":" ∉ b.pick c := by
  unfold scan at h
  split at h
  · cases h
  · next yes last hy =>
    have hyes := (Fence.not_mem_of_scan (f := .consequent) rfl hy).1
    split at h
    · cases h
      cases c <;> simp [pick, hyes]
    · split at h <;> cases h
      next no last' hn =>
        have hno := (Fence.not_mem_of_scan (f := .alternative) rfl hn).1
        cases c <;> simp [pick, hyes, hno]

/-- Neither branches nor bodies of loops hold a colon. -/
theorem Lookahead.colon_not_mem {w : Lookahead} {loop : Option Int} {rest : List String}
    {s s' : Scope Empty} {p : Plan} (h : w.plan loop rest s = .ok p s') :
    ∀ x ∈ p.inner, ":" ∉ x.tokens := by
  have idle {a : Step Empty Nat} (h : (do pure ⟨← a, []⟩ : Step Empty Plan) s = .ok p s') :
      ∀ x ∈ p.inner, ":" ∉ x.tokens := by
    rw [inner_eq_nil_of_idle a h]
    simp
  cases w with
  | choose =>
    rw [plan_choose] at h
    split at h
    · cases h
    · next b hb =>
      split at h <;> cases h
      simpa using Branches.colon_not_mem hb _
  | loop =>
    rw [plan_loop] at h
    split at h
    · cases h
    · next body last hb =>
      split at h <;> cases h
      have hbody := (Fence.not_mem_of_scan (f := .loop) rfl hb).1
      intro x hx
      obtain ⟨k, -, rfl⟩ := List.mem_map.1 hx
      exact hbody
  | comment => exact idle h
  | colon => exact idle h
  | say => exact idle h
  | declare => exact idle h
  | «recall» => exact idle h
  | assign => exact idle h

theorem Lookahead.plan_changes {m : Machine Empty} {a : Activation} {waiting : List Activation}
    {token : String} {w : Lookahead} (hd : m.words.Based) (hp : a.pending = [])
    (ht : a.tokens[a.pos]? = some token)
    (hs : m.words.sense token = .primitive (.lookahead w)) :
    Changes (.going m a waiting) a (w.plan a.loop (a.tokens.drop (a.pos + 1)) ⟨m, a.vars⟩) := by
  have hinner (p : Plan) (s : Scope Empty)
      (h : w.plan a.loop (a.tokens.drop (a.pos + 1)) ⟨m, a.vars⟩ = .ok p s) :
      ∀ x ∈ p.inner, ":" ∉ x.tokens := w.colon_not_mem h
  have ho : w.Outcome (a.tokens.drop (a.pos + 1)) ⟨m, a.vars⟩
      (w.plan a.loop (a.tokens.drop (a.pos + 1)) ⟨m, a.vars⟩) := w.plan_outcome _
  have dispatches {name : String} (hn : (a.tokens.drop (a.pos + 1)).head? = some name) :
      (Config.going m a waiting).Dispatches w name := by
    rw [List.head?_drop] at hn
    exact ⟨hp, hn, token, ht, hs⟩
  have written {line : String} {r : EStateM.Result Trouble (Machine Empty) Unit}
      (hr : writeLine line m = r) : (finish r).words = m.words := by
    rw [← hr]
    exact (emit_words _ rfl).finish
  generalize w.plan a.loop (a.tokens.drop (a.pos + 1)) ⟨m, a.vars⟩ = r at ho hinner ⊢
  cases ho with
  | failed hc => exact ⟨rfl, rfl⟩
  | refused hline hw => exact ⟨written hw, rfl⟩
  | written hline hw hwidth => exact ⟨.none (written hw) rfl, hinner _ _ rfl⟩
  | changed hwidth => exact ⟨.none rfl rfl, hinner _ _ rfl⟩
  | declared hw hname hword hstack hwidth =>
    subst hw
    exact ⟨.bound (.inl (dispatches hname)) hword rfl rfl, hinner _ _ rfl⟩
  | assigned hw hname hword hstack hwidth =>
    subst hw
    exact ⟨.bound (.inr (dispatches hname)) hword rfl rfl, hinner _ _ rfl⟩
  | defined hw hplain hvar hadd hwidth =>
    subst hw
    have hmem : token ∈ a.tokens := List.mem_of_getElem? ht
    rw [hd.eq_colon hs] at hmem
    exact ⟨.defined hmem hplain hvar hadd rfl, hinner _ _ rfl⟩

theorem plan_changes {m : Machine Empty} {a : Activation} {waiting : List Activation} {token : String}
    (hd : m.words.Based) (hp : a.pending = []) (ht : a.tokens[a.pos]? = some token) :
    Changes (.going m a waiting) a
      (plan a.loop token (a.tokens.drop (a.pos + 1)) ⟨m, a.vars⟩) := by
  have alone {p : Plan} {s : Scope Empty} (hw : s.words = m.words) (hv : s.vars = a.vars)
      (hi : p.inner = []) : Changes (.going m a waiting) a (.ok p s) :=
    ⟨.none hw hv, by simp [hi]⟩
  unfold plan
  cases hs : m.words.sense token with
  | number n => exact alone rfl rfl rfl
  | longNumber => exact ⟨rfl, rfl⟩
  | unknown => exact ⟨rfl, rfl⟩
  | definition body => exact ⟨.none rfl rfl, by simpa using hd.colon_not_mem hs⟩
  | primitive q =>
    cases q with
    | lookahead w => exact w.plan_changes hd hp ht hs
    | simple w =>
      have hw := w.words_act m
      simp only [Sense.plan, Primitive.plan_simple]
      cases hr : w.act m with
      | ok u m' =>
        rw [hr] at hw
        exact alone hw rfl rfl
      | error t m' =>
        rw [hr] at hw
        exact ⟨hw, rfl⟩
    | index =>
      simp only [Sense.plan, Primitive.plan_index]
      cases a.loop with
      | none => exact ⟨rfl, rfl⟩
      | some k => exact alone rfl rfl rfl
    | bye => exact ⟨rfl, rfl⟩
    | host w => exact w.elim

/-! ### What a step does to the sequences -/

namespace Config

inductive Turn (c : Config) (a : Activation) (waiting : List Activation) : Config → Prop
  | enters {m : Machine Empty} {x : Inner} {rest : List Inner} : m.words = c.words →
      a.pending = x :: rest →
      Turn c a waiting (.going m (.fresh x) ({ a with pending := rest } :: waiting))
  | asks {accept : String → Option Int} {m : Machine Empty} : m.words = c.words →
      Turn c a waiting (.asking accept m a waiting)
  | works {p : Plan} {s : Scope Empty} : Change c a s → (∀ x ∈ p.inner, ":" ∉ x.tokens) →
      Turn c a waiting (settle a waiting (.ok p s))
  | stops {h : Halt} {m : Machine Empty} : m.words = c.words →
      Turn c a waiting (stop h m a.vars waiting)

theorem Turn.of_changes {c : Config} {a : Activation} {waiting : List Activation}
    {r : EStateM.Result Break (Scope Empty) Plan} (h : Changes c a r) :
    Turn c a waiting (settle a waiting r) := by
  cases r with
  | ok p s => exact .works h.1 h.2
  | error b s =>
    have hs : settle a waiting (.error b s) =
        stop (b.annotate a.tokens a.pos) s.toMachine a.vars waiting := by
      rw [← h.2]
      rfl
    rw [hs]
    exact .stops h.1

/-- Every step is such a turn. -/
theorem turn (limit : Nat) {c : Config} {a : Activation} {waiting : List Activation}
    (hd : c.words.Based) (hc : c.frames = a :: waiting) : Turn c a waiting (step limit c) := by
  cases c with
  | ended r => cases hc
  | asking accept m b others =>
    cases hc
    have hw := words_askOnce accept m
    cases hr : askOnce accept m with
    | error t m' =>
      rw [hr] at hw
      have herror : Changes (.asking accept m a waiting) a (answered a.vars (.error t m')) :=
        ⟨hw, rfl⟩
      rw [step_unanswered hr]
      exact .of_changes herror
    | ok k m' =>
      rw [hr] at hw
      cases k with
      | none =>
        rw [step_again hr]
        exact .asks hw
      | some n =>
        have hanswer : Changes (.asking accept m a waiting) a (answered a.vars (.ok n m')) :=
          ⟨.none hw rfl, by simp⟩
        rw [step_answer hr]
        exact .of_changes hanswer
  | going m b others =>
    cases hc
    cases hp : a.pending with
    | cons x rest =>
      rw [step_enter hp, enter]
      split
      · exact .enters rfl hp
      · rw [stop_cons (by simp)]
        exact .stops rfl
    | nil =>
      cases ht : a.tokens[a.pos]? with
      | none =>
        have hleave : step limit (.going m a waiting) = stop .bye m a.vars waiting :=
          step_leave hp ht
        rw [hleave]
        exact .stops rfl
      | some token =>
        cases hs : (m.words.sense token).accepts? with
        | some accept =>
          rw [step_ask hp ht hs]
          exact .asks rfl
        | none =>
          rw [step_work hp ht hs]
          exact .of_changes (plan_changes hd hp ht)

end Config

end Forth
