import Forth.Proofs.Turns

/-!
# Words and variables

No name is a word and a variable at once. The words that define and declare check for it, but each of them
sees only the variables of its own sequence. That is enough, because an inner sequence holds no colon: while
one is evaluated, no word is defined, and the sequences around it keep their variables. So a variable stays
readable, and gives the value it was bound to last (`words_apart_variables`).
-/
namespace Forth

open Machine

/-- No word has the name of a variable. -/
def Apart (d : Dictionary Empty) (vars : Variables) : Prop :=
  ∀ name, d.contains name = true → vars.contains name = false

theorem Apart.set {d : Dictionary Empty} {vars : Variables} (h : Apart d vars) {name : String}
    (hn : d.contains name = false) (n : Int) : Apart d (vars.set name n) := by
  intro other hother
  have hne : other ≠ name := by
    rintro rfl
    rw [hn] at hother
    cases hother
  have hold := h other hother
  rw [Variables.contains] at hold ⊢
  rw [Variables.get?_set, if_neg hne]
  exact hold

theorem Apart.add {d d' : Dictionary Empty} {vars : Variables} (h : Apart d vars) {w : Word Empty}
    (hw : vars.contains w.name = false) (ha : d.add w = .ok d') : Apart d' vars := by
  intro other hother
  by_cases hn : other = w.name
  · rw [hn]
    exact hw
  · rw [Dictionary.contains, Dictionary.find?_add ha, if_neg hn] at hother
    exact h other hother

namespace Config

/-! ### What all configurations of a run have -/

theorem outermost_mem (vars : Variables) (waiting : List Activation) :
    Activation.outermost vars waiting ∈ vars :: waiting.map Activation.vars := by
  induction waiting generalizing vars with
  | nil => exact List.mem_cons_self
  | cons a waiting ih => exact List.mem_cons_of_mem _ (ih a.vars)

theorem outermost_append (vars : Variables) (above : List Activation) {waiting : List Activation}
    (hw : waiting ≠ []) :
    Activation.outermost vars (above ++ waiting) = Activation.outermost [] waiting := by
  induction above generalizing vars with
  | nil =>
    cases waiting with
    | nil => exact absurd rfl hw
    | cons a waiting => rfl
  | cons a above ih => exact ih a.vars

/-- A report may add to the journal, and to nothing else. -/
theorem finish_report (h : Halt) (s : Scope Empty) :
    (finish (h.report s)).words = s.words ∧ (finish (h.report s)).vars = s.vars := by
  cases h <;> exact ⟨rfl, rfl⟩

section Stop

variable (h : Halt) (m : Machine Empty) (vars : Variables) (waiting : List Activation)

theorem words_stop : (stop h m vars waiting).words = m.words := by
  cases h with
  | bye => cases waiting <;> rfl
  | _ => exact (finish_report _ _).1

theorem frames_stop : (stop h m vars waiting).frames = waiting ∨ (stop h m vars waiting).frames = [] := by
  cases h with
  | bye => cases waiting <;> exact .inl rfl
  | _ => exact .inr rfl

theorem namespaces_stop : ∀ v ∈ (stop h m vars waiting).namespaces,
    v ∈ vars :: waiting.map Activation.vars := by
  have hended (h : Halt) (v : Variables)
      (hv : v ∈ (Config.ended (h.report ⟨m, Activation.outermost vars waiting⟩)).namespaces) :
      v ∈ vars :: waiting.map Activation.vars := by
    rw [namespaces, (finish_report _ _).2, List.mem_singleton] at hv
    rw [hv]
    exact outermost_mem vars waiting
  cases h with
  | bye =>
    cases waiting with
    | nil => exact fun v hv => hv
    | cons a waiting => exact fun v hv => List.mem_cons_of_mem _ hv
  | _ => exact hended _

end Stop

/-- Words and variables are apart in every sequence, and the inner ones, also those still to come, hold no
colon. -/
structure Sound (c : Config) : Prop where
  based : c.words.Based
  apart : ∀ vars ∈ c.namespaces, Apart c.words vars
  pending : ∀ a ∈ c.frames, ∀ x ∈ a.pending, ":" ∉ x.tokens
  inner : ∀ a ∈ c.frames.dropLast, ":" ∉ a.tokens

theorem namespaces_of_frames {c : Config} {a : Activation} {waiting : List Activation}
    (hc : c.frames = a :: waiting) : c.namespaces = a.vars :: waiting.map Activation.vars := by
  cases c with
  | ended r => cases hc
  | going m b others => cases hc; rfl
  | asking accept m b others => cases hc; rfl

namespace Sound

variable {c c' : Config} {a : Activation} {waiting : List Activation}

/-- Only the outermost sequence can define words. -/
theorem outermost (h : c.Sound) (hc : c.frames = a :: waiting) (ha : ":" ∈ a.tokens) :
    waiting = [] := by
  cases waiting with
  | nil => rfl
  | cons b waiting =>
    have hmem : a ∈ c.frames.dropLast := by simp [hc]
    exact absurd ha (h.inner a hmem)

theorem apart_active (h : c.Sound) (hc : c.frames = a :: waiting) :
    ∀ v ∈ a.vars :: waiting.map Activation.vars, Apart c.words v := by
  rw [← namespaces_of_frames hc]
  exact h.apart

/-- The active sequence may move on, over the same tokens. -/
theorem replace (h : c.Sound) (hc : c.frames = a :: waiting) {b : Activation}
    (hc' : c'.frames = b :: waiting) (hw : c'.words = c.words) (hb : b.tokens = a.tokens) (hv : Apart c.words b.vars)
    (hp : ∀ x ∈ b.pending, ":" ∉ x.tokens) : c'.Sound where
  based := by
    rw [hw]
    exact h.based
  apart := by
    rw [hw, namespaces_of_frames hc']
    intro v hmem
    rcases List.mem_cons.1 hmem with rfl | hmem
    · exact hv
    · exact h.apart_active hc v (List.mem_cons_of_mem _ hmem)
  pending := by
    rw [hc']
    intro d hd
    rcases List.mem_cons.1 hd with rfl | hd
    · exact hp
    · exact h.pending d (by simp [hc, hd])
  inner := by
    rw [hc']
    intro d hd
    cases waiting with
    | nil => cases hd
    | cons e waiting =>
      rw [List.dropLast_cons_cons] at hd
      rcases List.mem_cons.1 hd with rfl | hd
      · rw [hb]
        exact h.inner a (by simp [hc])
      · exact h.inner d (by rw [hc, List.dropLast_cons_cons]; exact List.mem_cons_of_mem _ hd)

/-- An inner sequence may begin. -/
theorem enter (h : c.Sound) (hc : c.frames = a :: waiting) {m : Machine Empty} {x : Inner}
    {rest : List Inner} (hm : m.words = c.words) (hp : a.pending = x :: rest) :
    (Config.going m (.fresh x) ({ a with pending := rest } :: waiting)).Sound := by
  have hpending := h.pending a (by simp [hc])
  rw [hp] at hpending
  have hrest : (Config.going m { a with pending := rest } waiting).Sound :=
    h.replace hc rfl hm rfl (h.apart_active hc _ List.mem_cons_self) fun y hy =>
      hpending y (List.mem_cons_of_mem _ hy)
  constructor
  case based => exact hrest.based
  case apart =>
    intro v hv
    rcases List.mem_cons.1 hv with rfl | hv
    · exact fun _ _ => rfl
    · exact hrest.apart v hv
  case pending =>
    intro d hd
    rcases List.mem_cons.1 hd with rfl | hd
    · exact fun y hy => by cases hy
    · exact hrest.pending d hd
  case inner =>
    intro d hd
    rw [frames, List.dropLast_cons_cons] at hd
    rcases List.mem_cons.1 hd with rfl | hd
    · exact hpending x List.mem_cons_self
    · exact hrest.inner d hd

/-- The active sequence may end. -/
theorem stop (h : c.Sound) (hc : c.frames = a :: waiting) (halt : Halt) {m : Machine Empty}
    (hm : m.words = c.words) : (Config.stop halt m a.vars waiting).Sound := by
  have hsub : ∀ b ∈ (Config.stop halt m a.vars waiting).frames, b ∈ waiting := by
    rcases frames_stop halt m a.vars waiting with hf | hf <;> rw [hf]
    · exact fun b hb => hb
    · exact fun b hb => by cases hb
  constructor
  case based =>
    rw [words_stop, hm]
    exact h.based
  case apart =>
    rw [words_stop, hm]
    exact fun v hv => h.apart_active hc v (namespaces_stop halt m a.vars waiting v hv)
  case pending =>
    intro b hb
    exact h.pending b (by rw [hc]; exact List.mem_cons_of_mem _ (hsub b hb))
  case inner =>
    rcases frames_stop halt m a.vars waiting with hf | hf <;> rw [hf]
    · intro b hb
      refine h.inner b ?_
      cases waiting with
      | nil => cases hb
      | cons d waiting =>
        rw [hc, List.dropLast_cons_cons]
        exact List.mem_cons_of_mem _ hb
    · exact fun b hb => by cases hb

theorem turn (h : c.Sound) (hc : c.frames = a :: waiting) (ht : Turn c a waiting c') :
    c'.Sound := by
  have hvars : Apart c.words a.vars := h.apart_active hc _ List.mem_cons_self
  cases ht with
  | enters hm hp => exact h.enter hc hm hp
  | stops hm => exact h.stop hc _ hm
  | asks hm => exact h.replace hc rfl hm rfl hvars (h.pending a (by simp [hc]))
  | works hchange hinner =>
    cases hchange with
    | none hw hv => exact h.replace hc rfl hw rfl (by rw [hv]; exact hvars) hinner
    | bound hb hname hw hv =>
      exact h.replace hc rfl hw rfl (by rw [hv]; exact hvars.set hname _) hinner
    | @defined word hcolon hplain hname hadd hv =>
      have hwaiting := h.outermost hc hcolon
      subst hwaiting
      constructor
      case based =>
        refine h.based.trans ((Dictionary.extends_add hadd).mono ?_)
        rintro _ rfl
        exact hplain
      case apart =>
        intro v hmem
        rw [List.mem_singleton.1 hmem, hv]
        exact hvars.add hname hadd
      case pending =>
        intro d hd
        rw [List.mem_singleton.1 hd]
        exact hinner
      case inner => exact fun d hd => by cases hd

/-- Every step leads from a sound configuration to one. -/
theorem step (h : c.Sound) (limit : Nat) : (Config.step limit c).Sound := by
  cases hc : c.frames with
  | nil =>
    cases c with
    | ended r => exact h
    | going m a waiting => cases hc
    | asking accept m a waiting => cases hc
  | cons a waiting => exact h.turn hc (Config.turn limit h.based hc)

theorem run (h : c.Sound) (limit n : Nat) : (Config.run limit n c).Sound := by
  induction n generalizing c with
  | zero => exact h
  | succ n ih => exact ih (h.step limit)

/-- An evaluation begins sound. -/
theorem start {s : Scope Empty} (hd : s.words.Based) (hs : Apart s.words s.vars) (limit : Nat)
    (loop : Option Int) (tokens : List String) : (Config.start limit loop tokens s).Sound := by
  have hgoing : (Config.going s.toMachine ⟨tokens, loop, 0, [], s.vars⟩ []).Sound := by
    constructor
    case based => exact hd
    case apart =>
      intro v hv
      rw [List.mem_singleton.1 hv]
      exact hs
    case pending =>
      intro b hb
      rw [List.mem_singleton.1 hb]
      exact fun x hx => by cases hx
    case inner => exact fun b hb => by cases hb
  unfold Config.start Config.enter
  split
  · exact hgoing
  · exact hgoing.stop rfl .overflow rfl

end Sound

/-! ### Inner sequences -/

/-- The sequences in `waiting` still wait, or wait no more because the whole evaluation is over. -/
def Upon (waiting : List Activation) : Config → Prop
  | .ended r => (finish r).vars = Activation.outermost [] waiting
  | c => waiting <:+ c.frames

inductive Above (limit : Nat) (waiting : List Activation) (c : Config) : Config → Prop
  | here : Above limit waiting c c
  | step {c' : Config} : Above limit waiting c c' → waiting.length < c'.frames.length →
      Above limit waiting c (Config.step limit c')

section Upon

variable {limit : Nat} {c c' : Config} {a : Activation} {above waiting : List Activation}

theorem upon_iff (hc : c.frames ≠ []) : c.Upon waiting ↔ waiting <:+ c.frames := by
  cases c with
  | ended r => exact absurd rfl hc
  | going m b others => exact Iff.rfl
  | asking accept m b others => exact Iff.rfl

theorem Turn.upon (h : c.Sound) (hc : c.frames = a :: (above ++ waiting)) (hw : waiting ≠ [])
    (ht : Turn c a (above ++ waiting) c') : c'.words = c.words ∧ c'.Upon waiting := by
  have hinner : ":" ∉ a.tokens := fun ha => hw (List.append_eq_nil_iff.1 (h.outermost hc ha)).2
  cases ht with
  | @enters m x rest hm hp =>
    exact ⟨hm, .fresh x :: { a with pending := rest } :: above, rfl⟩
  | asks hm => exact ⟨hm, a :: above, rfl⟩
  | @works p s hchange hp =>
    refine ⟨?_, { a with pos := a.pos + 1 + p.width, pending := p.inner, vars := s.vars } :: above, rfl⟩
    cases hchange with
    | none hwords hv => exact hwords
    | bound hb hname hwords hv => exact hwords
    | defined hcolon hplain hname hadd hv => exact absurd hcolon hinner
  | @stops halt m hm =>
    refine ⟨(words_stop _ _ _ _).trans hm, ?_⟩
    cases halt with
    | bye =>
      cases above with
      | nil =>
        cases waiting with
        | nil => exact absurd rfl hw
        | cons b waiting => exact List.suffix_refl _
      | cons b above => exact ⟨b :: above, rfl⟩
    | _ => exact (finish_report _ _).2.trans (outermost_append _ _ hw)

/-- While an inner sequence is evaluated, nothing is defined, and the sequences around it wait as they
were. -/
theorem Above.upon (h : c.Sound) (hc : c.frames = a :: waiting) (hw : waiting ≠ [])
    (ha : Above limit waiting c c') : c'.Sound ∧ c'.words = c.words ∧ c'.Upon waiting := by
  induction ha with
  | here =>
    have hne : c.frames ≠ [] := by simp [hc]
    exact ⟨h, rfl, (upon_iff hne).2 ⟨[a], hc.symm⟩⟩
  | @step c' ha hlt ih =>
    obtain ⟨hsound, hwords, hupon⟩ := ih
    have hne : c'.frames ≠ [] := by
      intro hnil
      rw [hnil] at hlt
      cases hlt
    obtain ⟨above, habove⟩ := (upon_iff hne).1 hupon
    cases above with
    | nil =>
      rw [← habove] at hlt
      exact absurd hlt (Nat.lt_irrefl _)
    | cons b above =>
      have hturn := turn limit hsound.based habove.symm
      obtain ⟨hw', hu'⟩ := hturn.upon hsound habove.symm hw
      exact ⟨hsound.step limit, hw'.trans hwords, hu'⟩

end Upon

/-! ### The value of a variable -/

/-- The evaluation that began with `c₀` has come to a configuration. In the sequence right above `waiting`,
which has not been left since, the name was bound to the value, and not again after that. -/
inductive LastBound (limit : Nat) (c₀ : Config) (waiting : List Activation) (name : String) :
    Int → Config → Prop
  | bind {k : Nat} {n : Int} {m : Machine Empty} {a : Activation} {below : Stack} :
      run limit k c₀ = .going m a waiting → (Config.going m a waiting).Binds name →
      m.stack = n :: below → LastBound limit c₀ waiting name n (step limit (.going m a waiting))
  | go {n : Int} {c : Config} : LastBound limit c₀ waiting name n c →
      waiting.length < c.frames.length → ¬ (c.frames.tail = waiting ∧ c.Binds name) →
      LastBound limit c₀ waiting name n (step limit c)

/-- In the sequence right above `waiting`, if it is still there, the name has the value. -/
def Bound (name : String) (n : Int) (waiting : List Activation) (c : Config) : Prop :=
  waiting.length < c.frames.length →
    ∃ above a, c.frames = above ++ a :: waiting ∧ a.vars.get? name = some n

section Value

variable {limit : Nat} {m : Machine Empty} {a : Activation} {waiting : List Activation} {name : String}
  {n : Int} {c c' : Config}

theorem step_lookahead (limit : Nat) {w : Lookahead} (h : (Config.going m a waiting).Dispatches w name) :
    ∃ rest, step limit (.going m a waiting) =
      settle a waiting (w.plan a.loop (name :: rest) ⟨m, a.vars⟩) := by
  obtain ⟨hp, hname, token, ht, hs⟩ := h
  obtain ⟨hi, hget⟩ := List.getElem?_eq_some_iff.1 hname
  have hrest : a.tokens.drop (a.pos + 1) = name :: a.tokens.drop (a.pos + 1 + 1) := by
    rw [List.drop_eq_getElem_cons hi, hget]
  refine ⟨a.tokens.drop (a.pos + 1 + 1), ?_⟩
  rw [step_work hp ht (by rw [hs]; rfl), hrest]
  unfold plan
  simp only [hs, Sense.plan, Primitive.plan]

/-- The words that bind a name do so, or end the evaluation. -/
theorem bound_step {below : Stack} (hb : (Config.going m a waiting).Binds name)
    (hn : m.stack = n :: below) : Bound name n waiting (step limit (.going m a waiting)) := by
  have hbinds {p : Plan} {m' : Machine Empty} :
      Bound name n waiting (settle a waiting (.ok p ⟨m', a.vars.set name n⟩)) := by
    intro _
    refine ⟨[], { a with pos := a.pos + 1 + p.width, pending := p.inner, vars := a.vars.set name n },
      rfl, ?_⟩
    rw [Variables.get?_set, if_pos rfl]
  have hfails {c : Cause} {k : Int} {s : Scope Empty} :
      Bound name n waiting (settle a waiting (.error ⟨.failed ⟨c, []⟩, k⟩ s)) := by
    intro hlt
    cases hlt
  rcases hb with hb | hb
  · obtain ⟨rest, hstep⟩ := step_lookahead limit hb
    rw [hstep, Lookahead.plan_declare]
    simp only [hn]
    split
    · exact hfails
    · split
      · exact hfails
      · exact hbinds
  · obtain ⟨rest, hstep⟩ := step_lookahead limit hb
    rw [hstep, Lookahead.plan_assign]
    simp only [hn]
    split
    · exact hfails
    · split
      · exact hfails
      · exact hbinds

/-- What the active sequence does to a variable of its own. -/
theorem Turn.bound (ha : a.vars.get? name = some n) (hn : ¬ c.Binds name)
    (ht : Turn c a waiting c') : Bound name n waiting c' := by
  cases ht with
  | @enters m x rest hm hp => exact fun _ => ⟨[.fresh x], _, rfl, ha⟩
  | asks hm => exact fun _ => ⟨[], a, rfl, ha⟩
  | works hchange hp =>
    refine fun _ => ⟨[], _, rfl, ?_⟩
    cases hchange with
    | none hw hv => rw [hv]; exact ha
    | defined hcolon hplain hname hadd hv => rw [hv]; exact ha
    | @bound other k hb hname hw hv =>
      have hne : name ≠ other := by
        rintro rfl
        exact hn hb
      rw [hv, Variables.get?_set, if_neg hne]
      exact ha
  | @stops halt m hm =>
    intro hlt
    rcases frames_stop halt m a.vars waiting with hf | hf <;> rw [hf] at hlt
    · exact absurd hlt (Nat.lt_irrefl _)
    · cases hlt

/-- The active sequence does nothing to the variables of one that waits. -/
theorem Turn.bound_below {b : Activation} {above : List Activation}
    (ha : a.vars.get? name = some n) (ht : Turn c b (above ++ a :: waiting) c') :
    Bound name n waiting c' := by
  cases ht with
  | @enters m x rest hm hp => exact fun _ => ⟨.fresh x :: { b with pending := rest } :: above, a, rfl, ha⟩
  | asks hm => exact fun _ => ⟨b :: above, a, rfl, ha⟩
  | @works p s hchange hp =>
    exact fun _ => ⟨{ b with pos := b.pos + 1 + p.width, pending := p.inner, vars := s.vars } :: above,
      a, rfl, ha⟩
  | @stops halt m hm =>
    intro hlt
    rcases frames_stop halt m b.vars (above ++ a :: waiting) with hf | hf
    · exact ⟨above, a, hf, ha⟩
    · rw [hf] at hlt
      cases hlt

theorem LastBound.bound {c₀ : Config} (hs : c₀.Sound) (h : LastBound limit c₀ waiting name n c) :
    c.Sound ∧ Bound name n waiting c := by
  induction h with
  | @bind k n m a below hrun hb hn =>
    have hsound := hs.run limit k
    rw [hrun] at hsound
    exact ⟨hsound.step limit, bound_step hb hn⟩
  | @go n c h hlt hn ih =>
    obtain ⟨hsound, hbound⟩ := ih
    obtain ⟨above, a, hc, ha⟩ := hbound hlt
    refine ⟨hsound.step limit, ?_⟩
    cases above with
    | nil =>
      have hname : ¬ c.Binds name := fun hb => hn ⟨by rw [hc]; rfl, hb⟩
      exact (turn limit hsound.based hc).bound ha hname
    | cons b above => exact (turn limit hsound.based hc).bound_below ha

/-- A variable is read as what it was bound to last. -/
theorem LastBound.recall {c₀ : Config} (hs : c₀.Sound)
    (h : LastBound limit c₀ waiting name n (.going m a waiting))
    (hd : (Config.going m a waiting).Dispatches .recall name) :
    step limit (.going m a waiting) =
      .going { m with stack := n :: m.stack } { a with pos := a.pos + 2 } waiting := by
  obtain ⟨hsound, hbound⟩ := h.bound hs
  obtain ⟨above, b, hframes, hget⟩ := hbound (Nat.lt_succ_self _)
  have hlength := congrArg List.length hframes
  simp only [frames, List.length_append, List.length_cons] at hlength
  have habove : above = [] := List.eq_nil_of_length_eq_zero (by omega)
  subst habove
  cases hframes
  have hword : m.words.contains name = false := by
    cases hw : m.words.contains name with
    | false => rfl
    | true =>
      have hapart := hsound.apart a.vars List.mem_cons_self name hw
      rw [Variables.contains, hget] at hapart
      cases hapart
  obtain ⟨rest, hstep⟩ := step_lookahead limit hd
  rw [hstep, Lookahead.plan_recall]
  simp only [hword, Bool.false_eq_true, if_false, hget]
  obtain ⟨hp, -⟩ := hd
  simp only [settle, hp]

end Value

end Config

/-- At no moment does a word have the name of a variable. While an inner sequence is evaluated, no word is
added, and the variables of the sequences around it stay. Hence a sequence that has bound a variable reads it
as the value it gave it last, whatever ran in between. -/
theorem words_apart_variables (limit : Nat) (loop : Option Int) (tokens : List String)
    {s : Scope Empty} (hd : Later standardWords [] s.words) (hs : Apart s.words s.vars) :
    (∀ n, ∀ vars ∈ (Config.run limit n (Config.start limit loop tokens s)).namespaces,
      Apart (Config.run limit n (Config.start limit loop tokens s)).words vars) ∧
    Apart (finish (interpretWithin limit loop tokens s)).words
      (finish (interpretWithin limit loop tokens s)).vars ∧
    (∀ n m a waiting c,
      Config.run limit n (Config.start limit loop tokens s) = .going m a waiting → waiting ≠ [] →
      Config.Above limit waiting (.going m a waiting) c →
      c.words = m.words ∧ c.Upon waiting) ∧
    ∀ waiting name n m a,
      Config.LastBound limit (Config.start limit loop tokens s) waiting name n
        (.going m a waiting) →
      (Config.going m a waiting).Dispatches .recall name →
      Config.step limit (.going m a waiting) =
        .going { m with stack := n :: m.stack } { a with pos := a.pos + 2 } waiting := by
  have hstart := Config.Sound.start (based_of_later hd) hs limit loop tokens
  refine ⟨?_, ?_, ?_, ?_⟩
  · intro n
    exact (hstart.run limit n).apart
  · obtain ⟨n, hn⟩ := Config.leads_start limit loop tokens s
    have hend := (hstart.run limit n).apart
    rw [hn] at hend
    exact hend _ List.mem_cons_self
  · intro n m a waiting c hrun hw habove
    have hsound := hstart.run limit n
    rw [hrun] at hsound
    exact (habove.upon hsound rfl hw).2
  · intro waiting name n m a hlast hrecall
    exact hlast.recall hstart hrecall

/-- A variable that was just declared is read at once. -/
theorem reads_declared_variable :
    let tokens := ["5", "variable", "x", "@", "x"]
    let s : Scope Empty := ⟨⟨[], .zeros 0, standardWords, .ofText "", #[]⟩, []⟩
    let m : Machine Empty := s.toMachine.note (.declared "x" 5)
    let a : Activation := ⟨tokens, none, 3, [], [("x", 5)]⟩
    Later standardWords [] s.words ∧ Apart s.words s.vars ∧
      Config.LastBound 1 (Config.start 1 none tokens s) [] "x" 5 (.going m a []) ∧
      Config.step 1 (.going m a []) =
        .going { m with stack := 5 :: m.stack } { a with pos := a.pos + 2 } [] := by
  intro tokens s m a
  have hd : Later standardWords [] s.words := .now
  have hs : Apart s.words s.vars := fun _ _ => rfl
  have hbased : s.words.Based := based_standardWords
  have hlast : Config.LastBound 1 (Config.start 1 none tokens s) [] "x" 5 (.going m a []) := by
    let m₁ : Machine Empty := { s.toMachine with stack := [5] }
    let a₁ : Activation := ⟨tokens, none, 1, [], []⟩
    have hrun : Config.run 1 1 (Config.start 1 none tokens s) = .going m₁ a₁ [] := rfl
    have hdeclare : (Config.going m₁ a₁ []).Dispatches .declare "x" :=
      ⟨rfl, rfl, "variable", rfl, hbased.sense_primitive (by decide)⟩
    have hx : m₁.words.contains "x" = false := by decide +kernel
    have hstep : Config.step 1 (.going m₁ a₁ []) = .going m a [] := by
      obtain ⟨rest, hrest⟩ := Config.step_lookahead 1 hdeclare
      rw [hrest, Lookahead.plan_declare]
      simp only [hx, Bool.false_eq_true, if_false]
      rfl
    rw [← hstep]
    exact .bind hrun (.inl hdeclare) rfl
  have hrecall : (Config.going m a []).Dispatches .recall "x" :=
    ⟨rfl, rfl, "@", rfl, hbased.sense_primitive (by decide)⟩
  obtain ⟨-, -, -, hread⟩ := words_apart_variables 1 none tokens hd hs
  exact ⟨hd, hs, hlast, hread _ _ _ _ _ hlast hrecall⟩

end Forth
