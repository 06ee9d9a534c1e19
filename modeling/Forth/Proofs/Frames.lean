import Forth.Interpreter
import Forth.Proofs.Walk

/-!
# The frames of an evaluation

While an inner sequence is evaluated, the sequences around it wait in frames. `Reaches` says which token an
evaluation comes to and which frames wait at that moment; it does not speak of failures. An evaluation
fails exactly if it reaches a token that fails by itself, and then every frame adds one context
(`Reaches.evaluate_eq`, `reaches_of_evaluate`).
-/
namespace Forth

/-- A sequence that waits for an inner one, and the position at which it waits. -/
structure Frame where
  tokens : List String
  pos : Nat
  deriving DecidableEq, Repr

def Frame.context (f : Frame) : String := formatContext f.tokens f.pos

structure Moment where
  tokens : List String
  pos : Nat
  loop : Option Int
  scope : Scope Empty

inductive Comes (nested : Nested Empty) (loop : Option Int) (tokens : List String)
    (s : Scope Empty) : Nat → Scope Empty → Prop
  | start : Comes nested loop tokens s 0 s
  | next {i skip : Nat} {token : String} {s₁ s₂ : Scope Empty} :
      Comes nested loop tokens s i s₁ → tokens[i]? = some token →
      step nested ⟨tokens, i, loop⟩ token (tokens.drop (i + 1)) s₁ = .ok (.next skip) s₂ →
      Comes nested loop tokens s (i + 1 + skip) s₂

/-- The token at position `i` evaluates an inner sequence on a machine: as a call, as the chosen branch,
or as the turn of a loop after the turns before it. It waits at the given position. -/
inductive Enters (nested : Nested Empty) (loop : Option Int) (tokens : List String) (i : Nat)
    (s : Scope Empty) : Nat → Inner → Machine Empty → Prop
  | call {token : String} {body : List String} : tokens[i]? = some token →
      s.words.sense token = .definition body →
      Enters nested loop tokens i s i ⟨loop, body⟩ s.toMachine
  | branch {token : String} {b : Branches} {n : Int} {below : Stack} {q : Nat} :
      tokens[i]? = some token → s.words.sense token = .primitive (.lookahead .choose) →
      Branches.scan (tokens.drop (i + 1)) = .ok b → s.stack = n :: below →
      Closes "if" "then" tokens i q →
      Enters nested loop tokens i s q ⟨loop, b.pick (Cell.truthy n)⟩
        { s.toMachine with stack := below }
  | turn {token last : String} {body : List String} {n : Int} {below : Stack} {q k : Nat}
      {m : Machine Empty} :
      tokens[i]? = some token → s.words.sense token = .primitive (.lookahead .loop) →
      Fence.loop.scan 0 (tokens.drop (i + 1)) = .ok (body, last) → s.stack = n :: below →
      Closes "do" "loop" tokens i q → k < n.toNat →
      series nested ((List.range k).map fun (j : Nat) => ⟨some (j : Int), body⟩)
        { s.toMachine with stack := below } = .ok () m →
      Enters nested loop tokens i s q ⟨some (k : Int), body⟩ m

/-- Evaluation of a sequence comes to a token, its own or one of an inner sequence. The frames are those
that wait then, the innermost first. -/
inductive Reaches : (limit : Nat) → (loop : Option Int) → (tokens : List String) → Scope Empty →
    List Frame → Moment → Prop
  | here {limit : Nat} {loop : Option Int} {tokens : List String} {s s₁ : Scope Empty} {i : Nat} :
      Comes (inside limit) loop tokens s i s₁ → i < tokens.length →
      Reaches (limit + 1) loop tokens s [] ⟨tokens, i, loop, s₁⟩
  | inner {limit : Nat} {loop : Option Int} {tokens : List String} {s s₁ : Scope Empty} {i q : Nat}
      {x : Inner} {m : Machine Empty} {outer : List Frame} {here : Moment} :
      Comes (inside limit) loop tokens s i s₁ →
      Enters (inside limit) loop tokens i s₁ q x m →
      Reaches limit x.loop x.tokens ⟨m, []⟩ outer here →
      Reaches (limit + 1) loop tokens s (outer ++ [⟨tokens, q⟩]) here

/-- The token itself ends the evaluation, whatever inner sequences would do. -/
def Moment.Breaks (p : Moment) (b : Break) (t : Scope Empty) : Prop :=
  ∃ token, p.tokens[p.pos]? = some token ∧ ∀ nested : Nested Empty,
    step nested ⟨p.tokens, p.pos, p.loop⟩ token (p.tokens.drop (p.pos + 1)) p.scope = .error b t

/-- What an end becomes on its way out through the frames that wait. -/
def Halt.through (h : Halt) (outer : List Frame) : Halt :=
  outer.foldl (fun h f => Break.annotate ⟨h, 0⟩ f.tokens f.pos) h

/-! ### Steps, plans and series -/

variable {nested : Nested Empty} {loop : Option Int} {tokens : List String} {i : Nat}

theorem series_idle (xs : List Inner) (m : Machine Empty) : series idle xs m = .ok () m := by
  induction xs with
  | nil => rfl
  | cons x xs ih => exact ih

/-- A token ends the evaluation by itself if its plan does. -/
theorem Moment.breaks_iff (p : Moment) (b : Break) (t : Scope Empty) :
    p.Breaks b t ↔ ∃ token, p.tokens[p.pos]? = some token ∧
      plan p.loop token (p.tokens.drop (p.pos + 1)) p.scope = .error b t := by
  constructor
  · rintro ⟨token, ht, h⟩
    refine ⟨token, ht, ?_⟩
    have hidle := h idle
    rw [step_eq_carryOut] at hidle
    cases hp : plan p.loop token (p.tokens.drop (p.pos + 1)) p.scope with
    | error b' t' =>
      rw [hp] at hidle
      cases hidle
      rfl
    | ok q s =>
      rw [hp, carryOut, series_idle] at hidle
      cases hidle
  · rintro ⟨token, ht, h⟩
    refine ⟨token, ht, fun nested => ?_⟩
    rw [step_eq_carryOut, h]
    rfl

theorem step_eq_ok_iff {token : String} {rest : List String} {site : Site} {skip : Nat}
    {s t : Scope Empty} :
    step nested site token rest s = .ok (.next skip) t ↔
      ∃ p s₁ m, plan site.loop token rest s = .ok p s₁ ∧
        series nested p.inner s₁.toMachine = .ok () m ∧ skip = p.width ∧ t = ⟨m, s₁.vars⟩ := by
  rw [step_eq_carryOut]
  constructor
  · intro h
    unfold carryOut at h
    split at h
    · cases h
    · next p s₁ hp =>
      split at h
      · next m hm =>
        cases h
        exact ⟨p, s₁, m, hp, hm, rfl, rfl⟩
      · cases h
  · rintro ⟨p, s₁, m, hp, hm, rfl, rfl⟩
    simp only [hp, carryOut, hm]

/-- A series fails in one of its evaluations, after those before it. -/
theorem series_error_iff {xs : List Inner} {m m' : Machine Empty} {h : Halt} :
    series nested xs m = .error h m' ↔
      ∃ before x after m₁, xs = before ++ x :: after ∧ series nested before m = .ok () m₁ ∧
        nested x.loop x.tokens m₁ = .error h m' := by
  induction xs generalizing m with
  | nil =>
    constructor
    · rintro ⟨⟩
    · rintro ⟨before, x, after, m₁, hx, -⟩
      simp at hx
  | cons y ys ih =>
    simp only [series, bind, EStateM.bind]
    cases hy : nested y.loop y.tokens m with
    | error e m₁ =>
      simp only
      constructor
      · rintro ⟨⟩
        exact ⟨[], y, ys, m, rfl, rfl, hy⟩
      · rintro ⟨before, x, after, m₂, hx, hb, hn⟩
        cases before with
        | nil =>
          cases hx
          cases hb
          rw [hy] at hn
          exact hn
        | cons z before =>
          cases hx
          simp only [series, bind, EStateM.bind, hy] at hb
          cases hb
    | ok u m₁ =>
      simp only [ih]
      constructor
      · rintro ⟨before, x, after, m₂, rfl, hb, hn⟩
        exact ⟨y :: before, x, after, m₂, rfl, by simp only [series, bind, EStateM.bind, hy, hb], hn⟩
      · rintro ⟨before, x, after, m₂, hx, hb, hn⟩
        cases before with
        | nil =>
          cases hx
          cases hb
          rw [hy] at hn
          cases hn
        | cons z before =>
          cases hx
          simp only [series, bind, EStateM.bind, hy] at hb
          exact ⟨before, x, after, m₂, rfl, hb, hn⟩

theorem stride_of_step {token : String} {skip : Nat} {s t : Scope Empty}
    (h : step nested ⟨tokens, i, loop⟩ token (tokens.drop (i + 1)) s = .ok (.next skip) t) :
    stride nested loop tokens i token s = .ok (i + 1 + skip) t := by
  obtain ⟨p, s₁, m, hp, hm, rfl, rfl⟩ := step_eq_ok_iff.1 h
  simp only [stride, hp, hm]

theorem stride_of_step_error {token : String} {b : Break} {s t : Scope Empty}
    (h : step nested ⟨tokens, i, loop⟩ token (tokens.drop (i + 1)) s = .error b t) :
    stride nested loop tokens i token s = .error (b.annotate tokens i) t := by
  rw [step_eq_carryOut] at h
  unfold stride
  cases hp : plan loop token (tokens.drop (i + 1)) s with
  | error b s =>
    rw [hp] at h
    cases h
    rfl
  | ok p s =>
    rw [hp] at h
    simp only [carryOut] at h ⊢
    cases hm : series nested p.inner s.toMachine with
    | error e m =>
      rw [hm] at h
      cases h
      rfl
    | ok u m =>
      rw [hm] at h
      cases h

/-- A sequence whose first token takes all the others is over with that token, -/
theorem evaluate_of_step {limit skip : Nat} {token : String} {rest : List String} {s t : Scope Empty}
    (h : step (inside limit) ⟨token :: rest, 0, loop⟩ token rest s = .ok (.next skip) t)
    (hskip : rest.length ≤ skip) : evaluate (limit + 1) loop (token :: rest) s = .ok () t := by
  have hstride : stride (inside limit) loop (token :: rest) 0 token s = .ok (0 + 1 + skip) t := stride_of_step h
  rw [evaluate_succ, resume_eq _ _ _ (show (token :: rest)[0]? = some token from rfl), hstride]
  exact resume_of_le _ _ _ (by simp only [List.length_cons]; omega) _

/-- and so is one whose first token fails. -/
theorem evaluate_of_step_error {limit : Nat} {token : String} {rest : List String} {b : Break}
    {s t : Scope Empty} (h : step (inside limit) ⟨token :: rest, 0, loop⟩ token rest s = .error b t) :
    evaluate (limit + 1) loop (token :: rest) s = .error (b.annotate (token :: rest) 0) t := by
  have hstride : stride (inside limit) loop (token :: rest) 0 token s = .error (b.annotate (token :: rest) 0) t :=
    stride_of_step_error h
  rw [evaluate_succ, resume_eq _ _ _ (show (token :: rest)[0]? = some token from rfl), hstride]

theorem interpretWithin_of_step {limit skip : Nat} {token : String} {s t : Scope Empty}
    (h : step (inside limit) ⟨[token], 0, loop⟩ token [] s = .ok (.next skip) t) :
    interpretWithin (limit + 1) loop [token] s = .ok () t := by
  rw [interpretWithin, evaluate_of_step h (Nat.zero_le _)]

theorem interpretWithin_of_step_error {limit : Nat} {token : String} {f : Failure} {offset : Int}
    {s t : Scope Empty}
    (h : step (inside limit) ⟨[token], 0, loop⟩ token [] s = .error ⟨.failed f, offset⟩ t) :
    ∃ contexts journal, interpretWithin (limit + 1) loop [token] s =
      .error (.failed ⟨f.cause, contexts⟩) { t with journal } := by
  rw [interpretWithin, evaluate_of_step_error h]
  exact ⟨_, _, rfl⟩

/-- What is evaluated from the beginning is evaluated from any position that this comes to. -/
theorem Comes.resume_eq {s s₁ : Scope Empty} (h : Comes nested loop tokens s i s₁) :
    resume nested loop tokens 0 s = resume nested loop tokens i s₁ := by
  induction h with
  | start => rfl
  | next _ ht hs ih => rw [ih, Forth.resume_eq nested loop tokens ht, stride_of_step hs]

theorem inside_error_iff {limit : Nat} {h : Halt} {m m' : Machine Empty} :
    inside limit loop tokens m = .error h m' ↔
      h ≠ .bye ∧ ∃ s, evaluate limit loop tokens ⟨m, []⟩ = .error h s ∧ s.toMachine = m' := by
  unfold inside isolated
  cases he : evaluate limit loop tokens ⟨m, []⟩ with
  | ok u s => simp
  | error e s =>
    cases e with
    | bye =>
      constructor
      · rintro ⟨⟩
      · rintro ⟨hb, s', ⟨⟩, -⟩
        exact absurd rfl hb
    | _ =>
      constructor
      · rintro ⟨⟩
        exact ⟨by simp, s, rfl, rfl⟩
      · rintro ⟨-, s', ⟨⟩, rfl⟩
        rfl

/-- A list of turns, cut before one of them. -/
theorem range_map_eq_append {α : Type} {f : Nat → α} {n : Nat} {before after : List α} {x : α}
    (h : (List.range n).map f = before ++ x :: after) :
    before.length < n ∧ x = f before.length ∧ before = (List.range before.length).map f := by
  have hn : before.length < n := by
    have hl := congrArg List.length h
    simp only [List.length_map, List.length_range, List.length_append, List.length_cons] at hl
    omega
  have hx : ((List.range n).map f)[before.length]? = some x := by simp [h]
  have hb : ((List.range n).map f).take before.length = before := by simp [h]
  refine ⟨hn, ?_, ?_⟩
  · simpa [hn] using hx.symm
  · rw [← List.map_take, List.take_range, Nat.min_eq_left (Nat.le_of_lt hn)] at hb
    exact hb.symm

theorem range_map_split {α : Type} (f : Nat → α) {n k : Nat} (hk : k < n) :
    ∃ after, (List.range n).map f = (List.range k).map f ++ f k :: after := by
  refine ⟨((List.range n).map f).drop (k + 1), ?_⟩
  have hl : k < ((List.range n).map f).length := by simpa using hk
  have ht : ((List.range n).map f).take k = (List.range k).map f := by
    rw [← List.map_take, List.take_range, Nat.min_eq_left (Nat.le_of_lt hk)]
  have hd := List.drop_eq_getElem_cons hl
  rw [List.getElem_map, List.getElem_range] at hd
  rw [← ht, ← hd, List.take_append_drop]

/-- What a token enters is one of the inner sequences of its plan. -/
theorem Enters.plan {s : Scope Empty} {q : Nat} {x : Inner} {m : Machine Empty}
    (h : Enters nested loop tokens i s q x m) :
    ∃ token p s₁ before after, tokens[i]? = some token ∧
      plan loop token (tokens.drop (i + 1)) s = .ok p s₁ ∧ p.inner = before ++ x :: after ∧
      series nested before s₁.toMachine = .ok () m ∧ q = i + p.width := by
  cases h with
  | @call token body ht hs =>
    exact ⟨token, ⟨0, [⟨loop, body⟩]⟩, s, [], [], ht, by rw [Forth.plan, hs]; rfl, rfl, rfl, rfl⟩
  | @branch token b n below q ht hs hb hst hq =>
    have hp : Forth.plan loop token (tokens.drop (i + 1)) s =
        .ok ⟨b.width, [⟨loop, b.pick (Cell.truthy n)⟩]⟩ { s with stack := below } := by
      simp only [Forth.plan, hs, Sense.plan, Primitive.plan, Lookahead.plan_choose, hb, hst]
    refine ⟨token, _, _, [], [], ht, hp, rfl, rfl, ?_⟩
    exact hq.unique (by decide) (Branches.closes_of_scan hb)
  | @turn token last body n below q k m ht hs hb hst hq hk hm =>
    have hp : Forth.plan loop token (tokens.drop (i + 1)) s =
        .ok ⟨body.length + 1, (List.range n.toNat).map fun (j : Nat) => ⟨some (j : Int), body⟩⟩
          { s with stack := below } := by
      simp only [Forth.plan, hs, Sense.plan, Primitive.plan, Lookahead.plan_loop, hb, hst]
    obtain ⟨after, ha⟩ := range_map_split (fun (j : Nat) => (⟨some (j : Int), body⟩ : Inner)) hk
    refine ⟨token, _, _, _, after, ht, hp, ha, hm, ?_⟩
    have hc := hq.unique (by decide) (Fence.closes_of_scan hb)
    simp only
    omega

/-- Every inner sequence of a plan is entered if those before it go well. -/
theorem Enters.of_plan {s s₁ : Scope Empty} {token : String} {p : Plan} {before after : List Inner}
    {x : Inner} {m : Machine Empty} (ht : tokens[i]? = some token)
    (hp : Forth.plan loop token (tokens.drop (i + 1)) s = .ok p s₁)
    (hx : p.inner = before ++ x :: after) (hm : series nested before s₁.toMachine = .ok () m) :
    Enters nested loop tokens i s (i + p.width) x m := by
  have hne : p.inner ≠ [] := by simp [hx]
  unfold Forth.plan at hp
  cases hs : s.words.sense token with
  | number n =>
    rw [hs] at hp
    cases hp
    exact absurd rfl hne
  | longNumber => rw [hs] at hp; cases hp
  | unknown => rw [hs] at hp; cases hp
  | definition body =>
    rw [hs] at hp
    cases hp
    cases before with
    | nil =>
      cases hx
      cases hm
      exact .call ht hs
    | cons y before => simp at hx
  | primitive prim =>
    rw [hs] at hp
    cases prim with
    | simple w =>
      simp only [Sense.plan, Primitive.plan_simple] at hp
      split at hp <;> cases hp
      exact absurd rfl hne
    | index =>
      simp only [Sense.plan, Primitive.plan_index] at hp
      split at hp <;> cases hp
      exact absurd rfl hne
    | bye => cases hp
    | host w => exact w.elim
    | lookahead w =>
      cases w with
      | choose =>
        simp only [Sense.plan, Primitive.plan, Lookahead.plan_choose] at hp
        split at hp
        · cases hp
        · next b hb =>
          split at hp <;> cases hp
          next n below hst =>
            cases before with
            | nil =>
              cases hx
              cases hm
              exact .branch ht hs hb hst (Branches.closes_of_scan hb)
            | cons y before => simp at hx
      | loop =>
        simp only [Sense.plan, Primitive.plan, Lookahead.plan_loop] at hp
        split at hp
        · cases hp
        · next body last hb =>
          split at hp <;> cases hp
          next n below hst =>
            obtain ⟨hk, rfl, hbefore⟩ := range_map_eq_append hx
            rw [hbefore] at hm
            have hc : Closes "do" "loop" tokens i (i + (body.length + 1)) := by
              rw [Nat.add_comm body.length 1, ← Nat.add_assoc]
              exact Fence.closes_of_scan hb
            exact .turn ht hs hb hst hc hk hm
      | comment => exact absurd (inner_eq_nil_of_idle _ hp) hne
      | colon => exact absurd (inner_eq_nil_of_idle _ hp) hne
      | say => exact absurd (inner_eq_nil_of_idle _ hp) hne
      | declare => exact absurd (inner_eq_nil_of_idle _ hp) hne
      | «recall» => exact absurd (inner_eq_nil_of_idle _ hp) hne
      | assign => exact absurd (inner_eq_nil_of_idle _ hp) hne

/-! ### The way out through the frames -/

theorem Break.annotate_offset (h : Halt) (width : Nat) (tokens : List String) (i : Nat) :
    Break.annotate ⟨h, width⟩ tokens i = Break.annotate ⟨h, 0⟩ tokens ((i + width : Nat) : Int) := by
  cases h <;> simp [annotate]

theorem Halt.through_append (h : Halt) (outer : List Frame) (f : Frame) :
    h.through (outer ++ [f]) = Break.annotate ⟨h.through outer, 0⟩ f.tokens f.pos := by
  simp [through]

theorem Halt.through_failed (f : Failure) (outer : List Frame) :
    (Halt.failed f).through outer =
      .failed ⟨f.cause, f.contexts ++ outer.map Frame.context⟩ := by
  induction outer generalizing f with
  | nil => simp [through]
  | cons g outer ih =>
    have hg : (Halt.failed f).through (g :: outer) =
        (Halt.failed (f.addContext g.context)).through outer := by
      simp [through, Break.annotate, Frame.context]
    rw [hg, ih]
    simp [Failure.addContext]

/-- Only failures gather contexts. -/
theorem Halt.through_eq {h : Halt} (hf : ∀ f, h ≠ .failed f) (outer : List Frame) :
    h.through outer = h := by
  induction outer with
  | nil => rfl
  | cons g outer ih =>
    have hg : Break.annotate ⟨h, 0⟩ g.tokens g.pos = h := by
      cases h with
      | failed f => exact absurd rfl (hf f)
      | bye => rfl
      | fault f => rfl
      | overflow => rfl
    have hcons : h.through (g :: outer) =
        (Break.annotate ⟨h, 0⟩ g.tokens g.pos).through outer := rfl
    rw [hcons, hg, ih]

/-- What the end of a token becomes outside all the frames. -/
theorem Break.annotate_through (b : Break) (tokens : List String) (pos : Int)
    (outer : List Frame) :
    (b.annotate tokens pos).through outer =
      match b.halt with
      | .failed f => .failed ⟨f.cause, f.contexts ++
          formatContext tokens (pos + b.offset) :: outer.map Frame.context⟩
      | halt => halt := by
  obtain ⟨halt, offset⟩ := b
  cases halt with
  | failed f => simp [annotate, Halt.through_failed, Failure.addContext]
  | bye => exact Halt.through_eq (by simp [annotate]) outer
  | fault f => exact Halt.through_eq (by simp [annotate]) outer
  | overflow => exact Halt.through_eq (by simp [annotate]) outer

/-- An evaluation that reaches a token which ends it ends as that token and the frames say. -/
theorem Reaches.evaluate_eq {limit : Nat} {s t : Scope Empty} {outer : List Frame} {here : Moment}
    {b : Break} (hr : Reaches limit loop tokens s outer here) (hb : here.Breaks b t)
    (hbye : b.halt ≠ .bye) :
    ∃ s', evaluate limit loop tokens s =
        .error ((b.annotate here.tokens here.pos).through outer) s' ∧
      s'.toMachine = t.toMachine := by
  induction hr with
  | @here limit loop tokens s s₁ i hc hi =>
    obtain ⟨token, ht, hp⟩ := (Moment.breaks_iff _ b t).1 hb
    refine ⟨t, ?_, rfl⟩
    rw [evaluate_succ, hc.resume_eq, resume_eq _ _ _ ht]
    simp only [stride, hp]
    rfl
  | @inner limit loop tokens s s₁ i q x m outer here hc he hr ih =>
    obtain ⟨s', hs', hm'⟩ := ih hb
    obtain ⟨token, p, s₂, before, after, ht, hp, hx, hbefore, rfl⟩ := he.plan
    have hne : (b.annotate here.tokens here.pos).through outer ≠ .bye := by
      rw [b.annotate_through]
      split
      · simp
      · exact hbye
    have hin : inside limit x.loop x.tokens m =
        .error ((b.annotate here.tokens here.pos).through outer) t.toMachine :=
      inside_error_iff.2 ⟨hne, s', hs', hm'⟩
    have hseries := series_error_iff.2 ⟨before, x, after, m, hx, hbefore, hin⟩
    refine ⟨⟨t.toMachine, s₂.vars⟩, ?_, rfl⟩
    rw [evaluate_succ, hc.resume_eq, resume_eq _ _ _ ht]
    simp only [stride, hp, hseries, Halt.through_append, Break.annotate_offset]

/-- An evaluation that fails has reached a token that fails by itself. -/
theorem reaches_of_evaluate {limit : Nat} {s s' : Scope Empty} {h : Halt} (hbye : h ≠ .bye)
    (hover : h ≠ .overflow) (he : evaluate limit loop tokens s = .error h s') :
    ∃ outer here b t, Reaches limit loop tokens s outer here ∧ here.Breaks b t ∧
      h = (b.annotate here.tokens here.pos).through outer ∧ s'.toMachine = t.toMachine := by
  induction limit generalizing loop tokens s s' h with
  | zero =>
    cases he
    exact absurd rfl hover
  | succ limit ihLimit =>
    rw [evaluate_succ] at he
    -- the rest of the sequence gets shorter, from any position that evaluation comes to
    suffices key : ∀ i s₁, Comes (inside limit) loop tokens s i s₁ →
        resume (inside limit) loop tokens i s₁ = .error h s' →
        ∃ outer here b t, Reaches (limit + 1) loop tokens s outer here ∧ here.Breaks b t ∧
          h = (b.annotate here.tokens here.pos).through outer ∧ s'.toMachine = t.toMachine from
      key 0 s .start he
    intro i
    induction i using forward_induction tokens with
    | done i hi =>
      intro s₁ hc hres
      rw [resume_of_le _ _ _ hi] at hres
      cases hres
    | next i hi ih =>
      intro s₁ hc hres
      have ht : tokens[i]? = some tokens[i] := List.getElem?_eq_getElem hi
      rw [resume_eq _ _ _ ht] at hres
      simp only [stride] at hres
      cases hp : plan loop tokens[i] (tokens.drop (i + 1)) s₁ with
      | error b t =>
        rw [hp] at hres
        cases hres
        have hbreaks := (Moment.breaks_iff ⟨tokens, i, loop, s₁⟩ b s').2 ⟨tokens[i], ht, hp⟩
        exact ⟨[], _, b, s', .here hc hi, hbreaks, rfl, rfl⟩
      | ok p s₂ =>
        rw [hp] at hres
        simp only at hres
        cases hm : series (inside limit) p.inner s₂.toMachine with
        | ok u m =>
          rw [hm] at hres
          have hstep : step (inside limit) ⟨tokens, i, loop⟩ tokens[i] (tokens.drop (i + 1)) s₁ =
              .ok (.next p.width) ⟨m, s₂.vars⟩ :=
            step_eq_ok_iff.2 ⟨p, s₂, m, hp, hm, rfl, rfl⟩
          exact ih (i + 1 + p.width) (by omega) _ (hc.next ht hstep) hres
        | error e m =>
          rw [hm] at hres
          cases hres
          obtain ⟨before, x, after, m₁, hx, hbefore, hin⟩ := series_error_iff.1 hm
          obtain ⟨hebye, s₃, hs₃, rfl⟩ := inside_error_iff.1 hin
          have heover : e ≠ .overflow := by
            rintro rfl
            exact hover rfl
          obtain ⟨outer, here, b, t, hr, hb, rfl, hmt⟩ := ihLimit hebye heover hs₃
          refine ⟨outer ++ [⟨tokens, i + p.width⟩], here, b, t,
            .inner hc (.of_plan ht hp hx hbefore) hr, hb, ?_, hmt⟩
          rw [Halt.through_append, Break.annotate_offset]

/-- An evaluation faults exactly if it reaches a token that faults by itself. -/
theorem evaluate_fault_iff {limit : Nat} {s : Scope Empty} {f : Fault} :
    (∃ s', evaluate limit loop tokens s = .error (.fault f) s') ↔
      ∃ outer here k t, Reaches limit loop tokens s outer here ∧ here.Breaks ⟨.fault f, k⟩ t := by
  constructor
  · rintro ⟨s', he⟩
    obtain ⟨outer, here, ⟨halt, k⟩, t, hr, hb, heq, -⟩ := reaches_of_evaluate (by simp) (by simp) he
    rw [Break.annotate_through] at heq
    cases halt with
    | fault g =>
      cases heq
      exact ⟨outer, here, k, t, hr, hb⟩
    | failed g => cases heq
    | bye => cases heq
    | overflow => cases heq
  · rintro ⟨outer, here, k, t, hr, hb⟩
    obtain ⟨s', he, -⟩ := hr.evaluate_eq hb (by simp)
    rw [Break.annotate_through] at he
    exact ⟨s', he⟩

end Forth
