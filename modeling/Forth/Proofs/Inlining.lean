import Forth.Proofs.Composition
import Forth.Proofs.Nesting
import Forth.Proofs.Turns

/-!
# Calls and bodies

A call evaluates the body of a definition as a sequence of its own: on new variables, with an end of its own,
one level deeper. In place of the call, the body is evaluated on the variables of the caller. As long as no
token in it reads or changes variables, and none ends the sequence, the difference does not show
(`interpretWithin_inline`): what a token takes it takes from the body, and a body holds no colon.
-/
namespace Forth

open Machine

/-- The primitives that read or change the variables of the sequence in which they stand, or end it. -/
def Primitive.Private (p : Primitive Empty) : Prop :=
  p ∈ [.bye, .lookahead .declare, .lookahead .recall, .lookahead .assign]

/-- What does not depend on the variables of the sequence in which it stands. The colon does: it looks for a
variable of the name. -/
def Sense.Portable (σ : Sense) : Prop :=
  ∀ p, σ = .primitive p → ¬ p.Private ∧ p ≠ .lookahead .colon

/-- The token is about to be evaluated as the primitive. -/
def Moment.Dispatches (here : Moment) (p : Primitive Empty) : Prop :=
  ∃ token, here.tokens[here.pos]? = some token ∧ here.scope.words.sense token = .primitive p

/-! ### Other variables -/

/-- The same machine, with the one and with the other variables. -/
def Rebound (vars vars' : Variables) (s s' : Scope Empty) : Prop :=
  s.vars = vars ∧ s' = ⟨s.toMachine, vars'⟩

/-- Own work that is the same on the one and on the other variables, and does not end the sequence. -/
abbrev Carries {α : Type} (vars vars' : Variables) (a : Step Empty α) : Prop :=
  Keeps (Rebound vars vars') (fun b => b.halt ≠ .bye) (fun _ => False) a

section Steps

variable {vars vars' : Variables} {α : Type}

theorem carries_act (a : Action Empty α) (k : Int) : Carries vars vars' (Step.act k a) := by
  rintro ⟨m, _⟩ _ ⟨rfl, rfl⟩
  simp only [Step.act]
  cases a m with
  | ok x m => exact ⟨rfl, rfl, rfl⟩
  | error t m => exact .inr ⟨rfl, by cases t <;> simp [Break.ofTrouble], rfl, rfl⟩

theorem carries_fail (k : Int) (c : Cause) :
    Carries vars vars' (Step.fail k c : Step Empty α) :=
  .throw (by simp [Break.ofTrouble])

theorem carries_scanned (r : Except ScanError α) : Carries vars vars' (Step.scanned r) := by
  cases r with
  | ok x => exact .pure x
  | error e => exact carries_fail _ _

theorem Sense.Portable.carries {σ : Sense} (h : σ.Portable) (loop : Option Int) (token : String)
    (rest : List String) : Carries vars vars' (σ.plan loop token rest) := by
  cases σ with
  | number n => exact .bind (carries_act _ _) fun _ => .pure _
  | longNumber => exact .throw (by simp)
  | unknown => exact carries_fail _ _
  | definition body => exact .pure _
  | primitive p =>
    obtain ⟨hprivate, hcolon⟩ := h p rfl
    cases p with
    | simple w => exact .bind (carries_act _ _) fun _ => .pure _
    | index =>
      cases loop with
      | none => exact carries_fail _ _
      | some k => exact .bind (carries_act _ _) fun _ => .pure _
    | bye => exact absurd (by simp [Primitive.Private]) hprivate
    | host w => exact w.elim
    | lookahead w =>
      cases w with
      | comment => exact .bind (.bind (carries_scanned _) fun _ => .pure _) fun _ => .pure _
      | say =>
        refine .bind (.bind (carries_scanned _) fun r => ?_) fun _ => .pure _
        simp only
        generalize Text.strip (Text.spaced r.1) = line
        exact .bind (carries_act _ _) fun _ => .pure _
      | choose => exact .bind (carries_scanned _) fun _ => .bind (carries_act _ _) fun _ => .pure _
      | loop => exact .bind (carries_scanned _) fun _ => .bind (carries_act _ _) fun _ => .pure _
      | colon => exact absurd rfl hcolon
      | declare => exact absurd (by simp [Primitive.Private]) hprivate
      | «recall» => exact absurd (by simp [Primitive.Private]) hprivate
      | assign => exact absurd (by simp [Primitive.Private]) hprivate

end Steps

section Sequences

variable {nested : Nested Empty} {loop : Option Int} {tokens : List String} {s₀ : Scope Empty}

/-- No inner sequence ends by `bye`. -/
theorem series_ne_bye (hn : ∀ loop tokens m m', nested loop tokens m ≠ .error .bye m')
    (xs : List Inner) (m m' : Machine Empty) : series nested xs m ≠ .error .bye m' := by
  intro h
  obtain ⟨before, x, after, m₁, -, -, hx⟩ := series_error_iff.1 h
  exact hn _ _ _ _ hx

theorem Break.annotate_ne_bye {b : Break} (h : b.halt ≠ .bye) (pos : Int) :
    b.annotate tokens pos ≠ .bye := by
  obtain ⟨halt, offset⟩ := b
  cases halt with
  | bye => exact absurd rfl h
  | _ => simp [annotate]

/-- A sequence of tokens that do the same on other variables runs alike on them, and to its end unless it
fails. -/
theorem resume_rebound (hn : ∀ loop tokens m m', nested loop tokens m ≠ .error .bye m')
    {vars : Variables} (vars' : Variables)
    (hown : ∀ i token s, Comes nested loop tokens s₀ i s → tokens[i]? = some token →
      Carries vars vars' ((s.words.sense token).plan loop token (tokens.drop (i + 1))))
    {i : Nat} {s : Scope Empty} (hc : Comes nested loop tokens s₀ i s) (hs : s.vars = vars) :
    Alike (Rebound vars vars') (· ≠ .bye) (fun _ => False) (resume nested loop tokens i s)
      (resume nested loop tokens i ⟨s.toMachine, vars'⟩) := by
  induction i using forward_induction tokens generalizing s with
  | done i hi =>
    rw [resume_of_le nested loop tokens hi, resume_of_le nested loop tokens hi]
    exact ⟨rfl, hs, rfl⟩
  | next i hi ih =>
    have ht : tokens[i]? = some tokens[i] := List.getElem?_eq_getElem hi
    have hplan : Alike (Rebound vars vars') (fun b => b.halt ≠ .bye) (fun _ => False)
        (plan loop tokens[i] (tokens.drop (i + 1)) s)
        (plan loop tokens[i] (tokens.drop (i + 1)) ⟨s.toMachine, vars'⟩) :=
      hown i _ s hc ht s _ ⟨hs, rfl⟩
    rw [resume_eq nested loop tokens ht, resume_eq nested loop tokens ht]
    unfold stride
    obtain ⟨p, t, t', hp, hp', hvars, rfl⟩ | ⟨b, t, t', hp, hp', hbye, ht'⟩ | ⟨-, -, -, h⟩ := hplan.cases
    · simp only [hp, hp']
      cases hm : series nested p.inner t.toMachine with
      | ok u m =>
        have hstep : step nested ⟨tokens, i, loop⟩ tokens[i] (tokens.drop (i + 1)) s =
            .ok (.next p.width) ⟨m, t.vars⟩ := step_eq_ok_iff.2 ⟨p, t, m, hp, hm, rfl, rfl⟩
        exact ih (i + 1 + p.width) (by omega) (hc.next ht hstep) hvars
      | error h m =>
        have hbye : h ≠ .bye := by
          rintro rfl
          exact series_ne_bye hn _ _ _ hm
        exact .inr ⟨rfl, Break.annotate_ne_bye hbye i, hvars, rfl⟩
    · simp only [hp, hp']
      exact .inr ⟨rfl, Break.annotate_ne_bye hbye i, ht'⟩
    · exact h.elim

end Sequences

/-! ### In place of a call -/

/-- What a token enters that stands for a definition is the body. -/
theorem Enters.of_definition {nested : Nested Empty} {loop : Option Int} {tokens : List String}
    {i q : Nat} {f : String} {body : List String} {s : Scope Empty} {x : Inner} {m : Machine Empty}
    (he : Enters nested loop tokens i s q x m) (ht : tokens[i]? = some f)
    (hf : s.words.sense f = .definition body) : x = ⟨loop, body⟩ ∧ m = s.toMachine := by
  have hsense {token : String} (ht' : tokens[i]? = some token) :
      s.words.sense token = .definition body := by
    rw [Option.some.inj (ht'.symm.trans ht), hf]
  cases he with
  | call ht hs =>
    rw [hsense ht] at hs
    cases hs
    exact ⟨rfl, rfl⟩
  | branch ht hs hb hst hq =>
    rw [hsense ht] at hs
    cases hs
  | turn ht hs hb hst hq hk hm =>
    rw [hsense ht] at hs
    cases hs

section Call

variable {limit : Nat} {loop : Option Int} {f : String} {body : List String} {s s' : Scope Empty}

/-- Right below the frame of a call stands what the body comes to on variables of its own. -/
theorem reaches_call_iff (hf : s.words.sense f = .definition body) (here : Moment) :
    Reaches (limit + 2) loop [f] s [⟨[f], 0⟩] here ↔
      ∃ i t, Comes (inside limit) loop body ⟨s.toMachine, []⟩ i t ∧ i < body.length ∧
        here = ⟨body, i, loop, t⟩ := by
  constructor
  · intro hr
    generalize hframes : [(⟨[f], 0⟩ : Frame)] = frames at hr
    cases hr with
    | here hc hi => cases hframes
    | @inner _ _ _ _ s₁ j q x m outer _ hc he hinner =>
      have hempty : outer = [] := by simpa using (congrArg List.length hframes).symm
      subst hempty
      obtain ⟨token, -, -, -, -, ht, -⟩ := he.plan
      cases hc with
      | next hc ht' hstep => simp at ht
      | start =>
        obtain ⟨rfl, rfl⟩ := he.of_definition rfl hf
        generalize hnil : ([] : List Frame) = none at hinner
        cases hinner with
        | @here _ _ _ _ t i hc hi => exact ⟨i, t, hc, hi, rfl⟩
        | inner hc he hr => simp at hnil
  · rintro ⟨i, t, hc, hi, rfl⟩
    have hr : Reaches (limit + 2) loop [f] s ([] ++ [⟨[f], 0⟩]) ⟨body, i, loop, t⟩ :=
      .inner .start (.call rfl hf) (.here hc hi)
    exact hr

/-- A call goes well if its body does, and leaves the variables of the caller as they are. -/
theorem evaluate_call (hf : s.words.sense f = .definition body)
    (hcall : evaluate (limit + 1) loop [f] s = .ok () s') :
    ∃ m, inside limit loop body s.toMachine = .ok () m ∧ s' = ⟨m, s.vars⟩ := by
  have hplan : plan loop f [] s = .ok ⟨0, [⟨loop, body⟩]⟩ s := by
    rw [plan, hf]
    rfl
  rw [evaluate_succ, resume_eq _ _ _ (show [f][0]? = some f from rfl)] at hcall
  simp only [stride, List.drop_succ_cons, List.drop_nil, hplan, series, bind, EStateM.bind] at hcall
  cases hin : inside limit loop body s.toMachine with
  | error h m =>
    simp only [hin] at hcall
    cases hcall
  | ok u m =>
    simp only [hin, pure, EStateM.pure, resume_of_le (inside limit) loop [f] (Nat.le_refl 1)] at hcall
    cases hcall
    exact ⟨m, rfl, rfl⟩

/-- What a body comes to is portable, if it is not private: bodies hold no colon. -/
theorem portable_of_body (hd : s.words.Based) (hf : s.words.sense f = .definition body)
    (hown : ∀ here p, Reaches (limit + 2) loop [f] s [⟨[f], 0⟩] here → here.Dispatches p → ¬ p.Private)
    {i : Nat} {token : String} {t : Scope Empty}
    (hc : Comes (inside limit) loop body ⟨s.toMachine, []⟩ i t) (ht : body[i]? = some token) :
    (t.words.sense token).Portable := by
  intro p hp
  obtain ⟨hi, -⟩ := List.getElem?_eq_some_iff.1 ht
  have hr := (reaches_call_iff hf ⟨body, i, loop, t⟩).2 ⟨i, t, hc, hi, rfl⟩
  refine ⟨hown _ p hr ⟨token, ht, hp⟩, ?_⟩
  rintro rfl
  have hbased : t.words.Based := hd.trans hr.extends
  have hmem := List.mem_of_getElem? ht
  rw [hbased.eq_colon hp] at hmem
  exact hd.colon_not_mem hf hmem

theorem inside_ne_bye (limit : Nat) (loop : Option Int) (tokens : List String) (m m' : Machine Empty) :
    inside limit loop tokens m ≠ .error .bye m' := fun h => (inside_error_iff.1 h).1 rfl

/-- A call that goes well leaves the state that its body leaves on the variables of the caller. -/
theorem evaluate_body (hd : s.words.Based) (hf : s.words.sense f = .definition body)
    (hcall : evaluate limit loop [f] s = .ok () s')
    (hown : ∀ here p, Reaches limit loop [f] s [⟨[f], 0⟩] here → here.Dispatches p → ¬ p.Private) :
    evaluate limit loop body s = .ok () s' := by
  cases limit with
  | zero => cases hcall
  | succ limit =>
    obtain ⟨m, hin, rfl⟩ := evaluate_call hf hcall
    cases limit with
    | zero => cases hin
    | succ limit =>
      have hrebound := resume_rebound (inside_ne_bye limit) s.vars
        (fun i token t hc ht => (portable_of_body hd hf hown hc ht).carries _ _ _) .start rfl
      have hbody : evaluate (limit + 1) loop body s = .ok () ⟨m, s.vars⟩ := by
        unfold inside isolated at hin
        rw [evaluate_succ] at hin ⊢
        obtain ⟨u, t, t', hx, hy, -, rfl⟩ | ⟨h, t, t', hx, -, hbye, -⟩ | ⟨-, -, -, h⟩ := hrebound.cases
        · rw [hx] at hin
          cases hin
          exact hy
        · rw [hx] at hin
          cases h with
          | bye => exact absurd rfl hbye
          | _ => cases hin
        · exact h.elim
      rw [evaluate_of_le (Nat.le_succ _) (by simp [hbody]), hbody]

/-- A body that does not hold their names does not dispatch the private primitives. -/
theorem not_private_of_body (hd : s.words.Based) (hf : s.words.sense f = .definition body)
    (hbody : ∀ name ∈ ["bye", "variable", "@", "$"], name ∉ body) {here : Moment}
    {p : Primitive Empty} (hr : Reaches (limit + 2) loop [f] s [⟨[f], 0⟩] here)
    (hp : here.Dispatches p) : ¬ p.Private := by
  intro hprivate
  have hnames : ∀ w ∈ (primitiveWords : Dictionary Empty).words,
      ∀ p ∈ [Primitive.bye, .lookahead .declare, .lookahead .recall, .lookahead .assign],
        w.code = .primitive p → w.name ∈ ["bye", "variable", "@", "$"] := by
    decide
  have hbased : here.scope.words.Based := hd.trans hr.extends
  obtain ⟨token, ht, hs⟩ := hp
  obtain ⟨w, hw, rfl, hc⟩ := hbased.word_of_primitive hs
  obtain ⟨i, t, -, -, rfl⟩ := (reaches_call_iff hf here).1 hr
  exact hbody w.name (hnames w hw p hprivate hc) (List.mem_of_getElem? ht)

end Call

/-- In place of a call, the body of the definition does the same, up to the contexts of failures: after
`xs`, and before whatever follows. The call has to go well, and no token of the body itself, as against the
sequences inside it, may declare, read or set a variable or be `bye`. -/
theorem interpretWithin_inline {limit : Nat} {loop : Option Int} {xs body : List String} {f : String}
    {s s₁ s₂ : Scope Empty} (ys : List String) (hd : Later standardWords [] s.words)
    (hxs : evaluate limit loop xs s = .ok () s₁) (hf : s₁.words.sense f = .definition body)
    (hcall : evaluate limit loop [f] s₁ = .ok () s₂)
    (hown : ∀ here p, Reaches limit loop [f] s₁ [⟨[f], 0⟩] here → here.Dispatches p → ¬ p.Private) :
    AlikeBut (fun _ _ => True) (interpretWithin limit loop (xs ++ [f] ++ ys) s)
      (interpretWithin limit loop (xs ++ body ++ ys) s) := by
  have hgrown := evaluate_extends limit loop xs s
  rw [hxs] at hgrown
  have hbody := evaluate_body ((based_of_later hd).trans hgrown) hf hcall hown
  have hthrough {zs : List String} (hzs : evaluate limit loop zs s₁ = .ok () s₂) :
      EndsAlike (fun _ _ => True) (evaluate limit loop ys s₂)
        (evaluate limit loop (xs ++ zs ++ ys) s) := by
    have hfirst := evaluate_append loop limit xs (zs ++ ys) s
    have hsecond := evaluate_append loop limit zs ys s₁
    rw [hxs] at hfirst
    rw [hzs] at hsecond
    rw [List.append_assoc]
    exact (hsecond.mono fun _ _ _ => trivial).trans (hfirst.mono fun _ _ _ => trivial)
  exact interpretWithin_alike loop ((hthrough hcall).symm.trans (hthrough hbody))

/-- The call in `5 negate .` is replaced by the body `0 swap -`. -/
theorem inlines_negate :
    let s : Scope Empty := ⟨⟨[], .zeros 0, standardWords, .ofText "", #[]⟩, []⟩
    let s₁ := finish (evaluate 2 none ["5"] s)
    let s₂ := finish (evaluate 2 none ["negate"] s₁)
    Later standardWords [] s.words ∧ evaluate 2 none ["5"] s = .ok () s₁ ∧
      s₁.words.sense "negate" = .definition ["0", "swap", "-"] ∧
      evaluate 2 none ["negate"] s₁ = .ok () s₂ ∧
      (∀ here p, Reaches 2 none ["negate"] s₁ [⟨["negate"], 0⟩] here → here.Dispatches p →
        ¬ p.Private) ∧
      AlikeBut (fun _ _ => True) (interpretWithin 2 none ["5", "negate", "."] s)
        (interpretWithin 2 none ["5", "0", "swap", "-", "."] s) ∧
      (finish (interpretWithin 2 none ["5", "negate", "."] s)).console.sink.output = "-5" := by
  intro s s₁ s₂
  have hd : Later standardWords [] s.words := .now
  have hruns : raised? (evaluate 2 none ["5"] s) = none ∧
      raised? (evaluate 2 none ["negate"] s₁) = none ∧
      s₁.words.sense "negate" = .definition ["0", "swap", "-"] ∧
      (finish (interpretWithin 2 none ["5", "negate", "."] s)).console.sink.output = "-5" := by
    decide +kernel
  obtain ⟨hxs, hcall, hf, houtput⟩ := hruns
  rw [raised?_eq_none] at hxs hcall
  have hbased : s₁.words.Based := (based_of_later hd).trans (evaluate_extends 2 none ["5"] s)
  have hown (here : Moment) (p : Primitive Empty)
      (hr : Reaches 2 none ["negate"] s₁ [⟨["negate"], 0⟩] here) (hp : here.Dispatches p) : ¬ p.Private :=
    not_private_of_body hbased hf (by decide) hr hp
  exact ⟨hd, hxs, hf, hcall, hown, interpretWithin_inline ["."] hd hxs hf hcall hown, houtput⟩

end Forth
