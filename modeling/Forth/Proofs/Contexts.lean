import Forth.Interpreter
import Forth.Proofs.Invariants

/-!
# The contexts of a failure

The report of a failure shows one context for every sequence that was being evaluated, the innermost first:
where the failing word points, then where each frame around it waits. `failed_iff_reaches` says so in both
directions. Only a nesting that is too deep is reported without contexts.
-/
namespace Forth

/-- The token fails by itself, whatever inner sequences would do, and its report points at `p`. -/
def Moment.FailsAt (here : Moment) (c : Cause) (p : Nat) : Prop :=
  ∃ token k t, here.tokens[here.pos]? = some token ∧
    (∀ nested : Nested Empty,
      step nested ⟨here.tokens, here.pos, here.loop⟩ token (here.tokens.drop (here.pos + 1))
        here.scope = .error ⟨.failed ⟨c, []⟩, k⟩ t) ∧
    ((here.scope.words.sense token).landmark c).IsAt here.tokens here.pos p

/-- What any evaluation may raise. Too deep a nesting is for the outermost one to report. -/
def Trouble.Inner : Trouble → Prop
  | .cause c => c.kind ≠ .returnStackOverflow
  | .fault _ => True

theorem steady_true : Steady (fun _ => True) Trouble.Inner where
  stack _ _ := trivial
  words _ _ _ := trivial
  note _ _ := trivial
  put _ _ _ := trivial
  cause hc := hc
  emit _ hm := ends_emit (fun h _ => h) trivial _ hm
  readLine _ hm := ends_readLine (fun h _ => h) (fun _ => trivial) hm

/-- A token that fails by itself does so for another reason than too deep a nesting. -/
theorem Moment.Breaks.kind_ne {here : Moment} {f : Failure} {k : Int} {t : Scope Empty}
    (h : here.Breaks ⟨.failed f, k⟩ t) : f.cause.kind ≠ .returnStackOverflow := by
  obtain ⟨token, ht, hp⟩ := (Moment.breaks_iff _ _ _).1 h
  have hu := plan_upholds steady_true trivial here.loop token (here.tokens.drop (here.pos + 1))
    (s := here.scope) trivial
  rw [hp] at hu
  exact hu.2

theorem Moment.Breaks.cause_ne {here : Moment} {f : Failure} {k : Int} {t : Scope Empty}
    (h : here.Breaks ⟨.failed f, k⟩ t) : f.cause ≠ .returnStackOverflow := by
  intro hc
  exact h.kind_ne (by rw [hc, Cause.kind])

/-- A token that fails by itself points at some position, with no context yet. -/
theorem Moment.Breaks.failsAt {here : Moment} {f : Failure} {k : Int} {t : Scope Empty}
    (h : here.Breaks ⟨.failed f, k⟩ t) :
    f.contexts = [] ∧ ∃ p : Nat, (p : Int) = here.pos + k ∧ here.FailsAt f.cause p := by
  obtain ⟨token, ht, hstep⟩ := h
  obtain ⟨token', ht', hp⟩ := (Moment.breaks_iff here _ t).1 ⟨token, ht, hstep⟩
  have htoken : token' = token := Option.some.inj (ht'.symm.trans ht)
  subst htoken
  obtain ⟨hi, -⟩ := List.getElem?_eq_some_iff.1 ht
  obtain ⟨cause, contexts⟩ := f
  obtain ⟨hcs, p, hpk, hat⟩ := plan_points hi hp
  cases hcs
  exact ⟨rfl, p, hpk, token', k, t, ht, hstep, hat⟩

/-- The position that a failure points at is the one its break says. -/
theorem Moment.FailsAt.breaks {here : Moment} {c : Cause} {p : Nat} (h : here.FailsAt c p) :
    ∃ k t, here.Breaks ⟨.failed ⟨c, []⟩, k⟩ t ∧ (p : Int) = here.pos + k := by
  obtain ⟨token, k, t, ht, hstep, hat⟩ := h
  have hb : here.Breaks ⟨.failed ⟨c, []⟩, k⟩ t := ⟨token, ht, hstep⟩
  obtain ⟨-, q, hq, token', k', t', ht', hstep', hat'⟩ := hb.failsAt
  have htoken : token' = token := Option.some.inj (ht'.symm.trans ht)
  subst htoken
  exact ⟨k, t, hb, by rw [hat.unique hat', hq]⟩

/-- Evaluation fails, other than by too deep a nesting, exactly if it reaches a token that fails by itself.
The first context shows where that token points; the others show the frames, the innermost first. -/
theorem failed_iff_reaches (limit : Nat) (loop : Option Int) (tokens : List String)
    (s : Scope Empty) (c : Cause) (contexts : List String) :
    (c ≠ .returnStackOverflow ∧
      ∃ s', interpretWithin limit loop tokens s = .error (.failed ⟨c, contexts⟩) s') ↔
    ∃ outer here p, Reaches limit loop tokens s outer here ∧ here.FailsAt c p ∧
      contexts = formatContext here.tokens p :: outer.map Frame.context := by
  constructor
  · rintro ⟨hc, s', hs'⟩
    unfold interpretWithin at hs'
    cases he : evaluate limit loop tokens s with
    | ok u t =>
      rw [he] at hs'
      cases hs'
    | error e t =>
      rw [he] at hs'
      cases e with
      | bye => cases hs'
      | overflow =>
        cases hs'
        exact absurd rfl hc
      | fault f => cases hs'
      | failed f =>
        cases hs'
        obtain ⟨outer, here, b, t', hr, hb, heq, -⟩ := reaches_of_evaluate (by simp) (by simp) he
        rw [b.annotate_through] at heq
        obtain ⟨halt, k⟩ := b
        cases halt with
        | bye => cases heq
        | overflow => cases heq
        | fault f => cases heq
        | failed f =>
          obtain ⟨hcs, p, hp, hat⟩ := hb.failsAt
          simp only [hcs, ← hp, List.nil_append] at heq
          cases heq
          exact ⟨outer, here, p, hr, hat, rfl⟩
  · rintro ⟨outer, here, p, hr, hat, rfl⟩
    obtain ⟨k, t, hb, hp⟩ := hat.breaks
    obtain ⟨s', hs', -⟩ := hr.evaluate_eq hb (by simp)
    rw [Break.annotate_through] at hs'
    simp only [List.nil_append, ← hp] at hs'
    simp only [interpretWithin, hs']
    exact ⟨hb.cause_ne, _, rfl⟩

end Forth
