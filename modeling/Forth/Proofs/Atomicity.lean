import Forth.Proofs.Contexts

/-!
# Lookahead words that fail

A lookahead word scans and checks before it takes a cell, binds a name or adds a word. So one that fails by
itself, for whichever of its reasons, leaves everything as it was, and so does the evaluation that fails with it
(`Lookahead.fails_atomically`). All other failures of such a word are those of an inner sequence.
-/
namespace Forth

open Machine

/-- A lookahead word that goes wrong by itself has an objection, and leaves the state as it was. -/
theorem Lookahead.plan_error {loop : Option Int} {rest : List String} {w : Lookahead} {s t : Scope Empty} {b : Break}
    (h : w.plan loop rest s = .error b t) : t = s ∧ w.Fails rest s b.halt := by
  obtain ⟨rfl, hstumbles⟩ := plan_stumbles h
  refine ⟨rfl, ?_⟩
  cases hstumbles with
  | scan he => exact .objects (.scan he)
  | nameless hw hr => exact .objects (.nameless hw hr)
  | behind hspans hobjects hlandmark => exact .objects hobjects
  | mute hw hline hwrite =>
    obtain ⟨-, -, hsink⟩ := emit_error hwrite
    exact .mute hw hsink

/-! ### Evaluations that fail with such a word -/

section Runs

variable {here : Moment} {token : String} {w : Lookahead} {b : Break} {t : Scope Empty}

/-- What breaks at a lookahead word is the word itself. -/
theorem Moment.Breaks.lookahead (ht : here.tokens[here.pos]? = some token)
    (hw : here.scope.words.sense token = .primitive (.lookahead w)) (h : here.Breaks b t) :
    t = here.scope ∧ w.Fails (here.tokens.drop (here.pos + 1)) here.scope b.halt := by
  obtain ⟨token', ht', hp⟩ := (Moment.breaks_iff here b t).1 h
  obtain rfl : token = token' := Option.some.inj (ht.symm.trans ht')
  rw [plan_of_lookahead _ _ hw] at hp
  exact Lookahead.plan_error hp

/-- A token that goes wrong breaks by itself, or in one of its inner sequences. -/
theorem Moment.breaks_or_enters {nested : Nested Empty} (ht : here.tokens[here.pos]? = some token)
    (h : step nested ⟨here.tokens, here.pos, here.loop⟩ token (here.tokens.drop (here.pos + 1)) here.scope =
      .error b t) :
    here.Breaks b t ∨ ∃ q x m, Enters nested here.loop here.tokens here.pos here.scope q x m ∧
      nested x.loop x.tokens m = .error b.halt t.toMachine := by
  rw [step_eq_carryOut] at h
  cases hp : plan here.loop token (here.tokens.drop (here.pos + 1)) here.scope with
  | error b' t' =>
    rw [hp] at h
    cases h
    exact .inl ((Moment.breaks_iff here b t).2 ⟨token, ht, hp⟩)
  | ok p s =>
    rw [hp] at h
    simp only [carryOut] at h
    split at h <;> cases h
    next hseries =>
      obtain ⟨before, x, after, m, hx, hbefore, hin⟩ := series_error_iff.1 hseries
      exact .inr ⟨_, x, m, .of_plan ht hp hx hbefore, hin⟩

/-- In the outermost sequence, an evaluation ends in the very state in which a token breaks. -/
theorem Reaches.evaluate_eq_of_outermost {limit : Nat} {loop : Option Int} {tokens : List String}
    {s : Scope Empty} (hr : Reaches limit loop tokens s [] here) (hb : here.Breaks b t) :
    evaluate limit loop tokens s = .error (b.annotate here.tokens here.pos) t := by
  generalize houter : ([] : List Frame) = outer at hr
  cases hr with
  | here hc hi =>
    obtain ⟨token, ht, hp⟩ := hb
    rw [evaluate_succ, hc.resume_eq, resume_eq _ _ _ ht, stride_of_step_error (hp _)]
  | inner hc he hr => simp at houter

/-- An evaluation that comes to a token which breaks it ends on the machine of that moment, but for the note of
the failure. -/
theorem Reaches.interpretWithin_eq {limit : Nat} {loop : Option Int} {tokens : List String}
    {s : Scope Empty} {outer : List Frame} (hr : Reaches limit loop tokens s outer here)
    (hb : here.Breaks b t) (hbye : b.halt ≠ .bye) :
    ∃ a s' journal, interpretWithin limit loop tokens s = .error a s' ∧
      s'.toMachine = { t.toMachine with journal } ∧ (outer = [] → s'.vars = t.vars) := by
  obtain ⟨s', he, hm⟩ := hr.evaluate_eq hb hbye
  have hvars : outer = [] → s'.vars = t.vars := by
    rintro rfl
    rw [hr.evaluate_eq_of_outermost hb] at he
    cases he
    rfl
  have hhalt : (b.annotate here.tokens here.pos).through outer ≠ .bye := by
    rw [b.annotate_through]
    split
    · simp
    · exact hbye
  unfold interpretWithin
  rw [he]
  generalize (b.annotate here.tokens here.pos).through outer = halt at hhalt
  cases halt with
  | bye => exact absurd rfl hhalt
  | overflow => exact ⟨_, s', t.journal, rfl, by rw [hm], hvars⟩
  | fault f => exact ⟨_, s', t.journal, rfl, by rw [hm], hvars⟩
  | failed f =>
    refine ⟨_, _, t.journal.push (.evaluationFailed f.report), rfl, ?_, hvars⟩
    simp only [Machine.note, hm]

/-- What goes wrong at a lookahead word goes wrong in an inner sequence, or the word has an objection. Then it has
changed nothing: the state is that in which the word was found. So an evaluation that ends with it ends on the
machine of that moment, but for the note of the failure, and with the variables of that moment if the word stands
in the outermost sequence. -/
theorem Lookahead.fails_atomically (ht : here.tokens[here.pos]? = some token)
    (hw : here.scope.words.sense token = .primitive (.lookahead w)) :
    (∀ (nested : Nested Empty) (b : Break) (t : Scope Empty),
      step nested ⟨here.tokens, here.pos, here.loop⟩ token (here.tokens.drop (here.pos + 1)) here.scope =
        .error b t →
      here.Breaks b t ∨ ∃ q x m, Enters nested here.loop here.tokens here.pos here.scope q x m ∧
        nested x.loop x.tokens m = .error b.halt t.toMachine) ∧
    (∀ (b : Break) (t : Scope Empty), here.Breaks b t →
      t = here.scope ∧ w.Fails (here.tokens.drop (here.pos + 1)) here.scope b.halt) ∧
    ∀ (limit : Nat) (loop : Option Int) (tokens : List String) (s : Scope Empty) (outer : List Frame)
      (b : Break) (t : Scope Empty), Reaches limit loop tokens s outer here → here.Breaks b t →
      ∃ a s' journal, interpretWithin limit loop tokens s = .error a s' ∧
        s'.toMachine = { here.scope.toMachine with journal } ∧ (outer = [] → s'.vars = here.scope.vars) := by
  refine ⟨?_, ?_, ?_⟩
  · intro nested b t h
    exact Moment.breaks_or_enters ht h
  · intro b t h
    exact h.lookahead ht hw
  · intro limit loop tokens s outer b t hr hb
    obtain ⟨rfl, hfails⟩ := hb.lookahead ht hw
    have hbye : b.halt ≠ .bye := by
      intro hb
      rw [hb] at hfails
      cases hfails
    exact hr.interpretWithin_eq hb hbye

/-- In a branch, a cell is to go to a word: the cell stays on the stack, and nothing else has changed. -/
theorem Lookahead.fails_atomically_in_branch :
    let tokens := ["5", "1", "if", "$", "dup", "then"]
    let s : Scope Empty := ⟨bootMachine, []⟩
    let here : Moment := ⟨["$", "dup"], 0, none, ⟨{ bootMachine with stack := [5] }, []⟩⟩
    here.tokens[here.pos]? = some "$" ∧ here.scope.words.sense "$" = .primitive (.lookahead .assign) ∧
      here.Breaks ⟨.failed ⟨.notAVariable "dup", []⟩, 1⟩ here.scope ∧
      Reaches 2 none tokens s [⟨tokens, 5⟩] here ∧
      ∃ a s' journal, interpretWithin 2 none tokens s = .error a s' ∧
        s'.toMachine = { bootMachine with stack := [5], journal } := by
  intro tokens s here
  have ht : here.tokens[here.pos]? = some "$" := rfl
  have hw : here.scope.words.sense "$" = .primitive (.lookahead .assign) := by decide
  have hb : here.Breaks ⟨.failed ⟨.notAVariable "dup", []⟩, 1⟩ here.scope :=
    (Moment.breaks_iff _ _ _).2 ⟨"$", ht, rfl⟩
  have hr : Reaches 2 none tokens s [⟨tokens, 5⟩] here := by
    have hfive : Comes (inside 1) none tokens s (0 + 1 + 0) ⟨{ bootMachine with stack := [5] }, []⟩ :=
      .next .start rfl rfl
    have hone : Comes (inside 1) none tokens s (1 + 1 + 0) ⟨{ bootMachine with stack := [1, 5] }, []⟩ :=
      .next hfive rfl rfl
    have hscan : Branches.scan (tokens.drop 3) = .ok ⟨["$", "dup"], none⟩ := by decide
    have hsense : bootMachine.words.sense "if" = .primitive (.lookahead .choose) := by decide
    have hif : Enters (inside 1) none tokens 2 ⟨{ bootMachine with stack := [1, 5] }, []⟩ 5
        ⟨none, ["$", "dup"]⟩ { bootMachine with stack := [5] } :=
      .branch (n := 1) rfl hsense hscan rfl (Branches.closes_of_scan hscan)
    exact .inner hone hif (.here .start (by decide))
  obtain ⟨-, -, hrun⟩ := Lookahead.fails_atomically ht hw
  obtain ⟨a, s', journal, hend, hm, -⟩ := hrun 2 none tokens s _ _ _ hr hb
  exact ⟨ht, hw, hb, hr, a, s', journal, hend, hm⟩

end Runs

end Forth
