import Forth.Lookahead
import Forth.Proofs.Fences

/-!
# The branches of a choice

A choice is `if`, a branch, and `then`, or it has an `else` with a second branch between the two. Branches are
balanced and hold no colon; a first branch holds no `else` where the tokens before it are balanced, for that
would be the `else` of the choice itself. `Choice` is this grammar. Tokens that do not fit it fall short in one
of four ways (`Misfit`), of which each has a failure and a position of its own. The scan finds what the grammar
says, and nothing else (`scan_by_grammar`).
-/
namespace Forth.Branches

structure Branch (tokens : List String) : Prop where
  colon : ":" ∉ tokens
  balanced : Balanced "if" "then" tokens

/-- The `if` at position `p` begins a choice with these branches, whose `then` is at the last position. -/
inductive Choice (tokens : List String) (p : Nat) : List String → List String → Nat → Prop
  | ifThen {yes after : List String} : tokens.drop (p + 1) = yes ++ "then" :: after →
      Branch yes → ¬ Marked "if" "then" ["else"] yes →
      Choice tokens p yes [] (p + 1 + yes.length)
  | ifElse {yes no after : List String} :
      tokens.drop (p + 1) = yes ++ "else" :: (no ++ "then" :: after) →
      Branch yes → ¬ Marked "if" "then" ["else"] yes → Branch no →
      Choice tokens p yes no (p + 1 + yes.length + 1 + no.length)

/-- The `if` at position `p` begins no choice: the class of the failure, its message, and where it is. A colon
counts if the choice is still open there; with none, one of the marks is missing. -/
inductive Misfit (tokens : List String) (p : Nat) : Kind → String → Nat → Prop
  | colonInIf {front after : List String} : tokens.drop (p + 1) = front ++ ":" :: after →
      ":" ∉ front → ¬ Marked "if" "then" ["then", "else"] front →
      Misfit tokens p .nestedDefinitionInConditional ": INSIDE if" (p + 1 + front.length)
  | colonInElse {yes front after : List String} :
      tokens.drop (p + 1) = yes ++ "else" :: (front ++ ":" :: after) →
      Branch yes → ¬ Marked "if" "then" ["else"] yes →
      ":" ∉ front → ¬ Marked "if" "then" ["then"] front →
      Misfit tokens p .nestedDefinitionInConditional ": INSIDE else" (p + 1 + yes.length + 1 + front.length)
  | openIf : ":" ∉ tokens.drop (p + 1) → ¬ Marked "if" "then" ["then", "else"] (tokens.drop (p + 1)) →
      Misfit tokens p .unterminatedIf "UNTERMINATED IF" tokens.length
  | openElse {yes front : List String} : tokens.drop (p + 1) = yes ++ "else" :: front →
      Branch yes → ¬ Marked "if" "then" ["else"] yes →
      ":" ∉ front → ¬ Marked "if" "then" ["then"] front →
      Misfit tokens p .unterminatedElse "UNTERMINATED ELSE" tokens.length

variable {tokens yes no front after : List String} {p q : Nat} {kind : Kind} {text : String}

/-- Behind the `else` of a choice the scan looks for the second branch. -/
theorem scan_else (hy : Branch yes) (hm : ¬ Marked "if" "then" ["else"] yes) (after : List String) :
    scan (yes ++ "else" :: after) =
      match Fence.alternative.scan 0 after with
      | .ok (no, _) => .ok ⟨yes, some no⟩
      | .error e => .error ⟨e.cause, yes.length + 1 + e.passed⟩ := by
  have hyes : Fence.consequent.scan 0 (yes ++ "else" :: after) = .ok (yes, "else") :=
    Fence.consequent_nests.scan_closed hy.colon hy.balanced hm (by decide) after
  have hdrop : (yes ++ "else" :: after).drop (yes.length + 1) = after := by simp
  have hne : "else" ≠ Fence.consequent.closer := by decide
  rw [scan, hyes]
  cases hno : Fence.alternative.scan 0 after with
  | ok r => simp only [if_neg hne, hdrop, hno]
  | error e => simp only [if_neg hne, hdrop, hno]

/-- What the grammar says is found. -/
theorem Choice.scan_eq (h : Choice tokens p yes no q) :
    ∃ b, scan (tokens.drop (p + 1)) = .ok b ∧ b.pick true = yes ∧ b.pick false = no ∧ p + b.width = q := by
  cases h with
  | ifThen ht hy hm =>
    have hyes := Fence.consequent_nests.scan_closed hy.colon hy.balanced hm
      (show "then" ∈ Fence.consequent.marks by decide)
    refine ⟨⟨yes, none⟩, ?_, rfl, rfl, ?_⟩
    · rw [ht]
      exact scan_ifThen_iff.2 (hyes _)
    · simp only [width]
      omega
  | ifElse ht hy hm hn =>
    have hno := Fence.alternative_nests.scan_closed hn.colon hn.balanced
      (show ¬ Marked "if" "then" [] no by simp [Marked]) (show "then" ∈ Fence.alternative.marks by decide)
    refine ⟨⟨yes, some no⟩, ?_, rfl, rfl, ?_⟩
    · rw [ht, scan_else hy hm, hno]
    · simp only [width]
      omega

/-- Each way to fall short of the grammar is found. -/
theorem Misfit.scan_eq (hp : p < tokens.length) (h : Misfit tokens p kind text q) :
    ∃ e, scan (tokens.drop (p + 1)) = .error e ∧ e.cause.kind = kind ∧ e.cause.message = text ∧
      p + 1 + e.passed = q := by
  have hlength : p + 1 + (tokens.drop (p + 1)).length = tokens.length := by
    rw [List.length_drop]
    omega
  cases h with
  | @colonInIf front after ht hc hm =>
    have hif := Fence.consequent_nests.scan_colon hc hm after
    refine ⟨⟨.definitionInIf, front.length⟩, ?_, rfl, rfl, rfl⟩
    rw [ht, scan, hif]
  | @colonInElse yes front after ht hy hm hc hf =>
    have helse := Fence.alternative_nests.scan_colon hc hf after
    refine ⟨⟨.definitionInElse, yes.length + 1 + front.length⟩, ?_, rfl, rfl, by simp only; omega⟩
    rw [ht, scan_else hy hm, helse]
  | openIf hc hm =>
    have hif := Fence.consequent_nests.scan_open hc hm
    refine ⟨⟨.unterminatedIf, (tokens.drop (p + 1)).length⟩, ?_, rfl, rfl, hlength⟩
    rw [scan, hif]
    rfl
  | @openElse yes front ht hy hm hc hf =>
    have helse := Fence.alternative_nests.scan_open hc hf
    rw [ht] at hlength
    refine ⟨⟨.unterminatedElse, yes.length + 1 + front.length⟩, ?_, rfl, rfl, ?_⟩
    · rw [ht, scan_else hy hm, helse]
      rfl
    · simp only [List.length_append, List.length_cons] at hlength ⊢
      omega

/-- Tokens fit the grammar, or fall short of it. -/
theorem choice_or_misfit (tokens : List String) (p : Nat) :
    (∃ yes no q, Choice tokens p yes no q) ∨ ∃ kind text q, Misfit tokens p kind text q := by
  obtain ⟨hc, hm⟩ | ⟨front, after, ht, hc, hm⟩ | ⟨yes, last, after, ht, hlast, hc, hb, hm⟩ :=
    Fence.consequent_nests.reads (tokens.drop (p + 1))
  · exact .inr ⟨_, _, _, .openIf hc hm⟩
  · exact .inr ⟨_, _, _, .colonInIf ht hc hm⟩
  · have hy : Branch yes := ⟨hc, hb⟩
    rcases Fence.mem_marks_iff.1 hlast with hthen | helse
    · obtain rfl : last = "then" := hthen
      exact .inl ⟨_, _, _, .ifThen ht hy hm⟩
    · obtain rfl : last = "else" := Option.some.inj helse
      obtain ⟨hc', hm'⟩ | ⟨front, after', rfl, hc', hm'⟩ | ⟨no, last, after', rfl, hlast, hc', hb', -⟩ :=
        Fence.alternative_nests.reads after
      · exact .inr ⟨_, _, _, .openElse ht hy hm hc' hm'⟩
      · exact .inr ⟨_, _, _, .colonInElse ht hy hm hc' hm'⟩
      · obtain rfl : last = "then" := Fence.eq_closer_of_mem_marks rfl hlast
        exact .inl ⟨_, _, _, .ifElse ht hy hm ⟨hc', hb'⟩⟩

/-- The scan of an `if` succeeds exactly if it begins a choice, with the branches of that choice and the cursor
on its `then`; there is only one such choice. Otherwise it fails, in the way in which the tokens fall short of
one, and the word itself fails so too and changes nothing. -/
theorem scan_by_grammar (hp : tokens[p]? = some "if") :
    (∀ yes no q,
      (∃ b, scan (tokens.drop (p + 1)) = .ok b ∧ b.pick true = yes ∧ b.pick false = no ∧ p + b.width = q) ↔
        Choice tokens p yes no q) ∧
    (∀ yes no q yes' no' q', Choice tokens p yes no q → Choice tokens p yes' no' q' →
      yes = yes' ∧ no = no' ∧ q = q') ∧
    (∀ kind text q,
      (∃ e, scan (tokens.drop (p + 1)) = .error e ∧ e.cause.kind = kind ∧ e.cause.message = text ∧
        p + 1 + e.passed = q) ↔
        Misfit tokens p kind text q) ∧
    ∀ e, scan (tokens.drop (p + 1)) = .error e →
      ∀ (nested : Nested Empty) (loop : Option Int) (s : Scope Empty),
        Lookahead.act nested loop (tokens.drop (p + 1)) .choose s =
          .error ⟨.failed ⟨e.cause, []⟩, 1 + e.passed⟩ s := by
  obtain ⟨hlt, -⟩ := List.getElem?_eq_some_iff.1 hp
  refine ⟨?_, ?_, ?_, ?_⟩
  · intro yes no q
    refine ⟨?_, Choice.scan_eq⟩
    intro ⟨b, hb, hyes, hno, hq⟩
    obtain ⟨yes', no', q', h⟩ | ⟨kind, text, q', h⟩ := choice_or_misfit tokens p
    · obtain ⟨b', hb', hyes', hno', hq'⟩ := h.scan_eq
      cases hb.symm.trans hb'
      rw [← hyes, ← hno, ← hq, hyes', hno', hq']
      exact h
    · obtain ⟨e, he, -⟩ := h.scan_eq hlt
      cases hb.symm.trans he
  · intro yes no q yes' no' q' h h'
    obtain ⟨b, hb, rfl, rfl, rfl⟩ := h.scan_eq
    obtain ⟨b', hb', rfl, rfl, rfl⟩ := h'.scan_eq
    cases hb.symm.trans hb'
    exact ⟨rfl, rfl, rfl⟩
  · intro kind text q
    refine ⟨?_, Misfit.scan_eq hlt⟩
    intro ⟨e, he, hkind, htext, hq⟩
    obtain ⟨yes', no', q', h⟩ | ⟨kind', text', q', h⟩ := choice_or_misfit tokens p
    · obtain ⟨b, hb, -⟩ := h.scan_eq
      cases he.symm.trans hb
    · obtain ⟨e', he', hkind', htext', hq'⟩ := h.scan_eq hlt
      cases he.symm.trans he'
      rw [← hkind, ← htext, ← hq, hkind', htext', hq']
      exact h
  · intro e he nested loop s
    rw [Lookahead.act, he]
    rfl

/-- The `else` of an inner choice does not split the first branch. -/
theorem scan_by_grammar_inner_choice :
    let tokens := ["if", "if", "1", "else", "2", "then", "else", "3", "then", "4"]
    tokens[0]? = some "if" ∧ Choice tokens 0 ["if", "1", "else", "2", "then"] ["3"] 8 := by
  intro tokens
  have hp : tokens[0]? = some "if" := rfl
  have hscan : scan (tokens.drop 1) = .ok ⟨["if", "1", "else", "2", "then"], some ["3"]⟩ := rfl
  exact ⟨hp, ((scan_by_grammar hp).1 _ _ _).1 ⟨_, hscan, rfl, rfl, rfl⟩⟩

end Forth.Branches
