import Forth.Standard
import Forth.Proofs.Fences
import Forth.Proofs.Frames

/-!
# What becomes of a definition

A colon looks for the first semicolon behind it, and stops at a colon before that. What stands between them is
a name, perhaps a comment on the effect, and a body. Then come the checks: the name must be no variable, and
after that no word. Every definition meets with one outcome, that of the first of these that goes wrong
(`step_eq_iff_outcome`); only if none does is a word added.
-/
namespace Forth.Colon

/-- The tokens hold neither of the marks that a definition looks for. -/
def Plain (tokens : List String) : Prop := ":" ∉ tokens ∧ ";" ∉ tokens

/-- The tokens between a colon and its semicolon are a name and a body. A comment right behind the name is the
effect and does not belong to the body. -/
inductive Reads : List String → Heading → Prop
  | bare {name : String} {body : List String} : body.head? ≠ some "(" →
      Reads (name :: body) ⟨name, "", body⟩
  | noted {name : String} {words body : List String} : ")" ∉ words →
      Reads (name :: "(" :: (words ++ ")" :: body)) ⟨name, Text.strip (Text.spaced words), body⟩

/-- The state after a definition: one word more, and the note of it. -/
def defining (s : Scope Empty) (h : Heading) : Scope Empty :=
  { s with
    words := ⟨s.words.words ++ [⟨h.name, h.effect, .definition h.body⟩]⟩
    journal := s.journal.push (.defined h.name h.body.length) }

/-- The colon fails, with a cause and the distance to the token that the failure points at. -/
def failure (c : Cause) (offset : Nat) (s : Scope Empty) : EStateM.Result Break (Scope Empty) (Move Empty) :=
  .error ⟨.failed ⟨c, []⟩, offset⟩ s

inductive Outcome (s : Scope Empty) (rest : List String) :
    EStateM.Result Break (Scope Empty) (Move Empty) → Prop
  | unterminated : Plain rest →
      Outcome s rest (failure .unterminatedDefinition (1 + rest.length) s)
  | nested {front after : List String} : rest = front ++ ":" :: after → Plain front →
      Outcome s rest (failure .nestedDefinition (1 + front.length) s)
  | nameless {after : List String} : rest = ";" :: after →
      Outcome s rest (failure .missingName 1 s)
  | openComment {name : String} {words after : List String} :
      rest = name :: "(" :: words ++ ";" :: after → Plain (name :: "(" :: words) → ")" ∉ words →
      Outcome s rest (failure .unterminatedComment (words.length + 3) s)
  | isVariable {inside after : List String} {h : Heading} : rest = inside ++ ";" :: after →
      Plain inside → Reads inside h → s.vars.contains h.name = true →
      Outcome s rest (failure (.nameIsVariable h.name) (inside.length + 1) s)
  | isWord {inside after : List String} {h : Heading} : rest = inside ++ ";" :: after →
      Plain inside → Reads inside h → s.vars.contains h.name = false → s.words.contains h.name = true →
      Outcome s rest (failure (.duplicateDefinition h.name) (inside.length + 1) s)
  | defined {inside after : List String} {h : Heading} : rest = inside ++ ";" :: after →
      Plain inside → Reads inside h → s.vars.contains h.name = false → s.words.contains h.name = false →
      Outcome s rest (.ok (.next (inside.length + 1)) (defining s h))

variable {inside front after rest : List String} {h : Heading} {s : Scope Empty}

theorem levels?_plain_iff : Fence.definition.levels? 0 inside = some 0 ↔ Plain inside := by
  rw [Fence.levels?_flat_iff rfl rfl, Plain,
    ← Fence.bars_eq_none_iff (f := .definition) (c := .nestedDefinition) rfl]
  constructor
  · intro ⟨_, hall⟩
    exact ⟨fun t ht => (hall t ht).1, fun hmem => (hall ";" hmem).2 rfl⟩
  · intro ⟨hbars, hsemicolon⟩
    refine ⟨rfl, fun t ht => ⟨hbars t ht, ?_⟩⟩
    rintro rfl
    exact hsemicolon ht

theorem Plain.scan_eq (hp : Plain inside) (after : List String) :
    Fence.definition.scan 0 (inside ++ ";" :: after) = .ok (inside, ";") :=
  (Fence.scan_eq_ok_iff after).2 ⟨levels?_plain_iff.2 hp, by decide, by decide⟩

theorem ofTokens_eq_iff : Heading.ofTokens inside = .ok h ↔ Reads inside h := by
  obtain ⟨name, effect, body⟩ := h
  rw [Heading.ofTokens_eq_ok_iff]
  constructor
  · rintro (⟨rfl, rfl, hhead⟩ | ⟨words, rfl, hw, rfl⟩)
    · exact .bare hhead
    · exact .noted hw
  · intro hr
    cases hr with
    | bare hhead => exact .inl ⟨rfl, rfl, hhead⟩
    | noted hw => exact .inr ⟨_, rfl, hw, rfl⟩

/-- A comment that begins behind the name has to end before the semicolon. -/
theorem ofTokens_openComment {name : String} {words : List String} (hw : ")" ∉ words) :
    Heading.ofTokens (name :: "(" :: words) = .error .unterminatedComment := by
  have hpasses : Fence.comment.levels? 0 words = some 0 := by
    refine (Fence.levels?_flat_iff rfl rfl).2 ⟨rfl, fun t ht => ⟨by simp [Fence.bars, Fence.comment], ?_⟩⟩
    rintro rfl
    exact hw ht
  rw [Heading.ofTokens, Fence.scan_eq_unterminated hpasses]
  rfl

/-- The own work of a colon, once its semicolon is found. -/
theorem plan_closed (loop : Option Int) (hp : Plain inside) (after : List String) (s : Scope Empty) :
    Lookahead.plan loop (inside ++ ";" :: after) .colon s =
      match Heading.ofTokens inside with
      | .error c => .error ⟨.failed ⟨c, []⟩, inside.length + 1⟩ s
      | .ok h =>
        if s.vars.contains h.name then .error ⟨.failed ⟨.nameIsVariable h.name, []⟩, inside.length + 1⟩ s
        else if s.words.contains h.name then
          .error ⟨.failed ⟨.duplicateDefinition h.name, []⟩, inside.length + 1⟩ s
        else .ok ⟨inside.length + 1, []⟩ (defining s h) := by
  rw [Lookahead.plan_colon, hp.scan_eq]
  simp only
  cases Heading.ofTokens inside with
  | error c => rfl
  | ok h =>
    simp only [Dictionary.add]
    by_cases hv : s.vars.contains h.name = true
    · rw [if_pos hv, if_pos hv]
    · rw [if_neg hv, if_neg hv]
      by_cases hw : s.words.contains h.name = true
      · rw [if_pos hw, if_pos hw]
      · rw [if_neg hw, if_neg hw]
        rfl

/-! ### The outcomes -/

/-- Each outcome is that of the step. -/
theorem Outcome.step_eq {nested : Nested Empty} {site : Site} {token : String}
    {r : EStateM.Result Break (Scope Empty) (Move Empty)} (h : Outcome s rest r)
    (hs : s.words.sense token = .primitive (.lookahead .colon)) :
    step nested site token rest s = r := by
  rw [step_eq_carryOut, plan_of_lookahead _ _ hs]
  cases h with
  | unterminated hp =>
    rw [Lookahead.plan_colon, Fence.scan_eq_unterminated (levels?_plain_iff.2 hp)]
    rfl
  | nested ht hp =>
    rw [Lookahead.plan_colon, ht, Fence.scan_eq_colon rfl (levels?_plain_iff.2 hp)]
    rfl
  | @nameless after ht =>
    have hp : Plain [] := by simp [Plain]
    have hplan := plan_closed site.loop hp after s
    rw [List.nil_append] at hplan
    rw [ht, hplan]
    rfl
  | openComment ht hp hw =>
    rw [ht, plan_closed site.loop hp, ofTokens_openComment hw]
    rfl
  | isVariable ht hp hr hv =>
    rw [ht, plan_closed site.loop hp, ofTokens_eq_iff.2 hr]
    simp only [hv, if_true]
    rfl
  | isWord ht hp hr hv hw =>
    rw [ht, plan_closed site.loop hp, ofTokens_eq_iff.2 hr]
    simp only [hv, hw, if_true, Bool.false_eq_true, if_false]
    rfl
  | defined ht hp hr hv hw =>
    rw [ht, plan_closed site.loop hp, ofTokens_eq_iff.2 hr]
    simp only [hv, hw, Bool.false_eq_true, if_false]
    rfl

/-- What stands between a colon and its semicolon has no name, or a comment that does not end, or is read. -/
theorem reads_or_fails (inside : List String) :
    inside = [] ∨ (∃ name words, inside = name :: "(" :: words ∧ ")" ∉ words) ∨ ∃ h, Reads inside h := by
  cases inside with
  | nil => exact .inl rfl
  | cons name body =>
    by_cases hhead : body.head? = some "("
    · obtain ⟨words, rfl⟩ := List.head?_eq_some_iff.1 hhead
      by_cases hw : ")" ∈ words
      · obtain ⟨note, body, rfl, hnote⟩ := List.eq_append_cons_of_mem hw
        exact .inr (.inr ⟨_, .noted hnote⟩)
      · exact .inr (.inl ⟨name, words, rfl, hw⟩)
    · exact .inr (.inr ⟨_, .bare hhead⟩)

/-- There is an outcome for all tokens and every state. -/
theorem exists_outcome (s : Scope Empty) (rest : List String) : ∃ r, Outcome s rest r := by
  obtain ⟨k, hk⟩ | ⟨front, t, after, k, rfl, hk, hstop⟩ := Fence.definition.passes_or_stops 0 rest
  · obtain rfl := ((Fence.levels?_flat_iff rfl rfl).1 hk).1
    exact ⟨_, .unterminated (levels?_plain_iff.1 hk)⟩
  · obtain rfl := ((Fence.levels?_flat_iff rfl rfl).1 hk).1
    have hp := levels?_plain_iff.1 hk
    by_cases ht : t = ":"
    · exact ⟨_, .nested (by rw [ht]) hp⟩
    · have he := hstop.resolve_left (fun hb => hb (by rw [Fence.bars, if_neg ht]))
      simp only [Fence.ends, Bool.and_eq_true, Bool.or_eq_true, decide_eq_true_eq] at he
      obtain rfl : t = ";" := he.2.resolve_right (by simp [Fence.definition])
      obtain rfl | ⟨name, words, rfl, hw⟩ | ⟨h, hr⟩ := reads_or_fails front
      · exact ⟨_, .nameless rfl⟩
      · exact ⟨_, .openComment rfl hp hw⟩
      · cases hv : s.vars.contains h.name with
        | true => exact ⟨_, .isVariable rfl hp hr hv⟩
        | false =>
          cases hw : s.words.contains h.name with
          | true => exact ⟨_, .isWord rfl hp hr hv hw⟩
          | false => exact ⟨_, .defined rfl hp hr hv hw⟩

/-- A colon meets with exactly one outcome: a step is what the outcome says, whatever inner sequences would do.
If that is a definition, its word is the last one of the dictionary, nothing else has changed but the journal,
and evaluation goes on behind the semicolon. -/
theorem step_eq_iff_outcome {tokens : List String} {i : Nat} {token : String} {loop : Option Int}
    (ht : tokens[i]? = some token) (hs : s.words.sense token = .primitive (.lookahead .colon))
    (nested : Nested Empty) :
    (∀ r, step nested ⟨tokens, i, loop⟩ token (tokens.drop (i + 1)) s = r ↔
      Outcome s (tokens.drop (i + 1)) r) ∧
    (∀ r r', Outcome s (tokens.drop (i + 1)) r → Outcome s (tokens.drop (i + 1)) r' → r = r') ∧
    ∀ move t, step nested ⟨tokens, i, loop⟩ token (tokens.drop (i + 1)) s = .ok move t →
      ∃ inside after h, tokens.drop (i + 1) = inside ++ ";" :: after ∧ Plain inside ∧ Reads inside h ∧
        s.vars.contains h.name = false ∧ s.words.contains h.name = false ∧ t = defining s h ∧
        tokens[i + 1 + inside.length]? = some ";" ∧
        resume nested loop tokens i s = resume nested loop tokens (i + 1 + inside.length + 1) (defining s h) := by
  have hstep {r : EStateM.Result Break (Scope Empty) (Move Empty)}
      (hr : Outcome s (tokens.drop (i + 1)) r) :
      step nested ⟨tokens, i, loop⟩ token (tokens.drop (i + 1)) s = r := hr.step_eq hs
  have houtcome : Outcome s (tokens.drop (i + 1))
      (step nested ⟨tokens, i, loop⟩ token (tokens.drop (i + 1)) s) := by
    obtain ⟨r, hr⟩ := exists_outcome s (tokens.drop (i + 1))
    rw [hstep hr]
    exact hr
  refine ⟨?_, ?_, ?_⟩
  · intro r
    constructor
    · intro h
      rw [← h]
      exact houtcome
    · exact hstep
  · intro r r' hr hr'
    rw [← hstep hr, hstep hr']
  · intro move t hok
    rw [hok] at houtcome
    generalize hrest : tokens.drop (i + 1) = rest at houtcome
    cases houtcome with
    | @defined inside after h hsplit hp hr hv hw =>
      refine ⟨inside, after, h, hsplit, hp, hr, hv, hw, rfl, getElem?_of_drop (hrest.trans hsplit), ?_⟩
      rw [resume_eq nested loop tokens ht, stride_of_step hok]
      rfl

/-- A square is defined, with a comment on its effect. -/
theorem step_eq_iff_outcome_square :
    let tokens := [":", "sq", "(", "n", "--", ")", "dup", "*", ";", "1"]
    let s : Scope Empty := ⟨⟨[], .zeros 0, primitiveWords, .ofText "", #[]⟩, [("v", 3)]⟩
    tokens[0]? = some ":" ∧ s.words.sense ":" = .primitive (.lookahead .colon) ∧
      step idle ⟨tokens, 0, none⟩ ":" (tokens.drop 1) s =
        .ok (.next 8) (defining s ⟨"sq", "n --", ["dup", "*"]⟩) := by
  intro tokens s
  have ht : tokens[0]? = some ":" := rfl
  have hs : s.words.sense ":" = .primitive (.lookahead .colon) := by decide
  have hnote : ")" ∉ ["n", "--"] := by decide
  have heffect : Text.strip (Text.spaced ["n", "--"]) = "n --" := by decide
  have hr : Reads ["sq", "(", "n", "--", ")", "dup", "*"] ⟨"sq", "n --", ["dup", "*"]⟩ := by
    rw [← heffect]
    exact .noted hnote
  have hsplit : tokens.drop 1 = ["sq", "(", "n", "--", ")", "dup", "*"] ++ ";" :: ["1"] := rfl
  have houtcome := Outcome.defined hsplit (by simp [Plain]) hr (show s.vars.contains "sq" = false by decide)
    (by decide)
  exact ⟨ht, hs, ((step_eq_iff_outcome ht hs idle).1 _).2 houtcome⟩

end Forth.Colon
