import Forth.Proofs.Objections

/-!
# How far a word looks

A plan depends on the following tokens only up to the end of the word's own construct: more tokens change
it only if they ended too early (`plan_append`). There are few things that the work of a lookahead word
can come to (`Lookahead.plan_outcome`), and what it has evaluated are tokens that follow (`plan_inner_mem`).
-/
namespace Forth

open Machine

/-- The classes of failures that more tokens may avert: a construct or an identifier was cut off. -/
def Cause.CutOff (c : Cause) : Prop :=
  Kind.unterminatedConstruct ∈ c.kind.lineage ∨ c.kind = .missingIdentifier

instance (c : Cause) : Decidable c.CutOff := inferInstanceAs (Decidable (_ ∨ _))

variable {loop : Option Int} {rest : List String}

namespace Lookahead

theorem plan_append (w : Lookahead) (more : List String) (s : Scope Empty) :
    w.plan loop (rest ++ more) s = w.plan loop rest s ∨
      ∃ c k, c.CutOff ∧ w.plan loop rest s = .error ⟨.failed ⟨c, []⟩, k⟩ s := by
  cases w with
  | comment =>
    simp only [plan_comment]
    rcases Fence.scan_append .comment 0 rest more with h | h
    · exact .inl (by rw [h])
    · exact .inr ⟨.unterminatedComment, _, by decide, by rw [h]; rfl⟩
  | say =>
    simp only [plan_say]
    rcases Fence.scan_append .text 0 rest more with h | h
    · exact .inl (by rw [h])
    · exact .inr ⟨.unterminatedString, _, by decide, by rw [h]; rfl⟩
  | colon =>
    simp only [plan_colon]
    rcases Fence.scan_append .definition 0 rest more with h | h
    · exact .inl (by rw [h])
    · exact .inr ⟨.unterminatedDefinition, _, by decide, by rw [h]; rfl⟩
  | loop =>
    simp only [plan_loop]
    rcases Fence.scan_append .loop 0 rest more with h | h
    · exact .inl (by rw [h])
    · exact .inr ⟨.unterminatedLoop, _, by decide, by rw [h]; rfl⟩
  | choose =>
    simp only [plan_choose]
    rcases Branches.scan_append rest more with h | ⟨c, hc, h⟩
    · exact .inl (by rw [h])
    · have hcut : c.CutOff := by rcases hc with rfl | rfl <;> decide
      exact .inr ⟨c, _, hcut, by rw [h]⟩
  | declare =>
    simp only [plan_declare]
    cases rest with
    | nil => exact .inr ⟨.missingIdentifier, 1, by decide, rfl⟩
    | cons name rest => exact .inl rfl
  | «recall» =>
    simp only [plan_recall]
    cases rest with
    | nil => exact .inr ⟨.missingIdentifier, 1, by decide, rfl⟩
    | cons name rest => exact .inl rfl
  | assign =>
    simp only [plan_assign]
    cases rest with
    | nil => exact .inr ⟨.missingIdentifier, 1, by decide, rfl⟩
    | cons name rest => exact .inl rfl

end Lookahead

/-- More tokens after a word's construct change nothing; only a construct or identifier that was cut off
may fare better. -/
theorem plan_append (loop : Option Int) (token : String) (rest more : List String)
    (s : Scope Empty) :
    plan loop token (rest ++ more) s = plan loop token rest s ∨
      ∃ c k, c.CutOff ∧ plan loop token rest s = .error ⟨.failed ⟨c, []⟩, k⟩ s := by
  unfold plan
  cases s.words.sense token with
  | primitive p =>
    cases p with
    | lookahead w => exact w.plan_append more s
    | _ => exact .inl rfl
  | _ => exact .inl rfl

/-! ### What lookahead words come to -/

theorem Fence.length_of_scan {f : Fence} {depth : Nat} {inner : List String} {last : String}
    (h : f.scan depth rest = .ok (inner, last)) : inner.length + 1 ≤ rest.length := by
  obtain ⟨after, rfl⟩ := f.scan_eq_append h
  simp only [List.length_append, List.length_cons]
  omega

theorem Fence.mem_of_scan {f : Fence} {depth : Nat} {inner : List String} {last : String}
    (h : f.scan depth rest = .ok (inner, last)) : ∀ token ∈ inner, token ∈ rest := by
  obtain ⟨after, rfl⟩ := f.scan_eq_append h
  exact fun token ht => List.mem_append_left _ ht

/-- Branches are made of the tokens that follow. -/
theorem Branches.mem_of_scan {b : Branches} (h : Branches.scan rest = .ok b) (c : Bool) :
    ∀ token ∈ b.pick c, token ∈ rest := by
  unfold Branches.scan at h
  split at h
  · cases h
  · next yes last hy =>
    have hyes := Fence.mem_of_scan hy
    split at h
    · cases h
      cases c with
      | true => exact hyes
      | false => simp [pick]
    · split at h <;> cases h
      next no last' hn =>
        have hno := Fence.mem_of_scan hn
        cases c with
        | true => exact hyes
        | false => exact fun token ht => List.mem_of_mem_drop (hno token ht)

theorem Branches.width_le_of_scan {b : Branches} (h : Branches.scan rest = .ok b) :
    b.width ≤ rest.length := by
  obtain ⟨inner, after, rfl, hw, -⟩ := Branches.of_scan h
  simp only [hw, List.length_append, List.length_cons]
  omega

/-- A definition whose name and body hold neither of the tokens that a definition stands between. -/
def Word.Plain (w : Word Empty) : Prop :=
  ∃ body, w.code = .definition body ∧ ∀ token ∈ w.name :: body, token ≠ ":" ∧ token ≠ ";"

/-- Name and body are taken from what stands between the colon and its semicolon. -/
theorem Heading.mem_of_ofTokens {inner : List String} {h : Heading}
    (hh : Heading.ofTokens inner = .ok h) : ∀ token ∈ h.name :: h.body, token ∈ inner := by
  intro token ht
  unfold Heading.ofTokens at hh
  split at hh
  · cases hh
  · split at hh <;> cases hh
    rcases List.mem_cons.1 ht with rfl | ht
    · simp
    · simp [List.mem_of_mem_drop ht]
  · cases hh
    exact ht

/-- The word that a colon adds is plain. -/
theorem Heading.plain {inner : List String} {last : String} {h : Heading}
    (hs : Fence.definition.scan 0 rest = .ok (inner, last)) (hh : Heading.ofTokens inner = .ok h) :
    Word.Plain ⟨h.name, h.effect, .definition h.body⟩ := by
  refine ⟨h.body, rfl, fun token ht => ?_⟩
  have hmem := Heading.mem_of_ofTokens hh token ht
  have hcolon := (Fence.not_mem_of_scan (f := .definition) rfl hs).1
  have hsemicolon := Fence.closer_not_mem_of_scan (f := .definition) rfl hs
  constructor
  · rintro rfl
    exact hcolon hmem
  · rintro rfl
    exact hsemicolon hmem

/-- What the own work of a lookahead word can come to. A failure leaves the state as it was, unless it is
the console that fails; then the word had nothing to do but write. -/
inductive Lookahead.Outcome (w : Lookahead) (rest : List String) (s : Scope Empty) :
    EStateM.Result Break (Scope Empty) Plan → Prop
  | failed {c : Cause} {k : Int} : c.kind ≠ .returnStackOverflow →
      Outcome w rest s (.error ⟨.failed ⟨c, []⟩, k⟩ s)
  | refused {line : String} {t : Trouble} {m : Machine Empty} {k : Int} :
      Uttered (line ++ "\n") → writeLine line s.toMachine = .error t m →
      Outcome w rest s (.error (.ofTrouble k t) ⟨m, s.vars⟩)
  | written {line : String} {m : Machine Empty} {p : Plan} :
      Uttered (line ++ "\n") → writeLine line s.toMachine = .ok () m → p.width ≤ rest.length →
      Outcome w rest s (.ok p ⟨m, s.vars⟩)
  | changed {stack : Stack} {p : Plan} : p.width ≤ rest.length →
      Outcome w rest s (.ok p ⟨{ s.toMachine with stack }, s.vars⟩)
  | declared {name : String} {n : Int} {below : Stack} {p : Plan} :
      w = .declare → rest.head? = some name → s.words.contains name = false → s.stack = n :: below →
      p.width ≤ rest.length →
      Outcome w rest s
        (.ok p ⟨{ s.toMachine with stack := below }.note (.declared name n), s.vars.set name n⟩)
  | assigned {name : String} {n : Int} {below : Stack} {p : Plan} :
      w = .assign → rest.head? = some name → s.words.contains name = false → s.stack = n :: below →
      p.width ≤ rest.length →
      Outcome w rest s (.ok p ⟨{ s.toMachine with stack := below }, s.vars.set name n⟩)
  | defined {word : Word Empty} {words : Dictionary Empty} {e : Event} {p : Plan} :
      w = .colon → word.Plain → s.vars.contains word.name = false → s.words.add word = .ok words →
      p.width ≤ rest.length → Outcome w rest s (.ok p ⟨{ s.toMachine with words }.note e, s.vars⟩)

theorem Lookahead.Stumbles.outcome {w : Lookahead} {s : Scope Empty} {b : Break} (h : w.Stumbles rest s b) :
    w.Outcome rest s (.error b s) := by
  cases h with
  | scan he => exact .failed (he.kind.ne (by decide))
  | nameless hw hr => exact .failed (by simp)
  | behind hspans hobjects hlandmark => exact .failed hobjects.kind_ne
  | mute hw hline hwrite => exact .refused hline hwrite

theorem Lookahead.outcome_of_ok {w : Lookahead} {s t : Scope Empty} {p : Plan}
    (h : w.plan loop rest s = .ok p t) : w.Outcome rest s (.ok p t) := by
  cases w with
  | comment =>
    rw [plan_comment] at h
    split at h <;> cases h
    next hs => exact .changed (Fence.length_of_scan hs)
  | say =>
    rw [plan_say] at h
    split at h
    · cases h
    · next inside last hs =>
      split at h <;> cases h
      next hw => exact .written (.said inside) hw (Fence.length_of_scan hs)
  | colon =>
    rw [plan_colon] at h
    split at h
    · cases h
    · next inside last hs =>
      split at h
      · cases h
      · next head hh =>
        split at h
        · cases h
        · next hv =>
          split at h <;> cases h
          next ha =>
            exact .defined rfl (Heading.plain hs hh) (by simpa using hv) ha (Fence.length_of_scan hs)
  | choose =>
    rw [plan_choose] at h
    split at h
    · cases h
    · next b hb =>
      split at h <;> cases h
      exact .changed (Branches.width_le_of_scan hb)
  | loop =>
    rw [plan_loop] at h
    split at h
    · cases h
    · next body last hb =>
      split at h <;> cases h
      exact .changed (Fence.length_of_scan hb)
  | declare =>
    rw [plan_declare] at h
    split at h
    · cases h
    · split at h
      · cases h
      · next hw =>
        split at h
        · cases h
        · split at h <;> cases h
          next hstack => exact .declared rfl rfl (by simpa using hw) hstack (by simp)
  | «recall» =>
    rw [plan_recall] at h
    split at h
    · cases h
    · split at h
      · cases h
      · split at h <;> cases h
        exact .changed (by simp)
  | assign =>
    rw [plan_assign] at h
    split at h
    · cases h
    · split at h
      · cases h
      · next hw =>
        split at h
        · cases h
        · split at h <;> cases h
          next hstack => exact .assigned rfl rfl (by simpa using hw) hstack (by simp)

theorem Lookahead.plan_outcome (w : Lookahead) (s : Scope Empty) :
    w.Outcome rest s (w.plan loop rest s) := by
  cases h : w.plan loop rest s with
  | error b t =>
    obtain ⟨rfl, hstumbles⟩ := plan_stumbles h
    exact hstumbles.outcome
  | ok p t => exact outcome_of_ok h

theorem Lookahead.plan_width_le (w : Lookahead) {s s' : Scope Empty} {p : Plan}
    (h : w.plan loop rest s = .ok p s') : p.width ≤ rest.length := by
  have ho : w.Outcome rest s (w.plan loop rest s) := w.plan_outcome s
  rw [h] at ho
  cases ho <;> assumption

/-- A token takes no more tokens than there are. -/
theorem plan_width_le {token : String} {s s' : Scope Empty} {p : Plan}
    (h : plan loop token rest s = .ok p s') : p.width ≤ rest.length := by
  unfold plan at h
  cases hs : s.words.sense token with
  | primitive q =>
    rw [hs] at h
    cases q with
    | lookahead w => exact w.plan_width_le h
    | simple w =>
      simp only [Sense.plan, Primitive.plan_simple] at h
      split at h <;> cases h
      exact Nat.zero_le _
    | index =>
      simp only [Sense.plan, Primitive.plan_index] at h
      split at h <;> cases h
      exact Nat.zero_le _
    | bye => cases h
    | host w => exact w.elim
  | number n =>
    rw [hs] at h
    cases h
    exact Nat.zero_le _
  | definition body =>
    rw [hs] at h
    cases h
    exact Nat.zero_le _
  | longNumber => rw [hs] at h; cases h
  | unknown => rw [hs] at h; cases h

/-! ### Inner sequences -/

variable {s s' : Scope Empty}

theorem inner_eq_nil_of_idle (a : Step Empty Nat) {p : Plan}
    (h : (do pure ⟨← a, []⟩ : Step Empty Plan) s = .ok p s') : p.inner = [] := by
  simp only [bind, EStateM.bind] at h
  split at h <;> cases h
  rfl

/-- Branches and bodies of loops are made of the tokens that follow. -/
theorem Lookahead.inner_mem {w : Lookahead} {p : Plan} (h : w.plan loop rest s = .ok p s') :
    ∀ x ∈ p.inner, ∀ token ∈ x.tokens, token ∈ rest := by
  have idle {a : Step Empty Nat} (h : (do pure ⟨← a, []⟩ : Step Empty Plan) s = .ok p s') :
      ∀ x ∈ p.inner, ∀ token ∈ x.tokens, token ∈ rest := by
    rw [inner_eq_nil_of_idle a h]
    simp
  cases w with
  | choose =>
    rw [plan_choose] at h
    split at h
    · cases h
    · next b hb =>
      split at h <;> cases h
      simpa using Branches.mem_of_scan hb _
  | loop =>
    rw [plan_loop] at h
    split at h
    · cases h
    · next body last hb =>
      split at h <;> cases h
      intro x hx
      obtain ⟨k, -, rfl⟩ := List.mem_map.1 hx
      exact Fence.mem_of_scan hb
  | comment => exact idle h
  | colon => exact idle h
  | say => exact idle h
  | declare => exact idle h
  | «recall» => exact idle h
  | assign => exact idle h

/-- What a token has evaluated are tokens that follow it, or the body that it stands for. -/
theorem plan_inner_mem {loop : Option Int} {token : String} {p : Plan}
    (h : plan loop token rest s = .ok p s') :
    ∀ x ∈ p.inner, (∀ t ∈ x.tokens, t ∈ rest) ∨ s.words.sense token = .definition x.tokens := by
  unfold plan at h
  cases hs : s.words.sense token with
  | number n =>
    rw [hs] at h
    cases h
    simp
  | longNumber =>
    rw [hs] at h
    cases h
  | unknown =>
    rw [hs] at h
    cases h
  | definition body =>
    rw [hs] at h
    cases h
    simp
  | primitive q =>
    rw [hs] at h
    cases q with
    | lookahead w => exact fun x hx => .inl (w.inner_mem h x hx)
    | simple w =>
      simp only [Sense.plan, Primitive.plan_simple] at h
      split at h <;> cases h
      simp
    | index =>
      simp only [Sense.plan, Primitive.plan_index] at h
      split at h <;> cases h
      simp
    | bye => cases h
    | host w => exact w.elim

end Forth
