import Forth.Proofs.Fences

/-!
# Texts and comments inside other constructs

The words that look for the end of a branch, a loop or a definition take the tokens as they stand, those of a
text or a comment too. A text with the word `then` in it can end a branch (`Slot.text_ends_branch`). So what
is put into a text or a comment is passed over by the construct around it exactly if it would be passed over
outside of them: it holds no colon, and closes as many levels of that construct as it opens, none of them more
than are open at that place (`Slot.takes_filled_iff`).
-/
namespace Forth

namespace Fence

variable {f : Fence} {depth k : Nat} {token last : String} {xs : List String}

/-- Tokens that leave as many levels open had as many open before them. -/
theorem levels?_inj {d d' : Nat} (h : f.levels? d xs = some k) (h' : f.levels? d' xs = some k) :
    d = d' := by
  induction xs generalizing d d' with
  | nil =>
    cases h
    cases h'
    rfl
  | cons token xs ih =>
    obtain ⟨-, he, hx⟩ := levels?_cons_iff.1 h
    obtain ⟨-, he', hx'⟩ := levels?_cons_iff.1 h'
    have hdepth := ih hx hx'
    have hpos {e : Nat} (he : f.ends e token = false) (hc : token = f.closer) : e ≠ 0 := by
      rintro rfl
      simp [ends, hc] at he
    unfold depthAfter at hdepth
    split at hdepth
    · next hc =>
      have := hpos he hc
      have := hpos he' hc
      omega
    · split at hdepth
      · omega
      · exact hdepth

/-- Tokens that are put into a construct stay inside it exactly if they leave as many levels open as there are
at their place. -/
theorem scan_insert_iff {left right ws after : List String}
    (h : f.scan 0 (left ++ right ++ last :: after) = .ok (left ++ right, last)) :
    ∃ d, f.levels? 0 left = some d ∧
      (f.scan 0 (left ++ ws ++ right ++ last :: after) = .ok (left ++ ws ++ right, last) ↔
        f.levels? d ws = some d) := by
  obtain ⟨hinside, hlast⟩ := (scan_eq_ok_iff after).1 h
  obtain ⟨d, hleft, hright⟩ := levels?_append_iff.1 hinside
  refine ⟨d, hleft, ?_⟩
  rw [scan_eq_ok_iff after, levels?_append_iff]
  constructor
  · rintro ⟨⟨e, hboth, hright'⟩, -⟩
    obtain ⟨d', hleft', hws⟩ := levels?_append_iff.1 hboth
    obtain rfl : d = d' := Option.some.inj (hleft.symm.trans hleft')
    rw [← levels?_inj hright hright'] at hws
    exact hws
  · intro hws
    exact ⟨⟨d, levels?_append_iff.2 ⟨d, hleft, hws⟩, hright⟩, hlast⟩

end Fence

/-- What stands before the body stays the same for a body that begins alike. -/
theorem Heading.ofTokens_append {front body body' : List String} {name effect : String}
    (h : ofTokens (front ++ body) = .ok ⟨name, effect, body⟩) (hhead : body'.head? = body.head?) :
    ofTokens (front ++ body') = .ok ⟨name, effect, body'⟩ := by
  rw [ofTokens_eq_ok_iff] at h ⊢
  obtain ⟨hfront, heffect, hparen⟩ | ⟨words, hfront, hw, heffect⟩ := h
  · obtain rfl : front = [name] := List.append_cancel_right hfront
    exact .inl ⟨rfl, heffect, hhead ▸ hparen⟩
  · obtain rfl : front = name :: "(" :: (words ++ [")"]) :=
      List.append_cancel_right (hfront.trans (by simp))
    exact .inr ⟨words, by simp, hw, heffect⟩

/-! ### Texts and comments -/

inductive Literal where
  | text
  | comment
  deriving DecidableEq, Repr

namespace Literal

def opening : Literal → String
  | .text => ".\""
  | .comment => "("

def closing : Literal → String
  | .text => "\""
  | .comment => ")"

def filled (l : Literal) (ws : List String) : List String := l.opening :: (ws ++ [l.closing])

theorem opening_free (l : Literal) :
    l.opening ≠ "if" ∧ l.opening ≠ "then" ∧ l.opening ≠ "do" ∧ l.opening ≠ "loop" := by
  cases l <;> decide

end Literal

/-- A part that a construct takes from the tokens, together with the parts that stand beside it. In front of the body
of a definition stands the name, perhaps with a comment. -/
inductive Slot where
  | consequent (alternative : Option (List String))
  | alternative (consequent : List String)
  | loop
  | body (name effect : String) (front : List String)
  deriving DecidableEq, Repr

/-- No beginning of the tokens closes more levels than it opens, beyond the `depth` that are open before; and
in the end as many are open as before. -/
structure Level (opener closer : String) (depth : Nat) (tokens : List String) : Prop where
  le : ∀ n, (tokens.take n).count closer ≤ (tokens.take n).count opener + depth
  eq : tokens.count closer = tokens.count opener

namespace Slot

/-- The construct takes `part` at this place. Its closing token is the one that is written here, with `after`
behind it. -/
def Takes (part after : List String) : Slot → Prop
  | .consequent none => Branches.scan (part ++ "then" :: after) = .ok ⟨part, none⟩
  | .consequent (some no) =>
    Branches.scan (part ++ "else" :: (no ++ "then" :: after)) = .ok ⟨part, some no⟩
  | .alternative yes =>
    Branches.scan (yes ++ "else" :: (part ++ "then" :: after)) = .ok ⟨yes, some part⟩
  | .loop => Fence.loop.scan 0 (part ++ "loop" :: after) = .ok (part, "loop")
  | .body name effect front =>
    Fence.definition.scan 0 (front ++ part ++ ";" :: after) = .ok (front ++ part, ";") ∧
      Heading.ofTokens (front ++ part) = .ok ⟨name, effect, part⟩

/-- The construct pays no attention to the words `ws` behind `left`, the beginning of the part. Only its own
openers and closers count, and the colon. An `else` counts where it could end the first branch. -/
def Ignores (left ws : List String) : Slot → Prop
  | .consequent _ =>
    ":" ∉ ws ∧ Level "if" "then" (left.count "if" - left.count "then") ws ∧
      ∀ n, ws[n]? = some "else" →
        (ws.take n).count "then" < (ws.take n).count "if" + (left.count "if" - left.count "then")
  | .alternative _ => ":" ∉ ws ∧ Level "if" "then" (left.count "if" - left.count "then") ws
  | .loop => ":" ∉ ws ∧ Level "do" "loop" (left.count "do" - left.count "loop") ws
  | .body .. => ":" ∉ ws ∧ ";" ∉ ws

end Slot

variable {f : Fence} {c : Cause} {d : Nat} {opener last : String} {front left right ws after : List String}

/-- What is passed over with as many levels open behind as before. -/
theorem Fence.levels?_same_iff (hc : f.colon = some c) (ho : f.opener = some opener)
    (hne : opener ≠ f.closer) :
    f.levels? d ws = some d ↔
      ":" ∉ ws ∧ Level opener f.closer d ws ∧
        ∀ t, some t = f.divider → ∀ n, ws[n]? = some t →
          (ws.take n).count f.closer < (ws.take n).count opener + d := by
  rw [levels?_eq_some_iff ho hne, bars_eq_none_iff hc]
  constructor
  · rintro ⟨hcolon, hle, hdivider, heq⟩
    exact ⟨hcolon, ⟨hle, by omega⟩, fun t hd n ht => hdivider n t ht hd⟩
  · rintro ⟨hcolon, hlevel, hdivider⟩
    exact ⟨hcolon, hlevel.le, fun n t ht hd => hdivider t hd n ht, by rw [hlevel.eq]⟩

/-- Words in a literal are put into the construct around it. -/
theorem Literal.scan_filled_iff (l : Literal) (front ws : List String)
    (h : f.scan 0 (front ++ (left ++ l.filled [] ++ right) ++ last :: after) =
      .ok (front ++ (left ++ l.filled [] ++ right), last)) :
    ∃ d, f.levels? 0 (front ++ left ++ [l.opening]) = some d ∧
      (f.scan 0 (front ++ (left ++ l.filled ws ++ right) ++ last :: after) =
          .ok (front ++ (left ++ l.filled ws ++ right), last) ↔
        f.levels? d ws = some d) := by
  have hsplit (ws : List String) : front ++ (left ++ l.filled ws ++ right) =
      front ++ left ++ [l.opening] ++ ws ++ l.closing :: right := by
    simp [filled]
  rw [hsplit] at h
  rw [hsplit, List.append_nil] at *
  exact Fence.scan_insert_iff h

/-- The same for a construct with levels, with the levels that are open at the literal counted. -/
theorem Literal.scan_filled_level_iff (l : Literal) (hc : f.colon = some c) (ho : f.opener = some opener)
    (hne : opener ≠ f.closer) (hfree : l.opening ≠ opener ∧ l.opening ≠ f.closer)
    (h : f.scan 0 (left ++ l.filled [] ++ right ++ last :: after) =
      .ok (left ++ l.filled [] ++ right, last)) :
    f.scan 0 (left ++ l.filled ws ++ right ++ last :: after) = .ok (left ++ l.filled ws ++ right, last) ↔
      ":" ∉ ws ∧ Level opener f.closer (left.count opener - left.count f.closer) ws ∧
        ∀ t, some t = f.divider → ∀ n, ws[n]? = some t →
          (ws.take n).count f.closer <
            (ws.take n).count opener + (left.count opener - left.count f.closer) := by
  obtain ⟨d, hleft, hiff⟩ := l.scan_filled_iff [] ws h
  have hdepth : left.count f.closer + d = left.count opener := by
    have := ((Fence.levels?_eq_some_iff ho hne).1 hleft).2.2.2
    simpa [List.count_cons, hfree.1, hfree.2] using this
  obtain rfl : d = left.count opener - left.count f.closer := by omega
  exact hiff.trans (Fence.levels?_same_iff hc ho hne)

namespace Slot

/-- What is put into a text or a comment is passed over by the construct around it exactly if it would be
passed over at that place outside of them. -/
theorem takes_filled_iff (p : Slot) (l : Literal) (ws : List String)
    (h : p.Takes (left ++ l.filled [] ++ right) after) :
    p.Takes (left ++ l.filled ws ++ right) after ↔ p.Ignores left ws := by
  obtain ⟨hif, hthen, hdo, hloop⟩ := l.opening_free
  cases p with
  | consequent alternative =>
    cases alternative with
    | none =>
      simp only [Takes, Branches.scan_ifThen_iff] at h ⊢
      rw [l.scan_filled_level_iff rfl rfl (by decide) ⟨hif, hthen⟩ h]
      simp [Ignores, Fence.consequent]
    | some no =>
      simp only [Takes, Branches.scan_ifElse_iff] at h ⊢
      rw [l.scan_filled_level_iff rfl rfl (by decide) ⟨hif, hthen⟩ h.1]
      simp [Ignores, Fence.consequent, h.2]
  | alternative yes =>
    simp only [Takes, Branches.scan_ifElse_iff] at h ⊢
    rw [l.scan_filled_level_iff rfl rfl (by decide) ⟨hif, hthen⟩ h.2]
    have hyes := ((Fence.scan_eq_ok_iff _).1 h.1)
    rw [Fence.scan_eq_ok_iff]
    simp [Ignores, Fence.alternative, hyes]
  | loop =>
    simp only [Takes] at h ⊢
    rw [l.scan_filled_level_iff rfl rfl (by decide) ⟨hdo, hloop⟩ h]
    simp [Ignores, Fence.loop]
  | body name effect front =>
    obtain ⟨hscan, hheading⟩ := h
    obtain ⟨d, hd, hiff⟩ := l.scan_filled_iff front ws hscan
    obtain rfl : d = 0 := ((Fence.levels?_flat_iff rfl rfl).1 hd).1
    have hheading' : Heading.ofTokens (front ++ (left ++ l.filled ws ++ right)) =
        .ok ⟨name, effect, left ++ l.filled ws ++ right⟩ := by
      refine Heading.ofTokens_append hheading ?_
      cases left <;> rfl
    simp only [Takes, Ignores, hheading', and_true]
    rw [hiff, Fence.levels?_flat_iff rfl rfl]
    constructor
    · rintro ⟨-, hws⟩
      exact ⟨(Fence.bars_eq_none_iff rfl).1 fun t ht => (hws t ht).1, fun ht => (hws ";" ht).2 rfl⟩
    · rintro ⟨hcolon, hsemicolon⟩
      refine ⟨rfl, fun t ht => ⟨(Fence.bars_eq_none_iff rfl).2 hcolon t ht, ?_⟩⟩
      rintro rfl
      exact hsemicolon ht

/-- An `else` in a text is passed over where an inner choice is open. -/
theorem takes_text_in_inner_choice :
    (Slot.consequent none).Takes (["if"] ++ Literal.text.filled [] ++ ["then"]) [] ∧
      ((Slot.consequent none).Takes (["if"] ++ Literal.text.filled ["else"] ++ ["then"]) [] ↔
        (Slot.consequent none).Ignores ["if"] ["else"]) := by
  have h : (Slot.consequent none).Takes (["if"] ++ Literal.text.filled [] ++ ["then"]) [] := rfl
  exact ⟨h, takes_filled_iff (.consequent none) .text ["else"] h⟩

/-- A text that holds a `then` ends the branch it stands in, and a comment that holds a `loop` the loop. -/
theorem text_ends_branch :
    ((Slot.consequent none).Takes ([] ++ Literal.text.filled [] ++ ["2"]) [] ∧
      Branches.scan (Literal.text.filled ["then"] ++ ["2", "then"]) = .ok ⟨[".\""], none⟩ ∧
      ¬ (Slot.consequent none).Takes ([] ++ Literal.text.filled ["then"] ++ ["2"]) []) ∧
    (Slot.loop.Takes ([] ++ Literal.comment.filled [] ++ ["2"]) [] ∧
      Fence.loop.scan 0 (Literal.comment.filled ["loop"] ++ ["2", "loop"]) = .ok (["("], "loop") ∧
      ¬ Slot.loop.Takes ([] ++ Literal.comment.filled ["loop"] ++ ["2"]) []) := by
  have hbranch : Branches.scan (Literal.text.filled ["then"] ++ ["2", "then"]) = .ok ⟨[".\""], none⟩ := rfl
  have hloop : Fence.loop.scan 0 (Literal.comment.filled ["loop"] ++ ["2", "loop"]) = .ok (["("], "loop") :=
    rfl
  refine ⟨⟨rfl, hbranch, fun h => ?_⟩, ⟨rfl, hloop, fun h => ?_⟩⟩
  · cases hbranch.symm.trans h
  · cases hloop.symm.trans h

end Slot

end Forth
