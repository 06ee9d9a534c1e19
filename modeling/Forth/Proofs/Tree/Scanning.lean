import Forth.Proofs.Scans
import Forth.Proofs.Tree.Syntax

/-!
# Scans through flattened trees

A scan passes over the tokens of whole items whatever their constructs are, because every construct opens
and closes its own levels. So the closing token that a word finds is the one that its construct ends with.
-/
namespace Forth

/-- What a scan says when some tokens are put before those that it read. -/
def scannedAfter (passed : List String) :
    Except ScanError (List String × String) → Except ScanError (List String × String)
  | .ok (inner, last) => .ok (passed ++ inner, last)
  | .error e => .error { e with passed := e.passed + passed.length }

/-- Scans that have at least `k` levels open pass over the tokens, and have as many open behind them. -/
def Fence.Passes (f : Fence) (k : Nat) (tokens : List String) : Prop :=
  ∀ depth rest, k ≤ depth →
    f.scan depth (tokens ++ rest) = scannedAfter tokens (f.scan depth rest)

theorem scannedAfter_append (xs ys : List String) (r : Except ScanError (List String × String)) :
    scannedAfter (xs ++ ys) r = scannedAfter xs (scannedAfter ys r) := by
  cases r with
  | ok r => simp [scannedAfter]
  | error e =>
    have h : e.passed + (xs ++ ys).length = e.passed + ys.length + xs.length := by
      rw [List.length_append]
      omega
    simp only [scannedAfter, h]

namespace Fence

variable {f : Fence} {k : Nat} {token : String} {xs ys : List String}

theorem scan_cons {depth : Nat} (hb : f.bars token = none) (he : f.ends depth token = false)
    (rest : List String) :
    f.scan depth (token :: rest) = scannedAfter [token] (f.scan (f.depthAfter depth token) rest) := by
  rw [scan, hb]
  simp only [he, Bool.false_eq_true, if_false]
  cases f.scan (f.depthAfter depth token) rest with
  | ok r => rfl
  | error e => rfl

theorem Passes.nil : f.Passes k [] := by
  intro depth rest _
  cases h : f.scan depth rest with
  | ok r => simp [h, scannedAfter]
  | error e => simp [h, scannedAfter]

theorem Passes.append (hx : f.Passes k xs) (hy : f.Passes k ys) : f.Passes k (xs ++ ys) := by
  intro depth rest hd
  rw [List.append_assoc, hx depth _ hd, hy depth _ hd, scannedAfter_append]

theorem Passes.mono {l : Nat} (h : f.Passes k xs) (hk : k ≤ l) : f.Passes l xs :=
  fun depth rest hd => h depth rest (Nat.le_trans hk hd)

structure Inert (f : Fence) (token : String) : Prop where
  bars : f.bars token = none
  closer : token ≠ f.closer
  opener : some token ≠ f.opener
  divider : some token ≠ f.divider

instance (f : Fence) (token : String) : Decidable (f.Inert token) :=
  decidable_of_iff (f.bars token = none ∧ token ≠ f.closer ∧ some token ≠ f.opener ∧
      some token ≠ f.divider)
    ⟨fun ⟨hb, hc, ho, hd⟩ => ⟨hb, hc, ho, hd⟩, fun ⟨hb, hc, ho, hd⟩ => ⟨hb, hc, ho, hd⟩⟩

theorem Inert.passes (h : f.Inert token) : f.Passes k [token] := by
  intro depth rest _
  have he : f.ends depth token = false := by simp [ends, h.closer, h.divider]
  have hd : f.depthAfter depth token = depth := by simp [depthAfter, h.closer, h.opener]
  rw [List.singleton_append, scan_cons h.bars he, hd]

theorem Passes.cons (h : f.Inert token) (hx : f.Passes k xs) : f.Passes k (token :: xs) :=
  h.passes.append hx

theorem passes_of_inert (h : ∀ token ∈ xs, f.Inert token) : f.Passes k xs := by
  induction xs with
  | nil => exact .nil
  | cons token xs ih =>
    exact .cons (h token (by simp)) (ih fun other ho => h other (by simp [ho]))

/-- Inside a level of its own a divider is a token like others. -/
theorem passes_divider (hb : f.bars token = none) (hc : token ≠ f.closer)
    (ho : some token ≠ f.opener) : f.Passes 1 [token] := by
  intro depth rest hd
  have hz : depth ≠ 0 := by omega
  have he : f.ends depth token = false := by simp [ends, hz]
  have hd : f.depthAfter depth token = depth := by simp [depthAfter, hc, ho]
  rw [List.singleton_append, scan_cons hb he, hd]

/-- A construct of the fence's own kind passes if its inside does one level further in. -/
theorem Passes.group {opener : String} (ho : f.opener = some opener) (hne : opener ≠ f.closer)
    (hdiv : f.divider ≠ some opener) (hb : f.bars opener = none)
    (hbc : f.bars f.closer = none) (hx : f.Passes 1 xs) :
    f.Passes 0 (opener :: (xs ++ [f.closer])) := by
  intro depth rest _
  have he : f.ends depth opener = false := by
    have hdiv' : some opener ≠ f.divider := fun h => hdiv h.symm
    simp [ends, hne, hdiv']
  have hopen : f.depthAfter depth opener = depth + 1 := by simp [depthAfter, hne, ho]
  have hec : f.ends (depth + 1) f.closer = false := by simp [ends]
  have hclose : f.depthAfter (depth + 1) f.closer = depth := by simp [depthAfter]
  have hinner : f.scan (depth + 1) (xs ++ f.closer :: rest) =
      scannedAfter (xs ++ [f.closer]) (f.scan depth rest) := by
    rw [hx (depth + 1) _ (by omega), scan_cons hbc hec, hclose, scannedAfter_append]
  rw [List.cons_append, List.append_assoc, List.singleton_append, scan_cons hb he, hopen, hinner,
    ← scannedAfter_append]
  rfl

/-- A scan ends behind tokens that it passes over. -/
theorem Passes.scan_eq (h : f.Passes 0 xs) (hb : f.bars token = none)
    (he : f.ends 0 token = true) (rest : List String) :
    f.scan 0 (xs ++ token :: rest) = .ok (xs, token) := by
  have hlast : f.scan 0 (token :: rest) = .ok ([], token) := by simp [scan, hb, he]
  rw [h 0 _ (Nat.le_refl 0), hlast, scannedAfter, List.append_nil]

inductive Structural : Fence → Prop
  | definition : Structural .definition
  | loop : Structural .loop
  | consequent : Structural .consequent
  | alternative : Structural .alternative

theorem Structural.inert (hf : f.Structural) (h : token ∉ Tree.structuralTokens) :
    f.Inert token := by
  simp only [Tree.structuralTokens, List.mem_cons, List.not_mem_nil, or_false, not_or] at h
  obtain ⟨hcolon, hsemicolon, hif, helse, hthen, hdo, hloop⟩ := h
  have hb : f.bars token = none := by simp [bars, hcolon]
  cases hf with
  | definition => exact ⟨hb, hsemicolon, by simp [Fence.definition], by simp [Fence.definition]⟩
  | loop => exact ⟨hb, hloop, by simp [Fence.loop, hdo], by simp [Fence.loop]⟩
  | consequent =>
    exact ⟨hb, hthen, by simp [Fence.consequent, hif], by simp [Fence.consequent, helse]⟩
  | alternative =>
    exact ⟨hb, hthen, by simp [Fence.alternative, hif], by simp [Fence.alternative]⟩

/-- Tokens between two others that mean nothing to the fence. -/
theorem Passes.between (hx : f.Passes k xs) {first last : String} (hf : f.Inert first)
    (hl : f.Inert last) : f.Passes k (first :: (xs ++ [last])) :=
  .cons hf (hx.append hl.passes)

theorem Structural.passes_loop (hf : f.Structural) (hx : f.Passes 0 xs) :
    f.Passes 0 ("do" :: (xs ++ ["loop"])) := by
  cases hf with
  | loop =>
    exact .group rfl (by decide) (by decide) (by decide) (by decide) (hx.mono (Nat.zero_le 1))
  | definition => exact hx.between (by decide) (by decide)
  | consequent => exact hx.between (by decide) (by decide)
  | alternative => exact hx.between (by decide) (by decide)

theorem Structural.passes_ifThen (hf : f.Structural) (hx : f.Passes 0 xs) :
    f.Passes 0 ("if" :: (xs ++ ["then"])) := by
  have hin : f.Passes 1 xs := hx.mono (Nat.zero_le 1)
  cases hf with
  | consequent => exact .group rfl (by decide) (by decide) (by decide) (by decide) hin
  | alternative => exact .group rfl (by decide) (by decide) (by decide) (by decide) hin
  | definition => exact hx.between (by decide) (by decide)
  | loop => exact hx.between (by decide) (by decide)

theorem Structural.passes_ifElse (hf : f.Structural) (hx : f.Passes 0 xs) (hy : f.Passes 0 ys) :
    f.Passes 0 ("if" :: (xs ++ "else" :: (ys ++ ["then"]))) := by
  have happ : xs ++ "else" :: (ys ++ ["then"]) = (xs ++ "else" :: ys) ++ ["then"] := by simp
  have hx' : f.Passes 1 xs := hx.mono (Nat.zero_le 1)
  have hy' : f.Passes 1 ys := hy.mono (Nat.zero_le 1)
  rw [happ]
  cases hf with
  | consequent =>
    have helse : Fence.consequent.Passes 1 ["else"] :=
      passes_divider (by decide) (by decide) (by decide)
    exact .group rfl (by decide) (by decide) (by decide) (by decide) (hx'.append (helse.append hy'))
  | alternative =>
    have helse : Fence.alternative.Inert "else" := by decide
    exact .group rfl (by decide) (by decide) (by decide) (by decide) (hx'.append (hy'.cons helse))
  | definition =>
    have helse : Fence.definition.Inert "else" := by decide
    exact (hx.append (hy.cons helse)).between (by decide) (by decide)
  | loop =>
    have helse : Fence.loop.Inert "else" := by decide
    exact (hx.append (hy.cons helse)).between (by decide) (by decide)

end Fence

namespace Tree

open Fence

variable {f : Fence}

/-- The parts of a text mean nothing to the structural fences. -/
theorem Part.passes (hf : f.Structural) {closer : String} (ws : List (Part closer)) :
    f.Passes 0 (Part.tokens ws) := by
  refine passes_of_inert fun token ht => ?_
  obtain ⟨w, -, rfl⟩ := List.mem_map.1 ht
  exact hf.inert w.inert

/-- A word and the name after it. -/
theorem Identifier.passes (hf : f.Structural) (x : Identifier) {token : String}
    (ht : token ∉ structuralTokens) : f.Passes 0 [token, x.token] :=
  .cons (hf.inert ht) (hf.inert x.inert).passes

theorem Literal.not_structural (n : Literal) : n.token ∉ structuralTokens := by
  have h : ∀ token ∈ structuralTokens, Numeral.read token = .other := by decide
  exact fun hn => n.isNumber (h _ hn)

theorem Name.not_structural (w : Name) : w.token ∉ structuralTokens :=
  fun h => w.notReserved (List.mem_append_left _ h)

mutual

/-- Scans for the end of a construct pass over whole items. -/
theorem Item.passes (hf : f.Structural) : (x : Item) → f.Passes 0 x.flatten
  | .literal n => (hf.inert n.not_structural).passes
  | .word w => (hf.inert w.not_structural).passes
  | .comment ws =>
    (Part.passes hf ws).between (hf.inert (by decide)) (hf.inert (by decide))
  | .say ws => (Part.passes hf ws).between (hf.inert (by decide)) (hf.inert (by decide))
  | .ifThen yes => hf.passes_ifThen (passes_flattenAll hf yes)
  | .ifElse yes no => hf.passes_ifElse (passes_flattenAll hf yes) (passes_flattenAll hf no)
  | .loop body => hf.passes_loop (passes_flattenAll hf body)
  | .declare x => x.passes hf (by decide)
  | .recall x => x.passes hf (by decide)
  | .assign x => x.passes hf (by decide)

theorem passes_flattenAll (hf : f.Structural) : (xs : List Item) → f.Passes 0 (flattenAll xs)
  | [] => .nil
  | x :: xs => (x.passes hf).append (passes_flattenAll hf xs)

end

/-! ### The ends of constructs -/

/-- A text ends where its closing token stands. -/
theorem Part.scan_eq (hb : ∀ token, f.bars token = none) (ho : f.opener = none)
    (hd : f.divider = none) (ws : List (Part f.closer)) (rest : List String) :
    f.scan 0 (Part.tokens ws ++ f.closer :: rest) = .ok (Part.tokens ws, f.closer) := by
  have hp : f.Passes 0 (Part.tokens ws) := by
    refine passes_of_inert fun token ht => ?_
    obtain ⟨w, -, rfl⟩ := List.mem_map.1 ht
    exact ⟨hb _, w.notCloser, by simp [ho], by simp [hd]⟩
  exact hp.scan_eq (hb _) (by simp [ends]) rest

theorem scan_comment (ws : List (Part ")")) (rest : List String) :
    Fence.comment.scan 0 (Part.tokens ws ++ ")" :: rest) = .ok (Part.tokens ws, ")") :=
  Part.scan_eq (f := .comment) (fun token => by simp [bars, Fence.comment]) rfl rfl ws rest

theorem scan_text (ws : List (Part "\"")) (rest : List String) :
    Fence.text.scan 0 (Part.tokens ws ++ "\"" :: rest) = .ok (Part.tokens ws, "\"") :=
  Part.scan_eq (f := .text) (fun token => by simp [bars, Fence.text]) rfl rfl ws rest

theorem scan_loop (body : List Item) (rest : List String) :
    Fence.loop.scan 0 (flattenAll body ++ "loop" :: rest) = .ok (flattenAll body, "loop") :=
  (passes_flattenAll .loop body).scan_eq (by decide) (by decide) rest

theorem scan_ifThen (yes : List Item) (rest : List String) :
    Branches.scan (flattenAll yes ++ "then" :: rest) = .ok ⟨flattenAll yes, none⟩ := by
  have h : Fence.consequent.scan 0 (flattenAll yes ++ "then" :: rest) =
      .ok (flattenAll yes, "then") :=
    (passes_flattenAll .consequent yes).scan_eq (by decide) (by decide) rest
  simp only [Branches.scan, h]
  rfl

theorem scan_ifElse (yes no : List Item) (rest : List String) :
    Branches.scan (flattenAll yes ++ "else" :: (flattenAll no ++ "then" :: rest)) =
      .ok ⟨flattenAll yes, some (flattenAll no)⟩ := by
  have hyes : Fence.consequent.scan 0
      (flattenAll yes ++ "else" :: (flattenAll no ++ "then" :: rest)) =
        .ok (flattenAll yes, "else") :=
    (passes_flattenAll .consequent yes).scan_eq (by decide) (by decide) _
  have hno : Fence.alternative.scan 0 (flattenAll no ++ "then" :: rest) =
      .ok (flattenAll no, "then") :=
    (passes_flattenAll .alternative no).scan_eq (by decide) (by decide) rest
  have hdrop : (flattenAll yes ++ "else" :: (flattenAll no ++ "then" :: rest)).drop
      ((flattenAll yes).length + 1) = flattenAll no ++ "then" :: rest := by
    rw [← List.drop_drop, List.drop_left]
    rfl
  have hlast : "else" ≠ Fence.consequent.closer := by decide
  simp only [Branches.scan, hyes, hlast, if_false, hdrop, hno]

def Definition.inside (d : Definition) : List String :=
  d.name :: (d.effectTokens ++ flattenAll d.body)

theorem scan_definition (d : Definition) (rest : List String) :
    Fence.definition.scan 0 (d.inside ++ ";" :: rest) = .ok (d.inside, ";") := by
  have hname : Fence.definition.Inert d.name :=
    ⟨by simp [bars, d.notColon], d.notSemicolon, by simp [Fence.definition],
      by simp [Fence.definition]⟩
  have heffect : Fence.definition.Passes 0 d.effectTokens := by
    unfold Definition.effectTokens
    cases d.effect with
    | none => exact .nil
    | some ws => exact (Part.passes .definition ws).between (by decide) (by decide)
  exact ((heffect.append (passes_flattenAll .definition d.body)).cons hname).scan_eq
    (by decide) (by decide) rest

/-- Only a comment starts with an opening bracket. -/
theorem flattenAll_ne_bracket {items : List Item}
    (h : ∀ ws rest, items ≠ .comment ws :: rest) (rest : List String) :
    flattenAll items ≠ "(" :: rest := by
  cases items with
  | nil => simp [flattenAll]
  | cons x xs =>
    intro he
    cases x with
    | comment ws => exact h ws xs rfl
    | literal n =>
      have hn : n.token = "(" := (List.cons.inj he).1
      exact n.isNumber (by rw [hn]; decide)
    | word w =>
      have hw : w.token = "(" := (List.cons.inj he).1
      exact w.notReserved (by rw [hw]; decide)
    | _ => exact absurd (List.cons.inj he).1 (by decide)

/-- The heading of a definition is read back from its tokens. -/
theorem ofTokens_inside (d : Definition) :
    Heading.ofTokens d.inside = .ok ⟨d.name, d.effectText, flattenAll d.body⟩ := by
  unfold Definition.inside Definition.effectTokens Definition.effectText
  cases he : d.effect with
  | some ws =>
    have hscan := scan_comment ws (flattenAll d.body)
    have hdrop : (Part.tokens ws ++ ")" :: flattenAll d.body).drop ((Part.tokens ws).length + 1) =
        flattenAll d.body := by
      rw [← List.drop_drop, List.drop_left]
      rfl
    simp only [List.cons_append, List.append_assoc, List.nil_append, Heading.ofTokens, hscan, hdrop]
  | none =>
    have hb := flattenAll_ne_bracket (d.opens he)
    simp only [List.nil_append]
    unfold Heading.ofTokens
    split
    · next h => cases h
    · next name rest h => exact absurd (List.cons.inj h).2 (hb rest)
    · next name body h =>
      cases h
      rfl

end Tree
end Forth
