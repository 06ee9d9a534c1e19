import Forth.Proofs.Scans

/-!
# What scans pass over

A scan passes over tokens until it comes to a colon that it does not allow, or to a mark of its own, a closer
or divider, with no inner level open. Which level a token stands on is a matter of counting: a mark ends the
construct exactly if the tokens before it are balanced (`Fence.Nests.passes_iff`). So of all tokens it can be
said beforehand what a scan makes of them (`Fence.Nests.reads`).
-/
namespace Forth

/-- One of the marks stands where the tokens before it are balanced. -/
def Marked (opener closer : String) (marks tokens : List String) : Prop :=
  ∃ n t, tokens[n]? = some t ∧ t ∈ marks ∧ Balanced opener closer (tokens.take n)

namespace Fence

/-- The tokens that end the construct when no inner level is open. -/
def marks (f : Fence) : List String := f.closer :: f.divider.toList

/-- How many levels are open behind some tokens, if a scan that has `depth` levels open passes over them. -/
def levels? (f : Fence) (depth : Nat) : List String → Option Nat
  | [] => some depth
  | token :: rest =>
    match f.bars token with
    | some _ => none
    | none => if f.ends depth token then none else f.levels? (f.depthAfter depth token) rest

variable {f : Fence} {depth k : Nat} {token opener last : String} {xs ys : List String}

theorem levels?_cons_iff :
    f.levels? depth (token :: xs) = some k ↔
      f.bars token = none ∧ f.ends depth token = false ∧
        f.levels? (f.depthAfter depth token) xs = some k := by
  simp only [levels?]
  cases f.bars token with
  | some c => simp
  | none =>
    cases f.ends depth token with
    | true => simp
    | false => simp

theorem levels?_append_iff :
    f.levels? depth (xs ++ ys) = some k ↔
      ∃ d, f.levels? depth xs = some d ∧ f.levels? d ys = some k := by
  induction xs generalizing depth with
  | nil => simp [levels?]
  | cons token xs ih =>
    simp only [List.cons_append, levels?_cons_iff, ih]
    constructor
    · rintro ⟨hb, he, d, hx, hy⟩
      exact ⟨d, ⟨hb, he, hx⟩, hy⟩
    · rintro ⟨d, ⟨hb, he, hx⟩, hy⟩
      exact ⟨hb, he, d, hx, hy⟩

/-- A scan ends at a token if it passes over those before it and no level is open then. -/
theorem scan_eq_ok_iff (after : List String) :
    f.scan depth (xs ++ last :: after) = .ok (xs, last) ↔
      f.levels? depth xs = some 0 ∧ f.bars last = none ∧ f.ends 0 last = true := by
  induction xs generalizing depth with
  | nil =>
    simp only [List.nil_append, levels?, Option.some.injEq]
    constructor
    · intro h
      obtain ⟨hb, ⟨he, -, -⟩ | ⟨-, inside, hi, -⟩⟩ := scan_cons_ok h
      · have hd : depth = 0 := by
          simp only [ends, Bool.and_eq_true, decide_eq_true_eq] at he
          exact he.1
        subst hd
        exact ⟨rfl, hb, he⟩
      · cases hi
    · rintro ⟨rfl, hb, he⟩
      simp [scan, hb, he]
  | cons token xs ih =>
    rw [levels?_cons_iff, List.cons_append]
    constructor
    · intro h
      obtain ⟨hb, ⟨-, hi, -⟩ | ⟨he, inside, hi, hr⟩⟩ := scan_cons_ok h
      · cases hi
      · cases hi
        obtain ⟨hx, hlast⟩ := ih.1 hr
        exact ⟨⟨hb, he, hx⟩, hlast⟩
    · rintro ⟨⟨hb, he, hx⟩, hlast⟩
      simp [scan, hb, he, ih.2 ⟨hx, hlast⟩]

/-- A scan goes on behind the tokens that it passes over. -/
theorem scan_behind (h : f.levels? depth xs = some k) (ys : List String) :
    f.scan depth (xs ++ ys) =
      match f.scan k ys with
      | .ok (inside, last) => .ok (xs ++ inside, last)
      | .error e => .error ⟨e.cause, xs.length + e.passed⟩ := by
  induction xs generalizing depth with
  | nil =>
    cases h
    simp only [List.nil_append, List.length_nil, Nat.zero_add]
    cases f.scan k ys <;> rfl
  | cons token xs ih =>
    obtain ⟨hb, he, hx⟩ := levels?_cons_iff.1 h
    simp only [List.cons_append, scan, hb, he, Bool.false_eq_true, if_false, ih hx]
    cases f.scan k ys with
    | ok r => rfl
    | error e =>
      simp only [List.length_cons]
      congr 2
      omega

/-- A scan that passes over all the tokens finds no end. -/
theorem scan_eq_unterminated (h : f.levels? 0 xs = some k) :
    f.scan 0 xs = .error ⟨f.unterminated, xs.length⟩ := by
  have hscan := scan_behind h []
  rw [List.append_nil] at hscan
  exact hscan

/-- A colon ends a scan that has come to it, whatever the level. -/
theorem scan_eq_colon {c : Cause} (hc : f.colon = some c) (h : f.levels? 0 xs = some k)
    (after : List String) : f.scan 0 (xs ++ ":" :: after) = .error ⟨c, xs.length⟩ := by
  rw [scan_behind h]
  simp [scan, bars, hc]

/-- Tokens are passed over to the last, or up to one that is barred or ends the construct. -/
theorem passes_or_stops (f : Fence) (depth : Nat) (xs : List String) :
    (∃ k, f.levels? depth xs = some k) ∨
      ∃ front token after k, xs = front ++ token :: after ∧ f.levels? depth front = some k ∧
        (f.bars token ≠ none ∨ f.ends k token = true) := by
  induction xs generalizing depth with
  | nil => exact .inl ⟨depth, rfl⟩
  | cons token xs ih =>
    by_cases hb : f.bars token = none
    · cases he : f.ends depth token with
      | true => exact .inr ⟨[], token, xs, depth, rfl, rfl, .inr he⟩
      | false =>
        obtain ⟨k, hk⟩ | ⟨front, t, after, k, rfl, hk, hstop⟩ := ih (f.depthAfter depth token)
        · exact .inl ⟨k, levels?_cons_iff.2 ⟨hb, he, hk⟩⟩
        · exact .inr ⟨token :: front, t, after, k, rfl, levels?_cons_iff.2 ⟨hb, he, hk⟩, hstop⟩
    · exact .inr ⟨[], token, xs, depth, rfl, rfl, .inl hb⟩

/-- A scan passes over tokens that hold none that it bars, and no closer or divider where it would end. -/
theorem levels?_eq_some_iff (ho : f.opener = some opener) (hne : opener ≠ f.closer) :
    f.levels? depth xs = some k ↔
      (∀ t ∈ xs, f.bars t = none) ∧
      (∀ n, (xs.take n).count f.closer ≤ (xs.take n).count opener + depth) ∧
      (∀ n t, xs[n]? = some t → some t = f.divider →
        (xs.take n).count f.closer < (xs.take n).count opener + depth) ∧
      xs.count f.closer + k = xs.count opener + depth := by
  induction xs generalizing depth with
  | nil =>
    simp [levels?]
    omega
  | cons token xs ih =>
    have hcount (l : List String) (x : String) :
        (token :: l).count x = l.count x + if token = x then 1 else 0 := by
      simp [List.count_cons]
    rw [levels?_cons_iff, ih]
    constructor
    · rintro ⟨hb, he, hbars, hle, hdivider, heq⟩
      have hdepth := depthAfter_add ho hne he
      refine ⟨by simpa using ⟨hb, hbars⟩, fun n => ?_, fun n t ht hd => ?_, ?_⟩
      · cases n with
        | zero => simp
        | succ n =>
          have := hle n
          rw [List.take_succ_cons, hcount, hcount]
          omega
      · cases n with
        | zero =>
          cases ht
          have hpos : depth ≠ 0 := by
            rintro rfl
            simp [ends, hd] at he
          simp only [List.take_zero, List.count_nil]
          omega
        | succ n =>
          have := hdivider n t (by simpa using ht) hd
          rw [List.take_succ_cons, hcount, hcount]
          omega
      · rw [hcount, hcount]
        omega
    · rintro ⟨hbars, hle, hdivider, heq⟩
      have he : f.ends depth token = false := by
        refine Bool.eq_false_iff.2 fun he => ?_
        simp only [ends, Bool.and_eq_true, Bool.or_eq_true, decide_eq_true_eq] at he
        obtain ⟨rfl, hc | hd⟩ := he
        · have := hle 1
          simp [hc, Ne.symm hne] at this
        · have := hdivider 0 token rfl hd
          simp at this
      have hdepth := depthAfter_add ho hne he
      refine ⟨hbars token List.mem_cons_self, he, fun t ht => hbars t (List.mem_cons_of_mem _ ht),
        fun n => ?_, fun n t ht hd => ?_, ?_⟩
      · have := hle (n + 1)
        rw [List.take_succ_cons, hcount, hcount] at this
        omega
      · have := hdivider (n + 1) t (by simpa using ht) hd
        rw [List.take_succ_cons, hcount, hcount] at this
        omega
      · rw [hcount, hcount] at heq
        omega

/-- A fence without levels and divider passes over all but its closer and what it bars. -/
theorem levels?_flat_iff (ho : f.opener = none) (hd : f.divider = none) :
    f.levels? 0 xs = some k ↔ k = 0 ∧ ∀ t ∈ xs, f.bars t = none ∧ t ≠ f.closer := by
  induction xs with
  | nil => simp [levels?, eq_comm]
  | cons token xs ih =>
    have hdepth : f.depthAfter 0 token = 0 := by simp [depthAfter, ho]
    have hends : f.ends 0 token = false ↔ token ≠ f.closer := by simp [ends, hd]
    rw [levels?_cons_iff, hdepth, ih, hends, List.forall_mem_cons]
    constructor
    · rintro ⟨hb, ht, hk, hrest⟩
      exact ⟨hk, ⟨hb, ht⟩, hrest⟩
    · rintro ⟨hk, ⟨hb, ht⟩, hrest⟩
      exact ⟨hb, ht, hk, hrest⟩

theorem bars_eq_none_iff {c : Cause} (hc : f.colon = some c) :
    (∀ t ∈ xs, f.bars t = none) ↔ ":" ∉ xs := by
  simp only [bars, hc]
  constructor
  · intro h hmem
    simpa using h ":" hmem
  · intro h t ht
    rw [if_neg]
    rintro rfl
    exact h ht

/-! ### Fences with levels -/

theorem count_take_succ {n : Nat} {t : String} (ht : xs[n]? = some t) (x : String) :
    (xs.take (n + 1)).count x = (xs.take n).count x + if t = x then 1 else 0 := by
  obtain ⟨hn, rfl⟩ := List.getElem?_eq_some_iff.1 ht
  rw [List.take_succ_eq_append_getElem hn, List.count_append, List.count_singleton]
  simp

theorem balanced_take {closer : String} {n : Nat}
    (hle : ∀ m, m ≤ n → (xs.take m).count closer ≤ (xs.take m).count opener)
    (heq : (xs.take n).count closer = (xs.take n).count opener) :
    Balanced opener closer (xs.take n) where
  le m := by
    rw [List.take_take]
    exact hle (min m n) (Nat.min_le_right m n)
  eq := heq

/-- Before a mark that does not end the construct more levels are open than closed. -/
theorem lt_of_not_marked {closer : String} {marks : List String} {n : Nat} {t : String}
    (hm : ¬ Marked opener closer marks xs) (ht : xs[n]? = some t) (hmark : t ∈ marks)
    (hle : ∀ m, m ≤ n → (xs.take m).count closer ≤ (xs.take m).count opener) :
    (xs.take n).count closer < (xs.take n).count opener := by
  refine Nat.lt_of_le_of_ne (hle n (Nat.le_refl n)) fun heq => ?_
  exact hm ⟨n, t, ht, hmark, balanced_take hle heq⟩

structure Nests (f : Fence) (opener : String) (c : Cause) : Prop where
  opens : f.opener = some opener
  refuses : f.colon = some c
  ne : opener ≠ f.closer
  plain : ":" ∉ f.marks

theorem consequent_nests : consequent.Nests "if" .definitionInIf := ⟨rfl, rfl, by decide, by decide⟩
theorem alternative_nests : alternative.Nests "if" .definitionInElse := ⟨rfl, rfl, by decide, by decide⟩
theorem loop_nests : loop.Nests "do" .definitionInLoop := ⟨rfl, rfl, by decide, by decide⟩

theorem mem_marks_iff {t : String} : t ∈ f.marks ↔ t = f.closer ∨ some t = f.divider := by
  simp [marks, eq_comm]

theorem eq_closer_of_mem_marks {t : String} (hd : f.divider = none) (h : t ∈ f.marks) : t = f.closer := by
  simpa [mem_marks_iff, hd] using h

namespace Nests

variable {c : Cause} {front after : List String} (h : f.Nests opener c)

include h

theorem bars_mark (hm : last ∈ f.marks) : f.bars last = none := by
  rw [bars, if_neg]
  intro hl
  exact h.plain (hl ▸ hm)

/-- What is passed over holds no colon, and no mark that would end the construct. -/
theorem passes_iff :
    (∃ k, f.levels? 0 xs = some k) ↔ ":" ∉ xs ∧ ¬ Marked opener f.closer f.marks xs := by
  constructor
  · intro ⟨k, hk⟩
    obtain ⟨hbars, hle, hdivider, -⟩ := (levels?_eq_some_iff h.opens h.ne).1 hk
    refine ⟨(bars_eq_none_iff h.refuses).1 hbars, ?_⟩
    intro ⟨n, t, ht, hm, hb⟩
    have heq := hb.eq
    rcases mem_marks_iff.1 hm with hc | hd
    · have hsucc := hle (n + 1)
      rw [count_take_succ ht, count_take_succ ht, if_pos hc, if_neg (hc ▸ h.ne.symm)] at hsucc
      omega
    · have hlt := hdivider n t ht hd
      omega
  · intro ⟨hcolon, hm⟩
    -- by induction: a beginning that closed too many levels would end with a mark of the construct
    have hle (n : Nat) : ∀ m, m ≤ n → (xs.take m).count f.closer ≤ (xs.take m).count opener := by
      induction n with
      | zero =>
        intro m hm
        obtain rfl : m = 0 := by omega
        simp
      | succ n ih =>
        intro m hmn
        by_cases hlast : m = n + 1
        · subst hlast
          cases ht : xs[n]? with
          | none =>
            have hlen := List.getElem?_eq_none_iff.1 ht
            have hn := ih n (Nat.le_refl n)
            rw [List.take_of_length_le hlen] at hn
            rw [List.take_of_length_le (by omega)]
            exact hn
          | some t =>
            rw [count_take_succ ht, count_take_succ ht]
            by_cases hc : t = f.closer
            · have hlt := lt_of_not_marked hm ht (mem_marks_iff.2 (.inl hc)) ih
              rw [if_pos hc]
              omega
            · have hn := ih n (Nat.le_refl n)
              rw [if_neg hc]
              omega
        · exact ih m (by omega)
    refine ⟨xs.count opener - xs.count f.closer, (levels?_eq_some_iff h.opens h.ne).2 ?_⟩
    refine ⟨(bars_eq_none_iff h.refuses).2 hcolon, fun n => hle n n (Nat.le_refl n), ?_, ?_⟩
    · intro n t ht hd
      exact lt_of_not_marked hm ht (mem_marks_iff.2 (.inr hd)) (hle n)
    · have hall := hle xs.length xs.length (Nat.le_refl _)
      rw [List.take_length] at hall
      omega

/-- What stands before the end of a construct is balanced, and holds no divider of it. -/
theorem closes_iff :
    f.levels? 0 xs = some 0 ↔
      ":" ∉ xs ∧ Balanced opener f.closer xs ∧ ¬ Marked opener f.closer f.divider.toList xs := by
  rw [levels?_eq_some_iff h.opens h.ne, bars_eq_none_iff h.refuses]
  constructor
  · intro ⟨hcolon, hle, hdivider, heq⟩
    refine ⟨hcolon, ⟨hle, heq⟩, ?_⟩
    intro ⟨n, t, ht, hd, hb⟩
    have hlt := hdivider n t ht (by simpa [eq_comm] using hd)
    have := hb.eq
    omega
  · intro ⟨hcolon, hb, hm⟩
    refine ⟨hcolon, hb.le, ?_, by rw [hb.eq]⟩
    intro n t ht hd
    exact lt_of_not_marked hm ht (by simp [← hd]) fun m _ => hb.le m

theorem scan_open (hcolon : ":" ∉ xs) (hm : ¬ Marked opener f.closer f.marks xs) :
    f.scan 0 xs = .error ⟨f.unterminated, xs.length⟩ := by
  obtain ⟨k, hk⟩ := h.passes_iff.2 ⟨hcolon, hm⟩
  exact scan_eq_unterminated hk

theorem scan_colon (hcolon : ":" ∉ front) (hm : ¬ Marked opener f.closer f.marks front)
    (after : List String) : f.scan 0 (front ++ ":" :: after) = .error ⟨c, front.length⟩ := by
  obtain ⟨k, hk⟩ := h.passes_iff.2 ⟨hcolon, hm⟩
  exact scan_eq_colon h.refuses hk after

theorem scan_closed (hcolon : ":" ∉ front) (hb : Balanced opener f.closer front)
    (hm : ¬ Marked opener f.closer f.divider.toList front) (hlast : last ∈ f.marks) (after : List String) :
    f.scan 0 (front ++ last :: after) = .ok (front, last) := by
  refine (scan_eq_ok_iff after).2 ⟨h.closes_iff.2 ⟨hcolon, hb, hm⟩, h.bars_mark hlast, ?_⟩
  simpa [ends] using mem_marks_iff.1 hlast

/-- Tokens are open to their end, or to a colon, or the construct that they begin with is complete. -/
theorem reads (xs : List String) :
    (":" ∉ xs ∧ ¬ Marked opener f.closer f.marks xs) ∨
      (∃ front after, xs = front ++ ":" :: after ∧ ":" ∉ front ∧ ¬ Marked opener f.closer f.marks front) ∨
      ∃ front last after, xs = front ++ last :: after ∧ last ∈ f.marks ∧ ":" ∉ front ∧
        Balanced opener f.closer front ∧ ¬ Marked opener f.closer f.divider.toList front := by
  obtain hall | ⟨front, t, after, k, rfl, hk, hstop⟩ := f.passes_or_stops 0 xs
  · exact .inl (h.passes_iff.1 hall)
  · by_cases ht : t = ":"
    · obtain ⟨hcolon, hm⟩ := h.passes_iff.1 ⟨k, hk⟩
      exact .inr (.inl ⟨front, after, by rw [ht], hcolon, hm⟩)
    · have he := hstop.resolve_left (fun hb => hb (by rw [bars, if_neg ht]))
      simp only [ends, Bool.and_eq_true, Bool.or_eq_true, decide_eq_true_eq] at he
      obtain ⟨rfl, hmark⟩ := he
      obtain ⟨hcolon, hbalanced, hm⟩ := h.closes_iff.1 hk
      exact .inr (.inr ⟨front, t, after, rfl, mem_marks_iff.2 hmark, hcolon, hbalanced, hm⟩)

end Nests

end Fence

/-! ### What the opening words find -/

namespace Branches

variable {yes no after : List String}

theorem scan_ifThen_iff :
    scan (yes ++ "then" :: after) = .ok ⟨yes, none⟩ ↔
      Fence.consequent.scan 0 (yes ++ "then" :: after) = .ok (yes, "then") := by
  unfold scan
  constructor
  · intro h
    split at h
    · cases h
    · next inside last hs =>
      split at h
      · next hl =>
        cases h
        rw [hs, hl]
        rfl
      · split at h <;> cases h
  · intro h
    rw [h]
    rfl

theorem scan_ifElse_iff :
    scan (yes ++ "else" :: (no ++ "then" :: after)) = .ok ⟨yes, some no⟩ ↔
      Fence.consequent.scan 0 (yes ++ "else" :: (no ++ "then" :: after)) = .ok (yes, "else") ∧
        Fence.alternative.scan 0 (no ++ "then" :: after) = .ok (no, "then") := by
  have hdrop : (yes ++ "else" :: (no ++ "then" :: after)).drop (yes.length + 1) =
      no ++ "then" :: after := by
    simp
  unfold scan
  constructor
  · intro h
    split at h
    · cases h
    · next inside last hs =>
      have hlast := Fence.last_of_scan hs
      split at h
      · cases h
      · next hl =>
        obtain rfl : last = "else" := Option.some.inj (hlast.resolve_left hl)
        split at h
        · next inside' last' hs' =>
          cases h
          rw [hdrop] at hs'
          obtain rfl : last' = "then" := (Fence.last_of_scan hs').resolve_right (by simp [Fence.alternative])
          exact ⟨hs, hs'⟩
        · cases h
  · rintro ⟨hy, hn⟩
    rw [hy]
    simp only [hdrop, hn]
    rfl

end Branches

namespace Heading

/-- A heading is a name and a body, and between them there may be a comment. What comes first in the body is no
comment. -/
theorem ofTokens_eq_ok_iff {inside body : List String} {name effect : String} :
    ofTokens inside = .ok ⟨name, effect, body⟩ ↔
      (inside = name :: body ∧ effect = "" ∧ body.head? ≠ some "(") ∨
        ∃ words, inside = name :: "(" :: (words ++ ")" :: body) ∧ ")" ∉ words ∧
          effect = Text.strip (Text.spaced words) := by
  have hscan (words after : List String) (hw : ")" ∉ words) :
      Fence.comment.scan 0 (words ++ ")" :: after) = .ok (words, ")") := by
    refine (Fence.scan_eq_ok_iff after).2 ⟨(Fence.levels?_flat_iff rfl rfl).2 ⟨rfl, fun t ht => ⟨?_, ?_⟩⟩,
      by decide, by decide⟩
    · simp [Fence.bars, Fence.comment]
    · rintro rfl
      exact hw ht
  constructor
  · intro h
    unfold ofTokens at h
    split at h
    · cases h
    · next rest =>
      split at h
      · cases h
      · next words last hs =>
        cases h
        obtain ⟨after, rfl⟩ := Fence.scan_eq_append hs
        obtain rfl : last = ")" := (Fence.last_of_scan hs).resolve_right (by simp [Fence.comment])
        refine .inr ⟨words, by simp, ?_, rfl⟩
        exact Fence.closer_not_mem_of_scan (f := .comment) rfl hs
    · next name body hne =>
      cases h
      refine .inl ⟨rfl, rfl, fun hhead => ?_⟩
      obtain ⟨rest, rfl⟩ := List.head?_eq_some_iff.1 hhead
      exact hne rest rfl
  · rintro (⟨rfl, rfl, hhead⟩ | ⟨words, rfl, hw, rfl⟩)
    · cases body with
      | nil => rfl
      | cons token body =>
        have hne : token ≠ "(" := by simpa using hhead
        unfold ofTokens
        split
        · next h => cases h
        · next h =>
          cases h
          exact absurd rfl hne
        · next h =>
          cases h
          rfl
    · simp [ofTokens, hscan words body hw]

end Heading

end Forth
