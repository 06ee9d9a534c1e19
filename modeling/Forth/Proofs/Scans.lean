import Forth.Scan

/-!
# Where scans end

A scan ends at its closing token, at a colon that it does not allow, or at the end of the tokens. The
first two it finds whatever follows (`scan_append`). The closing token of a construct that may hold
constructs of its own kind is the one that matches: the tokens before it are balanced.
-/
namespace Forth

/-- The tokens strictly between two positions. -/
def between (tokens : List String) (i q : Nat) : List String := (tokens.take q).drop (i + 1)

structure FirstAfter (token : String) (tokens : List String) (i q : Nat) : Prop where
  lt : i < q
  here : tokens[q]? = some token
  absent : token ∉ between tokens i q

structure Balanced (opener closer : String) (tokens : List String) : Prop where
  le : ∀ n, (tokens.take n).count closer ≤ (tokens.take n).count opener
  eq : tokens.count closer = tokens.count opener

structure Closes (opener closer : String) (tokens : List String) (i q : Nat) : Prop where
  lt : i < q
  here : tokens[q]? = some closer
  balanced : Balanced opener closer (between tokens i q)

section Positions

variable {tokens ahead after : List String} {token : String} {i : Nat}

theorem between_of_drop (h : tokens.drop (i + 1) = ahead ++ token :: after) :
    between tokens i (i + 1 + ahead.length) = ahead := by
  rw [between, ← List.take_drop, h, List.take_left]

theorem getElem?_between {q k : Nat} (h : i + 1 + k < q) :
    (between tokens i q)[k]? = tokens[i + 1 + k]? := by
  rw [between, List.getElem?_drop, List.getElem?_take_of_lt h]

theorem mem_between {q q' : Nat} (hi : i < q) (hq : q < q') (h : tokens[q]? = some token) :
    token ∈ between tokens i q' := by
  refine List.mem_of_getElem? (i := q - (i + 1)) ?_
  have he : i + 1 + (q - (i + 1)) = q := by omega
  rw [getElem?_between (by omega), he, h]

theorem take_between {q q' : Nat} (hi : i < q) (hq : q < q') (h : tokens[q]? = some token) :
    (between tokens i q').take (q - i) = between tokens i q ++ [token] := by
  obtain ⟨hl, ht⟩ := List.getElem?_eq_some_iff.1 h
  have hs : tokens.take (q + 1) = tokens.take q ++ [token] := by
    rw [List.take_succ_eq_append_getElem hl, ht]
  have hmin : i + 1 + (q - i) = q + 1 := by omega
  rw [between, List.take_drop, hmin, List.take_take, Nat.min_eq_left (by omega), hs,
    List.drop_append_of_le_length (by simp; omega), between]

theorem getElem?_of_drop (h : tokens.drop (i + 1) = ahead ++ token :: after) :
    tokens[i + 1 + ahead.length]? = some token := by
  rw [← List.getElem?_drop, h]
  simp

theorem firstAfter_of_drop (h : tokens.drop (i + 1) = ahead ++ token :: after)
    (ha : token ∉ ahead) : FirstAfter token tokens i (i + 1 + ahead.length) where
  lt := by omega
  here := getElem?_of_drop h
  absent := by rwa [between_of_drop h]

theorem closes_of_drop {opener : String} (h : tokens.drop (i + 1) = ahead ++ token :: after)
    (hb : Balanced opener token ahead) : Closes opener token tokens i (i + 1 + ahead.length) where
  lt := by omega
  here := getElem?_of_drop h
  balanced := by rwa [between_of_drop h]

/-- There is only one first occurrence. -/
theorem FirstAfter.unique {q q' : Nat} (h : FirstAfter token tokens i q)
    (h' : FirstAfter token tokens i q') : q = q' := by
  have key {q q' : Nat} (h : FirstAfter token tokens i q) (h' : FirstAfter token tokens i q') :
      q' ≤ q := by
    rcases Nat.lt_or_ge q q' with hlt | hge
    · exact absurd (mem_between h.lt hlt h.here) h'.absent
    · exact hge
  exact Nat.le_antisymm (key h' h) (key h h')

/-- There is only one matching closer. -/
theorem Closes.unique {opener : String} (hne : token ≠ opener) {q q' : Nat}
    (h : Closes opener token tokens i q) (h' : Closes opener token tokens i q') : q = q' := by
  have key {q q' : Nat} (h : Closes opener token tokens i q)
      (h' : Closes opener token tokens i q') : q' ≤ q := by
    rcases Nat.lt_or_ge q q' with hlt | hge
    · -- up to the first closer, the tokens before the second would not be balanced
      have hle := h'.balanced.le (q - i)
      have heq := h.balanced.eq
      rw [take_between h.lt hlt h.here, List.count_append, List.count_append] at hle
      simp only [List.count_singleton_self, List.count_singleton, beq_iff_eq, hne, if_false] at hle
      omega
    · exact hge
  exact Nat.le_antisymm (key h' h) (key h h')

end Positions

namespace Fence

variable {f : Fence} {depth : Nat} {tokens inside : List String} {last : String}

/-- More tokens at the end change a scan only if it reached the end. -/
theorem scan_append (f : Fence) (depth : Nat) (tokens more : List String) :
    f.scan depth (tokens ++ more) = f.scan depth tokens ∨
      f.scan depth tokens = .error ⟨f.unterminated, tokens.length⟩ := by
  induction tokens generalizing depth with
  | nil => exact .inr rfl
  | cons token tokens ih =>
    simp only [List.cons_append, scan]
    cases f.bars token with
    | some c => exact .inl rfl
    | none =>
      cases f.ends depth token with
      | true => exact .inl rfl
      | false =>
        rcases ih (f.depthAfter depth token) with h | h
        · exact .inl (by rw [h])
        · exact .inr (by rw [h]; rfl)

/-- A scan that fails has come to the end, or to the first colon. -/
theorem scan_error {e : ScanError} (h : f.scan depth tokens = .error e) :
    e = ⟨f.unterminated, tokens.length⟩ ∨
      f.colon = some e.cause ∧ ∃ ahead after, tokens = ahead ++ ":" :: after ∧ ":" ∉ ahead ∧
        e.passed = ahead.length := by
  induction tokens generalizing depth e with
  | nil => exact .inl (by cases h; rfl)
  | cons token tokens ih =>
    unfold scan at h
    split at h
    · next c hc =>
      cases h
      unfold bars at hc
      split at hc
      · next ht => exact .inr ⟨hc, [], tokens, by simp [ht], by simp, rfl⟩
      · cases hc
    · next hc =>
      split at h
      · cases h
      · split at h
        · cases h
        · next e' he =>
          cases h
          rcases ih he with rfl | ⟨hf, ahead, after, rfl, ha, hp⟩
          · exact .inl rfl
          · have ht : token ≠ ":" := by
              rintro rfl
              simp [bars, hf] at hc
            exact .inr ⟨hf, token :: ahead, after, rfl, by simp [ha, Ne.symm ht], by simp [hp]⟩

/-- A scan that goes well ends at its first token, or goes well after it. -/
theorem scan_cons_ok {token : String} (h : f.scan depth (token :: tokens) = .ok (inside, last)) :
    f.bars token = none ∧
      (f.ends depth token = true ∧ inside = [] ∧ last = token ∨
        f.ends depth token = false ∧ ∃ inside', inside = token :: inside' ∧
          f.scan (f.depthAfter depth token) tokens = .ok (inside', last)) := by
  unfold scan at h
  split at h
  · cases h
  · next hb =>
    refine ⟨hb, ?_⟩
    split at h
    · next he =>
      cases h
      exact .inl ⟨he, rfl, rfl⟩
    · next he =>
      split at h
      · next inside' _ hr =>
        cases h
        exact .inr ⟨Bool.eq_false_iff.2 he, inside', rfl, hr⟩
      · cases h

/-- A scan that does not allow colons passes none. -/
theorem not_mem_of_scan (hf : f.colon.isSome) (h : f.scan depth tokens = .ok (inside, last)) :
    ":" ∉ inside ∧ last ≠ ":" := by
  induction tokens generalizing depth inside with
  | nil => cases h
  | cons token tokens ih =>
    obtain ⟨hb, hr⟩ := scan_cons_ok h
    have ht : token ≠ ":" := by
      rintro rfl
      simp only [bars, if_true] at hb
      simp [hb] at hf
    rcases hr with ⟨-, rfl, rfl⟩ | ⟨-, inside, rfl, hr⟩
    · exact ⟨by simp, ht⟩
    · obtain ⟨hi, hl⟩ := ih hr
      exact ⟨by simp [hi, Ne.symm ht], hl⟩

/-- A scan ends at a closer or divider. -/
theorem last_of_scan (h : f.scan depth tokens = .ok (inside, last)) :
    last = f.closer ∨ some last = f.divider := by
  induction tokens generalizing depth inside with
  | nil => cases h
  | cons token tokens ih =>
    obtain ⟨-, ⟨he, rfl, rfl⟩ | ⟨-, inside, rfl, hr⟩⟩ := scan_cons_ok h
    · simp only [ends, Bool.and_eq_true, Bool.or_eq_true, decide_eq_true_eq] at he
      exact he.2
    · exact ih hr

/-- A scan without inner levels stops at the first closer. -/
theorem closer_not_mem_of_scan (ho : f.opener = none)
    (h : f.scan 0 tokens = .ok (inside, last)) : f.closer ∉ inside := by
  induction tokens generalizing inside with
  | nil => cases h
  | cons token tokens ih =>
    obtain ⟨-, ⟨-, rfl, -⟩ | ⟨he, inside, rfl, hr⟩⟩ := scan_cons_ok h
    · simp
    · have ht : token ≠ f.closer := by
        rintro rfl
        simp [ends] at he
      have hd : f.depthAfter 0 token = 0 := by simp [depthAfter, ho]
      rw [hd] at hr
      simp [ih hr, Ne.symm ht]

/-- What a token adds to the openers and closers so far is its change of depth. -/
theorem depthAfter_add {opener token : String} (ho : f.opener = some opener)
    (hne : opener ≠ f.closer) (he : f.ends depth token = false) :
    f.depthAfter depth token + (if token = f.closer then 1 else 0) =
      depth + if token = opener then 1 else 0 := by
  by_cases hc : token = f.closer
  · have hd : depth ≠ 0 := by
      rintro rfl
      simp [ends, hc] at he
    simp only [depthAfter, hc, if_true, Ne.symm hne, if_false]
    omega
  · by_cases hto : token = opener
    · simp [depthAfter, hto, hne, ho]
    · simp [depthAfter, hc, ho, hto]

/-- The tokens that a scan passes close the levels that were open, and their own. -/
theorem count_of_scan {opener : String} (ho : f.opener = some opener) (hne : opener ≠ f.closer)
    (h : f.scan depth tokens = .ok (inside, last)) :
    (∀ n, (inside.take n).count f.closer ≤ (inside.take n).count opener + depth) ∧
      inside.count f.closer = inside.count opener + depth := by
  induction tokens generalizing depth inside with
  | nil => cases h
  | cons token tokens ih =>
    obtain ⟨-, ⟨he, rfl, -⟩ | ⟨he, inside, rfl, hr⟩⟩ := scan_cons_ok h
    · simp only [ends, Bool.and_eq_true, decide_eq_true_eq] at he
      simp [he.1]
    · obtain ⟨hle, heq⟩ := ih hr
      have ht := depthAfter_add ho hne he
      have hcount (l : List String) (x : String) :
          (token :: l).count x = l.count x + if token = x then 1 else 0 := by
        simp [List.count_cons]
      refine ⟨fun n => ?_, ?_⟩
      · cases n with
        | zero => simp
        | succ n =>
          have := hle n
          rw [List.take_succ_cons, hcount, hcount]
          omega
      · rw [hcount, hcount]
        omega

theorem balanced_of_scan {opener : String} (ho : f.opener = some opener) (hne : opener ≠ f.closer)
    (h : f.scan 0 tokens = .ok (inside, last)) : Balanced opener f.closer inside :=
  ⟨(count_of_scan ho hne h).1, (count_of_scan ho hne h).2⟩

end Fence

/-- A token of neither kind may stand between balanced pieces. -/
theorem Balanced.join {opener closer token : String} {xs ys : List String}
    (hx : Balanced opener closer xs) (ho : token ≠ opener) (hc : token ≠ closer)
    (hy : Balanced opener closer ys) : Balanced opener closer (xs ++ token :: ys) where
  le n := by
    have hxn := hx.le n
    have hyn := hy.le (n - xs.length - 1)
    have hxe := hx.eq
    rw [List.take_append]
    rcases Nat.lt_or_ge xs.length n with hn | hn
    · have ht : n - xs.length = (n - xs.length - 1) + 1 := by omega
      rw [ht, List.take_succ_cons, List.take_of_length_le (by omega : xs.length ≤ n)]
      simp only [List.count_append, List.count_cons_of_ne ho, List.count_cons_of_ne hc]
      omega
    · simpa [Nat.sub_eq_zero_of_le hn] using hxn
  eq := by
    have hxe := hx.eq
    have hye := hy.eq
    simp only [List.count_append, List.count_cons_of_ne ho, List.count_cons_of_ne hc]
    omega

namespace Branches

variable {rest : List String}

/-- The branches reach to the matching closer, and hold no colon. -/
theorem of_scan {b : Branches} (h : scan rest = .ok b) :
    ∃ inner after, rest = inner ++ "then" :: after ∧ b.width = inner.length + 1 ∧
      Balanced "if" "then" inner := by
  unfold scan at h
  split at h
  · cases h
  · next yes last hy =>
    have hyb : Balanced "if" "then" yes :=
      Fence.balanced_of_scan (f := Fence.consequent) rfl (by decide) hy
    obtain ⟨after, hr⟩ := Fence.scan_eq_append hy
    split at h
    · next hl =>
      cases h
      exact ⟨yes, after, by rw [hr, hl]; rfl, rfl, hyb⟩
    · next hl =>
      have hd : last = "else" := by
        rcases Fence.last_of_scan hy with he | he
        · exact absurd he hl
        · exact Option.some.inj he
      split at h
      · next no last' hn =>
        cases h
        have hnb : Balanced "if" "then" no :=
          Fence.balanced_of_scan (f := Fence.alternative) rfl (by decide) hn
        have hl' : last' = "then" := by
          rcases Fence.last_of_scan hn with he | he
          · exact he
          · cases he
        obtain ⟨after', hr'⟩ := Fence.scan_eq_append hn
        refine ⟨yes ++ "else" :: no, after', ?_, ?_, hyb.join (by decide) (by decide) hnb⟩
        · have : rest.drop (yes.length + 1) = after := by simp [hr]
          rw [hr, hd, ← this, hr', hl', List.append_assoc, List.cons_append]
        · simp only [width, List.length_append, List.length_cons]
          omega
      · cases h

/-- The failure that means that the tokens ended. -/
def Unterminated (c : Cause) : Prop := c = .unterminatedIf ∨ c = .unterminatedElse

/-- The failure that means that a colon was met. -/
def Colon (c : Cause) : Prop := c = .definitionInIf ∨ c = .definitionInElse

theorem scan_append (rest more : List String) :
    scan (rest ++ more) = scan rest ∨
      ∃ c, Unterminated c ∧ scan rest = .error ⟨c, rest.length⟩ := by
  unfold scan
  rcases Fence.scan_append .consequent 0 rest more with hy | hy
  · rw [hy]
    cases hs : Fence.consequent.scan 0 rest with
    | error e => exact .inl rfl
    | ok r =>
      obtain ⟨yes, last⟩ := r
      obtain ⟨after, rfl⟩ := Fence.scan_eq_append hs
      simp only
      split
      · exact .inl rfl
      · have hd (l : List String) : (yes ++ last :: after ++ l).drop (yes.length + 1) = after ++ l := by
          simp
        have hd' := hd []
        rw [List.append_nil, List.append_nil] at hd'
        rw [hd, hd']
        rcases Fence.scan_append .alternative 0 after more with hn | hn
        · exact .inl (by rw [hn])
        · refine .inr ⟨.unterminatedElse, .inr rfl, ?_⟩
          rw [hn]
          simp only [List.length_append, List.length_cons]
          congr 2
          omega
  · exact .inr ⟨.unterminatedIf, .inl rfl, by rw [hy]; rfl⟩

theorem scan_error {e : ScanError} (h : scan rest = .error e) :
    Unterminated e.cause ∧ e.passed = rest.length ∨
      Colon e.cause ∧ ∃ ahead after, rest = ahead ++ ":" :: after ∧ ":" ∉ ahead ∧
        e.passed = ahead.length := by
  unfold scan at h
  split at h
  · next e' hy =>
    cases h
    rcases Fence.scan_error hy with rfl | ⟨hc, hp⟩
    · exact .inl ⟨.inl rfl, rfl⟩
    · exact .inr ⟨.inl (Option.some.inj hc).symm, hp⟩
  · next yes last hy =>
    obtain ⟨hyc, hlc⟩ := Fence.not_mem_of_scan (f := .consequent) rfl hy
    obtain ⟨after, rfl⟩ := Fence.scan_eq_append hy
    split at h
    · cases h
    · have hd : (yes ++ last :: after).drop (yes.length + 1) = after := by simp
      rw [hd] at h
      split at h
      · cases h
      · next e' hn =>
        cases h
        rcases Fence.scan_error hn with rfl | ⟨hc, ahead, after', rfl, ha, hp⟩
        · refine .inl ⟨.inr rfl, ?_⟩
          simp only [List.length_append, List.length_cons]
          omega
        · refine .inr ⟨.inr (Option.some.inj hc).symm, yes ++ last :: ahead, after', by simp, ?_, ?_⟩
          · simp [hyc, ha, Ne.symm hlc]
          · simp only [List.length_append, List.length_cons]
            omega

end Branches
end Forth
