import Forth.Proofs.Objections

/-!
# Where failures point

Where the report of a failure points is a matter of the word and the cause alone (`plan_points`): past the end, at
the word, or at a token that the tokens behind the word determine (`Landmark.IsAt.unique`).
-/
namespace Forth

open Machine

variable {loop : Option Int} {tokens : List String} {i : Nat} {s s' : Scope Empty} {c : Cause} {cs : List String}
  {k : Int}

theorem length_of_drop (hi : i < tokens.length) :
    ((tokens.length : Nat) : Int) = i + (1 + ((tokens.drop (i + 1)).length : Int)) := by
  rw [List.length_drop]
  omega

theorem succ_eq_length (hi : i < tokens.length) (hr : tokens.drop (i + 1) = []) :
    i + 1 = tokens.length := by
  have := List.drop_eq_nil_iff.1 hr
  omega

/-- A scan that fails points past the end, or at the first colon. -/
theorem Fence.points_of_scan {f : Fence} {depth : Nat} {e : ScanError} (hi : i < tokens.length)
    (h : f.scan depth (tokens.drop (i + 1)) = .error e) :
    ∃ p : Nat, (p : Int) = i + (1 + e.passed) ∧
      (e.cause = f.unterminated ∧ p = tokens.length ∨
        f.colon = some e.cause ∧ FirstAfter ":" tokens i p) := by
  rcases f.scan_error h with rfl | ⟨hc, ahead, after, hd, ha, hp⟩
  · exact ⟨tokens.length, length_of_drop hi, .inl ⟨rfl, rfl⟩⟩
  · exact ⟨i + 1 + ahead.length, by omega, .inr ⟨hc, firstAfter_of_drop hd ha⟩⟩

theorem Branches.points_of_scan {e : ScanError} (hi : i < tokens.length)
    (h : Branches.scan (tokens.drop (i + 1)) = .error e) :
    ∃ p : Nat, (p : Int) = i + (1 + e.passed) ∧
      (Branches.Unterminated e.cause ∧ p = tokens.length ∨
        Branches.Colon e.cause ∧ FirstAfter ":" tokens i p) := by
  rcases Branches.scan_error h with ⟨hc, hp⟩ | ⟨hc, ahead, after, hd, ha, hp⟩
  · exact ⟨tokens.length, by rw [hp, length_of_drop hi], .inl ⟨hc, rfl⟩⟩
  · exact ⟨i + 1 + ahead.length, by omega, .inr ⟨hc, firstAfter_of_drop hd ha⟩⟩

theorem Fence.firstAfter_of_scan {f : Fence} {inner : List String} {last : String}
    (ho : f.opener = none) (hd : f.divider = none)
    (h : f.scan 0 (tokens.drop (i + 1)) = .ok (inner, last)) :
    FirstAfter f.closer tokens i (i + 1 + inner.length) := by
  obtain ⟨after, hr⟩ := f.scan_eq_append h
  have hl : last = f.closer := by simpa [hd] using f.last_of_scan h
  exact firstAfter_of_drop (hl ▸ hr) (f.closer_not_mem_of_scan ho h)

theorem Fence.closes_of_scan {inner : List String} {last : String}
    (h : Fence.loop.scan 0 (tokens.drop (i + 1)) = .ok (inner, last)) :
    Closes "do" "loop" tokens i (i + 1 + inner.length) := by
  obtain ⟨after, hr⟩ := Fence.scan_eq_append h
  have hl : last = "loop" := by simpa [Fence.loop] using Fence.last_of_scan h
  exact closes_of_drop (hl ▸ hr) (Fence.balanced_of_scan (f := .loop) rfl (by decide) h)

theorem Branches.closes_of_scan {b : Branches} (h : Branches.scan (tokens.drop (i + 1)) = .ok b) :
    Closes "if" "then" tokens i (i + b.width) := by
  obtain ⟨inner, after, hr, hw, hb⟩ := Branches.of_scan h
  have hp : i + b.width = i + 1 + inner.length := by omega
  rw [hp]
  exact closes_of_drop hr hb

/-- A scan that fails points at what stopped it. -/
theorem Lookahead.ScanFails.points {w : Lookahead} {e : ScanError} (hi : i < tokens.length)
    (h : w.ScanFails (tokens.drop (i + 1)) e) :
    ∃ p : Nat, (p : Int) = i + (1 + e.passed) ∧ (w.landmark e.cause).IsAt tokens i p := by
  cases w with
  | comment =>
    obtain ⟨p, hp, ⟨-, hend⟩ | ⟨hc, -⟩⟩ := Fence.points_of_scan hi h
    · exact ⟨p, hp, hend⟩
    · cases hc
  | say =>
    obtain ⟨p, hp, ⟨-, hend⟩ | ⟨hc, -⟩⟩ := Fence.points_of_scan hi h
    · exact ⟨p, hp, hend⟩
    · cases hc
  | colon =>
    obtain ⟨p, hp, ⟨hc, hend⟩ | ⟨hc, hcolon⟩⟩ := Fence.points_of_scan hi h
    · exact ⟨p, hp, by rw [hc]; exact hend⟩
    · exact ⟨p, hp, by rw [← Option.some.inj hc]; exact hcolon⟩
  | choose =>
    obtain ⟨p, hp, ⟨hc | hc, hat⟩ | ⟨hc | hc, hat⟩⟩ := Branches.points_of_scan hi h
    all_goals exact ⟨p, hp, by rw [hc]; exact hat⟩
  | loop =>
    obtain ⟨p, hp, ⟨hc, hend⟩ | ⟨hc, hcolon⟩⟩ := Fence.points_of_scan hi h
    · exact ⟨p, hp, by rw [hc]; exact hend⟩
    · exact ⟨p, hp, by rw [← Option.some.inj hc]; exact hcolon⟩
  | declare => exact h.elim
  | «recall» => exact h.elim
  | assign => exact h.elim

/-- The last of the word's own tokens is the one that it should be. -/
theorem Lookahead.Spans.isAt {w : Lookahead} {width : Nat} (h : w.Spans (tokens.drop (i + 1)) width) :
    w.closing.IsAt tokens i (i + width) := by
  cases h with
  | @colon inside last hs =>
    have hp : i + (inside.length + 1) = i + 1 + inside.length := by omega
    rw [hp]
    exact Fence.firstAfter_of_scan (f := .definition) rfl rfl hs
  | choose hb => exact Branches.closes_of_scan hb
  | @loop body last hs =>
    have hp : i + (body.length + 1) = i + 1 + body.length := by omega
    rw [hp]
    exact Fence.closes_of_scan hs
  | named hw =>
    cases w with
    | declare => rfl
    | «recall» => rfl
    | assign => rfl
    | _ => exact hw.elim

/-- A lookahead word that fails by itself points where it should. -/
theorem Lookahead.plan_points (w : Lookahead) (hi : i < tokens.length)
    (h : w.plan loop (tokens.drop (i + 1)) s = .error ⟨.failed ⟨c, cs⟩, k⟩ s') :
    cs = [] ∧ ∃ p : Nat, (p : Int) = i + k ∧ (w.landmark c).IsAt tokens i p := by
  obtain ⟨-, hstumbles⟩ := plan_stumbles h
  cases hstumbles with
  | scan he => exact ⟨rfl, he.points hi⟩
  | nameless hw hr =>
    refine ⟨rfl, i + 1, by omega, ?_⟩
    rw [landmark_missingIdentifier hw]
    exact succ_eq_length hi hr
  | @behind _ width hspans _ hlandmark =>
    rw [hlandmark]
    exact ⟨rfl, i + width, by omega, hspans.isAt⟩

/-- A token that fails by itself points where it should. -/
theorem plan_points {token : String} (hi : i < tokens.length)
    (h : plan loop token (tokens.drop (i + 1)) s = .error ⟨.failed ⟨c, cs⟩, k⟩ s') :
    cs = [] ∧ ∃ p : Nat, (p : Int) = i + k ∧ ((s.words.sense token).landmark c).IsAt tokens i p := by
  unfold plan at h
  cases hs : s.words.sense token with
  | primitive q =>
    rw [hs] at h
    cases q with
    | lookahead w => exact w.plan_points hi h
    | simple w =>
      simp only [Sense.plan, Primitive.plan_simple] at h
      split at h
      · next t m ht =>
        cases t with
        | cause c => cases h; exact ⟨rfl, i, by simp, rfl⟩
        | fault f => cases h
      · cases h
    | index =>
      simp only [Sense.plan, Primitive.plan_index] at h
      split at h <;> cases h
      exact ⟨rfl, i, by simp, rfl⟩
    | bye => cases h
    | host w => exact w.elim
  | number n => rw [hs] at h; cases h
  | definition body => rw [hs] at h; cases h
  | longNumber => rw [hs] at h; cases h
  | unknown =>
    rw [hs] at h
    cases h
    exact ⟨rfl, i, by simp, rfl⟩

/-- No other position is the same place. -/
theorem Landmark.IsAt.unique {a : Landmark} {p q : Nat} (hp : a.IsAt tokens i p)
    (hq : a.IsAt tokens i q) : p = q := by
  cases a with
  | word => exact Eq.trans hp (Eq.symm hq)
  | identifier => exact Eq.trans hp (Eq.symm hq)
  | pastEnd => exact Eq.trans hp (Eq.symm hq)
  | colon => exact FirstAfter.unique hp hq
  | semicolon => exact FirstAfter.unique hp hq
  | matchingThen => exact Closes.unique (by decide) hp hq
  | matchingLoop => exact Closes.unique (by decide) hp hq

end Forth
