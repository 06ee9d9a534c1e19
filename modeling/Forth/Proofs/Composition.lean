import Forth.Interpreter
import Forth.Proofs.Walk

/-!
# One sequence after another

Evaluating `xs ++ ys` is evaluating `xs`, then `ys` on the same variables. Inside `xs` every word finds
the end of its construct before the boundary or fails for want of tokens, and behind the boundary words
do not look back. Only the context of the outermost frame shows the neighbouring tokens.
-/
namespace Forth

/-- The same cause and contexts, but for the outermost context. -/
def Failure.AlikeBut (R : String → String → Prop) (f g : Failure) : Prop :=
  f.cause = g.cause ∧
    (f.contexts = g.contexts ∨
      ∃ inner c d, f.contexts = inner ++ [c] ∧ g.contexts = inner ++ [d] ∧ R c d)

/-- The same end, but for the outermost context of a failure. -/
def Halt.AlikeBut (R : String → String → Prop) (h h' : Halt) : Prop :=
  h = h' ∨ ∃ f g, h = .failed f ∧ h' = .failed g ∧ f.AlikeBut R g

/-- Everything of a state but the log. -/
def Scope.unlogged (s : Scope Empty) : Scope Empty := { s with journal := #[] }

/-- Outermost evaluations with the same end in the same state, but for the outermost context of a failure
and its report in the log. -/
inductive AlikeBut (R : String → String → Prop) :
    EStateM.Result Abort (Scope Empty) Unit → EStateM.Result Abort (Scope Empty) Unit → Prop
  | done (s : Scope Empty) : AlikeBut R (.ok () s) (.ok () s)
  | fault (f : Fault) (s : Scope Empty) : AlikeBut R (.error (.fault f) s) (.error (.fault f) s)
  | failed {f g : Failure} {s t : Scope Empty} : f.AlikeBut R g → s.unlogged = t.unlogged →
      AlikeBut R (.error (.failed f) s) (.error (.failed g) t)

/-- The second context is the first, or the first with the last of the tokens `xs` on its left. -/
def PrecededBy (xs : List String) (c d : String) : Prop :=
  d = c ∨ ∃ left, xs.getLast? = some left ∧ d = left ++ " " ++ c

theorem spaced_cons (x : String) {parts : List String} (h : parts ≠ []) :
    Text.spaced (x :: parts) = x ++ " " ++ Text.spaced parts := by
  obtain ⟨y, ys, rfl⟩ := List.exists_cons_of_ne_nil h
  exact String.intercalate_cons_cons

/-- A context behind a boundary shows at most one token from before it. -/
theorem formatContext_append (xs : List String) {ys : List String} (hy : ys ≠ []) (p : Nat) :
    PrecededBy xs (formatContext ys p) (formatContext (xs ++ ys) ((xs.length + p : Nat) : Int)) := by
  have hl : 0 < ys.length := List.length_pos_iff.2 hy
  have hi : clampIndex (xs ++ ys).length ((xs.length + p : Nat) : Int) =
      xs.length + clampIndex ys.length p := by
    simp only [clampIndex, List.length_append, Int.toNat_natCast]
    omega
  have hk : clampIndex ys.length p < ys.length := by
    simp only [clampIndex, Int.toNat_natCast]
    omega
  simp only [formatContext, hi]
  generalize clampIndex ys.length p = k at hk
  have hat (j : Nat) : (xs ++ ys)[xs.length + j]? = ys[j]? := by
    simp [List.getElem?_append_right]
  rw [hat k, List.getElem?_eq_getElem hk, Nat.add_assoc xs.length k 1, hat (k + 1)]
  simp only
  cases k with
  | succ k =>
    have hleft : xs.length + (k + 1) - 1 = xs.length + k := by omega
    rw [hleft, hat k]
    exact .inl (by simp)
  | zero =>
    rcases xs.eq_nil_or_concat with rfl | ⟨front, left, rfl⟩
    · exact .inl (by simp)
    · refine .inr ⟨left, by simp, ?_⟩
      rw [List.concat_eq_append]
      have hl : (front ++ [left] ++ ys)[(front ++ [left]).length + 0 - 1]? = some left := by simp
      rw [hl]
      simp [spaced_cons]

variable (nested : Nested Empty) (loop : Option Int) {xs : List String} (ys : List String)

theorem Break.annotate_alike {R : String → String → Prop} (b : Break) {tokens tokens' : List String}
    {pos pos' : Int}
    (h : ∀ f, b.halt = .failed f →
      R (formatContext tokens (pos + b.offset)) (formatContext tokens' (pos' + b.offset))) :
    (b.annotate tokens pos).AlikeBut R (b.annotate tokens' pos') := by
  obtain ⟨halt, offset⟩ := b
  cases halt with
  | failed f => exact .inr ⟨_, _, rfl, rfl, rfl, .inr ⟨f.contexts, _, _, rfl, rfl, h f rfl⟩⟩
  | bye => exact .inl rfl
  | fault f => exact .inl rfl
  | overflow => exact .inl rfl

/-- What becomes of a piece of evaluation when tokens are put behind the sequence: it goes on as `next`
says where it went well, and a failure stays, up to its outermost context, unless something was cut off. -/
def Prolongs {α β : Type} (short : EStateM.Result Halt (Scope Empty) α)
    (next : α → Scope Empty → EStateM.Result Halt (Scope Empty) β)
    (long : EStateM.Result Halt (Scope Empty) β) : Prop :=
  match short with
  | .ok x s => long = next x s
  | .error h s =>
    (∃ h', long = .error h' s ∧ h.AlikeBut (fun _ _ => True) h') ∨
      ∃ c context, c.CutOff ∧ h = .failed ⟨c, [context]⟩

theorem stride_append {i : Nat} (hi : i < xs.length) (token : String) (s : Scope Empty) :
    Prolongs (stride nested loop xs i token s) EStateM.Result.ok
      (stride nested loop (xs ++ ys) i token s) := by
  have hd : (xs ++ ys).drop (i + 1) = xs.drop (i + 1) ++ ys :=
    List.drop_append_of_le_length (by omega)
  simp only [stride, hd]
  rcases plan_append loop token (xs.drop (i + 1)) ys s with h | ⟨c, k, hc, h⟩
  · rw [h]
    cases plan loop token (xs.drop (i + 1)) s with
    | error b s => exact .inl ⟨_, rfl, b.annotate_alike fun _ _ => trivial⟩
    | ok p s =>
      simp only
      cases series nested p.inner s.toMachine with
      | ok u m => exact rfl
      | error h m => exact .inl ⟨_, rfl, Break.annotate_alike _ fun _ _ => trivial⟩
  · rw [h]
    exact .inr ⟨c, _, hc, rfl⟩

/-- Inside `xs` nothing depends on `ys`, and evaluation comes to the boundary if all goes well. -/
theorem resume_append {i : Nat} (hi : i ≤ xs.length) (s : Scope Empty) :
    Prolongs (resume nested loop xs i s) (fun _ s => resume nested loop (xs ++ ys) xs.length s)
      (resume nested loop (xs ++ ys) i s) := by
  induction i using forward_induction xs generalizing s with
  | done i hge =>
    obtain rfl := Nat.le_antisymm hi hge
    rw [resume_of_le nested loop xs (Nat.le_refl _)]
    exact rfl
  | next i hlt ih =>
    have hx : xs[i]? = some xs[i] := List.getElem?_eq_getElem hlt
    have hxy : (xs ++ ys)[i]? = some xs[i] := by rw [List.getElem?_append_left hlt, hx]
    have hs := stride_append nested loop ys hlt xs[i] s
    rw [resume_eq nested loop xs hx, resume_eq nested loop (xs ++ ys) hxy]
    cases h : stride nested loop xs i xs[i] s with
    | ok j s' =>
      rw [h] at hs
      obtain ⟨hij, hj⟩ := stride_le nested loop xs hlt h
      rw [show stride nested loop (xs ++ ys) i xs[i] s = .ok j s' from hs]
      exact ih j hij hj s'
    | error e s' =>
      rw [h] at hs
      rcases hs with ⟨e', he, ha⟩ | hc
      · rw [he]
        exact .inl ⟨e', rfl, ha⟩
      · exact .inr hc

/-- The same end in the same state, but for the outermost context. -/
def EndsAlike (R : String → String → Prop) :
    EStateM.Result Halt (Scope Empty) Unit → EStateM.Result Halt (Scope Empty) Unit → Prop
  | .ok () s, .ok () t => s = t
  | .error h s, .error h' t => h.AlikeBut R h' ∧ s = t
  | _, _ => False

section Ends

variable {R R' : String → String → Prop} {r r' r'' : EStateM.Result Halt (Scope Empty) Unit}

theorem EndsAlike.cases (h : EndsAlike R r r') :
    r = r' ∨ ∃ f g s, r = .error (.failed f) s ∧ r' = .error (.failed g) s ∧ f.AlikeBut R g := by
  cases r with
  | ok u s =>
    cases r' with
    | ok u t =>
      cases h
      exact .inl rfl
    | error h' t => exact h.elim
  | error e s =>
    cases r' with
    | ok u t => exact h.elim
    | error e' t =>
      obtain ⟨rfl | ⟨f, g, rfl, rfl, hfg⟩, rfl⟩ := h
      · exact .inl rfl
      · exact .inr ⟨f, g, s, rfl, rfl, hfg⟩

theorem EndsAlike.refl (r : EStateM.Result Halt (Scope Empty) Unit) : EndsAlike R r r := by
  cases r with
  | ok u s => exact rfl
  | error e s => exact ⟨.inl rfl, rfl⟩

theorem EndsAlike.mono (hR : ∀ c d, R c d → R' c d) (h : EndsAlike R r r') : EndsAlike R' r r' := by
  obtain rfl | ⟨f, g, s, rfl, rfl, hc, hcs⟩ := h.cases
  · exact .refl r
  · refine ⟨.inr ⟨f, g, rfl, rfl, hc, hcs.imp_right ?_⟩, rfl⟩
    rintro ⟨inner, c, d, hf, hg, hcd⟩
    exact ⟨inner, c, d, hf, hg, hR c d hcd⟩

/-- Whatever the outermost contexts are, it can be told in either order. -/
theorem EndsAlike.symm (h : EndsAlike (fun _ _ => True) r r') : EndsAlike (fun _ _ => True) r' r := by
  obtain rfl | ⟨f, g, s, rfl, rfl, hc, hcs⟩ := h.cases
  · exact .refl r
  · refine ⟨.inr ⟨g, f, rfl, rfl, hc.symm, ?_⟩, rfl⟩
    obtain hcs | ⟨inner, c, d, hf, hg, -⟩ := hcs
    · exact .inl hcs.symm
    · exact .inr ⟨inner, d, c, hg, hf, trivial⟩

theorem EndsAlike.trans (h : EndsAlike (fun _ _ => True) r r')
    (h' : EndsAlike (fun _ _ => True) r' r'') : EndsAlike (fun _ _ => True) r r'' := by
  obtain rfl | ⟨f, g, s, rfl, rfl, hc, hcs⟩ := h.cases
  · exact h'
  · obtain rfl | ⟨_, k, _, ⟨⟩, rfl, hc', hcs'⟩ := h'.cases
    · exact h
    · refine ⟨.inr ⟨f, k, rfl, rfl, hc.trans hc', ?_⟩, rfl⟩
      obtain hcs | ⟨inner, c, d, hf, hg, -⟩ := hcs
      · rw [hcs]
        exact hcs'
      · obtain hcs' | ⟨inner', c', d', hg', hk, -⟩ := hcs'
        · exact .inr ⟨inner, c, d, hf, by rw [← hcs', hg], trivial⟩
        · obtain ⟨rfl, -⟩ := List.append_inj' (hg.symm.trans hg') rfl
          exact .inr ⟨inner, c, d', hf, hk, trivial⟩

end Ends

/-- A failure in the innermost frame points at the sequence or behind it. -/
theorem Break.offset_of_plan {tokens : List String} {i : Nat} {token : String} {b : Break}
    {s s' : Scope Empty} {f : Failure} (hi : i < tokens.length)
    (h : plan loop token (tokens.drop (i + 1)) s = .error b s') (hf : b.halt = .failed f) :
    ∃ p : Nat, (p : Int) = i + b.offset := by
  obtain ⟨halt, offset⟩ := b
  obtain ⟨c, cs⟩ := f
  cases hf
  obtain ⟨-, p, hp, -⟩ := plan_points hi h
  exact ⟨p, hp⟩

/-- Behind the boundary evaluation is that of `ys`. -/
theorem resume_shift (xs : List String) (j : Nat) (s : Scope Empty) :
    EndsAlike (PrecededBy xs) (resume nested loop ys j s)
      (resume nested loop (xs ++ ys) (xs.length + j) s) := by
  induction j using forward_induction ys generalizing s with
  | done j hge =>
    rw [resume_of_le nested loop ys hge, resume_of_le nested loop (xs ++ ys) (by simp; omega)]
    exact rfl
  | next j hlt ih =>
    have hy : ys[j]? = some ys[j] := List.getElem?_eq_getElem hlt
    have hxy : (xs ++ ys)[xs.length + j]? = some ys[j] := by
      rw [List.getElem?_append_right (by omega), Nat.add_sub_cancel_left, hy]
    have hd : (xs ++ ys).drop (xs.length + j + 1) = ys.drop (j + 1) := by
      rw [Nat.add_assoc, List.drop_length_add_append]
    have hne : ys ≠ [] := by
      rintro rfl
      simp at hlt
    have hcontext (p : Nat) (k : Int) (hp : (p : Int) = j + k) :
        PrecededBy xs (formatContext ys (j + k))
          (formatContext (xs ++ ys) (((xs.length + j : Nat) : Int) + k)) := by
      have hq : ((xs.length + j : Nat) : Int) + k = ((xs.length + p : Nat) : Int) := by omega
      rw [hq, ← hp]
      exact formatContext_append xs hne p
    rw [resume_eq nested loop ys hy, resume_eq nested loop (xs ++ ys) hxy]
    simp only [stride, hd]
    cases hplan : plan loop ys[j] (ys.drop (j + 1)) s with
    | error b s' =>
      refine ⟨b.annotate_alike fun f hf => ?_, rfl⟩
      obtain ⟨p, hp⟩ := b.offset_of_plan loop hlt hplan hf
      exact hcontext p _ hp
    | ok p s' =>
      simp only
      cases series nested p.inner s'.toMachine with
      | error h m =>
        refine ⟨Break.annotate_alike _ fun f hf => ?_, rfl⟩
        exact hcontext (j + p.width) _ (by simp)
      | ok u m =>
        have hj : xs.length + j + 1 + p.width = xs.length + (j + 1 + p.width) := by omega
        simp only [hj]
        exact ih (j + 1 + p.width) (by omega) _

theorem evaluate_append (limit : Nat) (xs ys : List String) (s : Scope Empty) :
    match evaluate limit loop xs s with
    | .ok () s' =>
      EndsAlike (PrecededBy xs) (evaluate limit loop ys s') (evaluate limit loop (xs ++ ys) s)
    | .error h s' =>
      (∃ h', evaluate limit loop (xs ++ ys) s = .error h' s' ∧ h.AlikeBut (fun _ _ => True) h') ∨
        ∃ c context, c.CutOff ∧ h = .failed ⟨c, [context]⟩ := by
  cases limit with
  | zero => exact .inl ⟨.overflow, rfl, .inl rfl⟩
  | succ limit =>
    have ha := resume_append (inside limit) loop ys (Nat.zero_le xs.length) s
    simp only [evaluate_succ]
    cases h : resume (inside limit) loop xs 0 s with
    | error e s' =>
      rw [h] at ha
      exact ha
    | ok u s' =>
      rw [h] at ha
      rw [show resume (inside limit) loop (xs ++ ys) 0 s = _ from ha]
      exact resume_shift (inside limit) loop ys xs 0 s'

/-- An outermost evaluation ends as its sequence ends. -/
theorem interpretWithin_alike {R : String → String → Prop} {limit : Nat} {xs ys : List String}
    {s t : Scope Empty}
    (h : EndsAlike R (evaluate limit loop xs s) (evaluate limit loop ys t)) :
    AlikeBut R (interpretWithin limit loop xs s) (interpretWithin limit loop ys t) := by
  unfold interpretWithin
  obtain h | ⟨f, g, s', hx, hy, hfg⟩ := h.cases
  · rw [h]
    cases evaluate limit loop ys t with
    | ok u s' => exact .done s'
    | error e s' =>
      cases e with
      | bye => exact .done s'
      | overflow => exact .failed ⟨rfl, .inl rfl⟩ rfl
      | failed f => exact .failed ⟨rfl, .inl rfl⟩ rfl
      | fault f => exact .fault f s'
  · rw [hx, hy]
    exact .failed hfg rfl

/-- Evaluating one sequence after another. If the first ends normally, the second follows it; if `bye`
ends the first, what follows does not matter; and if the first fails, the whole fails alike, unless what
followed might have averted the failure. -/
theorem interpretWithin_append (limit : Nat) (loop : Option Int) (xs ys : List String)
    (s : Scope Empty) :
    match evaluate limit loop xs s with
    | .ok () _ =>
      AlikeBut (PrecededBy xs)
        ((do interpretWithin limit loop xs; interpretWithin limit loop ys) s)
        (interpretWithin limit loop (xs ++ ys) s)
    | .error .bye _ =>
      interpretWithin limit loop (xs ++ ys) s = interpretWithin limit loop xs s
    | .error _ _ =>
      AlikeBut (fun _ _ => True) (interpretWithin limit loop xs s)
          (interpretWithin limit loop (xs ++ ys) s) ∨
        ∃ c context s', c.CutOff ∧
          interpretWithin limit loop xs s = .error (.failed ⟨c, [context]⟩) s' := by
  have ha := evaluate_append loop limit xs ys s
  cases h : evaluate limit loop xs s with
  | ok u s' =>
    rw [h] at ha
    have hx : interpretWithin limit loop xs s = .ok () s' := by rw [interpretWithin, h]
    simp only [bind, EStateM.bind, hx]
    exact interpretWithin_alike loop ha
  | error e s' =>
    rw [h] at ha
    have hfail : AlikeBut (fun _ _ => True) (interpretWithin limit loop xs s)
          (interpretWithin limit loop (xs ++ ys) s) ∨
        ∃ c context s', c.CutOff ∧
          interpretWithin limit loop xs s = .error (.failed ⟨c, [context]⟩) s' := by
      rcases ha with ⟨e', he', hee⟩ | ⟨c, context, hc, rfl⟩
      · refine .inl (interpretWithin_alike loop ?_)
        rw [h, he']
        exact ⟨hee, rfl⟩
      · simp only [interpretWithin, h]
        exact .inr ⟨c, context, _, hc, rfl⟩
    cases e with
    | bye =>
      rcases ha with ⟨e', he', rfl | ⟨f, g, hf, -⟩⟩ | ⟨c, context, -, hc⟩
      · simp only [interpretWithin, h, he']
      · cases hf
      · cases hc
    | failed f => exact hfail
    | fault f => exact hfail
    | overflow => exact hfail

end Forth
