import Forth.Proofs.StackEffects
import Forth.Proofs.Turns

/-!
# Division toward zero

Quotient and remainder are found by their sizes and signs. They are the only ones that make up the dividend with
a remainder that is smaller than the divisor and has the sign of the dividend (`Cell.truncates_iff`). From that it
follows what the words that divide leave, how it changes with the signs of the operands, and that it makes up the
dividend again (`divides_toward_zero`).
-/
namespace Forth

namespace Cell

/-- The quotient and what it leaves over: less than the divisor, and zero or of the sign of the dividend. -/
structure Truncates (a b q r : Int) : Prop where
  eq : a = b * q + r
  lt : r.natAbs < b.natAbs
  sign : r = 0 ∨ r.sign = a.sign

variable {a b q r : Int}

theorem truncDiv_eq_tdiv (a b : Int) : truncDiv a b = a.tdiv b := by
  have hnat (k : Nat) : ¬ (k : Int) < 0 := by omega
  rcases a with m | m <;> rcases b with n | n <;> simp [truncDiv, Int.tdiv, Int.negSucc_lt_zero, hnat]

theorem truncMod_eq_tmod (a b : Int) : truncMod a b = a.tmod b := by
  rw [truncMod, truncDiv_eq_tdiv, Int.tmod_def]

theorem truncates_iff (hb : b ≠ 0) : Truncates a b q r ↔ q = truncDiv a b ∧ r = truncMod a b := by
  rw [truncDiv_eq_tdiv, truncMod_eq_tmod]
  constructor
  · rintro ⟨heq, hlt, hsign⟩
    have hsum : r + b * q = a := by omega
    -- the sign of the dividend says on which side of zero the remainder is, and there it is unique
    rcases Int.le_total 0 a with ha | ha
    · have hr : 0 ≤ r := by
        rcases hsign with rfl | hsign
        · exact Int.le_refl 0
        · rwa [← Int.sign_nonneg_iff, hsign, Int.sign_nonneg_iff]
      obtain ⟨hq, hr⟩ := (Int.tdiv_tmod_unique ha hb).2 ⟨hsum, hr, by omega⟩
      exact ⟨hq.symm, hr.symm⟩
    · have hr : r ≤ 0 := by
        rcases hsign with rfl | hsign
        · exact Int.le_refl 0
        · rwa [← Int.sign_nonpos_iff, hsign, Int.sign_nonpos_iff]
      obtain ⟨hq, hr⟩ := (Int.tdiv_tmod_unique' ha hb).2 ⟨hsum, by omega, hr⟩
      exact ⟨hq.symm, hr.symm⟩
  · rintro ⟨rfl, rfl⟩
    refine ⟨(Int.mul_tdiv_add_tmod a b).symm, ?_, ?_⟩
    · rw [Int.natAbs_tmod]
      exact Nat.mod_lt _ (Int.natAbs_pos.2 hb)
    · have hsign := Int.sign_tmod a b
      split at hsign
      · exact .inl (Int.sign_eq_zero_iff_zero.1 hsign)
      · exact .inr hsign

theorem truncates (a : Int) (hb : b ≠ 0) : Truncates a b (truncDiv a b) (truncMod a b) :=
  (truncates_iff hb).2 ⟨rfl, rfl⟩

namespace Truncates

theorem unique {q' r' : Int} (hb : b ≠ 0) (h : Truncates a b q r) (h' : Truncates a b q' r') :
    q' = q ∧ r' = r := by
  obtain ⟨rfl, rfl⟩ := (truncates_iff hb).1 h
  exact (truncates_iff hb).1 h'

/-- With the divisor the quotient changes its sign, -/
theorem neg_divisor (h : Truncates a b q r) : Truncates a (-b) (-q) r where
  eq := by rw [Int.neg_mul_neg]; exact h.eq
  lt := by rw [Int.natAbs_neg]; exact h.lt
  sign := h.sign

/-- and with the dividend both do. -/
theorem neg_dividend (h : Truncates a b q r) : Truncates (-a) b (-q) (-r) where
  eq := by rw [Int.mul_neg, ← Int.neg_add, ← h.eq]
  lt := by rw [Int.natAbs_neg]; exact h.lt
  sign := by
    rw [Int.neg_eq_zero, Int.sign_neg, Int.sign_neg, Int.neg_inj]
    exact h.sign

end Truncates

end Cell

open Cell

/-- Wherever the token stands, it leaves one stack for the other, and nothing else changes. -/
def Leaves (d : Dictionary Empty) (token : String) (st st' : Stack) : Prop :=
  ∀ (nested : Nested Empty) (site : Site) (rest : List String) (s : Scope Empty), s.words = d → s.stack = st →
    step nested site token rest s = .ok (.next 0) { s with stack := st' }

variable {d : Dictionary Empty} {token : String} {w : Simple} {part : Int × Int → Int} {a b q r : Int}

theorem leaves_divide (hw : d.sense token = .primitive (.simple w)) (he : w.effect? = some (.divide part))
    (hb : b ≠ 0) (h : Truncates a b q r) (base : Stack) :
    Leaves d token (b :: a :: base) (part (q, r) :: base) := by
  rintro nested site rest s rfl hstack
  obtain ⟨rfl, rfl⟩ := (truncates_iff hb).1 h
  rw [step_simple _ _ hw, w.onStack he, hstack, StackEffect.divide_cons part hb]

/-- A word that divides raises a division by zero exactly if it has two operands and the divisor is zero. The operands
are gone then. -/
theorem divide_by_zero_iff {s t : Scope Empty} (hw : s.words.sense token = .primitive (.simple w))
    (he : w.effect? = some (.divide part)) (nested : Nested Empty) (site : Site) (rest contexts : List String)
    (offset : Int) :
    step nested site token rest s = .error ⟨.failed ⟨.divisionByZero, contexts⟩, offset⟩ t ↔
      contexts = [] ∧ offset = 0 ∧ ∃ a base, s.stack = 0 :: a :: base ∧ t = { s with stack := base } := by
  rw [step_simple _ _ hw, w.onStack he]
  rcases s.stack with _ | ⟨b, _ | ⟨a, base⟩⟩
  · simp [Break.ofTrouble]
  · simp [Break.ofTrouble]
  · by_cases hb : b = 0
    · subst hb
      simp only [StackEffect.divide_zero, Mishap.cause, Break.ofTrouble]
      constructor
      · rintro ⟨⟩
        exact ⟨rfl, rfl, a, base, rfl, rfl⟩
      · rintro ⟨rfl, rfl, a, base, ⟨⟩, rfl⟩
        rfl
    · simp [StackEffect.divide_cons part hb, hb]

section Sequences

variable {limit : Nat} {loop : Option Int} {xs ys : List String} {dividing : String}

/-- Operands with a word that divides behind them. -/
theorem Denotes.divide (hx : Denotes d (limit + 1) loop xs (.push a)) (hy : Denotes d (limit + 1) loop ys (.push b))
    (hdivide : Denotes d (limit + 1) loop [dividing] (.divide part)) (hb : b ≠ 0) (h : Truncates a b q r) :
    Denotes d (limit + 1) loop (xs ++ ys ++ [dividing]) (.push (part (q, r))) := by
  obtain ⟨rfl, rfl⟩ := (truncates_iff hb).1 h
  refine ((hx.append hy).append hdivide).congr fun st => ?_
  simp only [StackEffect.seq_apply, StackEffect.push_apply, StackEffect.divide_cons part hb]

/-- The product of quotient and divisor, and the remainder added to it. -/
theorem Denotes.recombine (hy : Denotes d (limit + 1) loop ys (.push b))
    (hdiv : Denotes d (limit + 1) loop (xs ++ ys ++ ["/"]) (.push q))
    (hmod : Denotes d (limit + 1) loop (xs ++ ys ++ ["mod"]) (.push r))
    (hmul : Denotes d (limit + 1) loop ["*"] (.binary (· * ·)))
    (hadd : Denotes d (limit + 1) loop ["+"] (.binary (· + ·))) (h : Truncates a b q r) :
    Denotes d (limit + 1) loop (xs ++ ys ++ ["/"] ++ ys ++ ["*"] ++ (xs ++ ys ++ ["mod"]) ++ ["+"]) (.push a) := by
  refine ((((hdiv.append hy).append hmul).append hmod).append hadd).congr fun st => ?_
  simp only [StackEffect.seq_apply, StackEffect.push_apply, StackEffect.binary_cons, Int.mul_comm q b, ← h.eq]

end Sequences

/-- On every dictionary that grows out of the standard words: with a divisor that is not zero, the words that divide
leave the one quotient and the one remainder that truncate. The other divisor of that size changes the sign of the
quotient only, the other dividend that of both, and quotient and remainder make up the dividend again. A division by
zero is raised exactly where the divisor is zero; then the operands are gone, and the rest of the stack is kept. -/
theorem divides_toward_zero {given : List (Word Empty)} (hd : Later standardWords given d) :
    (∀ a b : Int, b ≠ 0 → ∃ q r, Truncates a b q r ∧ (∀ q' r', Truncates a b q' r' → q' = q ∧ r' = r) ∧
      (∀ base, Leaves d "/" (b :: a :: base) (q :: base) ∧ Leaves d "mod" (b :: a :: base) (r :: base) ∧
        Leaves d "/" (-b :: a :: base) (-q :: base) ∧ Leaves d "mod" (-b :: a :: base) (r :: base) ∧
        Leaves d "/" (b :: -a :: base) (-q :: base) ∧ Leaves d "mod" (b :: -a :: base) (-r :: base)) ∧
      ∀ limit loop xs ys, Denotes d (limit + 1) loop xs (.push a) → Denotes d (limit + 1) loop ys (.push b) →
        Denotes d (limit + 1) loop (xs ++ ys ++ ["/"]) (.push q) ∧
        Denotes d (limit + 1) loop (xs ++ ys ++ ["mod"]) (.push r) ∧
        Denotes d (limit + 1) loop (xs ++ ys ++ ["/"] ++ ys ++ ["*"] ++ (xs ++ ys ++ ["mod"]) ++ ["+"])
          (.push a)) ∧
    ∀ token ∈ ["/", "mod"], ∀ nested site rest contexts offset (s t : Scope Empty), s.words = d →
      (step nested site token rest s = .error ⟨.failed ⟨.divisionByZero, contexts⟩, offset⟩ t ↔
        contexts = [] ∧ offset = 0 ∧ ∃ a base, s.stack = 0 :: a :: base ∧ t = { s with stack := base }) := by
  have sense {token : String} {p : Primitive Empty} (hp : primitiveWords.sense token = .primitive p) :=
    hd.extends.sense_primitive hp
  have hdiv : d.sense "/" = .primitive (.simple .div) := sense (by decide)
  have hmod : d.sense "mod" = .primitive (.simple .mod) := sense (by decide)
  refine ⟨fun a b hb => ?_, fun token htoken nested site rest contexts offset s t hs => ?_⟩
  · have hb' : -b ≠ 0 := Int.neg_ne_zero.2 hb
    have h := truncates a hb
    refine ⟨_, _, h, fun q' r' => h.unique hb, fun base => ?_, fun limit loop xs ys hx hy => ?_⟩
    · exact ⟨leaves_divide hdiv rfl hb h base, leaves_divide hmod rfl hb h base,
        leaves_divide hdiv rfl hb' h.neg_divisor base, leaves_divide hmod rfl hb' h.neg_divisor base,
        leaves_divide hdiv rfl hb h.neg_dividend base, leaves_divide hmod rfl hb h.neg_dividend base⟩
    · have hquotient := Denotes.divide hx hy (.simple hdiv rfl) hb h
      have hremainder := Denotes.divide hx hy (.simple hmod rfl) hb h
      exact ⟨hquotient, hremainder, .recombine hy hquotient hremainder
        (.simple (w := .mul) (sense (by decide)) rfl) (.simple (w := .add) (sense (by decide)) rfl) h⟩
  · subst hs
    rcases List.mem_cons.1 htoken with rfl | htoken
    · exact divide_by_zero_iff hdiv rfl nested site rest contexts offset
    · obtain rfl := List.mem_singleton.1 htoken
      exact divide_by_zero_iff hmod rfl nested site rest contexts offset

/-- Minus seven by two, on the stack and in a sequence, and by zero. -/
theorem divides_toward_zero_negative :
    let s (stack : Stack) : Scope Empty := ⟨⟨stack, .zeros 2, standardWords, .ofText "", #[]⟩, []⟩
    step (inside 0) ⟨["/"], 0, none⟩ "/" [] (s [2, -7, 1]) = .ok (.next 0) (s [-3, 1]) ∧
      step (inside 0) ⟨["mod"], 0, none⟩ "mod" [] (s [2, -7, 1]) = .ok (.next 0) (s [-1, 1]) ∧
      evaluate 1 none ["-7", "2", "/", "2", "*", "-7", "2", "mod", "+"] (s [1]) = .ok () (s [-7, 1]) ∧
      step (inside 0) ⟨["mod"], 0, none⟩ "mod" [] (s [0, -7, 1]) =
        .error ⟨.failed ⟨.divisionByZero, []⟩, 0⟩ (s [1]) := by
  intro s
  obtain ⟨hdivide, hzero⟩ := divides_toward_zero (d := standardWords) .now
  obtain ⟨q, r, -, hunique, hleaves, hdenotes⟩ := hdivide (-7) 2 (by decide)
  obtain ⟨rfl, rfl⟩ := hunique (-3) (-1) ⟨by decide, by decide, by decide⟩
  obtain ⟨hquotient, hremainder, -⟩ := hleaves [1]
  obtain ⟨-, -, hrecombined⟩ := hdenotes 0 none ["-7"] ["2"] (.number (by decide)) (.number (by decide))
  refine ⟨hquotient _ _ _ (s _) rfl rfl, hremainder _ _ _ (s _) rfl rfl, hrecombined (s [1]) rfl, ?_⟩
  exact (hzero "mod" (by decide) _ _ _ _ _ (s [0, -7, 1]) _ rfl).2 ⟨rfl, rfl, -7, [1], rfl, rfl⟩

end Forth
