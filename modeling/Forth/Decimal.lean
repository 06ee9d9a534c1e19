/-!
Decimal notation, written and read a block of digits at a time. What is written are the digits of the number
(`digits_eq_toDigits`), and what is read is the number that the digits stand for
(`value_eq_ofDigitChars`); the blocks only keep the work on long numbers small.
-/
namespace Forth.Decimal

def blockLength : Nat := 18

/-- The first number that does not fit into a block. -/
def block : Nat := 1000000000000000000

/-- The first number with more than `k` digits. -/
def firstLonger (k : Nat) : Nat := Nat.pow 10 k

/-- The last `k` digits of a number, followed by `rest`. -/
def lastDigits : (k : Nat) → Nat → List Char → List Char
  | 0, _, rest => rest
  | k + 1, n, rest => lastDigits k (n / 10) ((n % 10).digitChar :: rest)

/-- The digits of a number, followed by `rest`. At most `blocks` blocks are cut off its end. -/
def digitsBefore : (blocks : Nat) → Nat → List Char → List Char
  | 0, n, rest => Nat.toDigits 10 n ++ rest
  | blocks + 1, n, rest =>
    if n < block then Nat.toDigits 10 n ++ rest
    else digitsBefore blocks (n / block) (lastDigits blockLength (n % block) rest)

/-- The digits of a number. It has fewer blocks than binary digits. -/
def digits (n : Nat) : List Char := digitsBefore n.log2 n []

/-- The number that digits stand for after `high * scale + low`. The digits of a block gather in `low`, and
`scale` is ten to the number of them. -/
def valueAfter : List Char → (high low scale : Nat) → Nat
  | [], high, low, scale => high * scale + low
  | c :: ds, high, low, scale =>
    if scale < block then valueAfter ds high (10 * low + (c.toNat - '0'.toNat)) (10 * scale)
    else valueAfter ds (high * scale + low) (c.toNat - '0'.toNat) 10

def value (ds : List Char) : Nat := valueAfter ds 0 0 1

theorem lt_firstLonger_iff {n k : Nat} (hk : 0 < k) :
    n < firstLonger k ↔ (Nat.toDigits 10 n).length ≤ k :=
  (Nat.length_toDigits_le_iff (by decide) hk).symm

theorem toDigits_append_lastDigits {a : Nat} (ha : 0 < a) (k d : Nat) (hd : d < firstLonger k)
    (rest : List Char) :
    Nat.toDigits 10 a ++ lastDigits k d rest = Nat.toDigits 10 (firstLonger k * a + d) ++ rest := by
  simp only [firstLonger, Nat.pow_eq] at hd ⊢
  induction k generalizing d rest with
  | zero =>
    have : d = 0 := by simpa using hd
    simp [lastDigits, this]
  | succ k ih =>
    have hk : d / 10 < 10 ^ k := by
      rw [Nat.pow_succ] at hd
      omega
    have hp : 0 < 10 ^ k * a + d / 10 :=
      Nat.lt_of_lt_of_le (Nat.mul_pos (Nat.pow_pos (by decide)) ha) (Nat.le_add_right ..)
    have hn : 10 ^ (k + 1) * a + d = 10 * (10 ^ k * a + d / 10) + d % 10 := by
      rw [Nat.pow_succ, Nat.mul_comm (10 ^ k) 10, Nat.mul_assoc]
      omega
    have hm : d % 10 < 10 := Nat.mod_lt _ (by decide)
    rw [lastDigits, ih _ hk, hn, ← Nat.toDigits_append_toDigits (by decide) hp hm,
      Nat.toDigits_of_lt_base hm, List.append_assoc, List.singleton_append]

theorem digitsBefore_eq (blocks n : Nat) (rest : List Char) :
    digitsBefore blocks n rest = Nat.toDigits 10 n ++ rest := by
  induction blocks generalizing n rest with
  | zero => rfl
  | succ blocks ih =>
    unfold digitsBefore
    split
    · rfl
    · next h =>
      have hq : 0 < n / block := Nat.div_pos (Nat.not_lt.1 h) (by decide)
      have hr : n % block < firstLonger blockLength := Nat.mod_lt _ (by decide)
      rw [ih, toDigits_append_lastDigits hq blockLength _ hr]
      have : firstLonger blockLength * (n / block) + n % block = n := Nat.div_add_mod n block
      rw [this]

theorem digits_eq_toDigits (n : Nat) : digits n = Nat.toDigits 10 n := by
  rw [digits, digitsBefore_eq, List.append_nil]

theorem valueAfter_eq (ds : List Char) (high low scale : Nat) :
    valueAfter ds high low scale = Nat.ofDigitChars 10 ds (high * scale + low) := by
  induction ds generalizing high low scale with
  | nil => rfl
  | cons c ds ih =>
    unfold valueAfter
    split
    · rw [ih, Nat.ofDigitChars_cons]
      congr 1
      rw [Nat.mul_add, ← Nat.mul_assoc 10 high, ← Nat.mul_assoc high 10, Nat.mul_comm 10 high]
      omega
    · rw [ih, Nat.ofDigitChars_cons]
      congr 1
      omega

theorem value_eq_ofDigitChars (ds : List Char) : value ds = Nat.ofDigitChars 10 ds 0 := by
  rw [value, valueAfter_eq]

/-- What is written for a number is read as that number. -/
theorem value_digits (n : Nat) : value (digits n) = n := by
  rw [value_eq_ofDigitChars, digits_eq_toDigits]
  exact Nat.ofDigitChars_toDigits (by decide) (by decide)

end Forth.Decimal
