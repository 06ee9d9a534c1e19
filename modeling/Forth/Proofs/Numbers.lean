import Forth.Proofs.Input
import Forth.Proofs.Spacing
import Forth.Proofs.Turns

/-!
# Numbers as tokens

A number is spelt as a sign, perhaps none, and digits, and its value is that of the digits by their positions. Of
the spellings of a number one is bare: no plus, no zeros in front, and no sign of zero. That is the one that is
written, and two spellings have the same value exactly if what is left of them is the same (`reads_by_grammar`).
-/
namespace Forth.Numeral

inductive Sign where
  | none
  | plus
  | minus
  deriving DecidableEq, Repr

namespace Sign

def chars : Sign → List Char
  | .none => []
  | .plus => ['+']
  | .minus => ['-']

def apply : Sign → Nat → Int
  | .minus, n => -(n : Int)
  | _, n => n

end Sign

/-- The token is a sign, perhaps none, with one or more of the ten digits behind it, and nothing else. -/
structure Spells (token : String) (sign : Sign) (digits : List Char) : Prop where
  chars : token.toList = sign.chars ++ digits
  ne_nil : digits ≠ []
  ascii : ∀ c ∈ digits, '0' ≤ c ∧ c ≤ '9'

/-- The value of digits: each counts as often as its position says. -/
def positional : List Char → Nat
  | [] => 0
  | c :: digits => (c.toNat - '0'.toNat) * Nat.pow 10 digits.length + positional digits

/-- What is left of digits without the zeros in front. -/
def significant (digits : List Char) : List Char := digits.dropWhile (· = '0')

/-- What is left of a number without a plus and without zeros in front; zero has one digit and no sign. -/
def bare (sign : Sign) (digits : List Char) : List Char :=
  if significant digits = [] then ['0']
  else if sign = .minus then '-' :: significant digits
  else significant digits

variable {token : String} {sign sign' : Sign} {digits digits' : List Char} {n n' : Int} {c : Char}

/-! ### The grammar -/

theorem isDigits_iff : isDigits digits = true ↔ digits ≠ [] ∧ ∀ c ∈ digits, '0' ≤ c ∧ c ≤ '9' := by
  simp [isDigits, Char.isDigit, Char.le_def]

theorem Spells.of_isDigits (h : token.toList = sign.chars ++ digits) (hd : isDigits digits = true) :
    Spells token sign digits :=
  ⟨h, (isDigits_iff.1 hd).1, (isDigits_iff.1 hd).2⟩

theorem Spells.splitSign_eq (h : Spells token sign digits) :
    splitSign token.toList = (decide (sign = .minus), digits) := by
  rw [h.chars]
  cases sign with
  | none => exact splitSign_of_isDigits (isDigits_iff.2 ⟨h.ne_nil, h.ascii⟩)
  | plus => rfl
  | minus => rfl

theorem spells_of_splitSign {negative : Bool} (hs : splitSign token.toList = (negative, digits))
    (hd : isDigits digits = true) : ∃ sign, Spells token sign digits := by
  unfold splitSign at hs
  split at hs
  · next rest htoken =>
    cases hs
    exact ⟨.minus, .of_isDigits htoken hd⟩
  · next rest htoken =>
    cases hs
    exact ⟨.plus, .of_isDigits htoken hd⟩
  · cases hs
    exact ⟨.none, .of_isDigits rfl hd⟩

theorem positional_eq_value (digits : List Char) : positional digits = Decimal.value digits := by
  rw [Decimal.value_eq_ofDigitChars]
  induction digits with
  | nil => rfl
  | cons c digits ih =>
    rw [positional, ih, Nat.ofDigitChars_cons, Nat.mul_zero, Nat.zero_add]
    conv => rhs; rw [Nat.ofDigitChars_eq_ofDigitChars_zero]
    rw [Nat.pow_eq, Nat.mul_comm]

theorem applySign_eq (sign : Sign) (n : Nat) : applySign (decide (sign = .minus)) n = sign.apply n := by
  cases sign <;> rfl

/-- What a spelling is read as. -/
theorem Spells.read_eq (h : Spells token sign digits) :
    read token = if digitLimit < digits.length then .tooLong else .value (sign.apply (positional digits)) := by
  have hd := isDigits_iff.2 ⟨h.ne_nil, h.ascii⟩
  simp only [read, readChars, h.splitSign_eq, hd, applySign_eq, positional_eq_value, Bool.not_true,
    Bool.false_eq_true, if_false]

theorem Spells.eq_apply (h : Spells token sign digits) (hn : read token = .value n) :
    n = sign.apply (positional digits) := by
  rw [h.read_eq] at hn
  split at hn
  · cases hn
  · exact (Reading.value.inj hn).symm

/-- What is no spelling is no number. -/
theorem read_of_not_spells (h : ∀ sign digits, ¬ Spells token sign digits) : read token = .other := by
  unfold read readChars
  cases hs : splitSign token.toList with
  | mk negative digits =>
    cases hd : isDigits digits with
    | false => simp [hd]
    | true =>
      obtain ⟨sign, hspells⟩ := spells_of_splitSign hs hd
      exact absurd hspells (h sign digits)

theorem read_eq_other_iff : read token = .other ↔ ∀ sign digits, ¬ Spells token sign digits := by
  constructor
  · intro h sign digits hspells
    rw [hspells.read_eq] at h
    split at h <;> cases h
  · exact read_of_not_spells

theorem read_eq_tooLong_iff_spells :
    read token = .tooLong ↔ ∃ sign digits, Spells token sign digits ∧ digitLimit < digits.length := by
  constructor
  · intro h
    by_cases hs : ∃ sign digits, Spells token sign digits
    · obtain ⟨sign, digits, hspells⟩ := hs
      refine ⟨sign, digits, hspells, ?_⟩
      rw [hspells.read_eq] at h
      split at h
      · assumption
      · cases h
    · rw [read_of_not_spells fun sign digits hspells => hs ⟨sign, digits, hspells⟩] at h
      cases h
  · rintro ⟨sign, digits, hspells, hlong⟩
    rw [hspells.read_eq, if_pos hlong]

theorem read_eq_value_iff : read token = .value n ↔
    ∃ sign digits, Spells token sign digits ∧ digits.length ≤ digitLimit ∧ n = sign.apply (positional digits) := by
  constructor
  · intro h
    by_cases hs : ∃ sign digits, Spells token sign digits
    · obtain ⟨sign, digits, hspells⟩ := hs
      refine ⟨sign, digits, hspells, Nat.not_lt.1 fun hlong => ?_, hspells.eq_apply h⟩
      rw [hspells.read_eq, if_pos hlong] at h
      cases h
    · rw [read_of_not_spells fun sign digits hspells => hs ⟨sign, digits, hspells⟩] at h
      cases h
  · rintro ⟨sign, digits, hspells, hlength, rfl⟩
    rw [hspells.read_eq, if_neg (Nat.not_lt.2 hlength)]

/-! ### Bare spellings -/

theorem digitChar_of_ascii (hc : '0' ≤ c ∧ c ≤ '9') : (c.toNat - '0'.toNat) < 10 ∧
    Nat.digitChar (c.toNat - '0'.toNat) = c := by
  have hlow : 48 ≤ c.toNat := hc.1
  have hhigh : c.toNat ≤ 57 := hc.2
  have hlt : c.toNat - '0'.toNat < 10 := by simp; omega
  refine ⟨hlt, Char.toNat_inj.1 ?_⟩
  rw [Nat.toNat_digitChar_of_lt_ten hlt]
  simp
  omega

/-- Digits behind a number that is not zero are digits of the whole. -/
theorem toDigits_ofDigitChars (h : ∀ c ∈ digits, '0' ≤ c ∧ c ≤ '9') {high : Nat} (hhigh : 0 < high) :
    Nat.toDigits 10 (Nat.ofDigitChars 10 digits high) = Nat.toDigits 10 high ++ digits := by
  induction digits generalizing high with
  | nil => simp
  | cons c digits ih =>
    obtain ⟨hlt, hc⟩ := digitChar_of_ascii (h c List.mem_cons_self)
    have hnext : 0 < 10 * high + (c.toNat - '0'.toNat) := by omega
    rw [Nat.ofDigitChars_cons, ih (fun c hc => h c (List.mem_cons_of_mem _ hc)) hnext,
      ← Nat.toDigits_append_toDigits (by decide) hhigh hlt, Nat.toDigits_of_lt_base hlt, hc, List.append_assoc,
      List.singleton_append]

theorem significant_cons (c : Char) (digits : List Char) :
    significant (c :: digits) = if c = '0' then significant digits else c :: digits := by
  by_cases hc : c = '0' <;> simp [significant, hc]

theorem positional_zero_cons (digits : List Char) : positional ('0' :: digits) = positional digits := by
  simp [positional]

theorem digit_pos (h : '0' ≤ c ∧ c ≤ '9') (hc : c ≠ '0') : 0 < c.toNat - '0'.toNat := by
  rcases Nat.eq_zero_or_pos (c.toNat - '0'.toNat) with hzero | hpos
  · have hchar := (digitChar_of_ascii h).2
    rw [hzero] at hchar
    exact absurd hchar.symm hc
  · exact hpos

/-- The digits of a value are the significant ones. -/
theorem toDigits_positional (h : ∀ c ∈ digits, '0' ≤ c ∧ c ≤ '9') :
    Nat.toDigits 10 (positional digits) = if significant digits = [] then ['0'] else significant digits := by
  induction digits with
  | nil => rfl
  | cons c digits ih =>
    have hrest : ∀ c ∈ digits, '0' ≤ c ∧ c ≤ '9' := fun c hc => h c (List.mem_cons_of_mem _ hc)
    have hfirst := h c List.mem_cons_self
    rw [significant_cons]
    by_cases hc : c = '0'
    · rw [if_pos hc, hc, positional_zero_cons, ih hrest]
    · obtain ⟨hlt, hchar⟩ := digitChar_of_ascii hfirst
      rw [if_neg hc, if_neg (by simp), positional_eq_value, Decimal.value_eq_ofDigitChars, Nat.ofDigitChars_cons,
        Nat.mul_zero, Nat.zero_add, toDigits_ofDigitChars hrest (digit_pos hfirst hc),
        Nat.toDigits_of_lt_base hlt, hchar, List.singleton_append]

/-- A value is zero if all digits are. -/
theorem positional_eq_zero_iff (h : ∀ c ∈ digits, '0' ≤ c ∧ c ≤ '9') :
    positional digits = 0 ↔ significant digits = [] := by
  induction digits with
  | nil => simp [positional, significant]
  | cons c digits ih =>
    rw [significant_cons]
    by_cases hc : c = '0'
    · rw [if_pos hc, hc, positional_zero_cons, ih fun c hc => h c (List.mem_cons_of_mem _ hc)]
    · have hdigit := digit_pos (h c List.mem_cons_self) hc
      have hplace : 0 < Nat.pow 10 digits.length := Nat.pow_pos (by decide)
      have hpos := Nat.mul_pos hdigit hplace
      rw [if_neg hc, positional]
      exact iff_of_false (by omega) (by simp)

/-- What is written for a value is its bare spelling. -/
theorem text_apply (h : ∀ c ∈ digits, '0' ≤ c ∧ c ≤ '9') :
    text (sign.apply (positional digits)) = String.ofList (bare sign digits) := by
  have hdigits := toDigits_positional h
  have hzero := positional_eq_zero_iff h
  rw [text, Decimal.digits_eq_toDigits, bare]
  generalize positional digits = v at hdigits hzero
  by_cases hs : significant digits = []
  · obtain rfl := hzero.2 hs
    cases sign <;> simp [hs, Sign.apply]
  · have hv : v ≠ 0 := fun hv => hs (hzero.1 hv)
    rw [if_neg hs] at hdigits
    cases sign with
    | minus =>
      have hneg : Sign.minus.apply v < 0 := by simp only [Sign.apply]; omega
      have habs : (Sign.minus.apply v).natAbs = v := by simp [Sign.apply]
      simp only [hneg, habs, hdigits, hs, if_true, if_false]
    | none | plus =>
      have hnonneg : ¬ (v : Int) < 0 := by omega
      simp only [Sign.apply, hnonneg, Int.natAbs_natCast, hdigits, hs, if_false, reduceCtorEq]

theorem toDigits_inj {a b : Nat} (h : Nat.toDigits 10 a = Nat.toDigits 10 b) : a = b := by
  have hvalue := congrArg (Nat.ofDigitChars 10 · 0) h
  simpa using hvalue

theorem minus_not_mem_toDigits (n : Nat) : '-' ∉ Nat.toDigits 10 n := by
  intro hmem
  have hdigit := Nat.isDigit_of_mem_toDigits (by decide) (by decide) hmem
  cases hdigit

/-- No two numbers are written alike. -/
theorem text_inj (h : text n = text n') : n = n' := by
  have hchars := congrArg String.toList h
  simp only [text, Decimal.digits_eq_toDigits, String.toList_ofList] at hchars
  -- texts of different signs differ in their first characters, since no digit is a minus
  by_cases hn : n < 0 <;> by_cases hn' : n' < 0 <;> simp only [hn, hn', if_true, if_false] at hchars
  · have habs := toDigits_inj (List.cons.inj hchars).2
    omega
  · exact absurd (hchars ▸ List.mem_cons_self) (minus_not_mem_toDigits _)
  · exact absurd (hchars ▸ List.mem_cons_self) (minus_not_mem_toDigits _)
  · have habs := toDigits_inj hchars
    omega

/-- Two spellings have one value exactly if they are bare alike. -/
theorem apply_eq_iff_bare (h : ∀ c ∈ digits, '0' ≤ c ∧ c ≤ '9') (h' : ∀ c ∈ digits', '0' ≤ c ∧ c ≤ '9') :
    sign.apply (positional digits) = sign'.apply (positional digits') ↔ bare sign digits = bare sign' digits' := by
  constructor
  · intro heq
    have htext := congrArg text heq
    rw [text_apply h, text_apply h'] at htext
    exact String.ofList_injective htext
  · intro heq
    refine text_inj ?_
    rw [text_apply h, text_apply h', heq]

/-! ### Reading and writing -/

theorem spells_text (n : Int) :
    Spells (text n) (if n < 0 then .minus else .none) (Nat.toDigits 10 n.natAbs) := by
  refine .of_isDigits ?_ (isDigits_toDigits n.natAbs)
  rw [text, Decimal.digits_eq_toDigits, String.toList_ofList]
  by_cases hn : n < 0
  · simp only [hn, if_true, Sign.chars, List.singleton_append]
  · simp only [hn, if_false, Sign.chars, List.nil_append]

/-- Spellings are tokens. -/
theorem Spells.solid (h : Spells token sign digits) : Text.Solid token := by
  have hdigit : ∀ c ∈ digits, Text.isDelimiter c = false := by
    intro c hc
    obtain ⟨hlow, -⟩ := h.ascii c hc
    simp only [Text.isDelimiter, Bool.or_eq_false_iff, decide_eq_false_iff_not]
    refine ⟨⟨⟨?_, ?_⟩, ?_⟩, ?_⟩ <;> rintro rfl <;> exact absurd hlow (by decide)
  have hsign : ∀ c ∈ sign.chars, Text.isDelimiter c = false := by
    cases sign <;> simp [Sign.chars, Text.isDelimiter]
  constructor
  · rintro rfl
    have hnil := h.chars
    rw [String.toList_empty, eq_comm, List.append_eq_nil_iff] at hnil
    exact h.ne_nil hnil.2
  · rw [h.chars]
    intro c hc
    rcases List.mem_append.1 hc with hc | hc
    · exact hsign c hc
    · exact hdigit c hc

/-- The text of a number gives the number back: as a token, as what is written for a cell, as a program, and as a line
of input. -/
structure ReadsBack (n : Int) : Prop where
  token : tokenize (text n) = [text n]
  read : Numeral.read (text n) = .value n
  written {given : List (Word Empty)} {s : Scope Empty} {below : Stack} (site : Site) (rest : List String)
    (nested : Nested Empty) :
    Later standardWords given s.words → s.stack = n :: below → s.console.sink.accepts = true →
      step nested site "." rest s =
        .ok (.next 0)
          { s with stack := below, console := { s.console with sink := s.console.sink.append (text n) } }
  evaluated (limit : Nat) (loop : Option Int) (s : Scope Empty) :
    interpretWithin (limit + 1) loop [text n] s = .ok () { s with stack := n :: s.stack }
  asked {given : List (Word Empty)} {s : Scope Empty} {source : Source} (site : Site) (rest : List String)
    (nested : Nested Empty) :
    Later standardWords given s.words → s.console.source.readLine = (.ok (some (text n)), source) →
      step nested site "inputn" rest s =
        .ok (.next 0) { s with stack := n :: s.stack, console := { s.console with source } }

theorem readsBack (h : (Nat.toDigits 10 n.natAbs).length ≤ digitLimit) : ReadsBack n := by
  have hbound : n.natAbs < textBound := lt_textBound_iff.2 h
  have hread := read_text hbound
  have hsolid := (spells_text n).solid
  refine ⟨hsolid.tokenize_eq, hread, ?_, ?_, ?_⟩
  · intro given s below site rest nested hd hstack hsink
    have hword : s.words.sense "." = .primitive (.simple .print) := hd.extends.sense_primitive (by decide)
    obtain ⟨m, vars⟩ := s
    obtain ⟨stack, memory, words, console, journal⟩ := m
    cases hstack
    rw [step_simple _ _ hword]
    simp only [Simple.act, bind, EStateM.bind, Machine.pop, Machine.writeNumber, text?, hbound, if_true,
      Machine.emit?, Machine.emit, hsolid.isEmpty_eq, hsink, Bool.false_eq_true, if_false]
  · intro limit loop s
    exact interpretWithin_of_step (step_number _ _ hread)
  · intro given s source site rest nested hd hline
    have hword : s.words.sense "inputn" = .primitive (.simple .readNumber) :=
      hd.extends.sense_primitive (by decide)
    have haccept : wholeNumber? (text n) = some n := by rw [wholeNumber?, hread]
    have hact : Simple.readNumber.act s.toMachine = _ :=
      pushInput_of_accepted hline (hsolid.isEmpty_eq) haccept
    rw [step_simple _ _ hword, hact]

/-- A token is a number exactly if it is spelt as one. It is too long if it has more digits than may be read, with
zeros in front and without its sign; otherwise the value is that of the digits by their positions. Two spellings
have one value exactly if they are bare alike, and what is written for a number gives it back. -/
theorem reads_by_grammar :
    (∀ token, read token = .other ↔ ∀ sign digits, ¬ Spells token sign digits) ∧
    (∀ token, read token = .tooLong ↔ ∃ sign digits, Spells token sign digits ∧ digitLimit < digits.length) ∧
    (∀ token sign digits, Spells token sign digits → digits.length ≤ digitLimit →
      read token = .value (sign.apply (positional digits))) ∧
    (∀ token token' sign sign' digits digits' n n', Spells token sign digits → Spells token' sign' digits' →
      read token = .value n → read token' = .value n' → (n = n' ↔ bare sign digits = bare sign' digits')) ∧
    ∀ n : Int, (Nat.toDigits 10 n.natAbs).length ≤ digitLimit → ReadsBack n := by
  refine ⟨fun _ => read_eq_other_iff, fun _ => read_eq_tooLong_iff_spells, ?_, ?_, fun _ => readsBack⟩
  · intro token sign digits h hlength
    exact read_eq_value_iff.2 ⟨sign, digits, h, hlength, rfl⟩
  · intro token token' sign sign' digits digits' n n' h h' hn hn'
    rw [h.eq_apply hn, h'.eq_apply hn']
    exact apply_eq_iff_bare h.ascii h'.ascii

/-- Two spellings of minus seven, zeros that are too many, and a number that is written and read. -/
theorem reads_by_grammar_zeros :
    let words : Dictionary Empty := standardWords
    let s (stack : Stack) (written : String) (lines : List String) : Scope Empty :=
      ⟨⟨stack, .zeros 2, words, ⟨.text written, .queue lines⟩, #[]⟩, []⟩
    read "-007" = .value (-7) ∧ bare .minus ['0', '0', '7'] = bare .minus ['7'] ∧
      read (String.ofList (List.replicate 4301 '0')) = .tooLong ∧
      step (inside 0) ⟨["."], 0, none⟩ "." [] (s [-120, 5] "a" []) = .ok (.next 0) (s [5] "a-120" []) ∧
      interpretWithin 1 none ["-120"] (s [5] "" []) = .ok () (s [-120, 5] "" []) ∧
      step (inside 0) ⟨["inputn"], 0, none⟩ "inputn" [] (s [] "" ["-120", "7"]) =
        .ok (.next 0) (s [-120] "" ["7"]) := by
  intro words s
  obtain ⟨-, hlong, hshort, hsame, hback⟩ := reads_by_grammar
  have hseven : Spells "-7" .minus ['7'] := .of_isDigits rfl (by decide)
  have hzeros : Spells "-007" .minus ['0', '0', '7'] := .of_isDigits rfl (by decide)
  have hread := hshort _ _ _ hzeros (by decide)
  have htext : text (-120) = "-120" := by decide
  obtain ⟨-, -, hwritten, hevaluated, hasked⟩ := hback (-120) (by decide)
  rw [htext] at hwritten hevaluated hasked
  refine ⟨hread, ?_, ?_, ?_, hevaluated 0 none (s [5] "" []), ?_⟩
  · exact (hsame _ _ _ _ _ _ _ _ hzeros hseven hread (hshort _ _ _ hseven (by decide))).1 rfl
  · refine (hlong _).2 ⟨.none, List.replicate 4301 '0', ⟨String.toList_ofList, ?_, ?_⟩, ?_⟩
    · rw [ne_eq, List.replicate_eq_nil_iff]
      decide
    · intro c hc
      rw [List.eq_of_mem_replicate hc]
      decide
    · rw [List.length_replicate]
      decide
  · exact hwritten (s := s [-120, 5] "a" []) _ _ _ .now rfl rfl
  · exact hasked (s := s [] "" ["-120", "7"]) _ _ _ .now rfl

end Forth.Numeral
