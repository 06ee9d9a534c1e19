import Forth.Proofs.Spacing

/-!
# Texts as tokens that are laid out

A layout is what a text is made of: delimiters, then tokens, each with the delimiters behind it. Every text has one
layout and no other, and its tokens are those of its layout (`Layout.tokenize_inverts`). So a text may be cut at any
delimiter. Any other character, also white space that is no delimiter, makes one token of itself and all that stands
on both sides of it up to the next delimiters (`tokenize_append_joint`).
-/
namespace Forth.Text

variable {c : Char} {a b gap token : String}

theorem isDelimiter_iff : isDelimiter c = true ↔ c = ' ' ∨ c = '\t' ∨ c = '\r' ∨ c = '\n' := by
  simp only [isDelimiter, Bool.or_eq_true, decide_eq_true_eq, or_assoc]

/-! ### Where a text may be cut -/

theorem tokenize_append_of_head (h : ∀ c ∈ b.toList.head?, isDelimiter c = true) :
    tokenize (a ++ b) = tokenize a ++ tokenize b := by
  rw [tokenize, String.toList_append, runs_append_of_head h, List.map_append]
  rfl

theorem tokenize_append_of_last (h : ∀ c ∈ a.toList.getLast?, isDelimiter c = true) :
    tokenize (a ++ b) = tokenize a ++ tokenize b := by
  rw [tokenize, String.toList_append, runs_append_of_last h, List.map_append]
  rfl

/-- Delimiters on both sides, or the ends of the text, make a token of what is between them. -/
theorem Solid.tokenize_between (h : Solid token) (ha : ∀ c ∈ a.toList.getLast?, isDelimiter c = true)
    (hb : ∀ c ∈ b.toList.head?, isDelimiter c = true) :
    tokenize (a ++ token ++ b) = tokenize a ++ token :: tokenize b := by
  rw [tokenize_append_of_head hb, tokenize_append_of_last ha, h.tokenize_eq, List.append_assoc,
    List.singleton_append]

/-- No character but delimiters. -/
def Gap (text : String) : Prop := ∀ c ∈ text.toList, isDelimiter c = true

theorem Gap.tokenize_append (h : Gap a) : tokenize (a ++ b) = tokenize b := by
  rw [tokenize, String.toList_append, runs_append_left h]
  rfl

/-! ### Tokens in a row -/

/-- Tokens one after another, each with the delimiters behind it. -/
def spread : List (String × String) → String
  | [] => ""
  | (token, gap) :: placed => token ++ (gap ++ spread placed)

inductive Row : List (String × String) → Prop where
  | nil : Row []
  | cons {token gap : String} {placed : List (String × String)} (solid : Solid token) (delimits : Gap gap)
      (apart : gap = "" → placed = []) (rest : Row placed) : Row ((token, gap) :: placed)

/-- A list parts in one way only into elements that have a property and a rest that begins with none of them. -/
theorem part_unique {p : Char → Bool} {xs xs' ys ys' : List Char} (h : xs ++ ys = xs' ++ ys')
    (hxs : ∀ c ∈ xs, p c = true) (hxs' : ∀ c ∈ xs', p c = true) (hys : ∀ c ∈ ys.head?, p c = false)
    (hys' : ∀ c ∈ ys'.head?, p c = false) : xs = xs' ∧ ys = ys' := by
  have htake {xs ys : List Char} (hxs : ∀ c ∈ xs, p c = true) (hys : ∀ c ∈ ys.head?, p c = false) :
      (xs ++ ys).takeWhile p = xs := by
    rw [List.takeWhile_append_of_pos hxs]
    cases ys with
    | nil => exact List.append_nil xs
    | cons c ys => rw [List.takeWhile_cons_of_neg (by simp [hys c rfl]), List.append_nil]
  have heq : xs = xs' := by rw [← htake hxs hys, h, htake hxs' hys']
  exact ⟨heq, List.append_cancel_left (heq ▸ h)⟩

namespace Row

variable {placed placed' : List (String × String)}

/-- A row begins with a character of its first token, -/
theorem head_spread (h : Row placed) : ∀ c ∈ (spread placed).toList.head?, isDelimiter c = false := by
  cases h with
  | nil => simp [spread]
  | @cons token gap placed solid =>
    intro c hc
    have hne : token.toList ≠ [] := by simpa using solid.1
    rw [spread, String.toList_append, List.head?_append_of_ne_nil _ hne] at hc
    exact solid.2 c (List.mem_of_mem_head? hc)

/-- and what stands behind a token of it with a delimiter. -/
theorem head_gap_append (delimits : Gap gap) (apart : gap = "" → placed = []) :
    ∀ c ∈ (gap ++ spread placed).toList.head?, isDelimiter c = true := by
  intro c hc
  by_cases hgap : gap = ""
  · simp [hgap, apart hgap, spread] at hc
  · have hne : gap.toList ≠ [] := by simpa using hgap
    rw [String.toList_append, List.head?_append_of_ne_nil _ hne] at hc
    exact delimits c (List.mem_of_mem_head? hc)

theorem tokenize_spread (h : Row placed) : tokenize (spread placed) = placed.map Prod.fst := by
  induction h with
  | nil => rfl
  | cons solid delimits apart rest ih =>
    rw [spread, tokenize_append_of_head (head_gap_append delimits apart), solid.tokenize_eq,
      delimits.tokenize_append, ih, List.map_cons, List.singleton_append]

/-- Two rows that make the same text are the same. Their tokens are, since the tokenizer finds them in the text. -/
theorem eq_of_spread_eq (h : Row placed) (h' : Row placed') (heq : spread placed = spread placed') :
    placed = placed' := by
  have htokens : placed.map Prod.fst = placed'.map Prod.fst := by
    rw [← h.tokenize_spread, heq, h'.tokenize_spread]
  induction h generalizing placed' with
  | nil => exact (List.map_eq_nil_iff.1 htokens.symm).symm
  | @cons token gap placed solid delimits apart rest ih =>
    cases h' with
    | nil => cases htokens
    | @cons token' gap' placed' solid' delimits' apart' rest' =>
      obtain ⟨rfl, hlater⟩ := List.cons.inj htokens
      have hbehind : gap ++ spread placed = gap' ++ spread placed' := by
        simpa only [spread, String.append_right_inj] using heq
      rw [← String.toList_inj, String.toList_append, String.toList_append] at hbehind
      obtain ⟨hgap, hrest⟩ := part_unique hbehind delimits delimits' rest.head_spread rest'.head_spread
      rw [String.toList_inj] at hgap hrest
      rw [hgap, ih rest' hrest hlater]

end Row

/-! ### Pieces of tokens -/

/-- The piece of a token, or nothing, that a text begins with, and what is behind it. -/
def headPiece (text : String) : String := String.ofList (text.toList.takeWhile fun c => !isDelimiter c)

def behindHead (text : String) : String := String.ofList (text.toList.dropWhile fun c => !isDelimiter c)

/-- The piece of a token, or nothing, that a text ends with, and what is before it. -/
def lastPiece (text : String) : String := String.ofList (text.toList.rtakeWhile fun c => !isDelimiter c)

def beforeLast (text : String) : String := String.ofList (text.toList.rdropWhile fun c => !isDelimiter c)

theorem headPiece_append_behindHead (text : String) : headPiece text ++ behindHead text = text := by
  rw [headPiece, behindHead, ← String.ofList_append, List.takeWhile_append_dropWhile, String.ofList_toList]

theorem beforeLast_append_lastPiece (text : String) : beforeLast text ++ lastPiece text = text := by
  rw [beforeLast, lastPiece, ← String.ofList_append, List.rdropWhile_append_rtakeWhile, String.ofList_toList]

theorem not_isDelimiter_headPiece (text : String) : ∀ c ∈ (headPiece text).toList, isDelimiter c = false := by
  intro c hc
  rw [headPiece, String.toList_ofList] at hc
  simpa using List.mem_takeWhile_imp hc

theorem not_isDelimiter_lastPiece (text : String) : ∀ c ∈ (lastPiece text).toList, isDelimiter c = false := by
  intro c hc
  rw [lastPiece, String.toList_ofList] at hc
  simpa using List.mem_rtakeWhile_imp hc

theorem isDelimiter_head_behindHead (text : String) :
    ∀ c ∈ (behindHead text).toList.head?, isDelimiter c = true := by
  intro c hc
  have hnot := List.head?_dropWhile_not (fun c => !isDelimiter c) text.toList
  rw [behindHead, String.toList_ofList] at hc
  rw [Option.mem_def.1 hc] at hnot
  simpa using hnot

theorem isDelimiter_last_beforeLast (text : String) :
    ∀ c ∈ (beforeLast text).toList.getLast?, isDelimiter c = true := by
  intro c hc
  rw [beforeLast, String.toList_ofList] at hc
  obtain ⟨hne, rfl⟩ := List.mem_getLast?_eq_getLast hc
  simpa using List.rdropWhile_last_not (fun c => !isDelimiter c) text.toList hne

/-- Without a delimiter between them, the pieces on both sides make one token. -/
theorem tokenize_append_joint (a b : String) (hc : isDelimiter c = false) :
    tokenize (a ++ String.singleton c ++ b) =
      tokenize (beforeLast a) ++ (lastPiece a ++ String.singleton c ++ headPiece b) :: tokenize (behindHead b) := by
  have hsolid : Solid (lastPiece a ++ String.singleton c ++ headPiece b) := by
    refine ⟨by simp, fun x hx => ?_⟩
    simp only [String.toList_append, String.toList_singleton, List.mem_append, List.mem_singleton] at hx
    rcases hx with (hx | rfl) | hx
    · exact not_isDelimiter_lastPiece a x hx
    · exact hc
    · exact not_isDelimiter_headPiece b x hx
  calc tokenize (a ++ String.singleton c ++ b)
      = tokenize (beforeLast a ++ (lastPiece a ++ String.singleton c ++ headPiece b) ++ behindHead b) := by
        conv => lhs; rw [← beforeLast_append_lastPiece a, ← headPiece_append_behindHead b]
        simp only [String.append_assoc]
    _ = _ := hsolid.tokenize_between (isDelimiter_last_beforeLast a) (isDelimiter_head_behindHead b)

/-! ### Layouts -/

/-- A text taken apart: the delimiters that it begins with, and its tokens with the delimiters behind them. -/
@[ext]
structure Layout where
  front : String
  placed : List (String × String)
  front_gap : Gap front
  row : Row placed

namespace Layout

def text (l : Layout) : String := l.front ++ spread l.placed

def tokens (l : Layout) : List String := l.placed.map Prod.fst

theorem tokenize_text (l : Layout) : tokenize l.text = l.tokens := by
  rw [text, l.front_gap.tokenize_append, l.row.tokenize_spread]
  rfl

theorem text_injective : Function.Injective text := by
  intro l l' h
  rw [← String.toList_inj, text, text, String.toList_append, String.toList_append] at h
  obtain ⟨hfront, hplaced⟩ := part_unique h l.front_gap l'.front_gap l.row.head_spread l'.row.head_spread
  rw [String.toList_inj] at hfront hplaced
  exact Layout.ext hfront (l.row.eq_of_spread_eq l'.row hplaced)

/-- One more character on the left lengthens the delimiters in front, or the first token, or is a new token. -/
theorem exists_text_cons (c : Char) (l : Layout) : ∃ l' : Layout, l'.text = String.singleton c ++ l.text := by
  obtain ⟨front, placed, hfront, hrow⟩ := l
  cases hc : isDelimiter c with
  | true =>
    have hfront' : Gap (String.singleton c ++ front) := by simpa [Gap, hc] using hfront
    exact ⟨⟨_, placed, hfront', hrow⟩, String.append_assoc⟩
  | false =>
    by_cases hapart : front = "" → placed = []
    · have hsolid : Solid (String.singleton c) := ⟨by simp, by simpa using hc⟩
      exact ⟨⟨"", (String.singleton c, front) :: placed, by simp [Gap], .cons hsolid hfront hapart hrow⟩,
        String.empty_append⟩
    · obtain ⟨rfl, hplaced⟩ := Classical.not_imp.1 hapart
      cases hrow with
      | nil => cases hplaced rfl
      | @cons token gap rest solid delimits apart hrest =>
        have hsolid : Solid (String.singleton c ++ token) := ⟨by simp, by simpa [hc] using solid.2⟩
        refine ⟨⟨"", (String.singleton c ++ token, gap) :: rest, hfront, .cons hsolid delimits apart hrest⟩, ?_⟩
        simp only [text, spread, String.empty_append, String.append_assoc]

theorem exists_text (source : String) : ∃ l : Layout, l.text = source := by
  rw [← String.ofList_toList (s := source)]
  induction source.toList with
  | nil => exact ⟨⟨"", [], by simp [Gap], .nil⟩, rfl⟩
  | cons c cs ih =>
    obtain ⟨l, hl⟩ := ih
    obtain ⟨l', hl'⟩ := exists_text_cons c l
    exact ⟨l', by rw [hl', hl, String.ofList_cons]⟩

/-- Space, tab, carriage return and line feed are the delimiters. Every text is laid out in one way only, and the
tokens of that layout are those of the text. A delimiter between two texts keeps their tokens apart, any other
character joins the pieces of tokens that it stands between. -/
theorem tokenize_inverts :
    (∀ c, isDelimiter c = true ↔ c = ' ' ∨ c = '\t' ∨ c = '\r' ∨ c = '\n') ∧
    (∀ source : String, ∃! l : Layout, l.text = source) ∧
    (∀ l : Layout, tokenize l.text = l.tokens) ∧
    (∀ (a b : String) (d : Char), isDelimiter d = true →
      tokenize (a ++ String.singleton d ++ b) = tokenize a ++ tokenize b) ∧
    ∀ (a b : String) (c : Char), isDelimiter c = false →
      tokenize (a ++ String.singleton c ++ b) =
        tokenize (beforeLast a) ++ (lastPiece a ++ String.singleton c ++ headPiece b) :: tokenize (behindHead b) := by
  refine ⟨fun _ => isDelimiter_iff, fun source => ?_, tokenize_text, fun a b _ => tokenize_append_delimiter a b,
    fun a b _ => tokenize_append_joint a b⟩
  obtain ⟨l, hl⟩ := exists_text source
  exact ⟨l, hl, fun l' hl' => text_injective (hl'.trans hl.symm)⟩

/-- Two texts kept apart by a carriage return, and joined by a no-break space and by a vertical tab. -/
theorem tokenize_inverts_no_break_space :
    let join (c : Char) : String := "1 du" ++ String.singleton c ++ "p\t+\n"
    isDelimiter '\r' = true ∧ isDelimiter '\u00a0' = false ∧ isDelimiter '\x0b' = false ∧
      tokenize (join '\r') = ["1", "du", "p", "+"] ∧ tokenize (join '\u00a0') = ["1", "du\u00a0p", "+"] ∧
      tokenize (join '\x0b') = ["1", "du\x0bp", "+"] := by
  intro join
  obtain ⟨-, -, -, hcut, hjoin⟩ := tokenize_inverts
  have hreturn : isDelimiter '\r' = true := by decide
  have hspace : isDelimiter '\u00a0' = false := by decide
  have htab : isDelimiter '\x0b' = false := by decide
  exact ⟨hreturn, hspace, htab, (hcut "1 du" "p\t+\n" _ hreturn).trans (by decide),
    (hjoin "1 du" "p\t+\n" _ hspace).trans (by decide), (hjoin "1 du" "p\t+\n" _ htab).trans (by decide)⟩

end Layout

end Forth.Text
