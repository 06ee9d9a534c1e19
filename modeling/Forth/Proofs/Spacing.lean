import Mathlib.Data.List.TakeWhile
import Mathlib.Data.List.DropRight
import Forth.Token

/-!
# Texts cut at separators

A separator cuts a text in two, each of which gives its own runs (`runs_append_cons`). So separators at the ends
of a text, and more of them in a row, change nothing, and a text that was put together from tokens gives these
tokens again (`tokenize_spaced_solid`), even if it is trimmed before that (`strip_spaced`).
-/
namespace Forth.Text

variable {separates : Char → Bool} {c : Char} {xs ys cs : List Char}

@[simp] theorem runs_nil : runs separates [] = [] := rfl

theorem closeRun_append (run : List Char) (words more : List (List Char)) :
    closeRun run (words ++ more) = closeRun run words ++ more := by
  cases run <;> rfl

/-- Words that lie further to the right stay there. -/
theorem foldr_runStep_append (separates : Char → Bool) (xs run : List Char) (words more : List (List Char)) :
    xs.foldr (runStep separates) (run, words ++ more) =
      ((xs.foldr (runStep separates) (run, words)).1,
        (xs.foldr (runStep separates) (run, words)).2 ++ more) := by
  induction xs with
  | nil => rfl
  | cons c xs ih =>
    rw [List.foldr_cons, List.foldr_cons, ih]
    unfold runStep
    split
    · rw [closeRun_append]
    · rfl

/-- A separator cuts a text in two. -/
theorem runs_append_cons (hc : separates c = true) :
    runs separates (xs ++ c :: ys) = runs separates xs ++ runs separates ys := by
  have hright : (c :: ys).foldr (runStep separates) ([], []) = ([], [] ++ runs separates ys) := by
    simp [runStep, hc, runs]
  have hall := foldr_runStep_append separates xs [] [] (runs separates ys)
  rw [← hright, ← List.foldr_append] at hall
  rw [runs, hall, closeRun_append]
  rfl

theorem runs_cons (hc : separates c = true) : runs separates (c :: ys) = runs separates ys := by
  rw [← List.nil_append (c :: ys), runs_append_cons hc]
  rfl

theorem runs_append_left (h : ∀ c ∈ xs, separates c = true) :
    runs separates (xs ++ ys) = runs separates ys := by
  induction xs with
  | nil => rfl
  | cons c xs ih =>
    rw [List.cons_append, runs_cons (h c List.mem_cons_self), ih fun c hc => h c (List.mem_cons_of_mem _ hc)]

theorem runs_eq_nil_iff : runs separates xs = [] ↔ ∀ c ∈ xs, separates c = true := by
  constructor
  · intro h
    induction xs with
    | nil => simp
    | cons c xs ih =>
      cases hc : separates c with
      | true => exact List.forall_mem_cons.2 ⟨hc, ih (runs_cons hc ▸ h)⟩
      | false => simp [runs, runStep, hc, closeRun] at h
  · intro h
    rw [← List.append_nil xs, runs_append_left h]
    rfl

/-- A text may be cut in front of a separator. -/
theorem runs_append_of_head (h : ∀ c ∈ ys.head?, separates c = true) :
    runs separates (xs ++ ys) = runs separates xs ++ runs separates ys := by
  cases ys with
  | nil => simp only [List.append_nil, runs_nil]
  | cons c ys =>
    have hc : separates c = true := h c rfl
    rw [runs_append_cons hc, runs_cons hc]

theorem runs_append_right (h : ∀ c ∈ ys, separates c = true) :
    runs separates (xs ++ ys) = runs separates xs := by
  rw [runs_append_of_head fun c hc => h c (List.mem_of_mem_head? hc), runs_eq_nil_iff.2 h, List.append_nil]

/-- A text may be cut behind a separator. -/
theorem runs_append_of_last (h : ∀ c ∈ xs.getLast?, separates c = true) :
    runs separates (xs ++ ys) = runs separates xs ++ runs separates ys := by
  rcases List.eq_nil_or_concat xs with rfl | ⟨init, c, rfl⟩
  · rfl
  · have hc : separates c = true := h c (by simp)
    rw [List.concat_eq_append, List.append_assoc, List.singleton_append, runs_append_cons hc,
      runs_append_right (by simpa using hc)]

/-- A text without separators is one run. -/
theorem runs_eq_singleton (hne : xs ≠ []) (h : ∀ c ∈ xs, separates c = false) :
    runs separates xs = [xs] := by
  have hfold : xs.foldr (runStep separates) ([], []) = (xs, []) := by
    clear hne
    induction xs with
    | nil => rfl
    | cons c xs ih =>
      rw [List.foldr_cons, ih fun c hc => h c (List.mem_cons_of_mem _ hc)]
      simp [runStep, h c List.mem_cons_self]
  rw [runs, hfold]
  cases xs with
  | nil => cases hne rfl
  | cons c xs => rfl

/-! ### White space at the ends -/

/-- The white space that a text begins with, and that it ends with. -/
def leading (cs : List Char) : List Char := cs.takeWhile isBlank

def trailing (cs : List Char) : List Char := ((cs.dropWhile isBlank).reverse.takeWhile isBlank).reverse

theorem stripChars_append_trailing (cs : List Char) : stripChars cs ++ trailing cs = cs.dropWhile isBlank := by
  rw [stripChars, trailing, ← List.reverse_append, List.takeWhile_append_dropWhile, List.reverse_reverse]

theorem stripChars_append (cs : List Char) : leading cs ++ stripChars cs ++ trailing cs = cs := by
  rw [List.append_assoc, stripChars_append_trailing, leading, List.takeWhile_append_dropWhile]

theorem isBlank_head_stripChars (h : (stripChars cs).head? = some c) : isBlank c = false := by
  obtain ⟨rest, hrest⟩ := List.head?_eq_some_iff.1 h
  have hnot := List.head?_dropWhile_not isBlank cs
  rw [← stripChars_append_trailing, hrest] at hnot
  exact hnot

/-- White space at the ends makes no difference to the runs if it separates them. -/
theorem runs_stripChars (hl : ∀ c ∈ leading cs, separates c = true)
    (ht : ∀ c ∈ trailing cs, separates c = true) :
    runs separates (stripChars cs) = runs separates cs := by
  conv => rhs; rw [← stripChars_append cs]
  rw [runs_append_right ht, runs_append_left hl]

theorem words_strip (text : String) : words (strip text) = words text := by
  rw [words, words, strip, String.toList_ofList, runs_stripChars]
  · exact fun c hc => List.mem_takeWhile_imp hc
  · exact fun c hc => List.mem_takeWhile_imp (List.mem_reverse.1 hc)

theorem strip_eq_self {text : String} (h : ∀ c ∈ text.toList, isBlank c = false) : strip text = text := by
  have hdrop {cs : List Char} (hcs : ∀ c ∈ cs, isBlank c = false) : cs.dropWhile isBlank = cs := by
    cases cs with
    | nil => rfl
    | cons c cs => rw [List.dropWhile_cons_of_neg (by simp [hcs c List.mem_cons_self])]
  have hreverse : ∀ c ∈ text.toList.reverse, isBlank c = false := fun c hc => h c (List.mem_reverse.1 hc)
  rw [strip, stripChars, hdrop h, hdrop hreverse, List.reverse_reverse, String.ofList_toList]

theorem words_eq_singleton {text : String} (hne : text ≠ "") (h : ∀ c ∈ text.toList, isBlank c = false) :
    words text = [text] := by
  have hlist : text.toList ≠ [] := by simpa using hne
  rw [words, runs_eq_singleton hlist h, List.map_singleton, String.ofList_toList]

theorem tokenize_eq_singleton {text : String} (hne : text ≠ "")
    (h : ∀ c ∈ text.toList, isDelimiter c = false) : tokenize text = [text] := by
  have hlist : text.toList ≠ [] := by simpa using hne
  rw [tokenize, runs_eq_singleton hlist h, List.map_singleton, String.ofList_toList]

/-! ### Texts put together from tokens -/

theorem tokenize_append_delimiter (a b : String) (hc : isDelimiter c = true) :
    tokenize (a ++ String.singleton c ++ b) = tokenize a ++ tokenize b := by
  have hcut : (a ++ String.singleton c ++ b).toList = a.toList ++ c :: b.toList := by
    simp only [String.toList_append, String.toList_singleton, List.append_assoc, List.singleton_append]
  rw [tokenize, hcut, runs_append_cons hc, List.map_append]
  rfl

/-- The tokens of a text are those of its parts if a delimiter stands between neighbours. -/
theorem tokenize_intercalate {sep : String} (hsep : sep.toList = [c]) (hc : isDelimiter c = true)
    (parts : List String) : tokenize (String.intercalate sep parts) = parts.flatMap tokenize := by
  obtain rfl : sep = String.singleton c := by rw [← String.toList_inj, hsep, String.toList_singleton]
  induction parts with
  | nil => simp [tokenize]
  | cons part parts ih =>
    cases parts with
    | nil => simp
    | cons next parts =>
      rw [List.flatMap_cons, ← ih, String.intercalate_cons_cons, tokenize_append_delimiter _ _ hc]

theorem mem_closeRun {run r : List Char} {words : List (List Char)} (h : r ∈ closeRun run words) :
    r = run ∧ run ≠ [] ∨ r ∈ words := by
  cases run with
  | nil => exact .inr h
  | cons c cs =>
    rcases List.mem_cons.1 h with rfl | h
    · exact .inl ⟨rfl, by simp⟩
    · exact .inr h

/-- Runs are not empty and hold no separator. -/
theorem mem_runs {run : List Char} (h : run ∈ runs separates cs) :
    run ≠ [] ∧ ∀ c ∈ run, separates c = false := by
  have hfold : (∀ c ∈ (cs.foldr (runStep separates) ([], [])).1, separates c = false) ∧
      ∀ r ∈ (cs.foldr (runStep separates) ([], [])).2, r ≠ [] ∧ ∀ c ∈ r, separates c = false := by
    clear h
    induction cs with
    | nil => simp
    | cons c cs ih =>
      rw [List.foldr_cons]
      unfold runStep
      split
      · refine ⟨by simp, fun r hr => ?_⟩
        obtain ⟨rfl, hne⟩ | hr := mem_closeRun hr
        · exact ⟨hne, ih.1⟩
        · exact ih.2 r hr
      · next hc => exact ⟨List.forall_mem_cons.2 ⟨by simpa using hc, ih.1⟩, ih.2⟩
  obtain ⟨rfl, hne⟩ | h := mem_closeRun h
  · exact ⟨hne, hfold.1⟩
  · exact hfold.2 run h

/-- A token that can stand in a text: there is something to it, and no delimiter. -/
def Solid (token : String) : Prop := token ≠ "" ∧ ∀ c ∈ token.toList, isDelimiter c = false

theorem solid_of_mem_tokenize {text token : String} (h : token ∈ tokenize text) : Solid token := by
  obtain ⟨run, hrun, rfl⟩ := List.mem_map.1 h
  obtain ⟨hne, hall⟩ := mem_runs hrun
  exact ⟨by simpa using hne, by simpa using hall⟩

theorem Solid.isEmpty_eq {token : String} (h : Solid token) : token.isEmpty = false := by
  simpa using h.1

theorem Solid.tokenize_eq {token : String} (h : Solid token) : tokenize token = [token] :=
  tokenize_eq_singleton h.1 h.2

/-- What a text was put together from is found in it again. -/
theorem flatMap_tokenize {tokens : List String} (h : ∀ t ∈ tokens, Solid t) :
    tokens.flatMap tokenize = tokens := by
  induction tokens with
  | nil => rfl
  | cons token tokens ih =>
    rw [List.flatMap_cons, (h token List.mem_cons_self).tokenize_eq,
      ih fun t ht => h t (List.mem_cons_of_mem _ ht), List.singleton_append]

theorem tokenize_spaced (parts : List String) : tokenize (spaced parts) = parts.flatMap tokenize :=
  tokenize_intercalate (c := ' ') rfl rfl parts

theorem tokenize_spaced_solid {tokens : List String} (h : ∀ t ∈ tokens, Solid t) :
    tokenize (spaced tokens) = tokens := by
  rw [tokenize_spaced, flatMap_tokenize h]

theorem toList_spaced_cons (token : String) (tokens : List String) :
    (spaced (token :: tokens)).toList =
      token.toList ++ if tokens = [] then [] else ' ' :: (spaced tokens).toList := by
  split
  · next h =>
    subst h
    simp [spaced]
  · next h =>
    rw [spaced, String.intercalate_cons_of_ne_nil h, String.toList_append, String.toList_append, List.append_assoc]
    rfl

/-- The characters of a text that solid tokens make, no more of them than the number says. -/
def Laid (n : Nat) (cs : List Char) : Prop :=
  ∃ tokens : List String, (∀ t ∈ tokens, Solid t) ∧ tokens.length ≤ n ∧ cs = (spaced tokens).toList

/-- Read backwards it is such a text again. -/
theorem Laid.reverse {n : Nat} (h : Laid n cs) : Laid n cs.reverse := by
  obtain ⟨tokens, hsolid, hn, rfl⟩ := h
  let back (t : String) : String := String.ofList t.toList.reverse
  refine ⟨(tokens.map back).reverse, ?_, by simpa using hn, ?_⟩
  · intro t ht
    obtain ⟨u, hu, rfl⟩ := List.mem_map.1 (List.mem_reverse.1 ht)
    have hu := hsolid u hu
    exact ⟨by simpa [back] using hu.1, by simpa [back] using hu.2⟩
  · clear hsolid hn
    induction tokens with
    | nil => simp [spaced]
    | cons token tokens ih =>
      by_cases hne : tokens = []
      · subst hne
        simp [spaced, back]
      · have hback : (tokens.map back).reverse ≠ [] := by simpa using hne
        calc (spaced (token :: tokens)).toList.reverse
            = (spaced tokens).toList.reverse ++ ' ' :: token.toList.reverse := by
              rw [toList_spaced_cons, if_neg hne]
              simp only [List.reverse_append, List.reverse_cons, List.append_assoc, List.singleton_append]
          _ = (spaced (tokens.map back).reverse).toList ++ ' ' :: (back token).toList := by
              rw [ih, String.toList_ofList]
          _ = (spaced ((token :: tokens).map back).reverse).toList := by
              rw [List.map_cons, List.reverse_cons, spaced, spaced,
                String.intercalate_append_of_ne_nil hback (by simp), String.intercalate_singleton,
                String.toList_append, String.toList_append, List.append_assoc]
              rfl

/-- What is left of it without the white space at the beginning is such a text. -/
theorem Laid.dropWhile {n : Nat} (h : Laid n cs) : Laid n (cs.dropWhile isBlank) := by
  obtain ⟨tokens, hsolid, hn, rfl⟩ := h
  induction tokens with
  | nil => exact ⟨[], by simp, Nat.zero_le _, by simp [spaced]⟩
  | cons token tokens ih =>
    obtain ⟨htoken, htokens⟩ := List.forall_mem_cons.1 hsolid
    rw [toList_spaced_cons, List.dropWhile_append]
    split
    · split
      · exact ⟨[], by simp, Nat.zero_le _, by simp [spaced]⟩
      · rw [List.dropWhile_cons_of_pos (by decide)]
        exact ih htokens (Nat.le_of_succ_le hn)
    · next hleft =>
      refine ⟨String.ofList (token.toList.dropWhile isBlank) :: tokens, ?_, hn, ?_⟩
      · refine List.forall_mem_cons.2 ⟨⟨by simpa using hleft, fun c hc => ?_⟩, htokens⟩
        rw [String.toList_ofList] at hc
        exact htoken.2 c ((List.dropWhile_suffix _).subset hc)
      · rw [toList_spaced_cons, String.toList_ofList]

/-- White space at the ends of such a text may take tokens with it; what is left is such a text, and no more of
its ends can be cut off. -/
theorem strip_spaced {tokens : List String} (h : ∀ t ∈ tokens, Solid t) :
    ∃ left : List String, (∀ t ∈ left, Solid t) ∧ left.length ≤ tokens.length ∧
      strip (spaced tokens) = spaced left := by
  have hlaid : Laid tokens.length (spaced tokens).toList := ⟨tokens, h, Nat.le_refl _, rfl⟩
  obtain ⟨left, hsolid, hn, heq⟩ := hlaid.dropWhile.reverse.dropWhile.reverse
  exact ⟨left, hsolid, hn, by rw [strip, stripChars, heq, String.ofList_toList]⟩

theorem stripChars_idem (cs : List Char) : stripChars (stripChars cs) = stripChars cs := by
  have hhead : (stripChars cs).dropWhile isBlank = stripChars cs := by
    cases hcs : stripChars cs with
    | nil => rfl
    | cons c rest =>
      refine List.dropWhile_cons_of_neg ?_
      rw [isBlank_head_stripChars (by rw [hcs, List.head?_cons])]
      simp
  rw [stripChars, hhead]
  conv => lhs; rw [stripChars, List.reverse_reverse, List.dropWhile_idempotent]
  rw [stripChars]

theorem strip_idem (text : String) : strip (strip text) = strip text := by
  rw [strip, strip, String.toList_ofList, stripChars_idem]

end Forth.Text
