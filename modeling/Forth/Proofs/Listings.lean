import Forth.Proofs.Definitions
import Forth.Proofs.Spacing
import Forth.Proofs.Turns

/-!
# Listings of definitions

A definition is listed as a colon, its name, its effect in brackets unless there is none, its body and a
semicolon. Reading the listing gives the word again exactly if the colon finds the same ends in it: the effect
holds no mark of a definition or comment, and without an effect the body does not begin with a bracket
(`Word.reads_back_iff`). Marks can come into an effect because it is trimmed of more white space than separates
tokens. What both halves of the proof meet at are the tokens of the listing (`Colon.tokenize_source`).
-/
namespace Forth

def Heading.word (h : Heading) : Word Empty := ⟨h.name, h.effect, .definition h.body⟩

@[simp] theorem Heading.word_name (h : Heading) : h.word.name = h.name := rfl
@[simp] theorem Heading.word_effect (h : Heading) : h.word.effect = h.effect := rfl

theorem Heading.word_inj {h h' : Heading} (heq : h.word = h'.word) : h = h' := by
  obtain ⟨name, effect, body⟩ := h
  cases heq
  rfl

/-! ### Where words come from -/

/-- Words other than the colon leave the dictionary as it is. -/
theorem Lookahead.words_plan {w : Lookahead} (hw : w ≠ .colon) (loop : Option Int) (rest : List String)
    (s : Scope Empty) : (finish (w.plan loop rest s)).words = s.words := by
  have ho : w.Outcome rest s (w.plan loop rest s) := w.plan_outcome s
  have written {line : String} {r : EStateM.Result Trouble (Machine Empty) Unit}
      (hr : Machine.writeLine line s.toMachine = r) : (finish r).words = s.words := by
    rw [← hr]
    exact (emit_words _ rfl).finish
  generalize w.plan loop rest s = r at ho
  cases ho with
  | failed hc => rfl
  | refused hline hwrite => exact written hwrite
  | written hline hwrite hwidth => exact written hwrite
  | changed hwidth => rfl
  | declared hname hfree hword hstack hwidth => rfl
  | assigned hname hfree hword hstack hwidth => rfl
  | defined hcolon hplain hvar hadd hwidth => exact absurd hcolon hw

/-- How an outermost evaluation ends makes no difference to the dictionary. -/
theorem words_interpretWithin (limit : Nat) (loop : Option Int) (tokens : List String) (s : Scope Empty) :
    (finish (interpretWithin limit loop tokens s)).words = (finish (evaluate limit loop tokens s)).words := by
  unfold interpretWithin
  cases evaluate limit loop tokens s with
  | ok u t => rfl
  | error halt t => cases halt <;> rfl

namespace Colon

/-- The tokens define the word: it is what stands in them between a colon and its semicolon. -/
def Tells (tokens : List String) (w : Word Empty) : Prop :=
  ∃ before inside after h, tokens = before ++ ":" :: inside ++ ";" :: after ∧ Plain inside ∧ Reads inside h ∧
    w = h.word

/-- Behind the words of the first dictionary, the second has the one that the tokens define up to a semicolon. -/
def Adds (rest : List String) (d d' : Dictionary Empty) : Prop :=
  ∃ inside after h, rest = inside ++ ";" :: after ∧ Plain inside ∧ Reads inside h ∧
    d'.words = d.words ++ [h.word]

/-- The second dictionary is made of the primitives, and has no more than the words of the first and those that
the tokens define. -/
def Told (tokens : List String) (d d' : Dictionary Empty) : Prop :=
  d'.Based ∧ ∀ w ∈ d'.words, w ∈ d.words ∨ Tells tokens w

variable {tokens : List String} {token : String} {loop : Option Int} {s : Scope Empty}
  {d : Dictionary Empty}

theorem Tells.colon_mem {w : Word Empty} (h : Tells tokens w) : ":" ∈ tokens := by
  obtain ⟨before, inside, after, h, rfl, -⟩ := h
  simp

theorem Told.refl (tokens : List String) (hd : d.Based) : Told tokens d d := ⟨hd, fun _ hw => .inl hw⟩

/-- Without a colon nothing is defined. -/
theorem Told.of_plain {inner : List String} {e d' : Dictionary Empty} (h : Told inner e d') (hcolon : ":" ∉ inner)
    (he : Told tokens d e) : Told tokens d d' := by
  refine ⟨h.1, fun w hw => ?_⟩
  rcases h.2 w hw with hw | htells
  · exact he.2 w hw
  · exact absurd htells.colon_mem hcolon

/-- A colon leaves the dictionary as it is, or adds the word that stands behind it. -/
theorem plan_colon_words (loop : Option Int) (rest : List String) (s : Scope Empty) :
    (finish (Lookahead.plan loop rest .colon s)).words = s.words ∨
      Adds rest s.words (finish (Lookahead.plan loop rest .colon s)).words := by
  rw [Lookahead.plan_colon]
  split
  · exact .inl rfl
  · next inside last hscan =>
    split
    · exact .inl rfl
    · next h hread =>
      split
      · exact .inl rfl
      · split
        · exact .inl rfl
        · next words hadd =>
          obtain ⟨after, hrest⟩ := Fence.scan_eq_append hscan
          have hlast : last = ";" := by simpa [Fence.definition] using Fence.last_of_scan hscan
          have hp : Plain inside := ⟨(Fence.not_mem_of_scan (f := .definition) rfl hscan).1,
            Fence.closer_not_mem_of_scan (f := .definition) rfl hscan⟩
          exact .inr ⟨inside, after, h, hlast ▸ hrest, hp, ofTokens_eq_iff.1 hread, Dictionary.words_add hadd⟩

/-- The colon is the only token that adds a word. -/
theorem plan_words (hd : s.words.Based) (loop : Option Int) (token : String) (rest : List String) :
    (finish (plan loop token rest s)).words = s.words ∨
      token = ":" ∧ Adds rest s.words (finish (plan loop token rest s)).words := by
  unfold plan
  cases hs : s.words.sense token with
  | number n => exact .inl rfl
  | longNumber => exact .inl rfl
  | unknown => exact .inl rfl
  | definition body => exact .inl rfl
  | primitive p =>
    cases p with
    | lookahead w =>
      by_cases hw : w = .colon
      · subst hw
        exact (plan_colon_words loop rest s).imp_right fun hadded => ⟨hd.eq_colon hs, hadded⟩
      · exact .inl (Lookahead.words_plan hw loop rest s)
    | simple w =>
      have hact := w.words_act s.toMachine
      simp only [Sense.plan, Primitive.plan_simple]
      cases hr : w.act s.toMachine with
      | ok u m =>
        rw [hr] at hact
        exact .inl hact
      | error t m =>
        rw [hr] at hact
        exact .inl hact
    | index =>
      simp only [Sense.plan, Primitive.plan_index]
      cases loop <;> exact .inl rfl
    | bye => exact .inl rfl
    | host w => exact w.elim

theorem based_plan (hd : s.words.Based) (loop : Option Int) (token : String) (rest : List String) :
    (finish (plan loop token rest s)).words.Based := by
  have hplan := plan_upholds (steady_extends primitiveWords) trivial loop token rest hd
  cases hr : plan loop token rest s with
  | ok p t =>
    rw [hr] at hplan
    exact hplan
  | error b t =>
    rw [hr] at hplan
    exact hplan.1

/-- What a token adds stands in the tokens. -/
theorem Told.plan {i : Nat} (ht : tokens[i]? = some token) (hs : Told tokens d s.words) (loop : Option Int) :
    Told tokens d (finish (Forth.plan loop token (tokens.drop (i + 1)) s)).words := by
  refine ⟨based_plan hs.1 loop token _, fun w hw => ?_⟩
  rcases plan_words hs.1 loop token (tokens.drop (i + 1)) with heq | ⟨rfl, inside, after, h, hrest, hp, hr, hadded⟩
  · rw [heq] at hw
    exact hs.2 w hw
  · rw [hadded] at hw
    rcases List.mem_append.1 hw with hw | hw
    · exact hs.2 w hw
    · obtain ⟨hi, hget⟩ := List.getElem?_eq_some_iff.1 ht
      refine .inr ⟨tokens.take i, inside, after, h, ?_, hp, hr, List.mem_singleton.1 hw⟩
      rw [List.append_assoc, List.cons_append, ← hrest, ← hget, ← List.drop_eq_getElem_cons hi,
        List.take_append_drop]

/-- The inner sequences of a token hold no colon. -/
theorem plan_inner_colon (hd : s.words.Based) {i : Nat} (ht : tokens[i]? = some token) {p : Plan} {t : Scope Empty}
    (hp : plan loop token (tokens.drop (i + 1)) s = .ok p t) : ∀ x ∈ p.inner, ":" ∉ x.tokens := by
  have hchanges : Changes (.going s.toMachine ⟨tokens, loop, i, [], s.vars⟩ []) ⟨tokens, loop, i, [], s.vars⟩
      (plan loop token (tokens.drop (i + 1)) s) := plan_changes hd rfl ht
  rw [hp] at hchanges
  exact hchanges.2

/-- What a sequence adds stands in it, if that is so of its inner sequences. -/
theorem Told.resume {nested : Nested Empty}
    (hn : ∀ loop inner m, m.words.Based → Told inner m.words (finish (nested loop inner m)).words)
    (loop : Option Int) (i : Nat) (hs : Told tokens d s.words) :
    Told tokens d (finish (Forth.resume nested loop tokens i s)).words := by
  induction i using forward_induction tokens generalizing s with
  | done i hi =>
    rw [resume_of_le _ _ _ hi]
    exact hs
  | next i hi ih =>
    have ht : tokens[i]? = some tokens[i] := List.getElem?_eq_getElem hi
    have hplan := hs.plan ht loop
    rw [resume_eq _ _ _ ht]
    unfold stride
    cases hp : Forth.plan loop tokens[i] (tokens.drop (i + 1)) s with
    | error b t =>
      rw [hp] at hplan
      exact hplan
    | ok p t =>
      rw [hp] at hplan
      have hinner := plan_inner_colon hs.1 ht hp
      have hm : Told tokens d (finish (series nested p.inner t.toMachine)).words :=
        series_upholds (I := fun m => Told tokens d m.words) p.inner
          (fun x hx m hm => (hn x.loop x.tokens m hm.1).of_plain (hinner x hx) hm) hplan
      simp only
      cases hx : series nested p.inner t.toMachine with
      | error e m =>
        rw [hx] at hm
        exact hm
      | ok u m =>
        rw [hx] at hm
        exact ih (i + 1 + p.width) (by omega) hm

/-- All that an evaluation adds to the words stands in its tokens. -/
theorem evaluate_told (limit : Nat) (loop : Option Int) (tokens : List String) (hd : s.words.Based) :
    Told tokens s.words (finish (evaluate limit loop tokens s)).words := by
  induction limit generalizing loop tokens s with
  | zero => exact .refl tokens hd
  | succ limit ih =>
    rw [evaluate_succ]
    refine (Told.refl tokens hd).resume (fun loop inner m hm => ?_) loop 0
    have he := ih loop inner (s := ⟨m, []⟩) hm
    exact isolated_upholds (I := fun n => Told inner m.words n.words) he

theorem interpretWithin_told (limit : Nat) (loop : Option Int) (tokens : List String) (hd : s.words.Based) :
    Told tokens s.words (finish (interpretWithin limit loop tokens s)).words := by
  rw [words_interpretWithin]
  exact evaluate_told limit loop tokens hd

end Colon

/-! ### The tokens of a listing -/

namespace Heading

def note (h : Heading) : List String :=
  if h.effect = "" then [] else "(" :: tokenize h.effect ++ [")"]

/-- What stands between the colon and the semicolon of a listing. -/
def listed (h : Heading) : List String := h.name :: (h.note ++ h.body)

structure FromText (h : Heading) : Prop where
  name : Text.Solid h.name
  body : ∀ t ∈ h.body, Text.Solid t
  plain : Colon.Plain (h.name :: h.body)
  spaced : Text.spaced (tokenize h.effect) = h.effect
  stripped : Text.strip h.effect = h.effect

end Heading

/-- A listing shows where the effect ends and the body begins: the effect holds no mark, and a comment at the
beginning of the body is not taken for it. -/
def Word.Legible (w : Word Empty) : Prop :=
  (∀ t ∈ tokenize w.effect, t ≠ ")" ∧ t ≠ ";" ∧ t ≠ ":") ∧
    ¬ (w.effect = "" ∧ w.body.head? = some "(")

namespace Colon

variable {between rest after : List String} {h : Heading} {m : Machine Empty} {s : Scope Empty}

theorem plain_cons_iff {token : String} {tokens : List String} :
    Plain (token :: tokens) ↔ (token ≠ ":" ∧ token ≠ ";") ∧ Plain tokens := by
  simp only [Plain, List.mem_cons, not_or, ne_comm (a := token)]
  exact and_and_and_comm

theorem plain_append_iff {xs ys : List String} : Plain (xs ++ ys) ↔ Plain xs ∧ Plain ys := by
  simp only [Plain, List.mem_append, not_or]
  exact and_and_and_comm

/-- The name comes first. -/
theorem Reads.eq_cons (hr : Reads between h) : ∃ more, between = h.name :: more := by
  cases hr <;> exact ⟨_, rfl⟩

theorem Reads.fromText (hr : Reads between h) (hp : Plain between)
    (hsolid : ∀ t ∈ between, Text.Solid t) : h.FromText := by
  cases hr with
  | @bare name body hhead =>
    obtain ⟨hname, hbody⟩ := List.forall_mem_cons.1 hsolid
    exact ⟨hname, hbody, hp, rfl, rfl⟩
  | @noted name words body hw =>
    obtain ⟨hname, -, hrest⟩ := (List.forall_mem_cons.1 hsolid).imp_right List.forall_mem_cons.1
    obtain ⟨hwords, -, hbody⟩ := (List.forall_mem_append.1 hrest).imp_right List.forall_mem_cons.1
    obtain ⟨left, hleft, -, heq⟩ := Text.strip_spaced hwords
    simp only [plain_cons_iff, plain_append_iff] at hp
    obtain ⟨hplain, -, -, -, hplain'⟩ := hp
    exact ⟨hname, hbody, plain_cons_iff.2 ⟨hplain, hplain'⟩,
      by simp only [heq, Text.tokenize_spaced_solid hleft], Text.strip_idem _⟩

theorem tokenize_heading (hf : h.FromText) : tokenize h.word.heading = h.name :: h.note := by
  unfold Word.heading Heading.note
  rw [Heading.word_name, Heading.word_effect]
  by_cases he : h.effect = ""
  · rw [if_pos (String.isEmpty_iff.2 he), if_pos he]
    exact hf.name.tokenize_eq
  · have hparts : h.name ++ " ( " ++ h.effect ++ " )" = Text.spaced [h.name, "(", h.effect, ")"] := by
      rw [← String.toList_inj]
      simp [Text.spaced]
    have hopen : tokenize "(" = ["("] := rfl
    have hclose : tokenize ")" = [")"] := rfl
    rw [if_neg (fun h => he (String.isEmpty_iff.1 h)), if_neg he, hparts, Text.tokenize_spaced]
    simp only [List.flatMap_cons, List.flatMap_nil, hf.name.tokenize_eq, hopen, hclose, List.append_nil]
    rfl

/-- The tokens of a listing are those of the definition, with the effect as it is kept. -/
theorem tokenize_source (hf : h.FromText) : tokenize h.word.source = ":" :: (h.listed ++ [";"]) := by
  have hcolon : tokenize ":" = [":"] := rfl
  have hsemicolon : tokenize ";" = [";"] := rfl
  have hsource : h.word.source = Text.spaced ([":", h.word.heading] ++ h.body ++ [";"]) := rfl
  rw [hsource, Text.tokenize_spaced, List.flatMap_append, List.flatMap_append, Text.flatMap_tokenize hf.body]
  simp only [List.flatMap_cons, List.flatMap_nil, hcolon, hsemicolon, tokenize_heading hf, List.append_nil,
    Heading.listed, List.cons_append, List.nil_append]

/-- A listing that is legible is read as the definition that it lists. -/
theorem reads_listed (hf : h.FromText) (hl : h.word.Legible) : Plain h.listed ∧ Reads h.listed h := by
  obtain ⟨hmarks, hhead⟩ := hl
  rw [Heading.word_effect] at hmarks hhead
  obtain ⟨hname, hbody⟩ := plain_cons_iff.1 hf.plain
  unfold Heading.listed Heading.note
  by_cases he : h.effect = ""
  · rw [if_pos he, List.nil_append]
    refine ⟨hf.plain, ?_⟩
    have hread : Reads (h.name :: h.body) ⟨h.name, "", h.body⟩ := .bare fun h => hhead ⟨he, h⟩
    rwa [← he] at hread
  · rw [if_neg he]
    have hclose : ")" ∉ tokenize h.effect := fun hmem => (hmarks _ hmem).1 rfl
    have hplain : Plain (tokenize h.effect) :=
      ⟨fun hmem => (hmarks _ hmem).2.2 rfl, fun hmem => (hmarks _ hmem).2.1 rfl⟩
    have hread : Reads _ ⟨h.name, Text.strip (Text.spaced (tokenize h.effect)), h.body⟩ := .noted hclose
    rw [hf.spaced, hf.stripped] at hread
    have hsplit : h.name :: ("(" :: tokenize h.effect ++ [")"] ++ h.body) =
        h.name :: "(" :: (tokenize h.effect ++ ")" :: h.body) := by simp
    rw [hsplit]
    refine ⟨?_, hread⟩
    simp only [plain_cons_iff, plain_append_iff]
    exact ⟨hname, by decide, hplain, by decide, hbody⟩

/-- If a definition is read from its own listing, the listing is legible. -/
theorem legible_of_reads (hf : h.FromText) (hsplit : h.listed ++ [";"] = between ++ ";" :: after)
    (hp : Plain between) (hr : Reads between h) : h.word.Legible := by
  have hsolid : ∀ t ∈ h.listed ++ [";"], Text.Solid t := by
    intro t ht
    have hmem : t ∈ tokenize h.word.source := by
      rw [tokenize_source hf]
      exact List.mem_cons_of_mem _ ht
    exact Text.solid_of_mem_tokenize hmem
  cases hr with
  | @bare name body hhead => exact ⟨by simp [tokenize, Text.runs, Text.closeRun], fun hbody => hhead hbody.2⟩
  | @noted name words body hw =>
    have hwords : ∀ t ∈ words, Text.Solid t := fun t ht => hsolid t (by rw [hsplit]; simp [ht])
    obtain ⟨left, hleft, hcount, hstrip⟩ := Text.strip_spaced hwords
    have hlength := congrArg List.length hsplit
    simp only [Heading.listed, Heading.note, hstrip, Text.tokenize_spaced_solid hleft] at hsplit hlength
    by_cases he : Text.spaced left = ""
    · simp only [he, if_true, List.length_append, List.length_cons, List.length_nil] at hlength
      omega
    · simp only [he, if_false, List.length_append, List.length_cons, List.length_nil] at hlength
      have hafter : after.length = 0 := by omega
      obtain rfl := List.eq_nil_of_length_eq_zero hafter
      have heq : words = left := by
        simp only [he, if_false, List.cons_append, List.append_assoc, List.cons.injEq, true_and] at hsplit
        exact (List.append_inj_left hsplit.symm (by omega))
      subst heq
      simp only [plain_cons_iff, plain_append_iff] at hp
      obtain ⟨-, -, hplain, -⟩ := hp
      refine ⟨?_, fun hbody => he (hstrip.symm.trans hbody.1)⟩
      intro t ht
      rw [Heading.word_effect, hstrip, Text.tokenize_spaced_solid hleft] at ht
      refine ⟨?_, ?_, ?_⟩
      · rintro rfl
        exact hw ht
      · rintro rfl
        exact hplain.2 ht
      · rintro rfl
        exact hplain.1 ht

/-! ### Evaluating a listing -/

/-- A definition that goes well is evaluated up to its semicolon; all other outcomes are failures. -/
theorem Outcome.failure_or_defined {r : EStateM.Result Break (Scope Empty) (Move Empty)} (ho : Outcome s rest r) :
    (∃ c k, r = failure c k s) ∨
      ∃ between after h, rest = between ++ ";" :: after ∧ Plain between ∧ Reads between h ∧
        s.words.contains h.name = false ∧ r = .ok (.next (between.length + 1)) (defining s h) := by
  cases ho with
  | defined hsplit hp hr hv hw => exact .inr ⟨_, _, _, hsplit, hp, hr, hw, rfl⟩
  | _ => exact .inl ⟨_, _, rfl⟩

theorem find?_defining (hw : s.words.contains h.name = false) :
    (defining s h).words.find? h.name = some h.word := by
  have hadd : s.words.add h.word = .ok (defining s h).words := by
    rw [Dictionary.add, Heading.word_name, hw]
    rfl
  rw [Dictionary.find?_add hadd, Heading.word_name, if_pos rfl]

/-- The evaluation goes on behind a definition that goes well. -/
theorem resume_defined {nested : Nested Empty} {loop : Option Int}
    (hs : s.words.sense ":" = .primitive (.lookahead .colon))
    (ho : Outcome s rest (.ok (.next (between.length + 1)) (defining s h))) :
    resume nested loop (":" :: rest) 0 s =
      resume nested loop (":" :: rest) (between.length + 2) (defining s h) := by
  have hstep : step nested ⟨":" :: rest, 0, loop⟩ ":" rest s = _ := ho.step_eq hs
  rw [resume_eq nested loop (":" :: rest) rfl, stride_of_step hstep]
  simp only
  congr 1
  omega

/-- If an evaluation goes well that begins with a colon, its first definition went well, and the word is there
in the end. -/
theorem reads_of_ok {limit : Nat} {loop : Option Int} (hs : m.words.sense ":" = .primitive (.lookahead .colon))
    (hok : interpretWithin (limit + 1) loop (":" :: rest) ⟨m, []⟩ = .ok () s) :
    ∃ between after h, rest = between ++ ";" :: after ∧ Plain between ∧ Reads between h ∧
      s.words.find? h.name = some h.word := by
  obtain ⟨r, ho⟩ := exists_outcome ⟨m, []⟩ rest
  rcases ho.failure_or_defined with ⟨c, k, rfl⟩ | ⟨between, after, h, hsplit, hp, hr, hw, rfl⟩
  · have hstep : step (inside limit) ⟨":" :: rest, 0, loop⟩ ":" rest ⟨m, []⟩ = _ := ho.step_eq hs
    have hresume : resume (inside limit) loop (":" :: rest) 0 ⟨m, []⟩ =
        .error (Break.annotate ⟨.failed ⟨c, []⟩, k⟩ (":" :: rest) 0) ⟨m, []⟩ := by
      rw [resume_eq (inside limit) loop (":" :: rest) rfl, stride_of_step_error hstep]
      rfl
    rw [interpretWithin, evaluate_succ, hresume] at hok
    cases hok
  · refine ⟨between, after, h, hsplit, hp, hr, ?_⟩
    have hgrown : (defining ⟨m, []⟩ h).words.Extends Word.Plain
        (finish (resume (inside limit) loop (":" :: rest) (between.length + 2) (defining ⟨m, []⟩ h))).words :=
      resume_upholds (steady_extends _) trivial
        (fun loop tokens _ hm => inside_upholds (steady_extends _) trivial limit loop tokens hm) _ _ _ (.refl _ _)
    rw [← resume_defined hs ho, ← evaluate_succ, ← words_interpretWithin, hok] at hgrown
    exact hgrown.find? (find?_defining hw)

/-- A definition by itself is evaluated to the word that is read from it. -/
theorem interpretWithin_definition (limit : Nat) (loop : Option Int)
    (hs : m.words.sense ":" = .primitive (.lookahead .colon)) (hp : Plain between) (hr : Reads between h)
    (hw : m.words.contains h.name = false) :
    interpretWithin (limit + 1) loop (":" :: (between ++ [";"])) ⟨m, []⟩ = .ok () (defining ⟨m, []⟩ h) := by
  have ho : Outcome ⟨m, []⟩ (between ++ [";"]) _ := .defined rfl hp hr rfl hw
  have hend : (":" :: (between ++ [";"])).length ≤ between.length + 2 := by simp
  rw [interpretWithin, evaluate_succ, resume_defined hs ho, resume_of_le _ _ _ hend]

end Colon

/-- A definition that was evaluated from a text can be read back from its listing exactly if the listing is legible:
on a machine with the colon, where the name is free, evaluating the listing goes well and gives the word again. -/
theorem Word.reads_back_iff {origin m : Machine Empty} {w : Word Empty} {text : String} {vars : Variables}
    {limit₀ : Nat} {loop₀ : Option Int} (hbased : origin.words.Based)
    (hadded : w ∈ (finish (interpretWithin limit₀ loop₀ (tokenize text) ⟨origin, vars⟩)).words.words)
    (hnew : w ∉ origin.words.words) (hcolon : m.words.sense ":" = .primitive (.lookahead .colon))
    (hfree : m.words.contains w.name = false) (limit : Nat) (loop : Option Int) :
    (∃ s, interpretWithin (limit + 1) loop (tokenize w.source) ⟨m, []⟩ = .ok () s ∧
      s.words.find? w.name = some w) ↔ w.Legible := by
  have htold := Colon.interpretWithin_told limit₀ loop₀ (tokenize text) (s := ⟨origin, vars⟩) hbased
  obtain ⟨before, between, after, h, htokens, hp, hr, rfl⟩ := (htold.2 w hadded).resolve_left hnew
  have hf : h.FromText := by
    refine hr.fromText hp fun t ht => ?_
    have hmem : t ∈ tokenize text := by
      rw [htokens]
      simp [ht]
    exact Text.solid_of_mem_tokenize hmem
  rw [Colon.tokenize_source hf]
  constructor
  · rintro ⟨s, hok, hfind⟩
    obtain ⟨between', after', h', hsplit, hp', hr', hfind'⟩ := Colon.reads_of_ok hcolon hok
    obtain ⟨body, rfl⟩ := hr'.eq_cons
    have hname : h.name = h'.name := (List.cons.inj hsplit).1
    rw [Heading.word_name, hname, hfind'] at hfind
    obtain rfl := Heading.word_inj (Option.some.inj hfind)
    exact Colon.legible_of_reads hf hsplit hp' hr'
  · intro hl
    obtain ⟨hp, hr⟩ := Colon.reads_listed hf hl
    exact ⟨_, Colon.interpretWithin_definition limit loop hcolon hp hr hfree, Colon.find?_defining hfree⟩

/-- A square can be read back. With a no-break space before it, a bracket passes for part of the effect; trimmed of
that space it closes the comment in the listing. -/
theorem Word.reads_back_iff_nbsp :
    let text := ": sq ( n -- n ) dup * ; : odd ( \u00a0) n ) 1 ;"
    let after := finish (interpretWithin 1 none (tokenize text) ⟨bootMachine, []⟩)
    let sq : Word Empty := ⟨"sq", "n -- n", .definition ["dup", "*"]⟩
    let odd : Word Empty := ⟨"odd", ") n", .definition ["1"]⟩
    let reads (w : Word Empty) : Prop :=
      ∃ s, interpretWithin 1 none (tokenize w.source) ⟨bootMachine, []⟩ = .ok () s ∧
        s.words.find? w.name = some w
    (bootMachine : Machine Empty).words.Based ∧ sq ∈ after.words.words ∧ odd ∈ after.words.words ∧
      sq ∉ bootMachine.words.words ∧ odd ∉ bootMachine.words.words ∧
      (bootMachine : Machine Empty).words.sense ":" = .primitive (.lookahead .colon) ∧
      (bootMachine : Machine Empty).words.contains "sq" = false ∧
      (bootMachine : Machine Empty).words.contains "odd" = false ∧ reads sq ∧ ¬ reads odd := by
  intro text after sq odd reads
  have hbased : (bootMachine : Machine Empty).words.Based := .refl _ _
  have hsq : sq ∈ after.words.words := by decide +kernel
  have hodd : odd ∈ after.words.words := by decide +kernel
  have hsq' : sq ∉ bootMachine.words.words := by decide
  have hodd' : odd ∉ bootMachine.words.words := by decide
  have hcolon : (bootMachine : Machine Empty).words.sense ":" = .primitive (.lookahead .colon) := by decide
  have hsqfree : (bootMachine : Machine Empty).words.contains "sq" = false := by decide
  have hoddfree : (bootMachine : Machine Empty).words.contains "odd" = false := by decide
  have hlegible : sq.Legible := ⟨by decide, by decide⟩
  have hillegible : ¬ odd.Legible := fun h => (h.1 ")" (by decide)).1 rfl
  exact ⟨hbased, hsq, hodd, hsq', hodd', hcolon, hsqfree, hoddfree,
    (Word.reads_back_iff hbased hsq hsq' hcolon hsqfree 0 none).2 hlegible,
    fun h => hillegible ((Word.reads_back_iff hbased hodd hodd' hcolon hoddfree 0 none).1 h)⟩

end Forth
