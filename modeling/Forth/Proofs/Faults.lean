import Forth.Standard
import Forth.Proofs.Invariants

/-!
# Faults are numbers that are too long

With a console that takes all output and has its input given beforehand, an evaluation succeeds, fails in
one of the classified ways, or comes to a number that has too many digits to be read or written. The last
happens at literals, at the words that write cells, and at addresses that a complaint would have to show
(`fault_iff_reaches`). Where input comes from elsewhere, words that ask for it may also get a fault instead
(`Moment.breaks_fault_iff_of_ready`).
-/
namespace Forth

open Machine

def Cell.Long (n : Int) : Prop := Numeral.digitLimit < (Nat.toDigits 10 n.natAbs).length

def Numeral.LongLiteral (token : String) : Prop :=
  isDigits (splitSign token.toList).2 = true ∧ digitLimit < (splitSign token.toList).2.length

/-- A console that takes all output, with its input given beforehand. -/
def Console.Scripted (c : Console) : Prop :=
  c.sink.accepts = true ∧
    ((∃ rest, c.source = .text rest) ∨ ∃ lines, c.source = .queue lines)

/-- The word would have to write a cell that is too long. The complaint about an address shows it. -/
def Simple.Oversized : Simple → Stack → Prop
  | .print, n :: _ => Cell.Long n
  | .printStack, ns => ∃ n ∈ ns, Cell.Long n
  | .memoryFetch, address :: _ => Cell.Long address
  | .memoryStore, address :: _ :: _ => Cell.Long address
  | _, _ => False

/-- The token is a literal that is too long, or a word that would have to write a cell that is. -/
def Moment.Oversized (here : Moment) : Prop :=
  ∃ token, here.tokens[here.pos]? = some token ∧
    (Numeral.LongLiteral token ∨
      ∃ w, here.scope.words.sense token = .primitive (.simple w) ∧
        w.Oversized here.scope.stack)

/-! ### Numbers as text -/

theorem Numeral.text?_eq_none_iff {n : Int} : text? n = none ↔ Cell.Long n := by
  have h : n.natAbs < textBound ↔ ¬ Cell.Long n := by
    rw [lt_textBound_iff, Cell.Long]
    omega
  by_cases hn : n.natAbs < textBound
  · simp [text?, hn, h.1 hn]
  · have hl : Cell.Long n := by
      by_cases hl : Cell.Long n
      · exact hl
      · exact absurd (h.2 hl) hn
    simp [text?, hn, hl]

theorem Numeral.texts?_eq_none_iff {ns : List Int} :
    texts? ns = none ↔ ∃ n ∈ ns, Cell.Long n := by
  have hmap (ns : List Int) : texts? ns = none ↔ ∃ n ∈ ns, text? n = none := by
    induction ns with
    | nil => simp [texts?]
    | cons n ns ih =>
      cases hn : text? n with
      | none => simp [texts?, hn]
      | some t =>
        have hcons : texts? (n :: ns) = (texts? ns).map (t :: ·) := by
          simp only [texts?, List.mapM_cons, hn]
          cases List.mapM text? ns <;> rfl
        rw [hcons, Option.map_eq_none_iff, ih]
        simp [hn]
  simp only [hmap, text?_eq_none_iff]

theorem Stack.listing?_eq_none_iff {s : Stack} :
    s.listing? = none ↔ ∃ n ∈ s, Cell.Long n := by
  simp [listing?, Numeral.texts?_eq_none_iff, bottomUp]

theorem Numeral.read_eq_tooLong_iff {token : String} :
    read token = .tooLong ↔ LongLiteral token := by
  unfold read readChars LongLiteral
  cases hs : splitSign token.toList with
  | mk negative ds =>
    cases hd : isDigits ds with
    | false => simp [hd]
    | true =>
      by_cases hl : digitLimit < ds.length <;> simp [hd, hl]

theorem Dictionary.sense_eq_longNumber_iff {d : Dictionary Empty} {token : String} :
    d.sense token = .longNumber ↔ Numeral.LongLiteral token := by
  rw [← Numeral.read_eq_tooLong_iff, Dictionary.sense]
  cases Numeral.read token with
  | value n => simp
  | tooLong => simp
  | other =>
    simp only [reduceCtorEq, iff_false]
    split
    · simp
    · split <;> simp

/-- No address of a memory that fits is too long. -/
theorem Cell.Long.not_lt {a : Int} (h : Cell.Long a) {size : Nat}
    (hs : Cell.fitsWord size = true) : ¬ (0 ≤ a ∧ a < size) := by
  rintro ⟨ha, hlt⟩
  have hword : 9223372036854775807 < Numeral.textBound :=
    Numeral.lt_textBound_iff.2 (by decide)
  have hle : (size : Int) ≤ 9223372036854775807 := by
    simp only [Cell.fitsWord, Bool.and_eq_true, decide_eq_true_eq] at hs
    exact hs.2
  have hn : a.natAbs < Numeral.textBound := by omega
  have hshort := Numeral.lt_textBound_iff.1 hn
  unfold Cell.Long at h
  omega

/-- Every memory that is given out fits. -/
theorem Memory.fitsWord_of_ofSize {room : Nat} {size : Int} {m : Memory} (h : ofSize room size = .ok m) :
    Cell.fitsWord m.size = true := by
  unfold ofSize at h
  split at h
  · cases h
  · next hneg =>
    split at h
    · cases h
    · next hfits =>
      split at h <;> cases h
      have hsize : ((zeros size.toNat).size : Int) = size := by
        have hlength : (zeros size.toNat).size = size.toNat := by simp [zeros, Memory.size]
        omega
      rw [hsize]
      simpa using hfits

/-! ### Single words -/

structure Machine.Ready (m : Machine Empty) : Prop where
  accepts : m.console.sink.accepts = true
  fits : Cell.fitsWord m.memory.size = true

/-- A machine that nothing but a number can fault. -/
def Machine.Sound (m : Machine Empty) : Prop :=
  m.console.Scripted ∧ Cell.fitsWord m.memory.size = true

theorem Machine.Sound.ready {m : Machine Empty} (hm : m.Sound) : m.Ready := ⟨hm.1.1, hm.2⟩

theorem Console.Scripted.readLine {c : Console} (h : c.Scripted) :
    ∃ line source, c.source.readLine = (.ok line, source) ∧
      ({ c with source } : Console).Scripted := by
  obtain ⟨hs, ⟨rest, hr⟩ | ⟨lines, hl⟩⟩ := h
  · rw [hr]
    cases rest with
    | nil => exact ⟨_, _, rfl, hs, .inl ⟨_, rfl⟩⟩
    | cons ch rest => exact ⟨_, _, rfl, hs, .inl ⟨_, rfl⟩⟩
  · rw [hl]
    cases lines with
    | nil => exact ⟨_, _, rfl, hs, .inr ⟨_, rfl⟩⟩
    | cons line lines => exact ⟨_, _, rfl, hs, .inr ⟨_, rfl⟩⟩

theorem Machine.Ready.put {m : Machine Empty} (hm : m.Ready) (i : Nat) (n : Int) :
    ({ m with memory := m.memory.put i n } : Machine Empty).Ready where
  accepts := hm.accepts
  fits := by
    rw [Memory.size_put]
    exact hm.fits

/-- Whatever may come in, what is written is taken. -/
theorem Machine.Ready.with_source {m : Machine Empty} (hm : m.Ready) (source : Source) :
    ({ m with console := { m.console with source } } : Machine Empty).Ready :=
  ⟨hm.accepts, hm.fits⟩

/-- A machine that is ready takes whatever is written. -/
theorem Machine.Ready.emit_eq {m : Machine Empty} (hm : m.Ready) (t : String) :
    ∃ sink, emit t m = .ok () { m with console := { m.console with sink } } ∧ sink.accepts = true := by
  by_cases ht : t.isEmpty = true
  · exact ⟨m.console.sink, by simp only [emit, ht, if_true], hm.accepts⟩
  · refine ⟨m.console.sink.append t, ?_, Sink.accepts_append hm.accepts t⟩
    simp only [emit, ht, hm.accepts, if_true, Bool.false_eq_true, if_false]

/-- On a machine that is ready only reading raises more than causes. -/
theorem secluded_ready {T : Trouble → Prop} (hT : ∀ c, T (.cause c)) :
    Secluded (Only Machine.Ready) T fun _ => False := by
  refine secluded_only (fun hm _ => ⟨hm.accepts, hm.fits⟩) (fun hm => hm.put) ?_ fun _ => hT _
  intro t m ht hm
  obtain ⟨sink, he, hs⟩ := hm.emit_eq t
  rw [he]
  exact ⟨hs, hm.fits⟩

/-- On a sound machine the basic actions raise nothing but causes. -/
theorem steady_sound {T : Trouble → Prop} (hT : ∀ c, T (.cause c)) : Steady Machine.Sound T where
  stack hm _ := hm
  words hm _ _ := hm
  note hm _ := hm
  put hm i n := by
    refine ⟨hm.1, ?_⟩
    rw [Memory.size_put]
    exact hm.2
  cause _ := hT _
  emit {t m} _ hm := by
    obtain ⟨sink, he, hs⟩ := hm.ready.emit_eq t
    rw [he]
    exact ⟨⟨hs, hm.1.2⟩, hm.2⟩
  readLine m hm := by
    obtain ⟨line, source, hr, hs⟩ := hm.1.readLine
    simp only [Machine.readLine, hr]
    exact ⟨hs, hm.2⟩

section Ready

variable {m : Machine Empty} {f : Fault}

theorem emit?_fault_iff {t : Option String} (hm : m.Ready) :
    (∃ m', emit? t m = .error (.fault f) m') ↔ f = .digitLimit ∧ t = none := by
  cases t with
  | none =>
    constructor
    · rintro ⟨m', ⟨⟩⟩
      exact ⟨rfl, rfl⟩
    · rintro ⟨rfl, -⟩
      exact ⟨m, rfl⟩
  | some t =>
    obtain ⟨sink, he, -⟩ := hm.emit_eq t
    simp [emit?, he]

theorem Memory.check_fault_iff {m : Memory} {a : Int} (hm : Cell.fitsWord m.size = true) :
    m.check a = .error (.fault f) ↔ f = .digitLimit ∧ Cell.Long a := by
  unfold check
  by_cases ha : 0 ≤ a ∧ a < m.size
  · have hl : ¬ Cell.Long a := fun hl => hl.not_lt hm ha
    simp [ha, hl]
  · cases ht : Numeral.text? a with
    | none => simp [ha, Numeral.text?_eq_none_iff.1 ht, eq_comm]
    | some t =>
      have hl : ¬ Cell.Long a := by simp [← Numeral.text?_eq_none_iff, ht]
      simp [ha, hl]

/-- A word that reads no input faults exactly if it would have to write a cell that is too long. -/
theorem Simple.fault_iff (w : Simple) (hm : m.Ready) (hw : w.accepts? = none) :
    (∃ m', w.act m = .error (.fault f) m') ↔ f = .digitLimit ∧ w.Oversized m.stack := by
  have quiet {v : Simple} (hv : ¬ v.Spells) (ha : v.accepts? = none) :
      ¬ ∃ m', v.act m = .error (.fault f) m' := by
    rintro ⟨m', h⟩
    have hs := secluded_ready (T := fun t => ∀ f, t ≠ .fault f) (by simp)
    have hk := v.keeps_secluded hs ha (fun hs => absurd hs hv) (fun _ => Only.stack_eq) m m ⟨rfl, hm⟩
    rw [h] at hk
    exact (alike_self_iff.1 hk).2 f rfl
  cases w with
  | print =>
    cases hs : m.stack with
    | nil => simp [act, bind, EStateM.bind, pop, hs, Oversized]
    | cons n below =>
      have hm' : ({ m with stack := below } : Machine Empty).Ready := ⟨hm.accepts, hm.fits⟩
      simp only [act, bind, EStateM.bind, pop, hs, writeNumber, Oversized]
      rw [emit?_fault_iff hm', Numeral.text?_eq_none_iff]
  | printStack =>
    simp only [act, bind, EStateM.bind, get_apply, Oversized]
    rw [emit?_fault_iff hm, Stack.listing?_eq_none_iff]
  | memoryFetch =>
    cases hs : m.stack with
    | nil => simp [act, bind, EStateM.bind, pop, hs, Oversized]
    | cons a below =>
      rw [Oversized, ← Memory.check_fault_iff hm.fits]
      simp only [act, bind, EStateM.bind, pop, hs, fetch, Memory.fetch]
      cases m.memory.check a <;> simp [Except.map, push]
  | memoryStore =>
    rcases hs : m.stack with _ | ⟨a, _ | ⟨n, below⟩⟩
    · simp [act, bind, EStateM.bind, pop, hs, Oversized]
    · simp [act, bind, EStateM.bind, pop, hs, Oversized]
    · rw [Oversized, ← Memory.check_fault_iff hm.fits]
      simp only [act, bind, EStateM.bind, pop, hs, store]
      cases m.memory.check a <;> simp
  | readChar => cases hw
  | readNumber => cases hw
  | _ => exact iff_of_false (quiet (fun h => h) rfl) fun h => h.2

theorem Simple.Oversized.accepts?_eq {w : Simple} {stack : Stack} (h : w.Oversized stack) :
    w.accepts? = none := by
  cases w with
  | readChar => exact h.elim
  | readNumber => exact h.elim
  | _ => rfl

theorem Lookahead.plan_ne_fault {w : Lookahead} {loop : Option Int} {rest : List String}
    {s t : Scope Empty} {k : Int} (hs : s.Ready) :
    w.plan loop rest s ≠ .error ⟨.fault f, k⟩ t := by
  intro h
  have ho : w.Outcome rest s (w.plan loop rest s) := w.plan_outcome s
  rw [h] at ho
  generalize hr : EStateM.Result.error (⟨.fault f, k⟩ : Break) t = r at ho
  cases ho with
  | failed hc => cases hr
  | @refused line t' m k' hline hw =>
    obtain ⟨sink, he, -⟩ := hs.emit_eq (line ++ "\n")
    rw [writeLine, he] at hw
    cases hw
  | _ => cases hr

end Ready

/-! ### Tokens and runs -/

/-- The token asks for input, and gets a fault instead. -/
def Moment.Unanswered (here : Moment) (f : Fault) : Prop :=
  ∃ token w accept m, here.tokens[here.pos]? = some token ∧
    here.scope.words.sense token = .primitive (.simple w) ∧ w.accepts? = some accept ∧
    readCell accept (here.scope.console.source.remaining + 1) here.scope.toMachine = .error (.fault f) m

/-- A simple word faults exactly if its action does. -/
theorem Moment.simple_fault_iff {here : Moment} {token : String} {w : Simple} {f : Fault}
    (ht : here.tokens[here.pos]? = some token)
    (hsense : here.scope.words.sense token = .primitive (.simple w)) :
    (∃ k t, here.Breaks ⟨.fault f, k⟩ t) ↔ ∃ m, w.act here.scope.toMachine = .error (.fault f) m := by
  have hplan : plan here.loop token (here.tokens.drop (here.pos + 1)) here.scope =
      Primitive.plan here.loop (here.tokens.drop (here.pos + 1)) (.simple w) here.scope := by
    rw [plan, hsense]
    rfl
  simp only [Moment.breaks_iff, ht, Option.some.injEq, exists_eq_left', hplan, Primitive.plan_simple]
  cases w.act here.scope.toMachine with
  | ok u m => simp
  | error t m => cases t <;> simp [Break.ofTrouble]

/-- A token faults by itself exactly if it is oversized, or asks and gets no answer. -/
theorem Moment.breaks_fault_iff_of_ready {here : Moment} (hs : here.scope.Ready) (f : Fault) :
    (∃ k t, here.Breaks ⟨.fault f, k⟩ t) ↔ f = .digitLimit ∧ here.Oversized ∨ here.Unanswered f := by
  constructor
  · intro ⟨k, t, hb⟩
    obtain ⟨token, ht, hp⟩ := (Moment.breaks_iff here _ t).1 hb
    unfold plan at hp
    cases hsense : here.scope.words.sense token with
    | longNumber =>
      rw [hsense] at hp
      cases hp
      exact .inl ⟨rfl, token, ht, .inl (Dictionary.sense_eq_longNumber_iff.1 hsense)⟩
    | number n => rw [hsense] at hp; cases hp
    | unknown => rw [hsense] at hp; cases hp
    | definition body => rw [hsense] at hp; cases hp
    | primitive p =>
      rw [hsense] at hp
      cases p with
      | simple w =>
        obtain ⟨m, hact⟩ := (Moment.simple_fault_iff ht hsense).1 ⟨k, t, hb⟩
        cases hw : w.accepts? with
        | none =>
          obtain ⟨hf, ho⟩ := (w.fault_iff hs hw).1 ⟨m, hact⟩
          exact .inl ⟨hf, token, ht, .inr ⟨w, hsense, ho⟩⟩
        | some accept =>
          rw [Simple.act_of_accepts hw] at hact
          obtain ⟨m', hread⟩ := pushInput_error_iff.1 ⟨m, hact⟩
          exact .inr ⟨token, w, accept, m', ht, hsense, hw, hread⟩
      | lookahead w => exact absurd hp (Lookahead.plan_ne_fault hs)
      | index =>
        simp only [Sense.plan, Primitive.plan_index] at hp
        split at hp <;> cases hp
      | bye => cases hp
      | host w => exact w.elim
  · rintro (⟨rfl, token, ht, hl | ⟨w, hsense, ho⟩⟩ | ⟨token, w, accept, m, ht, hsense, hw, hread⟩)
    · refine ⟨0, here.scope, (Moment.breaks_iff here _ _).2 ⟨token, ht, ?_⟩⟩
      unfold plan
      rw [Dictionary.sense_eq_longNumber_iff.2 hl]
      rfl
    · exact (Moment.simple_fault_iff ht hsense).2 ((w.fault_iff hs ho.accepts?_eq).2 ⟨rfl, ho⟩)
    · refine (Moment.simple_fault_iff ht hsense).2 ?_
      rw [Simple.act_of_accepts hw]
      exact pushInput_error_iff.2 ⟨m, hread⟩

/-- Input that is given beforehand comes without faults. -/
theorem Machine.Sound.readCell_ne_fault {m m' : Machine Empty} (hm : m.Sound) (accept : String → Option Int)
    (n : Nat) (f : Fault) : readCell accept n m ≠ .error (.fault f) m' := by
  intro h
  have htame := (steady_sound (T := fun t => ∀ f, t ≠ .fault f) (by simp)).tame
  have hk := alike_self_iff.1 (htame.readCell accept n m m ⟨rfl, hm⟩)
  rw [h] at hk
  exact hk.2 f rfl

/-- A token faults by itself exactly if it is oversized. -/
theorem Moment.breaks_fault_iff {here : Moment} (hs : here.scope.Sound) (f : Fault) :
    (∃ k t, here.Breaks ⟨.fault f, k⟩ t) ↔ f = .digitLimit ∧ here.Oversized := by
  rw [Moment.breaks_fault_iff_of_ready hs.ready]
  refine or_iff_left ?_
  rintro ⟨token, w, accept, m, -, -, -, hread⟩
  exact hs.readCell_ne_fault _ _ f hread

/-- Nothing but a number that is too long gets past the classification, and it does exactly if evaluation
reaches a token that would have to read or write one. -/
theorem fault_iff_reaches (limit : Nat) (loop : Option Int) (tokens : List String)
    (s : Scope Empty) (hc : s.console.Scripted) (hm : Cell.fitsWord s.memory.size = true)
    (f : Fault) :
    (∃ s', interpretWithin limit loop tokens s = .error (.fault f) s') ↔
      f = .digitLimit ∧
        ∃ outer here, Reaches limit loop tokens s outer here ∧ here.Oversized := by
  have hsteady : Steady Machine.Sound fun _ => True := steady_sound (by simp)
  have sound {outer : List Frame} {here : Moment}
      (hr : Reaches limit loop tokens s outer here) : here.scope.Sound :=
    hr.upholds hsteady trivial ⟨hc, hm⟩
  constructor
  · rintro ⟨s', hs'⟩
    unfold interpretWithin at hs'
    cases he : evaluate limit loop tokens s with
    | ok u t => rw [he] at hs'; cases hs'
    | error e t =>
      rw [he] at hs'
      cases e with
      | bye => cases hs'
      | overflow => cases hs'
      | failed g => cases hs'
      | fault g =>
        cases hs'
        obtain ⟨outer, here, b, t', hr, hb, heq, -⟩ := reaches_of_evaluate (by simp) (by simp) he
        rw [b.annotate_through] at heq
        obtain ⟨halt, k⟩ := b
        cases halt with
        | bye => cases heq
        | overflow => cases heq
        | failed g => cases heq
        | fault g =>
          cases heq
          obtain ⟨hf, ho⟩ := (Moment.breaks_fault_iff (sound hr) f).1 ⟨k, t', hb⟩
          exact ⟨hf, outer, here, hr, ho⟩
  · rintro ⟨rfl, outer, here, hr, ho⟩
    obtain ⟨k, t, hb⟩ := (Moment.breaks_fault_iff (sound hr) .digitLimit).2 ⟨rfl, ho⟩
    obtain ⟨s', hs', -⟩ := hr.evaluate_eq hb (by simp)
    rw [Break.annotate_through] at hs'
    simp only [interpretWithin, hs']
    exact ⟨_, rfl⟩

/-- A cell with one digit too many cannot be printed. -/
theorem fault_of_print_long :
    ∃ s', interpretWithin 1 none ["."]
      (⟨⟨[(Numeral.textBound : Int)], .zeros 0, primitiveWords, .ofText "", #[]⟩, []⟩ :
        Scope Empty) = .error (.fault .digitLimit) s' := by
  have hlong : Cell.Long (Numeral.textBound : Int) := by
    rw [Cell.Long, Int.natAbs_natCast]
    exact Nat.lt_of_not_le fun h => Nat.lt_irrefl _ (Numeral.lt_textBound_iff.2 h)
  refine (fault_iff_reaches 1 none ["."] _ ⟨rfl, .inl ⟨_, rfl⟩⟩ (by decide) .digitLimit).2
    ⟨rfl, [], ⟨["."], 0, none, _⟩, .here .start (by decide), ".", rfl, .inr ⟨.print, ?_, hlong⟩⟩
  decide

end Forth
