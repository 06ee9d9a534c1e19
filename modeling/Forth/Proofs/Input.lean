import Forth.Simple

/-!
# Asking for input

A word that reads input asks for lines in rounds, each of which uses up a line. So a bound on the rounds does
not matter, once it is more than the number of lines (`readCell_eq`).
-/
namespace Forth

open Machine

/-- What the words that read input take from a line; no other word reads any. -/
def Simple.accepts? : Simple → Option (String → Option Int)
  | .readChar => some firstCode?
  | .readNumber => some wholeNumber?
  | _ => none

theorem Simple.act_of_accepts {w : Simple} {accept : String → Option Int} (h : w.accepts? = some accept) :
    (w.act : Action Empty Unit) = pushInput accept := by
  cases w with
  | readChar =>
    cases h
    rfl
  | readNumber =>
    cases h
    rfl
  | _ => cases h

/-- Ask for one line. The result is what it was accepted as. -/
def askOnce (accept : String → Option Int) : Action Empty (Option Int) := do
  match ← readLine with
  | none => throw (.cause .inputExhausted)
  | some line =>
    if line.isEmpty then
      writeLine "INPUT EMPTY"
      pure none
    else match accept line with
      | some k => pure (some k)
      | none =>
        writeLine "NOT A NUMBER"
        pure none

variable {accept : String → Option Int} {m m' : Machine Empty}

/-- One round of asking comes before all the others. -/
theorem readCell_succ (accept : String → Option Int) (n : Nat) (m : Machine Empty) :
    readCell accept (n + 1) m =
      match askOnce accept m with
      | .ok (some k) m => .ok k m
      | .ok none m => readCell accept n m
      | .error t m => .error t m := by
  simp only [readCell, askOnce, bind, EStateM.bind]
  cases readLine m with
  | error t m => rfl
  | ok line m =>
    cases line with
    | none => rfl
    | some line =>
      cases hl : line.isEmpty with
      | true =>
        simp only [hl, if_true, EStateM.bind]
        cases writeLine "INPUT EMPTY" m <;> rfl
      | false =>
        simp only [hl, Bool.false_eq_true, if_false]
        cases accept line with
        | some k => rfl
        | none =>
          simp only [EStateM.bind]
          cases writeLine "NOT A NUMBER" m <;> rfl

/-! ### Lines that come -/

section Lines

variable {line : String} {source : Source}

def remark (line : String) : String := if line.isEmpty then "INPUT EMPTY" else "NOT A NUMBER"

theorem askOnce_of_accepted {n : Int} (h : m.console.source.readLine = (.ok (some line), source))
    (hline : line.isEmpty = false) (ha : accept line = some n) :
    askOnce accept m = .ok (some n) { m with console := { m.console with source } } := by
  simp only [askOnce, bind, EStateM.bind, readLine, h, hline, ha, Bool.false_eq_true, if_false]
  rfl

/-- A line that is not accepted is remarked on. -/
theorem askOnce_of_refused (h : m.console.source.readLine = (.ok (some line), source))
    (hline : line.isEmpty = true ∨ accept line = none) (hs : m.console.sink.accepts = true) :
    askOnce accept m = .ok none { m with console := ⟨m.console.sink.append (remark line ++ "\n"), source⟩ } := by
  have hne : (remark line ++ "\n").isEmpty = false := by
    unfold remark
    split <;> decide
  have hwrite : writeLine (remark line) { m with console := { m.console with source } } =
      .ok () { m with console := ⟨m.console.sink.append (remark line ++ "\n"), source⟩ } := by
    simp only [writeLine, emit, hne, hs, Bool.false_eq_true, if_false, if_true]
  simp only [askOnce, bind, EStateM.bind, readLine, h]
  cases hempty : line.isEmpty with
  | true =>
    simp only [remark, hempty, if_true] at hwrite ⊢
    simp only [EStateM.bind, hwrite]
    rfl
  | false =>
    have ha : accept line = none := by simpa [hempty] using hline
    simp only [remark, hempty, Bool.false_eq_true, if_false] at hwrite ⊢
    simp only [ha, EStateM.bind, hwrite]
    rfl

theorem askOnce_of_ended (accept : String → Option Int) (h : m.console.source.readLine = (.ok none, source)) :
    askOnce accept m = .error (.cause .inputExhausted) { m with console := { m.console with source } } := by
  simp only [askOnce, bind, EStateM.bind, readLine, h]
  rfl

end Lines

/-- A line that is read is one line less to come. -/
theorem Source.remaining_readLine {source source' : Source} {line : String}
    (h : source.readLine = (.ok (some line), source')) : source'.remaining < source.remaining := by
  cases source with
  | text rest =>
    cases rest with
    | nil => cases h
    | cons ch rest =>
      cases h
      have hdrop := (List.dropWhile_suffix (· ≠ '\n') (l := ch :: rest)).length_le
      simp only [remaining, List.length_drop, List.length_cons] at hdrop ⊢
      omega
  | queue lines =>
    cases lines with
    | nil => cases h
    | cons line lines =>
      cases h
      simp [remaining]
  | user u =>
    obtain ⟨answers, prompts⟩ := u
    cases answers with
    | nil => cases h
    | cons answer answers =>
      cases answer with
      | line text =>
        cases h
        simp [remaining]
      | interrupt => cases h
      | endOfInput => cases h
  | missing => cases h

theorem remaining_of_writeLine {t : String} (h : writeLine t m = .ok () m') :
    m'.console.source.remaining = m.console.source.remaining := by
  unfold writeLine emit at h
  split at h
  · cases h
    rfl
  · split at h <;> cases h
    rfl

/-- A round that raises nothing has used up a line. -/
theorem remaining_askOnce {r : Option Int} (h : askOnce accept m = .ok r m') :
    m'.console.source.remaining < m.console.source.remaining := by
  simp only [askOnce, bind, EStateM.bind, readLine] at h
  rcases hr : m.console.source.readLine with ⟨line | line, source⟩
  · rw [hr] at h
    cases h
  · rw [hr] at h
    cases line with
    | none => cases h
    | some line =>
      have hlt := Source.remaining_readLine hr
      have hwrite {t : String}
          (hw : (do writeLine t; pure none : Action Empty (Option Int))
            { m with console := { m.console with source } } = .ok r m') :
          m'.console.source.remaining < m.console.source.remaining := by
        simp only [bind, EStateM.bind] at hw
        split at hw
        · next m₁ hm₁ =>
          cases hw
          rw [remaining_of_writeLine hm₁]
          exact hlt
        · cases hw
      cases hl : line.isEmpty with
      | true =>
        simp only [hl, if_true] at h
        exact hwrite h
      | false =>
        simp only [hl, Bool.false_eq_true, if_false] at h
        cases ha : accept line with
        | some k =>
          rw [ha] at h
          cases h
          exact hlt
        | none =>
          rw [ha] at h
          exact hwrite h

/-- The bound on the lines does not matter, once it is more than there are. -/
theorem readCell_eq (accept : String → Option Int) {m : Machine Empty} {n n' : Nat}
    (h : m.console.source.remaining < n) (h' : m.console.source.remaining < n') :
    readCell accept n m = readCell accept n' m := by
  induction n generalizing m n' with
  | zero => omega
  | succ n ih =>
    obtain ⟨n', rfl⟩ : ∃ k, n' = k + 1 := ⟨n' - 1, by omega⟩
    rw [readCell_succ, readCell_succ]
    cases ha : askOnce accept m with
    | error t m' => rfl
    | ok k m' =>
      cases k with
      | some k => rfl
      | none =>
        have hlt := remaining_askOnce ha
        exact ih (by omega) (by omega)

/-- A word that reads input may ask as often as it likes. -/
theorem pushInput_eq (accept : String → Option Int) {m : Machine Empty} {n : Nat}
    (h : m.console.source.remaining < n) :
    pushInput accept m = (do push (← readCell accept n) : Action Empty Unit) m := by
  have hget : pushInput accept m =
      (do push (← readCell accept (m.console.source.remaining + 1)) : Action Empty Unit) m := rfl
  rw [hget]
  simp only [bind, EStateM.bind, readCell_eq accept (Nat.lt_succ_self _) h]

/-- If the next line is accepted, no other is asked for. -/
theorem pushInput_of_accepted {line : String} {source : Source} {k : Int}
    (h : m.console.source.readLine = (.ok (some line), source)) (hline : line.isEmpty = false)
    (ha : accept line = some k) :
    pushInput accept m =
      .ok () { m with stack := k :: m.stack, console := { m.console with source } } := by
  rw [pushInput_eq accept (Nat.lt_succ_self _)]
  simp only [bind, EStateM.bind, readCell_succ, askOnce_of_accepted h hline ha, push]

theorem pushInput_of_ended (accept : String → Option Int) {source : Source}
    (h : m.console.source.readLine = (.ok none, source)) :
    pushInput accept m =
      .error (.cause .inputExhausted) { m with console := { m.console with source } } := by
  rw [pushInput_eq accept (Nat.lt_succ_self _)]
  simp only [bind, EStateM.bind, readCell_succ, askOnce_of_ended accept h]

theorem pushInput_error_iff {t : Trouble} :
    (∃ m', pushInput accept m = .error t m') ↔
      ∃ m', readCell accept (m.console.source.remaining + 1) m = .error t m' := by
  rw [pushInput_eq accept (Nat.lt_succ_self _)]
  simp only [bind, EStateM.bind]
  cases readCell accept (m.console.source.remaining + 1) m with
  | ok n m => simp [push]
  | error t m => simp

end Forth
