import Forth.Proofs.Output
import Forth.Proofs.Plan
import Forth.Proofs.Scans

/-!
# What lookahead words object to

A lookahead word scans and checks before it takes a cell, binds a name or adds a word. So one that goes wrong by
itself has one of few objections, leaves everything as it was, and has its report point at one of few tokens
(`Lookahead.plan_stumbles`): at what stopped its scan, or at the last of its own tokens for what is found out
behind them.
-/
namespace Forth

open Machine

inductive Landmark where
  | word
  | identifier
  | colon
  | semicolon
  | matchingThen
  | matchingLoop
  | pastEnd
  deriving DecidableEq, Repr

/-- Position `p` is the place that the word at position `i` means. -/
def Landmark.IsAt (tokens : List String) (i p : Nat) : Landmark → Prop
  | .word => p = i
  | .identifier => p = i + 1
  | .colon => FirstAfter ":" tokens i p
  | .semicolon => FirstAfter ";" tokens i p
  | .matchingThen => Closes "if" "then" tokens i p
  | .matchingLoop => Closes "do" "loop" tokens i p
  | .pastEnd => p = tokens.length

/-- Where the report points when a lookahead word fails by itself: past the end for a construct or
identifier that is cut off, at a colon that must not be there, at the closing token for what is found
out behind it, and at the identifier for what is wrong with it. -/
def Lookahead.landmark : Lookahead → Cause → Landmark
  | .comment, _ | .say, _ => .pastEnd
  | .colon, .unterminatedDefinition => .pastEnd
  | .colon, .nestedDefinition => .colon
  | .colon, _ => .semicolon
  | .choose, .stackUnderflow => .matchingThen
  | .choose, .definitionInIf | .choose, .definitionInElse => .colon
  | .choose, _ => .pastEnd
  | .loop, .stackUnderflow => .matchingLoop
  | .loop, .definitionInLoop => .colon
  | .loop, _ => .pastEnd
  | .declare, .missingIdentifier | .recall, .missingIdentifier | .assign, .missingIdentifier =>
    .pastEnd
  | .declare, _ | .recall, _ | .assign, _ => .identifier

/-- Where the report points when a token fails by itself. -/
def Sense.landmark (c : Cause) : Sense → Landmark
  | .primitive (.lookahead w) => w.landmark c
  | _ => .word

/-- The classes of failures of scans: the tokens end too early, or a definition stands inside another construct. -/
def Kind.OfScan (k : Kind) : Prop :=
  .unterminatedConstruct ∈ k.lineage ∨ k = .nestedDefinition ∨ k = .nestedDefinitionInConditional ∨
    k = .nestedDefinitionInLoop

instance (k : Kind) : Decidable k.OfScan := inferInstanceAs (Decidable (_ ∨ _))

theorem Kind.OfScan.ne {k k' : Kind} (h : k.OfScan) (h' : ¬ k'.OfScan) : k ≠ k' := by
  rintro rfl
  exact h' h

/-! ### What goes wrong in each part -/

section Parts

variable {rest : List String}

theorem Fence.cause_of_scan {f : Fence} {depth : Nat} {e : ScanError}
    (h : f.scan depth rest = .error e) : e.cause = f.unterminated ∨ f.colon = some e.cause := by
  rcases f.scan_error h with rfl | ⟨hc, -⟩
  · exact .inl rfl
  · exact .inr hc

theorem Branches.cause_of_scan {e : ScanError} (h : Branches.scan rest = .error e) :
    Branches.Unterminated e.cause ∨ Branches.Colon e.cause := by
  rcases Branches.scan_error h with ⟨hc, -⟩ | ⟨hc, -⟩
  · exact .inl hc
  · exact .inr hc

theorem Heading.error_of_ofTokens {inner : List String} {c : Cause}
    (h : Heading.ofTokens inner = .error c) :
    c = .missingName ∨ c = .unterminatedComment := by
  unfold Heading.ofTokens at h
  split at h
  · cases h
    exact .inl rfl
  · split at h
    · next e he =>
      cases h
      rcases Fence.scan_error he with rfl | ⟨hc, -⟩
      · exact .inr rfl
      · cases hc
    · cases h
  · cases h

theorem Dictionary.add_error {d : Dictionary Empty} {w : Word Empty} {c : Cause} (h : d.add w = .error c) :
    c = .duplicateDefinition w.name ∧ d.contains w.name = true := by
  unfold Dictionary.add at h
  split at h <;> cases h
  next hd => exact ⟨rfl, hd⟩

/-- Writing goes wrong only for want of a console. -/
theorem emit_error {text : String} {m m' : Machine Empty} {e : Trouble} (h : emit text m = .error e m') :
    m' = m ∧ e = .fault .unsupported ∧ m.console.sink.accepts = false := by
  unfold emit at h
  split at h
  · cases h
  · split at h
    · cases h
    · next hsink =>
      cases h
      exact ⟨rfl, rfl, by simpa using hsink⟩

end Parts

/-! ### Objections -/

namespace Lookahead

/-- How many cells the word takes from the stack, after its scan and its checks. -/
def operands : Lookahead → Nat
  | .choose | .loop | .declare | .assign => 1
  | .comment | .colon | .say | .recall => 0

def Named : Lookahead → Prop
  | .declare | .recall | .assign => True
  | _ => False

/-- The words whose identifier has to be a variable. -/
def Refers : Lookahead → Prop
  | .recall | .assign => True
  | _ => False

/-- The scan of the tokens after the word fails. -/
def ScanFails (rest : List String) (e : ScanError) : Lookahead → Prop
  | .comment => Fence.comment.scan 0 rest = .error e
  | .say => Fence.text.scan 0 rest = .error e
  | .colon => Fence.definition.scan 0 rest = .error e
  | .choose => Branches.scan rest = .error e
  | .loop => Fence.loop.scan 0 rest = .error e
  | _ => False

inductive Objects (rest : List String) (s : Scope Empty) : Lookahead → Cause → Prop
  | scan {w : Lookahead} {e : ScanError} : w.ScanFails rest e → Objects rest s w e.cause
  | heading {inside : List String} {last : String} {c : Cause} :
      Fence.definition.scan 0 rest = .ok (inside, last) → Heading.ofTokens inside = .error c →
      Objects rest s .colon c
  | definesVariable {name : String} : s.vars.contains name = true →
      Objects rest s .colon (.nameIsVariable name)
  | definesWord {name : String} : s.vars.contains name = false → s.words.contains name = true →
      Objects rest s .colon (.duplicateDefinition name)
  | nameless {w : Lookahead} : w.Named → rest = [] → Objects rest s w .missingIdentifier
  | declaresWord {name : String} : rest.head? = some name → s.words.contains name = true →
      Objects rest s .declare (.nameIsWord name)
  | declaresVariable {name : String} : rest.head? = some name → s.words.contains name = false →
      s.vars.contains name = true → Objects rest s .declare (.nameIsVariable name)
  | word {w : Lookahead} {name : String} : w.Refers → rest.head? = some name →
      s.words.contains name = true → Objects rest s w (.notAVariable name)
  | unknown {w : Lookahead} {name : String} : w.Refers → rest.head? = some name →
      s.words.contains name = false → s.vars.contains name = false →
      Objects rest s w (.unknownVariable name)
  | underflow {w : Lookahead} : s.stack.length < w.operands → Objects rest s w .stackUnderflow

inductive Fails (w : Lookahead) (rest : List String) (s : Scope Empty) : Halt → Prop
  | objects {c : Cause} : w.Objects rest s c → Fails w rest s (.failed ⟨c, []⟩)
  | mute : w = .say → s.console.sink.accepts = false → Fails w rest s (.fault .unsupported)

inductive Spans (rest : List String) : Lookahead → Nat → Prop
  | colon {inside : List String} {last : String} :
      Fence.definition.scan 0 rest = .ok (inside, last) → Spans rest .colon (inside.length + 1)
  | choose {b : Branches} : Branches.scan rest = .ok b → Spans rest .choose b.width
  | loop {body : List String} {last : String} :
      Fence.loop.scan 0 rest = .ok (body, last) → Spans rest .loop (body.length + 1)
  | named {w : Lookahead} : w.Named → Spans rest w 1

def closing : Lookahead → Landmark
  | .comment | .say => .pastEnd
  | .colon => .semicolon
  | .choose => .matchingThen
  | .loop => .matchingLoop
  | .declare | .recall | .assign => .identifier

theorem landmark_missingIdentifier {w : Lookahead} (h : w.Named) : w.landmark .missingIdentifier = .pastEnd := by
  cases w with
  | declare => rfl
  | «recall» => rfl
  | assign => rfl
  | _ => exact h.elim

/-- How the own work of a lookahead word goes wrong, and how many places after it the report points. -/
inductive Stumbles (w : Lookahead) (rest : List String) (s : Scope Empty) : Break → Prop
  | scan {e : ScanError} : w.ScanFails rest e → Stumbles w rest s ⟨.failed ⟨e.cause, []⟩, 1 + e.passed⟩
  | nameless : w.Named → rest = [] → Stumbles w rest s ⟨.failed ⟨.missingIdentifier, []⟩, 1⟩
  | behind {c : Cause} {width : Nat} : w.Spans rest width → w.Objects rest s c → w.landmark c = w.closing →
      Stumbles w rest s ⟨.failed ⟨c, []⟩, width⟩
  | mute {line : String} {k : Int} : w = .say → Uttered (line ++ "\n") →
      writeLine line s.toMachine = .error (.fault .unsupported) s.toMachine →
      Stumbles w rest s ⟨.fault .unsupported, k⟩

variable {loop : Option Int} {rest : List String} {w : Lookahead} {s t : Scope Empty} {b : Break}

theorem ScanFails.kind {e : ScanError} (h : w.ScanFails rest e) : e.cause.kind.OfScan := by
  have fence {f : Fence} (hu : f.unterminated.kind.OfScan) (hc : ∀ c ∈ f.colon, c.kind.OfScan)
      (hs : f.scan 0 rest = .error e) : e.cause.kind.OfScan := by
    rcases Fence.cause_of_scan hs with h | h
    · rw [h]
      exact hu
    · exact hc _ h
  cases w with
  | comment => exact fence (by decide) (by decide) h
  | say => exact fence (by decide) (by decide) h
  | colon => exact fence (by decide) (by decide) h
  | loop => exact fence (by decide) (by decide) h
  | choose => rcases Branches.cause_of_scan h with (h | h) | (h | h) <;> rw [h] <;> decide
  | declare => exact h.elim
  | «recall» => exact h.elim
  | assign => exact h.elim

theorem Objects.kind_ne {c : Cause} (h : w.Objects rest s c) : c.kind ≠ .returnStackOverflow := by
  cases h with
  | scan he => exact he.kind.ne (by decide)
  | heading hs hh => rcases Heading.error_of_ofTokens hh with rfl | rfl <;> simp
  | _ => simp

/-! ### How words stumble -/

theorem plan_stumbles_of_named (hw : w.Named) (h : w.plan loop rest s = .error b t) :
    t = s ∧ w.Stumbles rest s b := by
  cases w with
  | declare =>
    rw [plan_declare] at h
    split at h
    · cases h
      exact ⟨rfl, .nameless trivial rfl⟩
    · split at h
      · next hd =>
        cases h
        exact ⟨rfl, .behind (.named trivial) (.declaresWord rfl hd) rfl⟩
      · next hd =>
        split at h
        · next hv =>
          cases h
          exact ⟨rfl, .behind (.named trivial) (.declaresVariable rfl (by simpa using hd) hv) rfl⟩
        · split at h <;> cases h
          next hs => exact ⟨rfl, .behind (.named trivial) (.underflow (by simp [hs, operands])) rfl⟩
  | «recall» =>
    rw [plan_recall] at h
    split at h
    · cases h
      exact ⟨rfl, .nameless trivial rfl⟩
    · next name more =>
      split at h
      · next hd =>
        cases h
        exact ⟨rfl, .behind (.named trivial) (.word trivial rfl hd) rfl⟩
      · next hd =>
        split at h <;> cases h
        next hv =>
          have hunknown : Objects (name :: more) s .recall (.unknownVariable name) :=
            .unknown trivial rfl (by simpa using hd) (by simp [Variables.contains, hv])
          exact ⟨rfl, .behind (.named trivial) hunknown rfl⟩
  | assign =>
    rw [plan_assign] at h
    split at h
    · cases h
      exact ⟨rfl, .nameless trivial rfl⟩
    · next name more =>
      split at h
      · next hd =>
        cases h
        exact ⟨rfl, .behind (.named trivial) (.word trivial rfl hd) rfl⟩
      · next hd =>
        split at h
        · next hv =>
          cases h
          have hunknown : Objects (name :: more) s .assign (.unknownVariable name) :=
            .unknown trivial rfl (by simpa using hd) (by simp [Variables.contains, hv])
          exact ⟨rfl, .behind (.named trivial) hunknown rfl⟩
        · split at h <;> cases h
          next hs => exact ⟨rfl, .behind (.named trivial) (.underflow (by simp [hs, operands])) rfl⟩
  | _ => exact hw.elim

/-- A lookahead word that goes wrong by itself stumbles, and leaves the state as it was. -/
theorem plan_stumbles (h : w.plan loop rest s = .error b t) : t = s ∧ w.Stumbles rest s b := by
  cases w with
  | comment =>
    rw [plan_comment] at h
    split at h <;> cases h
    next e he => exact ⟨rfl, .scan he⟩
  | say =>
    rw [plan_say] at h
    split at h
    · next e he =>
      cases h
      exact ⟨rfl, .scan he⟩
    · next inside last hs =>
      split at h <;> cases h
      next hw =>
        obtain ⟨rfl, rfl, hsink⟩ := emit_error hw
        exact ⟨rfl, .mute rfl (.said inside) hw⟩
  | colon =>
    rw [plan_colon] at h
    split at h
    · next e he =>
      cases h
      exact ⟨rfl, .scan he⟩
    · next inside last hs =>
      split at h
      · next c hc =>
        cases h
        have hlandmark : landmark .colon c = .semicolon := by
          rcases Heading.error_of_ofTokens hc with rfl | rfl <;> rfl
        exact ⟨rfl, .behind (.colon hs) (.heading hs hc) hlandmark⟩
      · split at h
        · next hv =>
          cases h
          exact ⟨rfl, .behind (.colon hs) (.definesVariable hv) rfl⟩
        · next hv =>
          split at h <;> cases h
          next ha =>
            obtain ⟨rfl, hd⟩ := Dictionary.add_error ha
            exact ⟨rfl, .behind (.colon hs) (.definesWord (by simpa using hv) hd) rfl⟩
  | choose =>
    rw [plan_choose] at h
    split at h
    · next e he =>
      cases h
      exact ⟨rfl, .scan he⟩
    · next b hb =>
      split at h <;> cases h
      next hs => exact ⟨rfl, .behind (.choose hb) (.underflow (by simp [hs, operands])) rfl⟩
  | loop =>
    rw [plan_loop] at h
    split at h
    · next e he =>
      cases h
      exact ⟨rfl, .scan he⟩
    · next body last hb =>
      split at h <;> cases h
      next hs => exact ⟨rfl, .behind (.loop hb) (.underflow (by simp [hs, operands])) rfl⟩
  | declare => exact plan_stumbles_of_named trivial h
  | «recall» => exact plan_stumbles_of_named trivial h
  | assign => exact plan_stumbles_of_named trivial h

end Lookahead

end Forth
