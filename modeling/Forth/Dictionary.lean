import Forth.Word
import Forth.Failure

/-!
The dictionary: words under distinct names, in the order in which they were added. Words are never
changed or forgotten.
-/
namespace Forth

structure Dictionary (ε : Type) where
  words : List (Word ε)
  deriving DecidableEq, Repr

namespace Dictionary

variable {ε : Type}

def empty : Dictionary ε := ⟨[]⟩

def size (d : Dictionary ε) : Nat := d.words.length

def names (d : Dictionary ε) : List String := d.words.map (·.name)

def find? (d : Dictionary ε) (name : String) : Option (Word ε) :=
  d.words.find? fun w => w.name == name

def contains (d : Dictionary ε) (name : String) : Bool := (d.find? name).isSome

/-- Add a word under a new name. -/
def add (d : Dictionary ε) (w : Word ε) : Except Cause (Dictionary ε) :=
  if d.contains w.name then .error (.duplicateDefinition w.name)
  else .ok ⟨d.words ++ [w]⟩

def sortedNames (d : Dictionary ε) : List String :=
  d.names.mergeSort fun a b => decide (a ≤ b)

/-- An added word is found under its name, and all others are found as before. -/
theorem find?_add {d d' : Dictionary ε} {w : Word ε} (h : d.add w = .ok d') (name : String) :
    d'.find? name = if name = w.name then some w else d.find? name := by
  unfold add at h
  split at h
  · cases h
  · next absent =>
    cases h
    by_cases hn : name = w.name
    · subst hn
      have : d.words.find? (fun v => v.name == w.name) = none := by
        simpa [contains, find?] using absent
      simp [find?, List.find?_append, this]
    · have : (w.name == name) = false := by simpa using fun e : w.name = name => hn e.symm
      simp [find?, List.find?_append, this, hn]

/-- Adding changes nothing that is already there. -/
theorem words_add {d d' : Dictionary ε} {w : Word ε} (h : d.add w = .ok d') :
    d'.words = d.words ++ [w] := by
  unfold add at h
  split at h <;> cases h
  rfl

end Dictionary
end Forth
