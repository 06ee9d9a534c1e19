/-!
The variables of one sequence of tokens. A definition body, a branch and each turn of a loop start
with none.
-/
namespace Forth

/-- Names with their values, each name once. -/
abbrev Variables := List (String × Int)

namespace Variables

def get? (v : Variables) (name : String) : Option Int := v.lookup name

def contains (v : Variables) (name : String) : Bool := (v.get? name).isSome

/-- Give a name a value, whether it has one already or not. -/
def set (v : Variables) (name : String) (n : Int) : Variables :=
  match v with
  | [] => [(name, n)]
  | (m, k) :: rest => if m == name then (name, n) :: rest else (m, k) :: set rest name n

theorem get?_cons (m name : String) (k : Int) (rest : Variables) :
    get? ((m, k) :: rest) name = if name = m then some k else get? rest name := by
  by_cases h : name = m
  · simp [get?, h]
  · have : (name == m) = false := by simpa using h
    simp [get?, List.lookup_cons, h, this]

/-- A name has the value it was given last, and other names keep theirs. -/
theorem get?_set (v : Variables) (name other : String) (n : Int) :
    (v.set name n).get? other = if other = name then some n else v.get? other := by
  induction v with
  | nil => exact get?_cons name other n []
  | cons entry rest ih =>
    obtain ⟨m, k⟩ := entry
    by_cases hm : m = name
    · subst hm
      by_cases h : other = m <;> simp [set, get?_cons, h]
    · by_cases h : other = m
      · subst h
        simp [set, get?_cons, hm]
      · simp [set, get?_cons, hm, h, ih]

end Variables
end Forth
