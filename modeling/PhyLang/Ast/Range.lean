namespace PhyLang

/-- The integers that a loop goes through, from `start` up to, but not including, `stop`. -/
structure IntRange where
  start : Int
  stop : Int
  deriving DecidableEq, Repr, Inhabited

namespace IntRange

/-- The range between two bounds, both included. With one bound it starts at zero. -/
def between (first : Int) : (last : Option Int) → IntRange
  | none => ⟨0, first + 1⟩
  | some last => ⟨first, last + 1⟩

def size (r : IntRange) : Nat := (r.stop - r.start).toNat

def firsts (r : IntRange) (limit : Nat) : List Int :=
  (List.range (min limit r.size)).map fun (i : Nat) => r.start + i

end IntRange

end PhyLang
