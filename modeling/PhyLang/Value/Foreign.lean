import PhyLang.Value.Basic

namespace PhyLang

namespace Foreign

/-- The absence of anything, which is not the value null. -/
def absent : Foreign := ⟨"NoneType", "None"⟩

def list (items : List Value) : Foreign := ⟨"list", "[" ++ ", ".intercalate (items.map Value.shownInside) ++ "]"⟩

/-- A frame, which shows its names in order. -/
def scope (names : List String) : Foreign :=
  let sorted := names.mergeSort fun a b => a ≤ b
  ⟨"Environment", "<Environment [" ++ ", ".intercalate (sorted.map Text.quote) ++ "]>"⟩

def range (start stop : Json) : Foreign :=
  ⟨"ForRange", s!"ForRange(start={start.shownInside}, end={stop.shownInside})"⟩

def location (place : Loc) : Foreign :=
  ⟨"Loc", s!"Loc(line={place.line.shownInside}, column={place.column.shownInside}, " ++
    s!"end_line={place.endLine.shownInside}, end_column={place.endColumn.shownInside})"⟩

end Foreign

def Value.unsupportedMessage (value : Value) : String := s!"Unsupported node for serialization: {value.hostType}"

end PhyLang
