import LayeredMachines.FrameStack

/-!
# Markers in parameter values

A value may hold markers such as `((name))`, for which the value of the variable `name` is put in
when the axion runs. A marker starts at the leftmost pair of opening parentheses that is closed on
the same line and ends at the first pair of closing ones. What is put in is not searched again.
-/

namespace LayeredMachines

/-- A value is made of single characters and markers. -/
inductive Segment where
  | literal (c : Char)
  | marker (name : List Char)
  deriving DecidableEq

namespace Segment

/-- The part of a line before the first pair of closing parentheses, and all that follows it. -/
def closing? : List Char → Option (List Char × List Char)
  | [] => none
  | ')' :: ')' :: after => some ([], after)
  | c :: rest =>
    if c = '\n' then none
    else (closing? rest).map fun (name, after) => (c :: name, after)

/-- The text after a marker is shorter than the text after its opening parentheses. -/
theorem length_of_closing? {text name after : List Char} (h : closing? text = some (name, after)) :
    after.length < text.length := by
  fun_induction closing? text generalizing name with
  | case1 => simp at h
  | case2 =>
    simp only [Option.some.injEq, Prod.mk.injEq] at h
    simp only [h.2, List.length_cons]
    omega
  | case3 => simp at h
  | case4 c rest _ hc ih =>
    obtain ⟨⟨inner, tail⟩, hinner, heq⟩ := Option.map_eq_some_iff.1 h
    simp only [Prod.mk.injEq] at heq
    have := ih (heq.2 ▸ hinner)
    simp only [List.length_cons]
    omega

/-- The characters and markers of a value, from left to right. -/
def ofText : List Char → List Segment
  | [] => []
  | '(' :: '(' :: rest =>
    match h : closing? rest with
    | some (name, after) =>
      have := length_of_closing? h
      .marker name :: ofText after
    | none => .literal '(' :: ofText ('(' :: rest)
  | c :: rest => .literal c :: ofText rest
termination_by text => text.length

/-- The text that a segment was read from. -/
def source : Segment → List Char
  | .literal c => [c]
  | .marker name => '(' :: '(' :: name ++ [')', ')']

/-- A character stands for itself, a marker for the visible value of the variable it names, or for
nothing if that is unbound. -/
def substitute (stack : FrameStack) : Segment → List Char
  | .literal c => [c]
  | .marker name => (stack.lookupOr (String.ofList (trim name)) "").toList

end Segment

/-- A value with the variables put in for its markers. -/
def Parameter.expand (stack : FrameStack) (parameter : Parameter) : Parameter :=
  { parameter with
    value := String.ofList
      ((Segment.ofText parameter.value.toList).flatMap (Segment.substitute stack)) }

/-- An axion with the variables put in for the markers of its parameter values. -/
def Axion.expand (stack : FrameStack) (axion : Axion) : Axion :=
  { axion with parameters := axion.parameters.map (Parameter.expand stack) }

end LayeredMachines
