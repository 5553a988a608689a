import LayeredMachines.Proofs.Axion.Markers
import LayeredMachines.Proofs.Frames.Binding

/-!
# Values without markers

When the variables are put into a value, its markers are gone. What is left could form new ones only
with the help of an opening parenthesis from a variable: no parenthesis stands right before a marker,
for it would belong to it, and where two stand next to each other, they are not closed on their line,
nor are they after the variables are put in.
-/

namespace LayeredMachines

/-- A marker begins somewhere in the text. -/
def HasMarker (text : List Char) : Prop :=
  ∃ rest, rest <:+ text ∧ BeginsMarker rest

variable {text : List Char} {segments : List Segment} {stack : FrameStack}

/-- What precedes the end of a marker on its line may as well belong to the marker. -/
theorem ClosesMarker.cons {c : Char} (hc : c ≠ '\n') (hcloses : ClosesMarker text) :
    ClosesMarker (c :: text) := by
  obtain ⟨name, after, rfl, hline⟩ := hcloses
  exact ⟨c :: name, after, rfl, List.not_mem_cons_of_ne_of_not_mem hc.symm hline⟩

/-- Where a marker begins, the end of one follows. -/
theorem BeginsMarker.closesMarker (hbegins : BeginsMarker text) : ClosesMarker text := by
  obtain ⟨rest, rfl, hcloses⟩ := hbegins
  exact (hcloses.cons (by decide)).cons (by decide)

/-- The first character of a marker is a parenthesis, and another one follows. -/
theorem beginsMarker_cons {c : Char} {rest : List Char} :
    BeginsMarker (c :: rest) ↔ c = '(' ∧ ∃ inner, rest = '(' :: inner ∧ ClosesMarker inner := by
  unfold BeginsMarker
  simp only [List.cons.injEq, and_assoc, exists_and_left]

/-- A marker of a text begins with its first character or behind it. -/
theorem hasMarker_cons {c : Char} {rest : List Char} :
    HasMarker (c :: rest) ↔ BeginsMarker (c :: rest) ∨ HasMarker rest := by
  unfold HasMarker
  simp only [List.suffix_cons_iff, or_and_right, exists_or, exists_eq_left]

/-- No marker begins where there are no opening parentheses. -/
theorem HasMarker.of_append {front : List Char} (hmarker : HasMarker (front ++ text))
    (hfront : '(' ∉ front) : HasMarker text := by
  induction front with
  | nil => exact hmarker
  | cons c front ih =>
    obtain ⟨hc, hrest⟩ := not_or.mp (mt List.mem_cons.mpr hfront)
    rcases hasMarker_cons.mp hmarker with hbegins | hlater
    · exact absurd (beginsMarker_cons.mp hbegins).1.symm hc
    · exact ih hlater hrest

namespace Segment

/-- A text without markers consists of its characters. -/
theorem scan_of_not_hasMarker (hnone : ¬ HasMarker text) : Scan text (text.map .literal) := by
  induction text with
  | nil => exact .nil
  | cons c rest ih =>
    obtain ⟨hbegins, hrest⟩ := not_or.mp (mt hasMarker_cons.mpr hnone)
    exact .literal hbegins (ih hrest)

/-- Where a character stands in front after the variables were put in, it stood there before, unless
a marker did. -/
theorem Scan.cases_of_flatMap_eq {c : Char} {rest : List Char} (hscan : Scan text segments)
    (heq : segments.flatMap (substitute stack) = c :: rest) :
    BeginsMarker text ∨ ∃ before others, text = c :: before ∧ Scan before others ∧
      others.flatMap (substitute stack) = rest := by
  cases hscan with
  | nil => simp at heq
  | marker hname => exact .inl (beginsMarker_of_name hname _)
  | literal _ hrest =>
    rw [List.flatMap_cons, substitute, List.singleton_append, List.cons.injEq] at heq
    obtain ⟨rfl, rfl⟩ := heq
    exact .inr ⟨_, _, rfl, hrest, rfl⟩

/-- Where the end of a marker follows after the variables were put in, one followed before. -/
theorem Scan.closesMarker (hscan : Scan text segments)
    (hcloses : ClosesMarker (segments.flatMap (substitute stack))) : ClosesMarker text := by
  induction hscan with
  | nil => exact hcloses
  | marker hname => exact (beginsMarker_of_name hname _).closesMarker
  | @literal c rest segments _ hrest ih =>
    obtain ⟨name, after, heq, hline⟩ := hcloses
    rw [List.flatMap_cons, substitute, List.singleton_append] at heq
    cases name with
    | nil =>
      -- Both parentheses stood here before, or a marker followed the first one.
      rw [List.nil_append, List.cons.injEq] at heq
      obtain ⟨rfl, hafter⟩ := heq
      rcases hrest.cases_of_flatMap_eq hafter with hbegins | ⟨before, _, rfl, _⟩
      · exact hbegins.closesMarker.cons (by decide)
      · exact ⟨[], before, rfl, List.not_mem_nil⟩
    | cons d name =>
      rw [List.cons_append, List.cons.injEq] at heq
      obtain ⟨rfl, hafter⟩ := heq
      obtain ⟨hc, hname⟩ := not_or.mp (mt List.mem_cons.mpr hline)
      exact (ih ⟨name, after, hafter, hname⟩).cons (Ne.symm hc)

/-- When variables without opening parentheses are put in, no marker is left. -/
theorem Scan.not_hasMarker (hscan : Scan text segments)
    (hshown : ∀ name, '(' ∉ substitute stack (.marker name)) :
    ¬ HasMarker (segments.flatMap (substitute stack)) := by
  induction hscan with
  | nil =>
    rintro ⟨rest, hsuffix, inner, rfl, _⟩
    simp at hsuffix
  | marker _ _ ih =>
    rw [List.flatMap_cons]
    exact fun hmarker => ih (hmarker.of_append (hshown _))
  | @literal c rest segments hnone hrest ih =>
    rw [List.flatMap_cons, substitute, List.singleton_append, hasMarker_cons]
    rintro (hbegins | hlater)
    · obtain ⟨rfl, inner, hinner, hcloses⟩ := beginsMarker_cons.mp hbegins
      refine hnone (beginsMarker_cons.mpr ⟨rfl, ?_⟩)
      rcases hrest.cases_of_flatMap_eq hinner with ⟨text, rfl, htext⟩ | ⟨text, _, rfl, hscan, rfl⟩
      · exact ⟨_, rfl, htext.cons (by decide)⟩
      · exact ⟨_, rfl, hscan.closesMarker hcloses⟩
    · exact ih hlater

end Segment

/-- The value that a label has is one of those that are bound. -/
theorem FrameStack.mem_bindings_of_lookup {label value : String}
    (hlookup : stack.lookup label = some value) : ∃ binding ∈ stack.bindings, binding.2 = value := by
  rw [← find?_bindings] at hlookup
  obtain ⟨binding, hfound, hvalue⟩ := Option.map_eq_some_iff.mp hlookup
  exact ⟨binding, List.mem_of_find?_eq_some hfound, hvalue⟩

/-- What is put in for a marker has no opening parentheses if no variable has any. -/
theorem Segment.not_mem_substitute (hstack : ∀ binding ∈ stack.bindings, '(' ∉ binding.2.toList)
    (name : List Char) : '(' ∉ substitute stack (.marker name) := by
  rw [substitute, FrameStack.lookupOr]
  cases hlookup : stack.lookup (String.ofList (trim name)) with
  | none => simp
  | some value =>
    obtain ⟨binding, hbinding, rfl⟩ := FrameStack.mem_bindings_of_lookup hlookup
    exact hstack binding hbinding

namespace Axion

/-- An axion without markers stays as it is when the variables are put in. -/
theorem expand_eq_self {axion : Axion}
    (hnone : ∀ parameter ∈ axion.parameters, ¬ HasMarker parameter.value.toList)
    (stack : FrameStack) : axion.expand stack = axion := by
  have hvalue : ∀ parameter ∈ axion.parameters, parameter.expand stack = parameter := by
    intro parameter hparameter
    have hscan := Segment.scan_of_not_hasMarker (hnone parameter hparameter)
    rw [Parameter.expand, (Segment.scan_ofText _).unique hscan, List.flatMap_map]
    simp only [Segment.substitute, List.flatMap_singleton', String.ofList_toList]
  rw [expand, List.map_congr_left hvalue, List.map_id']

/-- When no value of the variables contains an opening parenthesis, no marker is left in the values of
an axion that they are put into, and nothing changes when any variables are put into it again. -/
theorem expand_leaves_no_marker (stack : FrameStack)
    (hstack : ∀ binding ∈ stack.bindings, '(' ∉ binding.2.toList) (axion : Axion) :
    (∀ parameter ∈ (axion.expand stack).parameters, ¬ HasMarker parameter.value.toList) ∧
      ∀ other, (axion.expand stack).expand other = axion.expand stack := by
  have hnone : ∀ parameter ∈ (axion.expand stack).parameters, ¬ HasMarker parameter.value.toList := by
    intro parameter hparameter
    obtain ⟨given, _, rfl⟩ := List.mem_map.mp hparameter
    rw [Parameter.expand, String.toList_ofList]
    exact (Segment.scan_ofText _).not_hasMarker (Segment.not_mem_substitute hstack)
  exact ⟨hnone, expand_eq_self hnone⟩

/-- The parentheses that are left on both sides of three markers do not make up another one. -/
theorem expand_leaves_no_marker_of_glued :
    let stack : FrameStack := ⟨⟨[("a", ")")]⟩, [⟨[("A", "b))"), ("b", "")]⟩]⟩
    let axion : Axion := ⟨"set", [⟨"label", "(((b))((a))"⟩, ⟨"value", "(((b)((\n(((( a ))b))"⟩]⟩
    (∀ binding ∈ stack.bindings, '(' ∉ binding.2.toList) ∧
      (axion.expand stack).parameters = [⟨"label", ")"⟩, ⟨"value", "(((b)((\nb))"⟩] ∧
      (∀ parameter ∈ (axion.expand stack).parameters, ¬ HasMarker parameter.value.toList) ∧
      ∀ other, (axion.expand stack).expand other = axion.expand stack := by
  intro stack axion
  have hstack : ∀ binding ∈ stack.bindings, '(' ∉ binding.2.toList := by decide
  exact ⟨hstack, by decide +kernel, expand_leaves_no_marker stack hstack axion⟩

end Axion

end LayeredMachines
