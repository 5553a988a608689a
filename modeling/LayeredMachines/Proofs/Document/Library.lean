import LayeredMachines.Document.Library
import LayeredMachines.Proofs.Document.Fields
import LayeredMachines.Proofs.Json.Parsing

/-!
# Libraries and their documents

A library may be written in many ways, and is decoded from a value exactly if that is one of them.
The text of its own document is one, so that nothing of a library is lost when it is written and
loaded.
-/

namespace LayeredMachines

open Json (Value)
open Document

/-! ### The ways to write a library -/

/-- The value is a way to write the transition. -/
def Transition.IsWrittenAs (transition : Transition) (value : Value) : Prop :=
  ∃ given, Gives Transition.fields value given ∧ IsText transition.event (given "event") ∧
    IsText transition.target (given "state")

/-- The value is a way to write the state. -/
def State.IsWrittenAs (state : State) (value : Value) : Prop :=
  ∃ given, Gives State.fields value given ∧ IsText state.label (given "label") ∧
    IsText state.entry (given "entry") ∧ IsText state.leave (given "leave") ∧
    IsList Transition.IsWrittenAs state.transitions (given "trans")

/-- The value is a way to write the machine. -/
def Machine.IsWrittenAs (machine : Machine) (value : Value) : Prop :=
  ∃ given, Gives Machine.fields value given ∧ IsText machine.name (given "name") ∧
    IsList State.IsWrittenAs machine.states (given "states")

/-- The value is a way to write the library. -/
def Library.IsWrittenAs (library : Library) (value : Value) : Prop :=
  ∃ given, Gives Library.fields value given ∧
    IsList Machine.IsWrittenAs library.machines (given "machines")

/-! ### Decoding -/

theorem Transition.ofValue?_eq_some_iff (transition : Transition) (value : Value) :
    Transition.ofValue? value = some transition ↔ transition.IsWrittenAs value := by
  have hnodup : Transition.fields.Nodup := by decide
  simp only [ofValue?, Option.bind_eq_bind, Option.bind_eq_some_iff, Fields.optional_string_iff]
  constructor
  · rintro ⟨fields, hread, event, hevent, target, htarget, heq⟩
    cases heq
    exact ⟨_, gives_of_ofValue? hnodup hread, hevent, htarget⟩
  · rintro ⟨given, hgives, hevent, htarget⟩
    obtain ⟨fields, hread, hlookup⟩ := hgives.exists_ofValue? hnodup
    rw [← hlookup "event" (by decide)] at hevent
    rw [← hlookup "state" (by decide)] at htarget
    exact ⟨fields, hread, _, hevent, _, htarget, rfl⟩

theorem State.ofValue?_eq_some_iff (state : State) (value : Value) :
    State.ofValue? value = some state ↔ state.IsWrittenAs value := by
  have hnodup : State.fields.Nodup := by decide
  simp only [ofValue?, Option.bind_eq_bind, Option.bind_eq_some_iff, Fields.optional_string_iff,
    Fields.optional_list_iff Transition.ofValue?_eq_some_iff]
  constructor
  · rintro ⟨fields, hread, label, hlabel, entry, hentry, leave, hleave, transitions, htransitions,
      heq⟩
    cases heq
    exact ⟨_, gives_of_ofValue? hnodup hread, hlabel, hentry, hleave, htransitions⟩
  · rintro ⟨given, hgives, hlabel, hentry, hleave, htransitions⟩
    obtain ⟨fields, hread, hlookup⟩ := hgives.exists_ofValue? hnodup
    rw [← hlookup "label" (by decide)] at hlabel
    rw [← hlookup "entry" (by decide)] at hentry
    rw [← hlookup "leave" (by decide)] at hleave
    rw [← hlookup "trans" (by decide)] at htransitions
    exact ⟨fields, hread, _, hlabel, _, hentry, _, hleave, _, htransitions, rfl⟩

theorem Machine.ofValue?_eq_some_iff (machine : Machine) (value : Value) :
    Machine.ofValue? value = some machine ↔ machine.IsWrittenAs value := by
  have hnodup : Machine.fields.Nodup := by decide
  simp only [ofValue?, Option.bind_eq_bind, Option.bind_eq_some_iff, Fields.optional_string_iff,
    Fields.optional_list_iff State.ofValue?_eq_some_iff]
  constructor
  · rintro ⟨fields, hread, name, hname, states, hstates, heq⟩
    cases heq
    exact ⟨_, gives_of_ofValue? hnodup hread, hname, hstates⟩
  · rintro ⟨given, hgives, hname, hstates⟩
    obtain ⟨fields, hread, hlookup⟩ := hgives.exists_ofValue? hnodup
    rw [← hlookup "name" (by decide)] at hname
    rw [← hlookup "states" (by decide)] at hstates
    exact ⟨fields, hread, _, hname, _, hstates, rfl⟩

/-- A library is decoded from the values that it may be written as, and from no other ones. -/
theorem Library.ofValue?_eq_some_iff (library : Library) (value : Value) :
    Library.ofValue? value = some library ↔ library.IsWrittenAs value := by
  have hnodup : Library.fields.Nodup := by decide
  simp only [ofValue?, Option.bind_eq_bind, Option.bind_eq_some_iff,
    Fields.optional_list_iff Machine.ofValue?_eq_some_iff]
  constructor
  · rintro ⟨fields, hread, machines, hmachines, heq⟩
    cases heq
    exact ⟨_, gives_of_ofValue? hnodup hread, hmachines⟩
  · rintro ⟨given, hgives, hmachines⟩
    obtain ⟨fields, hread, hlookup⟩ := hgives.exists_ofValue? hnodup
    rw [← hlookup "machines" (by decide)] at hmachines
    exact ⟨fields, hread, _, hmachines, rfl⟩

/-! ### The document of a library -/

theorem Transition.isWrittenAs_toValue (transition : Transition) :
    transition.IsWrittenAs transition.toValue :=
  ⟨_, gives_ofFields (by rfl) (by decide), isText_ofString _, isText_ofString _⟩

theorem State.isWrittenAs_toValue (state : State) : state.IsWrittenAs state.toValue :=
  ⟨_, gives_ofFields (by rfl) (by decide), isText_ofString _, isText_ofString _,
    isText_ofString _, isList_ofList Transition.isWrittenAs_toValue _⟩

theorem Machine.isWrittenAs_toValue (machine : Machine) : machine.IsWrittenAs machine.toValue :=
  ⟨_, gives_ofFields (by rfl) (by decide), isText_ofString _,
    isList_ofList State.isWrittenAs_toValue _⟩

/-- The document of a library is a way to write it. -/
theorem Library.isWrittenAs_toValue (library : Library) : library.IsWrittenAs library.toValue :=
  ⟨_, gives_ofFields (by rfl) (by decide), isList_ofList Machine.isWrittenAs_toValue _⟩

theorem Transition.isStrict_toValue (transition : Transition) : transition.toValue.IsStrict := by
  apply isStrict_ofFields
  simp [isStrict_ofString]

theorem State.isStrict_toValue (state : State) : state.toValue.IsStrict := by
  apply isStrict_ofFields
  simp [isStrict_ofString, isStrict_ofList Transition.isStrict_toValue]

theorem Machine.isStrict_toValue (machine : Machine) : machine.toValue.IsStrict := by
  apply isStrict_ofFields
  simp [isStrict_ofString, isStrict_ofList State.isStrict_toValue]

/-- The document of a library keeps to the grammar. -/
theorem Library.isStrict_toValue (library : Library) : library.toValue.IsStrict := by
  apply isStrict_ofFields
  simp [isStrict_ofList Machine.isStrict_toValue]

/-- A library is read from the texts that spell a value it may be written as, and from no other
ones. -/
theorem Library.read?_eq_some_iff {text : String} {library : Library} :
    Library.read? text = some library ↔
      ∃ value, Json.Spells text.toList value ∧ library.IsWrittenAs value := by
  simp only [read?, Option.bind_eq_some_iff, Value.read?_eq_some_iff,
    Library.ofValue?_eq_some_iff]

/-- What is written as the text of a library is read as that library, whatever characters its texts
consist of and however long its lists are. So the library is loaded from its text if it is valid,
and otherwise it is refused with its violations in their order. -/
theorem Library.load_render (library : Library) :
    Library.read? library.render = some library ∧
      Library.load library.render =
        if library.violations = [] then .ok library else .error (.invalid library.violations) := by
  have hread : Library.read? library.render = some library := by
    refine read?_eq_some_iff.mpr ⟨library.toValue, ?_, library.isWrittenAs_toValue⟩
    rw [render, Document.render, String.toList_ofList]
    exact Value.spells_render library.isStrict_toValue
  refine ⟨hread, ?_⟩
  simp only [load, hread, isValid, List.isEmpty_iff]

end LayeredMachines
