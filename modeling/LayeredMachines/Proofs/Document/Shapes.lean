import LayeredMachines.Proofs.Document.Library

/-!
# Faults of documents

A position of a document is read as a text, as a list or as a record, and every position is reached
from the whole document through items of lists and known fields of records. What is passed over is
not reached. A library is not decoded from a document with a fault at any of its positions.
-/

namespace LayeredMachines

namespace Document

open Json (Value Denotes)

/-- What a position of a document is read as. -/
inductive Shape where
  | text
  | list (item : Shape)
  | record (fields : List (String × Shape))

/-- A part of a value stands at a position that is read as some shape, if the whole value is read
as another one. -/
inductive Stands : Shape → Value → Shape → Value → Prop where
  | here (shape : Shape) (value : Value) : Stands shape value shape value
  | item {shape inner : Shape} {items : List Value} {item part : Value} (hitem : item ∈ items)
    (h : Stands shape item inner part) : Stands (.list shape) (.array items) inner part
  | member {fields : List (String × Shape)} {members : List (List Char × Value)}
    {body : List Char} {name : String} {shape inner : Shape} {value part : Value}
    (hmember : (body, value) ∈ members) (hname : Denotes body name.toList)
    (hfield : (name, shape) ∈ fields) (h : Stands shape value inner part) :
    Stands (.record fields) (.object members) inner part
  | position {fields : List (String × Shape)} {items : List Value} {i : Nat} {name : String}
    {shape inner : Shape} {value part : Value} (hfield : fields[i]? = some (name, shape))
    (hitem : items[i]? = some value) (h : Stands shape value inner part) :
    Stands (.record fields) (.array items) inner part

/-- What must not stand at a position of some shape: a value of another type, as `null` is, and an
object that gives a known field twice. -/
inductive IsFaulty : Shape → Value → Prop where
  | text {value : Value} (h : ∀ body, value ≠ .scalar (.string body)) : IsFaulty .text value
  | list {shape : Shape} {value : Value} (h : ∀ items, value ≠ .array items) :
    IsFaulty (.list shape) value
  | record {fields : List (String × Shape)} {value : Value}
    (harray : ∀ items, value ≠ .array items) (hobject : ∀ members, value ≠ .object members) :
    IsFaulty (.record fields) value
  | twice {fields : List (String × Shape)} {members : List (List Char × Value)}
    {first second : List Char × Value} {name : String} (hmembers : [first, second].Sublist members)
    (hname : name ∈ fields.map Prod.fst) (hfirst : Denotes first.1 name.toList)
    (hsecond : Denotes second.1 name.toList) : IsFaulty (.record fields) (.object members)

/-- A value of some shape. -/
inductive Fits : Shape → Value → Prop where
  | text (body : List Char) : Fits .text (.scalar (.string body))
  | list {shape : Shape} {items : List Value} (hitems : ∀ item ∈ items, Fits shape item) :
    Fits (.list shape) (.array items)
  | object {fields : List (String × Shape)} {members : List (List Char × Value)}
    (honce : ∀ first second, [first, second].Sublist members → ∀ name ∈ fields.map Prod.fst,
      Denotes first.1 name.toList → ¬Denotes second.1 name.toList)
    (hmembers : ∀ body value name shape, (body, value) ∈ members → Denotes body name.toList →
      (name, shape) ∈ fields → Fits shape value) : Fits (.record fields) (.object members)
  | array {fields : List (String × Shape)} {items : List Value}
    (hitems : ∀ (i : Nat) name shape value, fields[i]? = some (name, shape) →
      items[i]? = some value → Fits shape value) : Fits (.record fields) (.array items)

variable {shape inner : Shape} {value part : Value} {given : String → Option Value}
  {fields : List (String × Shape)} {field : Option Value}

/-- What stands at a position of a value of some shape has the shape of the position. -/
theorem Stands.fits (h : Stands shape value inner part) (hfits : Fits shape value) :
    Fits inner part := by
  induction h with
  | here => exact hfits
  | item hitem _ ih =>
    cases hfits with
    | list hitems => exact ih (hitems _ hitem)
  | member hmember hname hfield _ ih =>
    cases hfits with
    | object _ hmembers => exact ih (hmembers _ _ _ _ hmember hname hfield)
  | position hfield hitem _ ih =>
    cases hfits with
    | array hitems => exact ih (hitems _ _ _ _ hfield hitem)

/-- A value of a shape has no fault there. -/
theorem Fits.not_isFaulty (h : Fits shape value) : ¬IsFaulty shape value := by
  intro hfaulty
  cases hfaulty with
  | text hother =>
    cases h with
    | text body => exact hother body rfl
  | list hother =>
    cases h with
    | list => exact hother _ rfl
  | record harray hobject =>
    cases h with
    | object => exact hobject _ rfl
    | array => exact harray _ rfl
  | twice hmembers hname hfirst hsecond =>
    cases h with
    | object honce => exact honce _ _ hmembers _ hname hfirst hsecond

/-! ### What is written has its shape -/

/-- Names that denote the same are the same. -/
theorem eq_of_denotes {body : List Char} {name other : String} (h : Denotes body name.toList)
    (hother : Denotes body other.toList) : name = other := by
  rw [← Json.unescape?_eq_some_iff] at h hother
  exact Option.some.inj (h.symm.trans hother)

theorem IsText.fits {text : String} (h : IsText text field) (hpart : field = some part) :
    Fits .text part := by
  cases h with
  | absent => cases hpart
  | given => cases hpart; exact .text _

theorem IsList.fits {α : Type} {IsItem : α → Value → Prop} {items : List α}
    (h : IsList IsItem items field) (hitem : ∀ item value, IsItem item value → Fits shape value)
    (hpart : field = some part) : Fits (.list shape) part := by
  cases h with
  | absent => cases hpart
  | @given _ values h =>
    cases hpart
    have hvalues : ∀ value ∈ values, Fits shape value := by
      induction h with
      | nil => exact List.forall_mem_nil _
      | cons hfirst _ ih => exact List.forall_mem_cons.mpr ⟨hitem _ _ hfirst, ih⟩
    exact .list hvalues

/-- Some members of an object have entries in the same order. -/
theorem exists_sublist_of_sublist {members some : List (List Char × Value)}
    {named : List (String × Value)} (hnamed : List.Forall₂ IsNamed members named)
    (hsome : some.Sublist members) :
    ∃ entries, entries.Sublist named ∧ List.Forall₂ IsNamed some entries := by
  induction hsome generalizing named with
  | slnil => exact ⟨[], List.nil_sublist _, .nil⟩
  | cons _ _ ih =>
    obtain ⟨entry, named, _, hrest, rfl⟩ := List.forall₂_cons_left_iff.mp hnamed
    obtain ⟨entries, hsub, hentries⟩ := ih hrest
    exact ⟨entries, hsub.cons entry, hentries⟩
  | cons_cons _ _ ih =>
    obtain ⟨entry, named, hentry, hrest, rfl⟩ := List.forall₂_cons_left_iff.mp hnamed
    obtain ⟨entries, hsub, hentries⟩ := ih hrest
    exact ⟨entry :: entries, hsub.cons_cons entry, .cons hentry hentries⟩

/-- A member that denotes a name has an entry with the name. -/
theorem mem_of_denotes {members : List (List Char × Value)} {named : List (String × Value)}
    (hnamed : List.Forall₂ IsNamed members named) {member : List Char × Value}
    (hmember : member ∈ members) {name : String} (hname : Denotes member.1 name.toList) :
    (name, member.2) ∈ named := by
  obtain ⟨entries, hsub, hentries⟩ :=
    exists_sublist_of_sublist hnamed (List.singleton_sublist.mpr hmember)
  obtain ⟨entry, _, ⟨hentry, hvalue⟩, _, rfl⟩ := List.forall₂_cons_left_iff.mp hentries
  have hmem : entry ∈ named := hsub.subset List.mem_cons_self
  rwa [← eq_of_denotes hentry hname, ← hvalue]

/-- Where no known name is there twice no two members denote one. -/
theorem not_denotes_of_nodup {names : List String} {members : List (List Char × Value)}
    {named : List (String × Value)} (hnamed : List.Forall₂ IsNamed members named)
    (honce : ((known names named).map Prod.fst).Nodup) {first second : List Char × Value}
    (hmembers : [first, second].Sublist members) {name : String} (hname : name ∈ names)
    (hfirst : Denotes first.1 name.toList) : ¬Denotes second.1 name.toList := by
  intro hsecond
  obtain ⟨entries, hsub, hentries⟩ := exists_sublist_of_sublist hnamed hmembers
  obtain ⟨one, _, ⟨hone, _⟩, hrest, rfl⟩ := List.forall₂_cons_left_iff.mp hentries
  obtain ⟨other, _, ⟨hother, _⟩, hnil, rfl⟩ := List.forall₂_cons_left_iff.mp hrest
  rw [List.forall₂_nil_left_iff.mp hnil] at hsub
  have honeName : one.1 = name := eq_of_denotes hone hfirst
  have hotherName : other.1 = name := eq_of_denotes hother hsecond
  have hknown : known names [one, other] = [one, other] := by
    simp [known, honeName, hotherName, hname]
  have htwice : [name, name].Sublist ((known names named).map Prod.fst) := by
    have h := (hsub.filter (·.1 ∈ names)).map Prod.fst
    rw [← known, ← known, hknown] at h
    simpa [honeName, hotherName] using h
  simpa using honce.sublist htwice

/-- A record has its shape if its fields have theirs. -/
theorem Gives.fits (h : Gives (fields.map Prod.fst) value given)
    (hfields : ∀ name shape, (name, shape) ∈ fields → ∀ part, given name = some part →
      Fits shape part) : Fits (.record fields) value := by
  cases h with
  | @object members named _ hnamed honce hgiven =>
    refine .object (fun first second hmembers name hname hfirst =>
      not_denotes_of_nodup hnamed honce hmembers hname hfirst) ?_
    intro body value name shape hmember hname hfield
    have hgivenName := hgiven name (List.mem_map_of_mem hfield) value
    exact hfields name shape hfield value (hgivenName.mpr (mem_of_denotes hnamed hmember hname))
  | array _ hgiven =>
    refine .array fun i name shape value hfield hitem => ?_
    refine hfields name shape (List.mem_of_getElem? hfield) value ?_
    rw [hgiven i name (by rw [List.getElem?_map, hfield]; rfl), hitem]

end Document

open Document
open Json (Value)

/-- What the documents of libraries and of their parts are read as. -/
def Transition.shape : Shape :=
  .record [("event", .text), ("state", .text)]

def State.shape : Shape :=
  .record [("label", .text), ("entry", .text), ("leave", .text),
    ("trans", .list Transition.shape)]

def Machine.shape : Shape :=
  .record [("name", .text), ("states", .list State.shape)]

def Library.shape : Shape :=
  .record [("machines", .list Machine.shape)]

theorem Transition.fits_of_isWrittenAs (transition : Transition) (value : Value)
    (h : transition.IsWrittenAs value) : Fits shape value := by
  obtain ⟨given, hgives, hevent, htarget⟩ := h
  refine Gives.fits hgives fun name shape hfield part hpart => ?_
  simp only [List.mem_cons, Prod.mk.injEq, List.not_mem_nil, or_false] at hfield
  rcases hfield with ⟨rfl, rfl⟩ | ⟨rfl, rfl⟩
  · exact hevent.fits hpart
  · exact htarget.fits hpart

theorem State.fits_of_isWrittenAs (state : State) (value : Value)
    (h : state.IsWrittenAs value) : Fits shape value := by
  obtain ⟨given, hgives, hlabel, hentry, hleave, htransitions⟩ := h
  refine Gives.fits hgives fun name shape hfield part hpart => ?_
  simp only [List.mem_cons, Prod.mk.injEq, List.not_mem_nil, or_false] at hfield
  rcases hfield with ⟨rfl, rfl⟩ | ⟨rfl, rfl⟩ | ⟨rfl, rfl⟩ | ⟨rfl, rfl⟩
  · exact hlabel.fits hpart
  · exact hentry.fits hpart
  · exact hleave.fits hpart
  · exact htransitions.fits Transition.fits_of_isWrittenAs hpart

theorem Machine.fits_of_isWrittenAs (machine : Machine) (value : Value)
    (h : machine.IsWrittenAs value) : Fits shape value := by
  obtain ⟨given, hgives, hname, hstates⟩ := h
  refine Gives.fits hgives fun name shape hfield part hpart => ?_
  simp only [List.mem_cons, Prod.mk.injEq, List.not_mem_nil, or_false] at hfield
  rcases hfield with ⟨rfl, rfl⟩ | ⟨rfl, rfl⟩
  · exact hname.fits hpart
  · exact hstates.fits State.fits_of_isWrittenAs hpart

/-- What is a way to write a library has the shape of one. -/
theorem Library.fits_of_isWrittenAs (library : Library) (value : Value)
    (h : library.IsWrittenAs value) : Fits shape value := by
  obtain ⟨given, hgives, hmachines⟩ := h
  refine Gives.fits hgives fun name shape hfield part hpart => ?_
  obtain ⟨rfl, rfl⟩ : name = "machines" ∧ shape = .list Machine.shape := by simpa using hfield
  exact hmachines.fits Machine.fits_of_isWrittenAs hpart

/-- A library is read from every text that spells a value it may be written as: with the fields of
each record in any order among any other members, or in an array in their own order, with fields
left out that are empty, and with any white space. It is read from no other text. So a text is not
read if anywhere, but for what is passed over, a record gives a known field twice, or what stands
there is of another type than the position is for.

The name of every member has to denote something, also where the member is passed over. -/
theorem Library.read?_iff_isWrittenAs (text : String) :
    (∀ library, Library.read? text = some library ↔
      ∃ value, Json.Spells text.toList value ∧ library.IsWrittenAs value) ∧
    ∀ value, Json.Spells text.toList value → ∀ inner part, Stands shape value inner part →
      IsFaulty inner part → Library.read? text = none := by
  refine ⟨fun library => read?_eq_some_iff, fun value hspells inner part hstands hfaulty => ?_⟩
  rw [Option.eq_none_iff_forall_ne_some]
  intro library hread
  obtain ⟨other, hother, hwritten⟩ := read?_eq_some_iff.mp hread
  have hvalue : other = value := by
    rw [← Value.read?_eq_some_iff] at hother hspells
    exact Option.some.inj (hother.symm.trans hspells)
  rw [hvalue] at hwritten
  exact (hstands.fits (library.fits_of_isWrittenAs value hwritten)).not_isFaulty hfaulty

/-- A document whose records are objects with their fields in any order, or arrays, with fields left
out and a member that is passed over. -/
def Library.mixed : Value :=
  let first : Value := .object [("trans".toList, .array [.array [ofString "go", ofString "b"]]),
    ("label".toList, ofString "a")]
  let second : Value := .array [ofString "b", ofString "use"]
  let machine : Value := .object [("states".toList, .array [first, second]),
    ("name".toList, ofString "m")]
  .object [("x".toList, .array [.scalar .null, .scalar (.number "-1.5e3".toList)]),
    ("machines".toList, .array [machine])]

/-- A library is read from a document of mixed records. A label must not be `null`, also in a state
of a machine, but what is passed over may be. -/
theorem Library.read?_of_mixed_and_null :
    Library.read?
        ("\x7b \"x\": [null, -1.5e3], \"machines\": [\x7b\"states\": [\x7b\"trans\": [[\"go\", " ++
          "\"b\"]], \"label\": \"a\"\x7d, [\"b\", \"use\"]], \"name\": \"m\"\x7d] \x7d") =
      some ⟨[⟨"m", [⟨"a", "", "", [⟨"go", "b"⟩]⟩, ⟨"b", "use", "", []⟩]⟩]⟩ ∧
    Library.read?
        "\x7b\"x\": null, \"machines\": [[\"m\", [\x7b\"label\": null\x7d]]]\x7d" = none := by
  constructor
  · refine ((read?_iff_isWrittenAs _).1 _).mpr ⟨mixed, Json.layout_of_tokens? ?_, ?_⟩
    · decide +kernel
    · exact (Library.ofValue?_eq_some_iff ..).mp (by decide +kernel)
  · let state : Value := .object [("label".toList, .scalar .null)]
    let machine : Value := .array [ofString "m", .array [state]]
    let value : Value := .object [("x".toList, .scalar .null),
      ("machines".toList, .array [machine])]
    have hdenotes : Json.Denotes "machines".toList "machines".toList ∧
        Json.Denotes "label".toList "label".toList :=
      ⟨Json.unescape?_eq_some_iff.mp (by decide), Json.unescape?_eq_some_iff.mp (by decide)⟩
    have hstate : Stands State.shape state .text (.scalar .null) :=
      .member List.mem_cons_self hdenotes.2 List.mem_cons_self (.here ..)
    -- The states are the second field of a machine.
    have hmachine : Stands Machine.shape machine .text (.scalar .null) :=
      .position (i := 1) rfl rfl (.item List.mem_cons_self hstate)
    have hstands : Stands Library.shape value .text (.scalar .null) :=
      .member (List.mem_cons_of_mem _ List.mem_cons_self) hdenotes.1 List.mem_cons_self
        (.item List.mem_cons_self hmachine)
    exact (read?_iff_isWrittenAs _).2 value (Value.read?_eq_some_iff.mp rfl) _ _ hstands
      (.text fun body => by simp)

/-- A name is the same however it is escaped. -/
example : Library.read?
    "\x7b\"machines\": [\x7b\"name\": \"a\", \"n\\u0061me\": \"a\"\x7d]\x7d" = none := by
  decide +kernel

end LayeredMachines
