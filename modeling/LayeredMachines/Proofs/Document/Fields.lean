import LayeredMachines.Document.Record
import LayeredMachines.Proofs.Json.Values
import LayeredMachines.Proofs.Text.Decimal
import Mathlib.Data.List.Forall2
import Mathlib.Data.List.Nodup

/-!
# The fields of a record in a document

What a value gives as the fields of a record does not depend on the order of the members of an
object, nor on members with other names. Reading the fields succeeds if they are given so, and a
field that is left out has the value that it has by default. What a string, a number, a list or a
record is written as keeps to the grammar and is read back.
-/

namespace LayeredMachines.Document

open Json (Value Denotes denotes_escape isBody_escape unescape?_eq_some_iff)

/-- The entry has the value of the member and the name that it denotes. -/
def IsNamed (member : List Char × Value) (entry : String × Value) : Prop :=
  Denotes member.1 entry.1.toList ∧ entry.2 = member.2

/-- The entries that have one of the names. -/
def known (names : List String) (named : List (String × Value)) : List (String × Value) :=
  named.filter (·.1 ∈ names)

/-- What a value gives as the fields with some names: the members of an object that have these
names, each at most once, whatever else is among the members, or the items of an array that is not
too long, in the order of the names. -/
inductive Gives (names : List String) : Value → (String → Option Value) → Prop where
  | object {members : List (List Char × Value)} {named : List (String × Value)}
    {given : String → Option Value} (hnamed : List.Forall₂ IsNamed members named)
    (honce : ((known names named).map Prod.fst).Nodup)
    (hgiven : ∀ name ∈ names, ∀ value, given name = some value ↔ (name, value) ∈ named) :
    Gives names (.object members) given
  | array {items : List Value} {given : String → Option Value}
    (hlength : items.length ≤ names.length)
    (hgiven : ∀ (i : Nat) (name : String), names[i]? = some name → given name = items[i]?) :
    Gives names (.array items) given

/-- A text as a field, which is empty if it is left out. -/
inductive IsText : String → Option Value → Prop where
  | absent : IsText "" none
  | given {text : String} {body : List Char} (h : Denotes body text.toList) :
    IsText text (some (.scalar (.string body)))

/-- A list as a field, which has no items if it is left out. -/
inductive IsList {α : Type} (IsItem : α → Value → Prop) : List α → Option Value → Prop where
  | absent : IsList IsItem [] none
  | given {items : List α} {values : List Value} (h : List.Forall₂ IsItem items values) :
    IsList IsItem items (some (.array values))

variable {names : List String} {fields result : Fields} {value : Value}
  {given : String → Option Value} {name : String}

/-! ### Looking a field up -/

/-- If no name is there twice every entry is found by its name. -/
theorem Fields.lookup_eq_some_iff (hnodup : (fields.map Prod.fst).Nodup) :
    fields.lookup name = some value ↔ (name, value) ∈ fields := by
  rw [List.lookup_eq_some_iff]
  constructor
  · rintro ⟨before, behind, rfl, _⟩
    exact List.mem_append_cons_self
  · intro hmem
    obtain ⟨before, behind, rfl⟩ := List.append_of_mem hmem
    refine ⟨before, behind, rfl, fun entry hentry => ?_⟩
    rw [List.map_append, List.nodup_append] at hnodup
    rw [bne_iff_ne]
    exact Ne.symm (hnodup.2.2 entry.1 (List.mem_map_of_mem hentry) name (by simp))

/-- A field in the order of an array is the item at its place. -/
theorem lookup_zip (hnodup : names.Nodup) {i : Nat} (hname : names[i]? = some name)
    (items : List Value) : (names.zip items).lookup name = items[i]? := by
  induction names generalizing i items with
  | nil => simp at hname
  | cons first names ih =>
    obtain ⟨hfirst, hrest⟩ := List.nodup_cons.mp hnodup
    cases items with
    | nil => rfl
    | cons item items =>
      cases i with
      | zero =>
        cases hname
        simp
      | succ i =>
        have hne : name ≠ first := by
          rintro rfl
          exact hfirst (List.mem_of_getElem? hname)
        rw [List.zip_cons_cons, List.lookup_cons, beq_eq_false_iff_ne.mpr hne]
        exact ih hrest hname items

/-! ### Reading the fields -/

theorem known_cons_of_mem (hname : name ∈ names) (named : List (String × Value)) :
    known names ((name, value) :: named) = (name, value) :: known names named :=
  List.filter_cons_of_pos (by simpa using hname)

theorem known_cons_of_notMem (hname : name ∉ names) (named : List (String × Value)) :
    known names ((name, value) :: named) = known names named :=
  List.filter_cons_of_neg (by simpa using hname)

/-- A member is taken as a field if it has a known name that is not there yet, and passed over if it
has another name. -/
theorem Fields.take?_eq_some_iff {member : List Char × Value} :
    Fields.take? names fields member = some result ↔
      ∃ name, Denotes member.1 name.toList ∧
        ((name ∉ names ∧ result = fields) ∨
          (name ∈ names ∧ name ∉ fields.map Prod.fst ∧ result = fields ++ [(name, member.2)])) := by
  simp only [take?, Option.bind_eq_bind, Option.bind_eq_some_iff, unescape?_eq_some_iff]
  refine exists_congr fun name => and_congr_right fun _ => ?_
  by_cases hknown : name ∈ names
  · have hany : fields.any (·.1 == name) = true ↔ name ∈ fields.map Prod.fst := by
      simp [List.any_eq_true]
    by_cases htaken : name ∈ fields.map Prod.fst
    · simp [hknown, hany.mpr htaken, htaken]
    · simp [hknown, Bool.eq_false_iff.mpr (mt hany.mp htaken), htaken, eq_comm]
  · simp [hknown, eq_comm]

/-- A new name may be added to names that are not there twice. -/
theorem nodup_names_append (hnodup : (fields.map Prod.fst).Nodup) :
    ((fields ++ [(name, value)]).map Prod.fst).Nodup ↔ name ∉ fields.map Prod.fst := by
  rw [List.map_append, List.map_singleton, List.nodup_append_comm, List.singleton_append,
    List.nodup_cons]
  exact and_iff_left hnodup

/-- Members are taken as fields one after another: those with a known name, if these are not there
twice. -/
theorem Fields.foldlM_take?_eq_some_iff {members : List (List Char × Value)}
    (hnodup : (fields.map Prod.fst).Nodup) :
    members.foldlM (Fields.take? names) fields = some result ↔
      ∃ named, List.Forall₂ IsNamed members named ∧ result = fields ++ known names named ∧
        (result.map Prod.fst).Nodup := by
  induction members generalizing fields with
  | nil =>
    simp only [List.foldlM_nil, List.forall₂_nil_left_iff, exists_eq_left, known, List.filter_nil,
      List.append_nil]
    constructor
    · intro h
      cases h
      exact ⟨rfl, hnodup⟩
    · rintro ⟨rfl, _⟩
      rfl
  | cons member rest ih =>
    rw [List.foldlM_cons, Option.bind_eq_bind, Option.bind_eq_some_iff]
    constructor
    · rintro ⟨next, hnext, hrest⟩
      obtain ⟨name, hname, ⟨hunknown, rfl⟩ | ⟨hknown, hnew, rfl⟩⟩ := take?_eq_some_iff.mp hnext
      · obtain ⟨named, hnamed, hresult, hresultNodup⟩ := (ih hnodup).mp hrest
        refine ⟨(name, member.2) :: named, .cons ⟨hname, rfl⟩ hnamed, ?_, hresultNodup⟩
        rw [known_cons_of_notMem hunknown, hresult]
      · obtain ⟨named, hnamed, hresult, hresultNodup⟩ :=
          (ih ((nodup_names_append hnodup).mpr hnew)).mp hrest
        refine ⟨(name, member.2) :: named, .cons ⟨hname, rfl⟩ hnamed, ?_, hresultNodup⟩
        rw [known_cons_of_mem hknown, hresult, List.append_assoc, List.singleton_append]
    · rintro ⟨_, hall, hresult, hresultNodup⟩
      obtain ⟨⟨name, _⟩, named, ⟨hname, rfl⟩, hnamed, rfl⟩ := List.forall₂_cons_left_iff.mp hall
      by_cases hknown : name ∈ names
      · rw [known_cons_of_mem hknown, ← List.singleton_append, ← List.append_assoc] at hresult
        have hnextNodup : ((fields ++ [(name, member.2)]).map Prod.fst).Nodup := by
          rw [hresult, List.map_append] at hresultNodup
          exact (List.nodup_append.mp hresultNodup).1
        have hnew := (nodup_names_append hnodup).mp hnextNodup
        exact ⟨_, take?_eq_some_iff.mpr ⟨name, hname, .inr ⟨hknown, hnew, rfl⟩⟩,
          (ih hnextNodup).mpr ⟨named, hnamed, hresult, hresultNodup⟩⟩
      · rw [known_cons_of_notMem hknown] at hresult
        exact ⟨_, take?_eq_some_iff.mpr ⟨name, hname, .inl ⟨hknown, rfl⟩⟩,
          (ih hnodup).mpr ⟨named, hnamed, hresult, hresultNodup⟩⟩

/-- What is read as the fields of a record is given as them. -/
theorem gives_of_ofValue? (hnodup : names.Nodup)
    (hread : Fields.ofValue? names value = some fields) :
    Gives names value fun name => fields.lookup name := by
  cases value with
  | scalar => cases hread
  | array items =>
    simp only [Fields.ofValue?] at hread
    split at hread
    · next hlength =>
      cases hread
      exact .array hlength fun i name hname => lookup_zip hnodup hname items
    · cases hread
  | object members =>
    have hnone : (([] : Fields).map Prod.fst).Nodup := List.nodup_nil
    obtain ⟨named, hnamed, hfields, honce⟩ := (Fields.foldlM_take?_eq_some_iff hnone).mp hread
    rw [List.nil_append] at hfields
    rw [hfields] at honce ⊢
    refine .object hnamed honce fun name hname value => ?_
    rw [Fields.lookup_eq_some_iff honce, known, List.mem_filter]
    simp [hname]

/-- What is given as the fields of a record is read as them. -/
theorem Gives.exists_ofValue? (hnodup : names.Nodup) (h : Gives names value given) :
    ∃ fields, Fields.ofValue? names value = some fields ∧
      ∀ name ∈ names, fields.lookup name = given name := by
  cases h with
  | @object members named _ hnamed honce hgiven =>
    have hnone : (([] : Fields).map Prod.fst).Nodup := List.nodup_nil
    refine ⟨known names named, ?_, fun name hname => ?_⟩
    · exact (Fields.foldlM_take?_eq_some_iff hnone).mpr ⟨named, hnamed, rfl, honce⟩
    · apply Option.ext
      intro value
      rw [Fields.lookup_eq_some_iff honce, hgiven name hname, known, List.mem_filter]
      simp [hname]
  | @array items _ hlength hgiven =>
    refine ⟨names.zip items, if_pos hlength, fun name hname => ?_⟩
    obtain ⟨i, hi⟩ := List.mem_iff_getElem?.mp hname
    rw [lookup_zip hnodup hi, hgiven i name hi]

/-! ### Reading one field -/

theorem string?_eq_some_iff {text : String} :
    string? value = some text ↔
      ∃ body, value = .scalar (.string body) ∧ Denotes body text.toList := by
  unfold string?
  split
  · simp [unescape?_eq_some_iff]
  · next hother =>
    simp only [reduceCtorEq, false_iff, not_exists, not_and]
    rintro body rfl
    exact absurd rfl (hother body)

section List

variable {α : Type} {read : Value → Option α} {IsItem : α → Value → Prop} {items : List α}

theorem mapM_eq_some_iff (hread : ∀ item value, read value = some item ↔ IsItem item value)
    {values : List Value} : values.mapM read = some items ↔ List.Forall₂ IsItem items values := by
  induction values generalizing items with
  | nil => cases items <;> simp
  | cons value values ih =>
    simp only [List.mapM_cons, Option.bind_eq_bind, Option.bind_eq_some_iff, hread, ih,
      List.forall₂_cons_right_iff]
    constructor
    · rintro ⟨item, hitem, rest, hrest, heq⟩
      cases heq
      exact ⟨item, rest, hitem, hrest, rfl⟩
    · rintro ⟨item, rest, hitem, hrest, rfl⟩
      exact ⟨item, hitem, rest, hrest, rfl⟩

theorem list?_eq_some_iff (hread : ∀ item value, read value = some item ↔ IsItem item value) :
    list? read value = some items ↔
      ∃ values, value = .array values ∧ List.Forall₂ IsItem items values := by
  cases value <;> simp [list?, mapM_eq_some_iff hread]

/-- A list is read from a field that may be left out. -/
theorem Fields.optional_list_iff
    (hread : ∀ item value, read value = some item ↔ IsItem item value) :
    fields.optional name [] (list? read) = some items ↔
      IsList IsItem items (fields.lookup name) := by
  unfold optional
  cases fields.lookup name with
  | none =>
    constructor
    · intro h
      cases h
      exact .absent
    · rintro ⟨⟩
      rfl
  | some value =>
    simp only [list?_eq_some_iff hread]
    constructor
    · rintro ⟨values, rfl, hitems⟩
      exact .given hitems
    · rintro (_ | hitems)
      exact ⟨_, rfl, hitems⟩

end List

/-- A text is read from a field that may be left out. -/
theorem Fields.optional_string_iff {text : String} :
    fields.optional name "" string? = some text ↔ IsText text (fields.lookup name) := by
  unfold optional
  cases fields.lookup name with
  | none =>
    constructor
    · intro h
      cases h
      exact .absent
    · rintro ⟨⟩
      rfl
  | some value =>
    simp only [string?_eq_some_iff]
    constructor
    · rintro ⟨body, rfl, hbody⟩
      exact .given hbody
    · rintro (_ | hbody)
      exact ⟨_, rfl, hbody⟩

section Required

variable {α : Type} {read : Value → Option α} {other : String}

/-- The first field is found by its name. -/
@[simp] theorem Fields.required_cons_self :
    Fields.required ((name, value) :: fields) name read = read value := by
  simp [required]

/-- Fields with other names are passed over. -/
@[simp] theorem Fields.required_cons_of_ne (hname : name ≠ other) :
    Fields.required ((other, value) :: fields) name read = fields.required name read := by
  rw [required, List.lookup_cons, beq_eq_false_iff_ne.mpr hname, required]

end Required

/-! ### Writing -/

theorem isText_ofString (text : String) : IsText text (some (ofString text)) :=
  .given (denotes_escape text.toList)

theorem string?_ofString (text : String) : string? (ofString text) = some text :=
  string?_eq_some_iff.mpr ⟨_, rfl, denotes_escape text.toList⟩

theorem isStrict_ofString (text : String) : (ofString text).IsStrict :=
  Value.isStrict_scalar (isBody_escape text.toList)

/-- A natural number is read back if it has at most 64 bits. -/
theorem natural?_ofNatural {n : Nat} (hn : n < Nat.pow 2 64) : natural? (ofNatural n) = some n := by
  rw [ofNatural, natural?, Decimal.natural?_digits]
  exact if_pos hn

theorem isStrict_ofNatural (n : Nat) : (ofNatural n).IsStrict := by
  have hnumeral := Decimal.isNumeral_digits n
  have hdigits : Json.IsDigits (Decimal.digits n) :=
    ⟨hnumeral.ne_nil, List.all_eq_true.mp hnumeral.all_isDigit⟩
  have hwhole : Json.IsWhole (Decimal.digits n) := ⟨hdigits, Decimal.isShort_digits n⟩
  have hunsigned := Json.IsUnsigned.mk hwhole Json.isTail_nil
  rw [List.append_nil] at hunsigned
  exact Value.isStrict_scalar (.plain hunsigned)

theorem pair?_ofPair (pair : String × String) : pair? (ofPair pair) = some pair := by
  simp [pair?, ofPair, string?_ofString]

theorem isStrict_ofPair (pair : String × String) : (ofPair pair).IsStrict := by
  apply Value.isStrict_array
  simp [isStrict_ofString]

theorem isList_ofList {α : Type} {IsItem : α → Value → Prop} {write : α → Value}
    (hwrite : ∀ item, IsItem item (write item)) (items : List α) :
    IsList IsItem items (some (ofList write items)) :=
  .given (List.forall₂_map_right_iff.mpr (List.forall₂_same.mpr fun item _ => hwrite item))

/-- A list is read back if its items are. -/
theorem list?_ofList {α : Type} {read : Value → Option α} {write : α → Value} {items : List α}
    (hitems : ∀ item ∈ items, read (write item) = some item) :
    list? read (ofList write items) = some items := by
  rw [ofList, list?]
  induction items with
  | nil => rfl
  | cons item rest ih =>
    obtain ⟨hitem, hrest⟩ := List.forall_mem_cons.mp hitems
    simp [hitem, ih hrest]

theorem isStrict_ofList {α : Type} {write : α → Value} (hwrite : ∀ item, (write item).IsStrict)
    (items : List α) : (ofList write items).IsStrict :=
  Value.isStrict_array (List.forall_mem_map.mpr fun item _ => hwrite item)

/-- The fields of a record that is written are read back. -/
theorem Fields.ofValue?_ofFields (hnames : fields.map Prod.fst = names) (hnodup : names.Nodup) :
    Fields.ofValue? names (ofFields fields) = some fields := by
  subst hnames
  have hnamed : List.Forall₂ IsNamed
      (fields.map fun field => (Json.escape field.1.toList, field.2)) fields :=
    List.forall₂_map_left_iff.mpr
      (List.forall₂_same.mpr fun field _ => ⟨denotes_escape _, rfl⟩)
  have hknown : known (fields.map Prod.fst) fields = fields :=
    List.filter_eq_self.mpr fun field hfield => by simpa using ⟨field.2, hfield⟩
  have hnone : (([] : Fields).map Prod.fst).Nodup := List.nodup_nil
  exact (foldlM_take?_eq_some_iff hnone).mpr ⟨fields, hnamed, hknown.symm, hnodup⟩

/-- A record that is written gives its fields. -/
theorem gives_ofFields (hnames : fields.map Prod.fst = names) (hnodup : names.Nodup) :
    Gives names (ofFields fields) fun name => fields.lookup name :=
  gives_of_ofValue? hnodup (Fields.ofValue?_ofFields hnames hnodup)

theorem isStrict_ofFields (hfields : ∀ field ∈ fields, field.2.IsStrict) :
    (ofFields fields).IsStrict :=
  Value.isStrict_object
    (List.forall_mem_map.mpr fun field hfield => ⟨isBody_escape _, hfields field hfield⟩)

/-- A document is read from the text it is written as. -/
theorem read?_render (hstrict : value.IsStrict) : Value.read? (render value) = some value := by
  apply Value.read?_of_spells
  rw [render, String.toList_ofList]
  exact Value.spells_render hstrict

end LayeredMachines.Document
