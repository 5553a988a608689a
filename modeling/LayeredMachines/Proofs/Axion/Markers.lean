import LayeredMachines.Axion.Marker
import LayeredMachines.Proofs.Layer.Axions
import Mathlib.Data.List.Infix

/-!
# Where the markers of a value stand

The markers of a value are found from left to right, without a look at any variable. This file says
where they stand in terms of the text alone, and shows that this is how a value is divided. What is
put in for a marker can therefore not become a verb, a label, another parameter or another marker.
-/

namespace LayeredMachines

/-- A pair of closing parentheses follows on the same line. -/
def ClosesMarker (text : List Char) : Prop :=
  ∃ name after, text = name ++ ')' :: ')' :: after ∧ '\n' ∉ name

/-- The text begins with a pair of opening parentheses that is closed on the same line. -/
def BeginsMarker (text : List Char) : Prop :=
  ∃ rest, text = '(' :: '(' :: rest ∧ ClosesMarker rest

/-- A marker with this name ends at the first pair of closing parentheses: no pair stands in the name,
nor does one begin with its last character. -/
def IsMarkerName (name : List Char) : Prop :=
  '\n' ∉ name ∧ ¬ [')', ')'] <:+: name ++ [')']

namespace Segment

/-- The segments of a text from its beginning on. A character stands for itself only where no marker
begins, and a marker ends as soon as it can. -/
inductive Scan : List Char → List Segment → Prop
  | nil : Scan [] []
  | literal {c : Char} {rest : List Char} {segments : List Segment}
      (hbegins : ¬ BeginsMarker (c :: rest)) (hrest : Scan rest segments) :
      Scan (c :: rest) (.literal c :: segments)
  | marker {name after : List Char} {segments : List Segment} (hname : IsMarkerName name)
      (hafter : Scan after segments) :
      Scan ('(' :: '(' :: (name ++ ')' :: ')' :: after)) (.marker name :: segments)

variable {text name after : List Char} {segments others : List Segment}

/-! ### The end of a marker -/

/-- What follows a name in a marker begins as the name does when one parenthesis is put behind it. -/
private theorem head?_append_closing (name after : List Char) :
    (name ++ ')' :: after).head? = (name ++ [')']).head? := by
  cases name <;> rfl

/-- A name may begin with any character of a line, but not with a closing parenthesis if another one
follows. -/
theorem isMarkerName_cons {c : Char} :
    IsMarkerName (c :: name) ↔
      c ≠ '\n' ∧ ¬ (c = ')' ∧ (name ++ [')']).head? = some ')') ∧ IsMarkerName name := by
  have hpair : [')', ')'] <+: c :: (name ++ [')']) ↔
      c = ')' ∧ (name ++ [')']).head? = some ')' := by
    rw [List.cons_prefix_cons, eq_comm (a := ')')]
    cases name with
    | nil => simp
    | cons d name => simp [eq_comm (a := ')')]
  unfold IsMarkerName
  rw [List.cons_append, List.infix_cons_iff, hpair, List.mem_cons, not_or, not_or, ne_comm]
  tauto

/-- The first pair of closing parentheses is found if there is one on the line. -/
theorem closing?_eq_some_iff :
    closing? text = some (name, after) ↔ text = name ++ ')' :: ')' :: after ∧ IsMarkerName name := by
  fun_induction closing? text generalizing name with
  | case1 => simp
  | case2 rest =>
    constructor
    · intro hfound
      obtain ⟨rfl, rfl⟩ := Prod.mk.inj (Option.some.inj hfound)
      exact ⟨rfl, List.not_mem_nil, by decide⟩
    · rintro ⟨htext, hname⟩
      cases name with
      | nil => simp_all
      | cons c name =>
        -- The pair at the beginning of the text would be one of the name.
        rw [List.cons_append, List.cons.injEq] at htext
        obtain ⟨rfl, hrest⟩ := htext
        have hhead : (name ++ [')']).head? = some ')' := by
          rw [← head?_append_closing name (')' :: after), ← hrest, List.head?_cons]
        exact absurd ⟨rfl, hhead⟩ (isMarkerName_cons.mp hname).2.1
  | case3 rest hpair =>
    refine iff_of_false (by simp) ?_
    rintro ⟨htext, hname⟩
    cases name with
    | nil => simp at htext
    | cons c name =>
      obtain ⟨rfl, -⟩ := List.cons.inj htext
      exact (isMarkerName_cons.mp hname).1 rfl
  | case4 c rest hpair hc ih =>
    constructor
    · intro hfound
      obtain ⟨⟨inner, tail⟩, hinner, heq⟩ := Option.map_eq_some_iff.mp hfound
      obtain ⟨rfl, rfl⟩ := Prod.mk.inj heq
      obtain ⟨rfl, hname⟩ := ih.mp hinner
      refine ⟨rfl, isMarkerName_cons.mpr ⟨hc, ?_, hname⟩⟩
      rintro ⟨rfl, hhead⟩
      rw [← head?_append_closing inner (')' :: tail)] at hhead
      obtain ⟨others, hothers⟩ := List.head?_eq_some_iff.mp hhead
      exact hpair others rfl hothers
    · rintro ⟨htext, hname⟩
      cases name with
      | nil =>
        obtain ⟨rfl, rfl⟩ := List.cons.inj htext
        exact (hpair after rfl rfl).elim
      | cons d name =>
        obtain ⟨rfl, rfl⟩ := List.cons.inj htext
        rw [ih.mpr ⟨rfl, (isMarkerName_cons.mp hname).2.2⟩, Option.map_some]

/-- A name without closing parentheses on one line makes a marker. -/
theorem isMarkerName_of_not_mem {name : List Char} (hparenthesis : ')' ∉ name)
    (hline : '\n' ∉ name) : IsMarkerName name := by
  refine ⟨hline, fun hpair => ?_⟩
  have hcount := hpair.sublist.count_le ')'
  rw [List.count_append, List.count_eq_zero_of_not_mem hparenthesis] at hcount
  simp at hcount

/-- The end of a marker is found if and only if there is one on the line. -/
theorem closesMarker_iff : ClosesMarker text ↔ ∃ found, closing? text = some found := by
  constructor
  · rintro ⟨name, after, rfl, hline⟩
    induction name with
    | nil => exact ⟨([], after), rfl⟩
    | cons c name ih =>
      obtain ⟨hc, hname⟩ := not_or.mp (mt List.mem_cons.mpr hline)
      obtain ⟨found, hfound⟩ := ih hname
      rw [List.cons_append, closing?.eq_def]
      split
      · contradiction
      · exact ⟨_, rfl⟩
      · next d rest _ heq =>
        obtain ⟨rfl, rfl⟩ := List.cons.inj heq
        rw [if_neg (Ne.symm hc), hfound]
        exact ⟨_, rfl⟩
  · rintro ⟨⟨name, after⟩, hfound⟩
    obtain ⟨rfl, hname⟩ := closing?_eq_some_iff.mp hfound
    exact ⟨name, after, rfl, hname.1⟩

/-! ### Division into segments -/

/-- A text is divided into its segments. -/
theorem scan_ofText (text : List Char) : Scan text (ofText text) := by
  fun_induction ofText text with
  | case1 => exact .nil
  | case2 rest name after hfound _ ih =>
    obtain ⟨rfl, hname⟩ := closing?_eq_some_iff.mp hfound
    exact .marker hname ih
  | case3 rest hnone ih =>
    refine .literal ?_ ih
    rintro ⟨inner, heq, hcloses⟩
    obtain ⟨found, hfound⟩ := closesMarker_iff.mp hcloses
    simp_all
  | case4 c rest hpair ih =>
    refine .literal ?_ ih
    rintro ⟨inner, heq, -⟩
    obtain ⟨rfl, rfl⟩ := List.cons.inj heq
    exact hpair inner rfl rfl

/-- The name of a marker makes one when it is put in parentheses, whatever follows. -/
theorem beginsMarker_of_name (hname : IsMarkerName name) (after : List Char) :
    BeginsMarker ('(' :: '(' :: (name ++ ')' :: ')' :: after)) :=
  ⟨_, rfl, name, after, rfl, hname.1⟩

/-- A text can be divided in one way only. -/
theorem Scan.unique (hscan : Scan text segments) (hother : Scan text others) :
    segments = others := by
  induction hscan generalizing others with
  | nil =>
    cases hother
    rfl
  | literal hbegins _ ih =>
    cases hother with
    | literal _ hrest => rw [ih hrest]
    | marker hname => exact absurd (beginsMarker_of_name hname _) hbegins
  | @marker name after _ hname _ ih =>
    generalize htext : '(' :: '(' :: (name ++ ')' :: ')' :: after) = text at hother
    cases hother with
    | nil => simp at htext
    | literal hbegins => exact absurd (htext ▸ beginsMarker_of_name hname after) hbegins
    | @marker other rest _ hother hrest =>
      have hfound : closing? (name ++ ')' :: ')' :: after) = some (name, after) :=
        closing?_eq_some_iff.mpr ⟨rfl, hname⟩
      have hagain : closing? (name ++ ')' :: ')' :: after) = some (other, rest) :=
        closing?_eq_some_iff.mpr ⟨by simpa using htext, hother⟩
      obtain ⟨rfl, rfl⟩ := Prod.mk.inj (Option.some.inj (hfound.symm.trans hagain))
      rw [ih hrest]

/-- A value that is a marker and nothing else is divided into this marker. -/
theorem ofText_marker {name : List Char} (hname : IsMarkerName name) :
    ofText ('(' :: '(' :: (name ++ [')', ')'])) = [.marker name] :=
  (scan_ofText _).unique (.marker hname .nil)

end Segment

/-- Of three parentheses the first two open a marker, and the first two close it. -/
example : Segment.ofText "(((a)))".toList = [.marker ['(', 'a'], .literal ')'] := by
  decide +kernel

end LayeredMachines
