import LayeredMachines.Axion.Basic
import LayeredMachines.Proofs.Text.Pieces

/-!
# Axions and their texts

The text of an axion has three separators, and each counts only where it comes first or stands at all
in its part. An axion can be written if its parts keep clear of the separators that would be found in
them, and of the blank characters that would be trimmed. Those are the axions that texts are split
into, and writing one is undone by splitting.
-/

namespace LayeredMachines

/-- A parameter whose parts stay what they are when it is written and read: they are trimmed and have
no comma, and the label has no equals sign. -/
structure Parameter.IsWellShaped (parameter : Parameter) : Prop where
  label_trimmed : IsTrimmed parameter.label.toList
  label_comma : ',' ∉ parameter.label.toList
  label_equals : '=' ∉ parameter.label.toList
  value_trimmed : IsTrimmed parameter.value.toList
  value_comma : ',' ∉ parameter.value.toList

/-- An axion whose verb has no colon. Either it has no parameters, or its verb is trimmed and its
parameters are well-shaped, too. -/
inductive Axion.IsWellShaped : Axion → Prop
  | bare {verb : String} (hverb : ':' ∉ verb.toList) : IsWellShaped ⟨verb, []⟩
  | full {verb : String} {parameters : List Parameter} (hverb : ':' ∉ verb.toList)
      (htrimmed : IsTrimmed verb.toList) (hne : parameters ≠ [])
      (hparameters : ∀ parameter ∈ parameters, parameter.IsWellShaped) :
      IsWellShaped ⟨verb, parameters⟩

namespace Parameter

variable {parameter : Parameter}

/-- A piece of text is split into a parameter that is well-shaped. -/
theorem isWellShaped_ofText {text : List Char} (htext : ',' ∉ text) :
    (ofText text).IsWellShaped := by
  unfold ofText
  cases hcut : cut? '=' text with
  | none =>
    dsimp only
    constructor
    · exact ⟨by simp, by simp⟩
    · simp
    · simp
    · rw [String.toList_ofList]
      exact isTrimmed_trim text
    · rw [String.toList_ofList]
      exact mt mem_of_mem_trim htext
  | some parts =>
    obtain ⟨label, value⟩ := parts
    obtain ⟨rfl, hequals⟩ := cut?_eq_some_iff.mp hcut
    have hlabel : ',' ∉ label := fun hmem => htext (List.mem_append_left _ hmem)
    have hvalue : ',' ∉ value := fun hmem =>
      htext (List.mem_append_right _ (List.mem_cons_of_mem _ hmem))
    dsimp only
    constructor <;> rw [String.toList_ofList]
    · exact isTrimmed_trim label
    · exact mt mem_of_mem_trim hlabel
    · exact mt mem_of_mem_trim hequals
    · exact isTrimmed_trim value
    · exact mt mem_of_mem_trim hvalue

/-- A well-shaped parameter is read as it was written. -/
theorem IsWellShaped.ofText_render (hshape : parameter.IsWellShaped) :
    ofText parameter.render = parameter := by
  have hcut : cut? '=' parameter.render = some (parameter.label.toList, parameter.value.toList) :=
    cut?_eq_some_iff.mpr ⟨rfl, hshape.label_equals⟩
  rw [ofText, hcut]
  simp only [hshape.label_trimmed.trim_eq_self, hshape.value_trimmed.trim_eq_self,
    String.ofList_toList]

/-- A well-shaped parameter is written without a comma. -/
theorem IsWellShaped.comma_not_mem_render (hshape : parameter.IsWellShaped) :
    ',' ∉ parameter.render := by
  rw [render, List.mem_append, List.mem_cons]
  rintro (hlabel | hequals | hvalue)
  · exact hshape.label_comma hlabel
  · exact absurd hequals (by decide)
  · exact hshape.value_comma hvalue

end Parameter

namespace Axion

variable {axion : Axion}

/-- Every text is split into an axion that is well-shaped. -/
theorem isWellShaped_split (text : String) : (split text).IsWellShaped := by
  unfold split
  cases hcut : cut? ':' text.toList with
  | none => exact .bare (cut?_eq_none_iff.mp hcut)
  | some parts =>
    obtain ⟨verb, rest⟩ := parts
    obtain ⟨_, hverb⟩ := cut?_eq_some_iff.mp hcut
    refine .full ?_ ?_ ?_ ?_
    · rw [String.toList_ofList]
      exact mt mem_of_mem_trim hverb
    · rw [String.toList_ofList]
      exact isTrimmed_trim verb
    · exact mt List.map_eq_nil_iff.mp (pieces_ne_nil ',' rest)
    · intro parameter hparameter
      obtain ⟨piece, hpiece, rfl⟩ := List.mem_map.mp hparameter
      exact Parameter.isWellShaped_ofText (not_mem_of_mem_pieces hpiece)

/-- Well-shaped parameters are read as they were written. -/
theorem map_ofText_pieces {parameters : List Parameter} (hne : parameters ≠ [])
    (hparameters : ∀ parameter ∈ parameters, parameter.IsWellShaped) :
    (pieces ',' (joinWith ',' (parameters.map Parameter.render))).map Parameter.ofText =
      parameters := by
  have htexts : ∀ text ∈ parameters.map Parameter.render, ',' ∉ text := by
    intro text htext
    obtain ⟨parameter, hparameter, rfl⟩ := List.mem_map.mp htext
    exact (hparameters parameter hparameter).comma_not_mem_render
  rw [pieces_joinWith (mt List.map_eq_nil_iff.mp hne) htexts, List.map_map]
  refine (List.map_congr_left fun parameter hparameter => ?_).trans (List.map_id parameters)
  exact (hparameters parameter hparameter).ofText_render

/-- A well-shaped axion is split as it was written. -/
theorem IsWellShaped.split_render (hshape : axion.IsWellShaped) : split axion.render = axion := by
  cases hshape with
  | @bare verb hverb =>
    have hrender : render ⟨verb, []⟩ = verb := rfl
    rw [hrender, split, cut?_eq_none_iff.mpr hverb]
  | @full verb parameters hverb htrimmed hne hparameters =>
    have hrender : render ⟨verb, parameters⟩ = String.ofList (verb.toList ++ ':' ::
        joinWith ',' (parameters.map Parameter.render)) :=
      if_neg (by simpa using hne)
    have hcut : cut? ':' (render ⟨verb, parameters⟩).toList =
        some (verb.toList, joinWith ',' (parameters.map Parameter.render)) := by
      rw [hrender, String.toList_ofList]
      exact cut?_eq_some_iff.mpr ⟨rfl, hverb⟩
    rw [split, hcut]
    simp only [htrimmed.trim_eq_self, String.ofList_toList, map_ofText_pieces hne hparameters]

/-- Every text is split into an axion that is well-shaped: one without parameters whose verb has no
colon, or one whose verb is trimmed and has no colon, whose labels are trimmed and have neither comma
nor equals sign, and whose values are trimmed and have no comma. Such axions, and no others, are
split as they were written. So what a text is split into may be written and split again and stays
the same. -/
theorem split_inverts_render :
    (∀ text, (split text).IsWellShaped) ∧
      (∀ axion : Axion, axion.IsWellShaped ↔ split axion.render = axion) ∧
      ∀ text, split (split text).render = split text := by
  refine ⟨isWellShaped_split, fun axion => ⟨fun hshape => hshape.split_render, fun hsame => ?_⟩,
    fun text => (isWellShaped_split text).split_render⟩
  rw [← hsame]
  exact isWellShaped_split axion.render

end Axion

end LayeredMachines
