import LayeredMachines.Proofs.Engine.Runs
import LayeredMachines.Proofs.Engine.Snapshots
import LayeredMachines.Proofs.Pass.Spelling

/-!
# The spelling of events is immaterial

An engine that handles an event does the same, whichever of several spellings of the event it is
given, as long as its resolver does not look at the wording of lines.
-/

namespace LayeredMachines

/-- The same layer as it is seen from outside, except for the spelling of the event in its
history. -/
def Snapshot.Respells (first second : String) (snapshot other : Snapshot) : Prop :=
  ∃ history, other = { snapshot with history := history } ∧
    List.Forall₂ (Move.Respells first second) snapshot.history history

/-- The same layer is seen below the same parent. -/
theorem Layer.Respells.ofLayer {first second : String} {layer other : Layer}
    {parent otherParent : Option LayerId} (h : layer.Respells first second other)
    (hparent : Option.Rel Eq parent otherParent) :
    (Snapshot.ofLayer layer parent).Respells first second (Snapshot.ofLayer other otherParent) := by
  obtain ⟨history, rfl, hhistory⟩ := h
  obtain ⟨rfl, rfl⟩ | ⟨id, _, rfl, rfl, rfl⟩ := rel_cases hparent
  · exact ⟨history.moves, rfl, hhistory.moves⟩
  · exact ⟨history.moves, rfl, hhistory.moves⟩

namespace Engine

variable {first second : String} {left right : Engine}

/-- The engines agree in all but the spelling of the event in histories and in the lines shown to
their resolver. -/
structure Respells (first second : String) (left right : Engine) : Prop where
  config_eq : right.config = left.config
  resolver_eq : right.resolver = left.resolver
  transcript : List.Forall₂ (Notice.Respells first second) left.transcript.toList
    right.transcript.toList
  catalog_eq : right.catalog = left.catalog
  hierarchy : left.hierarchy.Alike (Layer.Respells first second) right.hierarchy
  timers_eq : right.timers = left.timers
  nextLayer_eq : right.nextLayer = left.nextLayer

theorem Respells.refl (engine : Engine) : engine.Respells first second engine :=
  ⟨rfl, rfl, List.forall₂_same.mpr fun notice _ => .same notice, rfl, .refl .refl _, rfl, rfl⟩

/-! ### What is seen from outside -/

/-- Both engines list the same layers. -/
theorem Respells.layers (h : left.Respells first second right) :
    List.Forall₂ (Snapshot.Respells first second) left.layers right.layers :=
  h.hierarchy.forall₂_snapshots (fun _ _ hlayer => hlayer.id_eq.symm)
    fun _ _ _ _ hlayer hparent => hlayer.ofLayer hparent

/-! ### One event -/

/-- Both engines begin the same pass. -/
theorem Respells.beginPass (h : left.Respells first second right) (target : Option LayerId) :
    Pass.Respells first second (left.beginPass first target) (right.beginPass second target) := by
  have hid (layer other : Layer) (hsame : layer.Respells first second other) :
      other.id = layer.id := hsame.id_eq
  have htargets : right.targetSlots target = left.targetSlots target := by
    cases target with
    | none => exact h.hierarchy.attachedSlots_eq
    | some id => simp only [targetSlots, h.hierarchy.find?_eq hid]
  have hbegin : Pass.Respells first second
      ⟨left.hierarchy, left.timers, left.transcript, left.nextLayer, #[], 0⟩
      ⟨right.hierarchy, right.timers, right.transcript, right.nextLayer, #[], 0⟩ :=
    ⟨h.hierarchy, h.timers_eq, h.transcript, h.nextLayer_eq, .nil, rfl⟩
  rw [Engine.beginPass, Engine.beginPass, htargets]
  rw [← Pass.alike_ofSpellings] at hbegin ⊢
  have hshown := Notice.Respells.push h.transcript (.line .handling)
  exact (hbegin.notify hshown).enqueueAll .event _

/-- Either both engines handle the event, or none of them does. -/
theorem Respells.handle? (h : left.Respells first second right)
    (hsame : caselessEq first second = true) (hresolver : left.resolver.IgnoresLines) (items : Nat)
    (target : Option LayerId) (now : Int) :
    Option.Rel (Respells first second) (left.handle? items first target now)
      (right.handle? items second target now) := by
  have haround : right.surroundings now = left.surroundings now := by
    rw [surroundings, surroundings, h.catalog_eq, h.resolver_eq, h.config_eq]
  unfold Engine.handle? deliver?
  rw [isEmpty_eq_of_caselessEq hsame, haround]
  split
  · exact .some { h with hierarchy := h.hierarchy.compact }
  · have hbegin := h.beginPass target
    have hdrain : Option.Rel (Pass.Respells first second)
        ((left.beginPass first target).drain? (left.surroundings now) items)
        ((right.beginPass second target).drain? (left.surroundings now) items) :=
      hbegin.drain? hsame hresolver items
    rcases rel_cases hdrain with ⟨hleft, hright⟩ | ⟨last, _, hleft, hright, hlast⟩
    · rw [hleft, hright]
      exact .none
    · rw [hleft, hright]
      exact .some ⟨h.config_eq, h.resolver_eq, hlast.transcript, h.catalog_eq,
        hlast.hierarchy.compact, hlast.timers_eq, hlast.nextLayer_eq⟩

/-- An engine that handles an event in one spelling or in another returns from both passes or from
none. Afterwards its layers are the same, with the same states, parents and variables, as are its
pending timers and the commands and verbs that its resolver was shown, in their order. Nothing else
differs but the spelling of the event in the histories, also of layers that are detached, and in the
lines that the resolver was shown. -/
theorem spelling_is_immaterial {engine : Engine} (hsame : caselessEq first second = true)
    (hresolver : engine.resolver.IgnoresLines) (items : Nat) (target : Option LayerId) (now : Int) :
    Option.Rel
      (fun left right => left.Respells first second right ∧
        List.Forall₂ (Snapshot.Respells first second) left.layers right.layers ∧
        right.size = left.size ∧ right.timers = left.timers ∧
        right.transcript.toList.filter (!·.isLine) = left.transcript.toList.filter (!·.isLine) ∧
        List.Forall₂ (Notice.Respells first second) left.transcript.toList right.transcript.toList)
      (engine.handle? items first target now) (engine.handle? items second target now) := by
  have hengine : engine.Respells first second engine := .refl engine
  rcases rel_cases (hengine.handle? hsame hresolver items target now) with
    ⟨hleft, hright⟩ | ⟨left, right, hleft, hright, h⟩
  · rw [hleft, hright]
    exact .none
  · rw [hleft, hright]
    have hsize : right.size = left.size := congrArg List.length h.hierarchy.attachedSlots_eq
    exact .some ⟨h, h.layers, hsize, h.timers_eq, filter_eq_of_respells h.transcript, h.transcript⟩

/-- The root of the sample starts its child on "GO" as it does on "go". -/
theorem spelling_is_immaterial_of_sample :
    caselessEq "go" "GO" = true ∧ sample.resolver.IgnoresLines ∧
      ∃ left right, sample.handle? 10 "go" none 0 = some left ∧
        sample.handle? 10 "GO" none 0 = some right ∧ left.size = 2 ∧ right.size = 2 ∧
        List.Forall₂ (Snapshot.Respells "go" "GO") left.layers right.layers := by
  have hsame : caselessEq "go" "GO" = true := by decide
  have hresolver : sample.resolver.IgnoresLines := fun _ _ _ _ _ => rfl
  have hgo : (sample.handle? 10 "go" none 0).any fun engine => engine.size == 2 := by
    decide +kernel
  obtain ⟨started, hstarted, hsize⟩ := (Option.any_eq_true ..).mp hgo
  rcases rel_cases (spelling_is_immaterial hsame hresolver 10 none 0) with
    ⟨hleft, _⟩ | ⟨left, right, hleft, hright, _, hlayers, hsizes, _⟩
  · rw [hleft] at hstarted
    cases hstarted
  · obtain rfl := Option.some.inj (hleft.symm.trans hstarted)
    have htwo : left.size = 2 := beq_iff_eq.mp hsize
    exact ⟨hsame, hresolver, left, right, hleft, hright, htwo, hsizes.trans htwo, hlayers⟩

end Engine

end LayeredMachines
