import LayeredMachines.Proofs.Engine.Layers
import LayeredMachines.Proofs.Layer.Lookups
import LayeredMachines.Proofs.Pass.Isolation

/-!
# Targets of valid libraries

The check of a library looks at labels, and a walk searches for them. Whatever an engine that runs
a valid library is sent, no walk searches for a label that its machine does not have.
-/

namespace LayeredMachines

/-- What the layer of the next work item searches for while it walks. -/
def Pass.walkLookups (around : Surroundings) (pass : Pass) : List Lookup :=
  match pass.next? with
  | none => []
  | some item =>
    match pass.hierarchy.layer? item.slot with
    | none => []
    | some layer =>
      layer.lookups (around.handle item.slot layer.id) item.event (Instant.ofMillis around.now)
        around.config.maxFollowOn (pass.beginWalk item layer)

/-- While a layer walks its searches are those of its program. -/
theorem Pass.walkLookups_of_layer? {around : Surroundings} {pass : Pass} {item : WorkItem}
    {layer : Layer} (hitem : pass.next? = some item)
    (hlayer : pass.hierarchy.layer? item.slot = some layer) :
    pass.walkLookups around =
      layer.lookups (around.handle item.slot layer.id) item.event (Instant.ofMillis around.now)
        around.config.maxFollowOn (pass.beginWalk item layer) := by
  simp [walkLookups, hitem, hlayer]

/-- The lines of a walk about moves are those of its searches. -/
theorem Pass.filter_walkCalls (around : Surroundings) (pass : Pass) :
    ((pass.walkCalls around).map Prod.snd).filter Call.reportsMove =
      (pass.walkLookups around).flatMap Lookup.reports := by
  cases hitem : pass.next? with
  | none => simp [walkCalls, walkLookups, hitem]
  | some item =>
    cases hlayer : pass.hierarchy.layer? item.slot with
    | none => simp [walkCalls, walkLookups, hitem, hlayer]
    | some layer =>
      rw [walkCalls_of_layer? hitem hlayer, walkLookups_of_layer? hitem hlayer,
        Program.map_snd_calls]
      exact layer.filter_trace_follow _ item.event _ _ _

/-- In a hierarchy of sound machines every walk finds what it searches for. -/
theorem Pass.found_of_mem_walkLookups (around : Surroundings) {pass : Pass} {catalog : List Machine}
    (hsound : ∀ machine ∈ catalog, machine.IsSound)
    (hlayers : pass.hierarchy.AllLayers fun layer => layer.machine ∈ catalog) :
    ∀ lookup ∈ pass.walkLookups around, lookup.layer.machine ∈ catalog ∧
      ∃ position, lookup.position? = some position := by
  intro lookup hlookup
  cases hitem : pass.next? with
  | none => simp [walkLookups, hitem] at hlookup
  | some item =>
    cases hlayer : pass.hierarchy.layer? item.slot with
    | none => simp [walkLookups, hitem, hlayer] at hlookup
    | some layer =>
      rw [walkLookups_of_layer? hitem hlayer] at hlookup
      have hmachine : layer.machine ∈ catalog := hlayers item.slot layer hlayer
      obtain ⟨heq, hfound⟩ :=
        Layer.found_of_mem_lookups _ _ _ _ _ (hsound layer.machine hmachine) lookup hlookup
      exact ⟨heq ▸ hmachine, hfound⟩

/-- No walk changes the machine of a layer. -/
theorem Layer.isStable_machine (catalog : List Machine) :
    Layer.IsStable fun layer => layer.machine ∈ catalog where
  frames _ hmachine := hmachine
  moveTo _ _ _ hmachine _ := hmachine

namespace Engine

/-- In a machine of a valid library a label is found in the same place from wherever the search
begins. While an engine runs a valid library, whatever it is sent and whatever verbs answer, every
search of every walk finds a state. The lines of a walk about moves are those of its searches, and
so the only ones of them that say that nothing was found are about searches that found the state
in which the layer rests. -/
theorem targets_are_found {library : Library} (hvalid : library.isValid = true) :
    (∀ machine ∈ library.machines, ∀ i j label, i < machine.states.length →
      j < machine.states.length → machine.search? i label = machine.search? j label ∧
        machine.locate? i label = machine.locate? j label) ∧
    ∀ first engine event target now pass, (Engine.restart first library).Continues engine →
      Pass.Leads (engine.surroundings now) (engine.beginPass event target) pass →
      (∀ lookup ∈ pass.walkLookups (engine.surroundings now),
        lookup.layer.machine ∈ library.machines ∧ ∃ position, lookup.position? = some position) ∧
      ((pass.walkCalls (engine.surroundings now)).map Prod.snd).filter Call.reportsMove =
        (pass.walkLookups (engine.surroundings now)).flatMap Lookup.reports ∧
      ∀ mid layer state external label,
        (mid, .log (.notFound layer state external label)) ∈
          pass.walkCalls (engine.surroundings now) →
        ∃ lookup ∈ pass.walkLookups (engine.surroundings now),
          lookup.position? = some lookup.layer.current ∧
            .notFound layer state external label = lookup.complaint := by
  have hsound (machine : Machine) (hmachine : machine ∈ library.machines) : machine.IsSound :=
    library.isSound_of_isValid hvalid hmachine
  refine ⟨?_, ?_⟩
  · intro machine hmachine i j label hi hj
    have hsame := (hsound machine hmachine).search?_eq hi hj label
    exact ⟨hsame, congrArg (Option.map Prod.snd) hsame⟩
  · intro first engine event target now pass hengine hleads
    have hstable := Layer.isStable_machine library.machines
    have hbegin : (first.restart library).Keeps fun layer => layer.machine ∈ library.machines :=
      keeps_restart fun machine hmachine _ => hmachine
    have hlayers := (hbegin.continues hstable hengine).leads hstable hleads
    have hfound := Pass.found_of_mem_walkLookups (engine.surroundings now) hsound hlayers
    have hlines := pass.filter_walkCalls (engine.surroundings now)
    refine ⟨hfound, hlines, ?_⟩
    intro mid layer state external label hcall
    have hline : .log (.notFound layer state external label) ∈
        ((pass.walkCalls (engine.surroundings now)).map Prod.snd).filter Call.reportsMove :=
      List.mem_filter.mpr ⟨List.mem_map_of_mem hcall, rfl⟩
    rw [hlines] at hline
    obtain ⟨lookup, hlookup, hreport⟩ := List.mem_flatMap.mp hline
    obtain ⟨_, position, hposition⟩ := hfound lookup hlookup
    refine ⟨lookup, hlookup, Lookup.eq_complaint_of_mem_reports ?_ hreport⟩
    simp [hposition]

/-- The sample is valid, and its root finds both states that it moves to on the event "go". -/
theorem targets_are_found_of_sample :
    Library.sample.isValid = true ∧
      ((sample.beginPass "go" none).walkLookups (sample.surroundings 0)).map Lookup.target =
        ["spawn", "waiting"] ∧
      ∀ lookup ∈ (sample.beginPass "go" none).walkLookups (sample.surroundings 0),
        lookup.layer.machine ∈ Library.sample.machines ∧
          ∃ position, lookup.position? = some position := by
  have hvalid : Library.sample.isValid = true := by decide +kernel
  refine ⟨hvalid, by decide +kernel, ?_⟩
  obtain ⟨_, hruns⟩ := targets_are_found hvalid
  exact (hruns (create Config.default) sample "go" none 0 _ (.refl sample) .refl).1

end Engine

end LayeredMachines
