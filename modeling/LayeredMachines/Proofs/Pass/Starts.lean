import LayeredMachines.Proofs.Frames.Binding
import LayeredMachines.Proofs.Layer.Executions
import LayeredMachines.Proofs.Pass.Isolation

/-!
# Layers that are started in a pass

A layer that is started takes the next slot and is sent its first event. Until the work list comes
to that event nothing else reaches the layer: other work for it can only be added behind, and no
layer can be below it that would write to its variables. It is therefore found as it was started.
-/

namespace LayeredMachines

/-- A layer of a machine as it is started with a seed: where the machine starts, without moves, and
with one frame, in which a label has the value of the last labelled parameter that is for it. -/
structure Layer.IsClean (layer : Layer) (machine : Machine) (seed : List Parameter) : Prop where
  machine_eq : layer.machine = machine
  current_eq : layer.current = machine.startIndex
  moves_eq : layer.history.moves = []
  depth_eq : layer.frames.depth = 1
  lookup_eq : ∀ label, layer.frames.lookup label =
    (seed.reverse.find? fun p => !p.label.isEmpty && caselessEq p.label label).map Parameter.value

namespace Pass

variable {around : Surroundings} {slot place : Nat} {id : LayerId} {pass next last mid : Pass}
  {item : WorkItem} {layer child : Layer} {machine : Machine}

/-- The executions of the layer of the next work item while it walks. -/
def walkExecutions (around : Surroundings) (pass : Pass) : List (Execution Pass) :=
  match pass.next? with
  | none => []
  | some item =>
    match pass.hierarchy.layer? item.slot with
    | none => []
    | some layer =>
      layer.executions (around.handle item.slot layer.id) item.event (Instant.ofMillis around.now)
        around.config.maxFollowOn (pass.beginWalk item layer)

/-- While a layer walks its executions are those of its walk. -/
theorem walkExecutions_of_layer? (hitem : pass.next? = some item)
    (hlayer : pass.hierarchy.layer? item.slot = some layer) :
    pass.walkExecutions around =
      layer.executions (around.handle item.slot layer.id) item.event (Instant.ofMillis around.now)
        around.config.maxFollowOn (pass.beginWalk item layer) := by
  simp [walkExecutions, hitem, hlayer]

/-- The call of an execution is one of the calls of the walk. -/
theorem mem_walkCalls_of_mem_walkExecutions {execution : Execution Pass} {call : Call}
    (hitem : pass.next? = some item) (hlayer : pass.hierarchy.layer? item.slot = some layer)
    (hexecution : execution ∈ pass.walkExecutions around) (hcall : execution.call? = some call) :
    (execution.world, call) ∈ pass.walkCalls around := by
  rw [walkExecutions_of_layer? hitem hlayer] at hexecution
  rw [walkCalls_of_layer? hitem hlayer]
  exact Layer.mem_calls_of_mem_executions hexecution hcall

/-- In the walk for a work item an execution starts a layer of a machine. -/
structure Starts (around : Surroundings) (pass : Pass) (item : WorkItem)
    (execution : Execution Pass) (machine : Machine) : Prop where
  next?_eq : pass.next? = some item
  mem_walkExecutions : execution ∈ pass.walkExecutions around
  exists_call : ∃ name seed, execution.call? = some (.start name seed) ∧
    around.catalog.find? (·.isNamed name) = some machine ∧
    (around.handle item.slot execution.layer.id (.start name seed) execution.world).1 = .success

/-- The work for the layer in a slot begins at a place in the list, with the event that a new layer is
sent. -/
structure BeginsAt (slot place : Nat) (pass : Pass) : Prop where
  queued : pass.queue[place]? = some ⟨startedEvent, slot⟩
  place_le : ∀ n sent, pass.queue[n]? = some sent → sent.slot = slot → place ≤ n

/-- A layer that was started is still as it was then. Its work begins at a place in the list, and no
layer is below it. -/
structure Untouched (slot place : Nat) (child : Layer) (pass : Pass) : Prop
    extends pass.BeginsAt slot place where
  layer?_eq : pass.hierarchy.layer? slot = some child
  parent?_ne : ∀ other, pass.hierarchy.parent? other ≠ some slot

/-- The work for a layer begins where it did while more is added at the end. -/
theorem BeginsAt.of_queue_grows (h : pass.BeginsAt slot place)
    (hqueue : pass.queue.toList <+: next.queue.toList) : next.BeginsAt slot place where
  queued := by
    obtain ⟨hplace, _⟩ := Array.getElem?_eq_some_iff.mp h.queued
    rw [getElem?_queue_eq hqueue hplace, h.queued]
  place_le n sent hsent hslot := by
    by_contra hbefore
    obtain ⟨hplace, _⟩ := Array.getElem?_eq_some_iff.mp h.queued
    rw [getElem?_queue_eq hqueue (by omega)] at hsent
    exact hbefore (h.place_le n sent hsent hslot)

/-! ### Starting a layer -/

/-- A layer that is just started is clean. -/
theorem isClean_newLayer (pass : Pass) (config : Config) (machine : Machine)
    (seed : List Parameter) : (pass.newLayer config machine seed).IsClean machine seed where
  machine_eq := rfl
  current_eq := rfl
  moves_eq := rfl
  depth_eq := FrameStack.depth_foldl_apply seed FrameStack.empty
  lookup_eq := FrameStack.lookup_foldl_apply seed

/-- A layer that is just started is untouched. -/
theorem Walking.untouched_startLayer (hpass : pass.Walking slot) (config : Config)
    (machine : Machine) (seed : List Parameter) :
    (pass.startLayer config machine slot seed).Untouched pass.hierarchy.size pass.queue.size
      (pass.newLayer config machine seed) where
  layer?_eq := by rw [startLayer_eq, Hierarchy.layer?_attach, if_pos rfl]
  queued := by simp [startLayer_eq]
  place_le n sent hsent hslot := by
    by_contra hbefore
    have hold : pass.queue[n]? = some sent := by
      rw [startLayer_eq, Array.getElem?_push, if_neg (by omega)] at hsent
      exact hsent
    have hlt := (hpass.isQueued sent (Array.mem_of_getElem? hold)).2
    omega
  parent?_ne other hparent := by
    have hslot := hpass.slot_lt
    rw [startLayer_eq, Hierarchy.parent?_attach] at hparent
    split at hparent
    · have hwalker : slot = pass.hierarchy.size := Option.some.inj hparent
      omega
    · have hlt := hpass.ordered.parent_lt hparent
      have hother := Hierarchy.lt_size_of_parent? hparent
      omega

/-- A layer stays untouched while another one acts that adds work at the end of the list and leaves
the records of all but its parent alone. -/
theorem Untouched.keepsOthers (h : pass.Untouched slot place child) {walker : Nat}
    (hwalker : walker ≠ slot)
    (hothers : pass.hierarchy.KeepsOthers walker next.hierarchy)
    (hqueue : pass.queue.toList <+: next.queue.toList) : next.Untouched slot place child where
  toBeginsAt := h.toBeginsAt.of_queue_grows hqueue
  layer?_eq := by
    have hslot := Hierarchy.lt_size_of_layer? h.layer?_eq
    rw [hothers.layer?_eq slot hslot hwalker.symm (h.parent?_ne walker), h.layer?_eq]
  parent?_ne other hparent := by
    by_cases hother : other < pass.hierarchy.size
    · rw [hothers.parent?_eq other hother] at hparent
      exact h.parent?_ne other hparent
    · have hlt := Hierarchy.lt_size_of_parent? hparent
      rw [hothers.parent?_new other (Nat.not_lt.mp hother) hlt] at hparent
      exact hwalker (Option.some.inj hparent)

/-! ### The walk that starts a layer -/

/-- An attached layer starts one of the machine that is found. -/
theorem handle_start {name : String} (seed : List Parameter)
    (hattached : pass.hierarchy.isAttached slot = true)
    (hmachine : around.catalog.find? (·.isNamed name) = some machine) :
    around.handle slot id (.start name seed) pass =
      (.success, pass.startLayer around.config machine slot seed) := by
  simp only [Surroundings.handle, hattached, if_true, hmachine]

/-- Only an attached layer starts one. -/
theorem isAttached_of_success {name : String} {seed : List Parameter}
    (hsuccess : (around.handle slot id (.start name seed) pass).1 = .success) :
    pass.hierarchy.isAttached slot = true := by
  by_contra hdetached
  simp [Surroundings.handle, hdetached] at hsuccess

/-- A layer is started in one of the states of the walk. -/
theorem Starts.mem_walkStates {execution : Execution Pass}
    (hstarts : pass.Starts around item execution machine)
    (hlayer : pass.hierarchy.layer? item.slot = some layer) :
    execution.world ∈ pass.walkStates around ∧
      execution.world.startLayer around.config machine item.slot
        (execution.axion.without "machine") ∈ pass.walkStates around := by
  obtain ⟨name, seed, hcall, hmachine, hsuccess⟩ := hstarts.exists_call
  obtain ⟨_, rfl⟩ := Execution.start_of_call? hcall
  have hmade := mem_walkCalls_of_mem_walkExecutions hstarts.next?_eq hlayer
    hstarts.mem_walkExecutions hcall
  have hstates := mem_walkStates_of_mem_walkCalls hstarts.next?_eq hlayer hmade
  rwa [handle_start _ (isAttached_of_success hsuccess) hmachine] at hstates

/-- A layer that a walk has started is untouched when the walk is over. -/
theorem Starts.untouched_walked {execution : Execution Pass} (hpass : pass.Resting)
    (hstarts : pass.Starts around item execution machine)
    (hlayer : pass.hierarchy.layer? item.slot = some layer) :
    (pass.walked around item layer).Untouched execution.world.hierarchy.size
      execution.world.queue.size
      (execution.world.newLayer around.config machine (execution.axion.without "machine")) := by
  have hitem := hstarts.next?_eq
  obtain ⟨hmid, hafter⟩ := hstarts.mem_walkStates hlayer
  have hwalking : execution.world.Walking item.slot := hpass.walking_of_mem_walkStates hitem hmid
  rw [walkStates_of_layer? hitem hlayer] at hafter
  have hwalker : item.slot ≠ execution.world.hierarchy.size := Nat.ne_of_lt hwalking.slot_lt
  have hcall (call : Call) (before : Pass) {slot place : Nat} {child : Layer}
      (hne : item.slot ≠ slot) (hbefore : before.Untouched slot place child) :
      (around.handle item.slot layer.id call before).2.Untouched slot place child :=
    have heffect := effect_handle around item.slot layer.id call before
    hbefore.keepsOthers hne heffect.keepsOthers heffect.queue_grows
  have hend := Program.run_above_of_mem_states
    (fun before after : Pass => before.Untouched execution.world.hierarchy.size
      execution.world.queue.size _ → after.Untouched _ _ _)
    (fun _ hbefore => hbefore) (fun hfirst hsecond hbefore => hsecond (hfirst hbefore))
    (fun call before hbefore => hcall call before hwalker hbefore) _ hafter
    (hwalking.untouched_startLayer around.config machine _)
  have hlast : (pass.runWalk around item layer).2.Walking item.slot := hpass.runWalk hitem layer
  exact hend.keepsOthers hwalker (hlast.ordered.keepsOthers_restore item.slot _)
    (List.prefix_refl _)

/-- The first event of a layer that a walk starts is behind all work that there was before. -/
theorem Starts.queue_size_le {execution : Execution Pass}
    (hstarts : pass.Starts around item execution machine)
    (hlayer : pass.hierarchy.layer? item.slot = some layer) :
    pass.queue.size ≤ execution.world.queue.size := by
  have hmid := (hstarts.mem_walkStates hlayer).1
  have hgrows := (queue_grows_during_walk hstarts.next?_eq hlayer hmid).1.length_le
  rwa [Array.length_toList, Array.length_toList] at hgrows

/-! ### The pass until the first event of the layer -/

/-- A layer stays untouched while earlier work is done. -/
theorem Resting.untouched_walked (hpass : pass.Resting) (h : pass.Untouched slot place child)
    (hbefore : pass.progress < place) (hitem : pass.next? = some item) (layer : Layer) :
    (pass.walked around item layer).Untouched slot place child := by
  have hwalker : item.slot ≠ slot := fun hslot => by
    have hle := h.place_le pass.progress item hitem hslot
    omega
  exact h.keepsOthers hwalker (hpass.keepsOthers_walked hitem layer).1
    (queue_grows_walked pass item layer)

/-- A pass that comes to its end comes to the first event of a layer that was started, and finds the
layer untouched. -/
theorem Resting.exists_first (hpass : pass.Resting) (h : pass.Untouched slot place child)
    (hprogress : pass.progress ≤ place) (hleads : Leads around pass last)
    (hend : last.next? = none) :
    ∃ first, Leads around pass first ∧ first.progress = place ∧
      first.Untouched slot place child ∧ Leads around first last := by
  induction hleads using Relation.ReflTransGen.head_induction_on with
  | refl =>
    have hsize := Array.getElem?_eq_none_iff.mp hend
    obtain ⟨hplace, _⟩ := Array.getElem?_eq_some_iff.mp h.queued
    omega
  | @head pass next hstep hrest ih =>
    by_cases hreached : pass.progress = place
    · exact ⟨pass, .refl, hreached, h, .head hstep hrest⟩
    · have hnext := hpass.step hstep
      obtain ⟨item, layer, hitem, _, rfl⟩ := hpass.step?_cases hstep
      have huntouched : (pass.walked around item layer).Untouched slot place child :=
        hpass.untouched_walked h (by omega) hitem layer
      have hgoes : (pass.walked around item layer).progress ≤ place := by
        rw [progress_walked]
        omega
      obtain ⟨first, hfirst, hfound⟩ := ih hnext huntouched hgoes
      exact ⟨first, .head hstep hfirst, hfound⟩

/-! ### Every new layer is started -/

/-- Only a call of an attached layer that starts one takes another slot. -/
theorem exists_start_of_size_lt {call : Call}
    (hsize : pass.hierarchy.size < (around.handle slot id call pass).2.hierarchy.size) :
    ∃ name seed machine, call = .start name seed ∧ pass.hierarchy.isAttached slot = true ∧
      around.catalog.find? (·.isNamed name) = some machine := by
  cases call with
  | start name seed =>
    simp only [Surroundings.handle] at hsize
    split at hsize
    · next hattached =>
      split at hsize
      · next machine hmachine => exact ⟨name, seed, machine, rfl, hattached, hmachine⟩
      · exact absurd hsize (Nat.lt_irrefl _)
    · exact absurd hsize (Nat.lt_irrefl _)
  | _ =>
    simp only [Surroundings.handle] at hsize
    grind [enqueue, enqueueAll_eq, notify, Hierarchy.size_modifyLayer, Hierarchy.size_detach]

/-- A slot that is taken in a walk is taken by a layer that an execution of the walk starts. -/
theorem exists_starts_of_walked (hitem : pass.next? = some item)
    (hlayer : pass.hierarchy.layer? item.slot = some layer) (hold : pass.hierarchy.size ≤ slot)
    (hnew : slot < (pass.walked around item layer).hierarchy.size) :
    ∃ execution machine, pass.Starts around item execution machine ∧
      execution.world.hierarchy.size = slot := by
  have hbegin : (pass.beginWalk item layer).hierarchy.size ≤ slot := by
    rw [beginWalk, notify, Hierarchy.size_take]
    exact hold
  rw [walked, endWalk, Hierarchy.size_restore] at hnew
  obtain ⟨mid, call, hcall, hbefore, hafter⟩ :=
    Program.exists_call_passing (fun pass : Pass => pass.hierarchy.size)
      (around.handle item.slot layer.id) (around.walk item layer) _ hbegin hnew
  obtain ⟨name, seed, machine, rfl, hattached, hmachine⟩ :=
    exists_start_of_size_lt (Nat.lt_of_le_of_lt hbefore hafter)
  obtain ⟨execution, hexecution, rfl, hmade⟩ := Layer.exists_execution_of_mem_calls hcall rfl
  rw [handle_start seed hattached hmachine, startLayer_eq, Hierarchy.size_attach] at hafter
  refine ⟨execution, machine, ⟨hitem, ?_, name, seed, hmade, hmachine, ?_⟩, by omega⟩
  · rwa [walkExecutions_of_layer? hitem hlayer]
  · rw [handle_start seed hattached hmachine]

/-- A slot that is taken in a pass is taken by a layer that one of its walks starts. -/
theorem Resting.exists_starts (hpass : pass.Resting) (hleads : Leads around pass last)
    (hold : pass.hierarchy.size ≤ slot) (hnew : slot < last.hierarchy.size) :
    ∃ mid item execution machine, Leads around pass mid ∧
      mid.Starts around item execution machine ∧ execution.world.hierarchy.size = slot := by
  induction hleads using Relation.ReflTransGen.head_induction_on with
  | refl => omega
  | @head pass next hstep hrest ih =>
    have hnext := hpass.step hstep
    obtain ⟨item, layer, hitem, hlayer, rfl⟩ := hpass.step?_cases hstep
    by_cases hearly : slot < (pass.walked around item layer).hierarchy.size
    · obtain ⟨execution, machine, hstarts, hslot⟩ :=
        exists_starts_of_walked hitem hlayer hold hearly
      exact ⟨pass, item, execution, machine, .refl, hstarts, hslot⟩
    · obtain ⟨mid, item, execution, machine, hmid, hfound⟩ := ih hnext (Nat.not_lt.mp hearly)
      exact ⟨mid, item, execution, machine, .head hstep hmid, hfound⟩

end Pass

end LayeredMachines
