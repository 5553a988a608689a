import LayeredMachines.Proofs.Layer.Executions
import LayeredMachines.Proofs.Pass.Isolation

/-!
# Detached layers

A layer that has left the hierarchy may still be sent work, and walks like any other. Its calls,
however, are refused, apart from those that do no more than count, send events downwards, run verbs
of the application and write lines. This file states which calls are refused, and what is left of
the walk of a detached layer.
-/

namespace LayeredMachines

/-- Only an attached layer is granted the call. -/
def Call.isGuarded : Call → Bool
  | .start .. | .raise .. | .patch .. | .write .. | .timer .. | .trace .. | .pop => true
  | .blast .. | .count .. | .execute .. | .log .. => false

/-- The outcome among the answers to a call, if the call is answered with one. -/
def Call.outcome? : (call : Call) → call.Answer → Option Outcome
  | .start _ _, outcome => some outcome
  | .raise _, outcome => some outcome
  | .blast _, outcome => some outcome
  | .patch _ _, outcome => some outcome
  | .write _ _, outcome => some outcome
  | .timer _ _, outcome => some outcome
  | .trace _, outcome => some outcome
  | .pop, outcome => some outcome
  | .count _, _ => none
  | .execute _ _, _ => none
  | .log _, _ => none

/-- What a call that is open to every layer shows to the resolver. -/
def Call.notices : Call → List Notice
  | .execute verb parameters => [.execute verb parameters]
  | .log line => [.line line]
  | _ => []

/-- The work that a call adds for the layers below, whose slots are given. -/
def Call.sentTo (below : List Nat) : Call → List WorkItem
  | .blast event => if event.isEmpty then [] else below.map (WorkItem.mk event)
  | _ => []

/-- The notice tells of an act of a layer: it is a command, or a line that the layer asked for. -/
def Notice.isAct : Notice → Bool
  | .command .. | .line (.traced ..) => true
  | _ => false

/-- The hierarchies have the same records, except for the layer in one slot. -/
structure Hierarchy.AgreesExcept (slot : Nat) (before after : Hierarchy) : Prop where
  size_eq : after.size = before.size
  parent?_eq : ∀ other, after.parent? other = before.parent? other
  isAttached_eq : ∀ other, after.isAttached other = before.isAttached other
  layer?_eq : ∀ other ≠ slot, after.layer? other = before.layer? other

/-- A layer that is put back in place of the one that was taken out is the only change. -/
theorem Hierarchy.agreesExcept_restore (hierarchy : Hierarchy) (slot : Nat) (layer : Layer) :
    hierarchy.AgreesExcept slot ((hierarchy.take slot).restore slot layer) where
  size_eq := by rw [size_restore, size_take]
  parent?_eq other := by rw [parent?_restore, parent?_take]
  isAttached_eq other := by rw [isAttached_restore, isAttached_take]
  layer?_eq other hother := by
    rw [layer?_restore, if_neg fun h => hother h.1, layer?_take, if_neg hother]

namespace Pass

variable {around : Surroundings} {slot : Nat} {id : LayerId} {pass mid : Pass} {item : WorkItem}
  {layer : Layer}

/-- The pass with more shown to the resolver, and more work. -/
def extend (pass : Pass) (shown : List Notice) (work : List WorkItem) : Pass :=
  { pass with
    transcript := pass.transcript ++ shown.toArray
    queue := pass.queue ++ work.toArray }

/-! ### One call -/

/-- A detached layer is refused the calls that only an attached one is granted. -/
theorem outcome?_of_detached (hdetached : pass.hierarchy.isAttached slot = false) {call : Call}
    (hguarded : call.isGuarded = true) :
    call.outcome? (around.handle slot id call pass).1 = some .failure := by
  cases call with
  | blast | count | execute | log => simp [Call.isGuarded] at hguarded
  | _ => simp [Call.outcome?, Surroundings.handle, hdetached]

/-- A call of a detached layer shows something to the resolver or sends an event downwards, and does
nothing else. -/
theorem handle_of_detached (hdetached : pass.hierarchy.isAttached slot = false) (call : Call) :
    (around.handle slot id call pass).2 =
      pass.extend call.notices (call.sentTo (pass.hierarchy.descendants slot)) := by
  cases call with
  | blast event =>
    simp only [Surroundings.handle, Call.sentTo, Call.notices, extend]
    split
    · simp
    · simp [enqueueAll_eq]
  | execute verb parameters =>
    simp [Surroundings.handle, Call.sentTo, Call.notices, extend, notify]
  | log line => simp [Surroundings.handle, Call.sentTo, Call.notices, extend, notify]
  | count tuple => simp [Surroundings.handle, Call.sentTo, Call.notices, extend]
  | _ => simp [Surroundings.handle, Call.sentTo, Call.notices, extend, hdetached]

/-! ### A whole walk -/

/-- A program of a detached layer shows what its calls show, and sends downwards what they send. -/
theorem run_of_detached {α : Type} (program : Program α)
    (hdetached : pass.hierarchy.isAttached slot = false) :
    (program.run (around.handle slot id) pass).2 =
      pass.extend ((program.trace (around.handle slot id) pass).flatMap Call.notices)
        ((program.trace (around.handle slot id) pass).flatMap
          (Call.sentTo (pass.hierarchy.descendants slot))) := by
  induction program generalizing pass with
  | done value => simp [extend, Program.run, Program.trace]
  | ask call next ih =>
    have hcall : (around.handle slot id call pass).2 =
        pass.extend call.notices (call.sentTo (pass.hierarchy.descendants slot)) :=
      handle_of_detached hdetached call
    simp only [Program.run, Program.trace, List.flatMap_cons]
    generalize around.handle slot id call pass = handled at hcall ⊢
    obtain ⟨answer, after⟩ := handled
    dsimp only at hcall ⊢
    subst hcall
    have hafter : (pass.extend call.notices
        (call.sentTo (pass.hierarchy.descendants slot))).hierarchy.isAttached slot = false :=
      hdetached
    rw [ih answer hafter]
    simp [extend]

/-- While a detached layer runs a program, the hierarchy and the timers stay as they are. -/
theorem eq_of_mem_states_of_detached {α : Type} (program : Program α)
    (hdetached : pass.hierarchy.isAttached slot = false)
    (hmid : mid ∈ program.states (around.handle slot id) pass) :
    mid.hierarchy = pass.hierarchy ∧ mid.timers = pass.timers := by
  have hcall (call : Call) (before : Pass)
      (hbefore : before.hierarchy = pass.hierarchy ∧ before.timers = pass.timers) :
      (around.handle slot id call before).2.hierarchy = pass.hierarchy ∧
        (around.handle slot id call before).2.timers = pass.timers := by
    rw [handle_of_detached (by rw [hbefore.1, hdetached])]
    exact hbefore
  exact Program.forall_mem_states hcall program ⟨rfl, rfl⟩ mid hmid

/-! ### The walk of a work item -/

/-- While a detached layer walks it shows and sends what its calls do, and nothing else happens. -/
theorem walked_of_detached (hitem : pass.next? = some item)
    (hlayer : pass.hierarchy.layer? item.slot = some layer)
    (hdetached : pass.hierarchy.isAttached item.slot = false) :
    pass.walked around item layer =
      { pass with
        hierarchy := (pass.hierarchy.take item.slot).restore item.slot
          (pass.runWalk around item layer).1
        progress := pass.progress + 1 }.extend
        (.line (.following layer.id layer.machine.name item.event) ::
          ((pass.walkCalls around).map Prod.snd).flatMap Call.notices)
        (((pass.walkCalls around).map Prod.snd).flatMap
          (Call.sentTo (pass.hierarchy.descendants item.slot))) := by
  have hbegin : (pass.beginWalk item layer).hierarchy.isAttached item.slot = false := by
    rw [beginWalk, notify, Hierarchy.isAttached_take, hdetached]
  have hbelow : (pass.beginWalk item layer).hierarchy.descendants item.slot =
      pass.hierarchy.descendants item.slot := Hierarchy.descendants_take
  have hrun : (pass.runWalk around item layer).2 =
      (pass.beginWalk item layer).extend
        (((pass.walkCalls around).map Prod.snd).flatMap Call.notices)
        (((pass.walkCalls around).map Prod.snd).flatMap
          (Call.sentTo (pass.hierarchy.descendants item.slot))) := by
    rw [walkCalls_of_layer? hitem hlayer, Program.map_snd_calls, ← hbelow]
    exact run_of_detached _ hbegin
  rw [walked, endWalk, hrun]
  simp [beginWalk, notify, extend]

/-- In no state of the walk of a detached layer the hierarchy or the timers have changed, apart from
the layer being taken out. -/
theorem eq_of_mem_walkStates_of_detached (hitem : pass.next? = some item)
    (hlayer : pass.hierarchy.layer? item.slot = some layer)
    (hdetached : pass.hierarchy.isAttached item.slot = false)
    (hmid : mid ∈ pass.walkStates around) :
    mid.hierarchy = pass.hierarchy.take item.slot ∧ mid.timers = pass.timers := by
  rw [walkStates_of_layer? hitem hlayer] at hmid
  have hbegin : (pass.beginWalk item layer).hierarchy.isAttached item.slot = false := by
    rw [beginWalk, notify, Hierarchy.isAttached_take, hdetached]
  exact eq_of_mem_states_of_detached _ hbegin hmid

/-- What the calls of a walk show, if they are open to every layer, is no act. -/
theorem isAct_of_mem_notices (hitem : pass.next? = some item)
    (hlayer : pass.hierarchy.layer? item.slot = some layer) {call : Call}
    (hcall : (mid, call) ∈ pass.walkCalls around) {notice : Notice}
    (hnotice : notice ∈ call.notices) : notice.isAct = false := by
  rw [walkCalls_of_layer? hitem hlayer] at hcall
  cases call with
  | execute verb parameters =>
    obtain rfl := List.mem_singleton.mp hnotice
    rfl
  | log line =>
    obtain rfl := List.mem_singleton.mp hnotice
    cases line with
    | traced id text => exact absurd rfl (Layer.ne_traced_of_mem_calls hcall id text)
    | _ => rfl
  | _ => exact absurd hnotice List.not_mem_nil

end Pass

end LayeredMachines
