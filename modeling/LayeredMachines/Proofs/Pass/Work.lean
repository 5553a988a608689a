import LayeredMachines.Proofs.Layer.Axions
import LayeredMachines.Proofs.Pass.Starts

/-!
# The work that a walk adds

Only three calls add work: starting a layer, sending an event to the layer above, and sending one to
the layers below. This file says what each of them adds, and that a walk adds what its executions
do, in their order. A layer whose machine does not have one of the three verbs adds no work of that
kind.
-/

namespace LayeredMachines

/-- The work that a call of the layer in a slot adds. -/
def Surroundings.sent (around : Surroundings) (slot : Nat) : Call → Pass → List WorkItem
  | .start machine _, pass =>
    if pass.hierarchy.isAttached slot then
      match around.catalog.find? (·.isNamed machine) with
      | some _ => [⟨startedEvent, pass.hierarchy.size⟩]
      | none => []
    else []
  | .raise event, pass =>
    if pass.hierarchy.isAttached slot && !event.isEmpty then
      (pass.hierarchy.parent? slot).toList.map (WorkItem.mk event)
    else []
  | .blast event, pass =>
    if event.isEmpty then [] else (pass.hierarchy.descendants slot).map (WorkItem.mk event)
  | _, _ => []

/-- The work that an execution of the layer in a slot adds. -/
def Execution.sends (around : Surroundings) (slot : Nat) (execution : Execution Pass) :
    List WorkItem :=
  match execution.call? with
  | some call => around.sent slot call execution.world
  | none => []

namespace Pass

variable {around : Surroundings} {slot : Nat} {id : LayerId} {pass : Pass} {item sent : WorkItem}
  {layer : Layer} {execution : Execution Pass}

/-! ### One call -/

/-- A call adds its work at the end of the list. -/
theorem queue_handle (around : Surroundings) (slot : Nat) (id : LayerId) (call : Call)
    (pass : Pass) :
    (around.handle slot id call pass).2.queue.toList =
      pass.queue.toList ++ around.sent slot call pass := by
  cases call with
  | start machine seed =>
    simp only [Surroundings.handle, Surroundings.sent]
    split
    · cases around.catalog.find? (·.isNamed machine) with
      | none => exact (List.append_nil _).symm
      | some definition => simp [startLayer_eq]
    · exact (List.append_nil _).symm
  | raise event =>
    simp only [Surroundings.handle, Surroundings.sent]
    cases pass.hierarchy.isAttached slot <;> cases pass.hierarchy.parent? slot <;>
      cases event.isEmpty <;> simp [enqueue]
  | blast event =>
    simp only [Surroundings.handle, Surroundings.sent]
    split
    · exact (List.append_nil _).symm
    · rw [enqueueAll_eq, Array.toList_append]
  | count | execute | log => exact (List.append_nil _).symm
  | _ =>
    simp only [Surroundings.handle, Surroundings.sent, List.append_nil]
    grind [notify]

/-- The calls of a walk itself add no work. -/
theorem sent_of_isOfWalk {call : Call} (hown : call.isOfWalk = true) :
    around.sent slot call pass = [] := by
  cases call with
  | start | raise | blast => simp [Call.isOfWalk] at hown
  | _ => rfl

/-! ### Whole walks -/

/-- A program adds what its calls add, in their order. -/
theorem queue_run {α : Type} (program : Program α) (pass : Pass) :
    (program.run (around.handle slot id) pass).2.queue.toList =
      pass.queue.toList ++ (program.calls (around.handle slot id) pass).flatMap
        fun made => around.sent slot made.2 made.1 := by
  induction program generalizing pass with
  | done value => exact (List.append_nil _).symm
  | ask call next ih =>
    simp only [Program.run, Program.calls, List.flatMap_cons]
    rw [ih, queue_handle, List.append_assoc]

/-- The calls of a list that add work are those that are not of a walk itself. -/
private theorem flatMap_sent_filter (calls : List (Pass × Call)) :
    (calls.filter (!·.2.isOfWalk)).flatMap (fun made => around.sent slot made.2 made.1) =
      calls.flatMap fun made => around.sent slot made.2 made.1 := by
  induction calls with
  | nil => rfl
  | cons made rest ih =>
    rw [List.filter_cons, List.flatMap_cons]
    split
    · rw [List.flatMap_cons, ih]
    · next hown =>
      rw [ih, sent_of_isOfWalk (by simpa using hown), List.nil_append]

/-- The calls that executions make add what the executions add. -/
private theorem flatMap_sent_made? (executions : List (Execution Pass)) :
    (executions.filterMap Execution.made?).flatMap (fun made => around.sent slot made.2 made.1) =
      executions.flatMap (Execution.sends around slot) := by
  induction executions with
  | nil => rfl
  | cons execution rest ih =>
    rw [List.flatMap_cons, Execution.sends]
    cases hcall : execution.call? with
    | none =>
      have hnone : execution.made? = none := by rw [Execution.made?, hcall, Option.map_none]
      rw [List.filterMap_cons_none hnone, ih, List.nil_append]
    | some call =>
      have hsome : execution.made? = some (execution.world, call) := by
        rw [Execution.made?, hcall, Option.map_some]
      rw [List.filterMap_cons_some hsome, List.flatMap_cons, ih]

/-- The walk of a work item adds what its executions add, in their order. -/
theorem queue_walked (hitem : pass.next? = some item)
    (hlayer : pass.hierarchy.layer? item.slot = some layer) :
    (pass.walked around item layer).queue.toList =
      pass.queue.toList ++
        (pass.walkExecutions around).flatMap (Execution.sends around item.slot) := by
  have hrun : (pass.runWalk around item layer).2.queue.toList = _ :=
    queue_run (around.walk item layer) (pass.beginWalk item layer)
  rw [walkExecutions_of_layer? hitem hlayer, ← flatMap_sent_made?, ← Layer.filter_calls_follow,
    flatMap_sent_filter]
  exact hrun

/-! ### What is added by one execution -/

/-- The executions of a walk have axions of the layer's machine. -/
theorem text_mem_of_mem_walkExecutions (hitem : pass.next? = some item)
    (hlayer : pass.hierarchy.layer? item.slot = some layer)
    (hexecution : execution ∈ pass.walkExecutions around) :
    execution.text ∈ layer.machine.axions := by
  rw [walkExecutions_of_layer? hitem hlayer] at hexecution
  exact Layer.text_mem_axions hexecution

/-- A walk has at most two executions for each of its moves, and one more. -/
theorem length_walkExecutions_le (around : Surroundings) (pass : Pass) :
    (pass.walkExecutions around).length ≤ 2 * around.config.maxFollowOn + 1 := by
  unfold walkExecutions
  split
  · exact Nat.zero_le _
  · split
    · exact Nat.zero_le _
    · exact Layer.length_executions_le ..

/-- A layer whose machine does not have a verb makes no call of it. -/
theorem builtin?_ne_of_avoids {call : Call} {builtin : Builtin} (hitem : pass.next? = some item)
    (hlayer : pass.hierarchy.layer? item.slot = some layer)
    (havoids : layer.machine.Avoids builtin)
    (hexecution : execution ∈ pass.walkExecutions around) (hcall : execution.call? = some call) :
    call.builtin? ≠ some builtin := by
  intro hbuiltin
  have hread := (Execution.ofText?_of_call? hcall).trans hbuiltin
  have htext := text_mem_of_mem_walkExecutions hitem hlayer hexecution
  exact absurd (Axion.hasVerb_iff.mpr hread) (by simp [havoids _ htext])

end Pass

end LayeredMachines
