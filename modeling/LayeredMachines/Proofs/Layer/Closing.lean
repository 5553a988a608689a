import LayeredMachines.Proofs.Layer.Executions

/-!
# The end of a layer's walk

A layer that comes to rest in a final state executes the axion for leaving it once more. Only verbs
that reach out are executed then, and these change no variables. So the layer that has finished is
the one that has walked, and its last calls are known from it alone.
-/

namespace LayeredMachines

/-- A verb that reaches out leaves the variables as they are. -/
theorem Verb.execute_yields_of_reachesOut {verb : Verb} (hreach : verb.reachesOut = true)
    (phase : Phase) (context : WalkContext) (id : LayerId) (stack : FrameStack) :
    (verb.execute phase context id stack).Yields fun result => result.2 = stack := by
  have hrequest (argument : String) (call : Program Outcome) :
      (phase.request argument stack call).Yields fun result => result.2 = stack := by
    unfold Phase.request
    split
    · exact rfl
    · refine Program.yields_bind (fun outcome => ?_) call
      exact rfl
  cases verb with
  | start machine seed => exact hrequest machine _
  | raise event => exact hrequest event _
  | blast event => exact hrequest event _
  | patch command status => exact hrequest command _
  | write label value => exact hrequest label _
  | _ => simp [reachesOut] at hreach

/-- In the final phase an axion leaves the variables as they are. -/
theorem yields_of_executeText_final {text : String} {context : WalkContext} {id : LayerId}
    {stack : FrameStack} {program : Program (String × FrameStack)}
    (hprogram : program = executeText text .final context id stack) :
    program.Yields fun result => result.2 = stack := by
  rw [hprogram]
  unfold executeText
  generalize ((Axion.split text).expand stack).toVerb = verb
  dsimp only
  split
  · next hreach =>
    have hverb := Verb.execute_yields_of_reachesOut hreach .final context id stack
    exact hverb.bind fun result hstack => hstack
  · exact rfl

namespace Layer

variable {σ : Type}

/-- Finishing does not change a layer. -/
theorem finish_yields_self (layer : Layer) (event : String) :
    (layer.finish event).Yields fun later => later = layer := by
  have hleave (state : State) :
      (layer.leaveState state .final ⟨event, ""⟩).Yields fun later => later = layer := by
    unfold leaveState
    -- The program of the axion must not be looked into.
    generalize haxion : executeText state.leave .final ⟨event, ""⟩ layer.id layer.frames = program
    split
    · exact rfl
    · refine (yields_of_executeText_final haxion.symm).bind fun result hframes => ?_
      have hlayer : { layer with frames := result.2 } = layer := by rw [hframes]
      exact hlayer
  unfold finish
  split
  · next state _ =>
    split
    · refine (hleave state).bind ?_
      rintro _ rfl
      exact fun _ => rfl
    · exact rfl
  · exact rfl

/-- The calls of a layer that has walked: if it is finished, the call that its axion makes on being
executed once more, and then the one to be taken out. -/
def closing (layer : Layer) (event : String) : List Call :=
  match layer.state? with
  | some state =>
    if state.isFinal then
      (layer.leaveExecutions state .final ⟨event, ""⟩ ()).filterMap Execution.call? ++ [.pop]
    else []
  | none => []

/-- The calls of a layer that finishes do not depend on how they are answered. -/
theorem trace_finish (handler : Handler σ) (layer : Layer) (event : String) (world : σ) :
    (layer.finish event).trace handler world = layer.closing event := by
  have hleave (state : State) :
      (layer.leaveState state .final ⟨event, ""⟩).trace handler world =
        (layer.leaveExecutions state .final ⟨event, ""⟩ ()).filterMap Execution.call? := by
    rw [← Program.map_snd_calls, calls_leaveState, Execution.map_snd_filterMap_made?]
    unfold leaveExecutions
    split
    · rfl
    · -- The call of an execution does not depend on the world.
      generalize hcall :
        (⟨state.leave, .final, ⟨event, ""⟩, layer, ()⟩ : Execution Unit).call? = call
      have hsame : (⟨state.leave, .final, ⟨event, ""⟩, layer, world⟩ : Execution σ).call? = call :=
        hcall ▸ rfl
      rw [filterMap_singleton, filterMap_singleton, hcall, hsame]
  unfold finish closing
  cases layer.state? with
  | none => rfl
  | some state =>
    dsimp only
    split
    · rw [Program.trace_bind, hleave]
      rfl
    · rfl

end Layer

end LayeredMachines
