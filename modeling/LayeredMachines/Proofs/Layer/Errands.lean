import LayeredMachines.Proofs.Layer.Paths
import Mathlib.Data.List.Chain

/-!
# A layer and what it remembers

A layer follows events one after another, and its calls may be answered in any way. The steps of its
walks make up one path from the start of its machine, and its history holds the last moves of this
path.
-/

namespace LayeredMachines

/-- What a layer is sent for: to follow an event at a time with at most `limit` moves, while a
handler answers its calls. -/
structure Errand (σ : Type) where
  handler : Handler σ
  event : String
  now : Instant
  limit : Nat

/-- An errand, with the layer that runs it and the state of the world when it sets out. -/
structure Outing (σ : Type) extends Errand σ where
  layer : Layer
  world : σ

namespace Outing

variable {σ : Type}

/-- The layer and the world after the walk. -/
def run (outing : Outing σ) : Layer × σ :=
  (outing.layer.follow outing.event outing.now outing.limit).run outing.handler outing.world

/-- The calls that the layer makes on the walk. -/
def trace (outing : Outing σ) : List Call :=
  (outing.layer.follow outing.event outing.now outing.limit).trace outing.handler outing.world

/-- What the layer searches for on the walk. -/
def lookups (outing : Outing σ) : List Lookup :=
  outing.layer.lookups outing.handler outing.event outing.now outing.limit outing.world

/-- The steps that the layer makes on the walk. -/
def steps (outing : Outing σ) : List Step :=
  outing.layer.stepsOf outing.handler outing.event outing.now outing.limit outing.world

end Outing

namespace Layer

variable {σ : Type}

/-- The walks of a layer that runs errands one after another. -/
def outings : List (Errand σ) → Layer → σ → List (Outing σ)
  | [], _, _ => []
  | errand :: rest, layer, world =>
    let outing : Outing σ := { errand with layer := layer, world := world }
    outing :: outings rest outing.run.1 outing.run.2

/-- The layer and the world when all errands are run. -/
def runErrands : List (Errand σ) → Layer → σ → Layer × σ
  | [], layer, world => (layer, world)
  | errand :: rest, layer, world =>
    let outing : Outing σ := { errand with layer := layer, world := world }
    runErrands rest outing.run.1 outing.run.2

/-- There is one walk for each errand. -/
theorem map_toErrand_outings (errands : List (Errand σ)) (layer : Layer) (world : σ) :
    (outings errands layer world).map Outing.toErrand = errands := by
  induction errands generalizing layer world with
  | nil => rfl
  | cons errand rest ih => exact congrArg (errand :: ·) (ih _ _)

/-- A layer that runs errands makes the steps of its walks. -/
theorem runErrands_advances (errands : List (Errand σ)) (layer : Layer) (world : σ) :
    layer.Advances ((outings errands layer world).flatMap Outing.steps)
      (runErrands errands layer world).1 := by
  induction errands generalizing layer world with
  | nil => exact .frames layer layer.frames
  | cons errand rest ih =>
    have hfirst := follow_advances errand.handler layer errand.event errand.now errand.limit world
    exact hfirst.trans (ih _ _)

/-- Whatever events a new layer follows, however its calls are answered, and whatever its machine and
its variables, it rests at a state of the machine if there is one. The steps of its walks lead along edges from the
start of the machine to where it rests, each for the event of its walk, and the lines of the walks
about moves are those of the searches that the steps come from. The history is contiguous and holds
the records of the last steps, as many as its limit allows; if there are any, the last of them leads
to the state that the layer rests in. -/
theorem history_is_truthful (id : LayerId) (machine : Machine) (historyLimit : Nat)
    (frames : FrameStack) (errands : List (Errand σ)) (world : σ) :
    let first := { create id machine historyLimit with frames := frames }
    let walks := outings errands first world
    let steps := walks.flatMap Outing.steps
    let last := (runErrands errands first world).1
    walks.map Outing.toErrand = errands ∧
    (∀ walk ∈ walks, walk.trace.filter Call.reportsMove = walk.lookups.flatMap Lookup.reports) ∧
    last.machine = machine ∧
    (machine.states ≠ [] → last.current < machine.states.length) ∧
    machine.Path machine.startIndex steps last.current ∧
    last.history.moves = (steps.map machine.moveOf).rtake historyLimit ∧
    (last.history.moves.IsChain fun move next => next.source = move.target) ∧
    (0 < historyLimit → steps ≠ [] →
      ∃ move, last.history.last? = some move ∧ move.target = last.stateLabel) ∧
    ∀ move ∈ last.history.moves, ∃ walk ∈ walks, ∃ step ∈ walk.steps,
      move = machine.moveOf step ∧ move.event = walk.event ∧
        machine.HasEdge step.source step.target := by
  intro first walks steps last
  have hadvance : first.Advances steps last := runErrands_advances errands first world
  have hmachine : last.machine = machine := hadvance.machine_eq
  have hpath : machine.Path machine.startIndex steps last.current := hadvance.path
  have hmoves : last.history.moves = (steps.map machine.moveOf).rtake historyLimit := by
    have hlength : (History.empty historyLimit).moves.length ≤
        (History.empty historyLimit).limit := Nat.zero_le _
    rw [hadvance.history_eq]
    exact History.moves_foldl_record hlength _
  have hsuffix : last.history.moves <:+ steps.map machine.moveOf := by
    rw [hmoves]
    exact List.drop_suffix _ _
  refine ⟨map_toErrand_outings errands first world, ?_, hmachine, ?_, hpath, hmoves, ?_, ?_, ?_⟩
  · intro walk _
    exact filter_trace_follow walk.handler walk.layer walk.event walk.now walk.limit walk.world
  · exact fun hstates => hpath.last_lt (Machine.startIndex_lt hstates)
  · exact hpath.isChain.suffix hsuffix
  · intro hlimit hsteps
    obtain ⟨step, hstep⟩ := Option.isSome_iff_exists.mp (List.getLast?_isSome.mpr hsteps)
    refine ⟨machine.moveOf step, ?_, ?_⟩
    · rw [History.last?, hmoves, getLast?_rtake hlimit, List.getLast?_map, hstep, Option.map_some]
    · have htarget := hpath.target_of_getLast? hstep
      simp only [Machine.moveOf, htarget, stateLabel, state?, hmachine, Machine.labelAt]
  · intro move hmove
    obtain ⟨step, hstep, rfl⟩ := List.mem_map.mp (hsuffix.subset hmove)
    obtain ⟨walk, hwalk, hmem⟩ := List.mem_flatMap.mp hstep
    exact ⟨walk, hwalk, step, hmem, rfl, event_of_mem_stepsOf hmem, hpath.hasEdge step hstep⟩

end Layer

end LayeredMachines
