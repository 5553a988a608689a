import LayeredMachines.Proofs.Engine.Identities
import LayeredMachines.Proofs.Engine.Snapshots
import LayeredMachines.Proofs.Pass.Renaming

/-!
# Starting afresh forgets everything

An engine that starts afresh behaves like a new one, whatever it did before. It gives out other
identities, and may do so at other times, but it finds no layer, machine or timer of its past. A
timer that was taken off before it started afresh, and fires only then, is for a layer that is not
there any more.
-/

namespace LayeredMachines

variable {ρ : Renaming} {before : Array Notice}

/-- The same layer as it is seen from outside, with corresponding identities and times. -/
structure Snapshot.Renames (ρ : Renaming) (snapshot other : Snapshot) : Prop where
  id : ρ.id snapshot.id other.id
  machine_eq : other.machine = snapshot.machine
  state_eq : other.state = snapshot.state
  parent : Option.Rel ρ.id snapshot.parent other.parent
  bindings_eq : other.bindings = snapshot.bindings
  history : List.Forall₂ (Move.Renames ρ) snapshot.history other.history

/-- The same layer is seen below corresponding parents. -/
theorem Layer.Renames.ofLayer {layer other : Layer} {parent otherParent : Option LayerId}
    (h : layer.Renames ρ other) (hparent : Option.Rel ρ.id parent otherParent) :
    (Snapshot.ofLayer layer parent).Renames ρ (Snapshot.ofLayer other otherParent) where
  id := h.id
  machine_eq := congrArg Machine.name h.machine_eq
  state_eq := by simp only [Snapshot.ofLayer, Layer.stateLabel, h.state?_eq]
  parent := hparent
  bindings_eq := by simp only [Snapshot.ofLayer, h.frames_eq]
  history := h.history.moves

/-- The same is seen from outside, with corresponding identities and times, and after what the
resolver was shown before. -/
structure Engine.View.Renames (ρ : Renaming) (before : Array Notice) (view other : View) :
    Prop where
  transcript : Notice.Continues ρ before view.transcript other.transcript
  layers : List.Forall₂ (Snapshot.Renames ρ) view.layers other.layers
  size_eq : other.size = view.size
  timers : view.timers.Renames ρ other.timers

/-- The targets stand for each other: all layers, corresponding identities, or two that were given
out before. -/
inductive Renaming.Target (ρ : Renaming) : Option LayerId → Option LayerId → Prop
  | all : Target ρ none none
  | layer {id other : LayerId} (hid : ρ.id id other) : Target ρ (some id) (some other)
  | gone {id other : LayerId} (hid : id.number < ρ.left) (hother : other.number < ρ.right) :
      Target ρ (some id) (some other)

/-- The same event is handled, for corresponding targets at corresponding times. -/
inductive Action.Renames (ρ : Renaming) : Action → Action → Prop
  | handle (event : String) {target other : Option LayerId} {now later : Int}
      (htarget : ρ.Target target other) (htime : ρ.Times now later) :
      Renames ρ (.handle event target now) (.handle event other later)

/-- Identities from one on stand for those from zero on, a hundred milliseconds later. -/
def Renaming.delayed : Renaming :=
  .ofTimes 1 0 fun now later => later = now + 100

/-- The resolver that answers every verb with its name. -/
def Resolver.echo : Resolver :=
  ⟨fun _ verb _ => verb⟩

/-- A root that asks for a verb on the event "go" and then waits to be woken by a timer. -/
def Library.waking : Library :=
  ⟨[⟨"default",
      [(State.named "start").on "go" "asking",
        ((State.named "asking").onEntry "look:what=time").on "look" "waiting",
        ((State.named "waiting").onEntry "timer:event=wake,expires=5").on "wake" "awake",
        State.named "awake"]⟩]⟩

namespace Engine

variable {left right engine : Engine}

/-- The engines agree in all but identities and times, and in what the resolver was shown before and
has forgotten. -/
structure Renames (ρ : Renaming) (before : Array Notice) (left right : Engine) : Prop where
  config_eq : right.config = left.config
  resolver_eq : right.resolver = left.resolver
  forgets : left.resolver.Forgets ρ before
  transcript : Notice.Continues ρ before left.transcript right.transcript
  catalog_eq : right.catalog = left.catalog
  hierarchy : left.hierarchy.Alike (Layer.Renames ρ) right.hierarchy
  timers : left.timers.Renames ρ right.timers
  nextLayer : ρ.id ⟨left.nextLayer⟩ ⟨right.nextLayer⟩

namespace Renames

/-! ### What is seen from outside -/

/-- Both engines are seen alike. -/
theorem view (h : Renames ρ before left right) : left.view.Renames ρ before right.view where
  transcript := h.transcript
  layers :=
    h.hierarchy.forall₂_snapshots (fun _ _ hlayer => hlayer.id)
      fun _ _ _ _ hlayer hparent => hlayer.ofLayer hparent
  size_eq := congrArg List.length h.hierarchy.attachedSlots_eq
  timers := h.timers

/-! ### Actions -/

/-- An event for corresponding targets is delivered to the same slots. -/
theorem targetSlots_eq (h : Renames ρ before left right) {target other : Option LayerId}
    (htarget : ρ.Target target other) : right.targetSlots other = left.targetSlots target := by
  cases htarget with
  | all => exact h.hierarchy.attachedSlots_eq
  | @layer id name hid =>
    have hfound : right.hierarchy.find? name = left.hierarchy.find? id :=
      h.hierarchy.find?_congr fun layer renamed hsame => by
        rw [Bool.eq_iff_iff, beq_iff_eq, beq_iff_eq]
        exact (Relator.rel_eq ρ.biUnique_id hsame.id hid).symm
    rw [targetSlots, targetSlots, hfound]
  | @gone id name hid hname =>
    have hfound : right.hierarchy.find? name = left.hierarchy.find? id :=
      h.hierarchy.find?_congr fun layer renamed hsame => by
        obtain ⟨hlayer, hrenamed⟩ := Renaming.le_of_id hsame.id
        have hleft : layer.id ≠ id := fun heq => Nat.not_lt.mpr hlayer (heq ▸ hid)
        have hright : renamed.id ≠ name := fun heq => Nat.not_lt.mpr hrenamed (heq ▸ hname)
        rw [beq_false_of_ne hleft, beq_false_of_ne hright]
    rw [targetSlots, targetSlots, hfound]

/-- Both engines begin the same pass. -/
theorem beginPass (h : Renames ρ before left right) (event : String)
    {target other : Option LayerId} (htarget : ρ.Target target other) :
    Pass.Renames ρ before (left.beginPass event target) (right.beginPass event other) := by
  have hbegin : Pass.Renames ρ before
      ⟨left.hierarchy, left.timers, left.transcript, left.nextLayer, #[], 0⟩
      ⟨right.hierarchy, right.timers, right.transcript, right.nextLayer, #[], 0⟩ :=
    ⟨h.hierarchy, h.timers, h.transcript, h.nextLayer, rfl, rfl⟩
  rw [Engine.beginPass, Engine.beginPass, h.targetSlots_eq htarget]
  rw [← Pass.alike_ofRenaming] at hbegin ⊢
  have hshown := h.transcript.push (.line (.handling event))
  exact (hbegin.notify hshown).enqueueAll rfl _

/-- Either both engines do the same, or none of them does. -/
theorem act? (h : Renames ρ before left right) (items : Nat) {action other : Action}
    (haction : action.Renames ρ other) :
    Option.Rel (Renames ρ before) (left.act? compact items action)
      (right.act? compact items other) := by
  obtain ⟨event, htarget, htime⟩ := haction
  next target other now later =>
  have haround : right.surroundings later = { left.surroundings now with now := later } := by
    rw [surroundings, surroundings, h.catalog_eq, h.resolver_eq, h.config_eq]
  simp only [Engine.act?, deliver?]
  split
  · exact .some { h with hierarchy := h.hierarchy.compact }
  · have hdrain : Option.Rel (Pass.Renames ρ before)
        ((left.beginPass event target).drain? (left.surroundings now) items)
        ((right.beginPass event other).drain? (right.surroundings later) items) :=
      haround ▸ (h.beginPass event htarget).drain? h.forgets htime items
    rcases rel_cases hdrain with ⟨hleft, hright⟩ | ⟨last, renamed, hleft, hright, hlast⟩
    · rw [hleft, hright]
      exact .none
    · rw [hleft, hright]
      exact .some ⟨h.config_eq, h.resolver_eq, h.forgets, hlast.transcript, h.catalog_eq,
        hlast.hierarchy.compact, hlast.timers, hlast.nextLayer⟩

/-- The engines agree after each of the same actions. -/
theorem play? (h : Renames ρ before left right) (items : Nat) {actions others : List Action}
    (hactions : List.Forall₂ (Action.Renames ρ) actions others) :
    Option.Rel (List.Forall₂ (Renames ρ before)) (left.play? compact items actions)
      (right.play? compact items others) := by
  induction hactions generalizing left right with
  | nil => exact .some .nil
  | cons haction _ ih =>
    unfold Engine.play?
    rcases rel_cases (h.act? items haction) with
      ⟨hleft, hright⟩ | ⟨next, other, hleft, hright, hnext⟩
    · rw [hleft, hright]
      exact .none
    · rw [hleft, hright, Option.bind_some, Option.bind_some]
      rcases rel_cases (ih hnext) with ⟨hnone, hother⟩ | ⟨engines, renamed, hsome, hother, hrest⟩
      · rw [hnone, hother]
        exact .none
      · rw [hsome, hother]
        exact .some (.cons hnext hrest)

end Renames

/-! ### Starting afresh -/

/-- An engine that starts afresh agrees with a new one of its configuration and its resolver. -/
theorem renames_restart (engine : Engine) (library : Library) (hleft : ρ.left = engine.nextLayer)
    (hresolver : engine.resolver.Forgets ρ engine.transcript) :
    Renames ρ engine.transcript (engine.restart library)
      (({ create engine.config with nextLayer := ρ.right }.setResolver engine.resolver).restart
        library) := by
  have hroot : ρ.id ⟨engine.nextLayer⟩ ⟨ρ.right⟩ := ⟨0, by rw [hleft, Nat.add_zero], rfl⟩
  have htranscript : Notice.Continues ρ engine.transcript engine.transcript #[] :=
    ⟨#[], Array.append_empty.symm, .nil⟩
  have hempty : Hierarchy.empty.Alike (Layer.Renames ρ) Hierarchy.empty :=
    ⟨rfl, fun _ => rfl, fun _ => rfl, fun _ => .none⟩
  unfold restart
  split
  · next machine _ =>
    have hlayer := Layer.Renames.create hroot machine engine.config.historyLimit
    exact ⟨rfl, rfl, hresolver, htranscript, rfl, hempty.attach none hlayer, .empty,
      Renaming.id_succ hroot⟩
  · exact ⟨rfl, rfl, hresolver, htranscript, rfl, hempty, .empty, hroot⟩

/-! ### Identities that were given out before -/

/-- No layer has an identity that was given out before all others. -/
theorem IsNumbered.find?_eq_none {first : Nat} (h : engine.IsNumbered first) {id : LayerId}
    (hid : id.number < first) : engine.hierarchy.find? id = none := by
  refine Hierarchy.find?_eq_none_iff.mpr fun slot layer _ hlayer heq => ?_
  have hge := h.layers.number_ge (Hierarchy.id?_eq_some_iff.mpr ⟨layer, hlayer, rfl⟩)
  rw [heq] at hge
  exact absurd hid (Nat.not_lt.mpr hge)

/-- What is seen once an event was handled that no layer followed. -/
def View.mention (view : View) (event : String) : View :=
  if event.isEmpty then view
  else { view with transcript := view.transcript.push (.line (.handling event)) }

/-- An event for a layer that is not there is handled without a walk. -/
theorem view_handle?_of_find?_eq_none (hengine : engine.Settled) {id : LayerId}
    (hid : engine.hierarchy.find? id = none) (items : Nat) (event : String) (now : Int) :
    (engine.handle? items event (some id) now).map view = some (engine.view.mention event) := by
  rw [hengine.handle?_of_find?_eq_none hid, Option.map_some, Notice.mention, View.mention]
  split
  · rw [Array.append_empty]
  · rw [← Array.push_eq_append]
    rfl

/-- An engine that starts afresh has no timer pending. It looks like a new engine of its
configuration that is given its resolver and starts with the same library, and it goes on to look
like that one after each of any events, sent to all layers or to one of them: the two return from
the same passes, have the same layers, variables, histories and pending timers, and show the same
lines, verbs and commands to their resolvers. The identities correspond in the order in which both
give them out, wherever the new engine begins to count. The instants and the deadlines correspond as
those of the events do, in whatever way that is. The resolver must answer as if it had been shown
nothing before. A timer that was pending at any time before finds no layer, whenever it fires
afterwards. -/
theorem restart_forgets {engine : Engine} (library : Library) (hleft : ρ.left = engine.nextLayer)
    (hresolver : engine.resolver.Forgets ρ engine.transcript) :
    let first := engine.restart library
    let new := { create engine.config with nextLayer := ρ.right }.setResolver engine.resolver
    first.timers = TimerQueue.empty ∧
    first.view.Renames ρ engine.transcript (new.restart library).view ∧
    (∀ items actions others, List.Forall₂ (Action.Renames ρ) actions others →
      Option.Rel (List.Forall₂ (View.Renames ρ engine.transcript))
        ((first.play? compact items actions).map (·.map view))
        (((new.restart library).play? compact items others).map (·.map view))) ∧
    ∀ (earlier later : Engine) (timer : Timer), earlier.Reachable → earlier.Leads engine →
      timer ∈ earlier.timers.pending → first.Leads later → ∀ items now,
        (later.handle? items timer.event (some timer.target) now).map view =
          some (later.view.mention timer.event) := by
  intro first new
  have hstart : Renames ρ engine.transcript first (new.restart library) :=
    renames_restart engine library hleft hresolver
  refine ⟨?_, hstart.view, fun items actions others hactions => ?_,
    fun earlier later timer hearlier hleads htimer hlater items now => ?_⟩
  · simp only [first, restart]
    split <;> rfl
  · rcases rel_cases (hstart.play? items hactions) with
      ⟨hnone, hother⟩ | ⟨engines, others, hsome, hother, hengines⟩
    · rw [hnone, hother]
      exact .none
    · rw [hsome, hother]
      refine .some (List.forall₂_map_left_iff.mpr (List.forall₂_map_right_iff.mpr ?_))
      exact hengines.imp fun left right hrenames => hrenames.view
  · have hgiven : timer.target.number < engine.nextLayer :=
      Nat.lt_of_lt_of_le (hearlier.isNumbered.timers timer htimer) hleads.nextLayer_le
    obtain ⟨hsettled, hnumbered⟩ :=
      hlater.isNumbered (settled_restart engine library) (isNumbered_restart engine library)
    exact view_handle?_of_find?_eq_none hsettled (hnumbered.find?_eq_none hgiven) _ _ _

/-- The engine that runs the waking library from its beginning, with the echoing resolver. -/
def waking : Engine :=
  ((create Config.default).setResolver Resolver.echo).restart Library.waking

theorem reachable_waking : waking.Reachable := by
  have hset : (create Config.default).act? compact 0 (.setResolver Resolver.echo) =
      some ((create Config.default).setResolver Resolver.echo) := rfl
  have hstart : ((create Config.default).setResolver Resolver.echo).act? compact 0
      (.restart Library.waking) = some waking := rfl
  exact .act (.act (.create Config.default) hset) hstart

/-- An engine with a pending timer that starts afresh registers the same timer again on the same
event, as a new one does a hundred milliseconds later, which begins to count anew. The event of the
old timer is for a layer that is not there. -/
theorem restart_forgets_of_waking :
    ∃ engine : Engine, engine.Reachable ∧ engine.timers.pending = [⟨⟨0⟩, "wake", 5⟩] ∧
      let first := engine.restart Library.waking
      (∃ lefts rights, first.play? compact 10 [.handle "go" none 7] = some lefts ∧
        waking.play? compact 10 [.handle "go" none 107] = some rights ∧
        lefts.map (·.timers.pending) = [[⟨⟨1⟩, "wake", 12⟩]] ∧
        rights.map (·.timers.pending) = [[⟨⟨0⟩, "wake", 112⟩]] ∧
        List.Forall₂ (View.Renames .delayed engine.transcript) (lefts.map view)
          (rights.map view)) ∧
      (first.handle? 10 "wake" (some ⟨0⟩) 5).map view = some (first.view.mention "wake") := by
  have hgo : (waking.act? compact 10 (.handle "go" none 0)).any fun engine =>
      engine.timers.pending == [⟨⟨0⟩, "wake", 5⟩] && engine.nextLayer == 1 &&
      ((engine.restart Library.waking).play? compact 10 [.handle "go" none 7]).any fun lefts =>
        lefts.map (·.timers.pending) == [[⟨⟨1⟩, "wake", 12⟩]] := by
    decide +kernel
  have hagain : (waking.play? compact 10 [.handle "go" none 107]).any fun rights =>
      rights.map (·.timers.pending) == [[⟨⟨0⟩, "wake", 112⟩]] := by
    decide +kernel
  obtain ⟨engine, hact, hengine⟩ := (Option.any_eq_true ..).mp hgo
  simp only [Bool.and_eq_true, beq_iff_eq] at hengine
  obtain ⟨⟨htimers, hnumber⟩, hfirst⟩ := hengine
  obtain ⟨lefts, hlefts, hleftTimers⟩ := (Option.any_eq_true ..).mp hfirst
  obtain ⟨rights, hrights, hrightTimers⟩ := (Option.any_eq_true ..).mp hagain
  have hkept : engine.config = Config.default ∧ engine.resolver = Resolver.echo := by
    obtain ⟨delivered, hdeliver, rfl⟩ := Option.map_eq_some_iff.mp hact
    rcases deliver?_cases hdeliver with rfl | ⟨_, last, _, rfl⟩
    · exact ⟨rfl, rfl⟩
    · exact ⟨rfl, rfl⟩
  have hforgets : engine.resolver.Forgets .delayed engine.transcript := by
    rw [hkept.2]
    exact fun _ _ _ _ _ => rfl
  have hactions : List.Forall₂ (Action.Renames .delayed) [.handle "go" none 7]
      [.handle "go" none 107] := .cons (.handle "go" .all (Renaming.times_ofTimes rfl)) .nil
  obtain ⟨_, _, hplay, htimer⟩ := restart_forgets Library.waking hnumber.symm hforgets
  have hnew : ({ create engine.config with nextLayer := 0 }.setResolver engine.resolver).restart
      Library.waking = waking := by
    rw [hkept.1, hkept.2]
    rfl
  have hrel : Option.Rel (List.Forall₂ (View.Renames .delayed engine.transcript))
      (((engine.restart Library.waking).play? compact 10 [.handle "go" none 7]).map (·.map view))
      ((waking.play? compact 10 [.handle "go" none 107]).map (·.map view)) :=
    hnew ▸ hplay 10 _ _ hactions
  rw [hlefts, hrights] at hrel
  obtain ⟨hviews⟩ := hrel
  have hwake := htimer engine _ _ (.act reachable_waking hact) .refl
    (by rw [htimers]; exact List.mem_singleton_self _) .refl 10 5
  exact ⟨engine, .act reachable_waking hact, htimers, ⟨lefts, rights, hlefts, hrights,
    beq_iff_eq.mp hleftTimers, beq_iff_eq.mp hrightTimers, hviews⟩, hwake⟩

end Engine

end LayeredMachines
