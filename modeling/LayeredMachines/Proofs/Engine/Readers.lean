import LayeredMachines.Proofs.Axion.Markers
import LayeredMachines.Proofs.Engine.Counting
import LayeredMachines.Proofs.Engine.Snapshots
import LayeredMachines.Proofs.Frames.Binding
import LayeredMachines.Proofs.Text.Pieces

/-!
# Readers of variables

A variable of a layer is read by name in four ways: it is looked up frame by frame, searched for in
the list of all variables that is seen from outside, compared with a value, and put in for a marker.
Whatever frames the layer has, all of these find the binding of the nearest frame that has one.
-/

namespace LayeredMachines

/-- A root that has a variable hidden by one of a later frame, which its child writes there. -/
def Library.hiding : Library :=
  ⟨[⟨"default",
      [(State.named "start").on "go" "setting",
        ((State.named "setting").onEntry "set:label=Level,value=low").on "success" "opening",
        ((State.named "opening").onEntry "new").otherwise "starting",
        ((State.named "starting").onEntry "start:machine=child").on "success" "done",
        State.named "done"]⟩,
    ⟨"child",
      [(State.named "start").on "started" "writing",
        ((State.named "writing").onEntry "write:label=LEVEL,value=High").on "success" "done",
        State.named "done"]⟩]⟩

/-- A marker for a trimmed name is the value of the variable, or nothing if it is unbound. -/
theorem Parameter.expand_marker (stack : FrameStack) (key : String) {label : String}
    (htrimmed : IsTrimmed label.toList) (hname : IsMarkerName label.toList) :
    Parameter.expand stack ⟨key, "((" ++ label ++ "))"⟩ = ⟨key, stack.lookupOr label ""⟩ := by
  have hvalue : ("((" ++ label ++ "))").toList = '(' :: '(' :: (label.toList ++ [')', ')']) := by
    simp
  rw [expand, hvalue, Segment.ofText_marker hname]
  simp [Segment.substitute, htrimmed.trim_eq_self]

/-- A layer's variables are read alike in all ways. -/
structure Snapshot.Reads (snapshot : Snapshot) (stack : FrameStack) : Prop where
  /-- What is looked up is bound in the nearest frame that has a binding of the label. -/
  lookup_eq_some_iff (label value : String) : stack.lookup label = some value ↔
    ∃ inner frame outer, stack.frames = inner ++ frame :: outer ∧
      frame.get? label = some value ∧ ∀ other ∈ inner, other.get? label = none
  /-- It does not matter how the label is spelled. -/
  lookup_congr (label other : String) : caselessEq label other = true →
    stack.lookup label = stack.lookup other
  /-- The first binding that is seen from outside is the one that is looked up. -/
  binding?_eq (label : String) : snapshot.binding? label = stack.lookup label
  /-- A comparison is one with the value that is looked up, and fails if there is none. -/
  matchesValue_iff (label value : String) : stack.matchesValue label value = true ↔
    ∃ bound, stack.lookup label = some bound ∧ caselessEq bound value = true
  /-- Several pairs are compared one by one, those without a label passed over. -/
  matchesAll_iff (tuple : List Parameter) : stack.matchesAll tuple = true ↔ stack.Matches tuple
  /-- A value that is a marker becomes what is looked up for its name, or empty. -/
  expand_eq (axion : Axion) (place : Nat) (key label : String) : IsTrimmed label.toList →
    ')' ∉ label.toList → '\n' ∉ label.toList →
    axion.parameters[place]? = some ⟨key, "((" ++ label ++ "))"⟩ →
    (axion.expand stack).parameters[place]? = some ⟨key, (stack.lookup label).getD ""⟩

/-- The snapshot of a layer reads its variables as the layer does. -/
theorem Snapshot.reads_ofLayer (layer : Layer) (parent : Option LayerId) :
    (Snapshot.ofLayer layer parent).Reads layer.frames where
  lookup_eq_some_iff label value := List.findSome?_eq_some_iff
  lookup_congr label other hsame := layer.frames.lookup_congr hsame
  binding?_eq label := by
    rw [binding?, ofLayer, List.find?_map, Option.map_map]
    exact layer.frames.find?_bindings label
  matchesValue_iff label value := Option.any_eq_true ..
  matchesAll_iff tuple := FrameStack.matchesAll_iff
  expand_eq axion place key label htrimmed hparenthesis hline hplace := by
    have hname := Segment.isMarkerName_of_not_mem hparenthesis hline
    rw [Axion.expand, List.getElem?_map, hplace, Option.map_some,
      Parameter.expand_marker _ _ htrimmed hname, FrameStack.lookupOr]

/-- Places that all have an entry are listed one by one with their entries. -/
private theorem forall₂_filterMap_right {α β : Type} {related : α → β → Prop}
    {found? : α → Option β} {places : List α}
    (h : ∀ place ∈ places, ∃ entry, found? place = some entry ∧ related place entry) :
    List.Forall₂ related places (places.filterMap found?) := by
  induction places with
  | nil => exact .nil
  | cons place rest ih =>
    obtain ⟨⟨entry, hentry, hrelated⟩, hrest⟩ := List.forall_mem_cons.mp h
    rw [List.filterMap_cons_some hentry]
    exact .cons hrelated (ih hrest)

namespace Engine

variable {engine : Engine}

/-- Every attached layer of a reachable engine is seen from outside, in its place, and all readers of
its variables agree: the search in what is seen, the lookup in its frames, the comparison with a
value, and the marker for a name. -/
theorem readers_agree (hengine : engine.Reachable) :
    List.Forall₂ (fun slot snapshot => ∃ layer, engine.hierarchy.layer? slot = some layer ∧
        snapshot.id = layer.id ∧ snapshot.Reads layer.frames)
      engine.hierarchy.attachedSlots engine.layers := by
  refine forall₂_filterMap_right fun slot hslot => ?_
  have hsize := Hierarchy.lt_size_of_isAttached (Hierarchy.mem_attachedSlots.mp hslot)
  obtain ⟨layer, hlayer⟩ := Option.isSome_iff_exists.mp (hengine.settled.isFull slot hsize)
  exact ⟨_, Hierarchy.snapshot?_of_layer? hlayer, layer, hlayer, rfl, Snapshot.reads_ofLayer _ _⟩

theorem reachable_hiding : ((create Config.default).restart Library.hiding).Reachable :=
  reachable_restart Config.default Library.hiding

/-- The inner value of the root's variable is found by all readers, in whatever spelling. -/
theorem readers_agree_of_hiding :
    ∃ (engine : Engine) (snapshot : Snapshot) (layer : Layer), engine.Reachable ∧
      engine.layers.head? = some snapshot ∧ engine.hierarchy.layer? 0 = some layer ∧
      snapshot.bindings = [⟨"LEVEL", "High"⟩, ⟨"Level", "low"⟩] ∧
      layer.frames.lookup "level" = some "High" ∧
      layer.frames.matchesValue "leveL" "HIGH" = true ∧
      (Axion.expand layer.frames ⟨"trace", [⟨"debug", "((level))"⟩]⟩).parameters[0]? =
        some ⟨"debug", "High"⟩ := by
  have hgo : (((create Config.default).restart Library.hiding).act? compact 10
      (.handle "go" none 0)).any fun engine =>
        engine.hierarchy.attachedSlots == [0, 1] &&
        engine.layers.head?.any (fun snapshot =>
          snapshot.bindings == [⟨"LEVEL", "High"⟩, ⟨"Level", "low"⟩] &&
            snapshot.binding? "level" == some "High") := by
    decide +kernel
  obtain ⟨engine, hact, hengine⟩ := (Option.any_eq_true ..).mp hgo
  rw [Bool.and_eq_true, beq_iff_eq] at hengine
  obtain ⟨hslots, hhead⟩ := hengine
  obtain ⟨snapshot, hsnapshot, hseen⟩ := (Option.any_eq_true ..).mp hhead
  rw [Bool.and_eq_true, beq_iff_eq, beq_iff_eq] at hseen
  obtain ⟨hbindings, hbinding⟩ := hseen
  obtain ⟨others, hlayers⟩ := List.head?_eq_some_iff.mp hsnapshot
  have hreachable : engine.Reachable := .act reachable_hiding hact
  have hagree := readers_agree hreachable
  rw [hslots, hlayers] at hagree
  obtain ⟨⟨layer, hlayer, _, hreads⟩, _⟩ := List.forall₂_cons.mp hagree
  have hlookup : layer.frames.lookup "level" = some "High" :=
    (hreads.binding?_eq "level").symm.trans hbinding
  refine ⟨engine, snapshot, layer, hreachable, hsnapshot, hlayer, hbindings, hlookup, ?_, ?_⟩
  · rw [hreads.matchesValue_iff, ← hreads.lookup_congr "level" "leveL" (by decide +kernel)]
    exact ⟨"High", hlookup, by decide +kernel⟩
  · have hexpand := hreads.expand_eq ⟨"trace", [⟨"debug", "((level))"⟩]⟩ 0 "debug" "level"
      (by decide +kernel) (by decide +kernel) (by decide +kernel) rfl
    rwa [hlookup] at hexpand

end Engine

end LayeredMachines
