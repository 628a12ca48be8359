import Mathlib.Algebra.Ring.Int.Defs
import SpeechTransducer.Proofs.Fallible
import SpeechTransducer.Proofs.Zipformer.Slots
import SpeechTransducer.Zipformer.Transducer

/-!
An encoder's states before its first call, and the inputs that states are fed to. States have no
names: what ties them to the inputs is their order alone.
-/

namespace SpeechTransducer.Zipformer

variable {σ S : Type}

/-- Whether an array can be made for a slot: the dimensions are numbers of entries that fit into a
word, and so does the number of bytes, for which there is memory if there are any. -/
def Slot.Allocatable (slot : Slot) : Prop :=
  (∀ n ∈ slot.shape, 0 ≤ n ∧ Number.fitsWord n = true) ∧
    ∃ bytes, Tensor.bytesOf slot.kind slot.shape = .ok bytes ∧
      (bytes < Tensor.memory ∨ Tensor.volume (slot.shape.map Int.toNat) = 0)

instance (slot : Slot) : Decidable slot.Allocatable :=
  have : Decidable (∃ bytes, Tensor.bytesOf slot.kind slot.shape = .ok bytes ∧
      (bytes < Tensor.memory ∨ Tensor.volume (slot.shape.map Int.toNat) = 0)) :=
    match Tensor.bytesOf slot.kind slot.shape with
    | .ok bytes => decidable_of_iff
        (bytes < Tensor.memory ∨ Tensor.volume (slot.shape.map Int.toNat) = 0) (by simp)
    | .error _ => isFalse (by simp)
  inferInstanceAs (Decidable (_ ∧ _))

/-- The array of zeros of a slot's shape, with numbers of some kind. -/
def Slot.array [Zero S] (slot : Slot) (kind : ElementType) : Tensor S :=
  .filled kind (slot.shape.map Int.toNat) 0

theorem Slot.zeros_eq [Zero S] {slot : Slot} (h : slot.Allocatable) :
    slot.zeros = .ok (slot.array slot.kind : Tensor S) := by
  obtain ⟨hshape, bytes, hbytes, hmemory⟩ := h
  have hword : slot.shape.all Number.fitsWord = true :=
    List.all_eq_true.mpr fun n hn => (hshape n hn).2
  have hroom : ¬(Tensor.memory ≤ bytes ∧ 0 < Tensor.volume (slot.shape.map Int.toNat)) := by omega
  simp only [Slot.zeros, Tensor.zeros, hword, hbytes, Bool.not_true, Bool.false_eq_true, if_false]
  exact if_neg hroom

/-- Lists made entry by entry and listed position by position. -/
theorem flatMap_range_filterMap {α β κ : Type} (xs : List α) (ks : List κ) (g : κ → α → β) :
    ((List.range ks.length).flatMap fun k => (xs.map fun x => ks.map fun kind => g kind x).filterMap
      (·[k]?)) = ks.flatMap fun kind => xs.map (g kind) := by
  induction ks with
  | nil => rfl
  | cons kind ks ih =>
      rw [List.length_cons, List.range_succ_eq_map, List.flatMap_cons, List.flatMap_cons,
        List.flatMap_map, ← ih]
      simp [List.filterMap_map]

namespace Metadata

variable [Zero S] {m : Metadata} {bins : Int}

theorem firstStates_eq {attentionDims : List Int} (layout : m.layout = .first attentionDims)
    (h : ∀ slot ∈ m.slots bins, slot.Allocatable) :
    m.firstStates attentionDims =
      .ok ((m.slots bins).map fun slot => (slot.array slot.kind : Tensor S)) := by
  simp only [slots, layout, List.mem_flatMap, List.mem_map] at h ⊢
  have hmade : ((m.firstStacks attentionDims).mapM fun stack =>
      firstKinds.mapM fun kind => (kind stack).zeros) =
        .ok ((m.firstStacks attentionDims).map fun stack =>
          firstKinds.map fun kind => ((kind stack).array (kind stack).kind : Tensor S)) := by
    apply mapM_ok
    intro stack hstack
    apply mapM_ok
    intro kind hkind
    exact Slot.zeros_eq (h _ ⟨kind, hkind, stack, hstack, rfl⟩)
  rw [firstStates, hmade]
  change Except.ok _ = _
  rw [flatMap_range_filterMap, List.map_flatMap]
  simp only [List.map_map, Function.comp_def]

theorem ofStack_eq {i : Nat} {numbers : List Int} (h : i < numbers.length) :
    ofStack i numbers = .ok (numbers.getD i 0) := by
  rw [ofStack, List.getD_eq_getElem?_getD, List.getElem?_eq_getElem h]
  rfl

theorem secondStack_eq {heads queryHeadDims valueHeadDims : List Int} (h : m.Stacked)
    (layout : m.layout = .second heads queryHeadDims valueHeadDims) {i : Nat}
    (hi : i < m.layers.length) :
    m.secondStack heads queryHeadDims valueHeadDims i =
      .ok (m.stackAt heads queryHeadDims valueHeadDims i) := by
  simp only [Stacked, layout, Layout.lists, List.forall_mem_cons] at h
  obtain ⟨hencoder, hkernel, hcontext, hheads, hquery, hvalue, -⟩ := h
  simp only [secondStack, ofStack_eq (hencoder ▸ hi), ofStack_eq (hkernel ▸ hi),
    ofStack_eq (hcontext ▸ hi), ofStack_eq (hheads ▸ hi), ofStack_eq (hquery ▸ hi),
    ofStack_eq (hvalue ▸ hi)]
  rfl

theorem secondStates_eq {heads queryHeadDims valueHeadDims : List Int} (hstacked : m.Stacked)
    (layout : m.layout = .second heads queryHeadDims valueHeadDims)
    (h : ∀ slot ∈ m.slots bins, slot.Allocatable) :
    m.secondStates heads queryHeadDims valueHeadDims bins =
      .ok ((m.slots bins).map fun slot => (slot.array slot.kind : Tensor S)) := by
  simp only [slots, layout, List.mem_append] at h ⊢
  have hlast : (lastSlots bins).mapM Slot.zeros =
      .ok ((lastSlots bins).map fun slot => (slot.array slot.kind : Tensor S)) :=
    mapM_ok fun slot hslot => Slot.zeros_eq (h slot (.inr hslot))
  rw [secondStates, mapM_ok (g := fun x => ((List.replicate x.1.toNat
    (m.stackAt heads queryHeadDims valueHeadDims x.2).layerSlots).flatMap id).map
      fun slot => slot.array slot.kind), hlast]
  · change Except.ok _ = _
    rw [layerSlots, List.map_append, List.map_flatMap, List.flatMap_map]
    rfl
  · intro x hx
    obtain ⟨layers, i⟩ := x
    have hi : i < m.layers.length := by simpa using (List.mem_zipIdx hx).2.1
    simp only [secondStack_eq hstacked layout hi]
    apply mapM_ok
    intro slot hslot
    exact Slot.zeros_eq (h slot (.inl (List.mem_flatMap.mpr ⟨(layers, i), hx, hslot⟩)))

theorem states_eq (hstacked : m.Stacked) (h : ∀ slot ∈ m.slots bins, slot.Allocatable) :
    m.states bins = .ok ((m.slots bins).map fun slot => (slot.array slot.kind : Tensor S)) := by
  rw [states]
  cases layout : m.layout with
  | first => exact firstStates_eq layout h
  | second => exact secondStates_eq hstacked layout h

end Metadata

/-! ## Feeding -/

theorem lookup_feedTo (name key : String) (x : Input S) (feed : List (String × Input S)) :
    (feedTo name x feed).lookup key = if key = name then some x else feed.lookup key := by
  induction feed with
  | nil => grind [feedTo]
  | cons e feed ih => grind [feedTo]

/-- Arrays fed one after the other do not change what was fed under other names. -/
theorem lookup_foldl_of_not_mem {key : String} (pairs : List (String × Tensor S))
    (h : key ∉ pairs.map (·.1)) (feed : List (String × Input S)) :
    (pairs.foldl (fun feed p => feedTo p.1 (.array p.2) feed) feed).lookup key =
      feed.lookup key := by
  induction pairs generalizing feed with
  | nil => rfl
  | cons p pairs ih =>
      rw [List.map_cons, List.mem_cons, not_or] at h
      rw [List.foldl_cons, ih h.2, lookup_feedTo, if_neg h.1]

theorem lookup_foldl {pairs : List (String × Tensor S)} (h : (pairs.map (·.1)).Nodup) {j : Nat}
    {name : String} {x : Tensor S} (hj : pairs[j]? = some (name, x))
    (feed : List (String × Input S)) :
    (pairs.foldl (fun feed p => feedTo p.1 (.array p.2) feed) feed).lookup name =
      some (.array x) := by
  induction pairs generalizing feed j with
  | nil => simp at hj
  | cons p pairs ih =>
      rw [List.map_cons, List.nodup_cons] at h
      rw [List.foldl_cons]
      cases j with
      | zero =>
          obtain rfl : p = (name, x) := by simpa using hj
          rw [lookup_foldl_of_not_mem pairs h.1, lookup_feedTo, if_pos rfl]
      | succ j => exact ih h.2 (by simpa using hj) _

theorem map_fst_zip_sublist {α β : Type} (xs : List α) (ys : List β) :
    ((xs.zip ys).map (·.1)).Sublist xs := by
  induction xs generalizing ys with
  | nil => simp
  | cons x xs ih =>
      cases ys with
      | nil => simp
      | cons y ys => simpa using ih ys

namespace Transducer

variable {t : Transducer σ S}

/-- Every state is fed under the name of its input. -/
theorem lookup_encoderFeed (h : (t.encoder.inputs.map (·.name)).Nodup) (features : Tensor S)
    {states : List (Tensor S)} {j : Nat} {input : DeclaredInput} {state : Tensor S}
    (hinput : t.encoder.inputs[j + 1]? = some input) (hstate : states[j]? = some state) :
    (t.encoderFeed features states).lookup input.name = some (.array state) := by
  apply lookup_foldl ?_ (j := j + 1)
  · rw [List.getElem?_zip_eq_some]
    exact ⟨by rw [List.getElem?_map, hinput]; rfl, hstate⟩
  · exact h.sublist (map_fst_zip_sublist _ _)

theorem length_stateTypes (t : Transducer σ S) :
    t.stateTypes.length = t.encoder.inputs.length - 1 := by
  simp [stateTypes]

section

variable [Zero S]

theorem encode_eq {features : Tensor S} (given : List (Tensor S)) {states : List (Tensor S)}
    (hshape : features.shape.map Int.ofNat = [t.metadata.segment, t.bins])
    (hstates : if given.isEmpty then t.initialStates = .ok states else states = given) :
    t.encode (.array features) given =
      t.encoder.run
        { feed := t.encoderFeed features states, outputs := some t.encoder.outputs } := by
  funext s
  cases hgiven : given.isEmpty with
  | true =>
      rw [hgiven, if_pos rfl] at hstates
      simp [encode, Argument.tensor, Search.answered, hshape, hgiven, hstates]
  | false =>
      rw [hgiven, if_neg (by simp)] at hstates
      simp [encode, Argument.tensor, Search.answered, hshape, hgiven, hstates]

theorem initialStates_eq (hstacked : t.metadata.Stacked)
    (h : ∀ slot ∈ t.metadata.slots t.bins, slot.Allocatable) :
    t.initialStates =
      if t.metadata.stateCount = t.encoder.inputs.length - 1 then
        .ok (List.zipWith (fun (slot : Slot) kind => slot.array kind)
          (t.metadata.slots t.bins) t.stateTypes)
      else .error (.stateCount (t.encoder.inputs.length - 1) t.metadata.stateCount) := by
  have hlength : ((t.metadata.slots t.bins).map fun slot =>
      (slot.array slot.kind : Tensor S)).length = t.metadata.stateCount := by
    rw [List.length_map, Metadata.length_slots hstacked]
  simp only [initialStates, Metadata.states_eq hstacked h, bind, Except.bind, hlength,
    length_stateTypes, List.zipWith_map_left]
  by_cases hcount : t.metadata.stateCount = t.encoder.inputs.length - 1
  · rw [if_pos hcount, if_neg (not_not_intro hcount)]
    rfl
  · rw [if_neg hcount, if_pos hcount]
    rfl

theorem getElem?_initialStates (hstacked : t.metadata.Stacked) {j : Nat} {state : Tensor S} :
    (List.zipWith (fun (slot : Slot) kind => slot.array kind)
        (t.metadata.slots t.bins) t.stateTypes)[j]? = some state ↔
      ∃ slot input, t.metadata.SlotAt t.bins j slot ∧ t.encoder.inputs[j + 1]? = some input ∧
        state = slot.array (elementType input.type) := by
  rw [List.getElem?_zipWith_eq_some]
  constructor
  · intro h
    obtain ⟨slot, kind, hslot, hkind, rfl⟩ := h
    obtain ⟨input, hinput, rfl⟩ : ∃ input, t.encoder.inputs[j + 1]? = some input ∧
        elementType input.type = kind := by
      simpa [stateTypes, Nat.add_comm] using hkind
    exact ⟨slot, input, (Metadata.slotAt_iff hstacked).mpr hslot, hinput, rfl⟩
  · intro h
    obtain ⟨slot, input, hslot, hinput, rfl⟩ := h
    refine ⟨slot, elementType input.type, (Metadata.slotAt_iff hstacked).mp hslot, ?_, rfl⟩
    simp [stateTypes, hinput]

/-- States that have the shapes of their slots and the kinds of their inputs are the zeros of all
slots. -/
theorem eq_of_laidOut (hstacked : t.metadata.Stacked) {states : List (Tensor S)}
    (h : ∀ j state, states[j]? = some state ↔
      ∃ slot input, t.metadata.SlotAt t.bins j slot ∧ t.encoder.inputs[j + 1]? = some input ∧
        state = slot.array (elementType input.type)) :
    states = List.zipWith (fun (slot : Slot) kind => slot.array kind)
      (t.metadata.slots t.bins) t.stateTypes := by
  apply List.ext_getElem?
  intro j
  exact Option.ext fun state => (h j state).trans (getElem?_initialStates hstacked).symm

/-- Unless the encoder has another number of inputs, its states before the first call are arrays of
zeros, each with the shape of its slot and the kind of its input. A call feeds every state to its
input. -/
theorem initialStates_laidOut (t : Transducer σ S) (hstacked : t.metadata.Stacked)
    (halloc : ∀ j slot, t.metadata.SlotAt t.bins j slot → slot.Allocatable)
    (hnames : (t.encoder.inputs.map (·.name)).Nodup) :
    (t.metadata.stateCount ≠ t.encoder.inputs.length - 1 →
      t.initialStates =
        .error (.stateCount (t.encoder.inputs.length - 1) t.metadata.stateCount)) ∧
    (t.metadata.stateCount = t.encoder.inputs.length - 1 →
      ∃ states, t.initialStates = .ok states ∧ states.length = t.metadata.stateCount ∧
        ∀ j state, states[j]? = some state ↔
          ∃ slot input, t.metadata.SlotAt t.bins j slot ∧
            t.encoder.inputs[j + 1]? = some input ∧
            state = slot.array (elementType input.type)) ∧
    ∀ features given states,
      features.shape.map Int.ofNat = [t.metadata.segment, t.bins] →
      (if given.isEmpty then t.initialStates = .ok states else states = given) →
      ∃ feed, t.encode (.array features) given =
          t.encoder.run { feed, outputs := some t.encoder.outputs } ∧
        ∀ j input state, t.encoder.inputs[j + 1]? = some input → states[j]? = some state →
          feed.lookup input.name = some (.array state) := by
  have hstates := initialStates_eq hstacked ((Metadata.forall_slotAt_iff hstacked).mp halloc)
  refine ⟨?_, ?_, ?_⟩
  · intro hcount
    rw [hstates, if_neg hcount]
  · intro hcount
    rw [if_pos hcount] at hstates
    refine ⟨_, hstates, ?_, fun j state => getElem?_initialStates hstacked⟩
    rw [List.length_zipWith, Metadata.length_slots hstacked, length_stateTypes, ← hcount,
      Nat.min_self]
  · intro features given states hshape hgiven
    refine ⟨_, encode_eq given hshape hgiven, ?_⟩
    intro j input state hinput hstate
    exact lookup_encoderFeed hnames features hinput hstate

end

/-- An encoder with given inputs, whose networks are not run. -/
def resting (metadata : Metadata) (inputs : List (String × String)) : Transducer Unit Int where
  metadata := metadata
  bins := 80
  encoder := {
    inputs := inputs.map fun (name, type) => { name, type }
    run := fun _ => throw .outOfRange }
  predictor := { run := fun _ => throw .outOfRange }
  joiner := { run := fun _ => throw .outOfRange }

/-- Stacks of two layers, of none and of one. -/
def uneven : Transducer Unit Int :=
  resting
    { encoderDims := [8, 4, 16]
      layers := [2, 0, 1]
      kernels := [3, 5, 31]
      leftContexts := [4, 1, 2]
      segment := 39
      offset := 32
      layout := .second [2, 1, 3] [4, 2, 5] [2, 2, 1]
      contextSize := 2
      vocabulary := 16 }
    [ ("x", "tensor(float)"), ("a", "tensor(float)"), ("b", "tensor(float16)"),
      ("c", "tensor(float)"), ("d", "tensor(float)"), ("e", "tensor(float)"),
      ("f", "tensor(float)"), ("g", "tensor(float)"), ("h", "tensor(float)"),
      ("i", "tensor(float)"), ("j", "tensor(float)"), ("k", "tensor(float)"),
      ("l", "tensor(float)"), ("m", "tensor(float)"), ("n", "tensor(double)"),
      ("o", "tensor(float)"), ("p", "tensor(float)"), ("q", "tensor(float)"),
      ("r", "tensor(float)"), ("s", "tensor(float)"), ("t", "tensor(int64)") ]

/-- Two stacks of the first generation. -/
def grouped : Transducer Unit Int :=
  resting
    { encoderDims := [8, 6]
      layers := [2, 3]
      kernels := [3, 31]
      leftContexts := [4, 2]
      segment := 9
      offset := 4
      layout := .first [4, 10]
      contextSize := 2
      vocabulary := 16 }
    [ ("x", "tensor(float)"), ("a", "tensor(int64)"), ("b", "tensor(int64)"),
      ("c", "tensor(float)"), ("d", "tensor(float)"), ("e", "tensor(float)"),
      ("f", "tensor(float)"), ("g", "tensor(float)"), ("h", "tensor(float)"),
      ("i", "tensor(float)"), ("j", "tensor(float)"), ("k", "tensor(float)"),
      ("l", "tensor(float)"), ("m", "tensor(float)"), ("n", "tensor(float)") ]

/-- Arrays of zeros. -/
def zerosOf (slots : List (ElementType × List Nat)) : List (Tensor Int) :=
  slots.map fun (kind, shape) => .filled kind shape 0

theorem initialStates_laidOut_generations :
    uneven.initialStates = .ok (zerosOf
      [ (.float32, [4, 1, 8]), (.float16, [1, 1, 4, 6]), (.float32, [4, 1, 4]),
        (.float32, [4, 1, 4]), (.float32, [1, 8, 1]), (.float32, [1, 8, 1]),
        (.float32, [4, 1, 8]), (.float32, [1, 1, 4, 6]), (.float32, [4, 1, 4]),
        (.float32, [4, 1, 4]), (.float32, [1, 8, 1]), (.float32, [1, 8, 1]),
        (.float32, [2, 1, 15]), (.float32, [1, 1, 2, 12]), (.float32, [2, 1, 3]),
        (.float32, [2, 1, 3]), (.float32, [1, 16, 15]), (.float32, [1, 16, 15]),
        (.float32, [1, 128, 3, 19]), (.int64, [1]) ]) ∧
    ∃ states feed, states = zerosOf
      [ (.int64, [2, 1]), (.int64, [3, 1]),
        (.float32, [2, 1, 8]), (.float32, [3, 1, 6]),
        (.float32, [2, 4, 1, 4]), (.float32, [3, 2, 1, 10]),
        (.float32, [2, 4, 1, 2]), (.float32, [3, 2, 1, 5]),
        (.float32, [2, 4, 1, 2]), (.float32, [3, 2, 1, 5]),
        (.float32, [2, 1, 8, 2]), (.float32, [3, 1, 6, 30]),
        (.float32, [2, 1, 8, 2]), (.float32, [3, 1, 6, 30]) ] ∧
      grouped.initialStates = .ok states ∧
      grouped.encode (.array (.filled .float32 [9, 80] 0)) [] =
        grouped.encoder.run { feed, outputs := some grouped.encoder.outputs } ∧
      ∀ p ∈ (grouped.encoder.inputs.drop 1).zip states,
        feed.lookup p.1.name = some (.array p.2) := by
  refine ⟨?_, ?_⟩
  · have hstacked : uneven.metadata.Stacked := by decide
    obtain ⟨-, hstates, -⟩ := initialStates_laidOut uneven hstacked
      ((Metadata.forall_slotAt_iff hstacked).mpr (by decide)) (by decide)
    obtain ⟨states, hok, -, hall⟩ := hstates (by decide)
    rw [hok, eq_of_laidOut hstacked hall]
    rfl
  · have hstacked : grouped.metadata.Stacked := by decide
    obtain ⟨-, hstates, hfeed⟩ := initialStates_laidOut grouped hstacked
      ((Metadata.forall_slotAt_iff hstacked).mpr (by decide)) (by decide)
    obtain ⟨states, hok, -, hall⟩ := hstates (by decide)
    obtain ⟨feed, hencode, hlookup⟩ :=
      hfeed (.filled .float32 [9, 80] 0) [] states (by decide) hok
    obtain rfl := eq_of_laidOut hstacked hall
    refine ⟨_, feed, rfl, hok, hencode, ?_⟩
    intro p hp
    obtain ⟨j, hj⟩ := List.mem_iff_getElem?.mp hp
    obtain ⟨hinput, hstate⟩ := List.getElem?_zip_eq_some.mp hj
    rw [List.getElem?_drop, Nat.add_comm] at hinput
    exact hlookup j p.1 p.2 hinput hstate

/-- One stack that looks back further than an array reaches. -/
def farSighted : Transducer Unit Int :=
  resting
    { encoderDims := [8]
      layers := [1]
      kernels := [3]
      leftContexts := [10 ^ 20]
      segment := 9
      offset := 4
      layout := .first [4]
      contextSize := 2
      vocabulary := 4 }
    [ ("x", "tensor(float)"), ("a", "tensor(float)"), ("b", "tensor(float)"),
      ("c", "tensor(float)"), ("d", "tensor(float)"), ("e", "tensor(float)"),
      ("f", "tensor(float)"), ("g", "tensor(float)") ]

/-- A dimension too large for an array is not negative either. -/
theorem initialStates_dimensionTooLarge :
    farSighted.metadata.Stacked ∧
      (∀ slot ∈ farSighted.metadata.slots farSighted.bins, ∀ n ∈ slot.shape, 0 ≤ n) ∧
      (farSighted.encoder.inputs.map (·.name)).Nodup ∧
      farSighted.metadata.stateCount = farSighted.encoder.inputs.length - 1 ∧
      farSighted.initialStates = .error .dimensionTooLarge := by
  refine ⟨by decide, by decide, by decide, by decide, rfl⟩

end Transducer

end SpeechTransducer.Zipformer
