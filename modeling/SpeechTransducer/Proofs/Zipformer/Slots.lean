import Mathlib.Algebra.BigOperators.Ring.List
import Mathlib.Algebra.Ring.Nat
import Mathlib.Data.Nat.Cast.Basic
import SpeechTransducer.Zipformer.States

/-!
The order of an encoder's states. Those of the first generation are listed kind by kind, and within
a kind stack by stack; those of the second are listed layer by layer, and within a layer kind by
kind, before the two that belong to no layer.
-/

namespace SpeechTransducer.Zipformer

/-- An entry of lists put one behind the other is an entry of one of them, behind all those before
it. -/
theorem getElem?_flatMap_eq_some {α β : Type} {f : α → List β} {l : List α} {j : Nat} {y : β} :
    (l.flatMap f)[j]? = some y ↔
      ∃ i x k, l[i]? = some x ∧ (f x)[k]? = some y ∧
        j = ((l.take i).map fun x => (f x).length).sum + k := by
  induction l generalizing j with
  | nil => simp
  | cons x l ih =>
      rw [List.flatMap_cons, List.getElem?_append]
      constructor
      · intro h
        split at h
        · exact ⟨0, x, j, rfl, h, by simp⟩
        · obtain ⟨i, z, k, hz, hk, hj⟩ := ih.mp h
          refine ⟨i + 1, z, k, hz, hk, ?_⟩
          rw [List.take_succ_cons, List.map_cons, List.sum_cons]
          omega
      · intro h
        obtain ⟨i, z, k, hz, hk, rfl⟩ := h
        cases i with
        | zero =>
            obtain rfl : x = z := by simpa using hz
            have hlt := (List.getElem?_eq_some_iff.mp hk).1
            rw [List.take_zero, List.map_nil, List.sum_nil, Nat.zero_add, if_pos hlt, hk]
        | succ i =>
            have hrest := ih.mpr ⟨i, z, k, hz, hk, rfl⟩
            rw [List.take_succ_cons, List.map_cons, List.sum_cons, Nat.add_assoc, if_neg (by omega),
              Nat.add_sub_cancel_left, hrest]

/-- The lists that describe the stacks of one generation only. -/
def Layout.lists : Layout → List (List Int)
  | first attentionDims => [attentionDims]
  | second heads queryHeadDims valueHeadDims => [heads, queryHeadDims, valueHeadDims]

/-- Every list that describes stacks has an entry for each of them. -/
def Metadata.Stacked (m : Metadata) : Prop :=
  ∀ numbers ∈ m.encoderDims :: m.kernels :: m.leftContexts :: m.layout.lists,
    numbers.length = m.layers.length

instance (m : Metadata) : Decidable m.Stacked := inferInstanceAs (Decidable (∀ _ ∈ _, _))

/-- A stack of the first generation, by the entries of the lists. -/
structure Metadata.FirstStackAt (m : Metadata) (attentionDims : List Int) (i : Nat)
    (s : FirstStack) : Prop where
  layers : m.layers[i]? = some s.layers
  attentionDim : attentionDims[i]? = some s.attentionDim
  leftContext : m.leftContexts[i]? = some s.leftContext
  encoderDim : m.encoderDims[i]? = some s.encoderDim
  kernel : m.kernels[i]? = some s.kernel

/-- A stack of the second generation, by the entries of the lists. -/
structure Metadata.SecondStackAt (m : Metadata) (heads queryHeadDims valueHeadDims : List Int)
    (i : Nat) (layers : Int) (s : SecondStack) : Prop where
  layers : m.layers[i]? = some layers
  keyDim : ∃ query count, queryHeadDims[i]? = some query ∧ heads[i]? = some count ∧
    s.keyDim = query * count
  valueDim : ∃ value count, valueHeadDims[i]? = some value ∧ heads[i]? = some count ∧
    s.valueDim = value * count
  encoderDim : m.encoderDims[i]? = some s.encoderDim
  kernel : m.kernels[i]? = some s.kernel
  leftContext : m.leftContexts[i]? = some s.leftContext

/-- The number of layers in the stacks before one. A stack with fewer than one layer has none. -/
def Metadata.layersBefore (m : Metadata) (i : Nat) : Nat :=
  ((m.layers.take i).map Int.toNat).sum

def Metadata.layerCount (m : Metadata) : Nat := (m.layers.map Int.toNat).sum

/-- The seven kinds of states of the first generation by their numbers. -/
inductive FirstStack.KindAt (s : FirstStack) : Nat → Slot → Prop where
  | length : s.KindAt 0 ⟨.int64, [s.layers, 1]⟩
  | average : s.KindAt 1 ⟨.float32, [s.layers, 1, s.encoderDim]⟩
  | key : s.KindAt 2 ⟨.float32, [s.layers, s.leftContext, 1, s.attentionDim]⟩
  | firstValue : s.KindAt 3 ⟨.float32, [s.layers, s.leftContext, 1, s.attentionDim / 2]⟩
  | secondValue : s.KindAt 4 ⟨.float32, [s.layers, s.leftContext, 1, s.attentionDim / 2]⟩
  | firstConvolution : s.KindAt 5 ⟨.float32, [s.layers, 1, s.encoderDim, s.kernel - 1]⟩
  | secondConvolution : s.KindAt 6 ⟨.float32, [s.layers, 1, s.encoderDim, s.kernel - 1]⟩

/-- The six kinds of states of the second generation by their numbers in a layer. -/
inductive SecondStack.KindAt (s : SecondStack) : Nat → Slot → Prop where
  | key : s.KindAt 0 ⟨.float32, [s.leftContext, 1, s.keyDim]⟩
  | nonlinear : s.KindAt 1 ⟨.float32, [1, 1, s.leftContext, 3 * s.encoderDim / 4]⟩
  | firstValue : s.KindAt 2 ⟨.float32, [s.leftContext, 1, s.valueDim]⟩
  | secondValue : s.KindAt 3 ⟨.float32, [s.leftContext, 1, s.valueDim]⟩
  | firstConvolution : s.KindAt 4 ⟨.float32, [1, s.encoderDim, s.kernel / 2]⟩
  | secondConvolution : s.KindAt 5 ⟨.float32, [1, s.encoderDim, s.kernel / 2]⟩

/-- The slots of a model's states by their positions. -/
inductive Metadata.SlotAt (m : Metadata) (bins : Int) : Nat → Slot → Prop where
  | first {attentionDims : List Int} {i k : Nat} {stack : FirstStack} {slot : Slot}
      (layout : m.layout = .first attentionDims) (stack_at : m.FirstStackAt attentionDims i stack)
      (kind_at : stack.KindAt k slot) :
      SlotAt m bins (k * m.layers.length + i) slot
  | layer {heads queryHeadDims valueHeadDims : List Int} {i l k : Nat} {layers : Int}
      {stack : SecondStack} {slot : Slot}
      (layout : m.layout = .second heads queryHeadDims valueHeadDims)
      (stack_at : m.SecondStackAt heads queryHeadDims valueHeadDims i layers stack)
      (layer_lt : l < layers.toNat) (kind_at : stack.KindAt k slot) :
      SlotAt m bins (6 * (m.layersBefore i + l) + k) slot
  | embedding {heads queryHeadDims valueHeadDims : List Int}
      (layout : m.layout = .second heads queryHeadDims valueHeadDims) :
      SlotAt m bins (6 * m.layerCount) ⟨.float32, [1, 128, 3, ((bins - 1) / 2 - 1) / 2]⟩
  | counter {heads queryHeadDims valueHeadDims : List Int}
      (layout : m.layout = .second heads queryHeadDims valueHeadDims) :
      SlotAt m bins (6 * m.layerCount + 1) ⟨.int64, [1]⟩

/-- The number of a model's states. -/
def Metadata.stateCount (m : Metadata) : Nat :=
  match m.layout with
  | .first _ => 7 * m.layers.length
  | .second .. => 6 * m.layerCount + 2

/-- A stack of the second generation by its number. Where a list has no entry, zero stands for
it. -/
def Metadata.stackAt (m : Metadata) (heads queryHeadDims valueHeadDims : List Int) (i : Nat) :
    SecondStack where
  keyDim := queryHeadDims.getD i 0 * heads.getD i 0
  valueDim := valueHeadDims.getD i 0 * heads.getD i 0
  encoderDim := m.encoderDims.getD i 0
  kernel := m.kernels.getD i 0
  leftContext := m.leftContexts.getD i 0

/-- The slots of all layers, stack by stack. -/
def Metadata.layerSlots (m : Metadata) (heads queryHeadDims valueHeadDims : List Int) :
    List Slot :=
  m.layers.zipIdx.flatMap fun x =>
    (List.replicate x.1.toNat
      (m.stackAt heads queryHeadDims valueHeadDims x.2).layerSlots).flatMap id

/-- The slots of a model's states in their order. -/
def Metadata.slots (m : Metadata) (bins : Int) : List Slot :=
  match m.layout with
  | .first attentionDims => firstKinds.flatMap fun kind => (m.firstStacks attentionDims).map kind
  | .second heads queryHeadDims valueHeadDims =>
    m.layerSlots heads queryHeadDims valueHeadDims ++ lastSlots bins

theorem FirstStack.kindAt_iff {s : FirstStack} {k : Nat} {slot : Slot} :
    s.KindAt k slot ↔ ∃ kind, firstKinds[k]? = some kind ∧ kind s = slot := by
  constructor
  · intro h
    cases h <;> exact ⟨_, rfl, rfl⟩
  · intro h
    obtain ⟨kind, hkind, rfl⟩ := h
    match k, hkind with
    | 0, rfl => exact .length
    | 1, rfl => exact .average
    | 2, rfl => exact .key
    | 3, rfl => exact .firstValue
    | 4, rfl => exact .secondValue
    | 5, rfl => exact .firstConvolution
    | 6, rfl => exact .secondConvolution

theorem SecondStack.kindAt_iff {s : SecondStack} {k : Nat} {slot : Slot} :
    s.KindAt k slot ↔ s.layerSlots[k]? = some slot := by
  constructor
  · intro h
    cases h <;> rfl
  · intro h
    match k, h with
    | 0, rfl => exact .key
    | 1, rfl => exact .nonlinear
    | 2, rfl => exact .firstValue
    | 3, rfl => exact .secondValue
    | 4, rfl => exact .firstConvolution
    | 5, rfl => exact .secondConvolution

namespace Metadata

variable {m : Metadata} {bins : Int} {i : Nat}

theorem getElem?_firstStacks {attentionDims : List Int} {s : FirstStack} :
    (m.firstStacks attentionDims)[i]? = some s ↔ m.FirstStackAt attentionDims i s := by
  simp only [firstStacks, List.getElem?_map, Option.map_eq_some_iff, List.getElem?_zip_eq_some]
  constructor
  · intro h
    obtain ⟨x, ⟨hlayers, hattention, hcontext, hencoder, hkernel⟩, rfl⟩ := h
    exact ⟨hlayers, hattention, hcontext, hencoder, hkernel⟩
  · intro h
    exact ⟨(_, _, _, _, _), ⟨h.layers, h.attentionDim, h.leftContext, h.encoderDim, h.kernel⟩, rfl⟩

theorem length_firstStacks {attentionDims : List Int} (h : m.Stacked)
    (layout : m.layout = .first attentionDims) :
    (m.firstStacks attentionDims).length = m.layers.length := by
  simp only [Stacked, layout, Layout.lists, List.forall_mem_cons] at h
  simp only [firstStacks, List.length_map, List.length_zip]
  omega

theorem secondStackAt_iff {heads queryHeadDims valueHeadDims : List Int} (h : m.Stacked)
    (layout : m.layout = .second heads queryHeadDims valueHeadDims) {layers : Int}
    {s : SecondStack} :
    m.SecondStackAt heads queryHeadDims valueHeadDims i layers s ↔
      m.layers[i]? = some layers ∧ s = m.stackAt heads queryHeadDims valueHeadDims i := by
  simp only [Stacked, layout, Layout.lists, List.forall_mem_cons] at h
  constructor
  · intro hs
    obtain ⟨query, count, hquery, hcount, hkey⟩ := hs.keyDim
    obtain ⟨value, count', hvalue, hcount', hvalue'⟩ := hs.valueDim
    refine ⟨hs.layers, ?_⟩
    cases s
    simp_all [stackAt, hs.encoderDim, hs.kernel, hs.leftContext]
  · intro hs
    obtain ⟨hlayers, rfl⟩ := hs
    have hi := (List.getElem?_eq_some_iff.mp hlayers).1
    have entry {numbers : List Int} (hlen : numbers.length = m.layers.length) :
        numbers[i]? = some (numbers.getD i 0) := by
      rw [List.getD_eq_getElem?_getD, List.getElem?_eq_getElem (hlen ▸ hi), Option.getD_some]
    obtain ⟨hencoder, hkernel, hcontext, hheads, hquery, hvalue, -⟩ := h
    exact ⟨hlayers, ⟨_, _, entry hquery, entry hheads, rfl⟩,
      ⟨_, _, entry hvalue, entry hheads, rfl⟩, entry hencoder, entry hkernel, entry hcontext⟩

/-- The slots of layers of one kind, one layer behind the other. -/
theorem getElem?_layers {stack : SecondStack} {n j : Nat} {slot : Slot} :
    ((List.replicate n stack.layerSlots).flatMap id)[j]? = some slot ↔
      ∃ l k, l < n ∧ stack.layerSlots[k]? = some slot ∧ j = 6 * l + k := by
  have hsum {l : Nat} (hl : l < n) :
      (((List.replicate n stack.layerSlots).take l).map fun x => (id x).length).sum = 6 * l := by
    simp [List.take_replicate, SecondStack.layerSlots, Nat.min_eq_left hl.le, Nat.mul_comm 6]
  rw [getElem?_flatMap_eq_some]
  constructor
  · intro h
    obtain ⟨l, x, k, hx, hk, rfl⟩ := h
    obtain ⟨hl, rfl⟩ : l < n ∧ stack.layerSlots = x := by simpa [List.getElem?_replicate] using hx
    exact ⟨l, k, hl, hk, by rw [hsum hl]⟩
  · intro h
    obtain ⟨l, k, hl, hk, rfl⟩ := h
    exact ⟨l, stack.layerSlots, k, by simp [hl], hk, by rw [hsum hl]⟩

theorem length_layers (stack : SecondStack) (n : Nat) :
    ((List.replicate n stack.layerSlots).flatMap id).length = 6 * n := by
  simp [SecondStack.layerSlots, Nat.mul_comm 6]

theorem sum_length_layers (stack : Nat → SecondStack) (numbered : List (Int × Nat)) :
    (numbered.map fun x =>
      ((List.replicate x.1.toNat (stack x.2).layerSlots).flatMap id).length).sum =
        6 * ((numbered.map (·.1)).map Int.toNat).sum := by
  simp only [length_layers, List.sum_map_mul_left, List.map_map, Function.comp_def]

theorem slotAt_first (h : m.Stacked) {attentionDims : List Int}
    (layout : m.layout = .first attentionDims) {j : Nat} {slot : Slot} :
    m.SlotAt bins j slot ↔ (m.slots bins)[j]? = some slot := by
  have hlength := length_firstStacks h layout
  have hsum {k : Nat} {kind : FirstStack → Slot} (hkind : firstKinds[k]? = some kind) :
      ((firstKinds.take k).map fun kind =>
        ((m.firstStacks attentionDims).map kind).length).sum = k * m.layers.length := by
    have hk := (List.getElem?_eq_some_iff.mp hkind).1
    simp [hlength, Nat.min_eq_left hk.le]
  rw [slots, layout]
  dsimp only
  rw [getElem?_flatMap_eq_some]
  constructor
  · intro hslot
    cases hslot with
    | @first attentionDims' i k stack slot layout' stack_at kind_at =>
        obtain rfl := Layout.first.inj (layout'.symm.trans layout)
        obtain ⟨kind, hkind, rfl⟩ := FirstStack.kindAt_iff.mp kind_at
        refine ⟨k, kind, i, hkind, ?_, by rw [hsum hkind]⟩
        rw [List.getElem?_map, getElem?_firstStacks.mpr stack_at, Option.map_some]
    | layer layout' => simp [layout] at layout'
    | embedding layout' => simp [layout] at layout'
    | counter layout' => simp [layout] at layout'
  · intro hslot
    obtain ⟨k, kind, i, hkind, hentry, rfl⟩ := hslot
    obtain ⟨stack, hstack, rfl⟩ : ∃ stack, (m.firstStacks attentionDims)[i]? = some stack ∧
        kind stack = slot := by simpa using hentry
    rw [hsum hkind]
    exact .first layout (getElem?_firstStacks.mp hstack)
      (FirstStack.kindAt_iff.mpr ⟨kind, hkind, rfl⟩)

theorem length_layerSlots (heads queryHeadDims valueHeadDims : List Int) :
    (m.layerSlots heads queryHeadDims valueHeadDims).length = 6 * m.layerCount := by
  rw [layerSlots, List.length_flatMap, sum_length_layers, List.zipIdx_map_fst, layerCount]

theorem getElem?_layerSlots (h : m.Stacked) {heads queryHeadDims valueHeadDims : List Int}
    (layout : m.layout = .second heads queryHeadDims valueHeadDims) {j : Nat} {slot : Slot} :
    (m.layerSlots heads queryHeadDims valueHeadDims)[j]? = some slot ↔
      ∃ i l k layers stack, m.SecondStackAt heads queryHeadDims valueHeadDims i layers stack ∧
        l < layers.toNat ∧ stack.layerSlots[k]? = some slot ∧
        j = 6 * (m.layersBefore i + l) + k := by
  have hbefore (i : Nat) : ((m.layers.zipIdx.take i).map fun x => ((List.replicate x.1.toNat
      (m.stackAt heads queryHeadDims valueHeadDims x.2).layerSlots).flatMap id).length).sum =
        6 * m.layersBefore i := by
    rw [sum_length_layers, List.map_take, List.zipIdx_map_fst, layersBefore]
  rw [layerSlots, getElem?_flatMap_eq_some]
  constructor
  · intro hslot
    obtain ⟨i, x, p, hx, hp, rfl⟩ := hslot
    obtain ⟨l, k, hl, hk, rfl⟩ := getElem?_layers.mp hp
    obtain ⟨layers, hlayers, rfl⟩ : ∃ layers, m.layers[i]? = some layers ∧ (layers, i) = x := by
      simpa [List.getElem?_zipIdx] using hx
    refine ⟨i, l, k, layers, _, (secondStackAt_iff h layout).mpr ⟨hlayers, rfl⟩, hl, hk, ?_⟩
    rw [hbefore]
    omega
  · intro hslot
    obtain ⟨i, l, k, layers, stack, hstack, hl, hk, rfl⟩ := hslot
    obtain ⟨hlayers, rfl⟩ := (secondStackAt_iff h layout).mp hstack
    refine ⟨i, (layers, i), 6 * l + k, ?_, getElem?_layers.mpr ⟨l, k, hl, hk, rfl⟩, ?_⟩
    · simp [List.getElem?_zipIdx, hlayers]
    · rw [hbefore]
      omega

theorem slotAt_second (h : m.Stacked) {heads queryHeadDims valueHeadDims : List Int}
    (layout : m.layout = .second heads queryHeadDims valueHeadDims) {j : Nat} {slot : Slot} :
    m.SlotAt bins j slot ↔ (m.slots bins)[j]? = some slot := by
  have hlength := m.length_layerSlots heads queryHeadDims valueHeadDims
  rw [slots, layout]
  dsimp only
  rw [List.getElem?_append, hlength]
  constructor
  · intro hslot
    cases hslot with
    | first layout' => simp [layout] at layout'
    | layer layout' stack_at layer_lt kind_at =>
        obtain ⟨rfl, rfl, rfl⟩ := Layout.second.inj (layout'.symm.trans layout)
        have hentry := (getElem?_layerSlots h layout).mpr
          ⟨_, _, _, _, _, stack_at, layer_lt, SecondStack.kindAt_iff.mp kind_at, rfl⟩
        have hlt := (List.getElem?_eq_some_iff.mp hentry).1
        rw [if_pos (hlength ▸ hlt), hentry]
    | embedding =>
        rw [if_neg (by omega), Nat.sub_self]
        rfl
    | counter =>
        rw [if_neg (by omega), Nat.add_sub_cancel_left]
        rfl
  · intro hslot
    split at hslot
    · obtain ⟨i, l, k, layers, stack, hstack, hl, hk, rfl⟩ :=
        (getElem?_layerSlots h layout).mp hslot
      exact .layer layout hstack hl (SecondStack.kindAt_iff.mpr hk)
    · obtain ⟨k, rfl⟩ : ∃ k, j = 6 * m.layerCount + k := ⟨j - 6 * m.layerCount, by omega⟩
      rw [Nat.add_sub_cancel_left] at hslot
      match k, hslot with
      | 0, rfl => exact .embedding layout
      | 1, rfl => exact .counter layout

/-- What is said of the slots by their positions is the list of them. -/
theorem slotAt_iff (h : m.Stacked) {j : Nat} {slot : Slot} :
    m.SlotAt bins j slot ↔ (m.slots bins)[j]? = some slot := by
  cases layout : m.layout with
  | first => exact slotAt_first h layout
  | second => exact slotAt_second h layout

/-- What holds of the slots by their positions holds of all in the list. -/
theorem forall_slotAt_iff (h : m.Stacked) {P : Slot → Prop} :
    (∀ j slot, m.SlotAt bins j slot → P slot) ↔ ∀ slot ∈ m.slots bins, P slot := by
  simp only [slotAt_iff h, List.mem_iff_getElem?]
  constructor
  · intro hP slot hslot
    obtain ⟨j, hj⟩ := hslot
    exact hP j slot hj
  · intro hP j slot hj
    exact hP slot ⟨j, hj⟩

theorem length_slots (h : m.Stacked) : (m.slots bins).length = m.stateCount := by
  cases layout : m.layout with
  | first =>
      have hlength := length_firstStacks h layout
      simp only [slots, stateCount, layout, List.length_flatMap, List.length_map, hlength,
        List.map_const', List.sum_replicate]
      rfl
  | second heads queryHeadDims valueHeadDims =>
      simp only [slots, stateCount, layout, List.length_append, length_layerSlots]
      rfl

end Metadata

end SpeechTransducer.Zipformer
