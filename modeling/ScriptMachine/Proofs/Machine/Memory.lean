import ScriptMachine.Proofs.Heap.Budget
import ScriptMachine.Proofs.Tandem.Allocation

/-! # The end of memory

A machine runs out of memory only when a collection did not help. An allocation estimates the bytes of the
cell and compares them with the limit before it collects; the heap counts the room of the cell and compares
again afterwards. The two agree just for payloads without spare room (`Payload.exact_iff`), and the machine
allocates no others. A write to elements is tried, and tried again after a collection. Both have one outcome
(`Genuine`): where memory ended, the machine is the one that a full collection leaves, and the bytes do not
fit in it; a request whose bytes fit from the start never gets there (`out_of_memory_is_genuine`). -/

namespace ScriptMachine

open Machine

variable {α : Type} {env : Env} {m k : Machine} {n : Nat}

/-- **What a run that asks for so many bytes says of the end of memory.** -/
structure Genuine (m : Machine) (n : Nat) (r : EStateM.Result Stop Machine α) : Prop where
  /-- Memory ends after a full collection, when the bytes still do not fit. -/
  refused : ∀ limit m', r = .error (.unwound (.fatal (.outOfMemory limit))) m' →
    m' = m.collect.2 ∧ limit = m.heap.limits.maxBytes ∧ limit < m'.heap.liveBytes + n
  /-- It does not end when the bytes fit before. -/
  granted : m.heap.liveBytes + n ≤ m.heap.limits.maxBytes →
    ∀ limit m', r ≠ .error (.unwound (.fatal (.outOfMemory limit))) m'

/-- What a full collection keeps of the heap. -/
theorem Machine.collect_heap_keeps (m : Machine) :
    m.collect.2.heap.limits = m.heap.limits ∧ m.collect.2.heap.liveBytes ≤ m.heap.liveBytes ∧
    ∀ id, (m.collect.2.heap.shapes.get id).slotCount ≤ (m.heap.shapes.get id).slotCount := by
  rw [heap_collect]
  obtain ⟨-, hlimits, hbytes, hslots, -⟩ := Heap.collect_keeps m.heap m.roots m.rootWords
  exact ⟨hlimits, hbytes, hslots⟩

namespace Genuine

theorem ok (a : α) : Genuine m n (.ok a k) :=
  ⟨fun _ _ h => (by cases h), fun _ _ _ h => by cases h⟩

theorem paused (held : List Value) :
    Genuine m n (.error (.paused held) k : EStateM.Result Stop Machine α) :=
  ⟨fun _ _ h => (by cases h), fun _ _ _ h => by cases h⟩

theorem stale : Genuine m n (.error (.unwound (.fatal .staleHandle)) k : EStateM.Result Stop Machine α) :=
  ⟨fun _ _ h => (by cases h), fun _ _ _ h => by cases h⟩

/-- Memory ends for a request that does not fit after a collection. It did not fit before. -/
theorem collected (hk : k = m.collect.2) (hmore : k.heap.limits.maxBytes < k.heap.liveBytes + n) :
    Genuine m n (.error (.unwound (.fatal (.outOfMemory k.heap.limits.maxBytes))) k :
      EStateM.Result Stop Machine α) := by
  obtain ⟨hlimits, hbytes, -⟩ := m.collect_heap_keeps
  rw [← hk] at hlimits hbytes
  rw [hlimits] at hmore ⊢
  refine ⟨fun limit m' h => ?_, fun hfits => ?_⟩
  · obtain ⟨hstop, rfl⟩ := EStateM.Result.error.inj h
    cases hstop
    exact ⟨hk, rfl, hmore⟩
  · exact absurd (Nat.le_trans (Nat.add_le_add_right hbytes n) hfits) (Nat.not_le_of_lt hmore)

end Genuine

/-! ### Allocations -/

/-- **The estimate is what will be charged** just for a payload without spare room. -/
theorem Payload.exact_iff {payload : Payload} : payload.Exact ↔ payload.estimate = payload.bytes := by
  cases payload with
  | plain | array _ | function _ => exact iff_of_true trivial rfl
  | string data => exact eq_comm
  | activation scope capacity =>
    have hpos : 0 < valueBytes := by decide
    exact eq_comm.trans (Nat.mul_left_inj (Nat.pos_iff_ne_zero.mp hpos)).symm

/-- The placing of a cell is stopped, or refused because the bytes do not fit, or done. -/
theorem allocateCell_fits {shape : ShapeId} (hs : (k.heap.shapes.get shape).slotCount ≤ inlineSlots)
    (payload : Payload) (env : Env) :
    (∃ held, allocateCell shape payload env k = .error (.paused held) k) ∨
    (k.heap.limits.maxBytes < k.heap.liveBytes + (cellBytes + payload.bytes) ∧
      allocateCell shape payload env k =
        .error (.unwound (.fatal (.outOfMemory k.heap.limits.maxBytes))) k) ∨
    k.heap.liveBytes + (cellBytes + payload.bytes) ≤ k.heap.limits.maxBytes ∧
      ∃ id k', allocateCell shape payload env k = .ok id k' := by
  unfold allocateCell
  cases hp : env.pause k payload.references with
  | true =>
    have heq : checkpoint payload.references env k = .error (.paused payload.references) k := by
      simp [checkpoint, hp]
    exact .inl ⟨_, bind_eq_of_error heq⟩
  | false =>
    have heq : checkpoint payload.references env k = .ok () k := by simp [checkpoint, hp]
    have hstep : (withHeap (·.allocate shape payload) : MachineM _) env k =
        .ok (k.heap.allocate shape payload).1 { k with heap := (k.heap.allocate shape payload).2 } :=
      rfl
    rw [bind_eq_of_ok heq, bind_eq_of_ok hstep]
    right
    rcases Heap.allocate_fits hs payload with ⟨hmore, hrefused⟩ | ⟨hfits, id, hok⟩
    · rw [hrefused]
      exact .inl ⟨hmore, rfl⟩
    · rw [hok]
      exact .inr ⟨hfits, id, _, rfl⟩

/-- **An allocation** on a shape without overflow. -/
theorem Genuine.allocate {shape : ShapeId} (hs : (m.heap.shapes.get shape).slotCount ≤ inlineSlots)
    {payload : Payload} (hexact : payload.Exact) (env : Env) :
    Genuine m (cellBytes + payload.bytes) (allocate shape payload hexact env m) := by
  obtain ⟨-, -, hslots⟩ := m.collect_heap_keeps
  unfold ScriptMachine.allocate
  cases hp : env.pause m payload.references with
  | true =>
    have heq : checkpoint payload.references env m = .error (.paused payload.references) m := by
      simp [checkpoint, hp]
    rw [bind_eq_of_error heq]
    exact .paused _
  | false =>
    have heq : checkpoint payload.references env m = .ok () m := by simp [checkpoint, hp]
    rw [bind_eq_of_ok heq, get_bind]
    dsimp only
    split
    case isTrue =>
      change Genuine m _ (allocateCell shape payload env m.collect.2)
      rcases allocateCell_fits (Nat.le_trans (hslots shape) hs) payload env with
        ⟨held, heq⟩ | ⟨hmore, heq⟩ | ⟨-, id, k', heq⟩
      · rw [heq]
        exact .paused _
      · rw [heq]
        exact .collected rfl hmore
      · rw [heq]
        exact .ok _
    case isFalse hroom =>
      change Genuine m _ (allocateCell shape payload env m)
      simp only [Bool.or_eq_true, decide_eq_true_eq, not_or, Payload.exact_iff.mp hexact] at hroom
      rcases allocateCell_fits hs payload env with ⟨held, heq⟩ | ⟨hmore, -⟩ | ⟨-, id, k', heq⟩
      · rw [heq]
        exact .paused _
      · exact absurd hmore hroom.2
      · rw [heq]
        exact .ok _

/-! ### Writes -/

/-- **A write is tried, and tried again after a collection** if there is no memory. -/
theorem heapWrite_eq {x : HeapM α} (hs : ∀ fault h, x m.heap = .error fault h → h = m.heap)
    (held : List Value) (env : Env) : heapWrite held x env m =
      if env.pause m held then .error (.paused held) m
      else match x m.heap with
        | .ok a h => .ok a { m with heap := h }
        | .error .outOfMemory _ =>
          if env.pause m.collect.2 held then .error (.paused held) m.collect.2
          else runHeap x env m.collect.2
        | .error fault _ => (propertyFault fault : MachineM α) env m := by
  unfold ScriptMachine.heapWrite
  cases hp : env.pause m held with
  | true =>
    have heq : checkpoint held env m = .error (.paused held) m := by simp [checkpoint, hp]
    rw [bind_eq_of_error heq, if_pos rfl]
  | false =>
    have heq : checkpoint held env m = .ok () m := by simp [checkpoint, hp]
    have htry := tryHeap_eq x env m
    rw [bind_eq_of_ok heq, if_neg Bool.false_ne_true]
    cases hr : x m.heap with
    | ok a h =>
      rw [hr] at htry
      exact bind_eq_of_ok htry
    | error fault h =>
      rw [hr] at htry
      rw [bind_eq_of_ok htry, hs fault h hr]
      cases fault with
      | outOfMemory =>
        have hcollect : discard collectGarbage env m = .ok () m.collect.2 := rfl
        dsimp only
        rw [bind_eq_of_ok hcollect]
        cases hp : env.pause m.collect.2 held with
        | true =>
          have heq : checkpoint held env m.collect.2 = .error (.paused held) m.collect.2 := by
            simp [checkpoint, hp]
          exact bind_eq_of_error heq
        | false =>
          have heq : checkpoint held env m.collect.2 = .ok () m.collect.2 := by simp [checkpoint, hp]
          exact bind_eq_of_ok heq
      | staleHandle | prototypeCycle | prototypeChainTooLong | invalidPrototype
      | invalidArrayLength => rfl

/-- **A write that is tried again after a collection**, if its failures are explained both times. -/
theorem Genuine.heapWrite {x : HeapM α} (hx : Heap.Explained n x m.heap)
    (hx' : Heap.Explained n x m.collect.2.heap) (held : List Value) (env : Env) :
    Genuine m n (heapWrite held x env m) := by
  rw [heapWrite_eq fun fault h hr => (hx fault h hr).1]
  split
  case isTrue => exact .paused _
  case isFalse =>
    split
    case h_1 => exact .ok _
    case h_2 =>
      split
      case isTrue => exact .paused _
      case isFalse =>
        -- The collected machine is named, or it would be computed in what follows.
        obtain ⟨k, hk⟩ : ∃ k, k = m.collect.2 := ⟨_, rfl⟩
        rw [Meets.runHeap_eq, ← hk]
        rw [← hk] at hx'
        cases hr : x k.heap with
        | ok a h => exact .ok _
        | error fault h =>
          obtain ⟨rfl, rfl | ⟨rfl, -, hmore⟩⟩ := hx' fault h hr
          · exact .stale
          · exact .collected hk hmore
    case h_3 fault h hne hr =>
      obtain ⟨-, rfl | ⟨rfl, -, -⟩⟩ := hx fault h hr
      · exact .stale
      · exact (hne rfl).elim

/-- **A write to an index.** -/
theorem Genuine.setIndex (id : Handle) (index : UInt32) (value : Value) (held : List Value)
    (env : Env) : Genuine m (m.heap.indexBytes id index)
      (ScriptMachine.heapWrite held (Heap.setIndex id index value) env m) := by
  refine .heapWrite (Heap.setIndex_explained index value) ?_ held env
  rw [heap_collect]
  cases hcell : (m.heap.collect m.roots m.rootWords).2.cell? id with
  | none => exact Heap.explained_of_stale _ hcell
  | some c =>
    rw [← (Heap.bytes_collect hcell).1 index]
    exact Heap.setIndex_explained index value

/-- **A write to a property** that asks for bytes. -/
theorem Genuine.setProperty {id : Handle} {name : Atom} {value : Value}
    (hpos : 0 < m.heap.propertyBytes id name value) (held : List Value) (env : Env) :
    Genuine m (m.heap.propertyBytes id name value)
      (ScriptMachine.heapWrite held (Heap.setProperty id name value) env m) := by
  refine .heapWrite (Heap.setProperty_explained hpos) ?_ held env
  rw [heap_collect]
  cases hcell : (m.heap.collect m.roots m.rootWords).2.cell? id with
  | none => exact Heap.explained_of_stale _ hcell
  | some c =>
    rw [← (Heap.bytes_collect hcell).2 name value] at hpos ⊢
    exact Heap.setProperty_explained hpos

/-! ### The end of memory -/

/-- **Out of memory is never spurious.** For every machine, wherever it is stopped:

* an allocation of any kind of cell, as the machine makes them, on a shape whose slots lie inside of the cell,
  as a root shape's do,
* a write to an index, and
* a write to a property that makes the elements of an array grow

ends for want of memory only if a full collection of this very machine has run, from all its roots, and
the bytes that were asked for still do not fit below the limit. It does not when they fit before. -/
theorem out_of_memory_is_genuine (env : Env) (m : Machine) :
    (∀ shape payload (hexact : payload.Exact), (m.heap.shapes.get shape).slotCount ≤ inlineSlots →
      Genuine m (cellBytes + payload.bytes) (allocate shape payload hexact env m)) ∧
    (∀ id index value held, Genuine m (m.heap.indexBytes id index)
      (heapWrite held (Heap.setIndex id index value) env m)) ∧
    ∀ id name value held, 0 < m.heap.propertyBytes id name value →
      Genuine m (m.heap.propertyBytes id name value)
        (heapWrite held (Heap.setProperty id name value) env m) :=
  ⟨fun _ _ hexact hs => .allocate hs hexact env,
    fun id index value held => .setIndex id index value held env,
    fun _ _ _ held hpos => .setProperty hpos held env⟩

/-- A machine whose memory is taken by an array without elements. -/
def cramped : Machine where
  config := {}
  heap := { Heap.new { maxBytes := 136 } with
    slots := #[{ bytes := 136, cell := some (Cell.new ⟨0⟩ 0 (.array {})) }]
    shapes := { shapes := #[{ kind := .array, prototype := .null }] }
    atoms := { entries := #[⟨"length", none⟩] }
    liveBytes := 136
    liveCells := 1
    temporaries := #[.cell ⟨0, 0⟩] }
  registers := { registers := #[], capacity := 10 }
  intrinsics := default
  names := default
  watchdog := .new none 1

/-- The limit of the memory that has ended. -/
def endOfMemory? {α : Type} : EStateM.Result Stop Machine α → Option Nat
  | .error (.unwound (.fatal (.outOfMemory limit))) _ => some limit
  | _ => none

theorem eq_of_endOfMemory? {r : EStateM.Result Stop Machine α} {limit : Nat}
    (hr : endOfMemory? r = some limit) :
    ∃ m', r = .error (.unwound (.fatal (.outOfMemory limit))) m' := by
  unfold endOfMemory? at hr
  split at hr
  · obtain rfl := Option.some.inj hr
    exact ⟨_, rfl⟩
  · cases hr

/-- There is no memory for another object, nor for five elements. -/
theorem out_of_memory_is_genuine_cramped :
    let env : Env := { reenter := fun _ m => .error .exhausted m, fuel := 0 }
    let write : HeapM PutOutcome := Heap.setProperty ⟨0, 0⟩ ⟨0⟩ (.ofNat 5)
    (cramped.heap.shapes.get ⟨0⟩).slotCount ≤ inlineSlots ∧
    cramped.heap.propertyBytes ⟨0, 0⟩ ⟨0⟩ (.ofNat 5) = 40 ∧
    (∃ m', (allocate ⟨0⟩ .plain) env cramped = .error (.unwound (.fatal (.outOfMemory 136))) m' ∧
      m' = cramped.collect.2 ∧ 136 < m'.heap.liveBytes + 136) ∧
    ∃ m', heapWrite [.cell ⟨0, 0⟩] write env cramped =
        .error (.unwound (.fatal (.outOfMemory 136))) m' ∧
      m' = cramped.collect.2 ∧ 136 < m'.heap.liveBytes + 40 := by
  intro env write
  have hshape : (cramped.heap.shapes.get ⟨0⟩).slotCount ≤ inlineSlots := by decide
  have hbytes : cramped.heap.propertyBytes ⟨0, 0⟩ ⟨0⟩ (.ofNat 5) = 40 := by decide +kernel
  obtain ⟨hallocate, -, hwrite⟩ := out_of_memory_is_genuine env cramped
  obtain ⟨m₁, hm₁⟩ := @eq_of_endOfMemory? _ ((allocate ⟨0⟩ .plain) env cramped) 136
    (by decide +kernel)
  obtain ⟨m₂, hm₂⟩ := @eq_of_endOfMemory? _ (heapWrite [.cell ⟨0, 0⟩] write env cramped) 136
    (by decide +kernel)
  have h₁ := (hallocate ⟨0⟩ .plain trivial hshape).refused 136 m₁ hm₁
  have h₂ := (hwrite ⟨0, 0⟩ ⟨0⟩ (.ofNat 5) [.cell ⟨0, 0⟩] (by rw [hbytes]; decide)).refused 136 m₂ hm₂
  rw [hbytes] at h₂
  exact ⟨hshape, hbytes, ⟨m₁, hm₁, h₁.1, h₁.2.2⟩, m₂, hm₂, h₂.1, h₂.2.2⟩

end ScriptMachine
