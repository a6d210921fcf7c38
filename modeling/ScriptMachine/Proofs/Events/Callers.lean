import ScriptMachine.Proofs.Events.Changes
import ScriptMachine.Proofs.Heap.Issue
import ScriptMachine.Proofs.Heap.Preservation

/-! # The names of the callers

A frame is known to the listeners by the name of its function, which is looked up whenever they are told
something. In a regular machine (`Machine.Regular`) the name is the same as long as the frame is there: its
function is a root of every collection, and a handle that names nothing any more will never name anything
again. Hosts may keep such handles and have them called, since call sites remember what they called, so
that the function of a frame need not be live; but its handle has been issued (`Heap.Issued`).

Between a push or a pop and the next, all that happens to a machine is a chain of silent changes
(`Machine.Silent`). They keep a machine regular, and its callers are the same (`Silent.abides`). -/

namespace ScriptMachine

namespace Heap

/-- The handle was issued: it names a cell, or it is spent. -/
def Issued (h : Heap) (id : Handle) : Prop := h.Roomy → h.isLive id = true ∨ h.Spent id

/-- The name of a function is known. -/
def Names (h : Heap) (payload : Payload) : Prop :=
  ∀ data name, payload = .function data → data.name = some name → h.atoms.Knows name

/-- What is true of handles and names for good. -/
structure Outlasts (h h' : Heap) : Prop where
  slots : h.slots.size ≤ h'.slots.size
  issued : ∀ id, h.Issued id → h'.Issued id
  names : h'.atoms.Extends h.atoms

variable {h h' h'' : Heap} {id : Handle}

/-! ### Functions -/

/-- The function that a handle names. -/
def function? (h : Heap) (id : Handle) : Option FunctionData := (h.cell? id).bind Cell.function?

theorem function?_eq_some {data : FunctionData} :
    h.function? id = some data ↔ ∃ c, h.cell? id = some c ∧ c.payload = .function data := by
  simp only [function?, Option.bind_eq_some_iff, Cell.function?]
  refine exists_congr fun c => and_congr_right fun _ => ?_
  split <;> simp_all

theorem Retains.function? (hr : h.Retains h') (id : Handle) : h'.function? id = h.function? id := by
  refine Option.ext fun data => ?_
  have hf := hr.fixtures id
  simp only [function?_eq_some, ← Cell.fixture_eq_function]
  constructor
  · rintro ⟨c', hc', hp⟩
    obtain ⟨c, hc, hsame⟩ := hr.cell? hc'
    exact ⟨c, hc, hsame ▸ hp⟩
  · rintro ⟨c, hc, hp⟩
    rw [hc] at hf
    obtain ⟨c', hc', hsame⟩ := Option.map_eq_some_iff.mp hf
    exact ⟨c', hc', hsame ▸ hp⟩

/-! ### Handles and names -/

theorem Issued.of_outline (hi : h.Issued id) (ho : h'.slots.map Slot.outline = h.slots.map Slot.outline)
    (hf : h'.freeList = h.freeList) : h'.Issued id := by
  have hsize : h'.slots.size = h.slots.size := by
    have := congrArg Array.size ho
    simpa using this
  intro hr
  unfold Roomy at hr
  rw [hsize] at hr
  rw [isLive_outline ho]
  exact (hi hr).imp_right fun hs => hs.outline ho hf

/-- **An allocation** gives a cell to no handle that was issued. -/
theorem Issued.cell?_allocate (hi : h.Issued id) (hl : h.FreeListed) (shape : ShapeId) (payload : Payload)
    (hr : (h.allocate shape payload).2.Roomy) : (h.allocate shape payload).2.cell? id = h.cell? id := by
  rcases hi (Nat.lt_of_le_of_lt (size_le_allocated h shape payload) hr) with hlive | hs
  · obtain ⟨c, hc⟩ := isLive_iff.mp hlive
    rcases allocate_cases h shape payload with ⟨_, heq⟩ | ⟨bytes, hok, -⟩
    · rw [heq]
    · obtain ⟨hnone, hcell⟩ := Heap.cell?_allocate hl hok (Nat.le_of_lt hr)
      rw [hcell, if_neg]
      rintro rfl
      rw [hnone] at hc
      cases hc
  · rw [hs.cell?, (hs.allocate shape payload).cell?]

namespace Outlasts

theorem refl (h : Heap) : h.Outlasts h := ⟨Nat.le_refl _, fun _ hi => hi, .refl _⟩

theorem trans (h₁ : h.Outlasts h') (h₂ : h'.Outlasts h'') : h.Outlasts h'' :=
  ⟨Nat.le_trans h₁.slots h₂.slots, fun id hi => h₂.issued id (h₁.issued id hi), h₂.names.trans h₁.names⟩

theorem roomy (ho : h.Outlasts h') (hr : h'.Roomy) : h.Roomy := Nat.lt_of_le_of_lt ho.slots hr

theorem of_retains (hr : h.Retains h') (he : h'.atoms.Extends h.atoms) : h.Outlasts h' :=
  ⟨Nat.le_of_eq hr.size.symm, fun _ hi => hi.of_outline hr.outline hr.free, he⟩

theorem of_modifyCell (h : Heap) (id : Handle) (f : Cell → Cell) : h.Outlasts (h.modifyCell id f) :=
  ⟨by simp [modifyCell], fun _ hi => hi.of_outline (outline_modifyCell h id f) rfl, .refl _⟩

/-- **An allocation** issues one more handle. -/
theorem of_allocate (hl : h.Roomy → h.FreeListed) (shape : ShapeId) (payload : Payload) :
    h.Outlasts (h.allocate shape payload).2 := by
  have hslots := size_le_allocated h shape payload
  refine ⟨hslots, fun id hi hr => ?_, ?_⟩
  · have hroomy : h.Roomy := Nat.lt_of_le_of_lt hslots hr
    refine (hi hroomy).imp (fun hlive => ?_) fun hs => hs.allocate shape payload
    obtain ⟨c, hc⟩ := isLive_iff.mp hlive
    exact isLive_of_cell? ((hi.cell?_allocate (hl hroomy) shape payload hr).trans hc)
  · rw [(allocate_frame h shape payload).2.1]
    exact .refl _

/-- **A collection** takes the cells from some handles for good. -/
theorem of_collect (hw : h.AllWhite) (hl : h.Roomy → h.FreeListed) (values : List Value)
    (words : List UInt64) : h.Outlasts (h.collect values words).2 := by
  have hsize := size_collect hw values words
  refine ⟨Nat.le_of_eq hsize.symm, fun id hi hr => ?_, ?_⟩
  · have hroomy : h.Roomy := by
      unfold Roomy at hr ⊢
      rwa [hsize] at hr
    rcases hi hroomy with hlive | hs
    · cases hc : (h.collect values words).2.cell? id with
      | some c => exact .inl (isLive_of_cell? hc)
      | none => exact .inr (spent_of_collect hw (hl hroomy) values words hlive hc)
    · exact .inr (hs.collect hw (Nat.le_of_lt hroomy) values words)
  · rw [collect_frame hw]
    exact .refl _

theorem payload (ho : h.Outlasts h') {payload : Payload} (hn : h.Names payload) : h'.Names payload :=
  fun data name hp hname => ho.names.knows (hn data name hp hname)

end Outlasts

end Heap

/-- The handles that the call sites of registered code remember were issued. -/
def CodeEntry.CallsIssued (entry : CodeEntry) (h : Heap) : Prop :=
  ∀ cache ∈ entry.caches.calls, ∀ callee target, (callee, target) ∈ cache.entries → h.Issued callee

theorem CodeEntry.CallsIssued.outlasts {entry : CodeEntry} {h h' : Heap} (hc : entry.CallsIssued h)
    (ho : h.Outlasts h') : entry.CallsIssued h' :=
  fun cache hcache callee target hmem => ho.issued callee (hc cache hcache callee target hmem)

namespace Machine

/-- The functions of the frames, that of the running frame first. -/
def callees (m : Machine) : List Value := m.frames.toList.reverse.map Frame.callee

/-- **The names of the functions that are running**, that of the running frame first. -/
def callers (m : Machine) : List (Option String) := m.callees.map m.functionName?

/-- **A regular machine**: its functions have names, and frames and call sites know handles that were
issued. -/
structure Regular (m : Machine) : Prop where
  /-- No slot is colored. -/
  white : m.heap.AllWhite
  /-- The free list is in order. -/
  listed : m.heap.Roomy → m.heap.FreeListed
  /-- The names are in order. -/
  ordered : m.heap.atoms.Ordered
  /-- Functions. -/
  cells : ∀ id c, m.heap.cell? id = some c → m.heap.Names c.payload
  /-- Frames. -/
  callees : ∀ v ∈ m.callees, ∃ id, v = .cell id ∧ m.heap.Issued id
  /-- Call sites. -/
  codes : ∀ entry ∈ m.codes, entry.CallsIssued m.heap

/-- **A silent change**: no frame is pushed or popped, and nothing is written down. -/
inductive Silent (m : Machine) : Machine → Prop
  /-- An operation on cells. -/
  | heap {h : Heap} : m.heap.Preserves h → Silent m { m with heap := h }
  /-- An allocation. -/
  | allocate (shape : ShapeId) {payload : Payload} : m.heap.Names payload → m.Supplies payload →
      Silent m { m with heap := (m.heap.allocate shape payload).2 }
  /-- A collection. -/
  | collect : Silent m m.collect.2
  /-- Code is registered, compiled or counted, or its caches change. -/
  | recode {codes : Array CodeEntry} : (∀ entry ∈ codes, entry.CallsIssued m.heap) → m.Recodes codes →
      Silent m { m with codes }
  /-- A variable in a scope record is written. -/
  | slot (id : Handle) (index : Nat) (v : Value) : Silent m (m.setScopeSlot id index v)
  /-- The running frame moves on, or changes its scopes. -/
  | frame {f : Frame} {g : Frame → Frame} : m.frame? = some f → m.Rescopes f (g f) →
      Silent m (m.modifyFrame g)
  /-- Something else changes. -/
  | beside {m' : Machine} : m'.heap = m.heap → m'.frames = m.frames → m'.codes = m.codes →
      m'.hosts = m.hosts → m'.journal = m.journal → m'.listeners = m.listeners →
      m'.notifying = m.notifying → m'.intrinsics = m.intrinsics → Silent m m'

/-- What is true of handles, names and code for good. -/
structure Outlasts (m m' : Machine) : Prop where
  heap : m.heap.Outlasts m'.heap
  knows : ∀ target, m.Knows target → m'.Knows target

/-- **What a silent change leaves as it is.** -/
structure Abides (m m' : Machine) : Prop extends m.Outlasts m' where
  regular : m'.Regular
  callees : m'.callees = m.callees
  functions : m'.heap.Roomy → ∀ id, .cell id ∈ m.callees → m'.heap.function? id = m.heap.function? id
  hosts : m'.hosts = m.hosts
  journal : m'.journal = m.journal
  listeners : m'.listeners = m.listeners
  notifying : m'.notifying = m.notifying

variable {m m' m'' : Machine} {id : Handle}

theorem Outlasts.refl (m : Machine) : m.Outlasts m := ⟨.refl _, fun _ h => h⟩

theorem Outlasts.trans (h₁ : m.Outlasts m') (h₂ : m'.Outlasts m'') : m.Outlasts m'' :=
  ⟨h₁.heap.trans h₂.heap, fun target h => h₂.knows target (h₁.knows target h)⟩

/-! ### Functions -/

theorem functionData?_cell (m : Machine) (id : Handle) :
    m.functionData? (.cell id) = m.heap.function? id := by
  unfold functionData? Heap.cellOf? Heap.function?
  rw [Value.cell?_cell]
  dsimp only
  cases m.heap.cell? id <;> rfl

theorem Regular.knows (hm : m.Regular) {data : FunctionData} (hd : m.heap.function? id = some data)
    {name : Atom} (hn : data.name = some name) : m.heap.atoms.Knows name := by
  obtain ⟨c, hc, hp⟩ := Heap.function?_eq_some.mp hd
  exact hm.cells id c hc data name hp hn

/-- **The names of the callers stay.** -/
theorem Abides.callers (ha : m.Abides m') (hm : m.Regular) (hr : m'.heap.Roomy) :
    m'.callers = m.callers := by
  unfold Machine.callers
  rw [ha.callees]
  refine List.map_congr_left fun v hv => ?_
  obtain ⟨id, rfl, -⟩ := hm.callees v hv
  unfold functionName?
  rw [functionData?_cell, functionData?_cell, ha.functions hr id hv]
  cases hd : m.heap.function? id with
  | none => rfl
  | some data =>
    cases hn : data.name with
    | none => simp [hn]
    | some name => simpa [hn, atomName] using ha.heap.names.name (hm.knows hd hn)

/-! ### Regular machines -/

/-- What is regular about frames and call sites stays. -/
theorem Regular.outlasts (hm : m.Regular) (ho : m.heap.Outlasts m'.heap) (hwhite : m'.heap.AllWhite)
    (hlisted : m'.heap.Roomy → m'.heap.FreeListed) (hordered : m'.heap.atoms.Ordered)
    (hcells : ∀ id c, m'.heap.cell? id = some c → m'.heap.Names c.payload)
    (hcallees : ∀ v ∈ m'.callees, v ∈ m.callees) (hcodes : ∀ entry ∈ m'.codes, entry.CallsIssued m.heap) :
    m'.Regular where
  white := hwhite
  listed := hlisted
  ordered := hordered
  cells := hcells
  callees v hv := by
    obtain ⟨id, hid, hi⟩ := hm.callees v (hcallees v hv)
    exact ⟨id, hid, ho.issued id hi⟩
  codes entry hentry := (hcodes entry hentry).outlasts ho

/-- A machine whose heap is the same. -/
theorem Regular.beside (hm : m.Regular) (hheap : m'.heap = m.heap)
    (hcallees : ∀ v ∈ m'.callees, ∃ id, v = .cell id ∧ m.heap.Issued id)
    (hcodes : ∀ entry ∈ m'.codes, entry.CallsIssued m.heap) : m'.Regular := by
  constructor
  all_goals rw [hheap]
  · exact hm.white
  · exact hm.listed
  · exact hm.ordered
  · exact hm.cells
  · exact hcallees
  · exact hcodes

theorem callees_push (m : Machine) (f : Frame) (registers : RegisterFile) :
    callees { m with frames := m.frames.push f, registers } = f.callee :: m.callees := by
  simp [callees]

theorem callees_pop (m : Machine) (registers : RegisterFile) :
    callees { m with frames := m.frames.pop, registers } = m.callees.tail := by
  simp [callees, List.tail_reverse]

theorem callees_modifyFrame {f : Frame} {g : Frame → Frame} (hf : m.frame? = some f)
    (hg : (g f).callee = f.callee) : (m.modifyFrame g).callees = m.callees := by
  obtain ⟨below, hframes⟩ := frame?_eq_some.mp hf
  unfold callees
  rw [frames_modifyFrame hframes, hframes]
  simp [hg]

/-- **A frame is pushed** for a function whose handle was issued. -/
theorem Regular.push (hm : m.Regular) {f : Frame} (hf : f.callee = .cell id) (hi : m.heap.Issued id)
    (registers : RegisterFile) : Regular { m with frames := m.frames.push f, registers } := by
  refine hm.beside rfl (fun v hv => ?_) hm.codes
  rw [callees_push, hf] at hv
  rcases List.mem_cons.mp hv with rfl | hv
  · exact ⟨id, rfl, hi⟩
  · exact hm.callees v hv

/-- **The running frame is popped.** -/
theorem Regular.pop (hm : m.Regular) (registers : RegisterFile) :
    Regular { m with frames := m.frames.pop, registers } := by
  refine hm.beside rfl (fun v hv => hm.callees v ?_) hm.codes
  rw [callees_pop] at hv
  exact List.mem_of_mem_tail hv

/-! ### Silent changes -/

/-- A change of the heap that keeps the functions of the frames. -/
theorem Regular.abides_heap (hm : m.Regular) {h : Heap} (ho : m.heap.Outlasts h) (hwhite : h.AllWhite)
    (hlisted : h.Roomy → h.FreeListed) (hordered : h.atoms.Ordered)
    (hcells : ∀ id c, h.cell? id = some c → h.Names c.payload)
    (hfunctions : h.Roomy → ∀ id, .cell id ∈ m.callees → h.function? id = m.heap.function? id) :
    m.Abides { m with heap := h } where
  regular := hm.outlasts ho hwhite hlisted hordered hcells (fun _ hv => hv) hm.codes
  heap := ho
  knows _ hk := hk
  callees := rfl
  functions := hfunctions
  hosts := rfl
  journal := rfl
  listeners := rfl
  notifying := rfl

/-- A change of cells that keeps all functions. -/
theorem Regular.abides_cells (hm : m.Regular) {h : Heap} (ho : m.heap.Outlasts h) (hwhite : h.AllWhite)
    (hlisted : h.Roomy → h.FreeListed) (hordered : h.atoms.Ordered)
    (hsame : ∀ id, h.function? id = m.heap.function? id) : m.Abides { m with heap := h } := by
  refine hm.abides_heap ho hwhite hlisted hordered (fun id c hc data name hp hn => ?_)
    fun _ id _ => hsame id
  have hd : m.heap.function? id = some data := by
    rw [← hsame]
    exact Heap.function?_eq_some.mpr ⟨c, hc, hp⟩
  exact ho.names.knows (hm.knows hd hn)

/-- A change that keeps all payloads and names. -/
theorem Regular.abides_retains (hm : m.Regular) {h : Heap} (hr : m.heap.Retains h) (ho : h.atoms.Ordered)
    (he : h.atoms.Extends m.heap.atoms) : m.Abides { m with heap := h } := by
  have hlater := Heap.Outlasts.of_retains hr he
  exact hm.abides_cells hlater (hr.white hm.white) (fun hroomy => hr.listed (hm.listed (hlater.roomy hroomy))) ho
    hr.function?

/-- A write of a variable changes no function. -/
theorem function?_setScopeSlot (m : Machine) (id : Handle) (index : Nat) (v : Value) (other : Handle) :
    (m.setScopeSlot id index v).heap.function? other = m.heap.function? other := by
  unfold setScopeSlot Heap.function?
  rw [Heap.cell?_modifyCell]
  split
  case isFalse => rfl
  case isTrue hid =>
    subst hid
    cases m.heap.cell? other with
    | none => rfl
    | some c =>
      rcases c with ⟨_, _, _, payload⟩
      cases payload <;> rfl

/-- **A variable is written.** -/
theorem Regular.abides_setScopeSlot (hm : m.Regular) (id : Handle) (index : Nat) (v : Value) :
    m.Abides (m.setScopeSlot id index v) := by
  refine hm.abides_cells (.of_modifyCell _ _ _) (hm.white.modifyCell _)
    (fun hr => (hm.listed ?_).modifyCell _) hm.ordered (function?_setScopeSlot m id index v)
  exact (Heap.Outlasts.of_modifyCell _ _ _).roomy hr

/-- **An allocation.** -/
theorem Regular.abides_allocate (hm : m.Regular) (shape : ShapeId) {payload : Payload}
    (hp : m.heap.Names payload) :
    m.Abides { m with heap := (m.heap.allocate shape payload).2 } := by
  have ho := Heap.Outlasts.of_allocate hm.listed shape payload
  refine hm.abides_heap ho (hm.white.allocate shape payload)
    (fun hr => (hm.listed (ho.roomy hr)).allocate (Nat.le_of_lt hr)) ?_ (fun id c hc => ?_)
    fun hr id hv => ?_
  · rw [(Heap.allocate_frame m.heap shape payload).2.1]
    exact hm.ordered
  · refine ho.payload ?_
    rcases Heap.cell?_allocate_cases hc with hold | hnew
    · exact hm.cells id c hold
    · rwa [hnew]
  · -- the new cell is not one of the functions: their handles name cells already, or are spent
    have hroomy := ho.roomy hr
    obtain ⟨id', hid, hi⟩ := hm.callees _ hv
    obtain rfl := Value.cell_inj.mp hid
    rcases hi hroomy with hlive | hs
    · obtain ⟨c, hc⟩ := Heap.isLive_iff.mp hlive
      rcases Heap.allocate_cases m.heap shape payload with ⟨_, heq⟩ | ⟨bytes, hok, -⟩
      · rw [heq]
      · obtain ⟨hnone, hcell⟩ := Heap.cell?_allocate (hm.listed hroomy) hok (Nat.le_of_lt hr)
        unfold Heap.function?
        rw [hcell, if_neg]
        rintro rfl
        rw [hnone] at hc
        cases hc
    · unfold Heap.function?
      rw [hs.cell?, (hs.allocate shape payload).cell?]

/-- **A collection** finds the functions of the frames. -/
theorem Regular.abides_collect (hm : m.Regular) : m.Abides m.collect.2 := by
  obtain ⟨forget, hforget, heq⟩ := collect_frame m
  let h := (m.heap.collect m.roots m.rootWords).2
  have ho : m.heap.Outlasts h := .of_collect hm.white hm.listed _ _
  have hcell {id : Handle} {c : Cell} : h.cell? id = some c ↔
      m.heap.cell? id = some c ∧ m.heap.Reachable m.anchors id := Heap.cell?_collect hm.white _ _
  have hheap : m.Abides { m with heap := h } := by
    refine hm.abides_heap ho (hm.white.collect _ _)
      (fun hr => (hm.listed (ho.roomy hr)).collect hm.white _ _) ?_
      (fun id c hc => ho.payload (hm.cells id c (hcell.mp hc).1)) fun hr id hv => ?_
    · change (m.heap.collect m.roots m.rootWords).2.atoms.Ordered
      rw [Heap.collect_frame hm.white]
      exact hm.ordered
    · have hroot : Value.cell id ∈ m.anchors := by
        obtain ⟨f, hf, hcallee⟩ := List.mem_map.mp hv
        rw [List.mem_reverse, Array.mem_toList_iff] at hf
        exact mem_anchors.mpr (.inl (mem_roots.mpr (.inr (.inl ⟨f, hf, mem_frameRoots.mpr
          (.inl hcallee.symm)⟩))))
      refine Option.ext fun data => ?_
      rw [Heap.function?_eq_some, Heap.function?_eq_some]
      refine exists_congr fun c => and_congr_left fun _ => ⟨fun hc => (hcell.mp hc).1, fun hc => ?_⟩
      exact hcell.mpr ⟨hc, .root hroot (Heap.isLive_of_cell? hc)⟩
  rw [heq]
  have hsize : m.codes.size ≤ (m.codes.map forget).size := Nat.le_of_eq (Array.size_map ..).symm
  have hknows : ∀ target, m.Knows target → Machine.Knows { m with codes := m.codes.map forget } target := by
    intro target hk
    refine Knows.mono ?_ ?_ hk
    · exact hsize
    · exact Nat.le_refl _
  refine { hheap with knows := hknows, regular := ?_ }
  refine hheap.regular.beside rfl hheap.regular.callees fun entry hentry => ?_
  obtain ⟨old, hold, rfl⟩ := Array.mem_map.mp hentry
  rw [hforget old]
  exact hheap.regular.codes old hold

/-- A change of neither the heap nor the functions of the frames. -/
theorem Regular.abides_beside (hm : m.Regular) (hheap : m'.heap = m.heap) (hcallees : m'.callees = m.callees)
    (hsize : m.codes.size ≤ m'.codes.size) (hcodes : ∀ entry ∈ m'.codes, entry.CallsIssued m.heap)
    (hhosts : m'.hosts = m.hosts) (hjournal : m'.journal = m.journal)
    (hlisteners : m'.listeners = m.listeners) (hnotifying : m'.notifying = m.notifying) : m.Abides m' where
  heap := by rw [hheap]; exact .refl _
  knows _ hk := hk.mono hsize (by rw [hhosts])
  regular := hm.beside hheap (by rw [hcallees]; exact hm.callees) hcodes
  callees := hcallees
  functions _ id _ := by rw [hheap]
  hosts := hhosts
  journal := hjournal
  listeners := hlisteners
  notifying := hnotifying

/-- **The running frame changes**, but not its function. -/
theorem Regular.abides_modifyFrame (hm : m.Regular) {f : Frame} {g : Frame → Frame} (hf : m.frame? = some f)
    (hg : (g f).callee = f.callee) : m.Abides (m.modifyFrame g) :=
  hm.abides_beside rfl (callees_modifyFrame hf hg) (Nat.le_refl _) hm.codes rfl rfl rfl rfl

/-- **What a silent change leaves as it is.** -/
theorem Silent.abides (hm : m.Regular) (hs : m.Silent m') : m.Abides m' := by
  cases hs with
  | heap hp =>
    obtain ⟨ho, he⟩ := hp.names hm.ordered
    exact hm.abides_retains hp.retains ho he
  | allocate shape hp _ => exact hm.abides_allocate shape hp
  | collect => exact hm.abides_collect
  | recode hc hr => exact hm.abides_beside rfl rfl hr.size_le hc rfl rfl rfl rfl
  | slot id index v => exact hm.abides_setScopeSlot id index v
  | frame hf hg => exact hm.abides_modifyFrame hf hg.callee
  | beside hheap hframes hcodes hhosts hjournal hlisteners hnotifying _ =>
    refine hm.abides_beside hheap ?_ (by rw [hcodes]) (by rw [hcodes]; exact hm.codes) hhosts hjournal
      hlisteners hnotifying
    unfold Machine.callees
    rw [hframes]

/-! ### Registered machines -/

/-- Functions, frames and code that were registered before. -/
theorem Registered.later (hsize : m.codes.size ≤ m'.codes.size) (hhosts : m.hosts.size ≤ m'.hosts.size)
    (hcells : ∀ id c data, m'.heap.cell? id = some c → c.payload = .function data → m.Knows data.target)
    (hframes : ∀ f ∈ m'.frames, f.code.index < m.codes.size) (hcodes : ∀ entry ∈ m'.codes, m.Backs entry) :
    m'.Registered :=
  ⟨fun id c data hc hp => (hcells id c data hc hp).mono hsize hhosts,
    fun f hf => Nat.lt_of_lt_of_le (hframes f hf) hsize,
    fun entry hentry => (hcodes entry hentry).mono hsize hhosts⟩

/-- The running frame changes, but not its code. -/
theorem Registered.modifyFrame (hm : m.Registered) {f : Frame} {g : Frame → Frame} (hf : m.frame? = some f)
    (hg : (g f).code = f.code) : (m.modifyFrame g).Registered := by
  obtain ⟨below, hframes⟩ := frame?_eq_some.mp hf
  refine .later (m := m) (Nat.le_refl _) (Nat.le_refl _) hm.cells (fun k hk => ?_) hm.codes
  rw [frames_modifyFrame hframes] at hk
  rcases Array.mem_push.mp hk with hk | rfl
  · exact hm.frames k (by rw [hframes]; exact Array.mem_push.mpr (.inl hk))
  · rw [hg]
    exact hm.frames f (Array.mem_of_back? hf)

/-- Only frames of registered code are new. -/
theorem Registered.beside (hm : m.Registered) (hheap : m'.heap = m.heap) (hcodes : m'.codes = m.codes)
    (hhosts : m.hosts.size ≤ m'.hosts.size) (hframes : ∀ f ∈ m'.frames, f.code.index < m.codes.size) :
    m'.Registered :=
  .later (by rw [hcodes]) hhosts (by rw [hheap]; exact hm.cells) hframes (by rw [hcodes]; exact hm.codes)

theorem Registered.push (hm : m.Registered) {f : Frame} (hf : f.code.index < m.codes.size)
    (registers : RegisterFile) : Registered { m with frames := m.frames.push f, registers } := by
  refine hm.beside rfl rfl (Nat.le_refl _) fun k hk => ?_
  rcases Array.mem_push.mp hk with hk | rfl
  · exact hm.frames k hk
  · exact hf

theorem Registered.pop (hm : m.Registered) (registers : RegisterFile) :
    Registered { m with frames := m.frames.pop, registers } := by
  refine hm.beside rfl rfl (Nat.le_refl _) fun f hf => hm.frames f ?_
  rw [← Array.mem_toList_iff, Array.toList_pop] at hf
  exact Array.mem_toList_iff.mp (List.dropLast_subset _ hf)

theorem Registered.retains (hm : m.Registered) {h : Heap} (hr : m.heap.Retains h) :
    Registered { m with heap := h } := by
  refine .later (m := m) (Nat.le_refl _) (Nat.le_refl _) (fun id c data hc hpayload => ?_) hm.frames hm.codes
  obtain ⟨old, hold, hsame⟩ := hr.cell? hc
  refine hm.cells id old data hold (Cell.fixture_eq_function.mp ?_)
  rw [← hsame]
  exact Cell.fixture_eq_function.mpr hpayload

/-- **A silent change keeps everything registered.** -/
theorem Silent.registered (hregular : m.Regular) (hm : m.Registered) (hs : m.Silent m') : m'.Registered := by
  cases hs with
  | heap hp => exact hm.retains hp.retains
  | allocate shape _ hsupplied =>
    refine .later (m := m) (Nat.le_refl _) (Nat.le_refl _) (fun id c data hc hpayload => ?_) hm.frames hm.codes
    rcases Heap.cell?_allocate_cases hc with hold | hnew
    · exact hm.cells id c data hold hpayload
    · rw [hnew] at hpayload
      rw [hpayload] at hsupplied
      exact hsupplied.1
  | collect =>
    obtain ⟨forget, hforget, heq⟩ := collect_frame m
    rw [heq]
    have hsize : m.codes.size ≤ (m.codes.map forget).size := Nat.le_of_eq (Array.size_map ..).symm
    refine .later (m := m) hsize (Nat.le_refl _) (fun id c data hc => ?_) hm.frames fun entry hentry => ?_
    · exact hm.cells id c data ((Heap.cell?_collect hregular.white _ _).mp hc).1
    · obtain ⟨old, hold, rfl⟩ := Array.mem_map.mp hentry
      have hbacks := hm.codes old hold
      rw [hforget old]
      exact ⟨hbacks.functions, hbacks.compiled, hbacks.calls⟩
  | recode _ hr => exact .later (m := m) hr.size_le (Nat.le_refl _) hm.cells hm.frames (hr.backs hm.codes)
  | slot id index v =>
    refine .later (m := m) (Nat.le_refl _) (Nat.le_refl _) (fun other c data hc hpayload => ?_) hm.frames hm.codes
    have hdata := Heap.function?_eq_some.mpr ⟨c, hc, hpayload⟩
    rw [function?_setScopeSlot] at hdata
    obtain ⟨old, hold, hp⟩ := Heap.function?_eq_some.mp hdata
    exact hm.cells other old data hold hp
  | frame hf hg => exact hm.modifyFrame hf hg.code
  | beside hheap hframes hcodes hhosts _ _ _ _ =>
    exact hm.beside hheap hcodes (by rw [hhosts]) (by rw [hframes]; exact hm.frames)

end Machine

end ScriptMachine
