import ScriptMachine.Proofs.Progress.Call

/-! # What may change between two frames

A frame begins over the scope that its function captured (`Machine.Starts`), and only the running frame
changes its scopes. It does so in few ways (`Machine.Rescopes`): it moves on with some of its block scopes
left, opens one, or moves its variables to a record before it has opened any. Registered code stays, and what
functions, frames, call sites and enclosing code refer to is registered (`Machine.Registered`). -/

namespace ScriptMachine

namespace Machine

/-! ### Frames -/

/-- The scope that the function of a frame captured. -/
def captured (m : Machine) (f : Frame) : Option Handle := (m.functionData? f.callee).bind (·.scope)

/-- The variables of a frame have moved to a record, unless its code never asks for that. -/
def HasMoved (m : Machine) (f : Frame) : Prop := ∃ entry, m.code? f.code = some entry ∧
  (f.activation = none → entry.block.needsActivation = false)

/-- **What the running frame does to its scopes.** -/
inductive Rescopes (m : Machine) (f : Frame) : Frame → Prop
  /-- It moves on, with as many block scopes open as before or fewer. -/
  | moves (depth pc : UInt32) : depth ≤ f.scopeDepth →
      Rescopes m f { f with pc, scope := f.headAt m.heap depth.toNat, scopeDepth := depth }
  /-- It opens a block scope, after its variables have moved if they ever do. -/
  | opens (id : Handle) : m.HasMoved f → (m.heap.Roomy → m.heap.link? id = some f.scope) →
      Rescopes m f { f with scope := some id, scopeDepth := f.scopeDepth + 1 }
  /-- Its variables move to a record. -/
  | tears (id : Handle) : f.activation = none → f.scopeDepth = 0 →
      (m.heap.Roomy → m.heap.link? id = some f.scope) →
      Rescopes m f { f with activation := some id, scope := some id }

/-- **A frame that begins**: its function was called, and nothing has happened in it. -/
structure Starts (m : Machine) (id : Handle) (f : Frame) : Prop where
  /-- Its function. -/
  callee : f.callee = .cell id
  /-- It runs registered code. -/
  code : f.code.index < m.codes.size
  /-- Its scope is the one that the function captured. -/
  scope : f.scope = m.captured f
  /-- Its variables have not moved. -/
  activation : f.activation = none
  /-- No block scope is open. -/
  depth : f.scopeDepth = 0

/-! ### Registered code -/

/-- What registered code refers to is registered as well, and its tier code is the lowering of the block. -/
structure Backs (m : Machine) (entry : CodeEntry) : Prop where
  /-- Nested functions. -/
  functions : ∀ code ∈ entry.functions, code.index < m.codes.size
  /-- Tier code. -/
  compiled : ∀ l, entry.compiled = some l → entry.lower = .ok l
  /-- What the call sites remember. -/
  calls : ∀ cache ∈ entry.caches.calls, ∀ callee target, (callee, target) ∈ cache.entries →
    m.Knows target

/-- **Everything that can run is registered.** -/
structure Registered (m : Machine) : Prop where
  /-- Functions. -/
  cells : ∀ id c data, m.heap.cell? id = some c → c.payload = .function data → m.Knows data.target
  /-- Frames. -/
  frames : ∀ f ∈ m.frames, f.code.index < m.codes.size
  /-- Code. -/
  codes : ∀ entry ∈ m.codes, m.Backs entry

/-- **Code is registered, compiled or counted**, or its caches change. -/
structure Recodes (m : Machine) (codes : Array CodeEntry) : Prop where
  /-- Registered code stays. -/
  kept : ∀ (i : Nat) (entry : CodeEntry), m.codes[i]? = some entry →
    ∃ entry' : CodeEntry, codes[i]? = some entry' ∧ entry'.fixed = entry.fixed
  /-- What code refers to is registered, as it was before. -/
  backs : (∀ entry ∈ m.codes, m.Backs entry) → ∀ entry ∈ codes, m.Backs entry

variable {m m' : Machine} {f f' : Frame} {entry entry' : CodeEntry}

theorem Rescopes.callee (h : m.Rescopes f f') : f'.callee = f.callee := by cases h <;> rfl

theorem Rescopes.code (h : m.Rescopes f f') : f'.code = f.code := by cases h <;> rfl

/-- Moving on. -/
theorem Rescopes.goes (m : Machine) (f : Frame) (pc : UInt32) : m.Rescopes f { f with pc } := by
  have h := Rescopes.moves (m := m) (f := f) f.scopeDepth pc UInt32.le_rfl
  rwa [Frame.headAt, Nat.sub_self] at h

/-- Closing a block scope goes one head up the chain. -/
theorem closeScope_eq (hd : f.scopeDepth ≠ 0) : m.closeScope f =
    { f with scope := f.headAt m.heap (f.scopeDepth - 1).toNat, scopeDepth := f.scopeDepth - 1 } := by
  have hless : (f.scopeDepth - 1).toNat = f.scopeDepth.toNat - 1 := toNat_sub_one hd
  have hpos : f.scopeDepth.toNat ≠ 0 := fun h => hd (UInt32.toNat_inj.mp h)
  rw [Frame.headAt, hless, Nat.sub_sub_self (Nat.one_le_iff_ne_zero.mpr hpos)]
  rfl

theorem sub_one_le {depth : UInt32} (hd : depth ≠ 0) : depth - 1 ≤ depth :=
  UInt32.le_iff_toNat_le.mpr (toNat_sub_one hd ▸ Nat.sub_le _ _)

theorem Rescopes.closes (hd : f.scopeDepth ≠ 0) : m.Rescopes f (m.closeScope f) := by
  rw [closeScope_eq hd]
  exact .moves (f.scopeDepth - 1) f.pc (sub_one_le hd)

/-- At a handler as many block scopes are left as it expects, or fewer. -/
theorem resumed_eq (m : Machine) (f : Frame) (handler : Handler) : f.resumed m.heap handler =
    { f with
      pc := handler.target
      scope := f.headAt m.heap (min f.scopeDepth handler.scopeDepth).toNat
      scopeDepth := min f.scopeDepth handler.scopeDepth } := by
  have hhead : f.headAt m.heap (min f.scopeDepth handler.scopeDepth).toNat =
      f.headAt m.heap handler.scopeDepth.toNat := by
    unfold Frame.headAt
    rw [UInt32.toNat_min]
    congr 1
    omega
  rw [hhead]
  rfl

theorem min_le_left (depth other : UInt32) : min depth other ≤ depth :=
  UInt32.le_iff_toNat_le.mpr (by rw [UInt32.toNat_min]; exact Nat.min_le_left _ _)

/-- Continuing at a handler. -/
theorem Rescopes.resumes (m : Machine) (f : Frame) (handler : Handler) :
    m.Rescopes f (f.resumed m.heap handler) := by
  rw [resumed_eq]
  exact .moves _ _ (min_le_left _ _)

theorem Recodes.size_le {codes : Array CodeEntry} (h : m.Recodes codes) : m.codes.size ≤ codes.size := by
  by_contra hlt
  have hlt := Nat.lt_of_not_le hlt
  obtain ⟨entry, hentry, -⟩ := h.kept codes.size _ (Array.getElem?_eq_getElem hlt)
  rw [Array.getElem?_eq_none (Nat.le_refl _)] at hentry
  cases hentry

/-- What is registered stays registered. -/
theorem Knows.mono (hcodes : m.codes.size ≤ m'.codes.size) (hhosts : m.hosts.size ≤ m'.hosts.size)
    {target : CallTarget} (hk : m.Knows target) : m'.Knows target := by
  cases target with
  | script code => exact Nat.lt_of_lt_of_le hk hcodes
  | host function => exact Nat.lt_of_lt_of_le hk hhosts

theorem Backs.mono (hcodes : m.codes.size ≤ m'.codes.size) (hhosts : m.hosts.size ≤ m'.hosts.size)
    (hh : m.Backs entry) : m'.Backs entry :=
  ⟨fun code h => Nat.lt_of_lt_of_le (hh.functions code h) hcodes, hh.compiled,
    fun cache h callee target hmem => (hh.calls cache h callee target hmem).mono hcodes hhosts⟩

/-- Only what is fixed of registered code, its tier code and what its call sites remember matter. -/
theorem Backs.congr (hh : m.Backs entry) (hf : entry'.fixed = entry.fixed)
    (hl : ∀ l, entry'.compiled = some l → entry.lower = .ok l)
    (hcalls : ∀ cache ∈ entry'.caches.calls, ∀ callee target, (callee, target) ∈ cache.entries →
      m.Knows target) : m.Backs entry' := by
  refine ⟨?_, fun l h => ?_, hcalls⟩
  · have hfunctions : entry'.functions = entry.functions := (congrArg CodeEntry.functions hf :)
    rw [hfunctions]
    exact hh.functions
  · rw [CodeEntry.lower_congr hf]
    exact hl l h

/-- **A change of one registered block** that keeps what is fixed. -/
theorem recodes_modify {code : CodeId} {c : CodeEntry → CodeEntry}
    (hfixed : ∀ entry, (c entry).fixed = entry.fixed)
    (hc : ∀ entry, m.code? code = some entry → m.Backs entry → m.Backs (c entry)) :
    m.Recodes (m.modifyCode code c).codes where
  kept i entry hentry := by
    change ∃ entry', (m.codes.modify code.index c)[i]? = some entry' ∧ _
    rw [Array.getElem?_modify, hentry]
    split
    · exact ⟨_, rfl, hfixed entry⟩
    · exact ⟨_, rfl, rfl⟩
  backs h entry hentry := by
    obtain ⟨i, hi⟩ := Array.mem_iff_getElem?.mp hentry
    change (m.codes.modify code.index c)[i]? = some entry at hi
    rw [Array.getElem?_modify] at hi
    split at hi
    case isTrue hcode =>
      obtain ⟨old, hold, rfl⟩ := Option.map_eq_some_iff.mp hi
      exact hc old (by rw [Machine.code?, hcode, hold]) (h old (Array.mem_of_getElem? hold))
    case isFalse => exact h entry (Array.mem_of_getElem? hi)

/-- **Code is added** whose nested functions are registered. -/
theorem recodes_push (hfunctions : ∀ code ∈ entry.functions, code.index < m.codes.size)
    (hcompiled : entry.compiled = none) (hcalls : ∀ cache ∈ entry.caches.calls, cache = .uninitialized) :
    m.Recodes (m.codes.push entry) where
  kept i old hold := by
    have hlt := (Array.getElem?_eq_some_iff.mp hold).1
    exact ⟨old, by rw [Array.getElem?_push, if_neg (Nat.ne_of_lt hlt), hold], rfl⟩
  backs h other hother := by
    rcases Array.mem_push.mp hother with hother | rfl
    · exact h other hother
    · refine ⟨hfunctions, fun l hl => ?_, fun cache hcache callee target hmem => ?_⟩
      · rw [hcompiled] at hl
        cases hl
      · rw [hcalls cache hcache] at hmem
        cases hmem

/-- **Tier code that is chosen** for the running frame is the lowering of registered code, so that it never
asks for variables to be moved. -/
theorem Registered.modest_of_tierUp (hm : m.Registered) {l : Lowered} (h : m.tierUp.1 = some l) :
    l.Modest := by
  unfold tierUp at h
  cases hf : m.frame? with
  | none =>
    rw [hf] at h
    cases h
  | some f =>
    rw [hf] at h
    dsimp only at h
    cases hcode : m.code? f.code with
    | none =>
      rw [hcode] at h
      cases h
    | some entry =>
      rw [hcode] at h
      dsimp only at h
      cases hcompiled : entry.compiled with
      | some lowered =>
        rw [hcompiled] at h
        obtain rfl := Option.some.inj h
        exact CodeEntry.modest_lower ((hm.codes entry (Array.mem_of_getElem? hcode)).compiled _ hcompiled)
      | none =>
        rw [hcompiled] at h
        dsimp only at h
        split at h
        case h_1 => cases h
        case h_2 =>
          split at h
          case isTrue => cases h
          case isFalse => exact CodeEntry.modest_lower (CodeEntry.lower_of_tierCode? h)

/-- Intact machines are registered. -/
theorem Intact.registered (hm : m.Intact) : m.Registered where
  cells id c data hc hp := by
    have h := hm.cells id c hc
    rw [hp] at h
    exact h.1
  frames f hf := (hm.frames f hf).code
  codes entry hentry :=
    have h := hm.codes entry hentry
    ⟨h.functions, h.compiled, h.calls⟩

end Machine

end ScriptMachine
