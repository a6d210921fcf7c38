import ScriptMachine.Proofs.Machine.PropertyCache

/-! # Machines without property caches

`Machine.uncached` is a machine with caching turned off and its property caches emptied. An action is
transparent on a machine (`Agrees`) when it keeps the machine sound and does on the uncached machine
what it does on the machine itself: the same result, the same failure, and the uncached form of the
state it leaves. Sequences of transparent actions are transparent (`Agrees.bind`), and so are the
actions that look at nothing but the heap. -/

namespace ScriptMachine

/-- Registered code with empty property caches. -/
def CodeEntry.uncached (c : CodeEntry) : CodeEntry :=
  { c with caches := { c.caches with properties := c.caches.properties.map fun _ => .uninitialized } }

namespace Machine

/-- A machine that does not cache properties. -/
def uncached (m : Machine) : Machine :=
  { m with config := { m.config with inlineCaching := false }
           codes := m.codes.map CodeEntry.uncached }

/-- The names of property sites. -/
abbrev SiteNames := CodeId → Nat → String

/-- **A sound machine**: its heap is coherent, its intrinsics are in place, nobody listens, and its
caches are valid for the names of their sites. -/
structure Sound (names : SiteNames) (m : Machine) : Prop where
  /-- The heap is coherent. -/
  heap : m.heap.Coherent
  /-- The intrinsics are in place. -/
  anchored : m.Anchored
  /-- Nobody listens. -/
  quiet : m.listeners = #[]
  /-- The caches are valid. -/
  caches : m.Remembers fun code index name => m.heap.atoms.get? (names code index) = some name

variable {m m' : Machine} {names : SiteNames}

theorem Sound.evolves (hs : m.Sound names) (hh : m'.heap.Coherent) (he : m.heap.Evolves m'.heap)
    (hi : m'.intrinsics = m.intrinsics) (hn : m'.names = m.names) (hl : m'.listeners = m.listeners)
    (hc : m'.codes = m.codes) : m'.Sound names where
  heap := hh
  anchored := ⟨by rw [hi]; exact hs.anchored.intrinsics.evolves he,
    by rw [hn]; exact hs.anchored.names.extends he.atoms⟩
  quiet := hl.trans hs.quiet
  caches := hs.caches.evolves hc he fun _ _ _ => he.atoms.get? hs.heap.atoms hh.atoms

theorem Sound.withHeap (hs : m.Sound names) {h : Heap} (hh : h.Coherent) (he : m.heap.Evolves h) :
    Sound names { m with heap := h } := hs.evolves hh he rfl rfl rfl rfl

/-- Recording a valid entry keeps a machine sound. -/
theorem Sound.cacheProperty (hs : m.Sound names) {e : PropertyEntry} {name : Atom} {site : Site}
    (hv : e.Valid m.heap name) (hk : m.heap.atoms.Knows name)
    (hn : ∀ code index, site = some (code, index) →
      m.heap.atoms.get? (names code index.toNat) = some name) :
    (m.cacheProperty site e).Sound names := by
  have hcaches := hs.caches.cacheProperty hv hk hn
  have hframe : m.cacheProperty site e = { m with codes := (m.cacheProperty site e).codes } := by
    unfold Machine.cacheProperty
    split
    · rfl
    · split <;> rfl
  rw [hframe] at hcaches ⊢
  exact ⟨hs.heap, ⟨hs.anchored.intrinsics, hs.anchored.names⟩, hs.quiet, hcaches⟩

/-! ### What uncached machines have in common with others -/

@[simp] theorem heap_uncached (m : Machine) : m.uncached.heap = m.heap := rfl

@[simp] theorem intrinsics_uncached (m : Machine) : m.uncached.intrinsics = m.intrinsics := rfl

@[simp] theorem names_uncached (m : Machine) : m.uncached.names = m.names := rfl

@[simp] theorem listeners_uncached (m : Machine) : m.uncached.listeners = m.listeners := rfl

@[simp] theorem policy_uncached (m : Machine) :
    m.uncached.config.readOnlyPolicy = m.config.readOnlyPolicy := rfl

@[simp] theorem globalObject_uncached (m : Machine) : m.uncached.globalObject = m.globalObject := rfl

@[simp] theorem atomName_uncached (m : Machine) : m.uncached.atomName = m.atomName := rfl

@[simp] theorem liveCell?_uncached (m : Machine) : m.uncached.liveCell? = m.liveCell? := rfl

@[simp] theorem objectCell?_uncached (m : Machine) : m.uncached.objectCell? = m.objectCell? := rfl

@[simp] theorem isElementBacked_uncached (m : Machine) :
    m.uncached.isElementBacked = m.isElementBacked := rfl

theorem displayWithin?_uncached (m : Machine) (fuel depth : Nat) (v : Value) :
    m.uncached.displayWithin? fuel depth v = m.displayWithin? fuel depth v := by
  induction fuel generalizing depth v with
  | zero => rfl
  | succ fuel ih =>
    simp only [displayWithin?, ih]
    rfl

@[simp] theorem display_uncached (m : Machine) : m.uncached.display = m.display := by
  funext v
  unfold display
  rw [displayWithin?_uncached]
  rfl

@[simp] theorem size_uncached (m : Machine) : m.uncached.codes.size = m.codes.size :=
  Array.size_map

theorem code?_uncached (m : Machine) (code : CodeId) :
    m.uncached.code? code = (m.code? code).map CodeEntry.uncached := Array.getElem?_map

theorem frameLine_uncached (m : Machine) (f : Frame) : m.uncached.frameLine f = m.frameLine f := by
  unfold frameLine
  rw [code?_uncached]
  cases m.code? f.code <;> rfl

@[simp] theorem captureTrace_uncached (m : Machine) : m.uncached.captureTrace = m.captureTrace := by
  unfold captureTrace
  simp only [frameLine_uncached]
  rfl

@[simp] theorem cachedProperty?_uncached (m : Machine) (site : Site) (shape : ShapeId) :
    m.uncached.cachedProperty? site shape = none := rfl

@[simp] theorem cacheProperty_uncached (m : Machine) (site : Site) (e : PropertyEntry) :
    m.uncached.cacheProperty site e = m.uncached := rfl

/-- Recording an entry makes no difference without caches. -/
theorem uncached_cacheProperty (m : Machine) (site : Site) (e : PropertyEntry) :
    (m.cacheProperty site e).uncached = m.uncached := by
  unfold cacheProperty
  split
  · rfl
  · split
    case h_1 => rfl
    case h_2 code index =>
      simp only [uncached, modifyCode, mk.injEq, true_and, and_true]
      apply Array.ext_getElem?
      intro i
      simp only [Array.getElem?_map, Array.getElem?_modify]
      split
      case isFalse => rfl
      case isTrue =>
        cases m.codes[i]? with
        | none => rfl
        | some entry =>
          simp only [Option.map_some, CodeEntry.uncached, Option.some.injEq, CodeEntry.mk.injEq,
            CodeCaches.mk.injEq, true_and, and_true]
          apply Array.ext_getElem?
          intro j
          simp only [Array.getElem?_map, Array.getElem?_modify]
          split
          case isFalse => rfl
          case isTrue => cases entry.caches.properties[j]? <;> rfl

theorem roots_uncached (m : Machine) : m.uncached.roots = m.roots := by
  unfold roots
  simp only [uncached, Array.toList_map, List.flatMap_map]
  rfl

theorem uncached_forget (m : Machine) :
    m.uncached.forgetReclaimedShapes = m.forgetReclaimedShapes.uncached := by
  simp only [forgetReclaimedShapes, uncached, Array.map_map, mk.injEq, true_and, and_true]
  congr 1
  funext entry
  simp only [Function.comp, CodeEntry.uncached, Array.map_map, CodeEntry.mk.injEq,
    CodeCaches.mk.injEq, true_and, and_true]
  rfl

theorem collect_of_pos (hz : (m.heap.collect m.roots m.rootWords).1.freedShapes > 0) :
    m.collect = ((m.heap.collect m.roots m.rootWords).1,
      { m with heap := (m.heap.collect m.roots m.rootWords).2 }.forgetReclaimedShapes) := by
  unfold collect
  dsimp only
  rw [if_pos hz]

theorem collect_of_zero (hz : ¬(m.heap.collect m.roots m.rootWords).1.freedShapes > 0) :
    m.collect = ((m.heap.collect m.roots m.rootWords).1,
      { m with heap := (m.heap.collect m.roots m.rootWords).2 }) := by
  unfold collect
  dsimp only
  rw [if_neg hz]

/-- **A collection does not look at the caches.** -/
theorem collect_uncached (m : Machine) :
    m.uncached.collect = (m.collect.1, m.collect.2.uncached) := by
  have hheap : m.uncached.heap.collect m.uncached.roots m.uncached.rootWords =
      m.heap.collect m.roots m.rootWords := by
    rw [roots_uncached]
    rfl
  by_cases hz : (m.heap.collect m.roots m.rootWords).1.freedShapes > 0
  · rw [collect_of_pos hz, collect_of_pos (by rw [hheap]; exact hz), hheap, ← uncached_forget]
    rfl
  · rw [collect_of_zero hz, collect_of_zero (by rw [hheap]; exact hz), hheap]
    rfl

theorem heap_collect (m : Machine) : m.collect.2.heap = (m.heap.collect m.roots m.rootWords).2 := by
  unfold collect
  dsimp only
  split <;> rfl

/-- **A collection keeps a machine sound.** -/
theorem Sound.collect (hs : m.Sound names) : m.collect.2.Sound names := by
  have hheap := heap_collect m
  have hatoms : m.collect.2.heap.atoms = m.heap.atoms := by
    rw [hheap, Heap.collect_frame hs.heap.white]
  have hi : m.collect.2.intrinsics = m.intrinsics := by
    unfold Machine.collect
    dsimp only
    split <;> rfl
  have hn : m.collect.2.names = m.names := by
    unfold Machine.collect
    dsimp only
    split <;> rfl
  have hl : m.collect.2.listeners = m.listeners := by
    unfold Machine.collect
    dsimp only
    split <;> rfl
  refine ⟨by rw [hheap]; exact hs.heap.collect _ _, ⟨?_, ?_⟩, hl.trans hs.quiet, ?_⟩
  · rw [hi, hheap]
    exact hs.anchored.intrinsics.collect hs.heap _ _
  · rw [hn, hatoms]
    exact hs.anchored.names
  · rw [hatoms]
    exact hs.caches.collect hs.heap

end Machine

open Machine

/-! ### Transparent actions -/

/-- A result on the uncached machine. -/
def uncachedResult {α : Type} : EStateM.Result Stop Machine α → EStateM.Result Stop Machine α
  | .ok a m => .ok a m.uncached
  | .error stop m => .error stop m.uncached

/-- **A transparent run**: `x` keeps the machine sound and gives what `Q` says, and `x'` does the same
on the uncached machine, as long as names can be told apart. -/
structure Agrees {α : Type} (names : SiteNames) (env : Env) (m : Machine) (x x' : MachineM α)
    (Q : α → Machine → Prop) : Prop where
  /-- The machine stays sound. -/
  sound : (leaves (x env m)).Sound names
  /-- Names stay. -/
  atoms : (leaves (x env m)).heap.atoms.Extends m.heap.atoms
  /-- The result is as promised. -/
  post : ∀ a m', x env m = .ok a m' → Q a m'
  /-- The uncached machine does the same. -/
  same : (leaves (x env m)).heap.atoms.Fits → x' env m.uncached = uncachedResult (x env m)

/-- Nobody stops the machine at checkpoints. -/
class Env.Unwatched (env : Env) : Prop where
  pause : ∀ m held, env.pause m held = false

theorem checkpoint_unwatched {env : Env} [env.Unwatched] (held : List Value) (m : Machine) :
    checkpoint held env m = .ok () m := by
  simp [checkpoint, Env.Unwatched.pause]

namespace Agrees

variable {α β : Type} {names : SiteNames} {env : Env} {m : Machine} {x x' : MachineM α}
  {f f' : α → MachineM β} {Q Q' : α → Machine → Prop} {R : β → Machine → Prop}

theorem mono (hx : Agrees names env m x x' Q) (hQ : ∀ a m', Q a m' → Q' a m') :
    Agrees names env m x x' Q' :=
  ⟨hx.sound, hx.atoms, fun a m' h => hQ a m' (hx.post a m' h), hx.same⟩

theorem ret (hs : m.Sound names) {a : α} (hQ : Q a m) :
    Agrees names env m (pure a) (pure a) Q := by
  refine ⟨hs, .refl _, fun b m' h => ?_, fun _ => rfl⟩
  obtain ⟨rfl, rfl⟩ := EStateM.Result.ok.inj h
  exact hQ

/-- Both stop at once, for the same reason. -/
theorem halted (hs : m.Sound names) {reason : Stop} (heq : x env m = .error reason m)
    (heq' : x' env m.uncached = .error reason m.uncached) : Agrees names env m x x' Q := by
  refine ⟨by rw [heq]; exact hs, by rw [heq]; exact .refl _, fun a m' h => ?_, fun _ => ?_⟩
  · rw [heq] at h
    cases h
  · rw [heq, heq']
    rfl

theorem stop (hs : m.Sound names) (u : Unwind) :
    Agrees names env m (unwind u) (unwind u) Q := halted hs rfl rfl

theorem fail (hs : m.Sound names) (failure : Failure) :
    Agrees names env m (fatal failure) (fatal failure) Q := stop hs (.fatal failure)

theorem ite {c : Prop} [Decidable c] {y y' : MachineM α} (ht : c → Agrees names env m x x' Q)
    (hf : ¬c → Agrees names env m y y' Q) :
    Agrees names env m (if c then x else y) (if c then x' else y') Q := by
  by_cases hc : c
  · rw [if_pos hc, if_pos hc]
    exact ht hc
  · rw [if_neg hc, if_neg hc]
    exact hf hc

/-- **Transparent actions one after the other.** -/
theorem bind (hx : Agrees names env m x x' Q)
    (hf : ∀ a m', m'.Sound names → m'.heap.atoms.Extends m.heap.atoms → Q a m' →
      Agrees names env m' (f a) (f' a) R) :
    Agrees names env m (x >>= f) (x' >>= f') R := by
  cases hr : x env m with
  | ok a m' =>
    have hs : m'.Sound names := by
      have := hx.sound
      rwa [hr] at this
    have hext : m'.heap.atoms.Extends m.heap.atoms := by
      have := hx.atoms
      rwa [hr] at this
    have hnext := hf a m' hs hext (hx.post a m' hr)
    have heq : (x >>= f) env m = f a env m' := by
      simp only [Bind.bind, ReaderT.bind, EStateM.bind, hr]
    refine ⟨by rw [heq]; exact hnext.sound, by rw [heq]; exact hnext.atoms.trans hext, ?_, ?_⟩
    · rw [heq]
      exact hnext.post
    · intro hfit
      rw [heq] at hfit ⊢
      have hsame := hx.same (by rw [hr]; exact hnext.atoms.fits hfit)
      rw [hr] at hsame
      simp only [Bind.bind, ReaderT.bind, EStateM.bind, hsame, uncachedResult]
      exact hnext.same hfit
  | error stop m' =>
    have heq : (x >>= f) env m = .error stop m' := by
      simp only [Bind.bind, ReaderT.bind, EStateM.bind, hr]
    have hs := hx.sound
    have hext := hx.atoms
    rw [hr] at hs hext
    refine ⟨by rw [heq]; exact hs, by rw [heq]; exact hext, fun _ _ h => ?_, fun hfit => ?_⟩
    · rw [heq] at h
      cases h
    · rw [heq] at hfit ⊢
      have hsame := hx.same (by rw [hr]; exact hfit)
      rw [hr] at hsame
      simp only [Bind.bind, ReaderT.bind, EStateM.bind, hsame, uncachedResult]

/-- Looking at the machine: what follows may depend on it. -/
theorem look {f f' : Machine → MachineM β} (hf : Agrees names env m (f m) (f' m.uncached) R) :
    Agrees names env m (get >>= f) (get >>= f') R :=
  ⟨hf.sound, hf.atoms, hf.post, hf.same⟩

theorem checkpoint [env.Unwatched] (hs : m.Sound names) (held : List Value) :
    Agrees names env m (checkpoint held) (checkpoint held) fun _ m' => m' = m := by
  refine ⟨?_, ?_, fun a m' h => ?_, fun _ => ?_⟩
  · rw [checkpoint_unwatched]
    exact hs
  · rw [checkpoint_unwatched]
    exact .refl _
  · obtain ⟨-, rfl⟩ := EStateM.Result.ok.inj ((checkpoint_unwatched held m).symm.trans h)
    rfl
  · rw [checkpoint_unwatched, checkpoint_unwatched]
    rfl

/-- Changing the machine, in a way that does not look at the caches. -/
theorem step {g : Machine → α × Machine} (hs : (g m).2.Sound names)
    (hext : (g m).2.heap.atoms.Extends m.heap.atoms)
    (hg : g m.uncached = ((g m).1, (g m).2.uncached)) (hQ : Q (g m).1 (g m).2) :
    Agrees names env m (modifyGet g) (modifyGet g) Q := by
  refine ⟨hs, hext, fun a m' h => ?_, fun _ => ?_⟩
  · obtain ⟨rfl, rfl⟩ := EStateM.Result.ok.inj h
    exact hQ
  · change EStateM.Result.ok (g m.uncached).1 (g m.uncached).2 = .ok (g m).1 (g m).2.uncached
    rw [hg]

theorem update {g : Machine → Machine} {Q : PUnit → Machine → Prop} (hs : (g m).Sound names)
    (hext : (g m).heap.atoms.Extends m.heap.atoms) (hg : g m.uncached = (g m).uncached)
    (hQ : Q ⟨⟩ (g m)) : Agrees names env m (modify g) (modify g) Q :=
  step hs hext (by rw [hg]) hQ

/-- A step of the heap. -/
theorem heapStep {g : Heap → α × Heap} (hs : m.Sound names) (hh : (g m.heap).2.Coherent)
    (he : m.heap.Evolves (g m.heap).2) :
    Agrees names env m (withHeap g) (withHeap g) fun a m' =>
      a = (g m.heap).1 ∧ m' = { m with heap := (g m.heap).2 } :=
  step (hs.withHeap hh he) he.atoms rfl ⟨rfl, rfl⟩

theorem heapUpdate {g : Heap → Heap} (hs : m.Sound names) (hh : (g m.heap).Coherent)
    (he : m.heap.Evolves (g m.heap)) :
    Agrees names env m (modifyHeap g) (modifyHeap g) fun _ m' =>
      m' = { m with heap := g m.heap } :=
  update (hs.withHeap hh he) he.atoms rfl rfl

theorem collect (hs : m.Sound names) :
    Agrees names env m collectGarbage collectGarbage fun _ m' => m' = m.collect.2 := by
  refine step hs.collect ?_ (collect_uncached m) rfl
  rw [heap_collect, Heap.collect_frame hs.heap.white]
  exact .refl _

end Agrees

end ScriptMachine
