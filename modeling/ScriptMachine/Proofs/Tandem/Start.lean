import ScriptMachine.Proofs.Safety.Dangling
import ScriptMachine.Proofs.Tandem.Programs

/-! # Fresh machines

A fresh machine is a twin of itself, with each cell paired with itself: the prototypes were made before the
objects that have them (`Heap.Reflected`). Neither the byte count at which collections start nor inline
caching matters for how a machine is set up (`Machine.new_paced`, `Machine.new_caching`); so two fresh
machines that differ in them are twins (`Machine.twins_start`). -/

namespace ScriptMachine

/-! ### Another pace of collections, and other caching -/

/-- The heap with another byte count at which the next collection is due. -/
def Heap.paced (h : Heap) (threshold : Nat) : Heap :=
  { h with limits := { h.limits with threshold }, nextCollection := threshold }

namespace Bootstrap

variable {ε α β : Type} {threshold : Nat}

/-- The result with another pace of collections. -/
def pacedResult (threshold : Nat) : EStateM.Result ε Heap α → EStateM.Result ε Heap α
  | .ok a h => .ok a (h.paced threshold)
  | .error e h => .error e (h.paced threshold)

/-- **An action that does not care for the pace of collections.** -/
def Paced (x : EStateM ε Heap α) : Prop :=
  ∀ h threshold, x (h.paced threshold) = pacedResult threshold (x h)

namespace Paced

variable {x : EStateM ε Heap α} {f : α → EStateM ε Heap β}

theorem ret (a : α) : Paced (pure a : EStateM ε Heap α) := fun _ _ => rfl

theorem throws (e : ε) : Paced (throw e : EStateM ε Heap α) := fun _ _ => rfl

theorem bind (hx : Paced x) (hf : ∀ a, Paced (f a)) : Paced (x >>= f) := by
  intro h threshold
  simp only [Bind.bind, EStateM.bind, hx h threshold]
  cases x h with
  | ok a k => exact hf a k threshold
  | error e k => rfl

theorem step {g : Heap → α × Heap}
    (hg : ∀ h threshold, g (h.paced threshold) = ((g h).1, (g h).2.paced threshold)) :
    Paced (modifyGet g : EStateM ε Heap α) := by
  intro h threshold
  change EStateM.Result.ok (g (h.paced threshold)).1 (g (h.paced threshold)).2 = _
  rw [hg]
  rfl

theorem change {g : Heap → Heap} (hg : ∀ h threshold, g (h.paced threshold) = (g h).paced threshold) :
    Paced (modify g : EStateM ε Heap PUnit) :=
  step fun h threshold => by rw [hg]

/-- Looking at what has nothing to do with collections. -/
theorem look {f : Heap → EStateM ε Heap β} (hpart : ∀ h threshold, f (h.paced threshold) = f h)
    (hf : ∀ h, Paced (f h)) : Paced (get >>= f) := by
  intro h threshold
  change f (h.paced threshold) (h.paced threshold) = _
  rw [hpart]
  exact hf h h threshold

theorem ite {c : Prop} [Decidable c] {y : EStateM ε Heap α} (hx : Paced x) (hy : Paced y) :
    Paced (if c then x else y) := by
  split
  · exact hx
  · exact hy

theorem mapM (hf : ∀ a, Paced (f a)) (items : List α) : Paced (items.mapM f) := by
  induction items with
  | nil => exact ret _
  | cons a items ih =>
    rw [List.mapM_cons]
    exact bind (hf a) fun _ => bind ih fun _ => ret _

theorem forEach {f : α → EStateM ε Heap (ForInStep PUnit)} (hf : ∀ a, Paced (f a)) (items : List α) :
    Paced (forIn items PUnit.unit fun a (_ : PUnit) => f a) := by
  induction items with
  | nil => exact ret _
  | cons a items ih =>
    rw [List.forIn_cons]
    refine bind (hf a) fun r => ?_
    cases r with
    | done => exact ret _
    | yield => exact ih

theorem intern (name : String) : Paced (intern name) := step fun _ _ => rfl

theorem root (kind : CellKind) (prototype : Value) : Paced (root kind prototype) := step fun _ _ => rfl

/-- Placing a cell. -/
theorem place (h : Heap) (threshold : Nat) (cell : Cell) (bytes : Nat) :
    (h.paced threshold).place cell bytes =
      ((h.place cell bytes).1, (h.place cell bytes).2.paced threshold) := by
  have hfree : (h.paced threshold).freeList = h.freeList := rfl
  unfold Heap.place
  rw [hfree]
  cases h.freeList.back? <;> rfl

theorem allocate (shape : ShapeId) (payload : Payload) : Paced (allocate shape payload) := by
  refine bind (step fun h threshold => ?_) fun r => ?_
  · have hbytes : (h.paced threshold).liveBytes = h.liveBytes := rfl
    have hshapes : (h.paced threshold).shapes = h.shapes := rfl
    have hmax : (h.paced threshold).limits.maxBytes = h.limits.maxBytes := rfl
    unfold Heap.allocate
    dsimp only
    rw [hbytes, hshapes, hmax, place]
    split <;> rfl
  · cases r with
    | ok id => exact ret id
    | error failure => exact throws failure

theorem requireCell (id : Handle) : Paced (Heap.requireCell id) := by
  refine look (fun _ _ => rfl) fun h => ?_
  split
  · exact ret _
  · exact throws _

theorem refreshFootprint (h : Heap) (threshold : Nat) (id : Handle) :
    (h.paced threshold).refreshFootprint id = (h.refreshFootprint id).paced threshold := by
  have hslots : (h.paced threshold).slots = h.slots := rfl
  unfold Heap.refreshFootprint
  rw [hslots]
  cases h.slots[id.index.toNat]? with
  | none => rfl
  | some slot =>
    dsimp only
    split
    · cases slot.cell <;> rfl
    · rfl

theorem putNamed (id : Handle) (name : Atom) (value : Value) (attributes : Attributes) :
    Paced (Heap.putNamed id name value attributes) := by
  refine bind (requireCell id) fun cell => look (fun _ _ => rfl) fun h => ?_
  split
  · exact ite (ret _) (bind (change fun _ _ => rfl) fun _ => ret _)
  · refine bind (step fun _ _ => rfl) fun target => bind (change fun h threshold => ?_) fun _ => ret _
    rw [← refreshFootprint]
    rfl

/-- Properties are defined at any pace. -/
theorem defineProperty (id : Handle) (name : Atom) (value : Value) (attributes : Attributes) :
    Paced (Heap.defineProperty id name value attributes) := by
  refine bind (requireCell id) fun cell => bind (change fun h threshold => ?_) fun _ =>
    look (fun _ _ => rfl) fun h => ?_
  · have hatoms : (h.paced threshold).atoms = h.atoms := rfl
    unfold Heap.clearElement
    rw [hatoms]
    cases h.atoms.arrayIndex? name <;> rfl
  · split
    · exact ite (bind (ret _) fun _ => change fun _ _ => rfl)
        (bind (step fun _ _ => rfl) fun _ => change fun _ _ => rfl)
    · exact bind (putNamed id name value attributes) fun _ => ret _

theorem define (id : Handle) (name : Atom) (value : Value) (attributes : Attributes) :
    Paced (define id name value attributes) := by
  intro h threshold
  unfold Bootstrap.define
  rw [defineProperty id name value attributes h threshold]
  cases Heap.defineProperty id name value attributes h <;> rfl

theorem addRoot (value : Value) : Paced (modify fun heap => (heap.addRoot value).2 : SetupM PUnit) := by
  refine change fun h threshold => ?_
  have hfree : (h.paced threshold).freeRoots = h.freeRoots := rfl
  unfold Heap.addRoot
  rw [hfree]
  cases h.freeRoots <;> rfl

theorem names : Paced names :=
  bind (intern _) fun _ => bind (intern _) fun _ => bind (intern _) fun _ => bind (intern _) fun _ =>
    bind (intern _) fun _ => ret _

theorem errorPrototype (names : Names) (base : Handle) (derived stringShape : ShapeId)
    (kind : ErrorKind) : Paced (errorPrototype names base derived stringShape kind) := by
  have hrest (prototype : Handle) : Paced (do
      let name ← Bootstrap.allocate stringShape (.string kind.name)
      let empty ← Bootstrap.allocate stringShape (.string "")
      Bootstrap.define prototype names.name (.cell name) { dontEnum := true }
      Bootstrap.define prototype names.message (.cell empty) { dontEnum := true }
      return prototype : SetupM Handle) :=
    bind (allocate _ _) fun _ => bind (allocate _ _) fun _ => bind (define _ _ _ _) fun _ =>
      bind (define _ _ _ _) fun _ => ret _
  exact ite (bind (ret _) fun _ => hrest _) (bind (allocate _ _) fun _ => hrest _)

/-- The intrinsic objects are set up at any pace. -/
theorem intrinsics (names : Names) : Paced (intrinsics names) :=
  bind (root _ _) fun _ => bind (allocate _ _) fun _ => bind (root _ _) fun _ =>
  bind (allocate _ _) fun _ => bind (allocate _ _) fun _ => bind (allocate _ _) fun _ =>
  bind (root _ _) fun _ => bind (root _ _) fun _ => bind (root _ _) fun _ => bind (root _ _) fun _ =>
  bind (allocate _ _) fun _ => bind (root _ _) fun _ =>
  bind (mapM (errorPrototype names _ _ _) _) fun _ =>
  bind (forEach (fun _ => bind (intern _) fun _ => bind (define _ _ _ _) fun _ => ret _) _) fun _ =>
  bind (forEach (fun _ => bind (addRoot _) fun _ => ret _) _) fun _ => ret _

end Paced

end Bootstrap

/-- The machine with another byte count at which collections start. -/
def Machine.paced (m : Machine) (threshold : Nat) : Machine :=
  { m with config := { m.config with gcThresholdBytes := threshold }, heap := m.heap.paced threshold }

/-- **A machine is set up alike** whenever collections start. -/
theorem Machine.new_paced (config : Config) (threshold : Nat) :
    Machine.new { config with gcThresholdBytes := threshold } =
      (Machine.new config).map (Machine.paced · threshold) := by
  have hsetup := Bootstrap.Paced.bind Bootstrap.Paced.names (fun names =>
    Bootstrap.Paced.bind (Bootstrap.Paced.intrinsics names) fun intrinsics =>
      Bootstrap.Paced.ret (names, intrinsics))
    (Heap.new { threshold := config.gcThresholdBytes, maxBytes := config.maxHeapBytes }) threshold
  have hnew : (Heap.new { threshold := config.gcThresholdBytes, maxBytes := config.maxHeapBytes }).paced
      threshold = Heap.new { threshold, maxBytes := config.maxHeapBytes } := rfl
  rw [hnew] at hsetup
  unfold Machine.new
  dsimp only
  rw [hsetup]
  generalize (Bootstrap.names >>= fun names => do
      let intrinsics ← Bootstrap.intrinsics names
      pure (names, intrinsics) : Bootstrap.SetupM (Names × Intrinsics))
    (Heap.new { threshold := config.gcThresholdBytes, maxBytes := config.maxHeapBytes }) = result
  cases result with
  | ok found h =>
    obtain ⟨names, intrinsics⟩ := found
    rfl
  | error failure h => rfl

/-- The machine with inline caching turned on or off. -/
def Machine.caching (m : Machine) (inlineCaching : Bool) : Machine :=
  { m with config := { m.config with inlineCaching } }

/-- **A machine is set up alike** with and without inline caching. -/
theorem Machine.new_caching (config : Config) (inlineCaching : Bool) :
    Machine.new { config with inlineCaching } = (Machine.new config).map (Machine.caching · inlineCaching) := by
  unfold Machine.new
  dsimp only
  split <;> rfl

/-! ### Each cell paired with itself -/

/-- **A heap that is a twin of itself**, each cell paired with itself. -/
def Heap.Reflected (h : Heap) : Prop :=
  ∃ ρ : Pairing, h.Twins ρ h ∧ ∀ a b, ρ.Pairs a b → b = a

/-- A heap under construction, with so many slots, that is a twin of itself. -/
structure Heap.Standing (h : Heap) (count : Nat) : Prop where
  founded : h.Founded count
  reflected : h.Reflected

namespace Heap

variable {h h' k k' : Heap} {ρ : Pairing} {id : Handle} {v : Value}

/-- Live cells are paired with themselves. -/
theorem Twins.pairs_live (ht : h.Twins ρ h') (hd : ∀ a b, ρ.Pairs a b → b = a) (hl : h.isLive id = true) :
    ρ.Pairs id id := by
  obtain ⟨⟨a, b⟩, hp, rfl⟩ := List.mem_map.mp (ht.registered.issued id hl)
  obtain rfl := hd a b hp
  exact hp

theorem Twins.matches_live (ht : h.Twins ρ h') (hd : ∀ a b, ρ.Pairs a b → b = a) (hv : v.Live h) :
    ρ.Matches v v := by
  cases hc : v.cell? with
  | none => exact .word hc
  | some id =>
    rw [Value.cell?_eq_some.mp hc]
    exact .cell (ht.pairs_live hd (hv id hc))

theorem Reflected.sheds (hr : h.Reflected) (ho : h.Sheds k) : k.Reflected := by
  obtain ⟨ρ, ht, hd⟩ := hr
  exact ⟨ρ, ht.sheds ho ho rfl, hd⟩

theorem Reflected.allocate (hr : h.Reflected) {shape : ShapeId} {payload : Payload} {prototype : Value}
    (hroot : h.shapes.roots[(payload.kind, prototype)]? = some shape) (hp : prototype.Live h)
    (hpay : payload.Twins [] [] payload) (hok : (h.allocate shape payload).1 = .ok id)
    (hsize : (h.allocate shape payload).2.slots.size ≤ 2 ^ 32) : (h.allocate shape payload).2.Reflected := by
  obtain ⟨ρ, ht, hd⟩ := hr
  obtain ⟨hshared, hkind, hproto, -⟩ := ht.fitted.intact.root _ _ _ hroot
  have hmatch := ht.matches_live hd hp
  rw [← hproto] at hmatch
  refine ⟨_, ht.allocate hshared hshared hkind (.refl _) hmatch
    (hpay.mono (List.nil_subset _) (List.nil_subset _)) hok hok hsize hsize, fun a b hab => ?_⟩
  rcases List.mem_cons.mp hab with heq | hab
  · obtain ⟨rfl, rfl⟩ := Prod.mk.inj heq
    rfl
  · exact hd a b hab

theorem Reflected.define (hr : h.Reflected) (hl : h.isLive id = true) (name : Atom) (hv : v.Live h)
    {attributes : Attributes} (hok : Heap.defineProperty id name v attributes h = .ok () h') :
    h'.Reflected := by
  obtain ⟨ρ, ht, hd⟩ := hr
  obtain ⟨c, hc⟩ := isLive_iff.mp hl
  have hdefine := ht.defineProperty (ht.pairs_live hd hl) hc hc name (ht.matches_live hd hv) attributes
  rw [hok] at hdefine
  cases hdefine with
  | ok ht' _ => exact ⟨ρ, ht', hd⟩

end Heap

namespace Bootstrap

open Heap

variable {h h' : Heap} {n : Names} {i : Intrinsics} {count : Nat}

theorem intern_standing (hs : h.Standing count) {name : String} {atom : Atom}
    (hi : intern name h = .ok atom h') :
    h'.Standing count ∧ h.Evolves h' ∧ h'.atoms.Knows atom := by
  obtain ⟨hf, he, hk⟩ := intern_ok hs.founded hi
  obtain ⟨-, rfl⟩ := EStateM.Result.ok.inj hi
  exact ⟨⟨hf, hs.reflected.sheds (.intern h name)⟩, he, hk⟩

theorem root_standing (hs : h.Standing count) {kind : CellKind} {prototype : Value} {shape : ShapeId}
    (hr : root kind prototype h = .ok shape h') :
    h'.Standing count ∧ h.Evolves h' ∧ h'.shapes.roots[(kind, prototype)]? = some shape := by
  obtain ⟨hf, he, hroot⟩ := root_ok hs.founded hr
  obtain ⟨-, rfl⟩ := EStateM.Result.ok.inj hr
  exact ⟨⟨hf, hs.reflected.sheds (.root h kind prototype)⟩, he, hroot⟩

theorem allocate_standing (hs : h.Standing count) (hroom : count < 2 ^ 32) {shape : ShapeId}
    {payload : Payload} {kind : CellKind} {prototype : Value} {id : Handle}
    (ha : allocate shape payload h = .ok id h') (hkind : payload.kind = kind)
    (hroot : h.shapes.roots[(kind, prototype)]? = some shape) (hp : prototype.Live h)
    (hpay : payload.Twins [] [] payload) (hv : payload.references = []) :
    h'.Standing (count + 1) ∧ h.Evolves h' ∧ h'.isLive id = true := by
  obtain ⟨hf, he, hl⟩ := allocate_ok hs.founded hroom ha hkind hroot hp hv
  obtain ⟨hid, rfl⟩ : (h.allocate shape payload).1 = .ok id ∧ (h.allocate shape payload).2 = h' := by
    simp only [allocate, bind, EStateM.bind, modifyGet_apply] at ha
    cases hr : (h.allocate shape payload).1 with
    | error failure =>
      rw [hr] at ha
      cases ha
    | ok new =>
      rw [hr] at ha
      obtain ⟨rfl, rfl⟩ := EStateM.Result.ok.inj ha
      exact ⟨rfl, rfl⟩
  subst hkind
  have hsize := hf.size
  exact ⟨⟨hf, hs.reflected.allocate hroot hp hpay hid (by omega)⟩, he, hl⟩

theorem define_standing (hs : h.Standing count) {id : Handle} {name : Atom} {value : Value}
    {attributes : Attributes} (hl : h.isLive id = true) (hk : h.atoms.Knows name) (hv : value.Live h)
    (hd : define id name value attributes h = .ok () h') : h'.Standing count ∧ h.Evolves h' := by
  obtain ⟨hf, he⟩ := define_ok hs.founded hk hv hd
  refine ⟨⟨hf, ?_⟩, he⟩
  unfold define at hd
  cases hr : Heap.defineProperty id name value attributes h with
  | ok u t =>
    rw [hr] at hd
    obtain ⟨-, rfl⟩ := EStateM.Result.ok.inj hd
    exact hs.reflected.define hl name hv hr
  | error fault t =>
    rw [hr] at hd
    cases hd

theorem addRoot_standing (hs : h.Standing count) {v : Value} (hv : v.Live h) :
    (h.addRoot v).2.Standing count ∧ h.Evolves (h.addRoot v).2 := by
  obtain ⟨hf, he, -⟩ := addRoot_ok hs.founded hv
  refine ⟨⟨hf, hs.reflected.sheds ?_⟩, he⟩
  unfold addRoot
  split <;> exact .congr rfl rfl rfl rfl rfl

/-- The prototype of one kind of error. -/
theorem errorPrototype_standing (hs : h.Standing count) (hroom : count + 3 ≤ 2 ^ 32)
    (hk : n.Known h.atoms) {base id : Handle} {derived stringShape : ShapeId} {kind : ErrorKind}
    (hb : h.isLive base = true)
    (hd : h.shapes.roots[(CellKind.object, Value.cell base)]? = some derived)
    (hstring : h.shapes.roots[(CellKind.string, Value.null)]? = some stringShape)
    (hr : errorPrototype n base derived stringShape kind h = .ok id h') : h'.Standing (count + 3) := by
  unfold errorPrototype at hr
  obtain ⟨prototype, h₁, ⟨hs₁, he₁, hl₁⟩, hr⟩ : ∃ prototype h₁,
      (h₁.Standing (count + 1) ∧ h.Evolves h₁ ∧ h₁.isLive prototype = true) ∧
      (do let name ← allocate stringShape (.string kind.name)
          let empty ← allocate stringShape (.string "")
          define prototype n.name (.cell name) { dontEnum := true }
          define prototype n.message (.cell empty) { dontEnum := true }
          return prototype : SetupM Handle) h₁ = .ok id h' := by
    split at hr
    · exact ⟨base, h, ⟨⟨{ hs.founded with size := Nat.le_succ_of_le hs.founded.size }, hs.reflected⟩,
        .refl h, hb⟩, hr⟩
    · obtain ⟨prototype, h₁, hp, hr⟩ := bind_ok.mp hr
      exact ⟨prototype, h₁, allocate_standing hs (by omega) hp rfl hd (live_cell.mpr hb) .plain rfl, hr⟩
  obtain ⟨name, h₂, hx, hr⟩ := bind_ok.mp hr
  obtain ⟨hs₂, he₂, hname⟩ := allocate_standing hs₁ (by omega) hx rfl (he₁.roots _ _ hstring)
    (not_cell_live rfl) (.string _) rfl
  obtain ⟨empty, h₃, hx, hr⟩ := bind_ok.mp hr
  have he₁₂ := he₁.trans he₂
  obtain ⟨hs₃, he₃, hempty⟩ := allocate_standing hs₂ (by omega) hx rfl (he₁₂.roots _ _ hstring)
    (not_cell_live rfl) (.string _) rfl
  have he₁₃ := he₁₂.trans he₃
  have he₂₃ := he₂.trans he₃
  obtain ⟨_, h₄, hx, hr⟩ := bind_ok.mp hr
  obtain ⟨hs₄, he₄⟩ := define_standing hs₃ (he₂₃.live _ hl₁) (he₁₃.atoms.knows hk.name)
    (live_cell.mpr (he₃.live _ hname)) hx
  obtain ⟨_, h₅, hx, hr⟩ := bind_ok.mp hr
  obtain ⟨hs₅, -⟩ := define_standing hs₄ (he₄.live _ (he₂₃.live _ hl₁))
    ((he₁₃.trans he₄).atoms.knows hk.message) (live_cell.mpr (he₄.live _ hempty)) hx
  obtain ⟨-, rfl⟩ := EStateM.Result.ok.inj hr
  exact hs₅

theorem errorPrototypes_standing {base : Handle} {derived stringShape : ShapeId} {kinds : List ErrorKind}
    {ids : List Handle} {h h' : Heap} {count : Nat} (hs : h.Standing count)
    (hroom : count + 3 * kinds.length ≤ 2 ^ 32) (hk : n.Known h.atoms) (hb : h.isLive base = true)
    (hd : h.shapes.roots[(CellKind.object, Value.cell base)]? = some derived)
    (hstring : h.shapes.roots[(CellKind.string, Value.null)]? = some stringShape)
    (hr : kinds.mapM (errorPrototype n base derived stringShape) h = .ok ids h') :
    h'.Standing (count + 3 * kinds.length) := by
  induction kinds generalizing h count ids with
  | nil =>
    obtain ⟨-, rfl⟩ := EStateM.Result.ok.inj hr
    exact hs
  | cons kind kinds ih =>
    rw [List.mapM_cons] at hr
    obtain ⟨id, h₁, hp, hr⟩ := bind_ok.mp hr
    obtain ⟨ids, h₂, hm, hr⟩ := bind_ok.mp hr
    obtain ⟨-, rfl⟩ := EStateM.Result.ok.inj hr
    simp only [List.length_cons] at hroom ⊢
    obtain ⟨-, he₁, -⟩ := errorPrototype_ok hs.founded (by omega) hk hb hd hstring hp
    have hs₂ := ih (errorPrototype_standing hs (by omega) hk hb hd hstring hp) (by omega)
      (hk.extends he₁.atoms) (he₁.live _ hb) (he₁.roots _ _ hd) (he₁.roots _ _ hstring) hm
    rwa [show count + 3 * (kinds.length + 1) = count + 3 + 3 * kinds.length by omega]

theorem globals_standing {global : Handle} {attributes : Attributes} {constants : List (String × Value)}
    {u : PUnit} {h h' : Heap} (hs : h.Standing count) (hl : h.isLive global = true)
    (hv : ∀ c ∈ constants, c.2.cell? = none)
    (hr : (forIn constants PUnit.unit fun x (_ : PUnit) => do
        define global (← intern x.1) x.2 attributes
        pure (ForInStep.yield PUnit.unit) : SetupM PUnit) h = .ok u h') :
    h'.Standing count := by
  induction constants generalizing h with
  | nil =>
    obtain ⟨-, rfl⟩ := EStateM.Result.ok.inj hr
    exact hs
  | cons x rest ih =>
    rw [List.forIn_cons] at hr
    obtain ⟨r, h₁, hx, hr⟩ := bind_ok.mp hr
    obtain ⟨atom, h₂, hi, hx⟩ := bind_ok.mp hx
    obtain ⟨hs₂, he₂, hk⟩ := intern_standing hs hi
    obtain ⟨_, h₃, hd, hx⟩ := bind_ok.mp hx
    obtain ⟨hs₃, he₃⟩ := define_standing hs₂ (he₂.live _ hl) hk (not_cell_live (hv x (by simp))) hd
    obtain ⟨rfl, rfl⟩ := EStateM.Result.ok.inj hx
    exact ih hs₃ (he₃.live _ (he₂.live _ hl)) (fun c hc => hv c (List.mem_cons_of_mem _ hc)) hr

theorem roots_standing {ids : List Handle} {u : PUnit} {h h' : Heap} (hs : h.Standing count)
    (hl : ∀ id ∈ ids, h.isLive id = true)
    (hr : (forIn ids PUnit.unit fun id (_ : PUnit) => do
        modify fun heap => (heap.addRoot (Value.cell id)).2
        pure (ForInStep.yield PUnit.unit) : SetupM PUnit) h = .ok u h') : h'.Standing count := by
  induction ids generalizing h with
  | nil =>
    obtain ⟨-, rfl⟩ := EStateM.Result.ok.inj hr
    exact hs
  | cons id rest ih =>
    rw [List.forIn_cons] at hr
    obtain ⟨r, h₁, hx, hr⟩ := bind_ok.mp hr
    obtain ⟨rfl, rfl⟩ := EStateM.Result.ok.inj hx
    obtain ⟨hs₁, he₁⟩ := addRoot_standing hs (live_cell.mpr (hl id (by simp)))
    exact ih hs₁ (fun id' hid => he₁.live _ (hl id' (List.mem_cons_of_mem _ hid))) hr

theorem names_standing (hs : h.Standing count) (hr : Bootstrap.names h = .ok n h') :
    h'.Standing count ∧ n.Known h'.atoms := by
  obtain ⟨-, -, hk⟩ := names_ok hs.founded hr
  unfold Bootstrap.names at hr
  obtain ⟨_, h₁, hx, hr⟩ := bind_ok.mp hr
  obtain ⟨hs₁, -⟩ := intern_standing hs hx
  obtain ⟨_, h₂, hx, hr⟩ := bind_ok.mp hr
  obtain ⟨hs₂, -⟩ := intern_standing hs₁ hx
  obtain ⟨_, h₃, hx, hr⟩ := bind_ok.mp hr
  obtain ⟨hs₃, -⟩ := intern_standing hs₂ hx
  obtain ⟨_, h₄, hx, hr⟩ := bind_ok.mp hr
  obtain ⟨hs₄, -⟩ := intern_standing hs₃ hx
  obtain ⟨_, h₅, hx, hr⟩ := bind_ok.mp hr
  obtain ⟨hs₅, -⟩ := intern_standing hs₄ hx
  obtain ⟨-, rfl⟩ := EStateM.Result.ok.inj hr
  exact ⟨hs₅, hk⟩

/-- **The intrinsic objects** are twins of themselves. -/
theorem intrinsics_standing (hs : h.Standing 0) (hk : n.Known h.atoms)
    (hr : Bootstrap.intrinsics n h = .ok i h') : h'.Reflected := by
  unfold Bootstrap.intrinsics at hr
  obtain ⟨bare, h₁, hx, hr⟩ := bind_ok.mp hr
  obtain ⟨hs₁, he₁, hbare⟩ := root_standing hs hx
  obtain ⟨objectPrototype, h₂, hx, hr⟩ := bind_ok.mp hr
  obtain ⟨hs₂, he₂, hobject⟩ := allocate_standing hs₁ (by omega) hx rfl hbare (not_cell_live rfl)
    .plain rfl
  obtain ⟨objectShape, h₃, hx, hr⟩ := bind_ok.mp hr
  obtain ⟨hs₃, he₃, hobjectShape⟩ := root_standing hs₂ hx
  replace hobject := he₃.live _ hobject
  obtain ⟨functionPrototype, h₄, hx, hr⟩ := bind_ok.mp hr
  obtain ⟨hs₄, he₄, hfunction⟩ := allocate_standing hs₃ (by omega) hx rfl hobjectShape
    (live_cell.mpr hobject) .plain rfl
  replace hobject := he₄.live _ hobject
  replace hobjectShape := he₄.roots _ _ hobjectShape
  obtain ⟨arrayPrototype, h₅, hx, hr⟩ := bind_ok.mp hr
  obtain ⟨hs₅, he₅, harray⟩ := allocate_standing hs₄ (by omega) hx rfl hobjectShape
    (live_cell.mpr hobject) .plain rfl
  replace hobject := he₅.live _ hobject
  replace hobjectShape := he₅.roots _ _ hobjectShape
  obtain ⟨global, h₆, hx, hr⟩ := bind_ok.mp hr
  obtain ⟨hs₆, he₆, hglobal⟩ := allocate_standing hs₅ (by omega) hx rfl hobjectShape
    (live_cell.mpr hobject) .plain rfl
  obtain ⟨stringShape, h₇, hx, hr⟩ := bind_ok.mp hr
  obtain ⟨hs₇, he₇, hstringShape⟩ := root_standing hs₆ hx
  obtain ⟨activationShape, h₈, hx, hr⟩ := bind_ok.mp hr
  obtain ⟨hs₈, he₈, -⟩ := root_standing hs₇ hx
  obtain ⟨functionShape, h₉, hx, hr⟩ := bind_ok.mp hr
  obtain ⟨hs₉, he₉, -⟩ := root_standing hs₈ hx
  obtain ⟨arrayShape, h₁₀, hx, hr⟩ := bind_ok.mp hr
  obtain ⟨hs₁₀, he₁₀, -⟩ := root_standing hs₉ hx
  have he₆₁₀ := ((he₇.trans he₈).trans he₉).trans he₁₀
  have he₅₁₀ := he₆.trans he₆₁₀
  replace hobject := he₅₁₀.live _ hobject
  replace hobjectShape := he₅₁₀.roots _ _ hobjectShape
  obtain ⟨baseError, h₁₁, hx, hr⟩ := bind_ok.mp hr
  obtain ⟨hs₁₁, he₁₁, hbase⟩ := allocate_standing hs₁₀ (by omega) hx rfl hobjectShape
    (live_cell.mpr hobject) .plain rfl
  obtain ⟨derived, h₁₂, hx, hr⟩ := bind_ok.mp hr
  obtain ⟨hs₁₂, he₁₂, hderived⟩ := root_standing hs₁₁ hx
  have he₁₀₁₂ := he₁₁.trans he₁₂
  have he₇₁₂ := ((he₈.trans he₉).trans he₁₀).trans he₁₀₁₂
  have he₄₁₂ := (he₅.trans he₅₁₀).trans he₁₀₁₂
  have hknown := hk.extends ((((he₁.trans he₂).trans he₃).trans he₄).trans he₄₁₂).atoms
  obtain ⟨errorPrototypes, h₁₃, hx, hr⟩ := bind_ok.mp hr
  have hstring := he₇₁₂.roots _ _ hstringShape
  obtain ⟨-, he₁₃, -, herrors⟩ := errorPrototypes_ok hs₁₂.founded (by decide) hknown
    (he₁₂.live _ hbase) hderived hstring hx
  have hs₁₃ := errorPrototypes_standing hs₁₂ (by decide) hknown (he₁₂.live _ hbase) hderived hstring hx
  obtain ⟨_, h₁₄, hx, hr⟩ := bind_ok.mp hr
  have hglobal := he₁₃.live _ (he₁₀₁₂.live _ (he₆₁₀.live _ hglobal))
  obtain ⟨-, he₁₄⟩ := globals_ok hs₁₃.founded (by decide) hx
  have hs₁₄ := globals_standing hs₁₃ hglobal (by decide) hx
  have he₁₂₁₄ := he₁₃.trans he₁₄
  obtain ⟨_, h₁₅, hx, hr⟩ := bind_ok.mp hr
  have hs₁₅ := roots_standing hs₁₄ (fun id hid => ?_) hx
  · obtain ⟨-, rfl⟩ := EStateM.Result.ok.inj hr
    exact hs₁₅.reflected
  · rcases List.mem_append.mp hid with hid | hid
    · simp only [List.mem_cons, List.not_mem_nil, or_false] at hid
      rcases hid with rfl | rfl | rfl | rfl
      · exact he₁₂₁₄.live _ (he₁₀₁₂.live _ hobject)
      · exact he₁₂₁₄.live _ (he₄₁₂.live _ hfunction)
      · exact he₁₂₁₄.live _ (he₁₀₁₂.live _ (he₅₁₀.live _ harray))
      · exact he₁₄.live _ hglobal
    · exact he₁₄.live _ (herrors id hid)

theorem standing_new (limits : HeapLimits) : (Heap.new limits).Standing 0 := by
  have hcell (id : Handle) : (Heap.new limits).cell? id = none := by simp [Heap.new, cell?]
  refine ⟨founded_new limits, [], ⟨.new limits, .new limits, by simp [Heap.new], by simp [Heap.new],
    .new limits, .new limits, rfl, ?_⟩, fun _ _ h => by cases h⟩
  intro newer older a b c c' hsplit
  simp at hsplit

end Bootstrap

namespace Machine

variable {config : Config} {m m' : Machine} {ρ : Pairing}

/-- The heap of a fresh machine is a twin of itself. -/
theorem reflected_new (hm : Machine.new config = .ok m) : m.heap.Reflected := by
  unfold Machine.new at hm
  dsimp only at hm
  split at hm
  case h_2 => cases hm
  case h_1 heap hs =>
    obtain rfl := Except.ok.inj hm
    obtain ⟨n, h₁, hn, hs⟩ := Bootstrap.bind_ok.mp hs
    obtain ⟨hs₁, hk⟩ := Bootstrap.names_standing (Bootstrap.standing_new _) hn
    obtain ⟨i, h₂, hi, hs⟩ := Bootstrap.bind_ok.mp hs
    have hreflected := Bootstrap.intrinsics_standing hs₁ hk hi
    obtain ⟨-, rfl⟩ := EStateM.Result.ok.inj hs
    exact hreflected.sheds (.congr rfl rfl rfl rfl rfl)

/-- **Fresh machines are twins**, whenever their collections start and whether they cache or not. -/
theorem twins_start (hm : Machine.new config = .ok m) (hlimit : config.timeLimitMs = none)
    (threshold : Nat) (inlineCaching : Bool) :
    ∃ ρ, m.Twins ρ ((m.paced threshold).caching inlineCaching) := by
  have hm' : Machine.new { config with gcThresholdBytes := threshold, inlineCaching } =
      .ok ((m.paced threshold).caching inlineCaching) := by
    rw [new_caching { config with gcThresholdBytes := threshold }, new_paced, hm]
    rfl
  obtain ⟨hanchored, -, hframe⟩ := new_spec hm
  obtain ⟨ρ, ht, hd⟩ := reflected_new hm
  have hcodes : m.codes = #[] := by rw [hframe]
  have hforgets {k : Machine} (hk : k.codes = #[]) : k.Remembers k.SiteNamed := by
    intro code entry index cache key e hcode
    rw [code?, hk] at hcode
    cases hcode
  have hknows {k : Machine} (hk : k.codes = #[]) (ids : List Handle) : k.Recognizes ids := by
    intro entry hentry
    rw [hk] at hentry
    exact absurd hentry (Array.not_mem_empty entry)
  have hlax : m.watchdog.limit = none := by
    rw [hframe]
    exact hlimit
  have hcalm : m.interruptRequested = false ∧ m.stubUnwind = none ∧ m.registers.registers = #[] ∧
      m.frames = #[] ∧ m.pendingException = none := by
    rw [hframe]
    exact ⟨rfl, rfl, rfl, rfl, rfl⟩
  obtain ⟨hinterrupt, hparked, hregisters, hframes, hpending⟩ := hcalm
  refine ⟨ρ, ?_⟩
  exact
    { safe := safe_new hm
      safe' := safe_new hm'
      recalled := hforgets hcodes
      recalled' := hforgets hcodes
      known := hknows hcodes _
      known' := hknows (k := (m.paced threshold).caching inlineCaching) hcodes _
      calm := ⟨hinterrupt, hlax, hparked⟩
      calm' := ⟨hinterrupt, hlax, hparked⟩
      heap := ht.sheds (.refl _) (.congr rfl rfl rfl rfl rfl) rfl
      config := rfl
      codes := by
        change Aligned _ m.codes m.codes
        rw [hcodes]
        exact .empty
      registers := by
        change Aligned _ m.registers.registers m.registers.registers
        rw [hregisters]
        exact .empty
      capacity := rfl
      frames := by
        change Aligned _ m.frames m.frames
        rw [hframes]
        exact .empty
      pending := by
        change Option.Rel _ m.pendingException m.pendingException
        rw [hpending]
        exact .none
      intrinsics := rfl
      anchored := fun id hid => ht.pairs_live hd (hanchored.intrinsics.live id hid)
      names := rfl
      tier := rfl }

theorem twins_new (hm : Machine.new config = .ok m) (hlimit : config.timeLimitMs = none)
    (threshold : Nat) : ∃ ρ, m.Twins ρ (m.paced threshold) :=
  twins_start hm hlimit threshold m.config.inlineCaching

theorem Twins.installTier (ht : m.Twins ρ m') : m.installTier.Twins ρ m'.installTier := ht.withTier rfl

theorem Orderly.installTier (hm : m.Orderly) : m.installTier.Orderly :=
  (hm.beside (n := m.installTier) rfl rfl rfl rfl rfl rfl rfl rfl).1

end Machine

end ScriptMachine
