import ScriptMachine.Proofs.Stack.Call
import ScriptMachine.Proofs.Tandem.Scope

/-! # Functions of two runs

Two runs make functions and closures that match: the same code, in scopes that match, with prototypes and
properties of their own. -/

namespace ScriptMachine

open Machine

variable {α β γ δ : Type} {ρ ρ' : Pairing} {m m' k k' : Machine} {v w v' w' : Value} {env env' : Env}
  {site : Site} {name : Atom} {a b : Handle} {f f' : Frame}

theorem Heap.Both.evolves {h h' : Heap} (hb : Heap.Both ρ m.heap m'.heap v w) (hle : ρ ⊆ ρ')
    (he : m.heap.Evolves h) (he' : m'.heap.Evolves h') : Heap.Both ρ' h h' v w :=
  ⟨hb.same.mono hle, he.value hb.left, he'.value hb.right⟩

theorem Heap.Both.mono {h h' : Heap} (hb : Heap.Both ρ h h' v w) (hle : ρ ⊆ ρ') : Heap.Both ρ' h h' v w :=
  ⟨hb.same.mono hle, hb.left, hb.right⟩

theorem Unwind.Both.mono {h h' : Heap} {u u' : Unwind} (hu : Unwind.Both ρ h h' u u') (hle : ρ ⊆ ρ') :
    Unwind.Both ρ' h h' u u' := by
  cases hu with
  | throw hb => exact .throw (hb.mono hle)
  | fatal failure => exact .fatal failure

namespace Meets

variable {Q : Pairing → α → Machine → β → Machine → Prop}
  {R : Pairing → γ → Machine → δ → Machine → Prop} {x : MachineM α} {x' : MachineM β}
  {f : α → MachineM γ} {f' : β → MachineM δ}

/-- One action after the other, where the first keeps the stacks of the first machine in order. -/
theorem bindOrderly (he : env.Tandem env') (ho : m.Orderly) {S : Machine → Machine → Prop}
    (hkeep : Keeping S x) (hx : Meets ρ Q (x env m) (x' env' m'))
    (hf : ∀ ρ' a k b k', ρ ⊆ ρ' → k.Twins ρ' k' → k.Orderly → S m k → Q ρ' a k b k' →
      Meets ρ' R (f a env k) (f' b env' k')) :
    Meets ρ R ((x >>= f) env m) ((x' >>= f') env' m') :=
  bind (hx.alsoLeft (Proceeds.result (hkeep env m he.orderly ho)))
    fun ρ' a k b k' hle ht h => hf ρ' a k b k' hle ht h.2.1 h.2.2.1 h.1

/-! ### Functions -/

/-- Defining a property of a cell that is live. -/
theorem define (he : env.Tandem env') (ht : m.Twins ρ m')
    (hid : Heap.Both ρ m.heap m'.heap (.cell a) (.cell b)) (hk : m.heap.atoms.Knows name)
    (hv : Heap.Both ρ m.heap m'.heap v w) (attributes : Attributes) :
    Meets ρ (fun _ _ k _ k' => m.heap.Evolves k.heap ∧ m'.heap.Evolves k'.heap ∧ k.names = m.names)
      (ScriptMachine.runHeap (Heap.defineProperty a name v attributes) env m)
      (ScriptMachine.runHeap (Heap.defineProperty b name w attributes) env' m') := by
  obtain ⟨_, c, c', hb, -, hp, hc, hc'⟩ := hid.cell (Value.cell?_cell a)
  obtain rfl := Value.cell_inj.mp hb
  have hk' : m'.heap.atoms.Knows name := by
    rw [ht.heap.atoms]
    exact hk
  have hx := Heap.defineProperty_changes (storable_holds m) hv.holds.1 ht.safe.heap a hk attributes
  have hx' := Heap.defineProperty_changes (storable_holds m') hv.holds.2 ht.safe'.heap b hk' attributes
  refine ((runHeap he ht hx hx' (.defineProperty a name v attributes) (.defineProperty b name w attributes)
    (ht.heap.defineProperty hp hc hc' name hv.same attributes)).also
    (Runs.result (Runs.define ht.safe hid.holds.1 hk hv.holds.1 attributes))
    (Runs.result (Runs.define ht.safe' hid.holds.2 hk' hv.holds.2 attributes))).mono ?_
  rintro _ _ _ _ _ ⟨-, ⟨h, hc, rfl⟩, h', hc', rfl⟩
  exact ⟨(hc.coherent ht.safe.heap).2, (hc'.coherent ht.safe'.heap).2, rfl⟩

/-- **A new function.** -/
theorem newFunctionCell (he : env.Tandem env') (ht : m.Twins ρ m') (target : CallTarget)
    {scope scope' : Option Handle} (functionName : Option Atom) (arity : UInt32)
    (hs : Option.Rel ρ.Pairs scope scope') (hg : ∀ v, scope.map Value.cell = some v → m.Guards v)
    (hg' : ∀ v, scope'.map Value.cell = some v → m'.Guards v) :
    Meets ρ (fun ρ a k b k' => Guarded ρ k k' (.cell a) (.cell b))
      (newFunctionCell target scope functionName arity env m)
      (newFunctionCell target scope' functionName arity env' m') := by
  have hmain : Meets ρ (fun ρ a _ b _ => ρ.Matches (.cell a) (.cell b))
      (ScriptMachine.newFunctionCell target scope functionName arity env m)
      (ScriptMachine.newFunctionCell target scope' functionName arity env' m') := by
    have hmem : m.intrinsics.functionPrototype ∈ m.intrinsics.objects := by simp [Intrinsics.objects]
    have hmem' : m'.intrinsics.functionPrototype ∈ m'.intrinsics.objects := by
      simp [Intrinsics.objects]
    have hproto : ρ.Matches (.cell m.intrinsics.functionPrototype)
        (.cell m'.intrinsics.functionPrototype) := by
      rw [ht.intrinsics]
      exact (ht.intrinsic hmem).same
    refine look (bind (allocate he ht
      (allocates_intrinsic (.function _) ht.safe ht.safe.anchored.intrinsics.shaped.function hmem
        (by simpa [Payload.references] using hg))
      (allocates_intrinsic (.function _) ht.safe' ht.safe'.anchored.intrinsics.shaped.function hmem'
        (by simpa [Payload.references] using hg')) hproto (.function hs))
      fun ρ₁ a k b k' _ hk hm => ?_)
    cases target with
    | host _ => exact ret hk hm.same
    | script _ =>
      refine bind (newObject he hk) fun ρ₂ prototype k₂ prototype' k₂' hle₂ hk₂ hm₂ => ?_
      have hfunction := hm₂.stays hle₂ hk₂ (hm.guarded hk)
      have hprototype := hm₂.vals hk₂
      have hnames := hk₂.safe.anchored.names
      refine pass he fun _ _ => look ?_
      rw [hk₂.names]
      -- the second definition is about heaps that the first has changed
      have hlast {ρ₃ : Pairing} {k₃ k₃' : Machine} (hle : ρ₂ ⊆ ρ₃) (hk₃ : k₃.Twins ρ₃ k₃')
          (he₃ : k₂.heap.Evolves k₃.heap) (he₃' : k₂'.heap.Evolves k₃'.heap) :
          Meets ρ₃ (fun ρ a _ b _ => ρ.Matches (.cell a) (.cell b))
            ((do
              ScriptMachine.runHeap (Heap.defineProperty a k₂.names.prototype prototype
                { dontEnum := true })
              return a) env k₃)
            ((do
              ScriptMachine.runHeap (Heap.defineProperty b k₂.names.prototype prototype'
                { dontEnum := true })
              return b) env' k₃') := by
        have hf := hfunction.evolves hle he₃ he₃'
        refine bind (define he hk₃ hf (he₃.atoms.knows hnames.prototype)
          (hprototype.evolves hle he₃ he₃') _) fun ρ₄ _ k₄ _ k₄' hle₄ hk₄ _ => ?_
        exact ret hk₄ (hf.same.mono hle₄)
      rcases Option.rel_iff.mp hprototype.same.cell? with ⟨hx, hy⟩ | ⟨x, y, hx, hy, hxy⟩
      · rw [hx, hy]
        exact hlast (List.Subset.refl _) hk₂ (.refl _) (.refl _)
      · rw [hx, hy]
        have hxb := hprototype
        rw [Value.cell?_eq_some.mp hx, Value.cell?_eq_some.mp hy] at hxb
        refine bind (define he hk₂ hxb hnames.constructor hfunction _)
          fun ρ₃ _ k₃ _ k₃' hle₃ hk₃ h => hlast hle₃ hk₃ h.1 h.2.1
  refine (hmain.also (Runs.result (Runs.newFunctionCell ht.safe target functionName arity hg))
    (Runs.result (Runs.newFunctionCell ht.safe' target functionName arity hg'))).imp ?_
  exact fun _ _ _ _ _ _ hk h => ⟨h.1, hk.safe.guards h.2.1, hk.safe'.guards h.2.2⟩

theorem internOption (ht : m.Twins ρ m') (text : Option String) :
    Meets ρ (fun _ a k b k' => b = a ∧ k.frames = m.frames ∧ k'.frames = m'.frames ∧
      ∀ name, a = some name → k.heap.atoms.Knows name) (internOption text env m)
      (internOption text env' m') := by
  cases text with
  | none => exact ret ht ⟨rfl, rfl, rfl, fun _ h => by cases h⟩
  | some text =>
    refine bind (intern ht text) ?_
    rintro ρ₁ name k name' k' - hk ⟨rfl, hknows, rfl, rfl⟩
    exact ret hk ⟨rfl, rfl, rfl, fun _ h => Option.some.inj h ▸ hknows⟩

/-- **A closure.** -/
theorem newClosure (he : env.Tandem env') (ht : m.Twins ρ m') (template : UInt32) :
    Meets ρ Vals (newClosure template env m) (newClosure template env' m') := by
  refine bind (tearOffIfNeeded he ht) fun ρ₁ _ k _ k' _ ht _ => bind (currentFrame ht) ?_
  rintro ρ f k f' k' - ht ⟨rfl, rfl, rfl, hf, hx, hy⟩
  refine look ?_
  have hgo (code : CodeId) (name : Option String) (arity : UInt32) : Meets ρ Vals
      ((do
        let name ← ScriptMachine.internOption name
        return .cell (← ScriptMachine.newFunctionCell (.script code) f.scope name arity) :
          MachineM Value) env k)
      ((do
        let name ← ScriptMachine.internOption name
        return .cell (← ScriptMachine.newFunctionCell (.script code) f'.scope name arity) :
          MachineM Value) env' k') := by
    refine bind (internOption ht name) ?_
    rintro ρ₂ name k₂ name' k₂' hle hk₂ ⟨rfl, hframes, hframes', -⟩
    have hx₂ : k₂.frame? = some f := by rw [frame?, hframes]; exact hx
    have hy₂ : k₂'.frame? = some f' := by rw [frame?, hframes']; exact hy
    refine bind (newFunctionCell he hk₂ _ _ _ (hf.mono hle).scope (Runs.guards_scope hk₂.safe hx₂)
      (Runs.guards_scope hk₂.safe' hy₂)) fun ρ₃ a k₃ b k₃' _ hk₃ hguarded => ret hk₃ (hguarded.both hk₃)
  rw [hf.code]
  rcases Option.rel_iff.mp (ht.code? f.code) with ⟨hx, hy⟩ | ⟨e, e', hx, hy, hentry⟩
  · rw [hx, hy]
    exact failed ht _
  · rw [hx, hy]
    dsimp only
    rw [hentry.functions]
    cases e.functions[template.toNat]? with
    | none => exact failed ht _
    | some code =>
      dsimp only
      rcases Option.rel_iff.mp (ht.code? code) with ⟨hx, hy⟩ | ⟨d, d', hx, hy, hd⟩
      · rw [hx, hy]
        exact hgo _ _ _
      · rw [hx, hy]
        dsimp only
        rw [hd.block]
        exact hgo _ _ _

end Meets

end ScriptMachine
