import ScriptMachine.Proofs.Stack.Allocation
import ScriptMachine.Proofs.Tandem.Machines

/-! # Runs in tandem

`Meets ρ Q r r'` says that two runs from twin machines end alike and leave twins: both with results that
`Q` relates, both throwing values that match, both with the same failure, or both out of fuel. Cells
that were allocated on the way are new pairs. Nothing is said when one of the runs escapes, because the
memory is used up or because it was stopped (`Escapes`).

The rules follow the ways actions are put together. What is known of one machine alone is brought in
from other developments (`Meets.also`). -/

namespace ScriptMachine

open Machine

variable {α β γ δ : Type} {ρ ρ' : Pairing} {m m' k k' : Machine} {v w : Value}

/-- **Values of two runs** that match and are both live. -/
structure Heap.Both (ρ : Pairing) (h h' : Heap) (v w : Value) : Prop where
  same : ρ.Matches v w
  left : v.Live h
  right : w.Live h'

/-- What is on its way in two runs. -/
inductive Unwind.Both (ρ : Pairing) (h h' : Heap) : Unwind → Unwind → Prop
  | throw {v w : Value} : Heap.Both ρ h h' v w → Both ρ h h' (.throw v) (.throw w)
  | fatal (failure : Failure) : Both ρ h h' (.fatal failure) (.fatal failure)

/-- There is a handle left for another cell, and names are told apart. -/
structure Machine.Spare (m : Machine) : Prop where
  slots : m.heap.slots.size < 2 ^ 32
  names : m.heap.atoms.Fits

/-- **A run that says nothing**: the memory was used up, or it was stopped since nothing was to spare. -/
inductive Escapes : EStateM.Result Stop Machine α → Prop
  | paused {held : List Value} {m : Machine} : ¬m.Spare → Escapes (.error (.paused held) m)
  | memory {bytes : Nat} {m : Machine} : m.listeners = #[] →
      Escapes (.error (.unwound (.fatal (.outOfMemory bytes))) m)

/-- **How two runs end**: alike, unless one of them escapes. -/
inductive Meets (ρ : Pairing) (Q : Pairing → α → Machine → β → Machine → Prop) :
    EStateM.Result Stop Machine α → EStateM.Result Stop Machine β → Prop
  | ok {ρ' : Pairing} {a : α} {b : β} {m m' : Machine} : ρ ⊆ ρ' → m.Twins ρ' m' → Q ρ' a m b m' →
      Meets ρ Q (.ok a m) (.ok b m')
  | unwound {ρ' : Pairing} {u u' : Unwind} {m m' : Machine} : ρ ⊆ ρ' → m.Twins ρ' m' →
      Unwind.Both ρ' m.heap m'.heap u u' → Meets ρ Q (.error (.unwound u) m) (.error (.unwound u') m')
  | exhausted {m m' : Machine} : Meets ρ Q (.error .exhausted m) (.error .exhausted m')
  | left {r : EStateM.Result Stop Machine α} {r' : EStateM.Result Stop Machine β} : Escapes r →
      Meets ρ Q r r'
  | right {r : EStateM.Result Stop Machine α} {r' : EStateM.Result Stop Machine β} : Escapes r' →
      Meets ρ Q r r'

/-- The results are the same. -/
def Same (_ : Pairing) (a : α) (_ : Machine) (b : α) (_ : Machine) : Prop := b = a

/-- The results are values that match and are live. -/
def Vals (ρ : Pairing) (v : Value) (m : Machine) (w : Value) (m' : Machine) : Prop :=
  Heap.Both ρ m.heap m'.heap v w

theorem Heap.Both.holds (h : Heap.Both ρ m.heap m'.heap v w) : m.Holds v ∧ m'.Holds w :=
  ⟨fun _ => h.left, fun _ => h.right⟩

theorem Heap.Both.word {h h' : Heap} (hv : v.cell? = none) : Heap.Both ρ h h' v v := by
  have hlive (h : Heap) : v.Live h := fun id hid => by
    rw [hv] at hid
    cases hid
  exact ⟨.word hv, hlive h, hlive h'⟩

theorem Machine.Twins.both (ht : m.Twins ρ m') (hs : ρ.Matches v w) (hl : m.Holds v)
    (hr : m'.Holds w) : Heap.Both ρ m.heap m'.heap v w :=
  ⟨hs, hl ht.heap.addressable, hr ht.heap.addressable'⟩

/-- The cells of values that are both live. -/
theorem Heap.Both.cell {h h' : Heap} {id : Handle} (hb : Heap.Both ρ h h' v w)
    (hv : v.cell? = some id) : ∃ id' c c', w = .cell id' ∧ v = .cell id ∧ ρ.Pairs id id' ∧
      h.cell? id = some c ∧ h'.cell? id' = some c' := by
  obtain ⟨hs, hl, hr⟩ := hb
  cases hs with
  | word hv' =>
    rw [hv'] at hv
    cases hv
  | @cell a b hp =>
    rw [Value.cell?_cell] at hv
    obtain rfl := Option.some.inj hv
    obtain ⟨c, hc⟩ := Heap.isLive_iff.mp (hl a (Value.cell?_cell a))
    obtain ⟨c', hc'⟩ := Heap.isLive_iff.mp (hr b (Value.cell?_cell b))
    exact ⟨b, c, c', rfl, rfl, hp, hc, hc'⟩

/-! ### What is asked of the environments -/

/-- The environment stops the machines that have nothing to spare, and no others. -/
def Env.Sparing (env : Env) : Prop := ∀ m held, env.pause m held = false ↔ m.Spare

theorem Env.Sparing.spent {env : Env} (he : env.Sparing) {held : List Value}
    (hp : env.pause m held = true) : ¬m.Spare := by
  rw [← he m held, hp]
  exact Bool.noConfusion

/-- **Environments in tandem**: they stop machines that have nothing to spare, and they run a frame or
a host function alike. -/
structure Env.Tandem (env env' : Env) : Prop where
  fuel : env'.fuel = env.fuel
  sparing : env.Sparing
  sparing' : env'.Sparing
  sound : env.Sound
  sound' : env'.Sound
  orderly : env.Orderly
  orderly' : env'.Orderly
  frame : ∀ {ρ : Pairing} {m m' : Machine}, m.Twins ρ m' → m.Orderly → m.frames ≠ #[] →
    Meets ρ Vals (env.reenter .frame m) (env'.reenter .frame m')
  host : ∀ {ρ : Pairing} {m m' : Machine} (function : HostId) (call call' : HostCall), m.Twins ρ m' →
    Meets ρ Vals (env.reenter (.host function call) m) (env'.reenter (.host function call') m')

/-! ### Rules -/

section Rules

variable {env env' : Env} {Q Q' : Pairing → α → Machine → β → Machine → Prop}
  {R : Pairing → γ → Machine → δ → Machine → Prop} {r : EStateM.Result Stop Machine α}
  {r' : EStateM.Result Stop Machine β} {x : MachineM α} {x' : MachineM β} {f : α → MachineM γ}
  {f' : β → MachineM δ}

theorem Runs.result {P : α → Machine → Prop} (hx : Runs env m x P) {a : α} {k : Machine}
    (h : x env m = .ok a k) : P a k := by
  have := hx.ends
  rw [h] at this
  exact this

theorem Runs.grown {P : α → Machine → Prop} (hx : Runs env m x P) {a : α} {k : Machine}
    (h : x env m = .ok a k) : m.Grows k := by
  have := hx.grows
  rw [h] at this
  exact this

theorem Proceeds.result {P : α → Machine → Prop} {E : Unwind → Machine → Prop} (hr : Proceeds r P E)
    {a : α} {k : Machine} (h : r = .ok a k) : k.Orderly ∧ P a k := by
  subst h
  exact ⟨hr.orderly, hr.ends⟩

theorem Escapes.bind (hx : Escapes (x env m)) : Escapes ((x >>= f) env m) := by
  generalize hr : x env m = r at hx
  cases hx with
  | paused hp =>
    rw [bind_eq_of_error hr]
    exact .paused hp
  | memory hl =>
    rw [bind_eq_of_error hr]
    exact .memory hl

/-- An escape that is caught and not held up. -/
theorem Escapes.attempt {g : Except Unwind α → MachineM γ} (hx : Escapes (x env m))
    (hg : ∀ bytes k, k.listeners = #[] → Escapes (g (.error (.fatal (.outOfMemory bytes))) env k)) :
    Escapes ((attempt x >>= g) env m) := by
  generalize hr : x env m = r at hx
  cases hx with
  | paused hp =>
    rw [bind_eq_of_error (attempt_eq_of_stopped hr fun _ h => by cases h)]
    exact .paused hp
  | memory hl =>
    rw [bind_eq_of_ok (attempt_eq_of_unwound hr)]
    exact hg _ _ hl

namespace Meets

theorem mono (h : Meets ρ Q r r') (hQ : ∀ ρ' a k b k', Q ρ' a k b k' → Q' ρ' a k b k') :
    Meets ρ Q' r r' := by
  cases h with
  | ok hle ht hq => exact .ok hle ht (hQ _ _ _ _ _ hq)
  | unwound hle ht hu => exact .unwound hle ht hu
  | exhausted => exact .exhausted
  | left h => exact .left h
  | right h => exact .right h

theorem weaken {ρ₀ : Pairing} (hle : ρ ⊆ ρ₀) (h : Meets ρ₀ Q r r') : Meets ρ Q r r' := by
  cases h with
  | ok hle' ht hq => exact .ok (List.Subset.trans hle hle') ht hq
  | unwound hle' ht hu => exact .unwound (List.Subset.trans hle hle') ht hu
  | exhausted => exact .exhausted
  | left h => exact .left h
  | right h => exact .right h

/-- **What is known of each run on its own.** -/
theorem also (h : Meets ρ Q r r') {P : α → Machine → Prop} {P' : β → Machine → Prop}
    (hl : ∀ {a k}, r = .ok a k → P a k) (hr : ∀ {b k'}, r' = .ok b k' → P' b k') :
    Meets ρ (fun ρ a k b k' => Q ρ a k b k' ∧ P a k ∧ P' b k') r r' := by
  cases h with
  | ok hle ht hq => exact .ok hle ht ⟨hq, hl rfl, hr rfl⟩
  | unwound hle ht hu => exact .unwound hle ht hu
  | exhausted => exact .exhausted
  | left h => exact .left h
  | right h => exact .right h

/-- What is known of the first run. -/
theorem alsoLeft (h : Meets ρ Q r r') {P : α → Machine → Prop} (hl : ∀ {a k}, r = .ok a k → P a k) :
    Meets ρ (fun ρ a k b k' => Q ρ a k b k' ∧ P a k) r r' :=
  have hr {b : β} {k' : Machine} (_ : r' = .ok b k') : True := trivial
  (h.also hl hr).mono fun _ _ _ _ _ h => ⟨h.1, h.2.1⟩

theorem ret (ht : m.Twins ρ m') {a : α} {b : β} (hq : Q ρ a m b m') :
    Meets ρ Q ((pure a : MachineM α) env m) ((pure b : MachineM β) env' m') :=
  .ok (List.Subset.refl ρ) ht hq

theorem raised (ht : m.Twins ρ m') {u u' : Unwind} (hu : Unwind.Both ρ m.heap m'.heap u u') :
    Meets ρ Q ((ScriptMachine.unwind u : MachineM α) env m)
      ((ScriptMachine.unwind u' : MachineM β) env' m') :=
  .unwound (List.Subset.refl ρ) ht hu

theorem thrown (ht : m.Twins ρ m') (hb : Heap.Both ρ m.heap m'.heap v w) :
    Meets ρ Q ((ScriptMachine.unwind (.throw v) : MachineM α) env m)
      ((ScriptMachine.unwind (.throw w) : MachineM β) env' m') := raised ht (.throw hb)

theorem failed (ht : m.Twins ρ m') (failure : Failure) :
    Meets ρ Q ((ScriptMachine.fatal failure : MachineM α) env m)
      ((ScriptMachine.fatal failure : MachineM β) env' m') := raised ht (.fatal failure)

/-- **One action after the other.** -/
theorem bind (hx : Meets ρ Q (x env m) (x' env' m'))
    (hf : ∀ ρ' a k b k', ρ ⊆ ρ' → k.Twins ρ' k' → Q ρ' a k b k' →
      Meets ρ' R (f a env k) (f' b env' k')) :
    Meets ρ R ((x >>= f) env m) ((x' >>= f') env' m') := by
  generalize hr : x env m = r at hx
  generalize hr' : x' env' m' = r' at hx
  cases hx with
  | ok hle ht hq =>
    rw [bind_eq_of_ok hr, bind_eq_of_ok hr']
    exact .weaken hle (hf _ _ _ _ _ hle ht hq)
  | unwound hle ht hu =>
    rw [bind_eq_of_error hr, bind_eq_of_error hr']
    exact .unwound hle ht hu
  | exhausted =>
    rw [bind_eq_of_error hr, bind_eq_of_error hr']
    exact .exhausted
  | left h =>
    subst hr
    exact .left h.bind
  | right h =>
    subst hr'
    exact .right h.bind

/-- The results are left out. -/
theorem discarded (hx : Meets ρ Q (x env m) (x' env' m')) :
    Meets ρ (fun ρ _ k _ k' => ∃ a b, Q ρ a k b k') (discard x env m) (discard x' env' m') := by
  change Meets ρ _ ((x >>= fun _ => pure PUnit.unit) env m) ((x' >>= fun _ => pure PUnit.unit) env' m')
  exact bind hx fun _ _ _ _ _ _ ht hq => ret ht ⟨_, _, hq⟩

/-- **What follows an attempt**; an escape that was caught goes on. -/
theorem attempt {g : Except Unwind α → MachineM γ} {g' : Except Unwind β → MachineM δ}
    (hx : Meets ρ Q (x env m) (x' env' m'))
    (hok : ∀ ρ' a k b k', ρ ⊆ ρ' → k.Twins ρ' k' → Q ρ' a k b k' →
      Meets ρ' R (g (.ok a) env k) (g' (.ok b) env' k'))
    (herror : ∀ ρ' u k u' k', ρ ⊆ ρ' → k.Twins ρ' k' → Unwind.Both ρ' k.heap k'.heap u u' →
      Meets ρ' R (g (.error u) env k) (g' (.error u') env' k'))
    (hg : ∀ bytes k, k.listeners = #[] → Escapes (g (.error (.fatal (.outOfMemory bytes))) env k))
    (hg' : ∀ bytes k, k.listeners = #[] → Escapes (g' (.error (.fatal (.outOfMemory bytes))) env' k)) :
    Meets ρ R ((ScriptMachine.attempt x >>= g) env m) ((ScriptMachine.attempt x' >>= g') env' m') := by
  generalize hr : x env m = r at hx
  generalize hr' : x' env' m' = r' at hx
  cases hx with
  | ok hle ht hq =>
    rw [bind_eq_of_ok (attempt_eq_of_ok hr), bind_eq_of_ok (attempt_eq_of_ok hr')]
    exact .weaken hle (hok _ _ _ _ _ hle ht hq)
  | unwound hle ht hu =>
    rw [bind_eq_of_ok (attempt_eq_of_unwound hr), bind_eq_of_ok (attempt_eq_of_unwound hr')]
    exact .weaken hle (herror _ _ _ _ _ hle ht hu)
  | exhausted =>
    rw [bind_eq_of_error (attempt_eq_of_stopped hr fun _ h => by cases h),
      bind_eq_of_error (attempt_eq_of_stopped hr' fun _ h => by cases h)]
    exact .exhausted
  | left h =>
    subst hr
    exact .left (h.attempt hg)
  | right h =>
    subst hr'
    exact .right (h.attempt hg')

theorem look {f : Machine → MachineM γ} {f' : Machine → MachineM δ}
    (hf : Meets ρ R (f m env m) (f' m' env' m')) :
    Meets ρ R ((get >>= f) env m) ((get >>= f') env' m') := hf

theorem ask {f : Env → MachineM γ} {f' : Env → MachineM δ}
    (hf : Meets ρ R (f env env m) (f' env' env' m')) :
    Meets ρ R ((read >>= f) env m) ((read >>= f') env' m') := hf

theorem step {g : Machine → α × Machine} {g' : Machine → β × Machine} (hle : ρ ⊆ ρ')
    (ht : (g m).2.Twins ρ' (g' m').2) (hq : Q ρ' (g m).1 (g m).2 (g' m').1 (g' m').2) :
    Meets ρ Q ((modifyGet g : MachineM α) env m) ((modifyGet g' : MachineM β) env' m') :=
  .ok hle ht hq

theorem update {g g' : Machine → Machine} {Q : Pairing → PUnit → Machine → PUnit → Machine → Prop}
    (ht : (g m).Twins ρ (g' m')) (hq : Q ρ ⟨⟩ (g m) ⟨⟩ (g' m')) :
    Meets ρ Q ((modify g : MachineM PUnit) env m) ((modify g' : MachineM PUnit) env' m') :=
  .ok (List.Subset.refl ρ) ht hq

theorem ite {c c' : Prop} [Decidable c] [Decidable c'] {y : MachineM α} {y' : MachineM β}
    (hc : c ↔ c') (ht : c → Meets ρ Q (x env m) (x' env' m'))
    (hf : ¬c → Meets ρ Q (y env m) (y' env' m')) :
    Meets ρ Q ((if c then x else y) env m) ((if c' then x' else y') env' m') := by
  by_cases h : c
  · rw [if_pos h, if_pos (hc.mp h)]
    exact ht h
  · rw [if_neg h, if_neg (mt hc.mpr h)]
    exact hf h

/-- **Going on from a checkpoint**, where there are handles to spare. -/
theorem pass (he : env.Tandem env') {held held' : List Value} {f : Unit → MachineM γ}
    {f' : Unit → MachineM δ} (hf : m.Spare → m'.Spare → Meets ρ R (f () env m) (f' () env' m')) :
    Meets ρ R ((checkpoint held >>= f) env m) ((checkpoint held' >>= f') env' m') := by
  cases hp : env.pause m held with
  | true =>
    refine .left (Escapes.bind (x := checkpoint held) ?_)
    simp only [checkpoint, hp, if_true]
    exact .paused (he.sparing.spent hp)
  | false =>
    cases hp' : env'.pause m' held' with
    | true =>
      refine .right (Escapes.bind (x := checkpoint held') ?_)
      simp only [checkpoint, hp', if_true]
      exact .paused (he.sparing'.spent hp')
    | false =>
      have heq : checkpoint held env m = .ok () m := by simp [checkpoint, hp]
      have heq' : checkpoint held' env' m' = .ok () m' := by simp [checkpoint, hp']
      rw [bind_eq_of_ok heq, bind_eq_of_ok heq']
      exact hf ((he.sparing _ _).mp hp) ((he.sparing' _ _).mp hp')

end Meets

end Rules

end ScriptMachine
