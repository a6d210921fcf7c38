import ScriptMachine.Proofs.Progress.Compiled
import ScriptMachine.Proofs.Stack.Interpreter

/-! # Instructions of intact machines

An instruction goes on to the next one, to its target, or to the first instruction of a callee
(`Machine.Follows`); only a terminator does not go on to the next one. What it asks of the tables of its
code is there, so that it makes no complaint about the code (`Goes.opcode`). -/

namespace ScriptMachine

open Machine

variable {m m' : Machine} {f : Frame} {entry : CodeEntry} {code : CodeId}

namespace Machine

/-- **Where an instruction goes** that has been fetched: the running frame is already set to the next
one. -/
inductive Follows (opcode : Opcode) (m : Machine) : Machine → Prop
  /-- To the next instruction. -/
  | next {m' : Machine} : opcode.isTerminator = false → m.Calm m' → Follows opcode m m'
  /-- To its target. -/
  | jump {m' : Machine} {target : UInt32} : opcode.jumpTarget? = some target →
      (m.setPc target).Calm m' → Follows opcode m m'
  /-- To the first instruction of a callee. -/
  | call {m' : Machine} {s : Frame} : opcode.isTerminator = false → s.pc = 0 →
      m.Stands (m.spots ++ [s]) m' → Follows opcode m m'

/-- What is left after an instruction that goes on or returns. -/
def Flows (opcode : Opcode) (m : Machine) : Flow → Machine → Prop
  | .next, m' => m.Follows opcode m'
  | .ret _, m' => m.Calm m'

theorem Follows.after {opcode : Opcode} {m₁ : Machine} (hc : m.Calm m₁) (h : Follows opcode m₁ m') :
    Follows opcode m m' := by
  cases h with
  | next ht hc' => exact .next ht (hc.calm hc')
  | jump ht hc' => exact .jump ht ((hc.setPc _).calm hc')
  | call ht hs h' =>
    rw [hc.spots] at h'
    exact .call ht hs (hc.trans h')

end Machine

/-- **The atom of an identifier that is found.** -/
theorem identifierAtom_eq {index : UInt32} (hcode : m.code? code = some entry)
    (hi : index.toNat < entry.atoms.size) (env : Env) :
    identifierAtom code index env m = .ok (entry.atomAt index) m := by
  have hat : entry.atoms[index.toNat]? = some (entry.atomAt index) := by
    rw [CodeEntry.atomAt, Array.getD_eq_getD_getElem?, Array.getElem?_eq_getElem hi, Option.getD_some]
  unfold identifierAtom
  rw [get_bind, hcode]
  dsimp only
  rw [hat]
  rfl

namespace Calmly

theorem stepStore (dst : Register) (v : Value) : Calmly Calm (step.store dst v) :=
  bind (setRegister dst v) fun _ => ret _

/-- The result of an action is stored. -/
theorem stored {x : MachineM Value} (dst : Register) (hx : Calmly Calm x) :
    Calmly Calm (x >>= step.store dst) := bind hx fun v => stepStore dst v

theorem tested {x : MachineM Bool} (dst : Register) (hx : Calmly Calm x) :
    Calmly Calm (x >>= fun b => step.store dst (.boolean b)) := bind hx fun _ => stepStore dst _

theorem done {α : Type} {x : MachineM α} (hx : Calmly Calm x) :
    Calmly Calm (x >>= fun _ => pure Flow.next) := bind hx fun _ => ret _

end Calmly

namespace Goes

variable {α : Type} {env : Env} {callee this : Value} {args : Array Value} {isConstruct : Bool}
  {site : Site} {op : Opcode} {Q : α → Machine → Prop} {E : Unwind → Machine → Prop}

/-- **A call from a frame**: it is over, or the callee is at its first instruction. -/
theorem callFromFrame (he : env.Faithful) (hm : m.Intact) (dst : Register)
    (ht : op.isTerminator = false) :
    Goes m (callFromFrame dst callee this args isConstruct site env m)
      (fun _ m' => m.Follows op m') fun u m' => m.Follows op m' ∧ (m.Candid → u.Innocent) := by
  refine bind ((resolveCallee he hm callee site isConstruct).mono (fun _ _ _ h => h) fun _ _ _ h =>
    ⟨.next ht h.1, h.2⟩) ?_
  rintro ⟨function, target⟩ m₁ hm₁ ⟨hc₁, hk₁⟩
  refine bind ((Calmly.receiver function this isConstruct env m₁ he hm₁).mono (fun _ _ _ h => h)
    fun _ _ _ h => ⟨.next ht (hc₁.calm h.1.calm), fun hc => h.2 (hc₁.candid hc)⟩) ?_
  intro this m₂ hm₂ hq₂
  have hc₂ := hc₁.calm hq₂.calm
  have hk₂ := hq₂.calm.knows hk₁
  -- the result of a call that is over
  have hstore {m₃ : Machine} (hm₃ : m₃.Intact) (hc₃ : m.Calm m₃) (v : Value)
      {E : Unwind → Machine → Prop} :
      Goes m₃ ((modify (·.setRegister dst v) : MachineM Unit) env m₃)
        (fun _ m' => m.Follows op m') E := by
    obtain ⟨ha, hc⟩ := arrives_setRegister m₃ dst v
    exact change hm₃ ha (.next ht (hc₃.calm hc))
  refine pass hm₂ ?_
  cases target with
  | host host =>
    refine bind ((invokeHost he hm₂ hk₂ _ _ _ _).mono (fun _ _ _ h => h) fun _ _ _ h =>
      ⟨.next ht (hc₂.calm h.1), fun hc => h.2 (hc₂.candid hc)⟩) ?_
    exact fun v m₃ hm₃ hc₃ => hstore hm₃ (hc₂.calm hc₃) v
  | script code =>
    refine bind ((pushFrame he hm₂ function hk₂ _ _ _ _ _).mono (fun _ _ _ h => h) fun _ _ _ h =>
      ⟨.next ht (hc₂.calm h.1), fun hc => h.2 (hc₂.candid hc)⟩) ?_
    rintro _ m₃ hm₃ ⟨s, hs, h₃⟩
    rw [hc₂.spots] at h₃
    have h₃ := hc₂.trans h₃
    refine bind ((functionEntry he hm₃).mono (fun _ _ _ h => h) fun _ _ _ h =>
      ⟨.call ht hs (h₃.calm h.1), fun hc => h.2 (h₃.candid hc)⟩) ?_
    rintro compiled m₄ hm₄ ⟨hc₄, hcompiled⟩
    have h₄ := h₃.calm hc₄
    cases compiled with
    | none => exact ret hm₄ (.call ht hs h₄)
    | some lowered =>
      have hpopped {m₅ : Machine} (h₅ : m₄.Stands m₄.spots.dropLast m₅) : m.Calm m₅ := by
        rw [h₄.spots, List.dropLast_concat] at h₅
        exact h₄.trans h₅
      refine bind ((runCompiled he hm₄ (hcompiled lowered rfl)).mono (fun _ _ _ h => h)
        fun _ _ _ h => ⟨.next ht (hpopped h.1), fun hc => h.2 (h₄.candid hc)⟩) ?_
      exact fun v m₅ hm₅ h₅ => hstore hm₅ (hpopped h₅) v

/-! ### Parts of instructions -/

/-- A register is read. -/
theorem reading {r : Register} {k : Value → MachineM α} (hk : Goes m (k (m.register r) env m) Q E) :
    Goes m ((step.reg r >>= k) env m) Q E := hk

/-- The name of an identifier that is found. -/
theorem named {index : UInt32} {k : Atom → MachineM α} (hcode : m.code? code = some entry)
    (hi : index.toNat < entry.atoms.size) (hk : Goes m (k (entry.atomAt index) env m) Q E) :
    Goes m ((identifierAtom code index >>= k) env m) Q E := by
  rwa [bind_eq_of_ok (identifierAtom_eq hcode hi env)]

/-- An instruction that stays on its frame and goes on. -/
theorem going {x : MachineM Flow} (ht : op.isTerminator = false)
    (hx : Goes m (x env m) (fun _ m' => m.Calm m') fun u m' => m.Calm m' ∧ (m.Candid → u.Innocent)) :
    Goes m (x env m) (m.Flows op)
      fun u m' => (m.Calm m' ∨ m.Follows op m') ∧ (m.Candid → u.Innocent) := by
  refine hx.mono (fun flow _ _ h => ?_) fun _ _ _ h => ⟨.inl h.1, h.2⟩
  cases flow with
  | next => exact .next ht h
  | ret _ => exact h

/-- A jump, after what leaves the frames where they are. -/
theorem goto {target : UInt32} (hm' : m'.Intact) (hc : m.Calm m') (ht : op.jumpTarget? = some target) :
    Goes m' (step.goto target env m') (m.Flows op) E := by
  refine bind (Q := fun _ m'' => m.Follows op m'') (change hm' (hm'.arrives_setPc target) ?_) ?_
  · exact .jump ht (hc.setPc target)
  · exact fun _ m'' hm'' h => ret hm'' h

/-- A call instruction, after what leaves the frames where they are. -/
theorem calling {dst : Register} (he : env.Faithful) (hm' : m'.Intact) (hc : m.Calm m')
    (ht : op.isTerminator = false) :
    Goes m' ((do
      ScriptMachine.callFromFrame dst callee this args isConstruct site
      return .next : MachineM Flow) env m') (m.Flows op)
      fun u m' => (m.Calm m' ∨ m.Follows op m') ∧ (m.Candid → u.Innocent) := by
  refine bind ((callFromFrame he hm' dst ht).mono (fun _ _ _ h => h) fun _ _ _ h =>
    ⟨.inr (h.1.after hc), fun hcandid => h.2 (hc.candid hcandid)⟩) ?_
  exact fun _ m'' hm'' h => ret hm'' (h.after hc)

/-! ### Instructions -/

/-- **One instruction** of the code of the running frame, whose operands are found. -/
theorem opcode (he : env.Faithful) (hm : m.Intact) (hf : m.frame? = some f)
    (hcode : m.code? f.code = some entry)
    (hfound : ∀ operand ∈ op.operands, operand.Found entry) :
    Goes m (ScriptMachine.step f.code op env m) (m.Flows op)
      fun u m' => (m.Calm m' ∨ m.Follows op m') ∧ (m.Candid → u.Innocent) := by
  have calmly {x : MachineM Flow} (ht : op.isTerminator = false) (hx : Calmly Calm x) :=
    going ht (hx env m he hm)
  have hname {index : UInt32} (h : .identifier index ∈ op.operands) :
      index.toNat < entry.atoms.size := hfound (.identifier index) h
  cases op with
  | loadConst dst index => exact look (calmly rfl (.stepStore dst _))
  | loadUndefined dst | loadNull dst | loadBool dst _ => exact calmly rfl (.stepStore dst _)
  | loadThis dst => exact framed hf (calmly rfl (.stepStore dst _))
  | move dst src => exact reading (calmly rfl (.stepStore dst _))
  | binary op dst lhs rhs => exact reading (reading (calmly rfl (.stored dst (.applyBinary op _ _))))
  | unary op dst src => exact reading (calmly rfl (.stored dst (.applyUnary op _)))
  | jump target => exact goto hm (.refl m) rfl
  | jumpIf sense cond target =>
    refine look (ite (fun _ => ?_) fun _ => ?_)
    · exact goto hm (.refl m) rfl
    · exact ret hm (.next rfl (.refl m))
  | loop target =>
    refine bind ((Calmly.checkInterrupt env m he hm).mono (fun _ _ _ h => h) fun _ _ _ h =>
      ⟨.inl h.1.calm, h.2⟩) ?_
    exact fun _ m₁ hm₁ hq₁ => goto hm₁ hq₁.calm rfl
  | newObject dst => exact calmly rfl (.stored dst (.quiet .newObject))
  | newArray dst first count => exact look (calmly rfl (.stored dst (.quiet (.newArray _))))
  | getById dst base name cache =>
    refine reading (named hcode (hname (by simp [Opcode.operands])) ?_)
    exact calmly rfl (.stored dst (.getById _ _ _))
  | putById base name value cache =>
    refine reading (reading (named hcode (hname (by simp [Opcode.operands])) ?_))
    exact calmly rfl (.done (.putById _ _ _ _))
  | getByVal dst base key => exact reading (reading (calmly rfl (.stored dst (.getByVal _ _))))
  | putByVal base key value => exact reading (reading (reading (calmly rfl (.done (.putByVal _ _ _)))))
  | deleteById dst base name =>
    refine reading (named hcode (hname (by simp [Opcode.operands])) ?_)
    exact calmly rfl (.tested dst (.deleteById _ _))
  | hasProperty dst key base => exact reading (reading (calmly rfl (.tested dst (.hasKey _ _))))
  | instanceOf dst value constructor => exact reading (reading (calmly rfl (.tested dst (.instanceOf _ _))))
  | getGlobal dst name cache =>
    exact named hcode (hname (by simp [Opcode.operands])) (calmly rfl (.stored dst (.getGlobalById _ _)))
  | putGlobal name value cache =>
    refine named hcode (hname (by simp [Opcode.operands])) (reading ?_)
    exact calmly rfl (.done (.putGlobalById _ _ _))
  | pushScope layout =>
    refine going rfl (bind ((pushScope hm hf layout).mono (fun _ _ _ h => h) fun _ _ _ h =>
      ⟨h.1, fun _ => h.2⟩) fun _ m' hm' h => ret hm' h)
  | popScope => exact calmly rfl (.done .popScope)
  | getScopedVar dst depth index => exact look (calmly rfl (.stepStore dst _))
  | putScopedVar depth index value => exact reading (calmly rfl (.done (.setScopedVar depth index _)))
  | resolveName dst name =>
    exact named hcode (hname (by simp [Opcode.operands])) (calmly rfl (.stored dst (.resolveName _)))
  | argumentsObject dst =>
    refine going rfl (bind ((argumentsObject he hm hf).mono (fun _ _ _ h => h) fun _ _ _ h =>
      ⟨h.1.calm, h.2⟩) fun v m' hm' h => ?_)
    exact (Calmly.stepStore dst v env m' he hm').mono (fun _ _ _ h' => h.calm.calm h') fun _ _ _ h' =>
      ⟨h.calm.calm h'.1, fun hc => h'.2 (h.calm.candid hc)⟩
  | newFunction dst function =>
    have htemplate : m.HasTemplate function :=
      ⟨f, entry, hf, hcode, hfound (.function function) (by simp [Opcode.operands])⟩
    refine going rfl (bind ((newClosure he hm hf function).mono (fun _ _ _ h => h) fun _ _ _ h =>
      ⟨h.1, h.2 htemplate⟩) fun v m' hm' h => ?_)
    exact (Calmly.stepStore dst v env m' he hm').mono (fun _ _ _ h' => h.calm h') fun _ _ _ h' =>
      ⟨h.calm h'.1, fun hc => h'.2 (h.candid hc)⟩
  | call dst _ _ _ _ _ | construct dst _ _ _ _ => exact look (calling he hm (.refl m) rfl)
  | callMethod dst base name firstArg argc propertyCache cache =>
    refine reading (named hcode (hname (by simp [Opcode.operands])) ?_)
    refine bind ((Calmly.getById _ _ _ env m he hm).mono (fun _ _ _ h => h) fun _ _ _ h =>
      ⟨.inl h.1, h.2⟩) ?_
    exact fun method m₁ hm₁ hc₁ => look (calling he hm₁ hc₁ rfl)
  | ret src => exact reading (ret hm (.refl m))
  | throw src =>
    refine reading ((raise he hm _).mono (fun _ _ _ h => h) fun _ _ _ h => ⟨.inl h.1, fun _ => ?_⟩)
    rw [h.2]
    exact Unwind.innocent_throw _
  | catchInto dst => exact calmly rfl (.stored dst (.quiet .takeException))
  | debug line => exact calmly rfl (.done (.notifyAt _ _ _))

end Goes

end ScriptMachine
