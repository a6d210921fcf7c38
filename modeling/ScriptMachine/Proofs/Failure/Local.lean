import ScriptMachine.Machine.Perform
import ScriptMachine.Proofs.Machine.Turn
import ScriptMachine.Proofs.Stack.Compiled
import ScriptMachine.Proofs.Stack.Interpreter

/-! # Actions that start nothing

Most actions run no script and no host function: of the activities nested in them there is only telling
the listeners. Such a local action does the same in every environment in which the listeners are told
in the same way (`Local`), whatever becomes of nested frames and host functions there. -/

namespace ScriptMachine

/-- The environment in which nested frames and host functions are run by `nested`; the listeners are
told as before. -/
def Env.nesting (env : Env) (nested : Activity → BaseM Value) : Env :=
  { env with reenter := fun
      | .notify event => env.reenter (.notify event)
      | activity => nested activity }

/-- **A local action** starts neither a frame nor a host function. -/
def Local {α : Type} (x : MachineM α) : Prop :=
  ∀ (env : Env) (nested : Activity → BaseM Value), x (env.nesting nested) = x env

/-- The question is a nested call. -/
def HostQuery.isCall : HostQuery → Bool
  | .call .. | .construct .. | .stub .. => true
  | _ => false

namespace Local

variable {α β : Type} {x : MachineM α} {g : α → MachineM β}

/-! ### Rules -/

theorem ret (a : α) : Local (pure a : MachineM α) := fun _ _ => rfl

theorem unwind (u : Unwind) : Local (unwind u : MachineM α) := fun _ _ => rfl

theorem fatal (failure : Failure) : Local (fatal failure : MachineM α) := fun _ _ => rfl

theorem settled (found : Option α) : Local (settled found) := by cases found <;> exact fun _ _ => rfl

theorem look : Local (get : MachineM Machine) := fun _ _ => rfl

theorem step (c : Machine → α × Machine) : Local (modifyGet c : MachineM α) := fun _ _ => rfl

theorem put (m : Machine) : Local (set m : MachineM PUnit) := fun _ _ => rfl

theorem change (c : Machine → Machine) : Local (modify c : MachineM PUnit) := step _

theorem checkpoint (held : List Value) : Local (checkpoint held) := fun _ _ => rfl

theorem modifyHeap (c : Heap → Heap) : Local (modifyHeap c) := change _

theorem withHeap (c : Heap → α × Heap) : Local (withHeap c) := step _

theorem tryHeap (c : HeapM α) : Local (tryHeap c) := withHeap _

theorem intern (name : String) : Local (intern name) := withHeap _

theorem bind (hx : Local x) (hg : ∀ a, Local (g a)) : Local (x >>= g) := by
  intro env nested
  funext m
  simp only [Bind.bind, ReaderT.bind, EStateM.bind, hx env nested, fun a => hg a env nested]

theorem ite {c : Prop} [Decidable c] {y : MachineM α} (hx : Local x) (hy : Local y) :
    Local (if c then x else y) := by
  split
  · exact hx
  · exact hy

theorem discarded (hx : Local x) : Local (discard x) := bind hx fun _ => ret _

theorem attempt (hx : Local x) : Local (attempt x) := by
  intro env nested
  unfold ScriptMachine.attempt
  rw [hx env nested]

/-! ### Allocation and exceptions -/

theorem currentFrame : Local currentFrame := by
  refine bind look fun m => ?_
  split
  · exact ret _
  · exact fatal _

theorem allocate (shape : ShapeId) (payload : Payload) (hexact : payload.Exact) :
    Local (allocate shape payload hexact) := by
  refine bind (checkpoint _) fun _ => bind look fun m => ?_
  have hrest : Local (allocateCell shape payload) := by
    refine bind (checkpoint _) fun _ => bind (withHeap _) fun r => ?_
    cases r with
    | ok id => exact ret _
    | error failure => exact fatal _
  exact ite (bind (discarded (step _)) fun _ => hrest) hrest

theorem newObject : Local newObject := bind look fun _ => bind (allocate _ _ _) fun _ => ret _

theorem newArray (elements : Elements) : Local (newArray elements) :=
  bind look fun _ => bind (allocate _ _ _) fun _ => ret _

theorem newString (text : String) : Local (newString text) :=
  bind look fun _ => bind (allocate _ _ _) fun _ => ret _

theorem notifyAt (kind : EventKind) (exception : Option Value) (line : Option UInt32) :
    Local (notifyAt kind exception line) := by
  refine bind look fun m => ?_
  split
  · exact discarded fun _ _ => rfl
  · exact ret _

theorem notify (kind : EventKind) : Local (notify kind) := notifyAt _ _ _

theorem raise (v : Value) : Local (raise v : MachineM α) :=
  bind (change _) fun _ => bind (notifyAt _ _ _) fun _ => unwind _

theorem raiseFromHost (v : Value) : Local (raiseFromHost v : MachineM α) :=
  bind look fun _ => ite (unwind _) (raise v)

theorem newError (kind : ErrorKind) (message : String) : Local (newError kind message) := by
  refine bind look fun _ => bind (withHeap _) fun _ => bind (allocate _ _ _) fun _ =>
    bind (newString _) fun _ => bind (checkpoint _) fun _ => bind look fun _ =>
    bind (tryHeap _) fun r => ?_
  cases r with
  | ok _ => exact ret _
  | error _ => exact fatal _

theorem raiseError (kind : ErrorKind) (message : String) :
    Local (raiseError kind message : MachineM α) := bind (newError _ _) fun _ => raise _

theorem propertyFault (fault : PropertyFault) : Local (propertyFault fault : MachineM α) := by
  cases fault with
  | staleHandle => exact fatal _
  | outOfMemory => exact bind look fun _ => fatal _
  | _ => exact raiseError _ _

theorem runHeap (c : HeapM α) : Local (runHeap c) := by
  refine bind (tryHeap c) fun r => ?_
  cases r with
  | ok a => exact ret _
  | error fault => exact propertyFault _

theorem heapWrite (held : List Value) (c : HeapM α) : Local (heapWrite held c) := by
  refine bind (checkpoint held) fun _ => bind (tryHeap c) fun r => ?_
  cases r with
  | ok a => exact ret _
  | error fault =>
    cases fault with
    | outOfMemory => exact bind (discarded (step _)) fun _ => bind (checkpoint _) fun _ => runHeap c
    | _ => exact propertyFault _

theorem checkInterrupt : Local checkInterrupt :=
  bind look fun _ => ite (bind (put _) fun _ => fatal _) (bind (step _) fun _ => ite (fatal _) (ret _))

/-! ### Operators and properties -/

theorem addValues (a b : Value) : Local (addValues a b) :=
  bind look fun _ => ite (newString _) (ret _)

theorem applyBinary (op : BinaryOp) (a b : Value) : Local (applyBinary op a b) := by
  unfold ScriptMachine.applyBinary
  split
  · exact ret _
  · refine bind look fun m => ?_
    cases op with
    | add => exact addValues a b
    | _ => exact ret _

theorem applyUnary (op : UnaryOp) (a : Value) : Local (applyUnary op a) := by
  refine bind look fun m => ?_
  cases op with
  | typeOf => exact newString _
  | _ => exact ret _

theorem readCell (id : Handle) (name : Atom) (site : Site) : Local (readCell id name site) := by
  refine bind look fun m => ?_
  dsimp only
  split
  · exact ret _
  · refine bind (settled _) fun lookup => ite ?_ (ret _)
    split
    · exact bind (change _) fun _ => ret _
    · exact ret _

theorem getById (base : Value) (name : Atom) (site : Site) : Local (getById base name site) := by
  refine bind look fun m => ?_
  split
  · exact bind (readCell _ _ _) fun _ => ret _
  · exact ite (raiseError _ _) (ret _)

theorem refuseWrite (name : Atom) : Local (refuseWrite name) := by
  refine bind look fun m => ?_
  split
  · exact ret _
  · exact raiseError _ _

theorem putById (base : Value) (name : Atom) (value : Value) (site : Site) :
    Local (putById base name value site) := by
  refine bind look fun m => ?_
  split
  · exact ite (raiseError _ _) (ret _)
  · dsimp only
    split
    · exact modifyHeap _
    · refine bind (heapWrite _ _) fun outcome => ite (refuseWrite _) (bind look fun m => ?_)
      split
      · split
        · exact change _
        · exact ret _
      · exact ret _

theorem deleteById (base : Value) (name : Atom) : Local (deleteById base name) := by
  refine bind look fun m => ?_
  split
  · exact ite (raiseError _ _) (ret _)
  · exact bind (runHeap _) fun _ => bind look fun _ => ite (bind (raiseError _ _) fun _ => ret _) (ret _)

theorem keyAtom (key : Value) : Local (keyAtom key) := bind look fun _ => intern _

theorem getByVal (base key : Value) : Local (getByVal base key) := by
  have hnamed : Local (do ScriptMachine.getById base (← ScriptMachine.keyAtom key) none) :=
    bind (keyAtom key) fun _ => getById _ _ _
  refine bind look fun m => ?_
  split
  · split
    · split
      · exact newString _
      · exact ret _
    · exact ite (bind (withHeap _) fun _ => settled _) hnamed
  · exact hnamed

theorem putByVal (base key value : Value) : Local (putByVal base key value) := by
  refine bind look fun m => ?_
  split
  · exact bind (heapWrite _ _) fun _ => ite (bind (withHeap _) fun _ => refuseWrite _) (ret _)
  · exact bind (keyAtom key) fun _ => putById _ _ _ _

theorem hasKey (key base : Value) : Local (hasKey key base) := by
  refine bind look fun m => ?_
  split
  · exact raiseError _ _
  · exact bind (keyAtom key) fun _ => bind look fun _ => settled _

theorem instanceOf (value constructor : Value) : Local (instanceOf value constructor) := by
  refine bind look fun m => ite (raiseError _ _) ?_
  split
  · exact ret _
  · refine bind (getById _ _ _) fun _ => bind look fun m => ?_
    split
    · exact raiseError _ _
    · exact settled _

theorem getGlobalById (name : Atom) (site : Site) : Local (getGlobalById name site) := by
  refine bind look fun _ => bind (readCell _ _ _) fun lookup => ?_
  split
  · exact bind look fun _ => raiseError _ _
  · exact ret _

theorem putGlobalById (name : Atom) (value : Value) (site : Site) :
    Local (putGlobalById name value site) := bind look fun _ => putById _ _ _ _

/-! ### Scopes and functions -/

theorem tearOffActivation : Local tearOffActivation := by
  refine bind currentFrame fun f => ?_
  split
  · exact ret _
  · exact bind look fun _ => bind (allocate _ _ _) fun _ => bind (change _) fun _ => ret _

theorem tearOffIfNeeded : Local tearOffIfNeeded := by
  refine bind currentFrame fun f => bind look fun m => ?_
  split
  · exact ite (discarded tearOffActivation) (ret _)
  · exact ret _

theorem pushScope (layout : UInt32) : Local (pushScope layout) :=
  bind tearOffIfNeeded fun _ => bind currentFrame fun _ => bind look fun _ =>
    bind (allocate _ _ _) fun _ => change _

theorem resolveName (name : Atom) : Local (resolveName name) := by
  refine bind look fun m => bind (settled _) fun location => ?_
  split
  · exact ret _
  · exact ret _
  · exact settled _
  · exact raiseError _ _

theorem argumentsObject : Local argumentsObject :=
  bind currentFrame fun _ => bind look fun _ => newArray _

theorem newFunctionCell (target : CallTarget) (scope : Option Handle) (name : Option Atom)
    (arity : UInt32) : Local (newFunctionCell target scope name arity) := by
  refine bind look fun m => bind (allocate _ _ _) fun function => ?_
  cases target with
  | host _ => exact ret _
  | script _ =>
    refine bind newObject fun prototype => bind (checkpoint _) fun _ => bind look fun _ => ?_
    dsimp only
    split
    · exact bind (runHeap _) fun _ => bind (runHeap _) fun _ => ret _
    · exact bind (runHeap _) fun _ => ret _

theorem internOption (name : Option String) : Local (internOption name) := by
  cases name with
  | none => exact ret _
  | some name => exact bind (intern name) fun _ => ret _

theorem newClosure (template : UInt32) : Local (newClosure template) := by
  refine bind tearOffIfNeeded fun _ => bind currentFrame fun _ => bind look fun m => ?_
  dsimp only
  split
  · exact fatal _
  · exact bind (internOption _) fun _ => bind (newFunctionCell _ _ _ _) fun _ => ret _

/-! ### Frames -/

theorem pushFrame (function : Handle) (code : CodeId) (this : Value) (args : Array Value)
    (returnRegister : Option Register) (isConstruct entryBoundary : Bool) :
    Local (pushFrame function code this args returnRegister isConstruct entryBoundary) :=
  bind look fun _ => ite (raiseError _ _) (change _)

theorem functionEntry : Local functionEntry :=
  bind (notify _) fun _ => bind checkInterrupt fun _ => step _

theorem popFrame : Local popFrame :=
  bind look fun _ => ite (ret _) (bind (notify _) fun _ => step _)

theorem popFrames (count : Nat) : Local (popFrames count) := by
  induction count with
  | zero => exact ret _
  | succ count ih => exact bind (discarded popFrame) fun _ => ih

theorem popFramesTo (depth : Nat) : Local (popFramesTo depth) := bind look fun _ => popFrames _

theorem finishReturn (v : Value) : Local (finishReturn v) := by
  refine bind (modifyHeap _) fun _ => bind popFrame fun popped => ?_
  cases popped with
  | none => exact ret _
  | some f => exact bind look fun _ => ret _

theorem resolveCallee (callee : Value) (site : Site) (isConstruct : Bool) :
    Local (resolveCallee callee site isConstruct) := by
  refine bind look fun m => ?_
  dsimp only
  split
  · exact ret _
  · split
    · exact bind (change _) fun _ => ret _
    · exact raiseError _ _

theorem constructReceiver (function : Handle) : Local (constructReceiver function) := by
  refine bind look fun m => bind (settled _) fun prototype => ?_
  dsimp only
  split
  · exact bind (withHeap _) fun _ => bind (allocate _ _ _) fun _ => ret _
  · exact bind (ret _) fun _ => bind (allocate _ _ _) fun _ => ret _

theorem receiver (function : Handle) (this : Value) (isConstruct : Bool) :
    Local (receiver function this isConstruct) := ite (constructReceiver _) (ret _)

theorem unwindFrames (entryDepth : Nat) (v : Value) (count : Nat) :
    Local (unwindFrames entryDepth v count) := by
  induction count with
  | zero => exact unwind _
  | succ count ih =>
    refine bind (step _) fun handler => ?_
    cases handler with
    | some target => exact ret _
    | none => exact bind look fun _ => bind (discarded popFrame) fun _ => ite (unwind _) ih

theorem handleUnwind (entryDepth : Nat) (u : Unwind) : Local (handleUnwind entryDepth u) := by
  cases u with
  | fatal failure => exact bind (popFramesTo _) fun _ => fatal _
  | throw v => exact bind look fun _ => unwindFrames _ _ _

theorem identifierAtom (code : CodeId) (index : UInt32) : Local (identifierAtom code index) := by
  refine bind look fun m => ?_
  dsimp only
  split
  · exact ret _
  · exact fatal _

/-! ### Instructions -/

theorem stepReg (r : Register) : Local (step.reg r) := bind look fun _ => ret _

theorem stepStore (dst : Register) (v : Value) : Local (step.store dst v) :=
  bind (change _) fun _ => ret _

theorem stepGoto (target : UInt32) : Local (step.goto target) := bind (change _) fun _ => ret _

theorem tierStore (dst : Register) (v : Value) : Local (tierStep.store dst v) :=
  bind (change _) fun _ => ret _

theorem takeException : Local takeException := step _

/-- **Instructions that are no calls.** -/
theorem opcode (code : CodeId) {opcode : Opcode} (h : opcode.callResult? = none) :
    Local (ScriptMachine.step code opcode) := by
  cases opcode with
  | call dst callee this firstArg argc cache => cases h
  | callMethod dst base name firstArg argc propertyCache cache => cases h
  | construct dst callee firstArg argc cache => cases h
  | loadConst dst index => exact bind look fun _ => stepStore _ _
  | loadUndefined dst | loadNull dst | loadBool dst value => exact stepStore _ _
  | loadThis dst => exact bind currentFrame fun _ => stepStore _ _
  | move dst src => exact bind (stepReg _) fun _ => stepStore _ _
  | binary op dst lhs rhs =>
    exact bind (stepReg _) fun _ => bind (stepReg _) fun _ => bind (applyBinary _ _ _) fun _ => stepStore _ _
  | unary op dst src =>
    exact bind (stepReg _) fun _ => bind (applyUnary _ _) fun _ => stepStore _ _
  | jump target => exact stepGoto _
  | jumpIf sense cond target => exact bind look fun _ => ite (stepGoto _) (ret _)
  | loop target => exact bind checkInterrupt fun _ => stepGoto _
  | newObject dst => exact bind newObject fun _ => stepStore _ _
  | newArray dst first count => exact bind look fun _ => bind (newArray _) fun _ => stepStore _ _
  | getById dst base name cache =>
    exact bind (stepReg _) fun _ => bind (identifierAtom _ _) fun _ => bind (getById _ _ _) fun _ =>
      stepStore _ _
  | putById base name value cache =>
    exact bind (stepReg _) fun _ => bind (stepReg _) fun _ => bind (identifierAtom _ _) fun _ =>
      bind (putById _ _ _ _) fun _ => ret _
  | getByVal dst base key =>
    exact bind (stepReg _) fun _ => bind (stepReg _) fun _ => bind (getByVal _ _) fun _ => stepStore _ _
  | putByVal base key value =>
    exact bind (stepReg _) fun _ => bind (stepReg _) fun _ => bind (stepReg _) fun _ =>
      bind (putByVal _ _ _) fun _ => ret _
  | deleteById dst base name =>
    exact bind (stepReg _) fun _ => bind (identifierAtom _ _) fun _ => bind (deleteById _ _) fun _ =>
      stepStore _ _
  | hasProperty dst key base =>
    exact bind (stepReg _) fun _ => bind (stepReg _) fun _ => bind (hasKey _ _) fun _ => stepStore _ _
  | instanceOf dst value constructor =>
    exact bind (stepReg _) fun _ => bind (stepReg _) fun _ => bind (instanceOf _ _) fun _ => stepStore _ _
  | getGlobal dst name cache =>
    exact bind (identifierAtom _ _) fun _ => bind (getGlobalById _ _) fun _ => stepStore _ _
  | putGlobal name value cache =>
    exact bind (identifierAtom _ _) fun _ => bind (stepReg _) fun _ => bind (putGlobalById _ _ _) fun _ =>
      ret _
  | pushScope layout => exact bind (pushScope _) fun _ => ret _
  | popScope => exact bind (change _) fun _ => ret _
  | getScopedVar dst depth index => exact bind look fun _ => stepStore _ _
  | putScopedVar depth index value => exact bind (stepReg _) fun _ => bind (change _) fun _ => ret _
  | resolveName dst name =>
    exact bind (identifierAtom _ _) fun _ => bind (resolveName _) fun _ => stepStore _ _
  | argumentsObject dst => exact bind argumentsObject fun _ => stepStore _ _
  | newFunction dst function => exact bind (newClosure _) fun _ => stepStore _ _
  | ret src => exact bind (stepReg _) fun _ => ret _
  | throw src => exact bind (stepReg _) fun _ => raise _
  | catchInto dst => exact bind takeException fun _ => stepStore _ _
  | debug line => exact bind (notifyAt _ _ _) fun _ => ret _

theorem fetch : Local fetch := step _

theorem settle (entryDepth mark : Nat) (flow : Except Unwind Flow) :
    Local (settle entryDepth mark flow) := by
  cases flow with
  | ok flow =>
    cases flow with
    | next => exact bind (modifyHeap _) fun _ => ret _
    | ret value =>
      refine bind look fun m => bind (finishReturn _) fun r => ?_
      exact ite (bind (modifyHeap _) fun _ => ret _) (bind (change _) fun _ => ret _)
  | error u =>
    refine bind (attempt (handleUnwind _ _)) fun r => ?_
    cases r with
    | ok _ => exact bind (modifyHeap _) fun _ => ret _
    | error u => exact bind (modifyHeap _) fun _ => unwind _

theorem settleOperation (code : Lowered) (index : Nat) (flow : Except Unwind TierStep) :
    Local (settleOperation code index flow) := by
  cases flow with
  | ok flow => cases flow <;> exact ret _
  | error u =>
    cases u with
    | fatal failure => exact unwind _
    | throw v =>
      refine bind (step _) fun handler => ?_
      cases handler with
      | some pc => exact ret _
      | none => exact unwind _

/-! ### Programs and questions -/

theorem mapM {f : α → MachineM β} (hf : ∀ a, Local (f a)) (items : Array α) : Local (items.mapM f) := by
  have hlist (items : List α) : Local (items.mapM f) := by
    induction items with
    | nil => exact ret _
    | cons a items ih =>
      rw [List.mapM_cons]
      exact bind (hf a) fun _ => bind ih fun _ => ret _
  rw [Array.mapM_eq_mapM_toList, map_eq_pure_bind]
  exact bind (hlist _) fun _ => ret _

theorem constantValue (c : Constant) : Local (constantValue c) := by
  cases c with
  | string text => exact newString _
  | _ => exact ret _

mutual

theorem registerCode (block : Block) : Local (registerCode block) := by
  cases block with
  | mk name instructions constants identifiers functions scopeLayouts handlers variableIds
      paramCount varCount registerCount needsActivation propertyCacheCount callCacheCount =>
    unfold ScriptMachine.registerCode
    exact bind (registerAll functions) fun _ => bind (mapM intern _) fun _ =>
      bind (mapM constantValue _) fun _ => bind (checkpoint _) fun _ => bind look fun _ =>
      bind (change _) fun _ => ret _

theorem registerAll (blocks : List Block) : Local (registerAll blocks) := by
  cases blocks with
  | nil => exact ret _
  | cons block blocks =>
    unfold ScriptMachine.registerAll
    exact bind (registerCode block) fun _ => bind (registerAll blocks) fun _ => ret _

end

theorem load (block : Block) : Local (load block) := by
  unfold ScriptMachine.load
  split
  · exact fatal _
  · exact bind (registerCode block) fun _ => bind (internOption _) fun _ =>
      bind (newFunctionCell _ _ _ _) fun _ => ret _

theorem tryCall (hx : Local x) : Local (tryCall x) := by
  refine bind (attempt hx) fun r => ?_
  cases r with
  | ok a => exact ret _
  | error u => exact ret _

/-- **Questions that call nothing.** -/
theorem answer {query : HostQuery} (h : query.isCall = false) : Local (answer query) := by
  have setProperty (object : Value) (name : String) (v : Value) : Local (setProperty object name v) :=
    bind (intern name) fun _ => putById _ _ _ _
  cases query with
  | call _ _ _ | construct _ _ | stub _ _ => cases h
  | display _ | number _ | depth | register _ | scopedVar _ _ | describe _ =>
    exact bind look fun _ => ret _
  | newString text => exact tryCall (newString _)
  | newArray items => exact tryCall (newArray _)
  | newObject => exact tryCall newObject
  | newError kind message => exact tryCall (newError _ _)
  | setProperty object name v => exact tryCall (setProperty _ _ _)
  | defineProperty object name v attributes =>
    refine tryCall (bind (intern name) fun _ => bind look fun m => ?_)
    split
    · exact runHeap _
    · exact raiseError _ _
  | setPrototype object prototype =>
    refine tryCall (bind look fun m => ?_)
    split
    · exact runHeap _
    · exact raiseError _ _
  | setGlobal name v => exact tryCall (bind look fun _ => setProperty _ _ _)
  | getGlobal name =>
    exact bind (intern name) fun _ => bind look fun _ => bind (settled _) fun _ =>
      ite (bind (settled _) fun _ => ret _) (ret _)
  | collect => exact step _
  | release | interrupt | record _ => exact change _
  | intern name => exact intern name
  | locate name => exact bind (intern name) fun _ => bind look fun _ => settled _

end Local

end ScriptMachine
