import ScriptMachine.Proofs.Progress.Validated
import ScriptMachine.Proofs.Stack.Loop

/-! # Variables that have moved to the heap

Moving the variables of a frame to a scope record changes no register (`Machine.register_tornOff`), and
from then on the record is the one copy. Whatever happens, a variable has the value that was written to it last
(`SlotWrite.last?`), and every way of reading it gives that value (`Machine.Shows`): the registers of
the frame, the scope chains of the frame and of closures, names, and the array of the arguments. -/

namespace ScriptMachine

open Machine

variable {m m' m'' : Machine} {f : Frame} {a : Handle} {env : Env} {r : Register} {v : Value}
  {writes : List SlotWrite}

/-! ### The last write -/

/-- The value that was written last to a variable of a record. -/
def SlotWrite.last? (id : Handle) (index : Nat) (writes : List SlotWrite) : Option Value :=
  (writes.filter fun w => w.record = id ∧ w.index = index).getLast?.map (·.value)

theorem SlotWrite.last?_cons (id : Handle) (index : Nat) (w : SlotWrite) (rest : List SlotWrite) :
    last? id index (w :: rest) =
      (last? id index rest).or (if w.record = id ∧ w.index = index then some w.value else none) := by
  unfold last?
  by_cases hw : w.record = id ∧ w.index = index
  · rw [List.filter_cons_of_pos (by simpa using hw), List.getLast?_cons, if_pos hw]
    cases (rest.filter fun w => w.record = id ∧ w.index = index).getLast? <;> rfl
  · rw [List.filter_cons_of_neg (by simpa using hw), if_neg hw, Option.or_none]

/-- One write. -/
theorem SlotWrite.getD_apply (id : Handle) (w : SlotWrite) {slots : Array Value} {index : Nat}
    (hi : index < slots.size) (v : Value) : (applyAll id [w] slots).getD index v =
      if w.record = id ∧ w.index = index then w.value else slots.getD index v := by
  simp only [applyAll, List.foldl_cons, List.foldl_nil, Array.getD_eq_getD_getElem?]
  by_cases hid : w.record = id
  · rw [if_pos hid, Array.getElem?_setIfInBounds]
    by_cases hindex : w.index = index
    · rw [if_pos hindex, if_pos (by rwa [hindex]), if_pos ⟨hid, hindex⟩, Option.getD_some]
    · rw [if_neg hindex, if_neg fun h => hindex h.2]
  · rw [if_neg hid, if_neg fun h => hid h.1]

/-- **The last write stays.** -/
theorem SlotWrite.getD_applyAll (id : Handle) (writes : List SlotWrite) {slots : Array Value}
    {index : Nat} (hi : index < slots.size) (v : Value) :
    (applyAll id writes slots).getD index v = (last? id index writes).getD (slots.getD index v) := by
  induction writes generalizing slots with
  | nil => rfl
  | cons w rest ih =>
    have hsize : (applyAll id [w] slots).size = slots.size := size_applyAll id [w] slots
    have hrest : (applyAll id rest (applyAll id [w] slots)).getD index v = _ := ih (by rwa [hsize])
    rw [getD_apply id w hi] at hrest
    refine (show (applyAll id (w :: rest) slots).getD index v = _ from hrest).trans ?_
    rw [last?_cons]
    cases last? id index rest with
    | some _ => rfl
    | none => split <;> rfl

/-! ### Actions that end -/

/-- **How an action ends**: it does, unless the machine is stopped at a checkpoint. -/
def Affords {α : Type} (env : Env) (r : EStateM.Result Stop Machine α) (Q : α → Machine → Prop)
    (E : Unwind → Machine → Prop) : Prop :=
  match r with
  | .ok a m' => Q a m'
  | .error (.unwound u) m' => E u m'
  | .error (.paused held) m' => env.pause m' held = true
  | .error .exhausted _ => False

/-- **A brief action** takes no fuel. -/
def Brief {α : Type} (x : MachineM α) : Prop :=
  ∀ (env : Env) (m : Machine), Affords env (x env m) (fun _ _ => True) fun _ _ => True

/-- What is known of the end of a brief action. -/
theorem Goes.affords {α : Type} {x : MachineM α} {Q : α → Machine → Prop} {E : Unwind → Machine → Prop}
    (hx : Goes m (x env m) Q E) (hb : Brief x) : Affords env (x env m) Q E := by
  have hends := hx.ends
  have hbrief := hb env m
  cases hr : x env m with
  | ok a m' =>
    rw [hr] at hends
    exact hends
  | error stop m' =>
    rw [hr] at hends hbrief
    cases stop with
    | unwound u => exact hends
    | exhausted | paused _ => exact hbrief

namespace Brief

variable {α β : Type}

theorem ret (a : α) : Brief (pure a : MachineM α) := fun _ _ => trivial

theorem unwind (u : Unwind) : Brief (unwind u : MachineM α) := fun _ _ => trivial

theorem step (c : Machine → α × Machine) : Brief (modifyGet c : MachineM α) := fun _ _ => trivial

theorem look {g : Machine → MachineM β} (hg : ∀ m, Brief (g m)) : Brief (get >>= g) :=
  fun env m => hg m env m

theorem checkpoint (held : List Value) : Brief (checkpoint held) := by
  intro env m
  unfold ScriptMachine.checkpoint
  split
  case isTrue hp => exact hp
  case isFalse => trivial

theorem bind {x : MachineM α} {g : α → MachineM β} (hx : Brief x) (hg : ∀ a, Brief (g a)) :
    Brief (x >>= g) := by
  intro env m
  have hends := hx env m
  cases hr : x env m with
  | ok a m' =>
    rw [bind_eq_of_ok hr]
    exact hg a env m'
  | error stop m' =>
    rw [hr] at hends
    rw [bind_eq_of_error hr]
    cases stop <;> exact hends

theorem allocate (shape : ShapeId) (payload : Payload) (hexact : payload.Exact) :
    Brief (allocate shape payload hexact) := by
  have hplace : Brief (allocateCell shape payload) := by
    refine bind (checkpoint _) fun _ => bind (step _) fun r => ?_
    cases r with
    | ok id => exact ret id
    | error failure => exact unwind _
  refine bind (checkpoint _) fun _ => look fun m => ?_
  dsimp only
  split
  · have hcollect : Brief (discard collectGarbage) := bind (x := collectGarbage) (step _) fun _ => ret ()
    exact bind hcollect fun _ => hplace
  · exact hplace

theorem currentFrame : Brief currentFrame := by
  refine look fun m => ?_
  cases m.frame? with
  | none => exact unwind _
  | some f => exact ret f

theorem tearOffActivation : Brief tearOffActivation := by
  refine bind currentFrame fun f => ?_
  cases f.activation with
  | some a => exact ret a
  | none => exact look fun m => bind (allocate _ _ _) fun a => bind (step _) fun _ => ret a

theorem argumentsObject : Brief argumentsObject :=
  bind currentFrame fun _ => look fun _ => look fun _ => bind (allocate _ _ _) fun _ => ret _

end Brief

namespace Machine

/-! ### Frames that stay -/

/-- **A run during which a frame is there**: there are always more frames than those below it. -/
inductive Lasts (depth : Nat) (m : Machine) : List SlotWrite → Machine → Prop
  /-- No step. -/
  | refl : depth < m.frames.size → Lasts depth m [] m
  /-- One more step. -/
  | tail {writes writes' : List SlotWrite} {m' m'' : Machine} : Lasts depth m writes m' →
      Step m' writes' m'' → depth < m''.frames.size → Lasts depth m (writes ++ writes') m''

/-- **A frame that is there before and after a step** is the same call, and its variables stay in the
record that they have moved to. -/
theorem Step.carries (hs : Step m writes m') {i : Nat} (hf : m.frames[i]? = some f)
    (hi : i < m'.frames.size) : ∃ f', m'.frames[i]? = some f' ∧ f.Carries f' := by
  have same (h : m'.frames = m.frames) : ∃ f', m'.frames[i]? = some f' ∧ f.Carries f' :=
    ⟨f, by rw [h, hf], .refl f⟩
  cases hs with
  | heap _ | allocate _ _ | recode _ _ | host _ | code _ => exact same rfl
  | collect =>
    obtain ⟨forget, -, heq⟩ := collect_frame m
    exact same (by rw [heq])
  | register r v => exact same (frames_setRegister m r v)
  | binding depth index v =>
    refine same ?_
    unfold setScopedVar
    split <;> rfl
  | @frame top g htop _ hcarries =>
    change ∃ f', (m.frames.modify _ g)[i]? = some f' ∧ _
    rw [Array.getElem?_modify]
    split
    case isFalse => exact ⟨f, hf, .refl f⟩
    case isTrue hlast =>
      rw [frame?, Array.back?_eq_getElem?, hlast, hf] at htop
      obtain rfl := Option.some.inj htop
      exact ⟨g f, by rw [hf]; rfl, hcarries⟩
  | push registers hg =>
    have hlt := (Array.getElem?_eq_some_iff.mp hf).1
    exact ⟨f, by rw [Array.getElem?_push, if_neg (Nat.ne_of_lt hlt), hf], .refl f⟩
  | pop registers =>
    refine ⟨f, ?_, .refl f⟩
    have hi : i < m.frames.size - 1 := by simpa using hi
    rw [Array.getElem?_pop, if_pos hi, hf]
  | beside _ hframes _ _ _ => exact same hframes

/-- **A frame that stays** is the same call, and its variables stay in the record that they have moved
to. -/
theorem Lasts.carries {depth : Nat} (h : m.Lasts depth writes m') (hf : m.frames[depth]? = some f) :
    ∃ f', m'.frames[depth]? = some f' ∧ f.Carries f' := by
  induction h with
  | refl => exact ⟨f, hf, .refl f⟩
  | tail _ hs hi ih =>
    obtain ⟨f', hf', hcarries⟩ := ih
    obtain ⟨f'', hf'', hcarries'⟩ := hs.carries hf' hi
    exact ⟨f'', hf'', hcarries.trans hcarries'⟩

/-! ### Reading -/

/-- No open block scope of a frame has a variable of the name. -/
def Unshadowed (m : Machine) (f : Frame) (name : Atom) : Prop :=
  ∀ n < f.scopeDepth.toNat, ∀ id record, m.scopeUp? n f.scope = some id →
    m.scopeRecord? id = some record → name ∉ record.names

/-- **Every way of reading** a variable of a record gives a value, in a machine that is running. -/
structure Shows (m : Machine) (a : Handle) (r : Register) (v : Value) : Prop where
  /-- A frame whose variables have moved to the record reads its register. -/
  own : ∀ f, m.frame? = some f → f.activation = some a → m.register r = v
  /-- A frame whose scope chain reaches the record reads the variable where the record is. -/
  chained : ∀ depth, m.scopeAt? depth = some a → m.scopedVar depth r = v
  /-- A frame whose variables have moved to the record finds it by its name, if neither an open block
  scope nor an earlier variable has the same. -/
  named : ∀ (f : Frame) (entry : CodeEntry) (name : Atom) (env : Env), m.frame? = some f →
    f.activation = some a → m.code? f.code = some entry → entry.variableNames[r.toNat]? = some name →
    (∀ j < r.toNat, entry.variableNames[j]? ≠ some name) → m.Unshadowed f name →
    resolveName name env m = .ok v m
  /-- A frame whose variables have moved to the record gets it in a new array of the arguments, if it is
  a parameter that was passed. -/
  passed : ∀ (f : Frame) (entry : CodeEntry) (env : Env), m.frame? = some f →
    f.activation = some a → m.code? f.code = some entry → r < entry.block.paramCount →
    r.toNat < f.argc → Affords env (argumentsObject env m) (fun value m' => m'.heap.Roomy →
        ∃ id c elements, value = .cell id ∧ m'.heap.cell? id = some c ∧
          c.payload = .array elements ∧ elements.items[r.toNat]? = some v)
      fun u _ => ∃ limit, u = .fatal (.outOfMemory limit)

/-- A register that has moved. -/
theorem register_of_moved (hf : m.frame? = some f) (ha : f.activation = some a) (hr : r < f.varCount) :
    m.register r = m.scopeSlot a r.toNat := by
  unfold register Frame.redirects
  rw [hf]
  simp only [if_pos hr, ha]

/-- A register of a frame whose variables have not moved. -/
theorem register_of_not_moved (hf : m.frame? = some f) (ha : f.activation = none) (r : Register) :
    m.register r = m.registers.get (f.base + r.toNat) := by
  unfold register Frame.redirects
  rw [hf]
  simp only [ha, ite_self]

theorem scopeSlot_of_record {record : ScopeRecord} (hrecord : m.scopeRecord? a = some record) (i : Nat) :
    m.scopeSlot a i = record.slots.getD i .undefined := by
  unfold scopeSlot
  rw [hrecord]

/-- No name is found in the records of a chain that do not have it. -/
theorem searchRecords_of_not_mem {name : Atom} {ids : List Handle} {scope : Option Handle}
    (hc : m.heap.Chain ids scope) (hn : ∀ n < ids.length, ∀ id record, m.scopeUp? n scope = some id →
      m.scopeRecord? id = some record → name ∉ record.names) (depth : Nat) :
    ∃ depth' scope', m.searchRecords name ids.length depth scope = .next depth' scope' := by
  induction ids generalizing scope depth with
  | nil => exact ⟨depth, scope, rfl⟩
  | cons id ids ih =>
    obtain ⟨rfl, parent, hl, hrest⟩ := hc
    obtain ⟨record, hrecord, rfl⟩ := link?_eq_some.mp hl
    have hfind : record.names.findIdx? (· == name) = none := by
      rw [Array.findIdx?_eq_none_iff]
      intro other hother
      have := hn 0 (Nat.succ_pos _) id record rfl hrecord
      exact beq_eq_false_iff_ne.mpr fun h => this (h ▸ hother)
    obtain ⟨depth', scope', hnext⟩ := ih hrest (fun n hlt other record' hup => by
      refine hn (n + 1) (Nat.succ_lt_succ hlt) other record' ?_
      simpa only [Machine.scopeUp?, hrecord] using hup) (depth + 1)
    refine ⟨depth', scope', ?_⟩
    simpa only [List.length_cons, searchRecords, hrecord, hfind] using hnext

/-- The first variable of a name is found, if no open block scope has one. -/
theorem Intact.search? (hm : m.Intact) (hroom : m.heap.Roomy) {entry : CodeEntry} {name : Atom}
    (hf : m.frame? = some f) (hcode : m.code? f.code = some entry)
    (hname : entry.variableNames[r.toNat]? = some name)
    (hfirst : ∀ j < r.toNat, entry.variableNames[j]? ≠ some name) (hn : m.Unshadowed f name) :
    m.search? name = some (some (.register r)) := by
  have hfind : entry.variableNames.findIdx? (· == name) = some r.toNat := by
    obtain ⟨hlt, hget⟩ := Array.getElem?_eq_some_iff.mp hname
    rw [Array.findIdx?_eq_some_iff_getElem]
    refine ⟨hlt, by simp [hget], fun j hj => ?_⟩
    have := hfirst j hj
    rw [Array.getElem?_eq_getElem (Nat.lt_trans hj hlt)] at this
    simpa using fun h => this (congrArg some h)
  obtain ⟨ids, hlength, hc⟩ := (hm.frames f (Array.mem_of_back? hf)).blocks hroom
  rw [Unshadowed, ← hlength] at hn
  obtain ⟨depth, scope, hsearch⟩ := searchRecords_of_not_mem hc hn 0
  rw [hlength] at hsearch
  unfold Machine.search?
  rw [hf]
  dsimp only
  rw [hsearch]
  dsimp only
  rw [hcode]
  dsimp only
  rw [hfind]
  exact congrArg (fun index => some (some (Location.register index))) (UInt32.ofNat_toNat (x := r))

theorem Intact.resolveName (hm : m.Intact) (hroom : m.heap.Roomy) {entry : CodeEntry} {name : Atom}
    (hf : m.frame? = some f) (hcode : m.code? f.code = some entry)
    (hname : entry.variableNames[r.toNat]? = some name)
    (hfirst : ∀ j < r.toNat, entry.variableNames[j]? ≠ some name) (hn : m.Unshadowed f name) :
    resolveName name env m = .ok (m.register r) m := by
  unfold ScriptMachine.resolveName
  rw [get_bind, hm.search? hroom hf hcode hname hfirst hn]
  rfl

/-- **A new array of the arguments** has the parameters that were passed. -/
theorem Intact.argumentsObject (hm : m.Intact) {entry : CodeEntry} (hf : m.frame? = some f)
    (hcode : m.code? f.code = some entry) (hr : r < entry.block.paramCount) (hpassed : r.toNat < f.argc) :
    Affords env (argumentsObject env m) (fun value m' => m'.heap.Roomy →
        ∃ id c elements, value = .cell id ∧ m'.heap.cell? id = some c ∧
          c.payload = .array elements ∧ elements.items[r.toNat]? = some (m.register r))
      fun u _ => ∃ limit, u = .fatal (.outOfMemory limit) := by
  refine Goes.affords ?_ .argumentsObject
  refine Goes.framed hf (Goes.look ?_)
  rw [hcode]
  have hsupplies (elements : Elements) : m.Supplies (.array elements) := trivial
  refine Goes.look (Goes.bind ((Goes.allocate hm _ (hsupplies _)).mono (fun _ _ _ h => h)
    fun _ _ _ h => h.2) ?_)
  rintro id m' hm' ⟨-, hcell⟩
  refine Goes.ret hm' fun hroom => ?_
  obtain ⟨c, hc, hp⟩ := hcell hroom
  refine ⟨id, c, _, rfl, hc, hp, ?_⟩
  have hlt : r.toNat < min entry.block.paramCount.toNat f.argc :=
    lt_min (UInt32.lt_iff_toNat_lt.mp hr) hpassed
  rw [Array.getElem?_append_left (by simpa using hlt)]
  simp [hlt]

/-- **All ways of reading give what the record has.** -/
theorem Intact.shows (hm : m.Intact) (hroom : m.heap.Roomy)
    (hrecord : ∀ record, m.scopeRecord? a = some record →
      r.toNat < record.slots.size ∧ record.slots.getD r.toNat .undefined = v) : m.Shows a r v := by
  have hown (f : Frame) (hf : m.frame? = some f) (ha : f.activation = some a) : m.register r = v := by
    obtain ⟨record, hthere, hsize⟩ := (hm.frames f (Array.mem_of_back? hf)).activation hroom a ha
    obtain ⟨hlt, hvalue⟩ := hrecord record hthere
    rw [hsize] at hlt
    rw [register_of_moved hf ha (UInt32.lt_iff_toNat_lt.mpr hlt), scopeSlot_of_record hthere, hvalue]
  refine ⟨hown, fun depth hdepth => ?_, fun f entry name env hf ha hcode hname hfirst hn => ?_,
    fun f entry env hf ha hcode hr hpassed => ?_⟩
  · obtain ⟨record, hthere⟩ := hm.scopeAt? hroom hdepth
    unfold scopedVar
    rw [hdepth]
    exact (scopeSlot_of_record hthere _).trans (hrecord record hthere).2
  · rw [hm.resolveName hroom hf hcode hname hfirst hn, hown f hf ha]
  · rw [← hown f hf ha]
    exact hm.argumentsObject hf hcode hr hpassed

/-! ### Moving variables -/

/-- **The variables of a frame have moved to a record**, unnoticed, and for good. -/
structure Moved (m : Machine) (f : Frame) (a : Handle) (m' : Machine) : Prop where
  /-- No register has changed. -/
  unnoticed : ∀ r, m'.register r = m.register r
  /-- Moving them again does nothing. -/
  again : ∀ env, tearOffActivation env m' = .ok a m'
  /-- If they have just moved, the record is the head of the scope chain. -/
  head : f.activation = none → m'.scopeAt? 0 = some a
  /-- As long as the frame is there, its variables are in the record. -/
  lasting : ∀ writes m'', m'.Lasts (m.frames.size - 1) writes m'' →
    ∃ f'', m''.frames[m.frames.size - 1]? = some f'' ∧ f''.call = f.call ∧ f''.activation = some a
  /-- Whatever happens, a variable has the value that was written to it last. -/
  shared : ∀ writes m'' r, m'.Trail writes m'' → m''.heap.Roomy → r < f.varCount →
    m''.Shows a r ((SlotWrite.last? a r.toNat writes).getD (m.register r))

/-- Moving variables that have moved does nothing. -/
theorem tearOffActivation_of_moved (hf : m.frame? = some f) (ha : f.activation = some a) :
    tearOffActivation env m = .ok a m := by
  unfold tearOffActivation
  rw [bind_eq_of_ok (currentFrame_eq hf env), ha]
  rfl

/-- **The last write is what is read**, after any run. -/
theorem Intact.shared (hm : m.Intact) (hf : m.frame? = some f) (ha : f.activation = some a)
    (ht : m.Trail writes m') (hroom : m'.heap.Roomy) (hr : r < f.varCount) :
    m'.Shows a r ((SlotWrite.last? a r.toNat writes).getD (m.register r)) := by
  have hroomy : m.heap.Roomy := Nat.lt_of_le_of_lt (ht.size_le hm) hroom
  obtain ⟨record, hrecord, hsize⟩ := (hm.frames f (Array.mem_of_back? hf)).activation hroomy a ha
  have hlt : r.toNat < record.slots.size := by
    rw [hsize]
    exact UInt32.lt_iff_toNat_lt.mp hr
  rw [register_of_moved hf ha hr, scopeSlot_of_record hrecord]
  refine (ht.intact hm).shows hroom fun record' hrecord' => ?_
  rcases ht.scopeRecord? hm hroom hrecord with hthere | hspent
  · obtain rfl := Option.some.inj (hthere.symm.trans hrecord')
    exact ⟨by rwa [size_applyAll], SlotWrite.getD_applyAll a writes hlt _⟩
  · rw [scopeRecord?_of_spent hspent] at hrecord'
    cases hrecord'

/-- Variables that are in a record, where they were before, have moved there. -/
theorem Intact.moved {f' : Frame} (hm : m'.Intact) (hf : m'.frame? = some f') (ha : f'.activation = some a)
    (hsize : m'.frames.size = m.frames.size) (hcall : f'.call = f.call)
    (hregister : ∀ r, m'.register r = m.register r)
    (hhead : f.activation = none → f'.scope = some a) : m.Moved f a m' where
  unnoticed := hregister
  again env := tearOffActivation_of_moved hf ha
  head h := by
    unfold Machine.scopeAt? scopeWalk
    rw [hf]
    simpa [Machine.scopeUp?] using hhead h
  lasting writes m'' hl := by
    have hat : m'.frames[m.frames.size - 1]? = some f' := by
      rw [← hsize, ← Array.back?_eq_getElem?]
      exact hf
    obtain ⟨f'', hf'', hcarries⟩ := hl.carries hat
    exact ⟨f'', hf'', hcarries.call.trans hcall, hcarries.activation a ha⟩
  shared writes m'' r ht hroom hr := by
    rw [← hregister r]
    refine hm.shared hf ha ht hroom ?_
    have hcount : f'.varCount = f.varCount := (congrArg Frame.varCount hcall :)
    rwa [hcount]

/-- **Moving variables changes no register.** -/
theorem register_tornOff {mid : Machine} (hf : m.frame? = some f) (ha : f.activation = none)
    (hq : m.Quiet mid) (hrecord : mid.scopeRecord? a = some (m.activationRecord f)) (r : Register) :
    (mid.tornOff a).register r = m.register r := by
  have hf' : (mid.tornOff a).frame? = some { f with activation := some a, scope := some a } :=
    frame?_modifyFrame (hq.frame?.trans hf)
  rw [register_of_not_moved hf ha]
  by_cases hr : r < f.varCount
  · have hrecord' : (mid.tornOff a).scopeRecord? a = some (m.activationRecord f) := hrecord
    have hlt : r.toNat < f.varCount.toNat := UInt32.lt_iff_toNat_lt.mp hr
    rw [register_of_moved hf' rfl hr, scopeSlot_of_record hrecord']
    simp [activationRecord, Array.getD_eq_getD_getElem?, hlt]
  · unfold register Frame.redirects
    rw [hf']
    simp only [if_neg hr]
    exact congrArg (·.get (f.base + r.toNat)) hq.registers

end Machine

/-! ### The result -/

/-- **All that happens in an environment is a run**. -/
structure Env.Traces (env : Env) : Prop where
  /-- What a host demands. -/
  demands : ∀ (m : Machine) (demand : Demand), m.Intact → m.Arrives (leaves (demand.perform env m))
  /-- A turn of the loop. -/
  interpreted : ∀ (m m' : Machine) (mark : Nat), m.Intact → m.Entered → Interprets env mark m m' →
    m'.Arrives (leaves (turn (m.frames.size - 1) mark env m'))
  /-- A turn of tier code. -/
  compiled : ∀ (m m' : Machine) (code : Lowered) (mark index : Nat), m.Intact → m.Entered →
    Operates env code mark m index m' → m'.Arrives (leaves (tierTurn code mark index env m'))
  /-- As long as a frame is there between turns, its variables stay in the record they have moved to. -/
  stays : ∀ (m m' : Machine) (i : Nat) (f : Frame) (a : Handle), m.Orderly → Leads env i 0 m m' →
    m.frames[i]? = some f → f.activation = some a →
    ∃ f', m'.frames[i]? = some f' ∧ f'.activation = some a

/-- **Moving the variables of a frame to the heap is unnoticed**, and from then on there is one copy of
them, whatever happens (`Machine.Trail`). All machines that a host can get at are intact, all that happens
to them is a run, and a run says which variables the frame and its closures write. -/
theorem moved_variables_are_shared :
    (∀ m : Machine, m.Visited → m.Intact) ∧
    (∀ (pause : Machine → List Value → Bool) (fuel : Nat),
      Env.Traces { reenter := perform pause fuel, fuel, pause }) ∧
    (∀ (m : Machine) (f : Frame) (a : Handle) (r : Register) (v : Value), m.frame? = some f →
      f.activation = some a → r < f.varCount → m.registerWrites r v = [⟨a, r.toNat, v⟩]) ∧
    (∀ (m : Machine) (a : Handle) (depth : UInt32) (r : Register) (v : Value),
      m.scopeAt? depth = some a → m.scopedWrites depth r v = [⟨a, r.toNat, v⟩]) ∧
    ∀ (env : Env) (m : Machine) (f : Frame), m.Intact → m.frame? = some f →
      Affords env (tearOffActivation env m) (fun a m' => m'.heap.Roomy → m.Moved f a m')
        fun u m' => (∃ limit, u = .fatal (.outOfMemory limit)) ∧ ∀ r, m'.register r = m.register r := by
  refine ⟨fun _ => Visited.intact, fun pause fuel => ?_, fun m f a r v hf ha hr => ?_,
    fun m a depth r v hdepth => ?_, fun env m f hm hf => ?_⟩
  · have he := faithful_perform pause fuel
    refine ⟨fun m demand hm => (Goes.demand he hm demand).arrives, ?_, ?_, ?_⟩
    · intro m m' mark hm hentered hrun
      obtain ⟨hm', hp⟩ := hrun.poised he hm hentered
      have hgoes := Goes.turn he hm' hp.here mark
      rw [List.length_dropLast, length_spots] at hgoes
      exact hgoes.arrives
    · intro m m' code mark index hm hentered hrun
      obtain ⟨hm', -, hcompiled, hlt⟩ := hrun.index_lt he hm
      exact (Goes.tierTurn he hm' hcompiled mark hlt).arrives
    · intro m m' i f a hm hl hf ha
      obtain ⟨-, f', hf', -, hkept, -⟩ := hl.sameHead (orderly_perform pause fuel) hm hf (Nat.zero_le _)
      exact ⟨f', hf', hkept a ha⟩
  · unfold registerWrites Frame.redirects
    rw [hf]
    simp only [if_pos hr, ha]
  · unfold scopedWrites
    rw [hdepth]
  · cases ha : f.activation with
    | some a =>
      rw [tearOffActivation_of_moved hf ha]
      exact fun _ => hm.moved hf ha rfl rfl (fun _ => rfl) fun hnone => by rw [ha] at hnone; cases hnone
    | none =>
      refine Goes.affords ((Goes.tearOffActivation hm hf).mono (fun a m' hm' h hroom => ?_) ?_)
        .tearOffActivation
      · rw [ha] at h
        obtain ⟨mid, hq, hrecord, rfl⟩ := h
        have hf' : (mid.tornOff a).frame? = some { f with activation := some a, scope := some a } :=
          frame?_modifyFrame (hq.frame?.trans hf)
        refine hm'.moved hf' rfl ?_ rfl (register_tornOff hf ha hq (hrecord hroom)) fun _ => rfl
        simp [tornOff, modifyFrame, hq.frames]
      · rintro u m' - ⟨hq, hmemory⟩
        refine ⟨hmemory, fun r => ?_⟩
        rw [register_of_not_moved hf ha, register_of_not_moved (hq.frame?.trans hf) ha, hq.registers]

/-- A function is called with null, which closures capture. -/
def capturing : Machine where
  config := {}
  heap := Heap.new {}
  codes := #[.fresh { instructions := #[⟨.ret 0, none⟩], identifiers := #["parameter"]
                      variableIds := #[0], paramCount := 1, varCount := 1, registerCount := 1
                      needsActivation := true } #[⟨7⟩] #[] []]
  registers := { registers := #[.null], capacity := 10 }
  frames := #[{ code := ⟨0⟩, pc := 0, base := 0, registerCount := 1, varCount := 1
                returnRegister := none, argc := 1, extraArgs := #[], callee := .undefined
                this := .undefined, scope := none, activation := none, scopeDepth := 0
                isConstruct := false, entryBoundary := true }]
  intrinsics := default
  names := default
  watchdog := .new none 1

theorem intact_capturing : capturing.Intact := by
  have hheap : capturing.heap.Regular := (Heap.Built.new {}).regular
  have hanchors : capturing.Anchors none := fun _ _ h => by cases h
  refine ⟨hheap.white, fun _ => hheap.listed, fun id c hc => ?_, fun f hf => ?_, fun entry hentry => ?_⟩
  · simp [capturing, Heap.new, Heap.cell?] at hc
  · obtain rfl := List.mem_singleton.mp (Array.mem_def.mp hf)
    exact ⟨Nat.zero_lt_one, hanchors, (fun _ _ h => by cases h), .zero _ _⟩
  · obtain rfl := List.mem_singleton.mp (Array.mem_def.mp hentry)
    exact complete_fresh (Block.checkOwn_eq_ok_iff.mp (by decide)) rfl rfl rfl (by simp)

/-- The result of an action, if it has one. -/
def result? {α : Type} : EStateM.Result Stop Machine α → Option α
  | .ok a _ => some a
  | .error _ _ => none

theorem eq_of_result? {α : Type} {r : EStateM.Result Stop Machine α} {a : α} (h : result? r = some a) :
    r = .ok a (leaves r) := by
  cases r with
  | ok b m' =>
    obtain rfl := Option.some.inj h
    rfl
  | error _ _ => cases h

/-- The variable of a function moves to the heap, and the function writes it: the new value is read in
every way. -/
theorem moved_variables_are_shared_capturing :
    let env : Env := { reenter := perform (fun _ _ => false) 0, fuel := 0, pause := fun _ _ => false }
    ∃ (f : Frame) (a : Handle) (m' : Machine), capturing.Intact ∧ capturing.frame? = some f ∧
      tearOffActivation env capturing = .ok a m' ∧ capturing.Moved f a m' ∧ m'.register 0 = .null ∧
      (m'.setRegister 0 (.boolean true)).Shows a 0 (.boolean true) ∧
      (m'.setRegister 0 (.boolean true)).register 0 = .boolean true ∧
      (m'.setRegister 0 (.boolean true)).scopedVar 0 0 = .boolean true := by
  intro env
  obtain ⟨-, -, hown, -, hmoves⟩ := moved_variables_are_shared
  let f : Frame := capturing.frames.getD 0 default
  have hf : capturing.frame? = some f := rfl
  have hr := eq_of_result? (show result? (tearOffActivation env capturing) = some ⟨0, 0⟩ by decide +kernel)
  have haffords := hmoves env capturing f intact_capturing hf
  rw [hr] at haffords
  let m' := leaves (tearOffActivation env capturing)
  have hmoved : capturing.Moved f ⟨0, 0⟩ m' :=
    haffords (show m'.heap.slots.size < 2 ^ 32 by decide +kernel)
  have hsize : m'.frames.size = 1 := by decide +kernel
  obtain ⟨f', hget, hcall, ha⟩ := hmoved.lasting [] m' (.refl (by rw [hsize]; exact Nat.zero_lt_one))
  have hf' : m'.frame? = some f' := by
    rw [frame?, Array.back?_eq_getElem?, hsize]
    exact hget
  have hcount : 0 < f'.varCount := by
    rw [show f'.varCount = f.varCount from (congrArg Frame.varCount hcall :)]
    decide
  have hstep : m'.Trail [⟨⟨0, 0⟩, 0, .boolean true⟩] (m'.setRegister 0 (.boolean true)) := by
    rw [← show m'.registerWrites 0 (.boolean true) = [⟨⟨0, 0⟩, 0, .boolean true⟩] from
      hown m' f' _ 0 _ hf' ha hcount]
    exact .single (.register 0 _)
  have hshows : (m'.setRegister 0 (.boolean true)).Shows ⟨0, 0⟩ 0 (.boolean true) :=
    hmoved.shared _ _ 0 hstep
      (show (m'.setRegister 0 (.boolean true)).heap.slots.size < 2 ^ 32 by decide +kernel) (by decide)
  have hframe : (m'.setRegister 0 (.boolean true)).frame? = some f' := by
    rw [frame?, frames_setRegister]
    exact hf'
  refine ⟨f, _, m', intact_capturing, hf, hr, hmoved, ?_, hshows, ?_, ?_⟩
  · rw [hmoved.unnoticed]
    rfl
  · exact hshows.own f' hframe ha
  · exact hshows.chained 0 (by decide +kernel)

end ScriptMachine
