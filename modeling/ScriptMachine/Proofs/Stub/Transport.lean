import ScriptMachine.Proofs.Program.Validation
import ScriptMachine.Proofs.Safety.Compiled
import ScriptMachine.Proofs.Stack.Requests
import ScriptMachine.Proofs.Stack.Restored
import ScriptMachine.Proofs.Tier.Arguments

/-! # What stub calls transport

A stub call passes everything through words. On the way in, all readers of a frame read off it the list
of words it was made of (`StubFrame.Delivers`), and a host function reads off its frame the call it is
(`StubFrame.Presents`) at every moment of its run (`HostMoment`). On the way out the second channel tells
results and failures apart: no routine answers with the sentinel (`runRoutine_yields`), and what a routine
raised is parked until it is taken (`callStub_outcome`). -/

namespace ScriptMachine

open Machine

/-! ### Readers of a frame -/

namespace StubFrame

/-- **The frame delivers a list of words** to all that read it. -/
structure Delivers (f : StubFrame) (ws : List StubWord) : Prop where
  argc : f.argc = ws.length
  /-- An argument is the word at its position. -/
  arg : ∀ i (h : i < ws.length), f.arg i = ws[i]
  /-- Past the end, an argument is undefined. -/
  missing : ∀ i, ws.length ≤ i → f.arg i = .ofValue .undefined
  valuesFrom : ∀ start, f.valuesFrom start = (ws.drop start).map (·.value)
  /-- The collector is offered all words. -/
  words : ∀ w ∈ ws, w.bits ∈ f.words

theorem Filled.delivers {f : StubFrame} {ws : List StubWord} (h : f.Filled ws) : f.Delivers ws where
  argc := h.argc
  arg i hi := by rw [h.arg, List.getD_eq_getElem _ _ hi]
  missing i hi := by
    rw [h.arg, List.getD_eq_default _ _ hi]
    rfl
  valuesFrom := h.valuesFrom
  words w hw := by
    rw [h.words]
    exact List.mem_append_left _ (List.mem_map_of_mem hw)

/-- What a host function finds at a position of its frame: undefined past the end. -/
def slot (f : StubFrame) (index : Nat) : Value :=
  if index < f.argc then (f.arg index).value else .undefined

/-- The number of arguments that a host function finds: the words after the callee and the receiver. -/
def argumentCount (f : StubFrame) : Nat := f.argc - 2

/-- All arguments that a host function finds. -/
def arguments (f : StubFrame) : List Value := (List.range f.argumentCount).map fun i => f.slot (i + 2)

/-- **The frame presents a call** to the host function that reads it. -/
structure Presents (f : StubFrame) (c : HostCall) : Prop where
  callee : f.slot 0 = c.callee
  this : f.slot 1 = c.this
  argumentCount : f.argumentCount = c.args.size
  argument : ∀ i, f.slot (i + 2) = c.arg i
  arguments : f.arguments = c.args.toList

/-- A slot holds the value of a word. -/
theorem Filled.slot {f : StubFrame} {ws : List StubWord} (h : f.Filled ws) (i : Nat) :
    f.slot i = (ws.getD i .missing).value := by
  unfold StubFrame.slot
  rw [h.argc, h.arg]
  split
  case isTrue => rfl
  case isFalse hge =>
    rw [List.getD_eq_default _ _ (Nat.le_of_not_lt hge)]
    rfl

end StubFrame

/-- The words of a call of a host function. -/
def HostCall.words (c : HostCall) : List StubWord :=
  ([c.callee, c.this] ++ c.args.toList).map .ofValue

theorem StubFrame.Filled.presents {f : StubFrame} {c : HostCall} (h : f.Filled c.words) : f.Presents c := by
  have hcount : f.argumentCount = c.args.size := by simp [argumentCount, h.argc, HostCall.words]
  have hargument (i : Nat) : f.slot (i + 2) = c.arg i := by
    rw [h.slot, HostCall.arg, Array.getD_eq_getD_getElem?, List.getD_eq_getElem?_getD]
    simp only [HostCall.words, List.cons_append, List.nil_append, List.map_cons, List.getElem?_cons_succ,
      List.getElem?_map, Array.getElem?_toList]
    cases c.args[i]? <;> rfl
  refine ⟨h.slot 0, h.slot 1, hcount, hargument, ?_⟩
  unfold arguments
  rw [hcount]
  apply List.ext_getElem
  · simp
  · intro i hi hi'
    have hlt : i < c.args.size := by simpa using hi
    simp only [List.getElem_map, List.getElem_range, hargument, HostCall.arg, Array.getElem_toList]
    rw [Array.getD_eq_getD_getElem?, Array.getElem?_eq_getElem hlt, Option.getD_some]

/-! ### Host functions -/

/-- **A moment in the run of a host program**: the machine, and what is left of the program. -/
inductive HostMoment (env : Env) (start : Machine) (program : HostProgram) : Machine → HostProgram → Prop
  /-- The beginning. -/
  | first : HostMoment env start program start program
  /-- A question has been answered. -/
  | answered {m m' : Machine} {query : HostQuery} {next : query.Reply → HostProgram} {reply : query.Reply} :
      HostMoment env start program m (.ask query next) → answer query env m = .ok reply m' →
      HostMoment env start program m' (next reply)
  /-- A listener has been registered. -/
  | listening {m m' : Machine} {listener : Listener} {next : HostProgram} :
      HostMoment env start program m (.listen listener next) → addListener listener env m = .ok () m' →
      HostMoment env start program m' next

namespace Machine

/-- The machine while a stub runs on a list of words. -/
def entering (m : Machine) (ws : List StubWord) : Machine :=
  { m with stubFrames := m.stubFrames.push (m.stubFrame ws) }

/-- The machine when the stub has ended. -/
def leaving (m : Machine) : Machine := { m with stubFrames := m.stubFrames.pop }

end Machine

variable {m m' : Machine} {env : Env} {ws : List StubWord} {program rest : HostProgram}

/-- A host function runs on a frame with the words of its call. -/
theorem runHostFunction_eq {function : HostId} {entry : HostEntry} (h : m.hosts[function.index]? = some entry)
    (c : HostCall) : ∃ finish : Except Failure Value → MachineM Value, ∀ env,
      runHostFunction function c env m = (runHost (entry.run c) >>= finish) env (m.entering c.words) := by
  unfold runHostFunction
  apply Exists.intro
  intro env
  rw [bind_eq_of_ok (show (get : MachineM Machine) env m = .ok m m from rfl)]
  dsimp only
  rw [h]
  rfl

/-- **The end of a run** is one of its moments. -/
theorem HostMoment.done {start : Machine} {result : Except Failure Value}
    (h : HostMoment env start program m rest) (hrun : runHost rest env m = .ok result m') :
    HostMoment env start program m' (.done result) := by
  induction rest generalizing m with
  | done _ =>
    cases hrun
    exact h
  | ask query next ih =>
    cases hanswer : answer query env m with
    | ok reply m₁ =>
      rw [runHost, bind_eq_of_ok hanswer] at hrun
      exact ih reply (h.answered hanswer) hrun
    | error stop m₁ =>
      rw [runHost, bind_eq_of_error hanswer] at hrun
      cases hrun
  | listen listener next _ ih => exact ih (h.listening rfl) hrun

/-- **The frames of stubs stay** as they are for the whole run of a plain host program. -/
theorem HostMoment.stubFrames (he : env.Orderly) (hm : m.Orderly) (hp : program.Plain)
    (h : HostMoment env m program m' rest) :
    m'.Orderly ∧ rest.Plain ∧ m'.stubFrames = m.stubFrames := by
  induction h with
  | first => exact ⟨hm, hp, rfl⟩
  | answered _ hanswer ih =>
    obtain ⟨hm₁, hp₁, hstubs⟩ := ih
    cases hp₁ with
    | ask hq hnext =>
      have hproceeds := Proceeds.answer (E := fun _ _ => True) he hm₁ hq
      rw [hanswer] at hproceeds
      exact ⟨hproceeds.orderly, hnext _, hproceeds.ends.2.stubFrames.trans hstubs⟩
  | listening _ hlisten ih =>
    obtain ⟨hm₁, hp₁, hstubs⟩ := ih
    cases hp₁ with
    | listen hl hnext =>
      cases hlisten
      refine ⟨(hm₁.relisten _ (fun listener hmem => ?_) _).1, hnext, hstubs⟩
      exact (Array.mem_push.mp hmem).elim (hm₁.hosted.listeners listener) fun heq => heq ▸ hl

/-! ### Sites -/

/-- **An accepted block names no cache by the word that stands for none.** -/
theorem Block.cache_ne_noSite {b : Block} (hb : b.validate = .ok ()) {instruction : Instruction}
    (hi : instruction ∈ b.instructions) {cache : UInt32}
    (hc : .propertyCache cache ∈ instruction.opcode.operands ∨ .callCache cache ∈ instruction.opcode.operands) :
    cache ≠ noSite := by
  cases (Block.validate_eq_ok_iff b).mp hb with
  | intro hown _ => exact Operand.Fits.cache_ne (hc.imp (hown.operands _ hi _) (hown.operands _ hi _))

theorem site_noSite {i : Nat} (hw : ws.getD i .missing = .ofIndex noSite) : (m.stubFrame ws).site i = none := by
  unfold StubFrame.site
  rw [arg_stubFrame, hw, StubWord.index_ofIndex]
  cases (m.stubFrame ws).code <;> simp

/-! ### Answers -/

/-- All results that an action can have have a property. -/
def Yields {α : Type} (x : MachineM α) (P : α → Prop) : Prop :=
  ∀ env m a m', x env m = .ok a m' → P a

namespace Yields

variable {α β : Type} {P : β → Prop}

theorem ret {b : β} (hb : P b) : Yields (pure b) P := fun _ _ _ _ h => by
  cases h
  exact hb

theorem unwind (u : Unwind) : Yields (unwind u : MachineM β) P := fun _ _ _ _ h => by cases h

/-- The last action has the result. -/
theorem bind {x : MachineM α} {g : α → MachineM β} (hg : ∀ a, Yields (g a) P) : Yields (x >>= g) P := by
  intro env m b m' h
  cases hx : x env m with
  | ok a m₁ =>
    rw [bind_eq_of_ok hx] at h
    exact hg a env m₁ b m' h
  | error stop m₁ =>
    rw [bind_eq_of_error hx] at h
    cases h

theorem raise (v : Value) : Yields (raise v : MachineM β) P := bind fun _ => bind fun _ => unwind _

theorem raiseError (kind : ErrorKind) (message : String) : Yields (raiseError kind message : MachineM β) P :=
  bind fun _ => raise _

end Yields

/-- A number of 32 bits is not the sentinel. -/
theorem toUInt64_ne_exceptionSentinel (n : UInt32) : n.toUInt64 ≠ exceptionSentinel := by
  intro h
  have hlt := n.toNat_lt
  have hnat : n.toNat = exceptionSentinel.toNat := by rw [← h, UInt32.toNat_toUInt64]
  rw [show exceptionSentinel.toNat = 2 ^ 64 - 1 from rfl] at hnat
  omega

/-- **No routine answers with the sentinel.** -/
theorem runRoutine_yields (f : StubFrame) (routine : Routine) :
    Yields (runRoutine f routine) fun r => r.isException = false := by
  have hanswer (v : Value) : Yields (runRoutine.answer v) fun r => r.isException = false := .ret rfl
  have harity (callee : Value) (argc : UInt32) :
      Yields (arityCheck callee argc) fun r => r.isException = false := by
    refine .bind fun m => ?_
    split
    · exact .ret (beq_false_of_ne (toUInt64_ne_exceptionSentinel _))
    · exact .raiseError _ _
  cases routine with
  | callArityCheck => exact harity _ _
  | throw => exact .raise _
  | newObject | _ => exact .bind fun _ => hanswer _

/-- A stub call attempts its routine, and parks what is raised. -/
theorem callStub_attempt (m : Machine) (ws : List StubWord) (routine : Routine) (env : Env) :
    ∃ finish : Except Unwind StubReturn → MachineM StubReturn,
      callStub routine ws env m = (attempt (runRoutine (m.stubFrame ws) routine) >>= finish) env (m.entering ws) ∧
      (∀ r n, finish (.ok r) env n = .ok r n.leaving) ∧
      ∀ u n, finish (.error u) env n = .ok .raised { n.leaving with stubUnwind := some u } := by
  rw [callStub_eq]
  exact ⟨_, rfl, fun _ _ => rfl, fun _ _ => rfl⟩

/-- **A stub call ends as its routine does**: a result is passed on, what was raised can be taken, and nothing else
is caught. -/
structure StubOutcome (m : Machine) (ws : List StubWord) (routine : Routine) (env : Env) : Prop where
  answered : ∀ r n, runRoutine (m.stubFrame ws) routine env (m.entering ws) = .ok r n →
    callStub routine ws env m = .ok r n.leaving ∧ r.isException = false
  raised : ∀ u n, runRoutine (m.stubFrame ws) routine env (m.entering ws) = .error (.unwound u) n →
    ∃ r n', callStub routine ws env m = .ok r n' ∧ r.isException = true ∧
      takeStubUnwind env n' = .ok u { n.leaving with stubUnwind := none }
  stopped : ∀ stop n, (∀ u, stop ≠ .unwound u) →
    runRoutine (m.stubFrame ws) routine env (m.entering ws) = .error stop n → callStub routine ws env m = .error stop n

theorem callStub_outcome (m : Machine) (ws : List StubWord) (routine : Routine) (env : Env) :
    StubOutcome m ws routine env := by
  obtain ⟨finish, hcall, hok, herror⟩ := callStub_attempt m ws routine env
  refine ⟨fun r n hr => ⟨?_, runRoutine_yields _ _ _ _ _ _ hr⟩,
    fun u n hr => ⟨.raised, { n.leaving with stubUnwind := some u }, ?_, rfl, rfl⟩, fun stop n hs hr => ?_⟩
  · rw [hcall, bind_eq_of_ok (attempt_eq_of_ok hr), hok]
  · rw [hcall, bind_eq_of_ok (attempt_eq_of_unwound hr), herror]
  · rw [hcall, bind_eq_of_error (attempt_eq_of_stopped hr hs)]

/-! ### All of it -/

/-- **Stub calls transport everything.**

* Whatever words a frame is made of, however many, all readers get these words and the undefined word
  past their end, and while the frame is on the stack every cell among them is a root of a collection.
* A host function, any `HostProgram`, runs on a frame that presents its call, and finds it in its place at every moment of the
  run, to its end.
* Indices and atoms survive the way through a word. So a site that validation accepts is found as it was
  given, and `noSite` as no site.
* The answer of a stub call is the sentinel just when the routine raised, and what it raised can then be
  taken. -/
theorem stub_calls_transport (m : Machine) :
    (∀ ws, (m.stubFrame ws).Delivers ws ∧
      ∀ n : Machine, m.stubFrame ws ∈ n.stubFrames → ∀ w ∈ ws, w.value ∈ n.anchors) ∧
    (∀ c : HostCall, (m.stubFrame c.words).Presents c ∧
      ∀ (function : HostId) entry, m.hosts[function.index]? = some entry →
        (∃ finish : Except Failure Value → MachineM Value, ∀ env,
          runHostFunction function c env m = (runHost (entry.run c) >>= finish) env (m.entering c.words)) ∧
        (∀ env result m', runHost (entry.run c) env (m.entering c.words) = .ok result m' →
          HostMoment env (m.entering c.words) (entry.run c) m' (.done result)) ∧
        ∀ env : Env, env.Orderly → m.Orderly → ∀ m' rest,
          HostMoment env (m.entering c.words) (entry.run c) m' rest →
          m'.stubFrames[m.stubFrames.size]? = some (m.stubFrame c.words)) ∧
    (∀ index, (StubWord.ofIndex index).index = index) ∧
    (∀ atom, (StubWord.ofAtom atom).atom = atom) ∧
    (∀ b : Block, b.validate = .ok () → ∀ instruction ∈ b.instructions, ∀ cache,
      (.propertyCache cache ∈ instruction.opcode.operands ∨
        .callCache cache ∈ instruction.opcode.operands) → cache ≠ noSite) ∧
    (∀ ws i cache, ws.getD i .missing = .ofIndex cache →
      (m.stubFrame ws).site i = if cache = noSite then none else m.siteAt cache) ∧
    ∀ ws routine env, StubOutcome m ws routine env := by
  have hfilled (ws : List StubWord) : (m.stubFrame ws).Filled ws := StubFrame.filled_ofWords _ _ ws
  refine ⟨fun ws => ⟨(hfilled ws).delivers, fun n hn w hw => ?_⟩,
    fun c => ⟨(hfilled c.words).presents, fun function entry hentry => ⟨runHostFunction_eq hentry c,
      fun env result m' hrun => .done .first hrun, ?_⟩⟩,
    StubWord.index_ofIndex, StubWord.atom_ofAtom,
    fun b hb instruction hi cache hc => Block.cache_ne_noSite hb hi hc, fun ws i cache hw => ?_,
    callStub_outcome m⟩
  · refine mem_anchors.mpr (.inr (.inl (List.mem_flatMap.mpr ⟨_, Array.mem_toList_iff.mpr hn, ?_⟩)))
    exact (hfilled ws).delivers.words w hw
  · intro env he hm m' rest hmoment
    have hpushed := (hm.beside (n := m.entering c.words) rfl rfl rfl rfl rfl rfl rfl rfl).1
    have hplain : (entry.run c).Plain := hm.hosted.hosts entry (Array.mem_of_getElem? hentry) c
    obtain ⟨-, -, hstubs⟩ := hmoment.stubFrames he hpushed hplain
    rw [hstubs]
    exact Array.getElem?_push_size
  · split
    case isTrue hno => exact site_noSite (hno ▸ hw)
    case isFalse hne => exact site_stubFrame hne hw

/-- A host function with five arguments, of which the last is spilled, asks for the number of frames, and its
frame is still there. -/
theorem stub_calls_transport_asking : ∃ (m : Machine) (env : Env) (c : HostCall) (entry : HostEntry) (m' : Machine)
    (rest : HostProgram), env.Orderly ∧ m.Orderly ∧ m.hosts[0]? = some entry ∧ c.args.size = 5 ∧
      HostMoment env (m.entering c.words) (entry.run c) m' rest ∧
      m'.stubFrames[m.stubFrames.size]? = some (m.stubFrame c.words) ∧ (m.stubFrame c.words).Presents c := by
  let entry : HostEntry := ⟨default, 0, fun _ => .ask .depth fun _ => .done (.ok .null)⟩
  let m : Machine := { calling (.ret 0) with hosts := (calling (.ret 0)).hosts.push entry }
  let env : Env := { reenter := perform (fun _ _ => false) 0, fuel := 0, pause := fun _ _ => false }
  let c : HostCall := ⟨.null, .undefined, #[.null, .undefined, .boolean true, .boolean false, .null], false⟩
  have he : env.Orderly := orderly_perform _ _
  have hm : m.Orderly := (orderly_calling _).pushHost fun _ => .ask trivial fun _ => .done _
  have hentry : m.hosts[0]? = some entry := rfl
  have hmoment : HostMoment env (m.entering c.words) (entry.run c) (m.entering c.words) (.done (.ok .null)) :=
    .answered .first (show answer .depth env (m.entering c.words) = .ok m.frames.size (m.entering c.words) from rfl)
  obtain ⟨-, hcalls, -⟩ := stub_calls_transport m
  obtain ⟨hpresents, hruns⟩ := hcalls c
  obtain ⟨-, -, hstays⟩ := hruns ⟨0⟩ entry hentry
  exact ⟨m, env, c, entry, _, _, he, hm, hentry, rfl, hmoment, hstays env he hm _ _ hmoment, hpresents⟩

end ScriptMachine
