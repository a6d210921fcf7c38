import ScriptMachine.Proofs.Tandem.Conversions

/-! # Allocations of two runs

Two allocations make a new pair of cells, whichever of the machines collected for them
(`Meets.allocate`). A write that is tried again after a collection does what it does without one
(`Meets.heapWrite`). Errors are raised alike. -/

namespace ScriptMachine

open Machine

variable {α β : Type} {ρ ρ' : Pairing} {m m' k k' : Machine} {v w x y : Value} {env env' : Env}

/-- **Values that match** and that collections find. -/
structure Machine.Guarded (ρ : Pairing) (m m' : Machine) (v w : Value) : Prop where
  same : ρ.Matches v w
  left : m.Guards v
  right : m'.Guards w

/-- **What two allocations made**: values that match. -/
structure Made (m m' : Machine) (ρ : Pairing) (v : Value) (k : Machine) (w : Value) (k' : Machine) :
    Prop where
  same : ρ.Matches v w
  left : Runs.Allocated m v k
  right : Runs.Allocated m' w k'

theorem Machine.Guarded.both (hk : Guarded ρ m m' v w) (ht : m.Twins ρ m') :
    Heap.Both ρ m.heap m'.heap v w := ht.both hk.same hk.left.holds hk.right.holds

theorem Machine.Guarded.word (hv : v.cell? = none) : Guarded ρ m m' v v :=
  ⟨.word hv, guards_of_not_cell hv, guards_of_not_cell hv⟩

theorem Machine.Twins.intrinsic (ht : m.Twins ρ m') {id : Handle} (hid : id ∈ m.intrinsics.objects) :
    Guarded ρ m m' (.cell id) (.cell id) :=
  ⟨.cell (ht.anchored id hid), ht.safe.guards_intrinsic hid,
    ht.safe'.guards_intrinsic (by rw [ht.intrinsics]; exact hid)⟩

theorem Made.guarded (hm : Made m m' ρ v k w k') (ht : k.Twins ρ k') : Guarded ρ k k' v w :=
  ⟨hm.same, ht.safe.guards_temporary hm.left.temporary, ht.safe'.guards_temporary hm.right.temporary⟩

theorem Made.vals (hm : Made m m' ρ v k w k') (ht : k.Twins ρ k') : Vals ρ v k w k' :=
  (hm.guarded ht).both ht

/-- What was guarded is live afterwards. -/
theorem Made.stays (hm : Made m m' ρ' v k w k') (hle : ρ ⊆ ρ') (ht : k.Twins ρ' k')
    (hk : Guarded ρ m m' x y) : Heap.Both ρ' k.heap k'.heap x y :=
  ht.both (hk.same.mono hle) (hm.left.kept x hk.left) (hm.right.kept y hk.right)

namespace Meets

variable {Q Q' : Pairing → α → Machine → β → Machine → Prop} {r : EStateM.Result Stop Machine α}
  {r' : EStateM.Result Stop Machine β}

/-- Results of twins. -/
theorem imp (h : Meets ρ Q r r') (hQ : ∀ ρ' a k b k', ρ ⊆ ρ' → k.Twins ρ' k' → Q ρ' a k b k' →
    Q' ρ' a k b k') : Meets ρ Q' r r' := by
  cases h with
  | ok hle ht hq => exact .ok hle ht (hQ _ _ _ _ _ hle ht hq)
  | unwound hle ht hu => exact .unwound hle ht hu
  | exhausted => exact .exhausted
  | left h => exact .left h
  | right h => exact .right h

end Meets

/-! ### What scripts do not notice -/

namespace Machine

variable {site : Site} {name : Atom}

/-- **A machine that seems the same** to scripts: cells are lost that nothing reaches, and caches
change. -/
structure Seems (m k : Machine) : Prop where
  sheds : m.Sheds k
  safe : k.Safe
  recalls : k.Remembers m.SiteNamed

/-- The machine, possibly after a collection. -/
def Swept (m k : Machine) : Prop := k = m ∨ k = m.collect.2

theorem Seems.refl (hs : m.Safe) (hr : m.Remembers m.SiteNamed) : m.Seems m := ⟨.refl m, hs, hr⟩

theorem Seems.cacheProperty (hs : m.Safe) (hr : m.Remembers m.SiteNamed) {e : PropertyEntry}
    (hv : e.Valid m.heap name) (hk : m.heap.atoms.Knows name) (hn : m.SiteFor site name) :
    m.Seems (m.cacheProperty site e) :=
  ⟨.cacheProperty m site e, (hs.cacheProperty hv hk).1, hr.cacheProperty hv hk hn⟩

theorem Seems.recalled (h : m.Seems k) : k.Remembers k.SiteNamed :=
  h.recalls.mono fun _ _ _ => h.sheds.siteNamed

theorem Twins.seems (ht : m.Twins ρ m') (hc : m.Seems k) (hc' : m'.Seems k') : k.Twins ρ k' :=
  ht.sheds hc.sheds hc'.sheds hc.safe hc'.safe hc.recalls hc'.recalls

theorem Swept.seems (h : m.Swept k) (hs : m.Safe) (hr : m.Remembers m.SiteNamed) : m.Seems k := by
  rcases h with rfl | rfl
  · exact .refl hs hr
  · exact ⟨.collect hs, hs.collect, hr.collect hs.heap⟩

theorem Swept.grows (h : m.Swept k) (hs : m.Safe) : m.Grows k := by
  rcases h with rfl | rfl
  · exact .refl _
  · exact grows_collect hs

theorem Swept.holds (h : m.Swept k) (hs : m.Safe) (hv : m.Guards v) : k.Holds v := by
  rcases h with rfl | rfl
  · exact hv.holds
  · exact hv.collect hs

theorem Twins.swept (ht : m.Twins ρ m') (h : m.Swept k) (h' : m'.Swept k') : k.Twins ρ k' :=
  ht.seems (h.seems ht.safe ht.recalled) (h'.seems ht.safe' ht.recalled')

theorem Guarded.swept (hv : Guarded ρ m m' v w) (ht : m.Twins ρ m') (h : m.Swept k) (h' : m'.Swept k') :
    Heap.Both ρ k.heap k'.heap v w :=
  (ht.swept h h').both hv.same (h.holds ht.safe hv.left) (h'.holds ht.safe' hv.right)

end Machine

/-! ### A new cell -/

section Allocate

variable {shape shape' : ShapeId} {payload payload' : Payload} {prototype prototype' : Value}

theorem Heap.size_allocate_le (h : Heap) (shape : ShapeId) (payload : Payload) :
    (h.allocate shape payload).2.slots.size ≤ h.slots.size + 1 := by
  rcases allocate_cases h shape payload with ⟨_, heq⟩ | ⟨bytes, -, heq⟩
  · rw [heq]
    exact Nat.le_succ _
  · rw [heq]
    dsimp only [Heap.place]
    split
    · rw [Array.size_modify]
      exact Nat.le_succ _
    · rw [Array.size_push]

theorem Heap.allocate_or (h : Heap) (shape : ShapeId) (payload : Payload) :
    (∃ bytes, h.allocate shape payload = (.error (.outOfMemory bytes), h)) ∨
      ∃ id, (h.allocate shape payload).1 = .ok id := by
  unfold Heap.allocate
  dsimp only
  split
  · exact .inl ⟨_, rfl⟩
  · exact .inr ⟨_, rfl⟩

/-- The handle of a new cell was not issued before, so those that were name what they did. -/
theorem Heap.Registered.sameFunction_allocate {h : Heap} {ids : List Handle} (hr : h.Registered ids)
    {id : Handle} (hok : (h.allocate shape payload).1 = .ok id)
    (hsize : (h.allocate shape payload).2.slots.size ≤ 2 ^ 32) :
    ∀ other ∈ ids, h.SameFunction (h.allocate shape payload).2 other := by
  intro other hother c' hc'
  obtain ⟨-, hread⟩ := cell?_allocate hr.listed hok hsize
  have hne : other ≠ id := by
    rintro rfl
    exact (List.nodup_cons.mp (hr.allocate hok hsize).nodup).1 hother
  rw [hread, if_neg hne] at hc'
  exact ⟨c', hc', fun _ hd => hd⟩

/-- A machine that can place the cell. -/
structure Ready (m : Machine) (shape : ShapeId) (payload : Payload) (prototype : Value) : Prop where
  root : m.heap.shapes.roots[(payload.kind, prototype)]? = some shape
  parent : m.Holds prototype
  references : ∀ v ∈ payload.references, m.Holds v

/-- What has to be known for an allocation. -/
structure Allocates (m : Machine) (shape : ShapeId) (payload : Payload) (prototype : Value) : Prop where
  root : m.heap.shapes.roots[(payload.kind, prototype)]? = some shape
  parent : m.Guards prototype
  live : prototype.Live m.heap
  references : ∀ v ∈ payload.references, m.Guards v

theorem Allocates.swept (ha : Allocates m shape payload prototype) (hs : m.Safe) (hk : m.Swept k) :
    Ready k shape payload prototype := by
  refine ⟨?_, hk.holds hs ha.parent, fun v hv => hk.holds hs (ha.references v hv)⟩
  rcases hk with rfl | rfl
  · exact ha.root
  · have hlive := ha.parent.live_collect hs ha.live
    rw [heap_collect] at hlive ⊢
    exact hs.heap.root_collect _ _ hlive ha.root

/-- The machine an allocation goes on with. -/
theorem allocate_run {env : Env} (he : env.Sparing) (shape : ShapeId) (payload : Payload)
    (hexact : payload.Exact) (m : Machine) :
    Escapes (ScriptMachine.allocate shape payload hexact env m) ∨
      ∃ k, m.Swept k ∧
        ScriptMachine.allocate shape payload hexact env m = allocateCell shape payload env k := by
  cases hp : env.pause m payload.references with
  | true =>
    refine .inl ?_
    have heq : checkpoint payload.references env m = .error (.paused payload.references) m := by
      simp [checkpoint, hp]
    unfold ScriptMachine.allocate
    rw [bind_eq_of_error heq]
    exact .paused (he.spent hp)
  | false =>
    have heq : checkpoint payload.references env m = .ok () m := by simp [checkpoint, hp]
    refine .inr ?_
    unfold ScriptMachine.allocate
    rw [bind_eq_of_ok heq, get_bind]
    dsimp only
    split
    · exact ⟨_, .inr rfl, rfl⟩
    · exact ⟨_, .inl rfl, rfl⟩

/-- **The cells are placed.** -/
theorem Meets.allocateCell (he : env.Tandem env') (ht : m.Twins ρ m')
    (ha : Ready m shape payload prototype) (ha' : Ready m' shape' payload' prototype')
    (hp : ρ.Matches prototype prototype') (hpay : payload.Twins ρ ρ payload') :
    Meets ρ (fun ρ a _ b _ => ρ.Pairs a b) (allocateCell shape payload env m)
      (allocateCell shape' payload' env' m') := by
  refine pass he fun hspare hspare' => ?_
  have hsafe := ht.safe.allocate ha.root ha.parent ha.references
  have hsafe' := ht.safe'.allocate ha'.root ha'.parent ha'.references
  have hstep (env : Env) (m : Machine) (shape : ShapeId) (payload : Payload) :
      (withHeap (·.allocate shape payload) : MachineM _) env m =
        .ok (m.heap.allocate shape payload).1
          { m with heap := (m.heap.allocate shape payload).2 } := rfl
  rw [bind_eq_of_ok (hstep env m shape payload), bind_eq_of_ok (hstep env' m' shape' payload')]
  rcases Heap.allocate_or m.heap shape payload with ⟨bytes, herr⟩ | ⟨a, hok⟩
  · refine .left ?_
    rw [herr]
    exact .memory ht.safe.listeners
  rcases Heap.allocate_or m'.heap shape' payload' with ⟨bytes, herr⟩ | ⟨b, hok'⟩
  · refine .right ?_
    rw [herr]
    exact .memory ht.safe'.listeners
  have hroot := ht.heap.fitted.intact.root _ _ _ ha.root
  have hroot' := ht.heap.fitted'.intact.root _ _ _ ha'.root
  have halike := ShapeTable.origin_alike ht.heap.fitted.intact ha.root
  have halike' := ShapeTable.origin_alike ht.heap.fitted'.intact ha'.root
  rw [hpay.kind] at halike'
  have hsize := Nat.le_trans (Heap.size_allocate_le m.heap shape payload) hspare.slots
  have hsize' := Nat.le_trans (Heap.size_allocate_le m'.heap shape' payload') hspare'.slots
  have htwins := ht.heap.allocate hroot.1 hroot'.1 hroot.2.1
    (halike.symm.trans ((⟨rfl, rfl, fun _ => rfl, rfl, rfl, rfl⟩ :
      Shape.Alike { kind := payload.kind, prototype } { kind := payload.kind, prototype := prototype' }).trans
      halike')) (by rw [hroot.2.2.1, hroot'.2.2.1]; exact hp) hpay hok hok' hsize hsize'
  rw [hok, hok']
  exact .ok (List.subset_cons_self _ _) (ht.rehouse (List.subset_cons_self _ _) hsafe hsafe'
    (ht.safe.heap.allocate ha.root).2 (ht.safe'.heap.allocate ha'.root).2
    (ht.heap.registered.sameFunction_allocate hok hsize)
    (ht.heap.registered'.sameFunction_allocate hok' hsize') htwins) List.mem_cons_self

/-- **An allocation** makes a pair, whichever of the machines collected for it. -/
theorem Meets.allocate (he : env.Tandem env') (ht : m.Twins ρ m')
    (ha : Allocates m shape payload prototype) (ha' : Allocates m' shape' payload' prototype')
    (hp : ρ.Matches prototype prototype') (hpay : payload.Twins ρ ρ payload')
    {hexact : payload.Exact} {hexact' : payload'.Exact} :
    Meets ρ (fun ρ a k b k' => Made m m' ρ (.cell a) k (.cell b) k')
      (ScriptMachine.allocate shape payload hexact env m)
      (ScriptMachine.allocate shape' payload' hexact' env' m') := by
  have hpairs : Meets ρ (fun ρ a _ b _ => ρ.Pairs a b) (ScriptMachine.allocate shape payload hexact env m)
      (ScriptMachine.allocate shape' payload' hexact' env' m') := by
    rcases allocate_run he.sparing shape payload hexact m with h | ⟨k, hk, heq⟩
    · exact .left h
    rcases allocate_run he.sparing' shape' payload' hexact' m' with h | ⟨k', hk', heq'⟩
    · exact .right h
    rw [heq, heq']
    exact .allocateCell he (ht.swept hk hk') (ha.swept ht.safe hk) (ha'.swept ht.safe' hk') hp hpay
  refine (hpairs.also (Runs.result (Runs.allocate ht.safe rfl ha.root ha.parent ha.live ha.references))
    (Runs.result (Runs.allocate ht.safe' rfl ha'.root ha'.parent ha'.live ha'.references))).mono ?_
  exact fun _ _ _ _ _ h => ⟨.cell h.1, h.2.1, h.2.2⟩

end Allocate

section Values

variable {payload payload' : Payload}

theorem allocates_intrinsic (payload : Payload) (hs : m.Safe) {shape : ShapeId} {id : Handle}
    (hroot : m.heap.shapes.roots[(payload.kind, Value.cell id)]? = some shape)
    (hid : id ∈ m.intrinsics.objects) (hv : ∀ v ∈ payload.references, m.Guards v) :
    Allocates m shape payload (.cell id) :=
  ⟨hroot, hs.guards_intrinsic hid, Heap.live_cell.mpr (hs.anchored.intrinsics.live _ hid), hv⟩

theorem Meets.newObject (he : env.Tandem env') (ht : m.Twins ρ m') :
    Meets ρ (Made m m') (newObject env m) (newObject env' m') := by
  have hmem : m.intrinsics.objectPrototype ∈ m.intrinsics.objects := by simp [Intrinsics.objects]
  have hmem' : m'.intrinsics.objectPrototype ∈ m'.intrinsics.objects := by simp [Intrinsics.objects]
  have ha := allocates_intrinsic .plain ht.safe ht.safe.anchored.intrinsics.shaped.object
    hmem (by simp [Payload.references])
  have ha' := allocates_intrinsic .plain ht.safe'
    ht.safe'.anchored.intrinsics.shaped.object hmem' (by simp [Payload.references])
  refine look (bind (allocate he ht ha ha' ?_ .plain) fun ρ₁ a k b k' _ hk hm => ret hk hm)
  rw [ht.intrinsics]
  exact (ht.intrinsic hmem).same

theorem Meets.newString (he : env.Tandem env') (ht : m.Twins ρ m') (text : String) :
    Meets ρ (Made m m') (newString text env m) (newString text env' m') := by
  have allocates {m : Machine} (hs : m.Safe) :
      Allocates m m.intrinsics.stringShape (.string (text : StringData)) .null :=
    ⟨hs.anchored.intrinsics.shaped.string, guards_of_not_cell (by simp), fun _ h => by simp at h,
      by simp [Payload.references]⟩
  refine look (bind (allocate he ht (allocates ht.safe) (allocates ht.safe') (.word (by simp))
    (.string text)) fun ρ₁ a k b k' _ hk hm => ret hk hm)

theorem Meets.newArray (he : env.Tandem env') (ht : m.Twins ρ m') {e e' : Elements}
    (hitems : Aligned ρ.Matches e.items e'.items) (hv : ∀ v ∈ e.items, m.Guards v)
    (hv' : ∀ v ∈ e'.items, m'.Guards v) :
    Meets ρ (Made m m') (newArray e env m) (newArray e' env' m') := by
  have hmem : m.intrinsics.arrayPrototype ∈ m.intrinsics.objects := by simp [Intrinsics.objects]
  have hmem' : m'.intrinsics.arrayPrototype ∈ m'.intrinsics.objects := by simp [Intrinsics.objects]
  have ha := allocates_intrinsic (.array e) ht.safe
    ht.safe.anchored.intrinsics.shaped.array hmem (by simpa [Payload.references] using hv)
  have ha' := allocates_intrinsic (.array e') ht.safe'
    ht.safe'.anchored.intrinsics.shaped.array hmem' (by simpa [Payload.references] using hv')
  refine look (bind (allocate he ht ha ha' ?_ (.array hitems)) fun ρ₁ a k b k' _ hk hm => ret hk hm)
  rw [ht.intrinsics]
  exact (ht.intrinsic hmem).same

end Values

/-! ### Raising -/

theorem notifyAt_quiet (hl : m.listeners = #[]) (kind : EventKind) (exception : Option Value)
    (line : Option UInt32) : notifyAt kind exception line env m = .ok () m := by
  unfold ScriptMachine.notifyAt
  rw [get_bind]
  simp only [hl]
  rfl

/-- The machine after a value was raised. -/
def Machine.raised (m : Machine) (v : Value) : Machine :=
  { m with heap := m.heap.pushTemporary v, lastRaised := some v, exceptionTrace := m.captureTrace }

theorem raise_eq (α : Type) (env : Env) (hs : m.Safe) (hv : m.Holds v) :
    (raise v : MachineM α) env m = .error (.unwound (.throw v)) (m.raised v) ∧ (m.raised v).Safe ∧
      m.Sheds (m.raised v) := by
  have hl : m.Sheds (m.raised v) := by
    refine .beside ?_ ?_
    all_goals unfold Heap.pushTemporary; split
    · exact .congr rfl rfl rfl rfl rfl
    · exact .refl _
    · rfl
    · rfl
  have hquiet : (m.raised v).listeners = #[] := hs.listeners
  have heq : (raise v : MachineM α) env m = .error (.unwound (.throw v)) (m.raised v) := by
    unfold ScriptMachine.raise
    have hmod : (modify fun m => { m with heap := m.heap.pushTemporary v, lastRaised := some v
                                          exceptionTrace := m.captureTrace } : MachineM Unit) env m =
        .ok () (m.raised v) := rfl
    rw [bind_eq_of_ok hmod, bind_eq_of_ok (notifyAt_quiet hquiet _ _ _)]
    rfl
  have hruns : Runs env m (raise v : MachineM α) fun _ _ => True := .raise hs hv
  have hsafe := hruns.safe
  rw [heq] at hsafe
  exact ⟨heq, hsafe, hl⟩

theorem Machine.Remembers.raised {named : CodeId → Nat → Atom → Prop} (hr : m.Remembers named)
    (v : Value) : (m.raised v).Remembers named := by
  unfold Machine.raised Heap.pushTemporary
  split
  · exact hr.temporaries _
  · exact hr

/-- **Raising values that match.** -/
theorem Meets.raise (ht : m.Twins ρ m') (hb : Heap.Both ρ m.heap m'.heap v w)
    {Q : Pairing → α → Machine → β → Machine → Prop} :
    Meets ρ Q ((raise v : MachineM α) env m) ((raise w : MachineM β) env' m') := by
  obtain ⟨heq, hs, hl⟩ := raise_eq α env ht.safe hb.holds.1
  obtain ⟨heq', hs', hl'⟩ := raise_eq β env' ht.safe' hb.holds.2
  have hk := ht.sheds hl hl' hs hs' (ht.recalled.raised v) (ht.recalled'.raised w)
  have live {m : Machine} {v : Value} (hv : v.Live m.heap) : v.Live (m.raised v).heap := by
    unfold Machine.raised Heap.pushTemporary
    split
    · exact hv
    · exact hv
  rw [heq, heq']
  exact .unwound (List.Subset.refl ρ) hk (.throw ⟨hb.same, live hb.left, live hb.right⟩)

namespace Machine.Twins

/-- The empty shapes of objects with these prototypes. -/
theorem rootShape (ht : m.Twins ρ m') (kind : CellKind) (prototype prototype' : Value) :
    Twins ρ { m with heap := (m.heap.rootShape kind prototype).2 }
      { m' with heap := (m'.heap.rootShape kind prototype').2 } :=
  ht.changes (.single (.root kind _)) (.single (.root kind _)) (.of_slots rfl) (.of_slots rfl)
    (ht.heap.sheds (.root m.heap kind prototype) (.root m'.heap kind prototype') ht.heap.atoms)

theorem intern (ht : m.Twins ρ m') (name : String) :
    Twins ρ { m with heap := (m.heap.intern name).2 } { m' with heap := (m'.heap.intern name).2 } :=
  ht.changes (.single (.intern name)) (.single (.intern name)) (.of_slots rfl) (.of_slots rfl)
    (ht.heap.intern name).2

end Machine.Twins

namespace Meets

/-- **Interning a name** gives the same atom. -/
theorem intern (ht : m.Twins ρ m') (name : String) :
    Meets ρ (fun _ a k b k' => b = a ∧ k.heap.atoms.Knows a ∧
      k = { m with heap := (m.heap.intern name).2 } ∧ k' = { m' with heap := (m'.heap.intern name).2 })
      (ScriptMachine.intern name env m) (ScriptMachine.intern name env' m') :=
  .ok (List.Subset.refl ρ) (ht.intern name)
    ⟨(ht.heap.intern name).1, AtomTable.knows_intern ht.safe.heap.atoms name, rfl, rfl⟩

theorem rootShape_run (kind : CellKind) (prototype : Value) (env : Env) (m : Machine) :
    withHeap (·.rootShape kind prototype) env m =
      .ok (m.heap.rootShape kind prototype).1 { m with heap := (m.heap.rootShape kind prototype).2 } := rfl

/-- **Defining a property** of a cell that is live does not fail. -/
theorem tryDefine (ht : m.Twins ρ m') {a b : Handle} (hid : Heap.Both ρ m.heap m'.heap (.cell a) (.cell b))
    (hk : m.heap.atoms.Knows name) (hv : Heap.Both ρ m.heap m'.heap v w) (attributes : Attributes) :
    Meets ρ (fun ρ r k r' k' => r = .ok () ∧ r' = .ok () ∧ Heap.Both ρ k.heap k'.heap (.cell a) (.cell b))
      (tryHeap (Heap.defineProperty a name v attributes) env m)
      (tryHeap (Heap.defineProperty b name w attributes) env' m') := by
  obtain ⟨_, c, c', hb, -, hp, hc, hc'⟩ := hid.cell (Value.cell?_cell a)
  obtain rfl := Value.cell_inj.mp hb
  have hk' : m'.heap.atoms.Knows name := by
    rw [ht.heap.atoms]
    exact hk
  have hpar := ht.heap.defineProperty hp hc hc' name hv.same attributes
  have hx := Heap.defineProperty_changes (storable_holds m) hv.holds.1 ht.safe.heap a hk attributes
  have hx' := Heap.defineProperty_changes (storable_holds m') hv.holds.2 ht.safe'.heap b hk' attributes
  have hf := (Heap.Retaining.defineProperty a name v attributes m.heap).sameFunctions
  have hf' := (Heap.Retaining.defineProperty b name w attributes m'.heap).sameFunctions
  have hlive := hid.holds.1.changes ht.safe hx
  have hlive' := hid.holds.2.changes ht.safe' hx'
  obtain ⟨h, hok⟩ : ∃ h, Heap.defineProperty a name v attributes m.heap = .ok () h :=
    Heap.defineProperty_ok hc
  obtain ⟨h', hok'⟩ : ∃ h', Heap.defineProperty b name w attributes m'.heap = .ok () h' :=
    Heap.defineProperty_ok hc'
  rw [tryHeap_eq, tryHeap_eq]
  rw [hok] at hpar hx hf hlive ⊢
  rw [hok'] at hpar hx' hf' hlive' ⊢
  cases hpar with
  | ok hh _ =>
    have hn := ht.changes hx hx' hf hf' hh
    exact .ok (List.Subset.refl ρ) hn ⟨rfl, rfl, hn.both hid.same hlive hlive'⟩

/-- A new error. -/
theorem newError (he : env.Tandem env') (ht : m.Twins ρ m') (kind : ErrorKind) (message : String) :
    Meets ρ Vals (newError kind message env m) (newError kind message env' m') := by
  have hmem := ht.safe.anchored.intrinsics.errors kind
  have hmem' := ht.safe'.anchored.intrinsics.errors kind
  have hroot := (ShapeTable.root_spec ht.safe.heap.shapes .object
    (.cell (m.intrinsics.errorPrototype kind))).2
  have hroot' := (ShapeTable.root_spec ht.safe'.heap.shapes .object
    (.cell (m'.intrinsics.errorPrototype kind))).2
  have ht₁ := ht.rootShape .object (.cell (m.intrinsics.errorPrototype kind))
    (.cell (m'.intrinsics.errorPrototype kind))
  refine look ?_
  rw [bind_eq_of_ok (rootShape_run _ _ env m), bind_eq_of_ok (rootShape_run _ _ env' m')]
  have ha := allocates_intrinsic .plain ht₁.safe hroot hmem (by simp [Payload.references])
  have ha' := allocates_intrinsic .plain ht₁.safe' hroot' hmem'
    (by simp [Payload.references])
  refine bind (allocate he ht₁ ha ha' ?_ .plain) fun ρ₂ object k₂ object' k₂' hle₂ ht₂ ho => ?_
  · rw [ht.intrinsics]
    exact (ht.intrinsic hmem).same
  refine bind (newString he ht₂ message) fun ρ₃ text k₃ text' k₃' hle₃ ht₃ htext => ?_
  have hobject := htext.stays hle₃ ht₃ (ho.guarded ht₂)
  have hvalue := htext.vals ht₃
  refine pass he fun _ _ => look ?_
  rw [ht₃.names]
  refine bind (tryDefine ht₃ hobject ht₃.safe.anchored.names.message hvalue _) ?_
  rintro ρ₄ _ k₄ _ k₄' - hk₄ ⟨rfl, rfl, hb⟩
  exact ret hk₄ hb

/-- **Raising an error.** -/
theorem raiseError (he : env.Tandem env') (ht : m.Twins ρ m') (kind : ErrorKind) {message message' : String}
    (hm : message' = message) {Q : Pairing → α → Machine → β → Machine → Prop} :
    Meets ρ Q ((raiseError kind message : MachineM α) env m)
      ((raiseError kind message' : MachineM β) env' m') := by
  subst hm
  exact bind (newError he ht kind message') fun _ _ _ _ _ _ hk hb => raise hk hb

theorem propertyFault (he : env.Tandem env') (ht : m.Twins ρ m') (fault : PropertyFault)
    {Q : Pairing → α → Machine → β → Machine → Prop} :
    Meets ρ Q ((propertyFault fault : MachineM α) env m) ((propertyFault fault : MachineM β) env' m') := by
  cases fault with
  | staleHandle => exact failed ht _
  | outOfMemory => exact .left (.memory ht.safe.listeners)
  | invalidArrayLength => exact raiseError he ht _ rfl
  | prototypeCycle | prototypeChainTooLong | invalidPrototype => exact raiseError he ht _ rfl

/-! ### Operations of the heap -/

variable {Q : Pairing → α → Machine → β → Machine → Prop} {R : α → β → Prop} {x : HeapM α}
  {x' : HeapM β}

theorem runHeap_eq (x : HeapM α) (env : Env) (m : Machine) : runHeap x env m =
    match x m.heap with
    | .ok a h => .ok a { m with heap := h }
    | .error fault h => (ScriptMachine.propertyFault fault : MachineM α) env { m with heap := h } := by
  unfold ScriptMachine.runHeap
  have heq := tryHeap_eq x env m
  cases hr : x m.heap with
  | ok a h =>
    rw [hr] at heq
    rw [bind_eq_of_ok heq]
    rfl
  | error fault h =>
    rw [hr] at heq
    rw [bind_eq_of_ok heq]

/-- **The same operation** on both heaps. -/
theorem runHeap (he : env.Tandem env') (ht : m.Twins ρ m')
    (hx : Heap.Changes m.Holds m.heap (leaves (x m.heap)))
    (hx' : Heap.Changes m'.Holds m'.heap (leaves (x' m'.heap)))
    (hf : Heap.Retaining x) (hf' : Heap.Retaining x')
    (hpar : Heap.Parallel ρ R (x m.heap) (x' m'.heap)) :
    Meets ρ (fun _ a _ b _ => R a b) (ScriptMachine.runHeap x env m)
      (ScriptMachine.runHeap x' env' m') := by
  have hf := (hf m.heap).sameFunctions
  have hf' := (hf' m'.heap).sameFunctions
  rw [runHeap_eq, runHeap_eq]
  generalize hr : x m.heap = r at hx hf hpar
  generalize hr' : x' m'.heap = r' at hx' hf' hpar
  cases hpar with
  | ok hh hq => exact .ok (List.Subset.refl ρ) (ht.changes hx hx' hf hf' hh) hq
  | fault hh => exact propertyFault he (ht.changes hx hx' hf hf' hh) _
  | left => exact .left (.memory ht.safe.listeners)
  | right => exact .right (.memory ht.safe'.listeners)

/-- The machine a write goes on with. -/
theorem heapWrite_run (he : env.Sparing) {id : Handle} (held : List Value)
    (hf : Heap.Sturdy id x m.heap) :
    Escapes (heapWrite held x env m) ∨ ∃ k, m.Swept k ∧
      heapWrite held x env m = ScriptMachine.runHeap x env k := by
  unfold heapWrite
  cases hp : env.pause m held with
  | true =>
    have heq : checkpoint held env m = .error (.paused held) m := by simp [checkpoint, hp]
    rw [bind_eq_of_error heq]
    exact .inl (.paused (he.spent hp))
  | false =>
    have heq : checkpoint held env m = .ok () m := by simp [checkpoint, hp]
    have htry := tryHeap_eq x env m
    have hrun := runHeap_eq x env m
    rw [bind_eq_of_ok heq]
    cases hr : x m.heap with
    | ok a h =>
      rw [hr] at htry hrun
      rw [bind_eq_of_ok htry]
      exact .inr ⟨m, .inl rfl, hrun.symm⟩
    | error fault h =>
      rw [hr] at htry hrun
      rw [bind_eq_of_ok htry]
      obtain ⟨rfl, -⟩ := hf fault h hr
      cases fault with
      | outOfMemory =>
        have hcollect : discard collectGarbage env m = .ok () m.collect.2 := rfl
        dsimp only
        rw [bind_eq_of_ok hcollect]
        cases hp : env.pause m.collect.2 held with
        | true =>
          have heq : checkpoint held env m.collect.2 = .error (.paused held) m.collect.2 := by
            simp [checkpoint, hp]
          rw [bind_eq_of_error heq]
          exact .inl (.paused (he.spent hp))
        | false =>
          have heq : checkpoint held env m.collect.2 = .ok () m.collect.2 := by simp [checkpoint, hp]
          rw [bind_eq_of_ok heq]
          exact .inr ⟨_, .inr rfl, rfl⟩
      | staleHandle | invalidArrayLength | prototypeCycle | prototypeChainTooLong | invalidPrototype =>
        exact .inr ⟨m, .inl rfl, hrun.symm⟩

/-- **A write** that may be tried again after a collection, in either machine. -/
theorem heapWrite (he : env.Tandem env') {id id' : Handle} {held held' : List Value}
    (hf : ∀ h, Heap.Sturdy id x h) (hf' : ∀ h, Heap.Sturdy id' x' h)
    (hrun : ∀ k k', m.Swept k → m'.Swept k' →
      Meets ρ Q (ScriptMachine.runHeap x env k) (ScriptMachine.runHeap x' env' k')) :
    Meets ρ Q (ScriptMachine.heapWrite held x env m) (ScriptMachine.heapWrite held' x' env' m') := by
  rcases heapWrite_run he.sparing held (hf m.heap) with h | ⟨k, hk, heq⟩
  · exact .left h
  rcases heapWrite_run he.sparing' held' (hf' m'.heap) with h | ⟨k', hk', heq'⟩
  · exact .right h
  rw [heq, heq']
  exact hrun k k' hk hk'

end Meets

end ScriptMachine
