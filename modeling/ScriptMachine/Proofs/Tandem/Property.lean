import ScriptMachine.Proofs.Machine.PropertyAccess
import ScriptMachine.Proofs.Tandem.Allocation

/-! # Property access of two runs

One machine may replay what the other looks up, since collections drop the entries of their own caches.
A site that is used with one name replays what a lookup finds (`Machine.found_alike`) and a write that
would have been made (`putCell_run`), so both runs read and write the same. -/

namespace ScriptMachine

open Machine

variable {α β : Type} {ρ ρ' : Pairing} {m m' k k' : Machine} {v w v' w' : Value} {env env' : Env}
  {site : Site} {name : Atom} {id : Handle}

/-! ### Names of sites -/

/-- The site, if any, is used with the name, and names are told apart. -/
def Machine.Cites (m : Machine) (site : Site) (name : Atom) : Prop :=
  ∀ code index, site = some (code, index) → m.heap.atoms.Fits ∧ m.SiteNamed code index.toNat name

namespace Machine

theorem Cites.none : m.Cites none name := nofun

theorem Cites.siteFor (hc : m.Cites site name) : m.SiteFor site name :=
  fun code index h => (hc code index h).2

/-- A site has one name. -/
theorem SiteNamed.single {name' : Atom} (hlaw : ∀ code entry, m.code? code = some entry → entry.Lawful)
    {code : CodeId} {index : Nat} (hn : m.SiteNamed code index name)
    (hn' : m.SiteNamed code index name') : name = name' := by
  obtain ⟨entry, hentry, hnames⟩ := hn
  obtain ⟨entry', hentry', hnames'⟩ := hn'
  obtain rfl := Option.some.inj (hentry.symm.trans hentry')
  exact (hlaw code entry hentry).single index name name' hnames hnames'

namespace Twins

theorem lawful (ht : m.Twins ρ m') (code : CodeId) (entry : CodeEntry) (h : m.code? code = some entry) :
    entry.Lawful := by
  rcases Option.rel_iff.mp (ht.code? code) with ⟨hx, -⟩ | ⟨e, e', hx, -, he⟩
  · rw [hx] at h
    cases h
  · obtain rfl := Option.some.inj (hx.symm.trans h)
    exact he.lawful

theorem lawful' (ht : m.Twins ρ m') (code : CodeId) (entry : CodeEntry)
    (h : m'.code? code = some entry) : entry.Lawful := by
  rcases Option.rel_iff.mp (ht.code? code) with ⟨-, hx⟩ | ⟨e, e', -, hx, he⟩
  · rw [hx] at h
    cases h
  · obtain rfl := Option.some.inj (hx.symm.trans h)
    exact he.lawful'

theorem siteNamed (ht : m.Twins ρ m') {code : CodeId} {index : Nat} (hn : m.SiteNamed code index name) :
    m'.SiteNamed code index name := by
  obtain ⟨entry, hentry, hnames⟩ := hn
  rcases Option.rel_iff.mp (ht.code? code) with ⟨hx, -⟩ | ⟨e, e', hx, hy, he⟩
  · rw [hx] at hentry
    cases hentry
  · obtain rfl := Option.some.inj (hx.symm.trans hentry)
    refine ⟨e', hy, ?_⟩
    unfold CodeEntry.Names at *
    rw [he.block, he.atoms]
    exact hnames

theorem cites (ht : m.Twins ρ m') (hc : m.Cites site name) : m'.Cites site name := by
  intro code index h
  obtain ⟨hfit, hn⟩ := hc code index h
  exact ⟨by rw [ht.heap.atoms]; exact hfit, ht.siteNamed hn⟩

end Twins

/-! ### What is cached -/

theorem Seems.afterRead (hs : m.Safe) (hr : m.Remembers m.SiteNamed) (hk : m.heap.atoms.Knows name)
    (hn : m.SiteFor site name) : m.Seems (m.afterRead id name site) := by
  unfold Machine.afterRead
  split
  case h_1 e _ he => exact .cacheProperty hs hr (recorded?_valid hs.heap he) hk hn
  case h_2 => exact .refl hs hr

/-! ### Reads -/

/-- **A read through a site** finds what a lookup that ends finds. -/
theorem found?_alike (id : Handle) (hs : m.Safe) (hr : m.Remembers m.SiteNamed)
    (hlaw : ∀ code entry, m.code? code = some entry → entry.Lawful) (hc : m.Cites site name)
    {l : PropertyLookup} (hl : m.heap.lookupProperty? id name = some l) :
    ∃ l', m.found? id name site = some l' ∧ Agrees.Alike l' l := by
  unfold found?
  split
  case h_2 => exact ⟨l, hl, rfl, Iff.rfl⟩
  case h_1 value hvalue =>
    refine ⟨_, rfl, ?_⟩
    cases hcell : m.heap.cell? id with
    | none =>
      simp only [replayed?, Heap.shapeOf?, hcell, Option.map_none] at hvalue
      cases hvalue
    | some c =>
      simp only [replayed?, Heap.shapeOf?, hcell, Option.map_some] at hvalue
      cases he : m.cachedProperty? site c.shape with
      | none =>
        rw [he] at hvalue
        cases hvalue
      | some e =>
        obtain ⟨code, index, rfl, hguard, name', hname, -, hv⟩ := hr.cached he
        obtain ⟨hfit, hnamed⟩ := hc code index rfl
        obtain rfl := SiteNamed.single hlaw hname hnamed
        obtain ⟨l', hl', halike⟩ := Agrees.replayRead?_alike hs.heap hfit hcell hguard hv (he ▸ hvalue)
        obtain rfl := Option.some.inj (hl'.symm.trans hl)
        exact halike

end Machine

namespace Meets

variable {a b : Handle} {c c' : Cell}

/-- **A read through a site** finds the same in both machines. -/
theorem readCell (ht : m.Twins ρ m') (hk : m.heap.atoms.Knows name) (hcite : m.Cites site name)
    (hp : ρ.Pairs a b) (hc : m.heap.cell? a = some c) (hc' : m'.heap.cell? b = some c') :
    Meets ρ (fun ρ l k l' k' => Heap.Twins.Found ρ k.heap k'.heap l l' ∧ k.heap = m.heap ∧ k'.heap = m'.heap)
      (readCell a name site env m) (readCell b name site env' m') := by
  have hk' : m'.heap.atoms.Knows name := by
    rw [ht.heap.atoms]
    exact hk
  have hcite' := ht.cites hcite
  have hheap : (m.afterRead a name site).heap = m.heap := (ht.safe.afterRead hk).2.2
  have hheap' : (m'.afterRead b name site).heap = m'.heap := (ht.safe'.afterRead hk').2.2
  obtain ⟨l, l', hl, hl', hfound⟩ := ht.heap.lookupProperty? ht.clean.closed ht.clean'.closed hp hc hc' name
  obtain ⟨x, hx, hvalue, hmissing⟩ := found?_alike a ht.safe ht.recalled ht.lawful hcite hl
  obtain ⟨y, hy, hvalue', hmissing'⟩ := found?_alike b ht.safe' ht.recalled' ht.lawful' hcite' hl'
  rw [readCell_eq, readCell_eq, hx, hy]
  refine .ok (List.Subset.refl ρ) (ht.seems (.afterRead ht.safe ht.recalled hk hcite.siteFor)
    (.afterRead ht.safe' ht.recalled' hk' hcite'.siteFor)) ⟨?_, hheap, hheap'⟩
  rw [hheap, hheap']
  exact ⟨by rw [hvalue, hvalue']; exact hfound.value,
    hmissing.trans (hfound.missing.trans hmissing'.symm)⟩

/-- **Reading a named property.** -/
theorem getById (he : env.Tandem env') (ht : m.Twins ρ m') (hk : m.heap.atoms.Knows name)
    (hcite : m.Cites site name) (hb : Heap.Both ρ m.heap m'.heap v w) :
    Meets ρ Vals (getById v name site env m) (getById w name site env' m') := by
  refine look ?_
  rcases Twins.liveCell? hb with ⟨hx, hy⟩ | ⟨a, b, c, c', hx, hy, -, -, hp, hc, hc'⟩
  · rw [hx, hy]
    refine ite (by rw [hb.same.isNullish]) (fun _ => ?_) fun _ => ret ht (.word (by simp))
    refine raiseError he ht _ ?_
    rw [ht.atomName, ht.display hb]
  · rw [hx, hy]
    refine bind (readCell ht hk hcite hp hc hc') fun ρ₁ l k l' k' _ hk hl => ret hk hl.1.value

end Meets

/-! ### Writes -/

/-- **What a write through a site did**, when the write itself ends like this in the machine. -/
def Wrote (name : Atom) (env : Env) (k : Machine) (result : EStateM.Result Stop Machine Unit) :
    EStateM.Result PropertyFault Heap PutOutcome → Prop
  | .ok outcome h =>
    if outcome = .readOnly then result = refuseWrite name env { k with heap := h }
    else ∃ k', Seems { k with heap := h } k' ∧ result = .ok () k'
  | .error fault h => ∃ f : PutOutcome → MachineM Unit,
    result = ((propertyFault fault : MachineM PutOutcome) >>= f) env { k with heap := h }

theorem setProperty_changed (hs : m.Safe) (hr : m.Remembers m.SiteNamed) (hk : m.heap.atoms.Knows name)
    (hv : m.Holds v) (id : Handle) :
    let h := leaves (Heap.setProperty id name v m.heap)
    Heap.Changes m.Holds m.heap h ∧ Safe { m with heap := h } ∧
      Remembers { m with heap := h } (SiteNamed { m with heap := h }) := by
  have hc := Heap.setProperty_changes (storable_holds m) hv hs.heap id hk
  exact ⟨hc, hs.changes hc, Remembers.rest (k := { m with heap := _ }) hr rfl (hc.coherent hs.heap).2⟩

/-- What follows depends on how the first action ends. -/
theorem bind_congr_run {x y : MachineM α} {f : α → MachineM β} (h : x env m = y env k) :
    (x >>= f) env m = (y >>= f) env k := by
  simp only [bind, ReaderT.bind, EStateM.bind, h]

/-- **A write through a site** is a write that is then recorded. -/
theorem putCell_run (id : Handle) (he : env.Sparing) (hs : m.Safe) (hr : m.Remembers m.SiteNamed)
    (hlaw : ∀ code entry, m.code? code = some entry → entry.Lawful) (hk : m.heap.atoms.Knows name)
    (hcite : m.Cites site name) (hv : m.Guards v) :
    Escapes (putCell m id name v site env m) ∨ ∃ k, m.Swept k ∧
      Wrote name env k (putCell m id name v site env m) (Heap.setProperty id name v k.heap) := by
  unfold putCell
  cases hreplay : m.replayedWrite? id site with
  | some entry =>
    obtain ⟨shape, offset⟩ := entry
    obtain ⟨code, index, name', rfl, hname, -, hwrite⟩ := hr.replayedWrite? hs.heap hreplay
    obtain rfl := SiteNamed.single hlaw hname (hcite code index rfl).2
    obtain ⟨outcome, ho, hw⟩ := hwrite v
    obtain ⟨-, hs₁, hr₁⟩ := setProperty_changed hs hr hk hv.holds id
    refine .inr ⟨m, .inl rfl, ?_⟩
    rw [hw] at hs₁ hr₁ ⊢
    unfold Wrote
    dsimp only
    rw [if_neg ho]
    exact ⟨_, .refl hs₁ hr₁, rfl⟩
  | none =>
    have hsturdy : Heap.Sturdy id (Heap.setProperty id name v) m.heap := Heap.setProperty_sturdy
    rcases Meets.heapWrite_run he [.cell id, v] hsturdy with h | ⟨k, hswept, heq⟩
    · exact .inl h.bind
    refine .inr ⟨k, hswept, ?_⟩
    have hrun := Meets.runHeap_eq (Heap.setProperty id name v) env k
    rw [← heq] at hrun
    have hseems := hswept.seems hs hr
    have hknows := (hswept.grows hs).atoms.knows hk
    obtain ⟨hc, hs₁, hr₁⟩ := setProperty_changed hseems.safe hseems.recalled hknows
      (hswept.holds hs hv) id
    cases hw : Heap.setProperty id name v k.heap with
    | error fault h =>
      rw [hw] at hrun
      exact ⟨_, bind_congr_run hrun⟩
    | ok outcome h =>
      rw [hw] at hrun hs₁ hr₁ hc
      have hnamed : SiteFor { k with heap := h } site name := fun code index hsite =>
        (hseems.sheds.siteNamed (hcite.siteFor code index hsite)).of_codes rfl
      have hknows' : h.atoms.Knows name := (hc.coherent hseems.safe.heap).2.atoms.knows hknows
      dsimp only at hrun ⊢
      rw [bind_eq_of_ok hrun]
      unfold Wrote recordWrite
      dsimp only
      by_cases ho : outcome = .readOnly
      · rw [if_pos ho, if_pos ho]
      · rw [if_neg ho, if_neg ho, get_bind]
        cases hb : isElementBacked { k with heap := h } id name with
        | true => exact ⟨_, .refl hs₁ hr₁, rfl⟩
        | false =>
          cases he : cacheableWrite? { k with heap := h } outcome with
          | none => exact ⟨_, .refl hs₁ hr₁, rfl⟩
          | some e =>
            have hvalid := cacheableWrite?_valid (m := { k with heap := h }) hseems.safe.heap hknows hw
              hb he
            exact ⟨_, .cacheProperty hs₁ hr₁ hvalid hknows' hnamed, rfl⟩

namespace Meets

/-- **Refusing a write.** -/
theorem refuseWrite (he : env.Tandem env') (ht : m.Twins ρ m') (name : Atom) :
    Meets ρ (fun _ _ _ _ _ => True) (refuseWrite name env m) (refuseWrite name env' m') := by
  refine look ?_
  rw [ht.readOnlyPolicy]
  cases m.config.readOnlyPolicy with
  | ignore => exact ret ht trivial
  | throw => exact raiseError he ht _ (by rw [ht.atomName])

/-- **Writing a property of a cell.** -/
theorem putCell (he : env.Tandem env') (ht : m.Twins ρ m') (hk : m.heap.atoms.Knows name)
    (hcite : m.Cites site name) {a b : Handle} (hb : Guarded ρ m m' (.cell a) (.cell b))
    (hv : Guarded ρ m m' v w) :
    Meets ρ (fun _ _ _ _ _ => True) (putCell m a name v site env m)
      (putCell m' b name w site env' m') := by
  have hk' : m'.heap.atoms.Knows name := by
    rw [ht.heap.atoms]
    exact hk
  rcases putCell_run a he.sparing ht.safe ht.recalled ht.lawful hk hcite hv.left with
    h | ⟨k, hswept, hwrote⟩
  · exact .left h
  rcases putCell_run b he.sparing' ht.safe' ht.recalled' ht.lawful' hk' (ht.cites hcite)
    hv.right with h | ⟨k', hswept', hwrote'⟩
  · exact .right h
  have htk := ht.swept hswept hswept'
  have hvalue := hv.swept ht hswept hswept'
  obtain ⟨_, c, c', hb', -, hp, hc, hc'⟩ := (hb.swept ht hswept hswept').cell (Value.cell?_cell a)
  obtain rfl := Value.cell_inj.mp hb'
  have hpar := htk.heap.setProperty hp hc hc' name hvalue.same
  have hx := (setProperty_changed htk.safe htk.recalled ((hswept.grows ht.safe).atoms.knows hk)
    hvalue.holds.1 a).1
  have hx' := (setProperty_changed htk.safe' htk.recalled' ((hswept'.grows ht.safe').atoms.knows hk')
    hvalue.holds.2 b).1
  have hf := (Heap.Retaining.setProperty a name v k.heap).sameFunctions
  have hf' := (Heap.Retaining.setProperty b name w k'.heap).sameFunctions
  generalize Heap.setProperty a name v k.heap = r at hpar hwrote hx hf
  generalize Heap.setProperty b name w k'.heap = r' at hpar hwrote' hx' hf'
  cases hpar with
  | @ok outcome outcome' h h' hh href =>
    have hwritten := htk.changes hx hx' hf hf' hh
    unfold Wrote at hwrote hwrote'
    dsimp only at hwrote hwrote'
    by_cases ho : outcome = .readOnly
    · rw [if_pos ho] at hwrote
      rw [if_pos (href.mp ho)] at hwrote'
      rw [hwrote, hwrote']
      exact refuseWrite he hwritten name
    · rw [if_neg ho] at hwrote
      rw [if_neg fun h => ho (href.mpr h)] at hwrote'
      obtain ⟨n, hn, hr⟩ := hwrote
      obtain ⟨n', hn', hr'⟩ := hwrote'
      rw [hr, hr']
      exact .ok (List.Subset.refl ρ) (hwritten.seems hn hn') trivial
  | fault hh =>
    obtain ⟨f, hr⟩ := hwrote
    obtain ⟨f', hr'⟩ := hwrote'
    rw [hr, hr']
    exact bind (Q := fun _ _ _ _ _ => False) (propertyFault he (htk.changes hx hx' hf hf' hh) _)
      fun _ _ _ _ _ _ _ h => h.elim
  | left =>
    obtain ⟨f, hr⟩ := hwrote
    rw [hr]
    exact .left (Escapes.bind (.memory htk.safe.listeners))
  | right =>
    obtain ⟨f, hr⟩ := hwrote'
    rw [hr]
    exact .right (Escapes.bind (.memory htk.safe'.listeners))

/-- **Writing a named property.** -/
theorem putById (he : env.Tandem env') (ht : m.Twins ρ m') (hk : m.heap.atoms.Knows name)
    (hcite : m.Cites site name) (hb : Guarded ρ m m' v w) (hv : Guarded ρ m m' v' w') :
    Meets ρ (fun _ _ _ _ _ => True) (putById v name v' site env m) (putById w name w' site env' m') := by
  have hboth := hb.both ht
  refine look ?_
  rcases Twins.liveCell? hboth with ⟨hx, hy⟩ | ⟨a, b, c, c', hx, hy, rfl, rfl, hp, hc, hc'⟩
  · rw [hx, hy]
    refine ite (by rw [hboth.same.isNullish]) (fun _ => ?_) fun _ => ret ht trivial
    refine raiseError he ht _ ?_
    rw [ht.atomName, ht.display hboth]
  · rw [hx, hy]
    exact putCell he ht hk hcite hb hv

/-- **Deleting a named property.** -/
theorem deleteById (he : env.Tandem env') (ht : m.Twins ρ m') (hb : Heap.Both ρ m.heap m'.heap v w) :
    Meets ρ Same (deleteById v name env m) (deleteById w name env' m') := by
  refine look ?_
  rcases Twins.liveCell? hb with ⟨hx, hy⟩ | ⟨a, b, c, c', hx, hy, -, -, hp, hc, hc'⟩
  · rw [hx, hy]
    refine ite (by rw [hb.same.isNullish]) (fun _ => ?_) fun _ => ret ht rfl
    exact raiseError he ht _ (by rw [ht.display hb])
  · rw [hx, hy]
    have hx := Heap.deleteProperty_changes (storable_holds m) ht.safe.heap a name
    have hx' := Heap.deleteProperty_changes (storable_holds m') ht.safe'.heap b name
    refine bind (runHeap he ht hx hx' (.deleteProperty a name) (.deleteProperty b name)
        (ht.heap.deleteProperty hp hc hc' name))
      fun ρ₁ deleted k deleted' k' _ hk hd => look ?_
    subst hd
    refine ite (by rw [hk.readOnlyPolicy]) (fun _ => ?_) fun _ => ret hk rfl
    refine bind (Q := fun _ _ _ _ _ => False) (raiseError he hk _ (by rw [hk.atomName]))
      fun _ _ _ _ _ _ _ h => h.elim

/-! ### Computed access -/

theorem made_vals {x x' : MachineM Value} (h : Meets ρ (Made m m') (x env m) (x' env' m')) :
    Meets ρ Vals (x env m) (x' env' m') :=
  h.imp fun _ _ _ _ _ _ ht hm => hm.vals ht

/-- **The name a key stands for.** -/
theorem keyAtom (ht : m.Twins ρ m') (hb : Heap.Both ρ m.heap m'.heap v w) :
    Meets ρ (fun _ a k b k' => b = a ∧ k.heap.atoms.Knows a ∧
      k = { m with heap := (m.heap.intern (m.display v)).2 } ∧
      k' = { m' with heap := (m'.heap.intern (m.display v)).2 })
      (keyAtom v env m) (keyAtom w env' m') := by
  refine look ?_
  rw [ht.display hb]
  exact intern ht _

theorem getKeyed (he : env.Tandem env') (ht : m.Twins ρ m') (hb : Heap.Both ρ m.heap m'.heap v w)
    (hkey : Heap.Both ρ m.heap m'.heap v' w') :
    Meets ρ Vals ((do ScriptMachine.getById v (← ScriptMachine.keyAtom v') none) env m)
      ((do ScriptMachine.getById w (← ScriptMachine.keyAtom w') none) env' m') := by
  refine bind (keyAtom ht hkey) ?_
  rintro ρ₁ name k name' k' hle hk ⟨rfl, hknows, rfl, rfl⟩
  exact getById he hk hknows .none ⟨hb.same.mono hle, hb.left, hb.right⟩

/-- Reading an index of a cell. -/
theorem getIndex (ht : m.Twins ρ m') {a b : Handle} {c c' : Cell} (hp : ρ.Pairs a b)
    (hc : m.heap.cell? a = some c) (hc' : m'.heap.cell? b = some c') (index : UInt32) :
    Meets ρ Vals ((do settled (← ScriptMachine.withHeap (·.getIndex? a index)) : MachineM Value) env m)
      ((do settled (← ScriptMachine.withHeap (·.getIndex? b index)) : MachineM Value) env' m') := by
  have hrun (env : Env) (m : Machine) (id : Handle) :
      (ScriptMachine.withHeap (·.getIndex? id index) : MachineM (Option Value)) env m =
        .ok (m.heap.getIndex? id index).1 { m with heap := (m.heap.getIndex? id index).2 } := rfl
  rw [bind_eq_of_ok (hrun env m a), bind_eq_of_ok (hrun env' m' b)]
  rcases Option.rel_iff.mp (ht.heap.denseElement? hp hc hc' index) with ⟨hx, hy⟩ | ⟨x, y, hx, hy, hv⟩
  · simp only [Heap.getIndex?, hx, hy]
    have hk := ht.intern (indexName index)
    have hname : (m'.heap.internIndex index).1 = (m.heap.internIndex index).1 :=
      (ht.heap.intern (indexName index)).1
    obtain ⟨v, w, hread, hread', hb⟩ := hk.getProperty? hp hc hc' (m.heap.internIndex index).1
    change (m.heap.internIndex index).2.getProperty? a _ = _ at hread
    change (m'.heap.internIndex index).2.getProperty? b _ = _ at hread'
    rw [hname, hread, hread']
    exact .ok (List.Subset.refl ρ) hk hb
  · simp only [Heap.getIndex?, hx, hy]
    obtain ⟨d, hd, hmem⟩ := Heap.denseElement?_references hx
    obtain ⟨d', hd', hmem'⟩ := Heap.denseElement?_references hy
    exact .ok (List.Subset.refl ρ) ht
      (ht.both hv (ht.safe.holds_reference hd hmem) (ht.safe'.holds_reference hd' hmem'))

/-- **Reading a computed property.** -/
theorem getByVal (he : env.Tandem env') (ht : m.Twins ρ m') (hb : Heap.Both ρ m.heap m'.heap v w)
    (hkey : Heap.Both ρ m.heap m'.heap v' w') :
    Meets ρ Vals (getByVal v v' env m) (getByVal w w' env' m') := by
  refine look ?_
  rw [hkey.same.arrayIndex?]
  cases hv : v.cell? with
  | none =>
    have hw : w.cell? = none := by
      rw [hb.same.eq_of_left hv]
      exact hv
    rw [hw]
    exact getKeyed he ht hb hkey
  | some a =>
    obtain ⟨b, c, c', rfl, rfl, hp, hc, hc'⟩ := hb.cell hv
    rw [Value.cell?_cell]
    cases v'.arrayIndex? with
    | none => exact getKeyed he ht hb hkey
    | some index =>
      dsimp only
      rw [ht.stringValue? hb, Heap.isLive_of_cell? hc, Heap.isLive_of_cell? hc']
      cases m.stringValue? (.cell a) with
      | none => exact getIndex ht hp hc hc' index
      | some text =>
        dsimp only
        cases unitAt? text index.toNat with
        | none => exact ret ht (.word (by simp))
        | some unit => exact made_vals (newString he ht _)

/-- **Writing a computed property.** -/
theorem putByVal (he : env.Tandem env') (ht : m.Twins ρ m') {x y : Value} (hb : Guarded ρ m m' v w)
    (hkey : Heap.Both ρ m.heap m'.heap v' w') (hv : Guarded ρ m m' x y) :
    Meets ρ (fun _ _ _ _ _ => True) (putByVal v v' x env m) (putByVal w w' y env' m') := by
  have hnamed : Meets ρ (fun _ _ _ _ _ => True)
      ((do ScriptMachine.putById v (← ScriptMachine.keyAtom v') x none) env m)
      ((do ScriptMachine.putById w (← ScriptMachine.keyAtom w') y none) env' m') := by
    refine bind (keyAtom ht hkey) ?_
    rintro ρ₁ name k name' k' hle hk ⟨rfl, hknows, rfl, rfl⟩
    exact putById he hk hknows .none ⟨hb.same.mono hle, hb.left.intern _, hb.right.intern _⟩
      ⟨hv.same.mono hle, hv.left.intern _, hv.right.intern _⟩
  refine look ?_
  rw [hkey.same.arrayIndex?]
  rcases ht.objectCell? (hb.both ht) with ⟨hx, hy⟩ | ⟨a, b, c, c', hx, hy, rfl, rfl, hp, hc, hc'⟩
  · rw [hx, hy]
    exact hnamed
  rw [hx, hy]
  cases v'.arrayIndex? with
  | none => exact hnamed
  | some index =>
    dsimp only
    refine bind (Q := fun _ outcome _ outcome' _ => Heap.Refused outcome outcome')
      (heapWrite he (fun h => Heap.setIndex_sturdy index) (fun h => Heap.setIndex_sturdy index)
        fun k k' hk hk' => ?_) fun ρ₁ outcome k outcome' k' hle hk href => ?_
    · have htk := ht.swept hk hk'
      have hvalue := hv.swept ht hk hk'
      obtain ⟨_, d, d', hd', -, hpd, hcd, hcd'⟩ := (hb.swept ht hk hk').cell (Value.cell?_cell a)
      obtain rfl := Value.cell_inj.mp hd'
      exact runHeap he htk
        (Heap.setIndex_changes (storable_holds k) hvalue.holds.1 htk.safe.heap a index)
        (Heap.setIndex_changes (storable_holds k') hvalue.holds.2 htk.safe'.heap b index)
        (.setIndex a index _) (.setIndex b index _) (htk.heap.setIndex hpd hcd hcd' index hvalue.same)
    · refine ite href (fun _ => ?_) fun _ => ret hk trivial
      refine bind (Q := fun _ a _ b _ => b = a)
        (.ok (List.Subset.refl ρ₁) (hk.intern (indexName index))
          (hk.heap.intern (indexName index)).1) fun ρ₂ name k₂ name' k₂' _ hk₂ hname => ?_
      subst hname
      exact refuseWrite he hk₂ _

/-- **Asking whether an object has a property.** -/
theorem hasKey (he : env.Tandem env') (ht : m.Twins ρ m') (hkey : Heap.Both ρ m.heap m'.heap v w)
    (hb : Heap.Both ρ m.heap m'.heap v' w') :
    Meets ρ Same (hasKey v v' env m) (hasKey w w' env' m') := by
  refine look ?_
  rcases ht.objectCell? hb with ⟨hx, hy⟩ | ⟨a, b, c, c', hx, hy, rfl, rfl, hp, hc, hc'⟩
  · rw [hx, hy]
    exact raiseError he ht _ (by rw [ht.display hkey, ht.display hb])
  · rw [hx, hy]
    refine bind (keyAtom ht hkey) ?_
    rintro ρ₁ name k name' k' hle hk ⟨rfl, -, rfl, rfl⟩
    obtain ⟨found, hfound, hfound'⟩ :=
      hk.heap.hasProperty? hk.clean.closed hk.clean'.closed (hp.mono hle) hc hc' name'
    refine look ?_
    rw [hfound, hfound']
    exact ret hk rfl

/-- **Asking whether a value inherits from the prototype of a function.** -/
theorem instanceOf (he : env.Tandem env') (ht : m.Twins ρ m') (hb : Heap.Both ρ m.heap m'.heap v w)
    (hf : Heap.Both ρ m.heap m'.heap v' w') :
    Meets ρ Same (instanceOf v v' env m) (instanceOf w w' env' m') := by
  refine look ?_
  refine ite ?_ (fun _ => raiseError he ht _ rfl) fun _ => ?_
  · rcases Option.rel_iff.mp (ht.cellOf? hf) with ⟨hx, hy⟩ | ⟨c, c', hx, hy, hc⟩
    · simp only [hx, hy]
    · simp only [hx, hy, hc.kind]
  rcases ht.objectCell? hb with ⟨hx, hy⟩ | ⟨a, b, c, c', hx, hy, rfl, rfl, hp, hc, hc'⟩
  · rw [hx, hy]
    exact ret ht rfl
  · rw [hx, hy]
    dsimp only
    rw [ht.names]
    refine bind ((getById he ht ht.safe.anchored.names.prototype .none hf).also
      (Runs.result (Runs.getById ht.safe ht.safe.anchored.names.prototype))
      (Runs.result (Runs.getById ht.safe' (ht.names ▸ ht.safe'.anchored.names.prototype)))) ?_
    rintro ρ₁ prototype k prototype' k' hle hk ⟨hproto, ⟨-, hheap, -⟩, -, hheap', -⟩
    refine look ?_
    rcases hk.objectCell? hproto with ⟨hx, hy⟩ | ⟨x, y, d, d', hx, hy, rfl, rfl, hq, -, -⟩
    · rw [hx, hy]
      exact raiseError he hk _ rfl
    · rw [hx, hy]
      rw [← hheap] at hc
      rw [← hheap'] at hc'
      obtain ⟨found, hfound, hfound'⟩ :=
        hk.heap.inherits hk.clean.closed hk.clean'.closed hq (hp.mono hle) hc hc'
      dsimp only
      rw [hfound, hfound']
      exact ret hk rfl

/-! ### Globals -/

theorem getGlobalById (he : env.Tandem env') (ht : m.Twins ρ m') (hk : m.heap.atoms.Knows name)
    (hcite : m.Cites site name) :
    Meets ρ Vals (getGlobalById name site env m) (getGlobalById name site env' m') := by
  have hmem : m.intrinsics.global ∈ m.intrinsics.objects := by simp [Intrinsics.objects]
  obtain ⟨_, c, c', hb, -, hp, hc, hc'⟩ := ((ht.intrinsic hmem).both ht).cell (Value.cell?_cell _)
  obtain rfl := Value.cell_inj.mp hb
  refine look ?_
  rw [ht.intrinsics]
  refine bind (readCell ht hk hcite hp hc hc') ?_
  rintro ρ₁ l k l' k' hle hk ⟨hfound, -, -⟩
  by_cases hl : l = .missing
  · have hl' := hfound.missing.mp hl
    subst hl hl'
    refine look (raiseError he hk _ ?_)
    rw [hk.atomName]
  · have hl' : l' ≠ .missing := fun h => hl (hfound.missing.mpr h)
    cases l <;> cases l' <;> first
      | exact absurd rfl hl
      | exact absurd rfl hl'
      | exact ret hk hfound.value

theorem putGlobalById (he : env.Tandem env') (ht : m.Twins ρ m') (hk : m.heap.atoms.Knows name)
    (hcite : m.Cites site name) (hv : Guarded ρ m m' v w) :
    Meets ρ (fun _ _ _ _ _ => True) (putGlobalById name v site env m)
      (putGlobalById name w site env' m') := by
  refine look ?_
  have hmem : m.intrinsics.global ∈ m.intrinsics.objects := by simp [Intrinsics.objects]
  have hb := ht.intrinsic hmem
  unfold globalObject
  rw [ht.intrinsics]
  exact putById he ht hk hcite hb hv

/-! ### Operators -/

theorem addValues (he : env.Tandem env') (ht : m.Twins ρ m') (ha : Heap.Both ρ m.heap m'.heap v w)
    (hb : Heap.Both ρ m.heap m'.heap v' w') :
    Meets ρ Vals (addValues v v' env m) (addValues w w' env' m') := by
  refine look (ite ?_ (fun _ => ?_) fun _ => ?_)
  · rw [ht.isTextual ha, ht.isTextual hb]
  · rw [ht.display ha, ht.display hb]
    exact made_vals (newString he ht _)
  · rw [ht.toNumber ha, ht.toNumber hb]
    exact ret ht (.word (Value.cell?_number _))

/-- **Applying a binary operator.** -/
theorem applyBinary (he : env.Tandem env') (ht : m.Twins ρ m') (op : BinaryOp)
    (ha : Heap.Both ρ m.heap m'.heap v w) (hb : Heap.Both ρ m.heap m'.heap v' w') :
    Meets ρ Vals (applyBinary op v v' env m) (applyBinary op w w' env' m') := by
  unfold ScriptMachine.applyBinary
  rw [ha.same.number?, hb.same.number?]
  cases v.number? <;> cases v'.number?
  case some.some x y => exact ret ht (.word (Runs.cell?_onNumbers op x y))
  all_goals
    refine look ?_
    cases op with
    | add => exact addValues he ht ha hb
    | equal | notEqual =>
      dsimp only
      rw [ht.looseEquals ha hb]
      exact ret ht (.word (Value.cell?_boolean _))
    | strictEqual | strictNotEqual =>
      dsimp only
      rw [ht.strictEquals ha hb]
      exact ret ht (.word (Value.cell?_boolean _))
    | less | lessEq | greater | greaterEq =>
      dsimp only
      rw [ht.compare? ha hb]
      exact ret ht (.word (Value.cell?_boolean _))
    | sub | mul | div | mod | bitAnd | bitOr | bitXor | shiftLeft | shiftRight | unsignedShiftRight =>
      dsimp only
      rw [ht.toNumber ha, ht.toNumber hb]
      exact ret ht (.word (Runs.cell?_onNumbers _ _ _))

/-- **Applying a unary operator.** -/
theorem applyUnary (he : env.Tandem env') (ht : m.Twins ρ m') (op : UnaryOp)
    (ha : Heap.Both ρ m.heap m'.heap v w) :
    Meets ρ Vals (applyUnary op v env m) (applyUnary op w env' m') := by
  refine look ?_
  cases op with
  | negate | increment | decrement | toNumber =>
    dsimp only
    rw [ht.toNumber ha]
    exact ret ht (.word (Value.cell?_number _))
  | not =>
    dsimp only
    rw [ht.toBoolean ha]
    exact ret ht (.word (Value.cell?_boolean _))
  | typeOf =>
    dsimp only
    rw [ht.typeName ha]
    exact made_vals (newString he ht _)

end Meets

end ScriptMachine
