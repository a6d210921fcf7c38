import ScriptMachine.Proofs.Events.Invariants
import ScriptMachine.Proofs.Heap.Prototypes
import ScriptMachine.Proofs.Heap.Spelling
import ScriptMachine.Proofs.Machine.Memory
import ScriptMachine.Proofs.Machine.Transparency
import ScriptMachine.Proofs.Number.Indices
import ScriptMachine.Proofs.Safety.Dangling
import ScriptMachine.Proofs.Value.Types

/-! # Keys

A computed access takes a number that is an index to the elements, and interns the text of every other key
(`Machine.keyAtom_eq`). A number is an index exactly if its text names one, so both ways lead to the same
property: what is read is the property of that name (`Machine.getByVal_number`), a write where the name has
been interned is the write to the name (`Machine.putByVal_interned`), and a write does the same before the
name is interned and after (`Machine.putByVal_naming`). `computed_and_named_access_agree` puts them
together.

Nothing here is about the caches of sites, which computed accesses do not use. -/

namespace ScriptMachine

open Machine

variable {α : Type} {env : Env} {m k : Machine} {object key : Handle} {n : Binary64} {text : String}

namespace Machine

/-! ### Interning -/

/-- The machine after a text was interned. -/
def naming (m : Machine) (text : String) : Machine := { m with heap := m.heap.naming text }

/-- A text that was interned stays so. -/
theorem intern_naming (ho : m.heap.atoms.Ordered) (text : String) :
    (m.naming text).heap.intern text = m.heap.intern text ∧
      (m.naming text).naming text = m.naming text :=
  ⟨(Heap.intern_naming ho text).1, congrArg (fun heap => { m with heap }) (Heap.intern_naming ho text).2⟩

theorem collect_eq (m : Machine) : m.collect.2 =
    if (m.heap.collect m.roots m.rootWords).1.freedShapes > 0 then
      { m with heap := (m.heap.collect m.roots m.rootWords).2 }.forgetReclaimedShapes
    else { m with heap := (m.heap.collect m.roots m.rootWords).2 } := rfl

/-- **A collection does not look at names.** -/
theorem collect_naming (m : Machine) (text : String) :
    (m.naming text).collect.2 = m.collect.2.naming text := by
  have hatoms : (m.heap.collect m.roots m.rootWords).2.atoms = m.heap.atoms :=
    (Heap.collect_keeps m.heap m.roots m.rootWords).1
  have hnaming : (m.heap.collect m.roots m.rootWords).2.naming text =
      (m.heap.collect m.roots m.rootWords).2.withAtoms (m.heap.atoms.intern text).2 := by
    rw [Heap.naming_eq, hatoms]
  have hcollect : (m.naming text).heap.collect (m.naming text).roots (m.naming text).rootWords =
      ((m.heap.collect m.roots m.rootWords).1, (m.heap.collect m.roots m.rootWords).2.naming text) :=
    hnaming ▸ Heap.collect_withAtoms m.heap m.roots m.rootWords
  rw [collect_eq, collect_eq, hcollect]
  split <;> rfl

/-! ### Texts -/

theorem display_number (m : Machine) (n : Binary64) : m.display (.number n) = n.text := by
  simp only [display, displayFuel, displayWithin?, Value.decode_number, Option.getD_some]
  cases hnan : n.isNaN with
  | true =>
    simp only [Binary64.text, hnan, if_true]
    rfl
  | false => rfl

theorem display_string (hkey : m.stringValue? (.cell key) = some text) :
    m.display (.cell key) = text := by
  simp only [stringValue?, Heap.cellOf?, Value.cell?_cell] at hkey
  split at hkey
  case h_2 => cases hkey
  case h_1 c hcell =>
    obtain ⟨data, hp, rfl⟩ : ∃ data : StringData, c.payload = .string data ∧ data.text = text := by
      unfold Cell.text? at hkey
      split at hkey
      · exact ⟨_, by assumption, Option.some.inj hkey⟩
      · cases hkey
    simp only [display, displayFuel, displayWithin?, Value.decode_cell, hcell, hp, Option.getD_some]

/-- A key that is no index is interned by its text. -/
theorem keyAtom_eq (key : Value) (env : Env) (m : Machine) : keyAtom key env m =
    .ok (m.heap.intern (m.display key)).1 (m.naming (m.display key)) := rfl

/-! ### Objects -/

theorem objectCell?_cell (hobject : m.objectCell? (.cell object) = some object) :
    ∃ c, m.heap.cell? object = some c ∧ c.kind.isObject = true := by
  simp only [objectCell?, Value.cell?_cell] at hobject
  split at hobject
  case h_2 => cases hobject
  case h_1 c hcell =>
    split at hobject
    · exact ⟨c, hcell, ‹_›⟩
    · cases hobject

theorem liveCell?_cell (hobject : m.objectCell? (.cell object) = some object) :
    m.liveCell? (.cell object) = some object := by
  obtain ⟨c, hcell, -⟩ := objectCell?_cell hobject
  simp only [liveCell?, Value.cell?_cell, Heap.isLive_of_cell? hcell, if_true]

/-- An object is no string. -/
theorem stringValue?_object (hobject : m.objectCell? (.cell object) = some object) :
    m.stringValue? (.cell object) = none := by
  obtain ⟨c, hcell, hkind⟩ := objectCell?_cell hobject
  simp only [stringValue?, Heap.cellOf?, Value.cell?_cell, hcell, Cell.text?]
  split
  case h_1 text hp => simp [Cell.kind, hp, Payload.kind, CellKind.isObject] at hkind
  case h_2 => rfl

@[simp] theorem cachedProperty?_none (m : Machine) (shape : ShapeId) :
    m.cachedProperty? none shape = none := by
  simp [cachedProperty?]

@[simp] theorem cacheProperty_none (m : Machine) (entry : PropertyEntry) :
    m.cacheProperty none entry = m := by
  simp [cacheProperty]

/-- **Reading by a name** without a cache. -/
theorem getById_eq (hobject : m.objectCell? (.cell object) = some object) (name : Atom) (env : Env) :
    getById (.cell object) name none env m = settled (m.heap.getProperty? object name) env m := by
  have hreplayed : m.replayed? object none = none := by
    unfold replayed?
    cases m.heap.shapeOf? object with
    | none => rfl
    | some shape => simp [replayRead?]
  have hread := readCell_eq object name none env m
  have hfound : m.found? object name none = m.heap.lookupProperty? object name := by
    simp only [found?, hreplayed]
  have hafter : m.afterRead object name none = m := by
    simp only [afterRead, hreplayed, cacheProperty_none]
    split <;> rfl
  rw [hfound, hafter] at hread
  simp only [getById, get_bind, liveCell?_cell hobject, Heap.getProperty?]
  cases hlookup : m.heap.lookupProperty? object name with
  | none =>
    rw [hlookup] at hread
    rw [bind_eq_of_error hread]
    rfl
  | some lookup =>
    rw [hlookup] at hread
    rw [bind_eq_of_ok hread]
    rfl

/-- **Writing by a name** without a cache. -/
theorem putById_eq (hobject : m.objectCell? (.cell object) = some object) (name : Atom) (value : Value)
    (env : Env) : putById (.cell object) name value none env m =
      (heapWrite [.cell object, value] (Heap.setProperty object name value) >>= fun outcome =>
        if outcome = .readOnly then refuseWrite name else pure ()) env m := by
  have hcell : putById (.cell object) name value none env m =
      putCell m object name value none env m := by
    simp only [putById, get_bind, liveCell?_cell hobject]
    rfl
  have hreplayed : m.replayedWrite? object none = none := by
    unfold replayedWrite?
    cases m.heap.shapeOf? object with
    | none => rfl
    | some shape => simp [replayWrite?]
  rw [hcell]
  simp only [putCell, hreplayed]
  cases hrun : heapWrite [.cell object, value] (Heap.setProperty object name value) env m with
  | error stop k => rw [bind_eq_of_error hrun, bind_eq_of_error hrun]
  | ok outcome k =>
    rw [bind_eq_of_ok hrun, bind_eq_of_ok hrun]
    unfold recordWrite
    split
    · rfl
    · rw [get_bind]
      simp only [cacheProperty_none]
      split
      · cases k.cacheableWrite? outcome <;> rfl
      · rfl

/-! ### Reading by a key -/

/-- **A number as a key**: what is read is the property of its text, which is interned afterwards if it
was not before. -/
theorem getByVal_number (hobject : m.objectCell? (.cell object) = some object)
    (ho : m.heap.atoms.Ordered) (hfit : (m.heap.intern n.text).2.atoms.Fits) (env : Env) :
    ∃ k, getByVal (.cell object) (.number n) env m =
        settled ((m.naming n.text).heap.getProperty? object (m.heap.intern n.text).1) env k ∧
      k.naming n.text = m.naming n.text := by
  have hobject' : (m.naming n.text).objectCell? (.cell object) = some object := hobject
  cases hindex : (Value.number n).arrayIndex? with
  | some index =>
    obtain ⟨c, hcell, -⟩ := objectCell?_cell hobject
    have hname : arrayIndexOf? n.text = some index := (arrayIndex?_number n).symm.trans hindex
    obtain ⟨hvalue, hafter⟩ : (m.heap.getIndex? object index).1 = _ ∧ _ :=
      Heap.getIndex?_naming ho hname hfit
    refine ⟨{ m with heap := (m.heap.getIndex? object index).2 }, ?_, ?_⟩
    · simp only [getByVal, get_bind, Value.cell?_cell, hindex, stringValue?_object hobject,
        Heap.isLive_of_cell? hcell, if_true]
      change settled (m.heap.getIndex? object index).1 env _ = _
      rw [hvalue]
      rfl
    · exact congrArg (fun heap => { m with heap }) hafter
  | none =>
    refine ⟨m.naming n.text, ?_, ?_⟩
    · simp only [getByVal, get_bind, Value.cell?_cell, hindex]
      rw [bind_eq_of_ok (keyAtom_eq _ _ _), display_number, getById_eq hobject']
    · exact (intern_naming ho n.text).2

/-- **A string as a key** is interned. -/
theorem getByVal_string (hobject : m.objectCell? (.cell object) = some object)
    (hkey : m.stringValue? (.cell key) = some text) (env : Env) :
    getByVal (.cell object) (.cell key) env m =
      settled ((m.naming text).heap.getProperty? object (m.heap.intern text).1) env (m.naming text) := by
  have hobject' : (m.naming text).objectCell? (.cell object) = some object := hobject
  have hindex : (Value.cell key).arrayIndex? = none := by rw [Value.arrayIndex?, Value.number?_cell]
  simp only [getByVal, get_bind, Value.cell?_cell, hindex]
  rw [bind_eq_of_ok (keyAtom_eq _ _ _), display_string hkey, getById_eq hobject']

/-- **Asking for a key** is asking for its text. -/
theorem hasKey_eq (hobject : m.objectCell? (.cell object) = some object) (key : Value) (env : Env) :
    hasKey key (.cell object) env m =
      settled ((m.naming (m.display key)).heap.hasProperty? object (m.heap.intern (m.display key)).1) env
        (m.naming (m.display key)) := by
  simp only [hasKey, get_bind, hobject]
  rw [bind_eq_of_ok (keyAtom_eq _ _ _)]
  rfl

/-! ### Writing by a key -/

/-- Writing to an index. -/
theorem putByVal_index {index : UInt32} {key : Value}
    (hobject : m.objectCell? (.cell object) = some object) (hindex : key.arrayIndex? = some index)
    (value : Value) (env : Env) : putByVal (.cell object) key value env m =
      (heapWrite [.cell object, value] (Heap.setIndex object index value) >>= fun outcome =>
        if outcome = .readOnly then withHeap (·.internIndex index) >>= refuseWrite else pure ()) env m := by
  simp only [putByVal, get_bind, hobject, hindex]

/-- Writing to anything else. -/
theorem putByVal_text {key : Value} (hindex : key.arrayIndex? = none) (value : Value) (env : Env) :
    putByVal (.cell object) key value env m =
      putById (.cell object) (m.heap.intern (m.display key)).1 value none env
        (m.naming (m.display key)) := by
  simp only [putByVal, get_bind, hindex]
  cases m.objectCell? (.cell object) <;> exact bind_eq_of_ok (keyAtom_eq key env m)

/-- Writes that are the same in a heap, and in what a collection leaves of it. -/
theorem heapWrite_congr {x x' : HeapM α} (hx : x' m.heap = x m.heap)
    (hx' : x' m.collect.2.heap = x m.collect.2.heap)
    (hs : ∀ fault h, x m.heap = .error fault h → h = m.heap) (held : List Value) (env : Env) :
    heapWrite held x' env m = heapWrite held x env m := by
  rw [heapWrite_eq hs, heapWrite_eq (hx ▸ hs), Meets.runHeap_eq, Meets.runHeap_eq, hx, hx']

/-- **A write after a text was interned**, if the heap does the same before and after, and writes fail only
for stale handles and want of memory. -/
theorem heapWrite_naming {x : HeapM α} {n n' : Nat} {held : List Value}
    (hpause : ∀ k, env.pause (k.naming text) held = env.pause k held)
    (hx : x (m.heap.naming text) = endingIn (·.naming text) (x m.heap))
    (hx' : x (m.collect.2.heap.naming text) = endingIn (·.naming text) (x m.collect.2.heap))
    (hs : Heap.Explained n x m.heap) (hs' : Heap.Explained n' x m.collect.2.heap) :
    heapWrite held x env (m.naming text) = endingIn (·.naming text) (heapWrite held x env m) := by
  have hsame : ∀ fault h, x m.heap = .error fault h → h = m.heap := fun fault h hr => (hs fault h hr).1
  have hsame' : ∀ fault h, x (m.naming text).heap = .error fault h → h = (m.naming text).heap := by
    intro fault h hr
    have hr := hx.symm.trans hr
    cases hrun : x m.heap with
    | ok a h' =>
      rw [hrun] at hr
      cases hr
    | error fault' h' =>
      rw [hrun] at hr
      rw [← (EStateM.Result.error.inj hr).2, hsame fault' h' hrun]
      rfl
  rw [heapWrite_eq hsame, heapWrite_eq hsame', hpause, collect_naming, hpause, Meets.runHeap_eq,
    Meets.runHeap_eq]
  -- The collected machine is named, or it would be computed in what follows.
  obtain ⟨k, hk⟩ : ∃ k, k = m.collect.2 := ⟨_, rfl⟩
  rw [← hk] at hx' hs' ⊢
  have hx : x (m.naming text).heap = endingIn (·.naming text) (x m.heap) := hx
  have hx' : x (k.naming text).heap = endingIn (·.naming text) (x k.heap) := hx'
  rw [hx, hx']
  split
  case isTrue => rfl
  case isFalse =>
    cases hrun : x m.heap with
    | ok a h => rfl
    | error fault h =>
      obtain ⟨-, rfl | ⟨rfl, -, -⟩⟩ := hs fault h hrun
      · rfl
      · dsimp only [endingIn]
        split
        case isTrue => rfl
        case isFalse =>
          cases hrun : x k.heap with
          | ok a h => rfl
          | error fault h =>
            obtain ⟨rfl, rfl | ⟨rfl, -, -⟩⟩ := hs' fault h hrun <;> rfl

/-- What a write leaves of the table of names. -/
theorem names_of_heapWrite {x : HeapM α} {n n' : Nat} {held : List Value} {a : α}
    (hs : Heap.Explained n x m.heap) (hs' : Heap.Explained n' x m.collect.2.heap) (hp : Heap.Preserving x)
    (ho : m.heap.atoms.Ordered) (hrun : heapWrite held x env m = .ok a k) :
    k.heap.atoms.Ordered ∧ k.heap.atoms.Extends m.heap.atoms := by
  have hkept : m.collect.2.heap.atoms = m.heap.atoms := by
    rw [heap_collect]
    exact (Heap.collect_keeps _ _ _).1
  have ran {m' : Machine} (hatoms : m'.heap.atoms = m.heap.atoms) {h : Heap} (hr : x m'.heap = .ok a h) :
      h.atoms.Ordered ∧ h.atoms.Extends m.heap.atoms := by
    have hnames := (hp m'.heap).names (hatoms ▸ ho)
    rwa [hr, hatoms] at hnames
  rw [heapWrite_eq fun fault h hr => (hs fault h hr).1, Meets.runHeap_eq] at hrun
  split at hrun
  case isTrue => cases hrun
  case isFalse =>
    cases hr : x m.heap with
    | ok a' h =>
      rw [hr] at hrun
      obtain ⟨rfl, rfl⟩ := EStateM.Result.ok.inj hrun
      exact ran rfl hr
    | error fault h =>
      rw [hr] at hrun
      obtain ⟨-, rfl | ⟨rfl, -, -⟩⟩ := hs fault h hr
      · cases hrun
      · dsimp only at hrun
        split at hrun
        case isTrue => cases hrun
        case isFalse =>
          cases hr : x m.collect.2.heap with
          | ok a' h =>
            rw [hr] at hrun
            obtain ⟨rfl, rfl⟩ := EStateM.Result.ok.inj hrun
            exact ran hkept hr
          | error fault h =>
            rw [hr] at hrun
            obtain ⟨-, rfl | ⟨rfl, -, -⟩⟩ := hs' fault h hr <;> cases hrun

/-- **The second run is the first one**, but that a text may be interned besides. -/
def NamedBesides (text : String) (r r' : EStateM.Result Stop Machine α) : Prop :=
  r' = r ∨ r' = endingIn (·.naming text) r

/-- **Writing to an index is writing to its name**, where the name has been interned. -/
theorem putByVal_interned {name : Atom} (hobject : m.objectCell? (.cell object) = some object)
    (ho : m.heap.atoms.Ordered) (hfit : m.heap.atoms.Fits) (hname : m.heap.atoms.get? n.text = some name)
    (value : Value) (env : Env) : putByVal (.cell object) (.number n) value env m =
      putById (.cell object) name value none env m := by
  obtain ⟨hintern, hnaming⟩ := Heap.naming_of_get? hname
  cases hindex : (Value.number n).arrayIndex? with
  | none =>
    have hmachine : m.naming n.text = m := congrArg (fun heap => { m with heap }) hnaming
    rw [putByVal_text hindex, display_number, hintern, hmachine]
  | some index =>
    have htext : arrayIndexOf? n.text = some index := (arrayIndex?_number n).symm.trans hindex
    have hatom : m.heap.atoms.arrayIndex? name = some index :=
      (AtomTable.arrayIndex?_of_get? ho hfit hname).trans htext
    have hkind {h : Heap} (hkeep : ∀ c, h.cell? object = some c → m.heap.cell? object = some c) (c : Cell)
        (hcell : h.cell? object = some c) : c.kind ≠ .string := by
      obtain ⟨c', hcell', hobject⟩ := objectCell?_cell hobject
      obtain rfl := Option.some.inj ((hkeep c hcell).symm.trans hcell')
      rintro hstring
      rw [hstring] at hobject
      cases hobject
    have hcongr : heapWrite [.cell object, value] (Heap.setProperty object name value) env m =
        heapWrite [.cell object, value] (Heap.setIndex object index value) env m := by
      obtain ⟨hatoms, -, -, -, hkeep⟩ := Heap.collect_keeps m.heap m.roots m.rootWords
      rw [← heap_collect] at hatoms hkeep
      refine heapWrite_congr (Heap.setProperty_index ho hatom (hkind fun _ h => h) value)
        (Heap.setProperty_index ?_ ?_ (hkind fun c h => (hkeep object c h).1) value)
        (fun fault h hr => (Heap.setIndex_explained index value fault h hr).1) _ _
      · rwa [hatoms]
      · rwa [hatoms]
    rw [putByVal_index hobject hindex, putById_eq hobject]
    cases hrun : heapWrite [.cell object, value] (Heap.setIndex object index value) env m with
    | error stop k => rw [bind_eq_of_error hrun, bind_eq_of_error (hcongr.trans hrun)]
    | ok outcome k =>
      rw [bind_eq_of_ok hrun, bind_eq_of_ok (hcongr.trans hrun)]
      split
      case isFalse => rfl
      case isTrue =>
        obtain ⟨ho', hextends⟩ := names_of_heapWrite (Heap.setIndex_explained index value)
          (Heap.setIndex_explained index value) (.setIndex object index value) ho hrun
        have hget := hextends.get? ho ho' hname
        rw [eq_indexName htext] at hget
        have hstep : (withHeap (·.internIndex index) : MachineM Atom) env k = .ok name k := by
          change EStateM.Result.ok (k.heap.intern (indexName index)).1
            { k with heap := (k.heap.intern (indexName index)).2 } = _
          rw [(Heap.naming_of_get? hget).1]
        exact bind_eq_of_ok hstep

/-- **Writing to an index** before its name is interned, and afterwards. -/
theorem putByVal_naming (hobject : m.objectCell? (.cell object) = some object)
    (ho : m.heap.atoms.Ordered) (hfit : (m.heap.intern n.text).2.atoms.Fits)
    (hv : m.heap.Vouches object (m.heap.intern n.text).1)
    (hpause : ∀ k held, env.pause (k.naming n.text) held = env.pause k held) (value : Value) :
    NamedBesides n.text (putByVal (.cell object) (.number n) value env m)
      (putByVal (.cell object) (.number n) value env (m.naming n.text)) := by
  have hobject' : (m.naming n.text).objectCell? (.cell object) = some object := hobject
  cases hindex : (Value.number n).arrayIndex? with
  | none =>
    obtain ⟨hagain, hagain'⟩ := intern_naming ho n.text
    left
    rw [putByVal_text hindex, putByVal_text hindex, display_number, display_number, hagain, hagain']
  | some index =>
    have htext : arrayIndexOf? n.text = some index := (arrayIndex?_number n).symm.trans hindex
    obtain ⟨hatoms, -⟩ := Heap.collect_keeps m.heap m.roots m.rootWords
    have hcollected : Heap.setIndex object index value (m.collect.2.heap.naming n.text) =
        endingIn (·.naming n.text) (Heap.setIndex object index value m.collect.2.heap) := by
      rw [heap_collect]
      refine Heap.setIndex_naming (hatoms ▸ ho) htext value ?_ ?_
      · rw [Heap.intern, hatoms]
        exact hv.collect _ _
      · rwa [Heap.intern, hatoms]
    have hwrite := heapWrite_naming (hpause · [.cell object, value])
      (Heap.setIndex_naming ho htext value hv hfit) hcollected
      (Heap.setIndex_explained index value) (Heap.setIndex_explained index value)
    rw [putByVal_index hobject hindex, putByVal_index hobject' hindex]
    cases hrun : heapWrite [.cell object, value] (Heap.setIndex object index value) env m with
    | error stop k =>
      rw [hrun] at hwrite
      rw [bind_eq_of_error hrun, bind_eq_of_error hwrite]
      exact .inr rfl
    | ok outcome k =>
      rw [hrun] at hwrite
      rw [bind_eq_of_ok hrun, bind_eq_of_ok hwrite]
      dsimp only
      split
      case isFalse => exact .inr rfl
      case isTrue =>
        -- a refusal interns the name
        left
        obtain ⟨ho', -⟩ := names_of_heapWrite (Heap.setIndex_explained index value)
          (Heap.setIndex_explained index value) (.setIndex object index value) ho hrun
        have hstep (k : Machine) : (withHeap (·.internIndex index) : MachineM Atom) env k =
          .ok (k.heap.intern (indexName index)).1 (k.naming (indexName index)) := rfl
        obtain ⟨hagain, hagain'⟩ := intern_naming ho' (indexName index)
        rw [eq_indexName htext, bind_eq_of_ok (hstep _), bind_eq_of_ok (hstep _), hagain, hagain']

/-! ### Names that are made up -/

/-- **Programs use interned names**, wherever they are stopped. -/
theorem vouches_programs {config : Config} (hm : Machine.new config = .ok m) (tier : Bool)
    (earlier : List Block) (block : Block) (pause : Machine → List Value → Bool) (fuel : Nat)
    (id : Handle) (name : Atom) :
    (leaves ((if tier then m.installTier else m).evalPausing pause fuel
      (runPrograms earlier block))).heap.Vouches id name :=
  (safe_programs hm tier earlier block pause fuel).heap.vouches id name

theorem Sound.afterwards {names : SiteNames} (hs : m.Sound names) (fuel : Nat) (ops : List Operation) :
    (m.after names fuel ops).Sound names := by
  induction ops generalizing m with
  | nil => exact hs
  | cons op ops ih => exact ih (@Operation.run_agrees names (environment fuel) _ m op hs).sound

/-- **So do hosts that name what they want.** -/
theorem vouches_operations {config : Config} (hm : Machine.new config = .ok m) (names : SiteNames)
    (fuel : Nat) (ops : List Operation) (id : Handle) (name : Atom) :
    (m.after names fuel ops).heap.Vouches id name :=
  ((new_sound hm).afterwards fuel ops).heap.vouches id name

end Machine

/-! ### Agreement -/

/-- **Computed and named access agree.** In every machine that a host can get at, the names are in order.
Let `name` be that of the text of a number, and `named` the machine in which it has been interned. As long
as names can be told apart, for every object that is alive:

* the number, a string of that text and `name` read the same, and end in `named`, but that a number which
  is an index need not be interned;
* the number and the string give the same answer when one asks for them, which is whether the lookup
  finds anything;
* where one of them never ends, because prototypes lie in a circle that has no such property, all of these do;
  where prototypes lie in no circle, as in all machines in which only programs have run, they all end;
* a write to the string, or to the number once it has been interned, is the write to `name`;
* a write to the number is the write to `name`, but that the number need not be interned, which changes
  neither cells nor shapes.

The last is about machines that are stopped, if at all, for other reasons than the names that they have
interned. It takes for granted that the object has nothing under a name that was never interned, which is
so wherever programs run, or a host names what it wants. -/
theorem computed_and_named_access_agree :
    (∀ m : Machine, m.Visited → m.heap.atoms.Ordered) ∧
    (∀ config m, Machine.new config = .ok m →
      (∀ (tier : Bool) earlier block pause fuel,
        let k := leaves ((if tier then m.installTier else m).evalPausing pause fuel (runPrograms earlier block))
        (∀ id name, k.heap.Vouches id name) ∧ (k.Addressable → k.heap.Acyclic)) ∧
      ∀ names fuel ops id name, (m.after names fuel ops).heap.Vouches id name) ∧
    ∀ (env : Env) (m : Machine) (object key : Handle) (n : Binary64) (value : Value),
      m.heap.atoms.Ordered → (m.heap.intern n.text).2.atoms.Fits →
      m.objectCell? (.cell object) = some object → m.stringValue? (.cell key) = some n.text →
      let name := (m.heap.intern n.text).1
      let named := m.naming n.text
      let lookup := named.heap.lookupProperty? object name
      (∃ read k, getByVal (.cell object) (.number n) env m = settled read env k ∧ k.naming n.text = named ∧
        getByVal (.cell object) (.cell key) env m = settled read env named ∧
        getById (.cell object) name none env named = settled read env named ∧
        read = lookup.map (·.value)) ∧
      (∃ has, hasKey (.number n) (.cell object) env m = settled has env named ∧
        hasKey (.cell key) (.cell object) env m = settled has env named ∧
        has = lookup.map fun found => decide (found ≠ .missing)) ∧
      (lookup = none ↔ ∀ links found, ¬named.heap.Ends name links (.cell object) found) ∧
      (m.heap.Acyclic → lookup ≠ none) ∧
      putByVal (.cell object) (.cell key) value env m =
        putById (.cell object) name value none env named ∧
      putByVal (.cell object) (.number n) value env named =
        putById (.cell object) name value none env named ∧
      (m.heap.Vouches object name → (∀ k held, env.pause (k.naming n.text) held = env.pause k held) →
        NamedBesides n.text (putByVal (.cell object) (.number n) value env m)
          (putById (.cell object) name value none env named)) ∧
      ∀ k : Machine, (k.naming n.text).heap.cell? = k.heap.cell? ∧
        (k.naming n.text).heap.shapes = k.heap.shapes := by
  refine ⟨fun m hm => hm.regular.ordered, fun config m hm => ⟨fun tier earlier block pause fuel =>
    ⟨vouches_programs hm tier earlier block pause fuel, acyclic_programs hm tier earlier block pause fuel⟩,
    fun names fuel ops id name => vouches_operations hm names fuel ops id name⟩, ?_⟩
  intro env m object key n value ho hfit hobject hkey name named lookup
  have hobject' : named.objectCell? (.cell object) = some object := hobject
  obtain ⟨ho', -, hget⟩ := AtomTable.intern_spec ho n.text
  have hwrite : putByVal (.cell object) (.number n) value env named =
      putById (.cell object) name value none env named :=
    putByVal_interned hobject' ho' hfit hget value env
  refine ⟨?_, ?_, Heap.lookupProperty?_eq_none, fun hacyclic => ?_, ?_, hwrite, fun hv hpause => ?_,
    fun k => ⟨rfl, rfl⟩⟩
  · obtain ⟨k, hread, hk⟩ := getByVal_number hobject ho hfit env
    exact ⟨_, k, hread, hk, getByVal_string hobject hkey env, getById_eq hobject' name env, rfl⟩
  · refine ⟨named.heap.hasProperty? object name, ?_, ?_, ?_⟩
    · rw [hasKey_eq hobject, display_number]
    · rw [hasKey_eq hobject, display_string hkey]
    · refine congrArg (Option.map · lookup) (funext fun l => ?_)
      cases l <;> simp [PropertyLookup.isFound]
  · have hnamed : named.heap.Acyclic := hacyclic.congr (fun _ => rfl) fun _ => rfl
    obtain ⟨links, found, hends⟩ := hnamed.ends object name
    exact fun hnone => Heap.lookupProperty?_eq_none.mp hnone links found hends
  · have hindex : (Value.cell key).arrayIndex? = none := by rw [Value.arrayIndex?, Value.number?_cell]
    rw [putByVal_text hindex, display_string hkey]
  · rw [← hwrite]
    exact putByVal_naming hobject ho hfit hv hpause value

/-- A machine with an array of one element and the name of its index. -/
def indexed : Machine where
  config := {}
  heap := { Heap.new {} with
    slots := #[{ bytes := 144, cell := some (Cell.new ⟨0⟩ 0 (.array ⟨#[.null], 1⟩)) },
      { bytes := 137, cell := some (Cell.new ⟨1⟩ 0 (.string "0")) }]
    shapes := { shapes := #[{ kind := .array, prototype := .null }, { kind := .string, prototype := .null }] }
    liveBytes := 281
    liveCells := 2
    temporaries := #[.cell ⟨0, 0⟩, .cell ⟨1, 0⟩] }
  registers := { registers := #[], capacity := 10 }
  intrinsics := default
  names := default
  watchdog := .new none 1

/-- The negative zero is the index of the element. -/
theorem computed_and_named_access_agree_indexed :
    let env : Env := { reenter := fun _ m => .error .exhausted m, fuel := 0 }
    let n : Binary64 := ⟨0x8000000000000000⟩
    let name := (indexed.heap.intern n.text).1
    let named := indexed.naming n.text
    (∃ k, getByVal (.cell ⟨0, 0⟩) (.number n) env indexed = .ok .null k ∧
      getByVal (.cell ⟨0, 0⟩) (.cell ⟨1, 0⟩) env indexed = .ok .null named ∧
      getById (.cell ⟨0, 0⟩) name none env named = .ok .null named) ∧
    NamedBesides n.text (putByVal (.cell ⟨0, 0⟩) (.number n) .undefined env indexed)
      (putById (.cell ⟨0, 0⟩) name .undefined none env named) := by
  intro env n name named
  have htext : n.text = "0" := by decide +kernel
  have hfit : (indexed.heap.intern n.text).2.atoms.Fits := by
    simp [indexed, Heap.new, Heap.intern, AtomTable.intern, AtomTable.Fits]
  have hkey : indexed.stringValue? (.cell ⟨1, 0⟩) = some n.text := by
    rw [htext]
    decide
  have hvouches : indexed.heap.Vouches ⟨0, 0⟩ name := by
    intro c hcell hsome
    obtain rfl := Option.some.inj hcell
    cases hsome
  obtain ⟨⟨read, k, hnumber, -, hstring, hnamed, -⟩, -, -, -, -, -, hwrite, -⟩ :=
    computed_and_named_access_agree.2.2 env indexed ⟨0, 0⟩ ⟨1, 0⟩ n .undefined .empty hfit (by decide) hkey
  have hread : getByVal (.cell ⟨0, 0⟩) (.number n) env indexed = .ok .null indexed := by
    have hindex : (Value.number n).arrayIndex? = some 0 := by decide +kernel
    have hobject : indexed.objectCell? (.cell ⟨0, 0⟩) = some ⟨0, 0⟩ := by decide
    simp only [getByVal, get_bind, Value.cell?_cell, hindex, stringValue?_object hobject]
    rfl
  obtain rfl : read = some .null := by
    rw [hread] at hnumber
    cases read with
    | none => cases hnumber
    | some value => exact congrArg some (EStateM.Result.ok.inj hnumber).1.symm
  exact ⟨⟨k, hnumber, hstring, hnamed⟩, hwrite hvouches fun _ _ => rfl⟩

end ScriptMachine
