import ScriptMachine.Machine.Property
import ScriptMachine.Proofs.InlineCache
import ScriptMachine.Proofs.Machine.Anchored

/-! # The property caches of a machine

`Machine.Remembers` says that every entry of every property cache is valid for a name of its site. It
is kept while the heap evolves, by collections, which drop the entries whose shapes were given back,
and by recording what a lookup or a write found (`cacheableRead?_valid`, `cacheableWrite?_valid`). -/

namespace ScriptMachine

namespace Machine

/-- Every entry of the property caches is valid for a name that its site has. -/
def Remembers (m : Machine) (named : CodeId → Nat → Atom → Prop) : Prop :=
  ∀ code entry index cache key e, m.code? code = some entry →
    entry.caches.properties[index]? = some cache → (key, e) ∈ cache.entries →
    key = e.guardShape ∧ ∃ name, named code index name ∧ m.heap.atoms.Knows name ∧
      e.Valid m.heap name

variable {m m' : Machine} {named named' : CodeId → Nat → Atom → Prop} {id : Handle} {name : Atom}
  {c : Cell} {e : PropertyEntry}

/-! ### What keeps the caches valid -/

theorem Remembers.evolves (hr : m.Remembers named) (hcodes : m'.codes = m.codes)
    (he : m.heap.Evolves m'.heap) (hn : ∀ code index name, named code index name →
      named' code index name) : m'.Remembers named' := by
  intro code entry index cache key e hcode hcache hmem
  rw [code?, hcodes] at hcode
  obtain ⟨hkey, name, hname, hk, hv⟩ := hr code entry index cache key e hcode hcache hmem
  exact ⟨hkey, name, hn _ _ _ hname, he.atoms.knows hk, hv.evolves he hk⟩

/-- New code starts with empty caches. -/
theorem Remembers.pushCode (hr : m.Remembers named) {entry : CodeEntry} {sites calls : Nat}
    (hnew : entry.caches = .new sites calls) :
    Remembers { m with codes := m.codes.push entry } named := by
  intro code e index cache key p hcode hcache hmem
  simp only [code?, Array.getElem?_push] at hcode
  split at hcode
  case isTrue =>
    obtain rfl := Option.some.inj hcode
    rw [hnew] at hcache
    simp only [CodeCaches.new, Array.getElem?_replicate] at hcache
    split at hcache
    case isFalse => cases hcache
    case isTrue =>
      obtain rfl := Option.some.inj hcache
      cases hmem
  case isFalse => exact hr code e index cache key p hcode hcache hmem

theorem mem_of_cachedProperty? {site : Site} {shape : ShapeId}
    (h : m.cachedProperty? site shape = some e) :
    m.config.inlineCaching = true ∧ ∃ code index entry cache, site = some (code, index) ∧
      m.code? code = some entry ∧ entry.caches.properties[index.toNat]? = some cache ∧
      (shape, e) ∈ cache.entries := by
  unfold cachedProperty? at h
  split at h
  case isTrue => cases h
  case isFalse hc =>
    refine ⟨by simpa using hc, ?_⟩
    split at h
    case h_1 => cases h
    case h_2 code index =>
      split at h
      case h_1 => cases h
      case h_2 entry hentry =>
        split at h
        case h_1 cache hcache =>
          exact ⟨code, index, entry, cache, rfl, hentry, hcache, InlineCache.mem_of_lookup? h⟩
        case h_2 => cases h

/-- **A cached entry is valid.** -/
theorem Remembers.cached (hr : m.Remembers named) {site : Site} {shape : ShapeId}
    (h : m.cachedProperty? site shape = some e) :
    ∃ code index, site = some (code, index) ∧ shape = e.guardShape ∧
      ∃ name, named code index.toNat name ∧ m.heap.atoms.Knows name ∧ e.Valid m.heap name := by
  obtain ⟨-, code, index, entry, cache, hsite, hentry, hcache, hmem⟩ := mem_of_cachedProperty? h
  exact ⟨code, index, hsite, hr code entry index.toNat cache shape e hentry hcache hmem⟩

theorem heap_cacheProperty (m : Machine) (site : Site) (e : PropertyEntry) :
    (m.cacheProperty site e).heap = m.heap := by
  unfold cacheProperty
  split
  · rfl
  · split <;> rfl

/-- Recording a valid entry. -/
theorem Remembers.cacheProperty (hr : m.Remembers named) {site : Site} (hv : e.Valid m.heap name)
    (hk : m.heap.atoms.Knows name)
    (hn : ∀ code index, site = some (code, index) → named code index.toNat name) :
    (m.cacheProperty site e).Remembers named := by
  intro code entry index cache key e' hcode hcache hmem
  rw [heap_cacheProperty]
  unfold Machine.cacheProperty at hcode
  split at hcode
  case isTrue => exact hr code entry index cache key e' hcode hcache hmem
  case isFalse =>
    split at hcode
    case h_1 => exact hr code entry index cache key e' hcode hcache hmem
    case h_2 site code' index' =>
      simp only [code?, modifyCode, Array.getElem?_modify] at hcode
      split at hcode
      case isFalse => exact hr code entry index cache key e' hcode hcache hmem
      case isTrue hsame =>
        obtain ⟨old, hold, rfl⟩ := Option.map_eq_some_iff.mp hcode
        rw [Array.getElem?_modify] at hcache
        split at hcache
        case isFalse => exact hr code old index cache key e' hold hcache hmem
        case isTrue hindex =>
          obtain ⟨before, hbefore, rfl⟩ := Option.map_eq_some_iff.mp hcache
          rcases InlineCache.mem_update hmem with hmem | ⟨rfl, rfl⟩
          · exact hr code old index before key e' hold hbefore hmem
          · have hcode : code' = code := by
              cases code'
              cases code
              exact congrArg CodeId.mk hsame
            subst hcode hindex
            exact ⟨rfl, name, hn _ _ rfl, hk, hv⟩

/-- **A collection leaves valid entries**: if a shape was given back, the entries that rely on it are
dropped. -/
theorem Remembers.collect (hr : m.Remembers named) (hc : m.heap.Coherent) :
    m.collect.2.Remembers named := by
  have hatoms : (m.heap.collect m.roots m.rootWords).2.atoms = m.heap.atoms := by
    rw [Heap.collect_frame hc.white]
  obtain ⟨inUse, hs, hfreed, -⟩ := Heap.collect_shapes hc.white m.roots m.rootWords
  intro code entry index cache key e hcode hcache hmem
  by_cases hz : (m.heap.collect m.roots m.rootWords).1.freedShapes > 0
  · have heq : m.collect.2 =
        { m with heap := (m.heap.collect m.roots m.rootWords).2 }.forgetReclaimedShapes := by
      simp only [Machine.collect]
      rw [if_pos hz]
    rw [heq] at hcode ⊢
    simp only [code?, forgetReclaimedShapes, Array.getElem?_map] at hcode
    obtain ⟨old, hold, rfl⟩ := Option.map_eq_some_iff.mp hcode
    simp only [Array.getElem?_map] at hcache
    obtain ⟨before, hbefore, rfl⟩ := Option.map_eq_some_iff.mp hcache
    obtain ⟨hmem, hlive⟩ := InlineCache.mem_retain hmem
    obtain ⟨hkey, name, hname, hk, hv⟩ := hr code old index before key e hold hbefore hmem
    have hk' : (m.heap.collect m.roots m.rootWords).2.atoms.Knows name := by rw [hatoms]; exact hk
    exact ⟨hkey, name, hname, hk',
      hv.collect hc _ _ fun s hmem _ => List.all_eq_true.mp hlive s hmem⟩
  · have heq : m.collect.2 = { m with heap := (m.heap.collect m.roots m.rootWords).2 } := by
      simp only [Machine.collect]
      rw [if_neg hz]
    rw [heq] at hcode ⊢
    obtain ⟨hkey, name, hname, hk, hv⟩ := hr code entry index cache key e hcode hcache hmem
    have hk' : (m.heap.collect m.roots m.rootWords).2.atoms.Knows name := by rw [hatoms]; exact hk
    refine ⟨hkey, name, hname, hk', hv.collect hc _ _ fun s hmem hl => ?_⟩
    rw [hfreed] at hz
    rw [hs, ShapeTable.sweep_isLive]
    exact ⟨hl, ShapeTable.sweep_none _ _ _ (by omega) s hl⟩

/-! ### What is recorded -/

theorem not_elementBacked (hcell : m.heap.cell? id = some c)
    (hb : m.isElementBacked id name = false) :
    ¬((m.heap.atoms.arrayIndex? name).isSome ∧ c.kind.hasElements) := by
  intro hboth
  simp [isElementBacked, hcell, hboth] at hb

/-- What a walk along prototypes may find, and how far up. -/
theorem lookupChain_cases {h : Heap} {fuel depth : Nat} {v : Value} {r : PropertyLookup}
    (hl : h.lookupChain name fuel depth v = some r) : r = .missing ∨ (∃ value, r = .synthesized value) ∨
      ∃ holder shape offset found value, depth ≤ found ∧ r = .prototype holder shape offset found value := by
  induction fuel generalizing depth v with
  | zero | succ fuel ih =>
    rw [Heap.lookupChain.eq_def] at hl
    dsimp only at hl
    split at hl
    case h_1 => exact .inl (Option.some.inj hl).symm
    case h_2 =>
      split at hl
      case h_1 => exact .inl (Option.some.inj hl).symm
      case h_2 =>
        split at hl
        case h_1 => exact .inr (.inl ⟨_, (Option.some.inj hl).symm⟩)
        case h_2 =>
          split at hl
          case h_1 => exact .inr (.inr ⟨_, _, _, _, _, Nat.le_refl _, (Option.some.inj hl).symm⟩)
          case h_2 =>
            first
            | cases hl
            | rcases ih hl with hm | hs | ⟨holder, shape, offset, found, value, hd, hp⟩
              · exact .inl hm
              · exact .inr (.inl hs)
              · exact .inr (.inr ⟨_, _, _, _, _, Nat.le_of_succ_le hd, hp⟩)

/-- What is found one link up is found in the first step of the walk. -/
theorem lookupChain_first {h : Heap} {fuel offset : Nat} {v value : Value} {holder : Handle}
    {shape : ShapeId}
    (hl : h.lookupChain name fuel 1 v = some (.prototype holder shape offset 1 value)) :
    ∃ d, v = .cell holder ∧ h.cell? holder = some d ∧ h.synthesized? d name = none ∧
      d.shape = shape ∧ ∃ p, h.shapes.lookup? d.shape name = some p ∧ p.offset = offset := by
  rw [Heap.lookupChain.eq_def] at hl
  dsimp only at hl
  split at hl
  case h_1 => cases hl
  case h_2 link hlink =>
    split at hl
    case h_1 => cases hl
    case h_2 d hd =>
      split at hl
      case h_1 => cases hl
      case h_2 hs =>
        split at hl
        case h_1 p hp =>
          obtain ⟨rfl, rfl, rfl, -, -⟩ := PropertyLookup.prototype.inj (Option.some.inj hl)
          exact ⟨d, Value.cell?_eq_some.mp hlink, hd, hs, rfl, p, hp, rfl⟩
        case h_2 =>
          split at hl
          case h_1 => cases hl
          case h_2 =>
            rcases lookupChain_cases hl with hm | ⟨_, hs⟩ | ⟨_, _, _, found, _, hfound, hp⟩
            · cases hm
            · cases hs
            · obtain ⟨-, -, -, rfl, -⟩ := PropertyLookup.prototype.inj hp
              omega

/-- **What a site may remember of a lookup is valid.** -/
theorem cacheableRead?_valid (hc : m.heap.Coherent) (hb : m.isElementBacked id name = false)
    {r : PropertyLookup} (hr : m.heap.lookupProperty? id name = some r) (he : m.cacheableRead? id r = some e) :
    e.Valid m.heap name := by
  have hshared {id : Handle} {c : Cell} (hcell : m.heap.cell? id = some c)
      (hd : m.isDictionary c.shape = false) : m.heap.shapes.Shared c.shape :=
    ⟨hc.live id c hcell, hd⟩
  unfold Heap.lookupProperty? at hr
  cases hcell : m.heap.cell? id with
  | none =>
    rw [hcell] at hr
    cases hr
    cases he
  | some c =>
    rw [hcell] at hr
    dsimp only at hr
    cases hs : m.heap.synthesized? c name with
    | some v =>
      rw [hs] at hr
      cases hr
      cases he
    | none =>
      rw [hs] at hr
      dsimp only at hr
      have hnamed : m.heap.Named (m.heap.shapes.get c.shape).kind name := by
        rw [hc.kind id c hcell]
        exact Heap.named_of_synthesized? hs (not_elementBacked hcell hb)
      cases hl : m.heap.shapes.lookup? c.shape name with
      | some p =>
        rw [hl] at hr
        cases hr
        simp only [cacheableRead?] at he
        split at he
        case isTrue => cases he
        case isFalse hd =>
          obtain rfl := Option.some.inj he
          exact ⟨⟨hshared hcell (by simpa using hd), hnamed⟩, p, hl, rfl⟩
      | none =>
        rw [hl] at hr
        dsimp only at hr
        rcases lookupChain_cases hr with rfl | ⟨_, rfl⟩ | ⟨holder, holderShape, offset, depth, value, -, rfl⟩
        · cases he
        · cases he
        · unfold cacheableRead? at he
          split at he
          case h_1 heq => cases heq
          case h_3 => cases he
          case h_2 heq =>
            obtain ⟨rfl, rfl, rfl, rfl, rfl⟩ := PropertyLookup.prototype.inj heq
            simp only [Heap.shapeOf?, hcell, Option.map_some] at he
            split at he
            case isTrue => cases he
            case isFalse hd =>
              obtain rfl := Option.some.inj he
              simp only [Bool.or_eq_true, not_or, Bool.not_eq_true] at hd
              obtain ⟨d, hproto, hholder, hsyn, rfl, p, hp, rfl⟩ := lookupChain_first hr
              refine ⟨⟨hshared hcell hd.1, hnamed⟩, hl, hproto, hshared hholder hd.2, ?_, p, hp, rfl⟩
              rw [hc.kind holder d hholder]
              exact Heap.lengthless_of_synthesized? hsyn

theorem dictionary_addProperty {t : ShapeTable} {source : ShapeId}
    (hl : t.isLive source = true) (hd : (t.get source).dictionary = true) (name : Atom)
    (attributes : Attributes) :
    (t.addProperty source name attributes).1 = source ∧
      ((t.addProperty source name attributes).2.2.get source).dictionary = true := by
  simp only [ShapeTable.addProperty, hd, if_true, ShapeTable.insertInPlace, true_and]
  rw [ShapeTable.get_modify_self _ hl, (Shape.insert_frame _ _ _).2.2.1, hd]

/-- **What a site may remember of a write is valid** after it. -/
theorem cacheableWrite?_valid {h : Heap} {value : Value} {outcome : PutOutcome} (hc : h.Coherent)
    (hk : h.atoms.Knows name) (hw : Heap.setProperty id name value h = .ok outcome m.heap)
    (hb : m.isElementBacked id name = false) (he : m.cacheableWrite? outcome = some e) :
    e.Valid m.heap name := by
  have hstorable : Storable fun _ => True := ⟨trivial, trivial⟩
  have hchanges : Heap.Changes (fun _ => True) h (leaves (Heap.setProperty id name value h)) :=
    Heap.setProperty_changes hstorable trivial hc id hk
  rw [hw] at hchanges
  change Heap.Changes _ h m.heap at hchanges
  obtain ⟨hc', hev⟩ := hchanges.coherent hc
  cases hcell : h.cell? id with
  | none =>
    simp only [Heap.setProperty, bind, EStateM.bind, Heap.requireCell_none hcell] at hw
    cases hw
  | some c =>
    rcases Heap.setProperty_cases hcell name value with
      ⟨index, hkind, hi, -⟩ | ⟨-, -, heq⟩ | heq | ⟨hnamed, heq⟩
    · -- the cell still has elements, and the name is one of them
      have hkinds := hchanges.keeps.kinds id
      rw [hcell] at hkinds
      obtain ⟨c', hcell', hkind'⟩ := Option.map_eq_some_iff.mp hkinds
      refine absurd ⟨?_, ?_⟩ (not_elementBacked hcell' hb)
      · rw [hev.atoms.arrayIndex? hk, hi]
        rfl
      · rw [hkind', hkind]
        rfl
    · rw [hw] at heq
      simp only [bind, EStateM.bind] at heq
      cases hlen : Heap.setArrayLength id value h with
      | ok u h' =>
        rw [hlen] at heq
        obtain ⟨rfl, -⟩ := EStateM.Result.ok.inj heq
        cases he
      | error fault h' =>
        rw [hlen] at heq
        cases heq
    · rw [hw] at heq
      obtain ⟨rfl, -⟩ := EStateM.Result.ok.inj heq
      cases he
    · rw [heq] at hw
      have hnamed' : h.Named (h.shapes.get c.shape).kind name := by
        rw [hc.kind id c hcell]
        exact hnamed
      have hlive := hc.live id c hcell
      cases hl : h.shapes.lookup? c.shape name with
      | some p =>
        rw [Heap.putNamed_some hcell hl] at hw
        split at hw
        case isTrue =>
          obtain ⟨rfl, -⟩ := EStateM.Result.ok.inj hw
          cases he
        case isFalse hro =>
          obtain ⟨rfl, hheap⟩ := EStateM.Result.ok.inj hw
          have hshapes : m.heap.shapes = h.shapes := by rw [← hheap]; rfl
          simp only [cacheableWrite?, isDictionary, hshapes] at he
          split at he
          case isTrue => cases he
          case isFalse hd =>
            obtain rfl := Option.some.inj he
            exact PropertyEntry.Valid.evolves (e := .replace c.shape p.offset)
              ⟨⟨⟨hlive, by simpa using hd⟩, hnamed'⟩, p, hl, rfl, by simpa using hro⟩ hev hk
      | none =>
        rw [Heap.putNamed_none hcell hl] at hw
        obtain ⟨rfl, hheap⟩ := EStateM.Result.ok.inj hw
        have hshapes : m.heap.shapes = (h.shapes.addProperty c.shape name .none).2.2 := by
          rw [← hheap, Heap.addNamed, Heap.refreshFootprint_frame]
          rfl
        simp only [cacheableWrite?] at he
        split at he
        case isTrue => cases he
        case isFalse hd =>
          obtain rfl := Option.some.inj he
          simp only [Bool.or_eq_true, not_or, Bool.not_eq_true, isDictionary, hshapes] at hd
          have hsource : (h.shapes.get c.shape).dictionary = false := by
            by_contra hdict
            have := (dictionary_addProperty hlive (by simpa using hdict) name .none).2
            rw [hd.1] at this
            cases this
          have hadds := ShapeTable.addProperty_spec hc.shapes hlive hl .none
          have hsame := (hev.shared c.shape ⟨hlive, hsource⟩).2
          refine ⟨⟨(hev.shared c.shape ⟨hlive, hsource⟩).1, ?_⟩, ⟨?_, ?_⟩, ?_, ?_,
            ⟨name, _, .none⟩, ?_, rfl⟩
          · rw [hsame]
            exact hev.named hk hnamed'
          · rw [hshapes]
            exact hadds.moves.live
          · rw [hshapes]
            exact hd.2
          · rw [ShapeTable.lookup?, hsame]
            exact hl
          · rw [hshapes]
            exact hadds.listed hsource hd.2
          · rw [hshapes, ShapeTable.lookup?,
              (hc.shapes.indexed _).lookup?_push (hadds.moves.grows.ordered.indexed _)
                hadds.properties hl, if_pos rfl]

end Machine

end ScriptMachine
