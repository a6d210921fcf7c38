import Mathlib.Data.Finite.Prod
import Mathlib.Data.Fintype.Sum
import ScriptMachine.Proofs.Tandem.Start

/-! # What collections and caches leave to see

What a program computes does not depend on when collections take place. Two fresh machines that differ
in the byte count at which collections start run a program alike (`collection_timing_is_unobservable`):
out of fuel together, or with the same kind of result, the same text of it, and the same objects
reachable from it and from the global object, one injective renaming of handles apart. Of the objects,
everything is compared that `Portrait` holds: prototypes, properties in their order with attributes and
values, elements, texts, functions and variables.

Nor does it depend on inline caching (`inline_caching_is_unobservable`), of properties as of calls, in
interpreted code as in tier code. All this is about programs whose instructions name one property at each
site (`Block.SitesAgree`): a property cache remembers shapes and slots, and not the name.

Nothing is said of runs that use up the heap, the 32-bit indices of handles or those of names
(`RunsOut`). For the proof the runs are stopped as soon as nothing is to spare (`Machine.spent`); a run
that ends with something to spare was never stopped. -/

namespace ScriptMachine

open Machine

/-! ### Renamed handles -/

/-- The value under another handle, if it is one. -/
def Value.rename (f : Handle → Handle) (v : Value) : Value :=
  match v.cell? with
  | some id => .cell (f id)
  | none => v

/-- The payload under other handles; the spare room of elements and of scope records is left out. -/
def Payload.rename (f : Handle → Handle) : Payload → Payload
  | .plain => .plain
  | .array e => .array (.ofArray (e.items.map (Value.rename f)))
  | .string data => .string data
  | .function d => .function { d with scope := d.scope.map f }
  | .activation s _ =>
    .activation { s with slots := s.slots.map (Value.rename f), parent := s.parent.map f }

/-- **What there is to see of a cell.** -/
structure Portrait where
  /-- Its prototype. -/
  prototype : Value
  /-- Its properties in their order. -/
  properties : List (Atom × Attributes × Value)
  /-- The rest. -/
  payload : Payload
deriving DecidableEq, Repr

/-- What there is to see of a live cell, under other handles. -/
def Heap.portrait? (h : Heap) (f : Handle → Handle) (id : Handle) : Option Portrait :=
  (h.cell? id).map fun c =>
    { prototype := (h.shapes.get c.shape).prototype.rename f
      properties := (h.shapes.get c.shape).properties.toList.map fun p =>
        (p.name, p.attributes, (c.slot p.offset).rename f)
      payload := c.payload.rename f }

/-! ### Outcomes -/

/-- **The same is to be seen from the values**, up to the renaming. -/
structure Machine.Mirrors (f : Handle → Handle) (values : List Value) (m m' : Machine) : Prop where
  /-- The values do not dangle. -/
  live : ∀ v ∈ values, v.Live m.heap ∧ (v.rename f).Live m'.heap
  /-- Their texts. -/
  texts : ∀ v ∈ values, m'.display (v.rename f) = m.display v
  /-- The global object. -/
  global : m'.globalObject = m.globalObject.rename f
  /-- The names of properties and variables. -/
  names : m'.heap.atoms = m.heap.atoms
  /-- The cells that are reached. -/
  reached : ∀ id', m'.heap.Reachable (values.map (Value.rename f)) id' ↔
    ∃ id, m.heap.Reachable values id ∧ f id = id'
  /-- What there is to see of them. -/
  portraits : ∀ id, m.heap.Reachable values id →
    m'.heap.portrait? (fun id => id) (f id) = m.heap.portrait? f id

/-- **Runs with the same outcome**, up to the renaming. -/
inductive Alike (f : Handle → Handle) :
    EStateM.Result Stop Machine Value → EStateM.Result Stop Machine Value → Prop
  /-- Both return. -/
  | returned {v : Value} {m m' : Machine} : m.Mirrors f [v, m.globalObject] m' →
      Alike f (.ok v m) (.ok (v.rename f) m')
  /-- Both throw. -/
  | threw {v : Value} {m m' : Machine} : m.Mirrors f [v, m.globalObject] m' →
      Alike f (.error (.unwound (.throw v)) m) (.error (.unwound (.throw (v.rename f))) m')
  /-- Both fail. -/
  | failed (failure : Failure) {m m' : Machine} : m.Mirrors f [m.globalObject] m' →
      Alike f (.error (.unwound (.fatal failure)) m) (.error (.unwound (.fatal failure)) m')
  /-- Both are out of fuel. -/
  | exhausted {m m' : Machine} : Alike f (.error .exhausted m) (.error .exhausted m')

/-- **A run that runs out** of memory, of handles or of names. -/
def RunsOut (r : EStateM.Result Stop Machine Value) : Prop :=
  (∃ bytes m, r = .error (.unwound (.fatal (.outOfMemory bytes))) m) ∨ ¬(leaves r).Spare

variable {ρ : Pairing} {f : Handle → Handle} {m m' : Machine} {h h' : Heap} {v w : Value}
  {values values' : List Value} {a b : Handle} {c c' : Cell}

/-! ### The renaming of a pairing -/

theorem List.partner {α β : Type} {r : α → β → Prop} {l : List α} {l' : List β}
    (h : List.Forall₂ r l l') {x : α} (hx : x ∈ l) : ∃ y ∈ l', r x y := by
  induction h with
  | nil => cases hx
  | @cons _ y _ _ hr _ ih =>
    rcases List.mem_cons.mp hx with rfl | hx
    · exact ⟨y, List.mem_cons_self, hr⟩
    · obtain ⟨y, hy, hr⟩ := ih hx
      exact ⟨y, List.mem_cons_of_mem _ hy, hr⟩

theorem Value.rename_id (v : Value) : v.rename (fun id => id) = v := by
  unfold Value.rename
  cases hv : v.cell? with
  | none => rfl
  | some id => exact (Value.cell?_eq_some.mp hv).symm

instance : Finite Handle :=
  Finite.of_injective (β := Fin (2 ^ 32) × Fin (2 ^ 16))
    (fun id : Handle => (id.index.toFin, id.generation.toFin)) fun x y hxy => by
    obtain ⟨hindex, hgeneration⟩ := Prod.mk.inj hxy
    cases x
    cases y
    exact congrArg₂ Handle.mk (UInt32.toFin_inj.mp hindex) (UInt16.toFin_inj.mp hgeneration)

namespace Pairing

/-- The renaming takes each handle to its partner. -/
def Follows (ρ : Pairing) (f : Handle → Handle) : Prop := ∀ a b, ρ.Pairs a b → f a = b

/-- **Pairs extend to an injective renaming** of all handles. -/
theorem exists_renaming (ht : h.Twins ρ h') : ∃ f : Handle → Handle, f.Injective ∧ ρ.Follows f := by
  classical
  have := Fintype.ofFinite Handle
  let partner (a : Handle) : Handle := if hp : ∃ b, ρ.Pairs a b then hp.choose else a
  have hpartner (a b : Handle) (hp : ρ.Pairs a b) : partner a = b := by
    have hex : ∃ b, ρ.Pairs a b := ⟨b, hp⟩
    simp only [partner, dif_pos hex]
    exact ht.right_unique hex.choose_spec hp
  have hinj : Set.InjOn partner { a | ∃ b, ρ.Pairs a b } := by
    rintro x ⟨b, hx⟩ y ⟨d, hy⟩ hxy
    rw [hpartner x b hx, hpartner y d hy] at hxy
    rw [hxy] at hx
    exact ht.left_unique hx hy
  obtain ⟨e, he⟩ := Set.MapsTo.exists_equiv_extend_of_card_eq (t := Finset.univ) rfl
    (fun _ _ => Finset.mem_coe.mpr (Finset.mem_univ _)) hinj
  exact ⟨fun a => e a, fun x y hxy => e.injective (Subtype.ext hxy),
    fun a b hp => (he a ⟨b, hp⟩).trans (hpartner a b hp)⟩

theorem Matches.rename (hm : ρ.Matches v w) (hf : ρ.Follows f) : v.rename f = w := by
  cases hm with
  | word hv => simp only [Value.rename, hv]
  | cell hp => simp only [Value.rename, Value.cell?_cell, hf _ _ hp]

theorem Matches.left (hm : ρ.Matches (.cell a) w) : ∃ b, w = .cell b ∧ ρ.Pairs a b := by
  have hrel := hm.cell?
  rw [Value.cell?_cell] at hrel
  rcases Option.rel_iff.mp hrel with ⟨hx, -⟩ | ⟨x, b, hx, hw, hp⟩
  · cases hx
  · obtain rfl := Option.some.inj hx
    exact ⟨b, Value.cell?_eq_some.mp hw, hp⟩

theorem Matches.right (hm : ρ.Matches v (.cell b)) : ∃ a, v = .cell a ∧ ρ.Pairs a b := by
  have hrel := hm.cell?
  rw [Value.cell?_cell] at hrel
  rcases Option.rel_iff.mp hrel with ⟨-, hx⟩ | ⟨a, y, hv, hy, hp⟩
  · cases hx
  · obtain rfl := Option.some.inj hy
    exact ⟨a, Value.cell?_eq_some.mp hv, hp⟩

/-- The handles among matching values. -/
theorem cells_left (hl : List.Forall₂ ρ.Matches values values') (ha : Value.cell a ∈ values) :
    ∃ b, ρ.Pairs a b ∧ Value.cell b ∈ values' := by
  obtain ⟨w, hw, hm⟩ := List.partner hl ha
  obtain ⟨b, rfl, hp⟩ := hm.left
  exact ⟨b, hp, hw⟩

theorem cells_right (hl : List.Forall₂ ρ.Matches values values') (hb : Value.cell b ∈ values') :
    ∃ a, ρ.Pairs a b ∧ Value.cell a ∈ values := by
  obtain ⟨v, hv, hm⟩ := List.partner (List.Forall₂.flip (R := flip ρ.Matches) hl) hb
  obtain ⟨a, rfl, hp⟩ := Matches.right hm
  exact ⟨a, hp, hv⟩

end Pairing

/-! ### What twins show -/

theorem Payload.Twins.rename {p p' : Payload} (h : p.Twins ρ ρ p') (hf : ρ.Follows f) :
    p'.rename (fun id => id) = p.rename f := by
  have hvalues {xs ys : Array Value} (ha : Aligned ρ.Matches xs ys) :
      ys.map (Value.rename fun id => id) = xs.map (Value.rename f) :=
    (ha.map (s := fun x y => x = y) fun v w hm => by rw [hm.rename hf, Value.rename_id]).eq.symm
  have hhandle {x y : Option Handle} (ho : Option.Rel ρ.Pairs x y) :
      y.map (fun id => id) = x.map f := by
    cases ho with
    | some hp => exact congrArg some (hf _ _ hp).symm
    | none => rfl
  cases h with
  | plain => rfl
  | string => rfl
  | array he => simp only [Payload.rename, hvalues he]
  | function hs => simp only [Payload.rename, hhandle hs]
  | activation hs hp => rw [Payload.rename, Payload.rename, hvalues hs, hhandle hp]

namespace Heap.Twins

/-- **The cells of a pair show the same.** -/
theorem portrait (ht : h.Twins ρ h') (hf : ρ.Follows f) (hp : ρ.Pairs a b) (hc : h.cell? a = some c)
    (hc' : h'.cell? b = some c') : h'.portrait? (fun id => id) b = h.portrait? f a := by
  have hcell := ht.twin hp hc hc'
  simp only [Heap.portrait?, hc, hc', Option.map_some, hcell.prototype.rename hf, Value.rename_id,
    hcell.layout.properties, hcell.payload.rename hf, (hcell.slot _).rename hf]

end Heap.Twins

/-- What twin cells refer to. -/
theorem Cell.Twins.references (hcell : c.Twins ρ ρ h.shapes h'.shapes c') :
    List.Forall₂ ρ.Matches (h.references c) (h'.references c') := by
  have hscope {x y : Option Handle} (ho : Option.Rel ρ.Pairs x y) :
      List.Forall₂ ρ.Matches (x.map Value.cell).toList (y.map Value.cell).toList := by
    cases ho with
    | some hp => exact .cons (.cell hp) .nil
    | none => exact .nil
  have hpayload : List.Forall₂ ρ.Matches c.payload.references c'.payload.references := by
    cases hp : c.payload <;> cases hp' : c'.payload <;> have hpay := hcell.payload <;>
      rw [hp, hp'] at hpay <;> cases hpay
    case plain.plain | string.string => exact .nil
    case array.array e e' he => exact he.toList
    case function.function hs => exact hscope hs
    case activation.activation hs hparent => exact List.rel_append hs.toList (hscope hparent)
  exact List.rel_append (.cons hcell.prototype hcell.slots.toList) hpayload

/-- **Reached cells are followed** in another heap, if what they refer to is and nothing dangles. -/
theorem Heap.Reachable.follow {R : Handle → Handle → Prop}
    (hroots : ∀ x, Value.cell x ∈ values → ∃ y, R x y ∧ Value.cell y ∈ values')
    (hrefs : ∀ x y c c' z, R x y → h.cell? x = some c → h'.cell? y = some c' →
      Value.cell z ∈ h.references c → ∃ t, R z t ∧ Value.cell t ∈ h'.references c')
    (hlive : ∀ w ∈ values', w.Live h')
    (hheld : ∀ y c' w, h'.cell? y = some c' → w ∈ h'.references c' → w.Live h')
    (hr : h.Reachable values a) : ∃ b, R a b ∧ h'.Reachable values' b := by
  induction hr with
  | root ha _ =>
    obtain ⟨b, hab, hb⟩ := hroots _ ha
    exact ⟨b, hab, .root hb (live_cell.mp (hlive _ hb))⟩
  | step _ hc href _ ih =>
    obtain ⟨b, hab, hb⟩ := ih
    obtain ⟨c', hc'⟩ := isLive_iff.mp hb.isLive
    obtain ⟨d, hd, hmem⟩ := hrefs _ _ _ _ _ hab hc hc' (mem_references.mpr href)
    exact ⟨d, hd, .step hb hc' (mem_references.mp hmem) (live_cell.mp (hheld _ _ _ hc' hmem))⟩

namespace Machine.Twins

/-- The global object is paired with itself. -/
theorem global (ht : m.Twins ρ m') : Heap.Both ρ m.heap m'.heap m.globalObject m'.globalObject := by
  unfold globalObject
  rw [ht.intrinsics]
  exact (ht.intrinsic (by simp [Intrinsics.objects])).both ht

/-- **The same is to be seen of twins.** -/
theorem mirrors (ht : m.Twins ρ m') (hf : ρ.Follows f)
    (hv : ∀ v ∈ values, Heap.Both ρ m.heap m'.heap v (v.rename f)) : m.Mirrors f values m' := by
  have hmatch : List.Forall₂ ρ.Matches values (values.map (Value.rename f)) := by
    rw [List.forall₂_map_right_iff, List.forall₂_same]
    exact fun v hmem => (hv v hmem).same
  have hlive' : ∀ w ∈ values.map (Value.rename f), w.Live m'.heap := by
    intro w hw
    obtain ⟨v, hmem, rfl⟩ := List.mem_map.mp hw
    exact (hv v hmem).right
  have hleft {id : Handle} (hr : m.heap.Reachable values id) :
      ∃ b, ρ.Pairs id b ∧ m'.heap.Reachable (values.map (Value.rename f)) b :=
    hr.follow (fun _ => Pairing.cells_left hmatch)
      (fun _ _ _ _ _ hp hc hc' => Pairing.cells_left (ht.heap.twin hp hc hc').references) hlive'
      fun _ _ _ hc' hw => ht.safe'.holds_reference hc' hw ht.heap.addressable'
  have hright {id' : Handle} (hr : m'.heap.Reachable (values.map (Value.rename f)) id') :
      ∃ a, ρ.Pairs a id' ∧ m.heap.Reachable values a :=
    hr.follow (R := fun b a => ρ.Pairs a b) (fun _ => Pairing.cells_right hmatch)
      (fun _ _ _ _ _ hp hc' hc => Pairing.cells_right (ht.heap.twin hp hc hc').references)
      (fun v hmem => (hv v hmem).left)
      fun _ _ _ hc hw => ht.safe.holds_reference hc hw ht.heap.addressable
  refine ⟨fun v hmem => ⟨(hv v hmem).left, (hv v hmem).right⟩, fun v hmem => ht.display (hv v hmem),
    (ht.global.same.rename hf).symm, ht.heap.atoms, fun id' => ⟨fun hr => ?_, ?_⟩, fun id hr => ?_⟩
  · obtain ⟨id, hp, hid⟩ := hright hr
    exact ⟨id, hid, hf id id' hp⟩
  · rintro ⟨id, hr, rfl⟩
    obtain ⟨b, hp, hb⟩ := hleft hr
    rwa [hf id b hp]
  · obtain ⟨b, hp, hb⟩ := hleft hr
    obtain ⟨c, hc⟩ := Heap.isLive_iff.mp hr.isLive
    obtain ⟨c', hc'⟩ := Heap.isLive_iff.mp hb.isLive
    rw [hf id b hp]
    exact ht.heap.portrait hf hp hc hc'

end Machine.Twins

/-- **Runs that meet have the same outcome**, unless one of them escapes. -/
theorem Meets.alike {r r' : EStateM.Result Stop Machine Value} (hr : Meets ρ Vals r r') :
    (∃ f : Handle → Handle, f.Injective ∧ Alike f r r') ∨ Escapes r ∨ Escapes r' := by
  have hshown {σ : Pairing} {n n' : Machine} (hn : n.Twins σ n') {f : Handle → Handle}
      (hf : σ.Follows f) {x y : Value} (hb : Heap.Both σ n.heap n'.heap x y) :
      y = x.rename f ∧ n.Mirrors f [x, n.globalObject] n' := by
    obtain rfl := hb.same.rename hf
    refine ⟨rfl, hn.mirrors hf fun v hv => ?_⟩
    simp only [List.mem_cons, List.not_mem_nil, or_false] at hv
    rcases hv with rfl | rfl
    · exact hb
    · rw [hn.global.same.rename hf]
      exact hn.global
  cases hr with
  | ok _ ht hv =>
    obtain ⟨f, hinj, hf⟩ := Pairing.exists_renaming ht.heap
    obtain ⟨rfl, hm⟩ := hshown ht hf hv
    exact .inl ⟨f, hinj, .returned hm⟩
  | unwound _ ht hu =>
    obtain ⟨f, hinj, hf⟩ := Pairing.exists_renaming ht.heap
    cases hu with
    | throw hv =>
      obtain ⟨rfl, hm⟩ := hshown ht hf hv
      exact .inl ⟨f, hinj, .threw hm⟩
    | fatal failure =>
      refine .inl ⟨f, hinj, .failed failure (ht.mirrors hf fun v hv => ?_)⟩
      obtain rfl := List.mem_singleton.mp hv
      rw [ht.global.same.rename hf]
      exact ht.global
  | exhausted => exact .inl ⟨fun id => id, fun _ _ h => h, .exhausted⟩
  | left he => exact .inr (.inl he)
  | right he => exact .inr (.inr he)

/-! ### Runs that are not stopped -/

instance (m : Machine) : Decidable m.Spare :=
  decidable_of_iff (m.heap.slots.size < 2 ^ 32 ∧ m.heap.atoms.entries.size ≤ UInt32.size)
    ⟨fun h => ⟨h.1, h.2⟩, fun h => ⟨h.slots, h.names⟩⟩

/-- The machine has nothing to spare. -/
def Machine.spent (m : Machine) (_ : List Value) : Bool := !decide m.Spare

theorem Machine.spent_iff (m : Machine) (held : List Value) : m.spent held = false ↔ m.Spare := by
  simp [spent]

theorem Machine.Grows.spare (hg : m.Grows m') (hs : m'.Spare) : m.Spare :=
  ⟨Nat.lt_of_le_of_lt hg.slots hs.slots, hg.atoms.fits hs.names⟩

/-- **A run that ends with something to spare** is not stopped for having nothing to spare. -/
theorem Machine.Safe.eval_eq (hs : m.Safe) {block : Block} {fuel : Nat}
    (hr : (leaves (m.eval fuel (runProgram block))).Spare) :
    m.evalPausing Machine.spent fuel (runProgram block) = m.eval fuel (runProgram block) := by
  obtain ⟨-, hresumes⟩ := (Runs.runProgram (sound_perform Machine.spent fuel) hs block).resumes
    (unpaused_perform Machine.spent fuel)
  rcases hresumes with heq | ⟨held, k, -, hpause, hgrows⟩
  · exact heq.symm
  · change k.spent held = true at hpause
    rw [(k.spent_iff held).mpr (hgrows.spare hr)] at hpause
    cases hpause

/-- **Twins run programs alike**, unless one of the runs runs out. -/
theorem Machine.Twins.outcome (ht : m.Twins ρ m') (ho : m.Orderly) (ho' : m'.Orderly)
    (hd : m'.reentryDepth = m.reentryDepth) {block : Block} (hb : block.SitesAgree) (fuel : Nat) :
    (∃ f : Handle → Handle, f.Injective ∧
        Alike f (m.eval fuel (runProgram block)) (m'.eval fuel (runProgram block))) ∨
      RunsOut (m.eval fuel (runProgram block)) ∨ RunsOut (m'.eval fuel (runProgram block)) := by
  have hescape {r : EStateM.Result Stop Machine Value} (he : Escapes r) : RunsOut r := by
    cases he with
    | paused hspent => exact .inr hspent
    | memory _ => exact .inl ⟨_, _, rfl⟩
  by_cases hs : (leaves (m.eval fuel (runProgram block))).Spare
  case neg => exact .inr (.inl (.inr hs))
  by_cases hs' : (leaves (m'.eval fuel (runProgram block))).Spare
  case neg => exact .inr (.inr (.inr hs'))
  have hmeets : Meets ρ Vals (m.evalPausing Machine.spent fuel (runProgram block))
      (m'.evalPausing Machine.spent fuel (runProgram block)) := by
    unfold evalPausing
    exact .runProgram (tandem_perform Machine.spent_iff fuel) ht ho ho' hd hb
  rw [ht.safe.eval_eq hs, ht.safe'.eval_eq hs'] at hmeets
  exact hmeets.alike.imp_right (Or.imp hescape hescape)

/-! ### Programs -/

/-- **Machines that start alike**: both start, and are so related, or neither does. -/
inductive StartAlike (P : Machine → Machine → Prop) : Except Failure Machine → Except Failure Machine → Prop
  /-- Both start. -/
  | started {m m' : Machine} : P m m' → StartAlike P (.ok m) (.ok m')
  /-- Both fail, for the same reason. -/
  | refused (failure : Failure) : StartAlike P (.error failure) (.error failure)

theorem StartAlike.of_map {P : Machine → Machine → Prop} {start : Except Failure Machine} {g : Machine → Machine}
    (h : ∀ m, start = .ok m → P m (g m)) : StartAlike P start (start.map g) := by
  cases start with
  | error failure => exact .refused failure
  | ok m => exact .started (h m rfl)

/-- The run of a program on a machine, with or without a compiler. -/
def Machine.runs (m : Machine) (tier : Bool) (block : Block) (fuel : Nat) : EStateM.Result Stop Machine Value :=
  (if tier then m.installTier else m).eval fuel (runProgram block)

/-- **Collection timing is unobservable.** Two fresh machines, with or without a compiler, that differ
only in the byte count at which collections start run a program alike, whatever the fuel: both are out of
fuel, or both end with the same kind of result, and with the same result and the same objects to be
reached up to one injective renaming of handles. Instructions that share a property site must name
the same identifier, no time limit may be set, and neither run may run out. -/
theorem collection_timing_is_unobservable (config : Config) (threshold : Nat) (tier : Bool)
    (block : Block) (fuel : Nat) (hlimit : config.timeLimitMs = none) (hsites : block.SitesAgree) :
    StartAlike (fun m m' =>
      (∃ rename : Handle → Handle, rename.Injective ∧
        Alike rename (m.runs tier block fuel) (m'.runs tier block fuel)) ∨
      RunsOut (m.runs tier block fuel) ∨ RunsOut (m'.runs tier block fuel))
    (Machine.new config) (Machine.new { config with gcThresholdBytes := threshold }) := by
  rw [new_paced config threshold]
  refine .of_map fun m hm => ?_
  have hm' : Machine.new { config with gcThresholdBytes := threshold } = .ok (m.paced threshold) := by
    rw [new_paced config threshold, hm]
    rfl
  obtain ⟨ρ, ht⟩ := twins_new hm hlimit threshold
  have ho := orderly_new hm
  have ho' := orderly_new hm'
  cases tier with
  | false => exact ht.outcome ho ho' rfl hsites fuel
  | true => exact ht.installTier.outcome ho.installTier ho'.installTier rfl hsites fuel

/-- A program that leaves garbage behind before it makes an object, gives it a property and reads that
through the same site. -/
def sharing : Block :=
  { instructions := #[⟨.newObject 0, none⟩, ⟨.newObject 0, none⟩, ⟨.putById 0 0 0 0, none⟩,
      ⟨.getById 1 0 0 0, none⟩, ⟨.ret 1, none⟩]
    identifiers := #["self"], registerCount := 2, propertyCacheCount := 1 }

theorem sitesAgree_sharing : sharing.SitesAgree := by
  have hname : ∀ i ∈ sharing.instructions, ∀ p ∈ i.opcode.propertySite?, p.2 = 0 := by
    simp [sharing, Opcode.propertySite?]
  refine .block (fun i hi j hj site x y hx hy => ?_) (by simp [sharing])
  obtain rfl : x = 0 := hname i hi _ hx
  obtain rfl : y = 0 := hname j hj _ hy
  rfl

/-- The second machine collects before every allocation. -/
theorem collection_timing_is_unobservable_sharing :
    ({} : Config).timeLimitMs = none ∧ sharing.SitesAgree ∧ StartAlike (fun m m' =>
      (∃ rename : Handle → Handle, rename.Injective ∧
        Alike rename (m.runs false sharing 100) (m'.runs false sharing 100)) ∨
      RunsOut (m.runs false sharing 100) ∨ RunsOut (m'.runs false sharing 100))
    (Machine.new {}) (Machine.new { gcThresholdBytes := 1 }) :=
  ⟨rfl, sitesAgree_sharing, collection_timing_is_unobservable {} 1 false sharing 100 rfl sitesAgree_sharing⟩

/-- **Inline caching is unobservable.** Two fresh machines, with or without a compiler, one of which has
caches of properties and calls and the other none, run a program alike, whatever the fuel and whenever
their collections start: both are out of fuel, or both end with the same kind of result, and with the same
result and the same objects to be reached up to one injective renaming of handles. Instructions that share
a property site must name the same identifier, no time limit may be set, and neither run may run out. -/
theorem inline_caching_is_unobservable (config : Config) (threshold : Nat) (tier : Bool) (block : Block)
    (fuel : Nat) (hlimit : config.timeLimitMs = none) (hsites : block.SitesAgree) :
    StartAlike (fun m m' =>
      (∃ rename : Handle → Handle, rename.Injective ∧
        Alike rename (m.runs tier block fuel) (m'.runs tier block fuel)) ∨
      RunsOut (m.runs tier block fuel) ∨ RunsOut (m'.runs tier block fuel))
    (Machine.new { config with inlineCaching := true })
    (Machine.new { config with inlineCaching := false, gcThresholdBytes := threshold }) := by
  rw [new_caching { config with gcThresholdBytes := threshold }, new_caching config true,
    new_paced config threshold]
  generalize hstart : Machine.new config = start
  cases start with
  | error failure => exact .refused failure
  | ok m =>
    have hon : Machine.new { config with inlineCaching := true } = .ok (m.caching true) := by
      rw [new_caching config, hstart]
      rfl
    have hoff : Machine.new { config with inlineCaching := false, gcThresholdBytes := threshold } =
        .ok (((m.caching true).paced threshold).caching false) := by
      rw [new_caching { config with gcThresholdBytes := threshold }, new_paced config, hstart]
      rfl
    obtain ⟨ρ, ht⟩ := twins_start hon hlimit threshold false
    have ho := orderly_new hon
    have ho' := orderly_new hoff
    refine .started ?_
    cases tier with
    | false => exact ht.outcome ho ho' rfl hsites fuel
    | true => exact ht.installTier.outcome ho.installTier ho'.installTier rfl hsites fuel

/-- The site of the program is shared by a write that adds the property and a read. -/
theorem inline_caching_is_unobservable_sharing :
    ({} : Config).timeLimitMs = none ∧ sharing.SitesAgree ∧ StartAlike (fun m m' =>
      (∃ rename : Handle → Handle, rename.Injective ∧
        Alike rename (m.runs true sharing 100) (m'.runs true sharing 100)) ∨
      RunsOut (m.runs true sharing 100) ∨ RunsOut (m'.runs true sharing 100))
    (Machine.new { inlineCaching := true }) (Machine.new { inlineCaching := false, gcThresholdBytes := 1 }) :=
  ⟨rfl, sitesAgree_sharing, inline_caching_is_unobservable {} 1 true sharing 100 rfl sitesAgree_sharing⟩

end ScriptMachine
