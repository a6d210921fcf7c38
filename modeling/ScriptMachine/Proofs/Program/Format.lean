import ScriptMachine.Program.Format
import ScriptMachine.Proofs.Json.RoundTrip

/-! # Stored programs are read back

A block is stored as a record of all its members and read through `Block.ofJson?`. Every reader below
inverts its writer on what nests no deeper than the levels it may enter, so the text of a block is
read as that block (`Block.text_roundtrip`) when its record nests within the limit of the reader and
its number constants are read back from their literals. -/

namespace ScriptMachine

/-! ### Depth -/

mutual

/-- How deep the containers of a tree nest. -/
def Json.depth : Json → Nat
  | .array items => Json.itemsDepth items + 1
  | .object members => Json.membersDepth members + 1
  | _ => 0

/-- How deep the containers of a list of trees nest. -/
def Json.itemsDepth : List Json → Nat
  | [] => 0
  | item :: items => max item.depth (Json.itemsDepth items)

/-- How deep the containers below the members of an object nest. -/
def Json.membersDepth : List (Option String × Json) → Nat
  | [] => 0
  | (_, value) :: members => max value.depth (Json.membersDepth members)

end

namespace Json

/-- A record nests one level deeper than its members. -/
theorem depth_record_le {members : List (String × Json)} {levels : Nat} :
    (record members).depth ≤ levels + 1 ↔ ∀ m ∈ members, m.2.depth ≤ levels := by
  rw [record, depth, Nat.add_le_add_iff_right]
  induction members with
  | nil => simp [membersDepth]
  | cons first members ih => simp [membersDepth, ih]

theorem depth_array_le {items : List Json} {levels : Nat} :
    (array items).depth ≤ levels + 1 ↔ ∀ item ∈ items, item.depth ≤ levels := by
  have hitems : itemsDepth items ≤ levels ↔ ∀ item ∈ items, item.depth ≤ levels := by
    induction items with
    | nil => simp [itemsDepth]
    | cons first items ih => simp [itemsDepth, ih]
  rw [depth, ← hitems, Nat.add_le_add_iff_right]

/-- A container is entered only when a level is left. -/
theorem levels_of_record {members : List (String × Json)} {levels : Nat}
    (h : (record members).depth ≤ levels) : ∃ l, levels = l + 1 := by
  rw [record, depth] at h
  exact ⟨levels - 1, by omega⟩

/-! ### Words and lists -/

theorem word?_ofWord (w : UInt32) : (ofWord w).word? = some w := by
  have hlt : w.toNat < UInt32.size := w.toNat_lt
  have hvalue : (Numeral.ofNat w.toNat).natural? = some w.toNat := by
    have hsize : w.toNat < UInt64.size := hlt.trans (by decide)
    simp [Numeral.natural?, Numeral.ofNat, (toDigits_spec _).2.1, hsize]
  simp [word?, natural?, ofWord, hvalue, hlt]

theorem mapM_map_read {α β : Type} {write : α → β} {read : β → Option α} {xs : List α}
    (h : ∀ x ∈ xs, read (write x) = some x) : (xs.map write).mapM read = some xs := by
  induction xs with
  | nil => rfl
  | cons x xs ih =>
    have htail := ih fun y hy => h y (List.mem_cons_of_mem _ hy)
    simp [h x (List.mem_cons_self ..), htail]

/-- A list is read back when its items are, one level further in. -/
theorem list?_array {α : Type} {write : α → Json} {read : Nat → Json → Option α} {xs : List α}
    {levels : Nat} (hdepth : (array (xs.map write)).depth ≤ levels)
    (h : ∀ x ∈ xs, ∀ levels, (write x).depth ≤ levels → read levels (write x) = some x) :
    list? levels read (.array (xs.map write)) = some xs := by
  obtain ⟨levels, rfl⟩ : ∃ l, levels = l + 1 := by
    rw [depth] at hdepth
    exact ⟨levels - 1, by omega⟩
  simp only [list?, enter?, items?, Option.bind_eq_bind, Option.bind_some]
  refine mapM_map_read fun x hx => h x hx levels ?_
  exact depth_array_le.mp hdepth _ (List.mem_map_of_mem hx)

/-! ### Records -/

/-- Under distinct names the member of a name is the one written. -/
theorem member?_record {name : String} {value : Json} {members : List (String × Json)}
    (hnodup : (members.map Prod.fst).Nodup) (h : (name, value) ∈ members) :
    member? name (members.map fun (name, value) => (some name, value)) = some (some value) := by
  have hfilter : (members.map fun (name, value) => (some name, value)).filter
      (fun m => m.1 == some name) = [(some name, value)] := by
    induction members with
    | nil => cases h
    | cons first members ih =>
      rw [List.map_cons, List.nodup_cons] at hnodup
      rcases List.mem_cons.mp h with rfl | h
      · have hrest : ∀ m ∈ members, m.1 ≠ name := by
          rintro m hm rfl
          exact hnodup.1 (List.mem_map.mpr ⟨m, hm, rfl⟩)
        have hnil : (members.map fun (name, value) => (some name, value)).filter
            (fun m : Option String × Json => m.1 == some name) = [] := by
          rw [List.filter_eq_nil_iff]
          intro written hwritten
          obtain ⟨m, hm, rfl⟩ := List.mem_map.mp hwritten
          simpa using hrest m hm
        rw [List.map_cons, List.filter_cons_of_pos (by simp), hnil]
      · have hne : first.1 ≠ name := by
          intro heq
          exact hnodup.1 (heq ▸ List.mem_map_of_mem h)
        simpa [hne] using ih hnodup.2 h
  unfold member?
  rw [hfilter]

/-- The members of a record under its own names, when these are distinct. -/
theorem members?_record (members : List (String × Json)) (hnodup : (members.map Prod.fst).Nodup) :
    (record members).members? (members.map Prod.fst) =
      some (members.map fun m => some m.2) := by
  have hnames : (members.map fun (name, value) => ((some name, value) : Option String × Json)).all
      (fun m => m.1.isSome) = true := by simp
  simp only [record, members?, hnames, if_true]
  have hread : ∀ rest ⊆ members,
      (rest.map Prod.fst).mapM (fun name => member? name
        (members.map fun (name, value) => (some name, value))) =
        some (rest.map fun m => some m.2) := by
    intro rest hsub
    induction rest with
    | nil => rfl
    | cons first rest ih =>
      have hfirst := member?_record hnodup (hsub (List.mem_cons_self ..))
      simp [hfirst, ih fun m hm => hsub (List.mem_cons_of_mem _ hm)]
  exact hread members (List.Subset.refl _)

/-- A record is read under its own names, one level further in. -/
theorem record?_record (members : List (String × Json)) (levels : Nat)
    (hnodup : (members.map Prod.fst).Nodup) :
    record? (levels + 1) (members.map Prod.fst) (record members) =
      some (members.map fun m => some m.2, levels) := by
  simp [record?, enter?, members?_record members hnodup]

end Json

/-! ### Instructions -/

theorem BinaryOp.ofName?_name (op : BinaryOp) : BinaryOp.ofName? op.name = some op := by
  cases op <;> rfl

theorem UnaryOp.ofName?_name (op : UnaryOp) :
    BinaryOp.ofName? op.name = none ∧ UnaryOp.ofName? op.name = some op := by
  cases op <;> exact ⟨rfl, rfl⟩

/-- An instruction is read back from its name and the values of its operands. -/
theorem Opcode.ofName?_name {op : Opcode} {content : List String → Option (List Json)}
    (hop : op ≠ .popScope)
    (h : content (op.fields.map Prod.fst) = some (op.fields.map fun f => f.2.toJson)) :
    Opcode.ofName? op.name content = some op := by
  cases op with
  | popScope => exact absurd rfl hop
  | binary op dst lhs rhs =>
    rw [show Opcode.ofName? (Opcode.binary op dst lhs rhs).name content =
      Opcode.ofOperator? op.name content by cases op <;> rfl]
    simp only [fields, List.map_cons, List.map_nil, Field.toJson] at h
    simp only [ofOperator?, BinaryOp.ofName?_name, h, Option.bind_eq_bind, Option.bind_some,
      Json.word?_ofWord, Option.pure_def]
  | unary op dst src =>
    rw [show Opcode.ofName? (Opcode.unary op dst src).name content =
      Opcode.ofOperator? op.name content by cases op <;> rfl]
    simp only [fields, List.map_cons, List.map_nil, Field.toJson] at h
    simp only [ofOperator?, UnaryOp.ofName?_name, h, Option.bind_eq_bind, Option.bind_some,
      Json.word?_ofWord, Option.pure_def]
  | jumpIf sense cond target =>
    simp only [fields, List.map_cons, List.map_nil, Field.toJson] at h
    cases sense <;>
      simp only [name, ofName?, h, List.mapM_cons, List.mapM_nil, Option.bind_eq_bind,
        Option.bind_some, Json.word?_ofWord, Option.pure_def]
  | _ =>
    simp only [fields, List.map_cons, List.map_nil, Field.toJson] at h
    simp only [name, ofName?, h, List.mapM_cons, List.mapM_nil, Option.bind_eq_bind,
      Option.bind_some, Json.word?_ofWord, Option.pure_def, Json.boolean?]

/-- Only the instruction without operands is written as a bare name. -/
theorem Opcode.record_form {op : Opcode} (hop : op ≠ .popScope) :
    op.fields.isEmpty = false ∧ (op.name == "PopScope") = false ∧
      (op.fields.map Prod.fst).Nodup := by
  cases op with
  | popScope => exact absurd rfl hop
  | binary op => cases op <;> simp [fields, name, BinaryOp.name]
  | unary op => cases op <;> simp [fields, name, UnaryOp.name]
  | jumpIf sense => cases sense <;> simp [fields, name]
  | _ => simp [fields, name]

theorem Opcode.ofJson?_toJson {op : Opcode} {levels : Nat} (h : op.toJson.depth ≤ levels) :
    Opcode.ofJson? levels op.toJson = some op := by
  by_cases hop : op = .popScope
  · subst hop; rfl
  · obtain ⟨hfields, hname, hnodup⟩ := Opcode.record_form hop
    have hwritten : op.toJson =
        .object [(some op.name, .record (op.fields.map fun f => (f.1, f.2.toJson)))] := by
      simp [toJson, hfields, Json.record]
    have hnames : (op.fields.map fun f => (f.1, f.2.toJson)).map Prod.fst =
        op.fields.map Prod.fst := by simp
    rw [hwritten] at h ⊢
    obtain ⟨levels, rfl⟩ : ∃ l, levels = l + 2 := by
      simp only [Json.depth, Json.membersDepth, Json.record] at h
      exact ⟨levels - 2, by omega⟩
    simp only [ofJson?, Json.alternative?, insideAlternative?, enter?, Option.bind_eq_bind,
      Option.bind_some, hname, Bool.false_eq_true, if_false]
    refine Opcode.ofName?_name hop ?_
    rw [← hnames, Json.record?_record _ levels (hnames ▸ hnodup)]
    have hcontent : (op.fields.map fun f => (f.1, f.2.toJson)).map (fun m => some m.2) =
        (op.fields.map fun f => f.2.toJson).map some := by simp
    simp only [Option.bind_some, hcontent]
    exact Json.mapM_map_read fun _ _ => rfl

/-! ### The parts of a block -/

theorem SourcePosition.ofJson?_toJson {p : SourcePosition} {levels : Nat}
    (h : p.toJson.depth ≤ levels) : SourcePosition.ofJson? levels p.toJson = some p := by
  obtain ⟨levels, rfl⟩ := Json.levels_of_record h
  have hrecord := Json.record?_record [("line", .ofWord p.line),
    ("column", .ofWord p.column)] levels (by simp)
  simp only [List.map_cons, List.map_nil] at hrecord
  simp only [ofJson?, toJson, hrecord, Option.bind_eq_bind, Option.bind_some, Json.word?_ofWord,
    Option.pure_def]

theorem Instruction.ofJson?_toJson {i : Instruction} {levels : Nat}
    (h : i.toJson.depth ≤ levels) : Instruction.ofJson? levels i.toJson = some i := by
  obtain ⟨opcode, position⟩ := i
  obtain ⟨levels, rfl⟩ := Json.levels_of_record h
  cases position with
  | none =>
    have hrecord : Json.record? (levels + 1) ["opcode", "source_position"]
        (toJson ⟨opcode, none⟩) = some ([some opcode.toJson, none], levels) := by
      simp [Json.record?, enter?, Json.members?, Json.member?, toJson, Json.record]
    have hopcode : opcode.toJson.depth ≤ levels :=
      Json.depth_record_le.mp h ("opcode", opcode.toJson) (by simp)
    simp only [ofJson?, hrecord, Option.bind_eq_bind, Option.bind_some,
      Opcode.ofJson?_toJson hopcode, Option.getD_none, Json.optional?, Option.pure_def]
  | some position =>
    have hrecord := Json.record?_record [("opcode", opcode.toJson),
      ("source_position", position.toJson)] levels (by simp)
    have hopcode : opcode.toJson.depth ≤ levels :=
      Json.depth_record_le.mp h ("opcode", opcode.toJson) (by simp)
    have hposition : position.toJson.depth ≤ levels :=
      Json.depth_record_le.mp h ("source_position", position.toJson) (by simp)
    have hread := SourcePosition.ofJson?_toJson hposition
    simp only [List.map_cons, List.map_nil] at hrecord
    simp only [ofJson?, toJson, hrecord, Option.bind_eq_bind, Option.bind_some,
      Opcode.ofJson?_toJson hopcode, Option.getD_some, Option.pure_def]
    rw [Json.optional?]
    · simp [hread]
    · simp [SourcePosition.toJson, Json.record]

theorem Handler.ofJson?_toJson {h : Handler} {levels : Nat} (hdepth : h.toJson.depth ≤ levels) :
    Handler.ofJson? levels h.toJson = some h := by
  obtain ⟨levels, rfl⟩ := Json.levels_of_record hdepth
  have hrecord := Json.record?_record [("start", .ofWord h.start),
    ("end", .ofWord h.stop), ("target", .ofWord h.target), ("scope_depth", .ofWord h.scopeDepth)]
    levels (by simp)
  simp only [List.map_cons, List.map_nil] at hrecord
  simp only [ofJson?, toJson, hrecord, Option.bind_eq_bind, Option.bind_some, Json.word?_ofWord,
    Option.pure_def]

/-- The number of a constant, if it is one. -/
def Constant.number? : Constant → Option Binary64
  | .number x => some x
  | _ => none

/-- A constant is read back when a number among them is. -/
theorem Constant.ofJson?_toJson {c : Constant} {levels : Nat} (h : c.toJson.depth ≤ levels)
    (hnumber : ∀ x, c.number? = some x → (Json.ofBinary64 x).binary64? = some x) :
    Constant.ofJson? levels c.toJson = some c := by
  cases c with
  | null => rfl
  | undefined => rfl
  | _ =>
    obtain ⟨levels, rfl⟩ := Json.levels_of_record h
    simp_all [ofJson?, toJson, Json.record, Json.alternative?, insideAlternative?, enter?,
      number?, Json.ofString, Json.string?, Json.boolean?]

/-! ### Blocks -/

mutual

/-- The number constants of a block and of the functions nested in it. -/
def Block.numbers : Block → List Binary64
  | ⟨_, _, constants, _, functions, _, _, _, _, _, _, _, _, _⟩ =>
    constants.toList.filterMap Constant.number? ++ Block.allNumbers functions

/-- The number constants of a list of blocks. -/
def Block.allNumbers : List Block → List Binary64
  | [] => []
  | b :: bs => b.numbers ++ Block.allNumbers bs

end

namespace Block

theorem numbers_subset_allNumbers {b : Block} {bs : List Block} (h : b ∈ bs) :
    b.numbers ⊆ allNumbers bs := by
  induction bs with
  | nil => cases h
  | cons first bs ih =>
    rw [allNumbers]
    rcases List.mem_cons.mp h with rfl | h
    · exact List.subset_append_left ..
    · exact List.Subset.trans (ih h) (List.subset_append_right ..)

theorem allToJson_eq (bs : List Block) : allToJson bs = bs.map toJson := by
  induction bs with
  | nil => rfl
  | cons b bs ih => rw [allToJson, ih, List.map_cons]

theorem numbers_eq (b : Block) :
    b.numbers = b.constants.toList.filterMap Constant.number? ++ allNumbers b.functions := by
  cases b
  rw [numbers]

/-- The members of the record of a block. -/
def members (b : Block) : List (String × Json) :=
  [("name", .ofOption .ofString b.name),
   ("instructions", .array (b.instructions.toList.map Instruction.toJson)),
   ("constants", .array (b.constants.toList.map Constant.toJson)),
   ("identifiers", .array (b.identifiers.toList.map .ofString)),
   ("functions", .array (b.functions.map toJson)),
   ("scope_layouts", .array (b.scopeLayouts.toList.map fun l => .array (l.map .ofWord))),
   ("handlers", .array (b.handlers.map Handler.toJson)),
   ("variables", .array (b.variableIds.toList.map .ofWord)),
   ("num_params", .ofWord b.paramCount),
   ("num_vars", .ofWord b.varCount),
   ("num_registers", .ofWord b.registerCount),
   ("needs_activation", .boolean b.needsActivation),
   ("property_cache_count", .ofWord b.propertyCacheCount),
   ("call_cache_count", .ofWord b.callCacheCount)]

theorem toJson_eq (b : Block) : b.toJson = .record b.members := by
  cases b
  rw [toJson, allToJson_eq]
  rfl

theorem members?_toJson (b : Block) :
    b.toJson.members? memberNames = some (b.members.map fun m => some m.2) := by
  rw [toJson_eq]
  exact Json.members?_record b.members (show memberNames.Nodup by decide)

/-- **The reader of blocks inverts their writer** on blocks that nest no deeper than the levels left
and whose numbers read back. -/
theorem ofJson?_toJson : ∀ (levels : Nat) (b : Block), b.toJson.depth ≤ levels →
    (∀ x ∈ b.numbers, (Json.ofBinary64 x).binary64? = some x) →
    ofJson? levels b.toJson = some b
  | 0, b, h, _ => by
    rw [toJson_eq] at h
    obtain ⟨_, hlevels⟩ := Json.levels_of_record h
    omega
  | 1, b, h, _ => by
    -- the list of instructions takes a second level
    rw [toJson_eq] at h
    have := Json.depth_record_le.mp h
      ("instructions", .array (b.instructions.toList.map Instruction.toJson)) (by simp [members])
    rw [Json.depth] at this
    omega
  | levels + 2, b, h, hnumbers => by
    have hmembers := members?_toJson b
    rw [toJson_eq] at h
    have hdepth : ∀ m ∈ b.members, m.2.depth ≤ levels + 1 := Json.depth_record_le.mp h
    simp only [members, List.forall_mem_cons, List.map_cons, List.map_nil] at hdepth hmembers
    obtain ⟨-, hinstructions, hconstants, hidentifiers, hfunctions, hlayouts, hhandlers, hvariables,
      -⟩ := hdepth
    have hname : (Json.ofOption .ofString b.name).optional? Json.string? = some b.name := by
      cases b.name <;> rfl
    have hinstructions : (b.instructions.toList.map Instruction.toJson).mapM
        (Instruction.ofJson? levels) = some b.instructions.toList :=
      Json.mapM_map_read fun i hi => Instruction.ofJson?_toJson
        (Json.depth_array_le.mp hinstructions _ (List.mem_map_of_mem hi))
    have hconstants : Json.list? (levels + 1) Constant.ofJson?
        (.array (b.constants.toList.map Constant.toJson)) = some b.constants.toList := by
      refine Json.list?_array hconstants fun c hc _ hlevels => ?_
      refine Constant.ofJson?_toJson hlevels fun x hx => hnumbers x ?_
      rw [numbers_eq]
      exact List.mem_append_left _ (List.mem_filterMap.mpr ⟨c, hc, hx⟩)
    have hidentifiers : Json.list? (levels + 1) (fun _ => Json.string?)
        (.array (b.identifiers.toList.map .ofString)) = some b.identifiers.toList :=
      Json.list?_array hidentifiers fun _ _ _ _ => rfl
    have hfunctions : (b.functions.map toJson).mapM (ofJson? levels) = some b.functions := by
      refine Json.mapM_map_read fun f hf => ofJson?_toJson levels f
        (Json.depth_array_le.mp hfunctions _ (List.mem_map_of_mem hf)) fun x hx => hnumbers x ?_
      rw [numbers_eq]
      exact List.mem_append_right _ (numbers_subset_allNumbers hf hx)
    have hlayouts : Json.list? (levels + 1)
        (fun levels => Json.list? levels fun _ => Json.word?)
        (.array (b.scopeLayouts.toList.map fun l => .array (l.map .ofWord))) =
          some b.scopeLayouts.toList :=
      Json.list?_array hlayouts fun l _ _ hlevels =>
        Json.list?_array hlevels fun w _ _ _ => Json.word?_ofWord w
    have hhandlers : Json.list? (levels + 1) Handler.ofJson?
        (.array (b.handlers.map Handler.toJson)) = some b.handlers :=
      Json.list?_array hhandlers fun _ _ _ hlevels => Handler.ofJson?_toJson hlevels
    have hvariables : Json.list? (levels + 1) (fun _ => Json.word?)
        (.array (b.variableIds.toList.map .ofWord)) = some b.variableIds.toList :=
      Json.list?_array hvariables fun w _ _ _ => Json.word?_ofWord w
    rw [ofJson?]
    refine Option.bind_eq_some_iff.mpr ⟨_, hmembers, ?_⟩
    refine Option.bind_eq_some_iff.mpr ⟨_, hname, ?_⟩
    refine Option.bind_eq_some_iff.mpr ⟨_, rfl, ?_⟩
    refine Option.bind_eq_some_iff.mpr ⟨_, rfl, ?_⟩
    refine Option.bind_eq_some_iff.mpr ⟨_, hinstructions, ?_⟩
    refine Option.bind_eq_some_iff.mpr ⟨_, hconstants, ?_⟩
    refine Option.bind_eq_some_iff.mpr ⟨_, hidentifiers, ?_⟩
    refine Option.bind_eq_some_iff.mpr ⟨_, hfunctions, ?_⟩
    refine Option.bind_eq_some_iff.mpr ⟨_, hlayouts, ?_⟩
    refine Option.bind_eq_some_iff.mpr ⟨_, hhandlers, ?_⟩
    refine Option.bind_eq_some_iff.mpr ⟨_, hvariables, ?_⟩
    simp only [memberOr, Json.word?_ofWord, Json.boolean?, Option.bind_eq_bind, Option.bind_some,
      Option.pure_def, Array.toArray_toList]
    cases b
    rfl

end Block

/-! ### The text of a block -/

theorem Json.printable_ofWord (w : UInt32) : (Json.ofWord w).Printable :=
  .number (Numeral.wellFormed_ofNat _)

theorem Json.printable_ofBinary64 (x : Binary64) : (Json.ofBinary64 x).Printable := by
  unfold ofBinary64
  split
  · split
    case h_1 n _ hread => exact .number (readNumeral?_wellFormed hread)
    case h_2 => exact .null
  · exact .null

theorem Json.printable_record {members : List (String × Json)}
    (h : ∀ m ∈ members, m.2.Printable) : (Json.record members).Printable := by
  refine .object (fun m hm => ?_) fun m hm => ?_
  · obtain ⟨_, _, rfl⟩ := List.mem_map.mp hm
    rfl
  · obtain ⟨written, hwritten, rfl⟩ := List.mem_map.mp hm
    exact h written hwritten

theorem Json.printable_list {α : Type} {write : α → Json} {xs : List α}
    (h : ∀ x, (write x).Printable) : (Json.array (xs.map write)).Printable := by
  refine .array fun j hj => ?_
  obtain ⟨x, -, rfl⟩ := List.mem_map.mp hj
  exact h x

theorem Opcode.printable (op : Opcode) : op.toJson.Printable := by
  unfold toJson
  split
  · exact .string _
  · refine Json.printable_record fun m hm => ?_
    obtain rfl := List.mem_singleton.mp hm
    refine Json.printable_record fun m hm => ?_
    obtain ⟨⟨_, field⟩, -, rfl⟩ := List.mem_map.mp hm
    cases field with
    | word w => exact Json.printable_ofWord w
    | flag b => exact .boolean b

theorem Constant.printable (c : Constant) : c.toJson.Printable := by
  cases c with
  | number x => exact Json.printable_record (by simpa using Json.printable_ofBinary64 x)
  | string s => exact Json.printable_record (by simpa [Json.ofString] using Json.Printable.string s)
  | boolean b => exact Json.printable_record (by simpa using Json.Printable.boolean b)
  | null => exact .string _
  | undefined => exact .string _

theorem SourcePosition.printable (p : SourcePosition) : p.toJson.Printable :=
  Json.printable_record (by simp [Json.printable_ofWord])

theorem Instruction.printable (i : Instruction) : i.toJson.Printable := by
  obtain ⟨opcode, position⟩ := i
  cases position with
  | none => exact Json.printable_record (by simp [opcode.printable])
  | some position =>
    exact Json.printable_record (by simp [opcode.printable, position.printable])

theorem Handler.printable (h : Handler) : h.toJson.Printable :=
  Json.printable_record (by simp [Json.printable_ofWord])

mutual

theorem Block.printable : ∀ b : Block, b.toJson.Printable
  | ⟨name, instructions, constants, identifiers, functions, scopeLayouts, handlers, variableIds,
      paramCount, varCount, registerCount, needsActivation, propertyCacheCount,
      callCacheCount⟩ => by
    have hname : (Json.ofOption .ofString name).Printable := by
      cases name with
      | none => exact .null
      | some name => exact .string name
    rw [toJson]
    refine Json.printable_record ?_
    simp only [List.forall_mem_cons, List.not_mem_nil, false_implies, implies_true, and_true]
    exact ⟨hname, Json.printable_list Instruction.printable, Json.printable_list Constant.printable,
      Json.printable_list Json.Printable.string, .array (Block.allPrintable functions),
      Json.printable_list fun _ => Json.printable_list Json.printable_ofWord,
      Json.printable_list Handler.printable, Json.printable_list Json.printable_ofWord,
      Json.printable_ofWord _, Json.printable_ofWord _, Json.printable_ofWord _, .boolean _,
      Json.printable_ofWord _, Json.printable_ofWord _⟩

theorem Block.allPrintable : ∀ bs : List Block, ∀ j ∈ Block.allToJson bs, j.Printable
  | [], _, h => by cases h
  | b :: bs, j, h => by
    rcases List.mem_cons.mp h with rfl | h
    · exact b.printable
    · exact Block.allPrintable bs j h

end

/-- **Stored programs are read back**: the text of a block whose numbers are finite and whose record
nests within the limit of the reader is read as that block, provided the literal of each of its numbers
is read as that number. -/
theorem Block.text_roundtrip (b : Block) (hdepth : b.toJson.depth ≤ nestingLimit)
    (hfinite : ∀ x ∈ b.numbers, x.isFinite = true)
    (hliteral : ∀ x ∈ b.numbers, x.isFinite = true → (Json.ofBinary64 x).binary64? = some x) :
    Block.ofText? b.toText = some b := by
  have hread : Json.read? b.toText = some b.toJson := Json.read?_pretty b.printable
  rw [Block.ofText?, hread]
  exact Block.ofJson?_toJson nestingLimit b hdepth fun x hx => hliteral x hx (hfinite x hx)

/-- A program with fractions in two blocks, a handler, a layout, and names that need escapes. -/
def Block.closureProgram : Block where
  name := some "outer \"\n\x01λ"
  instructions := #[⟨.loadConst 0 0, some ⟨1, 4⟩⟩, ⟨.newFunction 1 0, none⟩, ⟨.pushScope 0, none⟩,
    ⟨.popScope, some ⟨2, 1⟩⟩, ⟨.ret 1, none⟩]
  constants := #[.number ⟨0x3ff8000000000000⟩, .string "a\\b", .null]
  identifiers := #["x\t"]
  functions := [{ constants := #[.number ⟨0xbfb999999999999a⟩], registerCount := 1
                  instructions := #[⟨.loadConst 0 0, none⟩, ⟨.ret 0, none⟩] }]
  scopeLayouts := #[[0]]
  handlers := [⟨0, 1, 3, 0⟩]
  registerCount := 2
  needsActivation := true

theorem Block.text_roundtrip_closure :
    closureProgram.toJson.depth ≤ nestingLimit ∧ closureProgram.numbers ≠ [] ∧
      Block.ofText? closureProgram.toText = some closureProgram :=
  ⟨by decide +kernel, by decide +kernel,
    Block.text_roundtrip closureProgram (by decide +kernel) (by decide +kernel)
      (by decide +kernel)⟩

end ScriptMachine
