import ScriptMachine.Proofs.Json.Numerals

/-! # JSON text is read back

The text of a tree whose numerals are well formed and whose strings are all readable
(`Json.Printable`) is read as that tree (`Json.read?_pretty`). The fuel of the reader is measured on the
text: a value never takes more than twice its length. -/

namespace ScriptMachine.Json

/-! ### Strings -/

/-- The piece a written character is read as. -/
def pieceOf (c : Char) : Piece :=
  if c.toNat < 0x20 ∧ c ∉ ['\x08', '\x0c', '\n', '\r', '\t'] then .unit c.toNat else .char c

/-- The four digits of a control character are its number. -/
theorem hexNat?_control : ∀ n < 0x20,
    hexNat? ['0', '0', hexChar (n / 16), hexChar (n % 16)] = some n := by decide

theorem readPieces?_escape (acc : List Piece) (c : Char) (cs : List Char) :
    readPieces? acc (escape c ++ cs) = readPieces? (pieceOf c :: acc) cs := by
  by_cases hshort : c ∈ ['"', '\\', '\x08', '\x0c', '\n', '\r', '\t']
  · simp only [List.mem_cons, List.not_mem_nil, or_false] at hshort
    rcases hshort with rfl | rfl | rfl | rfl | rfl | rfl | rfl <;> rfl
  · simp only [List.mem_cons, List.not_mem_nil, or_false, not_or] at hshort
    obtain ⟨h1, h2, h3, h4, h5, h6, h7⟩ := hshort
    by_cases hlow : c.toNat < 0x20
    · simp [escape, pieceOf, readPieces?, hexNat?_control _ hlow, h1, h2, h3, h4, h5, h6, h7, hlow]
    · simp [escape, pieceOf, readPieces?, h1, h2, h3, h4, h5, h6, h7, hlow]

theorem readPieces?_escaped (cs rest : List Char) (acc : List Piece) :
    readPieces? acc (cs.flatMap escape ++ '"' :: rest) =
      some ((cs.map pieceOf).reverse ++ acc, rest) := by
  induction cs generalizing acc with
  | nil => simp [readPieces?]
  | cons c cs ih =>
    rw [List.flatMap_cons, List.append_assoc, readPieces?_escape, ih]
    simp

theorem joinPieces?_pieceOf (acc : List Char) (c : Char) (pieces : List Piece) :
    joinPieces? acc (pieceOf c :: pieces) = joinPieces? (c :: acc) pieces := by
  by_cases hunit : c.toNat < 0x20 ∧ c ∉ ['\x08', '\x0c', '\n', '\r', '\t']
  · have hlow : ¬(0xDC00 ≤ c.toNat) ∧ ¬(0xD800 ≤ c.toNat) := by omega
    rw [pieceOf, if_pos hunit, joinPieces?.eq_def]
    simp [hlow.1, hlow.2]
  · rw [pieceOf, if_neg hunit, joinPieces?]

theorem joinPieces?_map (cs : List Char) (acc : List Char) :
    joinPieces? acc (cs.map pieceOf) = some (cs.reverse ++ acc) := by
  induction cs generalizing acc with
  | nil => rfl
  | cons c cs ih => rw [List.map_cons, joinPieces?_pieceOf, ih]; simp

/-- **A string is read back**, whatever characters it has. -/
theorem readString?_escaped (s : String) (rest : List Char) :
    readString? (s.toList.flatMap escape ++ '"' :: rest) = some (some s, rest) := by
  have hjoin : joinPieces? [] (s.toList.map pieceOf).reverse = some s.toList := by
    rw [← List.map_reverse, joinPieces?_map]
    simp
  simp [readString?, readPieces?_escaped, hjoin]

/-! ### Trees that have a text -/

/-- **A tree can be printed**: its numerals are well formed, and its strings and names readable. -/
inductive Printable : Json → Prop where
  /-- The null literal. -/
  | null : Printable .null
  /-- A boolean. -/
  | boolean (b : Bool) : Printable (.boolean b)
  /-- A well-formed number. -/
  | number {n : Numeral} (h : n.WellFormed) : Printable (.number n)
  /-- A readable string. -/
  | string (s : String) : Printable (.string (some s))
  /-- An array of such trees. -/
  | array {items : List Json} (h : ∀ item ∈ items, Printable item) : Printable (.array items)
  /-- An object of such trees under readable names. -/
  | object {members : List (Option String × Json)} (names : ∀ m ∈ members, m.1.isSome = true)
      (h : ∀ m ∈ members, Printable m.2) : Printable (.object members)

/-! ### Blanks -/

theorem skipSpaces_newline (level : Nat) (cs : List Char) :
    skipSpaces (newline level ++ cs) = skipSpaces cs := by
  have hblanks : ∀ c ∈ newline level, isSpace c = true := by
    intro c hc
    rcases List.mem_cons.mp hc with rfl | hc
    · rfl
    · rw [List.eq_of_mem_replicate hc]; rfl
  exact List.dropWhile_append_of_pos hblanks

theorem skipSpaces_cons {c : Char} (h : isSpace c = false) (cs : List Char) :
    skipSpaces (c :: cs) = c :: cs := by
  simp [skipSpaces, h]

/-- Blanks before a value are skipped. -/
theorem readValue?_newline (fuel level : Nat) (cs : List Char) :
    readValue? fuel (newline level ++ cs) = readValue? fuel cs := by
  cases fuel with
  | zero => rfl
  | succ fuel => rw [readValue?, readValue?, skipSpaces_newline]

theorem readItems?_newline (fuel level : Nat) (acc : List Json) (cs : List Char) :
    readItems? fuel acc (newline level ++ cs) = readItems? fuel acc cs := by
  cases fuel with
  | zero => rfl
  | succ fuel => rw [readItems?, readItems?, readValue?_newline]

theorem readMembers?_newline (fuel level : Nat) (acc : List (Option String × Json))
    (cs : List Char) : readMembers? fuel acc (newline level ++ cs) = readMembers? fuel acc cs := by
  cases fuel with
  | zero => rfl
  | succ fuel => rw [readMembers?, readMembers?, skipSpaces_newline]

/-! ### The first character of a value -/

/-- A character a value starts with is no blank and closes no container. -/
def Opens (c : Char) : Prop := isSpace c = false ∧ c ≠ ']' ∧ c ≠ '\x7d'

/-- A sign or a digit starts no other kind of value. -/
theorem sign_or_digit_ne {c : Char} (h : c = '-' ∨ isDigit c = true) :
    isSpace c = false ∧ c ∉ ['\x7b', '\x7d', '[', ']', '"', 't', 'f', 'n'] := by
  rcases h with rfl | h
  · decide
  · have hrange : 48 ≤ c.toNat ∧ c.toNat ≤ 57 := by
      simp only [isDigit, Bool.and_eq_true, decide_eq_true_eq] at h
      exact ⟨h.1, h.2⟩
    have hof : Char.ofNat c.toNat = c := Char.ofNat_toNat c
    generalize c.toNat = n at *
    subst hof
    obtain ⟨h1, h2⟩ := hrange
    interval_cases n <;> decide

theorem Printable.prettyAt_cons {j : Json} (h : j.Printable) (level : Nat) :
    ∃ c cs, prettyAt level j = c :: cs ∧ Opens c := by
  cases h with
  | null => exact ⟨'n', _, rfl, by decide, by decide, by decide⟩
  | boolean b => cases b <;> exact ⟨_, _, rfl, by decide, by decide, by decide⟩
  | number hn =>
    obtain ⟨c, cs, hcs, hc⟩ := hn.chars_cons
    obtain ⟨hspace, hother⟩ := sign_or_digit_ne hc
    simp only [List.mem_cons, List.not_mem_nil, or_false, not_or] at hother
    exact ⟨c, cs, hcs, hspace, hother.2.2.2.1, hother.2.1⟩
  | string s => exact ⟨'"', _, rfl, by decide, by decide, by decide⟩
  | @array items => cases items <;> exact ⟨'[', _, rfl, by decide, by decide, by decide⟩
  | @object members => cases members <;> exact ⟨'\x7b', _, rfl, by decide, by decide, by decide⟩

theorem Printable.length_pos {j : Json} (h : j.Printable) (level : Nat) :
    0 < (prettyAt level j).length := by
  obtain ⟨c, cs, hcs, -⟩ := h.prettyAt_cons level
  simp [hcs]

/-! ### Values -/

theorem stops_cons {c : Char} (h : isDigit c = false ∧ c ≠ '.' ∧ c ≠ 'e' ∧ c ≠ 'E')
    (cs : List Char) : Stops (c :: cs) := by
  rintro d hd
  obtain rfl : c = d := by simpa using hd
  exact h

/-- **A value is read back** at any level of indentation, before any text that goes on with no
number, with fuel for twice the length of its text. -/
def ReadBack (j : Json) : Prop :=
  ∀ (level fuel : Nat) (rest : List Char), Stops rest → 2 * (prettyAt level j).length ≤ fuel + 1 →
    readValue? (fuel + 1) (prettyAt level j ++ rest) = some (j, rest)

theorem readBack_number {n : Numeral} (hn : n.WellFormed) : ReadBack (.number n) := by
  intro level fuel rest hrest _
  obtain ⟨c, cs, hcs, hc⟩ := hn.chars_cons
  obtain ⟨hspace, hother⟩ := sign_or_digit_ne hc
  simp only [List.mem_cons, List.not_mem_nil, or_false, not_or] at hother
  have hread := readNumeral?_chars hn hrest
  simp only [prettyAt]
  rw [hcs, List.cons_append] at hread ⊢
  rw [readValue?, skipSpaces_cons hspace]
  split <;> simp_all

theorem readBack_string (s : String) : ReadBack (.string (some s)) := by
  intro level fuel rest _ _
  simp only [prettyAt, Option.getD_some, quoted, List.cons_append, List.append_assoc,
    List.nil_append]
  rw [readValue?, skipSpaces_cons (by decide)]
  simp only [readString?_escaped, Option.map_some]

/-- What follows an item goes on with no number. -/
theorem stops_prettyItems (level outer : Nat) (items : List Json) (rest : List Char) :
    Stops (prettyItems level items ++ (newline outer ++ ']' :: rest)) := by
  cases items <;> exact stops_cons (by decide) _

theorem stops_prettyMembers (level outer : Nat) (members : List (Option String × Json))
    (rest : List Char) :
    Stops (prettyMembers level members ++ (newline outer ++ '\x7d' :: rest)) := by
  cases members <;> exact stops_cons (by decide) _

/-- The items of an array are read up to its closing bracket. -/
theorem readItems?_pretty (level outer : Nat) (rest : List Char) (items : List Json) :
    ∀ (item : Json) (fuel : Nat) (acc : List Json),
      (∀ j ∈ item :: items, j.Printable ∧ ReadBack j) →
      2 * ((prettyAt level item).length + (prettyItems level items).length) ≤ fuel + 1 →
      readItems? (fuel + 2) acc
          (prettyAt level item ++ (prettyItems level items ++ (newline outer ++ ']' :: rest))) =
        some (.array (acc.reverse ++ item :: items), rest) := by
  induction items with
  | nil =>
    intro item fuel acc hall hfuel
    have hitem := (hall item (by simp)).2 level fuel _
      (stops_prettyItems level outer [] rest) (by omega)
    have hclose : skipSpaces (']' :: rest) = ']' :: rest := skipSpaces_cons rfl rest
    rw [readItems?, hitem]
    simp [prettyItems, skipSpaces_newline, hclose]
  | cons next items ih =>
    intro item fuel acc hall hfuel
    have hitem := (hall item (by simp)).2 level fuel _
      (stops_prettyItems level outer (next :: items) rest) (by omega)
    have hpos := (hall item (by simp)).1.length_pos level
    have hlength : (prettyItems level (next :: items)).length =
        1 + (newline level).length +
          ((prettyAt level next).length + (prettyItems level items).length) := by
      simp [prettyItems]; omega
    obtain ⟨fuel, rfl⟩ : ∃ f, fuel = f + 1 := ⟨fuel - 1, by omega⟩
    have htail := ih next fuel (item :: acc)
      (fun j hj => hall j (List.mem_cons_of_mem _ hj)) (by omega)
    rw [readItems?, hitem]
    simp only [prettyItems, List.cons_append, List.append_assoc]
    rw [skipSpaces_cons rfl]
    simp only [readItems?_newline, htail]
    simp

/-- A member is read, and what comes after it decides whether there are more. -/
theorem readMembers?_member (level : Nat) (name : String) (value : Json) (fuel : Nat)
    (acc : List (Option String × Json)) {tail : List Char} (hvalue : ReadBack value) (htail : Stops tail)
    (hfuel : 2 * (prettyMember level (some name, value)).length ≤ fuel + 1) :
    (∀ rest, skipSpaces tail = ',' :: rest →
      readMembers? (fuel + 2) acc (prettyMember level (some name, value) ++ tail) =
        readMembers? (fuel + 1) ((some name, value) :: acc) rest) ∧
    ∀ rest, skipSpaces tail = '\x7d' :: rest →
      readMembers? (fuel + 2) acc (prettyMember level (some name, value) ++ tail) =
        some (.object ((some name, value) :: acc).reverse, rest) := by
  have hlength : (prettyAt level value).length ≤
      (prettyMember level (some name, value)).length := by
    simp [prettyMember]; omega
  have hcolon : ∀ cs, skipSpaces (':' :: cs) = ':' :: cs := skipSpaces_cons rfl
  have hblank : readValue? (fuel + 1) (' ' :: (prettyAt level value ++ tail)) =
      some (value, tail) := by
    rw [← hvalue level fuel tail htail (by omega), readValue?, readValue?]
    rfl
  simp only [prettyMember, Option.getD_some, quoted, List.cons_append, List.append_assoc,
    List.nil_append]
  rw [readMembers?, skipSpaces_cons rfl]
  refine ⟨fun rest hnext => ?_, fun rest hnext => ?_⟩
  · simp only [readString?_escaped, hcolon, hblank, hnext]
  · simp only [readString?_escaped, hcolon, hblank, hnext]

/-- The members of an object are read up to its closing brace. -/
theorem readMembers?_pretty (level outer : Nat) (rest : List Char)
    (members : List (Option String × Json)) :
    ∀ (member : Option String × Json) (fuel : Nat) (acc : List (Option String × Json)),
      (∀ m ∈ member :: members, m.1.isSome = true ∧ ReadBack m.2) →
      2 * ((prettyMember level member).length + (prettyMembers level members).length) ≤ fuel + 1 →
      readMembers? (fuel + 2) acc (prettyMember level member ++
          (prettyMembers level members ++ (newline outer ++ '\x7d' :: rest))) =
        some (.object (acc.reverse ++ member :: members), rest) := by
  induction members with
  | nil =>
    rintro ⟨name, value⟩ fuel acc hall hfuel
    obtain ⟨hname, hvalue⟩ := hall _ (List.mem_cons_self ..)
    obtain ⟨name, rfl⟩ := Option.isSome_iff_exists.mp hname
    have hclose : skipSpaces ('\x7d' :: rest) = '\x7d' :: rest := skipSpaces_cons rfl rest
    obtain ⟨-, hlast⟩ := readMembers?_member level name value fuel acc hvalue
      (stops_prettyMembers level outer [] rest) (by omega)
    rw [hlast rest (by simp [prettyMembers, skipSpaces_newline, hclose])]
    simp
  | cons next members ih =>
    rintro ⟨name, value⟩ fuel acc hall hfuel
    obtain ⟨hname, hvalue⟩ := hall _ (List.mem_cons_self ..)
    obtain ⟨name, rfl⟩ := Option.isSome_iff_exists.mp hname
    have hlength : (prettyMembers level (next :: members)).length =
        1 + (newline level).length +
          ((prettyMember level next).length + (prettyMembers level members).length) := by
      simp [prettyMembers]; omega
    have hpos : 0 < (prettyMember level (some name, value)).length := by
      simp [prettyMember, quoted]
    obtain ⟨hmore, -⟩ := readMembers?_member level name value fuel acc hvalue
      (stops_prettyMembers level outer (next :: members) rest) (by omega)
    obtain ⟨fuel, rfl⟩ : ∃ f, fuel = f + 1 := ⟨fuel - 1, by omega⟩
    have htail := ih next fuel ((some name, value) :: acc)
      (fun m hm => hall m (List.mem_cons_of_mem _ hm)) (by omega)
    simp only [prettyMembers, List.cons_append, List.append_assoc] at hmore ⊢
    rw [hmore _ (skipSpaces_cons rfl _)]
    simp only [readMembers?_newline, htail]
    simp

theorem readBack_array {items : List Json} (h : ∀ j ∈ items, j.Printable ∧ ReadBack j) :
    ReadBack (.array items) := by
  intro level fuel rest _ hfuel
  cases items with
  | nil => simp only [prettyAt, List.cons_append, List.nil_append]; rfl
  | cons item items =>
    simp only [prettyAt, List.cons_append, List.length_cons, List.length_append, List.append_assoc,
      List.length_nil, List.nil_append] at hfuel ⊢
    obtain ⟨fuel, rfl⟩ : ∃ f, fuel = f + 2 := ⟨fuel - 2, by omega⟩
    obtain ⟨c, cs, hcs, hspace, hclose, -⟩ :=
      (h item (List.mem_cons_self ..)).1.prettyAt_cons (level + 1)
    have hitems := readItems?_pretty (level + 1) level rest items item fuel [] h (by omega)
    rw [readValue?, skipSpaces_cons rfl]
    simp only [skipSpaces_newline]
    rw [hcs, List.cons_append] at hitems ⊢
    rw [skipSpaces_cons hspace]
    split
    case h_1 heq => exact absurd (List.cons.inj heq).1 hclose
    case h_2 => exact hitems

theorem readBack_object {members : List (Option String × Json)}
    (names : ∀ m ∈ members, m.1.isSome = true) (h : ∀ m ∈ members, ReadBack m.2) :
    ReadBack (.object members) := by
  intro level fuel rest _ hfuel
  cases members with
  | nil => simp only [prettyAt, List.cons_append, List.nil_append]; rfl
  | cons member members =>
    simp only [prettyAt, List.cons_append, List.length_cons, List.length_append, List.append_assoc,
      List.length_nil, List.nil_append] at hfuel ⊢
    obtain ⟨fuel, rfl⟩ : ∃ f, fuel = f + 2 := ⟨fuel - 2, by omega⟩
    have hmembers := readMembers?_pretty (level + 1) level rest members member fuel []
      (fun m hm => ⟨names m hm, h m hm⟩) (by omega)
    rw [readValue?, skipSpaces_cons rfl]
    simp only [skipSpaces_newline]
    obtain ⟨name, value⟩ := member
    simp only [prettyMember, quoted, List.cons_append] at hmembers ⊢
    rw [skipSpaces_cons rfl]
    exact hmembers

/-- Every tree that can be printed is read back. -/
theorem Printable.readBack {j : Json} (h : j.Printable) : ReadBack j := by
  induction h with
  | null => exact fun _ _ _ _ _ => rfl
  | boolean b => cases b <;> exact fun _ _ _ _ _ => rfl
  | number hn => exact readBack_number hn
  | string s => exact readBack_string s
  | array h ih => exact readBack_array fun j hj => ⟨h j hj, ih j hj⟩
  | object names _ ih => exact readBack_object names ih

/-- **The reader inverts the printer.** -/
theorem read?_pretty {j : Json} (h : j.Printable) : read? j.pretty = some j := by
  have hread := h.readBack 0 (2 * (prettyAt 0 j).length + 1) [] (by simp [Stops]) (by omega)
  rw [List.append_nil] at hread
  simp only [read?, pretty, String.toList_ofList]
  rw [hread]
  rfl

end ScriptMachine.Json
