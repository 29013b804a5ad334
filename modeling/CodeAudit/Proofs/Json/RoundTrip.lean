import CodeAudit.Proofs.Json.Tokens

/-!
# What is written is read again

A value is written in some layout, and the text is read as the value again, with its texts mended to
UTF-8. The layout may be any white space. What it takes is that the numbers of the value are
literals and that it is not nested too deep (`Fits`).

**Results.**
* `readValue_writeAt`, `readItems_write`, `readMembers_write`: a written value, some items or some
  members are read back whatever follows them. The three go along with the writer, and the fuel is
  twice the length.
* `parse?_compact`, `parse?_indented`: the two layouts that are used.
-/
namespace CodeAudit.Json

/-! ## Values as they are read -/

mutual

/-- The value with all its texts mended to UTF-8. -/
def sanitized : Json → Json
  | .null => .null
  | .bool b => .bool b
  | .number t => .number t
  | .string t => .string t.sanitize
  | .array items => .array (sanitizedItems items)
  | .object members => .object (sanitizedMembers members)

def sanitizedItems : List Json → List Json
  | [] => []
  | j :: rest => j.sanitized :: sanitizedItems rest

def sanitizedMembers : List (Text × Json) → List (Text × Json)
  | [] => []
  | (name, j) :: rest => (name.sanitize, j.sanitized) :: sanitizedMembers rest

end

mutual

/-- The numbers of a value are literals, and no more than `d` compound values are nested in each
other. -/
def Fits : Nat → Json → Prop
  | _, .number t => IsLiteral t
  | d, .array items => 0 < d ∧ FitsItems (d - 1) items
  | d, .object members => 0 < d ∧ FitsMembers (d - 1) members
  | _, _ => True

def FitsItems : Nat → List Json → Prop
  | _, [] => True
  | d, j :: rest => j.Fits d ∧ FitsItems d rest

def FitsMembers : Nat → List (Text × Json) → Prop
  | _, [] => True
  | d, (_, j) :: rest => j.Fits d ∧ FitsMembers d rest

end

/-! ## White space -/

/-- A layout that puts only white space between tokens. -/
structure Layout.Blank (y : Layout) : Prop where
  line : ∀ level, ∀ b ∈ y.line level, isSpace b = true
  gap : ∀ b ∈ y.gap, isSpace b = true

theorem skipSpace_append_cons {ws : Text} (hws : ∀ b ∈ ws, isSpace b = true) {b : UInt8}
    (hb : isSpace b = false) (t : Text) : skipSpace (ws ++ b :: t) = b :: t := by
  rw [skipSpace, List.dropWhile_append_of_pos hws, List.dropWhile_cons_of_neg (by simp [hb])]

theorem endsNumber_of_space {ws : Text} (hws : ∀ b ∈ ws, isSpace b = true) {t : Text}
    (ht : EndsNumber t) :
    EndsNumber (ws ++ t) := by
  cases ws with
  | nil => exact ht
  | cons c ws =>
    intro b hb
    obtain rfl : c = b := by simpa using hb
    have hc := hws c List.mem_cons_self
    simp only [isSpace, Bool.or_eq_true, beq_iff_eq] at hc
    rcases hc with ((rfl | rfl) | rfl) | rfl <;> decide

/-- Behind a number there may be a comma or a closing bracket. -/
theorem endsNumber_cons {b : UInt8} (hb : Text.isDigit b = false ∧ b ≠ 46 ∧ b ≠ 101 ∧ b ≠ 69)
    (t : Text) :
    EndsNumber (b :: t) := by
  intro c hc
  obtain rfl : b = c := by simpa using hc
  exact hb

/-! ## Arrays and objects as they are written -/

/-- The items of an array that is not empty, as they are written. -/
def itemsText (y : Layout) (level : Nat) : List Json → Text
  | [] => []
  | j :: rest => writeAt y level j ++ writeItems y level rest

/-- The members of an object that is not empty, as they are written. -/
def membersText (y : Layout) (level : Nat) : List (Text × Json) → Text
  | [] => []
  | m :: rest => writeMember y level m ++ writeMembers y level rest

theorem writeAt_array (y : Layout) (level : Nat) (j : Json) (rest : List Json) :
    writeAt y level (.array (j :: rest)) =
      91 :: (y.line (level + 1) ++
        (itemsText y (level + 1) (j :: rest) ++ (y.line level ++ [93]))) := by
  rw [writeAt, itemsText]
  simp only [List.append_assoc]
  rfl

theorem writeAt_object (y : Layout) (level : Nat) (m : Text × Json) (rest : List (Text × Json)) :
    writeAt y level (.object (m :: rest)) =
      123 :: (y.line (level + 1) ++
        (membersText y (level + 1) (m :: rest) ++ (y.line level ++ [125]))) := by
  rw [writeAt, membersText]
  simp only [List.append_assoc]
  rfl

theorem writeItems_of_ne_nil (y : Layout) (level : Nat) {js : List Json} (h : js ≠ []) :
    writeItems y level js = 44 :: (y.line level ++ itemsText y level js) := by
  obtain ⟨j, rest, rfl⟩ := List.exists_cons_of_ne_nil h
  rw [writeItems, itemsText]
  simp only [List.append_assoc]
  rfl

theorem writeMembers_of_ne_nil (y : Layout) (level : Nat) {ms : List (Text × Json)} (h : ms ≠ []) :
    writeMembers y level ms = 44 :: (y.line level ++ membersText y level ms) := by
  obtain ⟨m, rest, rfl⟩ := List.exists_cons_of_ne_nil h
  rw [writeMembers, membersText]
  simp only [List.append_assoc]
  rfl

/-- A number starts with none of the bytes that other values, white space and brackets start
with. -/
theorem ne_of_startsNumber {b : UInt8} (hb : b = 45 ∨ Text.isDigit b = true) :
    isSpace b = false ∧ b ≠ 93 ∧ b ≠ 34 ∧ b ≠ 116 ∧ b ≠ 102 ∧ b ≠ 110 := by
  simp only [Text.isDigit, Bool.and_eq_true, decide_eq_true_eq] at hb
  simp only [isSpace, Bool.or_eq_false_iff, beq_eq_false_iff_ne]
  grind

/-- A value starts with no white space and no closing bracket. -/
theorem exists_cons_writeAt (y : Layout) (level d : Nat) {j : Json} (h : j.Fits d) :
    ∃ b t, writeAt y level j = b :: t ∧ isSpace b = false ∧ b ≠ 93 := by
  cases j with
  | null => exact ⟨110, utf8 "ull", by rw [writeAt]; rfl, by decide, by decide⟩
  | bool b =>
    cases b with
    | true => exact ⟨116, utf8 "rue", by rw [writeAt]; rfl, by decide, by decide⟩
    | false => exact ⟨102, utf8 "alse", by rw [writeAt]; rfl, by decide, by decide⟩
  | number t =>
    rw [Fits] at h
    obtain ⟨b, u, rfl, hb⟩ := h.start
    exact ⟨b, u, by rw [writeAt], (ne_of_startsNumber hb).1, (ne_of_startsNumber hb).2.1⟩
  | string t => exact ⟨34, _, by rw [writeAt]; rfl, by decide, by decide⟩
  | array items =>
    cases items with
    | nil => exact ⟨91, [93], by rw [writeAt]; rfl, by decide, by decide⟩
    | cons j rest => exact ⟨91, _, writeAt_array y level j rest, by decide, by decide⟩
  | object members =>
    cases members with
    | nil => exact ⟨123, [125], by rw [writeAt], by decide, by decide⟩
    | cons m rest => exact ⟨123, _, writeAt_object y level m rest, by decide, by decide⟩

theorem exists_cons_itemsText (y : Layout) (level : Nat) {d : Nat} {js : List Json}
    (h : FitsItems d js)
    (hne : js ≠ []) : ∃ b t, itemsText y level js = b :: t ∧ isSpace b = false ∧ b ≠ 93 := by
  obtain ⟨j, rest, rfl⟩ := List.exists_cons_of_ne_nil hne
  rw [FitsItems] at h
  obtain ⟨b, t, hb, hother⟩ := exists_cons_writeAt y level d h.1
  exact ⟨b, t ++ writeItems y level rest, by rw [itemsText, hb, List.cons_append], hother⟩

theorem exists_cons_membersText (y : Layout) (level : Nat) {ms : List (Text × Json)}
    (hne : ms ≠ []) :
    ∃ t, membersText y level ms = 34 :: t := by
  obtain ⟨⟨name, j⟩, rest, rfl⟩ := List.exists_cons_of_ne_nil hne
  obtain ⟨u, hu, -⟩ := readString_writeString name []
  rw [membersText, writeMember, hu]
  exact ⟨_, rfl⟩

/-! ## One step of the reader -/

theorem readValue_append_cons {ws : Text} (hws : ∀ b ∈ ws, isSpace b = true) {b : UInt8}
    (hb : isSpace b = false) (fuel depth : Nat) (t : Text) :
    readValue (fuel + 1) depth (ws ++ b :: t) = readValue (fuel + 1) depth (b :: t) := by
  have hnone : skipSpace ([] ++ b :: t) = b :: t := skipSpace_append_cons (by simp) hb t
  rw [List.nil_append] at hnone
  rw [readValue, readValue, skipSpace_append_cons hws hb t, hnone]

theorem readValue_string {fuel depth : Nat} {s t u : Text}
    (h : readString .plain {} t = .ok (s, u)) :
    readValue (fuel + 1) depth (34 :: t) = .ok (.string s, u) := by
  rw [readValue, show skipSpace (34 :: t) = 34 :: t from rfl]
  simp [h, Except.map]

theorem readValue_number {fuel depth : Nat} {t rest : Text} (ht : IsLiteral t)
    (hrest : EndsNumber rest) :
    readValue (fuel + 1) depth (t ++ rest) = .ok (.number t, rest) := by
  obtain ⟨b, u, rfl, hb⟩ := ht.start
  have hread := ht.read rest hrest
  obtain ⟨hspace, -, hother⟩ := ne_of_startsNumber hb
  rw [List.cons_append] at hread ⊢
  rw [readValue, ← List.nil_append (b :: (u ++ rest)), skipSpace_append_cons (by simp) hspace]
  simp [hread, hother, hb]

theorem readValue_array {fuel depth : Nat} {c : UInt8} {t u : Text} (hdepth : depth < maxDepth)
    (hskip : skipSpace t = c :: u) (hc : c ≠ 93) :
    readValue (fuel + 1) depth (91 :: t) = readItems fuel (depth + 1) [] (c :: u) := by
  rw [readValue, show skipSpace (91 :: t) = 91 :: t from rfl]
  simp [hskip, hc, Nat.ne_of_lt hdepth, show Text.isDigit 91 = false from by decide]

theorem readValue_object {fuel depth : Nat} {c : UInt8} {t u : Text} (hdepth : depth < maxDepth)
    (hskip : skipSpace t = c :: u) (hc : c ≠ 125) :
    readValue (fuel + 1) depth (123 :: t) = readMembers fuel (depth + 1) [] (c :: u) := by
  rw [readValue, show skipSpace (123 :: t) = 123 :: t from rfl]
  simp [hskip, hc, Nat.ne_of_lt hdepth, show Text.isDigit 123 = false from by decide]

theorem readValue_array_nil {fuel depth : Nat} (hdepth : depth < maxDepth) (rest : Text) :
    readValue (fuel + 1) depth (91 :: 93 :: rest) = .ok (.array [], rest) := by
  rw [readValue, show skipSpace (91 :: 93 :: rest) = 91 :: 93 :: rest from rfl]
  simp [Nat.ne_of_lt hdepth, show Text.isDigit 91 = false from by decide,
    show skipSpace (93 :: rest) = 93 :: rest from rfl]

theorem readValue_object_nil {fuel depth : Nat} (hdepth : depth < maxDepth) (rest : Text) :
    readValue (fuel + 1) depth (123 :: 125 :: rest) = .ok (.object [], rest) := by
  rw [readValue, show skipSpace (123 :: 125 :: rest) = 123 :: 125 :: rest from rfl]
  simp [Nat.ne_of_lt hdepth, show Text.isDigit 123 = false from by decide,
    show skipSpace (125 :: rest) = 125 :: rest from rfl]

theorem readItems_last {fuel depth : Nat} {items : List Json} {t u v : Text} {j : Json}
    (hvalue : readValue fuel depth t = .ok (j, u)) (hskip : skipSpace u = 93 :: v) :
    readItems (fuel + 1) depth items t = .ok (.array (j :: items).reverse, v) := by
  simp [readItems, hvalue, hskip]

theorem readItems_next {fuel depth : Nat} {items : List Json} {t u v : Text} {j : Json}
    (hvalue : readValue fuel depth t = .ok (j, u)) (hskip : skipSpace u = 44 :: v) :
    readItems (fuel + 1) depth items t = readItems fuel depth (j :: items) v := by
  simp [readItems, hvalue, hskip]

theorem readMembers_last {fuel depth : Nat} {members : List (Text × Json)} {t n u v w : Text}
    {name : Text}
    {j : Json} (hopen : skipSpace t = 34 :: n)
    (hname : readString .plain {} n = .ok (name, 58 :: u))
    (hvalue : readValue fuel depth u = .ok (j, v)) (hskip : skipSpace v = 125 :: w) :
    readMembers (fuel + 1) depth members t = .ok (.object ((name, j) :: members).reverse, w) := by
  simp [readMembers, hopen, hname, hvalue, hskip, show skipSpace (58 :: u) = 58 :: u from rfl]

theorem readMembers_next {fuel depth : Nat} {members : List (Text × Json)} {t n u v w : Text}
    {name : Text}
    {j : Json} (hopen : skipSpace t = 34 :: n)
    (hname : readString .plain {} n = .ok (name, 58 :: u))
    (hvalue : readValue fuel depth u = .ok (j, v)) (hskip : skipSpace v = 44 :: w) :
    readMembers (fuel + 1) depth members t = readMembers fuel depth ((name, j) :: members) w := by
  simp [readMembers, hopen, hname, hvalue, hskip, show skipSpace (58 :: u) = 58 :: u from rfl]

/-- White space before a value is skipped. -/
theorem readValue_append_writeAt {ws : Text} (hws : ∀ b ∈ ws, isSpace b = true) {j : Json} {d : Nat}
    (hfits : j.Fits d) (y : Layout) (level fuel depth : Nat) (rest : Text) :
    readValue fuel depth (ws ++ (writeAt y level j ++ rest)) =
      readValue fuel depth (writeAt y level j ++ rest) := by
  cases fuel with
  | zero => rfl
  | succ fuel =>
    obtain ⟨b, t, hb, hspace, -⟩ := exists_cons_writeAt y level d hfits
    rw [hb, List.cons_append, readValue_append_cons hws hspace]

theorem readItems_append_itemsText {ws : Text} (hws : ∀ b ∈ ws, isSpace b = true) {js : List Json}
    {d : Nat}
    (hfits : FitsItems d js) (hne : js ≠ []) {y : Layout} {level fuel depth : Nat}
    {items : List Json}
    {u : Text} :
    readItems fuel depth items (ws ++ (itemsText y level js ++ u)) =
      readItems fuel depth items (itemsText y level js ++ u) := by
  cases fuel with
  | zero => rfl
  | succ fuel =>
    obtain ⟨j, rest, rfl⟩ := List.exists_cons_of_ne_nil hne
    rw [FitsItems] at hfits
    rw [readItems, readItems, itemsText, List.append_assoc, readValue_append_writeAt hws hfits.1]

theorem readMembers_append_cons {ws : Text} (hws : ∀ b ∈ ws, isSpace b = true) (fuel depth : Nat)
    (members : List (Text × Json)) (t : Text) :
    readMembers fuel depth members (ws ++ 34 :: t) = readMembers fuel depth members (34 :: t) := by
  cases fuel with
  | zero => rfl
  | succ fuel =>
    rw [readMembers, readMembers, skipSpace_append_cons hws (by decide)]
    rfl

/-! ## The reader behind the writer -/

mutual

/-- A value is read back whatever follows it, if that does not go on with a number. -/
theorem readValue_writeAt {y : Layout} (hy : y.Blank) :
    (j : Json) → (level fuel depth : Nat) → {d : Nat} → (rest : Text) → j.Fits d →
      depth + d ≤ maxDepth → 2 * (writeAt y level j).length ≤ fuel + 1 → EndsNumber rest →
      readValue fuel depth (writeAt y level j ++ rest) = .ok (j.sanitized, rest)
  | j, level, 0, depth, d, rest, hfits, hdepth, hfuel, hrest => by
    obtain ⟨b, t, hb, -⟩ := exists_cons_writeAt y level d hfits
    rw [hb, List.length_cons] at hfuel
    omega
  | .null, level, fuel + 1, depth, d, rest, hfits, hdepth, hfuel, hrest => by
    rw [writeAt, readValue]
    rfl
  | .bool b, level, fuel + 1, depth, d, rest, hfits, hdepth, hfuel, hrest => by
    rw [writeAt, readValue]
    cases b <;> rfl
  | .string t, level, fuel + 1, depth, d, rest, hfits, hdepth, hfuel, hrest => by
    obtain ⟨u, hu, hread⟩ := readString_writeString t rest
    rw [writeAt, hu, List.cons_append, readValue_string hread, sanitized]
  | .number t, level, fuel + 1, depth, d, rest, hfits, hdepth, hfuel, hrest => by
    rw [Fits] at hfits
    rw [writeAt, readValue_number hfits hrest, sanitized]
  | .array [], level, fuel + 1, depth, d, rest, hfits, hdepth, hfuel, hrest => by
    rw [Fits] at hfits
    rw [writeAt, sanitized, sanitizedItems]
    exact readValue_array_nil (by omega) rest
  | .array (j :: js), level, fuel + 1, depth, d, rest, hfits, hdepth, hfuel, hrest => by
    rw [Fits] at hfits
    rw [writeAt_array] at hfuel
    simp only [List.length_cons, List.length_append, List.length_nil] at hfuel
    -- what stands in front of the bracket is white space, and so the items end there
    have hclose : skipSpace (y.line level ++ 93 :: rest) = 93 :: rest :=
      skipSpace_append_cons (hy.line level) (by decide) rest
    have hend : EndsNumber (y.line level ++ 93 :: rest) :=
      endsNumber_of_space (hy.line level) (endsNumber_cons (by decide) rest)
    have hread := readItems_write hy (j :: js) (level + 1) fuel (depth + 1) []
      (List.cons_ne_nil j js) hfits.2 (by omega) (by omega) hclose hend
    obtain ⟨b, t, hb, hspace, hbracket⟩ :=
      exists_cons_itemsText y (level + 1) hfits.2 (List.cons_ne_nil j js)
    rw [hb, List.cons_append] at hread
    rw [writeAt_array, sanitized, hb]
    simp only [List.cons_append, List.append_assoc, List.nil_append]
    rw [readValue_array (by omega) (skipSpace_append_cons (hy.line _) hspace _) hbracket, hread]
    rfl
  | .object [], level, fuel + 1, depth, d, rest, hfits, hdepth, hfuel, hrest => by
    rw [Fits] at hfits
    rw [writeAt, sanitized, sanitizedMembers]
    exact readValue_object_nil (by omega) rest
  | .object (m :: ms), level, fuel + 1, depth, d, rest, hfits, hdepth, hfuel, hrest => by
    rw [Fits] at hfits
    rw [writeAt_object] at hfuel
    simp only [List.length_cons, List.length_append, List.length_nil] at hfuel
    have hclose : skipSpace (y.line level ++ 125 :: rest) = 125 :: rest :=
      skipSpace_append_cons (hy.line level) (by decide) rest
    have hend : EndsNumber (y.line level ++ 125 :: rest) :=
      endsNumber_of_space (hy.line level) (endsNumber_cons (by decide) rest)
    have hread := readMembers_write hy (m :: ms) (level + 1) fuel (depth + 1) []
      (List.cons_ne_nil m ms) hfits.2 (by omega) (by omega) hclose hend
    obtain ⟨t, ht⟩ := exists_cons_membersText y (level + 1) (List.cons_ne_nil m ms)
    rw [ht, List.cons_append] at hread
    rw [writeAt_object, sanitized, ht]
    simp only [List.cons_append, List.append_assoc, List.nil_append]
    rw [readValue_object (by omega) (skipSpace_append_cons (hy.line _) (by decide) _)
      (by decide), hread]
    rfl

/-- The items of an array are read back up to the closing bracket. -/
theorem readItems_write {y : Layout} (hy : y.Blank) :
    (js : List Json) → (level fuel depth : Nat) → (items : List Json) → {d : Nat} → {u v : Text} →
      js ≠ [] → FitsItems d js → depth + d ≤ maxDepth → 2 * (itemsText y level js).length ≤ fuel →
      skipSpace u = 93 :: v → EndsNumber u →
      readItems fuel depth items (itemsText y level js ++ u) =
        .ok (.array (items.reverse ++ sanitizedItems js), v)
  | [], _, _, _, _, _, _, _, hne, _, _, _, _, _ => absurd rfl hne
  | j :: js, level, fuel, depth, items, d, u, v, hne, hfits, hdepth, hfuel, hu, hend => by
    rw [FitsItems] at hfits
    obtain ⟨b, t, hb, hspace, -⟩ := exists_cons_writeAt y level d hfits.1
    rw [itemsText, List.length_append] at hfuel
    have hpos : 0 < (writeAt y level j).length := by simp [hb]
    obtain ⟨fuel, rfl⟩ : ∃ f, fuel = f + 1 := ⟨fuel - 1, by omega⟩
    rw [itemsText, List.append_assoc, sanitizedItems]
    by_cases hjs : js = []
    · subst hjs
      have hvalue := readValue_writeAt hy j level fuel depth u hfits.1 hdepth (by omega) hend
      rw [readItems_last (by rwa [writeItems, List.nil_append]) hu, sanitizedItems,
        List.reverse_cons]
    · rw [writeItems_of_ne_nil y level hjs] at hfuel ⊢
      simp only [List.length_cons, List.length_append, List.cons_append, List.append_assoc]
        at hfuel ⊢
      have hvalue := readValue_writeAt hy j level fuel depth
        (44 :: (y.line level ++ (itemsText y level js ++ u))) hfits.1 hdepth (by omega)
        (endsNumber_cons (by decide) _)
      have hitems := readItems_write hy js level fuel depth
        (j.sanitized :: items) hjs hfits.2 hdepth (by omega) hu hend
      rw [readItems_next hvalue rfl, readItems_append_itemsText (hy.line level) hfits.2 hjs, hitems]
      simp

/-- The members of an object are read back up to the closing bracket. -/
theorem readMembers_write {y : Layout} (hy : y.Blank) :
    (ms : List (Text × Json)) → (level fuel depth : Nat) → (members : List (Text × Json)) →
      {d : Nat} → {u v : Text} → ms ≠ [] → FitsMembers d ms → depth + d ≤ maxDepth →
      2 * (membersText y level ms).length ≤ fuel → skipSpace u = 125 :: v → EndsNumber u →
      readMembers fuel depth members (membersText y level ms ++ u) =
        .ok (.object (members.reverse ++ sanitizedMembers ms), v)
  | [], _, _, _, _, _, _, _, hne, _, _, _, _, _ => absurd rfl hne
  | (name, j) :: ms, level, fuel, depth, members, d, u, v, hne, hfits, hdepth, hfuel, hu, hend => by
    rw [FitsMembers] at hfits
    rw [membersText, writeMember, show utf8 ":" = [58] from rfl] at hfuel ⊢
    simp only [List.length_append, List.length_cons, List.length_nil] at hfuel
    obtain ⟨fuel, rfl⟩ : ∃ f, fuel = f + 1 := ⟨fuel - 1, by omega⟩
    simp only [List.append_assoc, List.cons_append, List.nil_append]
    rw [sanitizedMembers]
    by_cases hms : ms = []
    · subst hms
      obtain ⟨n, hn, hname⟩ := readString_writeString name
        (58 :: (y.gap ++ (writeAt y level j ++ u)))
      have hvalue := readValue_writeAt hy j level fuel depth u hfits.1 hdepth (by omega) hend
      rw [← readValue_append_writeAt hy.gap hfits.1] at hvalue
      rw [writeMembers, List.nil_append, hn, List.cons_append, readMembers_last rfl hname hvalue hu,
        sanitizedMembers, List.reverse_cons]
    · rw [writeMembers_of_ne_nil y level hms] at hfuel ⊢
      simp only [List.length_cons, List.length_append, List.cons_append, List.append_assoc]
        at hfuel ⊢
      obtain ⟨n, hn, hname⟩ := readString_writeString name
        (58 ::
          (y.gap ++ (writeAt y level j ++ 44 :: (y.line level ++ (membersText y level ms ++ u)))))
      have hvalue := readValue_writeAt hy j level fuel depth
        (44 :: (y.line level ++ (membersText y level ms ++ u))) hfits.1 hdepth (by omega)
        (endsNumber_cons (by decide) _)
      rw [← readValue_append_writeAt hy.gap hfits.1] at hvalue
      have hmembers := readMembers_write hy ms level fuel depth
        ((name.sanitize, j.sanitized) :: members) hms hfits.2 hdepth (by omega) hu hend
      obtain ⟨t, ht⟩ := exists_cons_membersText y level hms
      rw [hn, List.cons_append, readMembers_next rfl hname hvalue rfl, ht, List.cons_append,
        readMembers_append_cons (hy.line level), ← List.cons_append, ← ht, hmembers]
      simp

end

/-! ## Whole texts -/

theorem Fits.parse?_writeAt {y : Layout} (hy : y.Blank) {j : Json} (h : j.Fits maxDepth) {ws : Text}
    (hws : ∀ b ∈ ws, isSpace b = true) : parse? (writeAt y 0 j ++ ws) = some j.sanitized := by
  have hread : readFirst (writeAt y 0 j ++ ws) = .ok (j.sanitized, ws) := by
    refine readValue_writeAt hy j 0 _ 0 ws h (by omega)
      (by simp only [List.length_append]; omega) ?_
    rw [← List.append_nil ws]
    exact endsNumber_of_space hws (by simp [EndsNumber])
  have hskip : skipSpace ws = [] := by
    rw [← List.append_nil ws, skipSpace, List.dropWhile_append_of_pos hws, List.dropWhile_nil]
  simp [parse?, hread, hskip]

/-- A value on one line is read back, and white space may follow it. -/
theorem parse?_compact {j : Json} (h : j.Fits maxDepth) {ws : Text}
    (hws : ∀ b ∈ ws, isSpace b = true) :
    parse? (j.compact ++ ws) = some j.sanitized :=
  h.parse?_writeAt ⟨by simp, by simp⟩ hws

section Fits

variable {d : Nat}

@[simp] theorem fits_null : Json.null.Fits d := by simp [Fits]

@[simp] theorem fits_string (t : Text) : (Json.string t).Fits d := by simp [Fits]

@[simp] theorem fits_int (n : Int) : (Json.int n).Fits d := by
  rw [int, Fits]
  exact isLiteral_ofInt n

@[simp] theorem fits_array {items : List Json} :
    (Json.array items).Fits d ↔ 0 < d ∧ ∀ j ∈ items, j.Fits (d - 1) := by
  rw [Fits]
  refine and_congr_right fun _ => ?_
  induction items with
  | nil => simp [FitsItems]
  | cons j rest ih => rw [FitsItems, ih, List.forall_mem_cons]

@[simp] theorem fits_object {members : List (Text × Json)} :
    (Json.object members).Fits d ↔ 0 < d ∧ ∀ m ∈ members, m.2.Fits (d - 1) := by
  rw [Fits]
  refine and_congr_right fun _ => ?_
  induction members with
  | nil => simp [FitsMembers]
  | cons m rest ih => rw [FitsMembers, ih, List.forall_mem_cons]

@[simp] theorem fits_record {members : List (String × Json)} :
    (Json.record members).Fits d ↔ 0 < d ∧ ∀ m ∈ members, m.2.Fits (d - 1) := by
  rw [record, fits_object, List.forall_mem_map]

@[simp] theorem fits_texts {ts : List Text} : (Json.texts ts).Fits d ↔ 0 < d := by
  simp [texts]

theorem fits_ofOption {α : Type} {f : α → Json} {o : Option α} (h : ∀ a ∈ o, (f a).Fits d) :
    (Json.ofOption f o).Fits d := by
  cases o with
  | none => exact fits_null
  | some a => exact h a rfl

end Fits

theorem sanitizedMembers_eq_map (members : List (Text × Json)) :
    sanitizedMembers members = members.map fun m => (m.1.sanitize, m.2.sanitized) := by
  induction members with
  | nil => rfl
  | cons m rest ih => rw [sanitizedMembers, ih, List.map_cons]

/-- The names of a record are read as they are. -/
theorem sanitized_record (members : List (String × Json)) :
    (record members).sanitized = record (members.map fun m => (m.1, m.2.sanitized)) := by
  rw [record, sanitized, sanitizedMembers_eq_map, record, List.map_map, List.map_map]
  simp [Function.comp_def, Text.sanitize_utf8]

/-- What is read under a name of a record is what was written there. -/
theorem member?_sanitized_record (members : List (String × Json)) (name : Text) :
    (record members).sanitized.member? name = ((record members).member? name).map sanitized := by
  rw [sanitized_record]
  simp only [record, member?, List.map_map]
  rw [← List.map_reverse, ← List.map_reverse]
  induction members.reverse with
  | nil => rfl
  | cons m rest ih =>
    simp only [List.map_cons, Function.comp_apply, List.lookup_cons]
    split
    · rfl
    · exact ih

end CodeAudit.Json
