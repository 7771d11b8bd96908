import WpConnectorUtils.Arrow.Infer
import WpConnectorUtils.Ndjson.Outcomes
import WpConnectorUtils.Ndjson.SilentNulls
import WpConnectorUtils.Ndjson.Timestamps

/-!
# Rows written as lines

A producer writes a row as a JSON object, each cell as one of the values that stand for it: a
number or a numeral, a truth value in any of its spellings, an instant as a date or as an epoch
number. The conversion reads the rows back.
-/

namespace WpConnectorUtils.Ndjson
open Arrow

/-! ### Truth values in text -/

/-- The words for a truth value, in lower case. -/
def booleanWords : Bool → List String
  | true => ["true", "1"]
  | false => ["false", "0"]

/-- A text says `b`: one of its words in any case, with whitespace around it. -/
def SaysBool (text : String) (b : Bool) : Prop :=
  ∃ before word after, text.toList = before ++ word ++ after ∧
    (∀ c ∈ before, isWhitespace c = true) ∧ (∀ c ∈ after, isWhitespace c = true) ∧
    ∃ w ∈ booleanWords b, word.map Char.toLower = w.toList

lemma word_of_booleanWords :
    ∀ b, ∀ w ∈ booleanWords b, w ≠ "" ∧ ∀ c ∈ w.toList, isWhitespace c = false := by
  intro b
  cases b <;> simp [booleanWords, isWhitespace]

/-- No letter is whitespace, so lower case changes none. -/
lemma toLower_of_isWhitespace {c : Char} (h : isWhitespace c = true) : c.toLower = c := by
  have hnot : ¬(c.val ≥ 'A'.val ∧ c.val ≤ 'Z'.val) := by
    rintro ⟨hlow, hhigh⟩
    have hlow' : 0x41 ≤ c.toNat := UInt32.le_iff_toNat_le.mp hlow
    have hhigh' : c.toNat ≤ 0x5a := UInt32.le_iff_toNat_le.mp hhigh
    unfold isWhitespace at h
    simp only [decide_eq_true_eq, Bool.decide_or, Bool.decide_and, Bool.or_eq_true,
      Bool.and_eq_true] at h
    omega
  unfold Char.toLower
  rw [dif_neg hnot]

lemma isWhitespace_of_toLower {word : List Char} {w : String}
    (hw : ∀ c ∈ w.toList, isWhitespace c = false) (h : word.map Char.toLower = w.toList) :
    ∀ c ∈ word, isWhitespace c = false := by
  intro c hc
  by_contra hspace
  rw [Bool.not_eq_false] at hspace
  have hmem : c.toLower ∈ w.toList := by
    rw [← h]
    exact List.mem_map_of_mem hc
  rw [toLower_of_isWhitespace hspace] at hmem
  rw [hw c hmem] at hspace
  cases hspace

lemma dropWhile_of_word {word rest : List Char} (hne : word ≠ [])
    (hword : ∀ c ∈ word, isWhitespace c = false) :
    (word ++ rest).dropWhile isWhitespace = word ++ rest := by
  obtain ⟨c, cs, rfl⟩ := List.exists_cons_of_ne_nil hne
  rw [List.cons_append, List.dropWhile_cons, hword c List.mem_cons_self]
  rfl

/-- `trim` takes the whitespace off a word. -/
lemma trim_append {before word after : List Char} (hbefore : ∀ c ∈ before, isWhitespace c = true)
    (hafter : ∀ c ∈ after, isWhitespace c = true) (hne : word ≠ [])
    (hword : ∀ c ∈ word, isWhitespace c = false) : trim (before ++ word ++ after) = word := by
  have hreverse : ∀ c ∈ word.reverse, isWhitespace c = false :=
    fun c hc => hword c (List.mem_reverse.mp hc)
  unfold trim
  rw [List.append_assoc, List.dropWhile_append_of_pos hbefore, dropWhile_of_word hne hword,
    List.reverse_append, List.dropWhile_append_of_pos (fun c hc => hafter c (List.mem_reverse.mp hc)),
    ← List.append_nil word.reverse, dropWhile_of_word (by simpa using hne) hreverse,
    List.append_nil, List.reverse_reverse]

lemma parseBoolText_of_saysBool {text : String} {b : Bool} (h : SaysBool text b) :
    parseBoolText text = some b := by
  obtain ⟨before, word, after, htext, hbefore, hafter, w, hw, hlower⟩ := h
  obtain ⟨hfull, hspace⟩ := word_of_booleanWords b w hw
  have hne : word ≠ [] := by
    rintro rfl
    exact hfull (String.toList_eq_nil_iff.mp hlower.symm)
  unfold parseBoolText
  rw [htext, trim_append hbefore hafter hne (isWhitespace_of_toLower hspace hlower), hlower]
  have hread : ∀ b, ∀ w ∈ booleanWords b,
      (if w.toList = "true".toList ∨ w.toList = "1".toList then some true
        else if w.toList = "false".toList ∨ w.toList = "0".toList then some false
        else none) = some b := by
    decide
  exact hread b w hw

/-! ### Values that stand for a cell -/

variable {N : Type} [Crates N] {schema : Schema}

/-- Neither of the two date formats. -/
structure IsNoDate (N : Type) [Crates N] (text : String) : Prop where
  rfc3339 : (Crates.parseFromRfc3339 text : Option (Crates.DateTime N)) = none
  dateTime : (Crates.parseFromStr text "%Y-%m-%d %H:%M:%S" : Option (Crates.NaiveDateTime N)) = none

/-- The values a producer may write for a cell of a type; a missing member is read as null. -/
inductive Spells : DataType → Value N → Cell → Prop
  | null {dataType : DataType} : Spells dataType .null none
  | string (s : String) : Spells .utf8 (.string s) (some (.string s))
  | int64Number {number : N} {x : Int64} (h : Crates.asI64 number = some x) :
    Spells .int64 (.number number) (some (.int64 x))
  | int64Text {sign : NumeralSign} {digits : List Char} {x : Int64} (h : IsDigits digits)
      (hx : x.toInt = sign.apply (digitsValue digits)) :
    Spells .int64 (.string (String.ofList (sign.text ++ digits))) (some (.int64 x))
  | float64Number {number : N} {x : F64} (h : Crates.asF64 number = some x) :
    Spells .float64 (.number number) (some (.float64 x))
  | float64Text (numeral : Numeral) :
    Spells .float64 (.string numeral.text) (some (.float64 numeral.value))
  | boolean (b : Bool) : Spells .boolean (.bool b) (some (.boolean b))
  | booleanText {text : String} {b : Bool} (h : SaysBool text b) :
    Spells .boolean (.string text) (some (.boolean b))
  | rfc3339 {text : String} {t : Crates.DateTime N} {x : Int64}
      (h : Crates.parseFromRfc3339 text = some t) (hx : Crates.timestampNanosOpt t = some x) :
    Spells (.timestamp .nanosecond none) (.string text) (some (.timestampNanosecond x))
  | dateTime {text : String} {t : Crates.NaiveDateTime N} {x : Int64}
      (hnot : (Crates.parseFromRfc3339 text : Option (Crates.DateTime N)) = none)
      (h : Crates.parseFromStr text "%Y-%m-%d %H:%M:%S" = some t)
      (hx : Crates.timestampNanosOpt (Crates.andUtc t) = some x) :
    Spells (.timestamp .nanosecond none) (.string text) (some (.timestampNanosecond x))
  | epochNumber {number : N} {raw x : Int64} (h : Crates.asI64 number = some raw)
      (hx : x.toInt = raw.toInt * unitMultiplier raw.toInt.natAbs) :
    Spells (.timestamp .nanosecond none) (.number number) (some (.timestampNanosecond x))
  | epochText {sign : NumeralSign} {digits : List Char} {raw x : Int64} (h : IsDigits digits)
      (hraw : raw.toInt = sign.apply (digitsValue digits))
      (hnot : IsNoDate N (String.ofList (sign.text ++ digits)))
      (hx : x.toInt = raw.toInt * unitMultiplier raw.toInt.natAbs) :
    Spells (.timestamp .nanosecond none) (.string (String.ofList (sign.text ++ digits)))
      (some (.timestampNanosecond x))

lemma parseI64_of_digits {sign : NumeralSign} {digits : List Char} {x : Int64} (h : IsDigits digits)
    (hx : x.toInt = sign.apply (digitsValue digits)) :
    parseI64 (String.ofList (sign.text ++ digits)) = some x := by
  rw [parseI64_digits sign h, i64TryFrom_eq_some]
  exact hx

lemma dateNanos_of_isNoDate {text : String} (h : IsNoDate N text) : dateNanos N text = none := by
  simp [dateNanos, h.rfc3339, h.dateTime]

lemma epochIntNanos_of_spelled {raw x : Int64}
    (hx : x.toInt = raw.toInt * unitMultiplier raw.toInt.natAbs) : epochIntNanos raw = some x := by
  rw [epochIntNanos_eq, i64TryFrom_eq_some]
  exact hx

lemma cellOf_null (dataType : DataType) : cellOf dataType (.null : Value N) = none := by
  unfold cellOf
  split <;> rfl

/-- Each of the values becomes the cell it stands for. -/
lemma cellOf_of_spells {dataType : DataType} {value : Value N} {cell : Cell}
    (h : Spells dataType value cell) : cellOf dataType value = cell := by
  cases h with
  | null => exact cellOf_null dataType
  | string s => rfl
  | int64Number h => simp [cellOf, int64Cell, h]
  | int64Text h hx => simp only [cellOf, int64Cell, parseI64_of_digits h hx, Option.map_some]
  | float64Number h => simp [cellOf, float64Cell, h]
  | float64Text numeral =>
    simp only [cellOf, float64Cell, numeral.parseF64_text, Option.map_some]
  | boolean b => rfl
  | booleanText h => simp [cellOf, booleanCell, parseBoolText_of_saysBool h]
  | rfc3339 h hx => simp [cellOf, timestampValueNanos, dateNanos, h, hx]
  | dateTime hnot h hx => simp [cellOf, timestampValueNanos, dateNanos, hnot, h, hx]
  | epochNumber h hx => simp [cellOf, timestampValueNanos, h, epochIntNanos_of_spelled hx]
  | epochText h hraw hnot hx =>
    simp only [cellOf, timestampValueNanos, dateNanos_of_isNoDate hnot, parseI64_of_digits h hraw,
      epochIntNanos_of_spelled hx, Option.bind_some, Option.some_or, Option.map_some]

/-! ### Rows -/

/-- A line is an object whose members stand for the cells of a row. -/
def Writes (N : Type) [Crates N] (schema : Schema) (line : String) (row : List Cell) : Prop :=
  ∃ obj : Object N, Crates.fromStr line = .ok obj ∧ List.Forall₂ (fun field cell =>
    Spells field.dataType (valueOf obj field.name) cell) schema.fields row

/-- No cell is null where its field forbids it. -/
def Respects (schema : Schema) (row : List Cell) : Prop :=
  List.Forall₂ (fun field cell => field.nullable = false → cell ≠ none) schema.fields row

lemma Writes.row_eq {line : String} {row : List Cell} (h : Writes N schema line row) {obj : Object N}
    (hobj : Crates.fromStr line = .ok obj) : row = rowOf schema obj := by
  obtain ⟨obj', hobj', hcells⟩ := h
  obtain rfl : obj = obj' := Except.ok.inj (hobj.symm.trans hobj')
  unfold rowOf
  rw [← List.forall₂_eq_eq_eq, List.forall₂_map_right_iff]
  exact (hcells.imp fun field cell hcell => (cellOf_of_spells hcell).symm).flip

lemma respects_rowOf (obj : Object N) : Respects schema (rowOf schema obj) ↔
    ∀ field ∈ schema.fields, field.nullable = false →
      cellOf field.dataType (valueOf obj field.name) ≠ none := by
  unfold Respects rowOf
  rw [List.forall₂_map_right_iff, List.forall₂_same]

lemma Writes.admits_iff {line : String} {row : List Cell} (h : Writes N schema line row) :
    Admits N schema line ↔ Respects schema row := by
  obtain ⟨obj, hobj, -⟩ := id h
  rw [h.row_eq hobj, respects_rowOf]
  constructor
  · rintro ⟨obj', hobj', hcells⟩
    obtain rfl : obj = obj' := Except.ok.inj (hobj.symm.trans hobj')
    exact hcells
  · intro hcells
    exact ⟨obj, hobj, hcells⟩

lemma rows_of_writes {lines : List String} {rows : List (List Cell)} {objects : List (Object N)}
    (hwrites : List.Forall₂ (Writes N schema) lines rows) (hparsed : Parsed lines objects) :
    objects.map (rowOf schema) = rows := by
  induction hwrites generalizing objects with
  | nil =>
    obtain rfl := List.forall₂_nil_left_iff.mp hparsed
    rfl
  | cons hwrite _ ih =>
    obtain ⟨obj, objects, hobj, hobjects, rfl⟩ := List.forall₂_cons_left_iff.mp hparsed
    rw [List.map_cons, ih hobjects, ← hwrite.row_eq hobj]

/-- The bytes of the text in a cell. -/
def cellBytes : Cell → Nat
  | some (.string s) => s.utf8ByteSize
  | _ => 0

/-- The texts of each column fit in a `StringArray`. -/
def RowsFit (schema : Schema) (rows : List (List Cell)) : Prop :=
  ∀ j < schema.fields.length, (rows.map fun row => cellBytes (row[j]?.getD none)).sum ≤ maxOffset

instance (schema : Schema) (rows : List (List Cell)) : Decidable (RowsFit schema rows) :=
  inferInstanceAs (Decidable (∀ j < schema.fields.length, _))

lemma cellBytes_text {dataType : DataType} (h : dataType ∈ [.utf8, .largeUtf8]) (value : Value N) :
    cellBytes (cellOf dataType value) = ((stringCell value).map String.utf8ByteSize).getD 0 := by
  rcases List.mem_pair.mp h with rfl | rfl
  · unfold cellOf
    cases stringCell value <;> rfl
  · unfold cellOf
    cases stringCell value <;> rfl

lemma cellBytes_other {dataType : DataType} (h : dataType ∉ [.utf8, .largeUtf8]) (value : Value N) :
    cellBytes (cellOf dataType value) = 0 := by
  unfold cellOf
  split
  · exact absurd List.mem_cons_self h
  · exact absurd (List.mem_cons_of_mem _ List.mem_cons_self) h
  · cases int64Cell value <;> rfl
  · cases float64Cell value <;> rfl
  · cases booleanCell value <;> rfl
  · cases timestampValueNanos value <;> rfl
  · rfl

/-- Read from the objects, the texts of the rows are those of the columns. -/
lemma rowsFit_iff (objects : List (Object N)) : RowsFit schema (objects.map (rowOf schema)) ↔
    ∀ field ∈ schema.fields, TextFits field.dataType (objects.map (valueOf · field.name)) := by
  have hcolumn : ∀ j (hj : j < schema.fields.length),
      (objects.map (rowOf schema)).map (fun row => cellBytes (row[j]?.getD none)) =
        objects.map fun obj =>
          cellBytes (cellOf schema.fields[j].dataType (valueOf obj schema.fields[j].name)) := by
    intro j hj
    rw [List.map_map]
    apply List.map_congr_left
    intro obj _
    simp [rowOf, hj]
  unfold RowsFit
  constructor
  · intro h field hfield htext
    obtain ⟨j, hj, rfl⟩ := List.mem_iff_getElem.mp hfield
    have hsum := h j hj
    simp only [hcolumn j hj, cellBytes_text htext] at hsum
    unfold textBytes
    rw [List.map_map, List.map_map]
    exact hsum
  · intro h j hj
    rw [hcolumn j hj]
    by_cases htext : schema.fields[j].dataType ∈ [.utf8, .largeUtf8]
    · have hfits := h _ (List.getElem_mem hj) htext
      simp only [cellBytes_text htext]
      unfold textBytes at hfits
      rw [List.map_map, List.map_map] at hfits
      exact hfits
    · simp [cellBytes_other htext]

lemma textsFit_iff_rowsFit {lines : List String} {rows : List (List Cell)}
    (hwrites : List.Forall₂ (Writes N schema) lines rows) :
    TextsFit N schema lines ↔ RowsFit schema rows := by
  have hobject : ∀ line ∈ lines, ∃ obj : Object N, Crates.fromStr line = .ok obj := by
    intro line hline
    obtain ⟨i, hi, rfl⟩ := List.mem_iff_getElem.mp hline
    obtain ⟨obj, hobj, -⟩ := (List.forall₂_iff_get.mp hwrites).2 i hi (hwrites.length_eq ▸ hi)
    exact ⟨obj, hobj⟩
  obtain ⟨objects, hparsed⟩ := exists_parsed hobject
  rw [← rows_of_writes hwrites hparsed, rowsFit_iff]
  constructor
  · intro h
    exact h objects hparsed
  · intro h objects' hparsed'
    obtain rfl := parsed_unique hparsed hparsed'
    exact h

/-- Rows of a schema with distinct names, written as lines, are converted exactly when no cell is
null where its field forbids it and the texts fit, and then to a batch of these rows. -/
theorem written_rows_iff (hsound : Crates.TryNewSound N) (hcomplete : Crates.TryNewComplete N)
    (hfields : schema.fields ≠ []) (hnodup : schema.names.Nodup) (hbuildable : Buildable schema)
    {lines : List String} {rows : List (List Cell)} (hlines : lines ≠ [])
    (hwrites : List.Forall₂ (Writes N schema) lines rows) :
    ((∃ batch, ndjsonToRecordBatch N lines schema = .ok (some batch)) ↔
        (∀ row ∈ rows, Respects schema row) ∧ RowsFit schema rows) ∧
      ∀ batch, ndjsonToRecordBatch N lines schema = .ok (some batch) →
        batch.schema = schema ∧ batch.rows = rows := by
  constructor
  · rw [exists_batch_iff hsound hcomplete hnodup]
    have hadmits : (∀ line ∈ lines, Admits N schema line) ↔ ∀ row ∈ rows, Respects schema row := by
      clear hlines
      induction hwrites with
      | nil => simp
      | cons hwrite _ ih => rw [List.forall_mem_cons, List.forall_mem_cons, hwrite.admits_iff, ih]
    rw [hadmits, textsFit_iff_rowsFit hwrites]
    exact ⟨fun h => h.2.2.2, fun h => ⟨hlines, hfields, hbuildable, h⟩⟩
  · intro batch h
    obtain ⟨objects, hparsed, hrows⟩ := rows_of_result hsound hnodup h
    obtain ⟨-, -, hschema, -⟩ := converted hsound h
    exact ⟨hschema, hrows.trans (rows_of_writes hwrites hparsed)⟩

/-- A text and a number, then a row without text whose number is written as text. -/
theorem written_rows_sample :
    ∃ batch, ndjsonToRecordBatch JsonInt [JsonInt.bothLine, JsonInt.numberLine] textAndNumber =
        .ok (some batch) ∧
      batch.rows = [[some (.string "x"), some (.int64 7)], [none, some (.int64 8)]] := by
  have hfirst : Writes JsonInt textAndNumber JsonInt.bothLine
      [some (.string "x"), some (.int64 7)] :=
    ⟨_, rfl, .cons (.string "x") (.cons (.int64Number rfl) .nil)⟩
  have hlast : Writes JsonInt textAndNumber JsonInt.numberLine [none, some (.int64 8)] :=
    ⟨_, rfl, .cons .null (.cons
      (@Spells.int64Text JsonInt _ .none ['8'] 8 (by simp [IsDigits]) rfl) .nil)⟩
  have hrows := written_rows_iff JsonInt.tryNewSound JsonInt.tryNewComplete (by decide) (by decide)
    (by unfold Buildable HasArm; decide) (by decide) (.cons hfirst (.cons hlast .nil))
  obtain ⟨batch, h⟩ := hrows.1.mpr ⟨by unfold Respects; decide, by decide⟩
  exact ⟨batch, h, (hrows.2 batch h).2⟩

/-! ### Untyped rows -/

/-- Every name occurs as often as any other. -/
def EquallyOften (names : List String) : Prop :=
  ∀ a ∈ names, ∀ b ∈ names, names.count a = names.count b

lemma dataType_of_infer {names : List String} {field : Field}
    (h : field ∈ (inferArrowSchema names).fields) :
    field.dataType = .utf8 ∧ field.nullable = true := by
  obtain ⟨name, -, rfl⟩ := List.mem_map.mp h
  exact ⟨rfl, rfl⟩

lemma hasArm_of_infer {names : List String} {field : Field}
    (h : field ∈ (inferArrowSchema names).fields) : HasArm field.dataType := by
  rw [(dataType_of_infer h).1]
  exact List.mem_cons_self

/-- The columns built for equally frequent names have one length. -/
lemma valid_of_equallyOften {names : List String} (hne : names ≠ []) (h : EquallyOften names)
    {objects : List (Object N)} {arrays : List ArrayRef}
    (hbuilt : Built (inferArrowSchema names) objects arrays) :
    Valid (inferArrowSchema names) arrays := by
  obtain ⟨first, hfirst⟩ := List.exists_mem_of_ne_nil names hne
  have hcolumns : List.Forall₂ (fun field array => array.dataType = field.dataType ∧
      array.len = objects.length * names.count first ∧ field.nullable = true)
      (inferArrowSchema names).fields arrays := by
    apply ((List.forall₂_and_left _ _).mpr ⟨fun field hfield => hfield, hbuilt⟩).imp
    rintro field array ⟨hfield, hbuild⟩
    obtain ⟨hcells, htype⟩ := buildArray_eq_ok hbuild
    obtain ⟨htext, hnullable⟩ := dataType_of_infer hfield
    have hname : field.name ∈ names := by
      rw [← names_inferArrowSchema names]
      exact List.mem_map_of_mem hfield
    refine ⟨?_, ?_, hnullable⟩
    · rw [htype, htext]
      rfl
    · rw [ArrayRef.len, hcells, List.length_map, length_collected, names_inferArrowSchema,
        h first hfirst _ hname]
  have harrays : arrays ≠ [] := by
    rintro rfl
    exact hne (List.map_eq_nil_iff.mp (List.forall₂_nil_right_iff.mp hcolumns))
  have hlen : ∀ array ∈ arrays, array.len = objects.length * names.count first := by
    have hflip : List.Forall₂ (fun array _ => array.len = objects.length * names.count first ∧ True)
        arrays (inferArrowSchema names).fields := hcolumns.flip.imp fun _ _ hc => ⟨hc.2.1, trivial⟩
    exact ((List.forall₂_and_left _ _).mp hflip).1
  refine ⟨harrays, ?_⟩
  rw [rowCount_eq harrays hlen]
  apply hcolumns.imp
  rintro field array ⟨htype, hlength, hnullable⟩
  refine ⟨htype, hlength, ?_⟩
  intro hnot
  rw [hnullable] at hnot
  cases hnot

/-- What a text column shows of a member of an object. -/
inductive Shows (obj : Object N) (name : String) : Cell → Prop
  | missing (h : obj.lookup name = none) : Shows obj name none
  | null (h : obj.lookup name = some .null) : Shows obj name none
  | string {s : String} (h : obj.lookup name = some (.string s)) : Shows obj name (some (.string s))
  | other {value : Value N} (h : obj.lookup name = some value) (hnull : value ≠ .null)
      (hstring : ∀ s, value ≠ .string s) : Shows obj name (some (.string (Crates.toString value)))

/-- The bytes of what is shown. -/
def shownBytes (obj : Object N) (name : String) : Nat :=
  match obj.lookup name with
  | none | some .null => 0
  | some (.string s) => s.utf8ByteSize
  | some value => (Crates.toString value).utf8ByteSize

lemma shows_stringCell (obj : Object N) (name : String) :
    Shows obj name ((stringCell (valueOf obj name)).map .string) := by
  unfold valueOf
  cases h : obj.lookup name with
  | none => exact .missing h
  | some value =>
    cases value with
    | null => exact .null h
    | string s => exact .string h
    | bool b => exact .other h (by simp) (by simp)
    | number n => exact .other h (by simp) (by simp)
    | array items => exact .other h (by simp) (by simp)
    | object members => exact .other h (by simp) (by simp)

lemma shownBytes_eq (obj : Object N) (name : String) :
    shownBytes obj name = ((stringCell (valueOf obj name)).map String.utf8ByteSize).getD 0 := by
  unfold shownBytes valueOf
  cases obj.lookup name with
  | none => rfl
  | some value => cases value <;> rfl

/-- Only a missing member and null are shown as null. -/
lemma Shows.eq_none_iff {obj : Object N} {name : String} {cell : Cell} (h : Shows obj name cell) :
    cell = none ↔ Missing obj name := by
  unfold Missing
  cases h with
  | missing h => simp [h]
  | null h => simp [h]
  | string h => simp [h]
  | other h hnull hstring => simp [h, hnull]

/-- The text collected for a name: that of every object, as often as the name occurs. -/
lemma textBytes_collected (names : List String) (objects : List (Object N)) (name : String) :
    textBytes ((collected (inferArrowSchema names) objects name).map stringCell) =
      names.count name * (objects.map (shownBytes · name)).sum := by
  unfold collected textBytes
  rw [names_inferArrowSchema]
  induction objects with
  | nil => simp
  | cons obj objects ih =>
    rw [List.flatMap_cons, List.map_append, List.map_append, List.sum_append, ih, List.map_cons,
      List.sum_cons, shownBytes_eq, Nat.mul_add]
    simp

/-- Objects are converted to text columns for any names that occur equally often, if the texts fit,
and then every cell shows its member. -/
theorem untyped_rows_iff (hsound : Crates.TryNewSound N) (hcomplete : Crates.TryNewComplete N)
    (names : List String) {lines : List String} {objects : List (Object N)} (hlines : lines ≠ [])
    (hparsed : Parsed lines objects) :
    ((∃ batch, ndjsonToRecordBatch N lines (inferArrowSchema names) = .ok (some batch)) ↔
        names ≠ [] ∧ EquallyOften names ∧ ∀ name ∈ names,
          names.count name * (objects.map (shownBytes · name)).sum ≤ maxOffset) ∧
      (names.Nodup → ∀ batch,
        ndjsonToRecordBatch N lines (inferArrowSchema names) = .ok (some batch) →
        List.Forall₂ (fun obj row => List.Forall₂ (fun name cell => Shows obj name cell ∧
          (cell = none ↔ Missing obj name)) names row) objects batch.rows) := by
  constructor
  · constructor
    · rintro ⟨batch, h⟩
      obtain ⟨objects', hparsed', hschema, hcells⟩ := converted hsound h
      have hpos : 0 < lines.length := List.length_pos_of_ne_nil hlines
      have hcount : ∀ name ∈ names, batch.numRows = lines.length * names.count name := by
        intro name hname
        have hrows := numRows_eq hparsed' hcells (List.mem_map_of_mem hname)
        rw [names_inferArrowSchema] at hrows
        exact hrows
      refine ⟨?_, ?_, ?_⟩
      · rintro rfl
        obtain ⟨field, hfield⟩ := exists_field hschema
        cases hfield
      · intro a ha b hb
        exact Nat.eq_of_mul_eq_mul_left hpos ((hcount a ha).symm.trans (hcount b hb))
      · intro name hname
        obtain ⟨-, objects', arrays, hparsed', hbuilt, -⟩ := ndjsonToRecordBatch_eq_ok.mp h
        obtain rfl := parsed_unique hparsed hparsed'
        have hfield : (⟨name, .utf8, true⟩ : Field) ∈ (inferArrowSchema names).fields :=
          List.mem_map_of_mem hname
        obtain ⟨i, hi, heq⟩ := List.mem_iff_getElem.mp hfield
        have hi' : i < arrays.length := List.Forall₂.length_eq hbuilt ▸ hi
        have hbuild := (List.forall₂_iff_get.mp hbuilt).2 i hi hi'
        rw [List.get_eq_getElem, heq] at hbuild
        rw [← textBytes_collected]
        exact textFits_of_buildArray hbuild List.mem_cons_self
    · rintro ⟨hne, hequal, hfits⟩
      have hbuild : ∀ field ∈ (inferArrowSchema names).fields, ∃ array,
          buildArray field (collected (inferArrowSchema names) objects field.name) = .ok array := by
        intro field hfield
        apply buildArray_of_hasArm (hasArm_of_infer hfield)
        intro _
        rw [textBytes_collected]
        obtain ⟨name, hname, rfl⟩ := List.mem_map.mp hfield
        exact hfits name hname
      obtain ⟨arrays, harrays⟩ := Except.mapM_total hbuild
      have hbuilt : Built (inferArrowSchema names) objects arrays := Except.mapM_eq_ok.mp harrays
      obtain ⟨batch, hbatch⟩ := hcomplete _ _ (valid_of_equallyOften hne hequal hbuilt)
      exact ⟨batch, ndjsonToRecordBatch_eq_ok.mpr
        ⟨hlines, objects, arrays, hparsed, hbuilt, hbatch⟩⟩
  · intro hnodup batch h
    have hdistinct : (inferArrowSchema names).names.Nodup := by
      rw [names_inferArrowSchema]
      exact hnodup
    obtain ⟨objects', hparsed', hrows⟩ := rows_of_result hsound hdistinct h
    obtain rfl := parsed_unique hparsed hparsed'
    change batch.rows = _ at hrows
    rw [hrows, List.forall₂_map_right_iff, List.forall₂_same]
    intro obj _
    unfold rowOf inferArrowSchema
    rw [List.map_map, List.forall₂_map_right_iff, List.forall₂_same]
    intro name _
    have hshows := shows_stringCell obj name
    exact ⟨hshows, hshows.eq_none_iff⟩

theorem untyped_rows_sample :
    ∃ batch, ndjsonToRecordBatch JsonInt [JsonInt.bothLine, JsonInt.numberLine]
        (inferArrowSchema ["n", "a"]) = .ok (some batch) ∧
      batch.rows = [[some (.string "7"), some (.string "x")], [some (.string "8"), none]] ∧
      List.Forall₂ (fun obj row => List.Forall₂ (fun name cell => Shows obj name cell ∧
          (cell = none ↔ Missing obj name)) ["n", "a"] row)
        [[("a", .string "x"), ("n", .number ⟨7⟩)], [("n", (.string "8" : Value JsonInt))]]
        batch.rows := by
  have hparsed : Parsed [JsonInt.bothLine, JsonInt.numberLine]
      [[("a", .string "x"), ("n", .number ⟨7⟩)], [("n", (.string "8" : Value JsonInt))]] :=
    .cons rfl (.cons rfl .nil)
  have hrows := untyped_rows_iff JsonInt.tryNewSound JsonInt.tryNewComplete ["n", "a"] (by decide)
    hparsed
  exact ⟨_, rfl, rfl, hrows.2 (by decide) _ rfl⟩

end WpConnectorUtils.Ndjson
