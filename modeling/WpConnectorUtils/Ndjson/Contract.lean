import WpConnectorUtils.Ndjson.Convert

/-!
# The contract of the conversion

Which cells a returned batch holds, and which schemas can be converted at all.
-/

namespace WpConnectorUtils.Ndjson
open Arrow

variable {N : Type} {schema : Schema}

/-! ### The columns of a batch -/

lemma collected_append (schema : Schema) (top bottom : List (Object N)) (name : String) :
    collected schema (top ++ bottom) name =
      collected schema top name ++ collected schema bottom name := by
  simp [collected]

lemma length_collected (schema : Schema) (objects : List (Object N)) (name : String) :
    (collected schema objects name).length = objects.length * schema.names.count name := by
  unfold collected
  induction objects with
  | nil => simp
  | cons obj objects ih =>
    rw [List.flatMap_cons, List.length_append, ih, List.length_replicate, List.length_cons]
    ring

lemma collected_of_nodup (hnodup : schema.names.Nodup) (objects : List (Object N)) {field : Field}
    (hfield : field ∈ schema.fields) :
    collected schema objects field.name = objects.map (valueOf · field.name) := by
  have hname : field.name ∈ schema.names := List.mem_map_of_mem hfield
  unfold collected
  rw [List.count_eq_one_of_mem hnodup hname]
  exact List.map_eq_flatMap.symm

variable [Crates N]

/-- The cells of the columns, field by field. -/
def columnCells (schema : Schema) (objects : List (Object N)) : List (List Cell) :=
  schema.fields.map fun field => (collected schema objects field.name).map (cellOf field.dataType)

lemma built_cells {objects : List (Object N)} {arrays : List ArrayRef}
    (h : Built schema objects arrays) : arrays.map ArrayRef.cells = columnCells schema objects := by
  have hcells : List.Forall₂ (fun field array =>
      array.cells = (collected schema objects field.name).map (cellOf field.dataType))
      schema.fields arrays := h.imp fun field array hbuild => (buildArray_eq_ok hbuild).1
  unfold columnCells
  rw [← List.forall₂_eq_eq_eq, List.forall₂_map_left_iff, List.forall₂_map_right_iff]
  exact hcells.flip

/-- A returned batch: where its columns come from and how many rows they make. -/
theorem converted {lines : List String} {batch : RecordBatch} (hsound : Crates.TryNewSound N)
    (h : ndjsonToRecordBatch N lines schema = .ok (some batch)) :
    ∃ objects : List (Object N), Parsed lines objects ∧ batch.schema = schema ∧
      batch.columns.map ArrayRef.cells = columnCells schema objects := by
  obtain ⟨-, objects, arrays, hparsed, hbuilt, hnew⟩ := ndjsonToRecordBatch_eq_ok.mp h
  obtain ⟨hschema, hcolumns⟩ := hsound _ _ _ hnew
  refine ⟨objects, hparsed, hschema, ?_⟩
  rw [hcolumns]
  exact built_cells hbuilt

/-- Every field of the schema tells the number of rows. -/
lemma numRows_eq {lines : List String} {objects : List (Object N)} {batch : RecordBatch}
    (hparsed : Parsed lines objects)
    (hcells : batch.columns.map ArrayRef.cells = columnCells schema objects) {field : Field}
    (hfield : field ∈ schema.fields) :
    batch.numRows = lines.length * schema.names.count field.name := by
  have hcolumn : (collected schema objects field.name).map (cellOf field.dataType) ∈
      batch.columns.map ArrayRef.cells := by
    rw [hcells]
    exact List.mem_map_of_mem hfield
  obtain ⟨array, harray, heq⟩ := List.mem_map.mp hcolumn
  have hlen := batch.length_column array harray
  rw [ArrayRef.len, heq, List.length_map, length_collected] at hlen
  rw [← hlen, List.Forall₂.length_eq hparsed]

lemma exists_field {batch : RecordBatch} (h : batch.schema = schema) :
    ∃ field, field ∈ schema.fields := by
  have hpos : 0 < batch.numColumns := List.length_pos_of_ne_nil batch.valid.nonempty
  rw [batch.numColumns_eq, h] at hpos
  exact List.exists_mem_of_length_pos hpos

/-! ### A sample of the crates

JSON objects of the lines listed, with integers for numbers, and no dates. -/

structure JsonInt where
  value : Int
  deriving DecidableEq

namespace JsonInt

def textLine : String := "\x7b\"a\":\"x\"\x7d"

def bothLine : String := "\x7b\"a\":\"x\",\"n\":7\x7d"

def numberLine : String := "\x7b\"n\":\"8\"\x7d"

def objects : List (String × Object JsonInt) :=
  [(textLine, [("a", .string "x")]), (bothLine, [("a", .string "x"), ("n", .number ⟨7⟩)]),
    (numberLine, [("n", .string "8")])]

def typeName : DataType → String
  | .utf8 => "Utf8"
  | .largeUtf8 => "LargeUtf8"
  | .int64 => "Int64"
  | .float64 => "Float64"
  | .boolean => "Boolean"
  | .timestamp _ _ => "Timestamp"
  | .other name => name

/-- The check that fails first; the columns are as many as the fields. -/
def refusal (schema : Schema) (columns : List ArrayRef) : String :=
  let pairs := schema.fields.zip columns
  if columns.isEmpty then "must either specify a row count or at least one column"
  else match pairs.find? fun (field, array) => !field.nullable && array.cells.contains none with
  | some (field, _) => s!"Column '{field.name}' is declared as non-nullable but contains null values"
  | none =>
    if columns.any fun array => array.len ≠ rowCount columns then
      "all columns in a record batch must have the same length"
    else match pairs.find? fun (field, array) => array.dataType ≠ field.dataType with
    | some (field, array) =>
      s!"column types must match schema types, expected {typeName field.dataType} but found " ++
        s!"{typeName array.dataType} at column index {pairs.idxOf (field, array)}"
    | none => ""

instance : Crates JsonInt where
  DateTime := Int64
  NaiveDateTime := Int64
  fromStr line := match objects.lookup line with
    | some obj => .ok obj
    | none => .error "expected value at line 1 column 1"
  toString value := match value with
    | .number n => toString n.value
    | .bool b => toString b
    | _ => ""
  asI64 n := i64TryFrom n.value
  asF64 n := some (Float.Model.ofInt n.value)
  parseFromRfc3339 _ := none
  parseFromStr _ _ := none
  andUtc t := t
  timestampNanosOpt t := some t
  debug dataType := typeName dataType
  tryNew schema columns :=
    if h : Valid schema columns then .ok ⟨schema, columns, h⟩
    else .error s!"Invalid argument error: {refusal schema columns}"

lemma tryNewSound : Crates.TryNewSound JsonInt := by
  intro schema columns batch h
  change (if h : Valid schema columns then _ else _) = _ at h
  split at h
  · cases h
    exact ⟨rfl, rfl⟩
  · cases h

lemma tryNewComplete : Crates.TryNewComplete JsonInt := by
  intro schema columns h
  exact ⟨⟨schema, columns, h⟩, dif_pos h⟩

end JsonInt

/-! ### Row alignment -/

/-- Row `i` of the batch holds, column by column, the conversions of the values that the object of
line `i` has for the fields of the schema. -/
structure RowAligned (N : Type) [Crates N] (lines : List String) (schema : Schema)
    (batch : RecordBatch) : Prop where
  numRows : batch.numRows = lines.length
  numColumns : batch.numColumns = schema.fields.length
  rows : ∃ objects : List (Object N), Parsed lines objects ∧
    batch.rows = objects.map fun obj => schema.fields.map fun field =>
      cellOf field.dataType (valueOf obj field.name)

/-- Distinct names keep the rows of the lines. -/
lemma aligned_of_nodup {lines : List String} {batch : RecordBatch} (hsound : Crates.TryNewSound N)
    (h : ndjsonToRecordBatch N lines schema = .ok (some batch)) (hnodup : schema.names.Nodup) :
    RowAligned N lines schema batch := by
  obtain ⟨objects, hparsed, hschema, hcells⟩ := converted hsound h
  obtain ⟨field, hfield⟩ := exists_field hschema
  have hname : field.name ∈ schema.names := List.mem_map_of_mem hfield
  have hrows : batch.numRows = lines.length := by
    rw [numRows_eq hparsed hcells hfield, List.count_eq_one_of_mem hnodup hname, Nat.mul_one]
  have hcolumns : columnCells schema objects = schema.fields.map fun field =>
      objects.map fun obj => cellOf field.dataType (valueOf obj field.name) := by
    apply List.map_congr_left
    intro field hfield
    rw [collected_of_nodup hnodup objects hfield, List.map_map]
    rfl
  refine ⟨hrows, hschema ▸ batch.numColumns_eq, objects, hparsed, ?_⟩
  unfold RecordBatch.rows
  rw [hcells, hcolumns, hrows, List.Forall₂.length_eq hparsed]
  exact rowsOf_map none schema.fields objects fun field obj =>
    cellOf field.dataType (valueOf obj field.name)

/-- A repeated name makes more rows than there are lines. -/
lemma nodup_of_numRows {lines : List String} {batch : RecordBatch} (hsound : Crates.TryNewSound N)
    (h : ndjsonToRecordBatch N lines schema = .ok (some batch)) (hrows : batch.numRows = lines.length) :
    schema.names.Nodup := by
  obtain ⟨objects, hparsed, hschema, hcells⟩ := converted hsound h
  have hpos : 0 < lines.length := List.length_pos_of_ne_nil (ndjsonToRecordBatch_eq_ok.mp h).1
  rw [List.nodup_iff_count_le_one]
  intro name
  by_cases hname : name ∈ schema.names
  · obtain ⟨field, hfield, rfl⟩ := List.mem_map.mp hname
    have hcount : lines.length * schema.names.count field.name = lines.length * 1 := by
      rw [← numRows_eq hparsed hcells hfield, hrows, Nat.mul_one]
    exact (Nat.eq_of_mul_eq_mul_left hpos hcount).le
  · rw [List.count_eq_zero_of_not_mem hname]
    exact Nat.zero_le 1

lemma parsed_unique {lines : List String} {objects objects' : List (Object N)}
    (h : Parsed lines objects) (h' : Parsed lines objects') : objects = objects' := by
  apply List.right_unique_forall₂' _ h h'
  intro line obj obj' hobj hobj'
  rw [hobj] at hobj'
  exact Except.ok.inj hobj'

lemma exists_parsed {lines : List String}
    (h : ∀ line ∈ lines, ∃ obj : Object N, Crates.fromStr line = .ok obj) :
    ∃ objects : List (Object N), Parsed lines objects := by
  obtain ⟨objects, hobjects⟩ := Except.mapM_total h
  exact ⟨objects, Except.mapM_eq_ok.mp hobjects⟩

/-- The rows of two batches of lines, one after the other. -/
lemma rows_append {top bottom : List String} {b₁ b₂ b : RecordBatch} (hsound : Crates.TryNewSound N)
    (h₁ : ndjsonToRecordBatch N top schema = .ok (some b₁))
    (h₂ : ndjsonToRecordBatch N bottom schema = .ok (some b₂))
    (h : ndjsonToRecordBatch N (top ++ bottom) schema = .ok (some b)) : b.rows = b₁.rows ++ b₂.rows := by
  obtain ⟨objects₁, hparsed₁, hschema₁, hcells₁⟩ := converted hsound h₁
  obtain ⟨objects₂, hparsed₂, hschema₂, hcells₂⟩ := converted hsound h₂
  obtain ⟨objects, hparsed, hschema, hcells⟩ := converted hsound h
  obtain ⟨field, hfield⟩ := exists_field hschema
  have hobjects : objects = objects₁ ++ objects₂ :=
    parsed_unique hparsed (List.rel_append hparsed₁ hparsed₂)
  have hcolumns : columnCells schema objects =
      List.zipWith (· ++ ·) (columnCells schema objects₁) (columnCells schema objects₂) := by
    unfold columnCells
    rw [hobjects, List.zipWith_map, List.zipWith_self]
    apply List.map_congr_left
    intro field _
    rw [collected_append, List.map_append]
  have hrows : b.numRows = b₁.numRows + b₂.numRows := by
    rw [numRows_eq hparsed hcells hfield, numRows_eq hparsed₁ hcells₁ hfield,
      numRows_eq hparsed₂ hcells₂ hfield, List.length_append, Nat.add_mul]
  unfold RecordBatch.rows
  rw [hcells, hcolumns, hrows, hcells₁, hcells₂]
  apply rowsOf_append
  · intro column hcolumn
    rw [← hcells₁] at hcolumn
    obtain ⟨array, harray, rfl⟩ := List.mem_map.mp hcolumn
    exact b₁.length_column array harray
  · unfold columnCells
    rw [List.length_map, List.length_map]

/-- In a returned batch, rows and lines correspond exactly when the names of the schema are
distinct; and the rows of lines put together are the rows of the parts. -/
theorem rows_aligned_iff (hsound : Crates.TryNewSound N) (schema : Schema) :
    (∀ lines batch, ndjsonToRecordBatch N lines schema = .ok (some batch) →
      (RowAligned N lines schema batch ↔ schema.names.Nodup)) ∧
    ∀ top bottom b₁ b₂ b, ndjsonToRecordBatch N top schema = .ok (some b₁) →
      ndjsonToRecordBatch N bottom schema = .ok (some b₂) →
      ndjsonToRecordBatch N (top ++ bottom) schema = .ok (some b) → b.rows = b₁.rows ++ b₂.rows := by
  constructor
  · intro lines batch h
    constructor
    · intro haligned
      exact nodup_of_numRows hsound h haligned.numRows
    · intro hnodup
      exact aligned_of_nodup hsound h hnodup
  · intro top bottom b₁ b₂ b h₁ h₂ h
    exact rows_append hsound h₁ h₂ h

def textAndNumber : Schema := ⟨[⟨"a", .utf8, true⟩, ⟨"n", .int64, true⟩]⟩

theorem rows_aligned_sample :
    (∃ batch, ndjsonToRecordBatch JsonInt [JsonInt.bothLine, JsonInt.numberLine] textAndNumber =
        .ok (some batch) ∧
      RowAligned JsonInt [JsonInt.bothLine, JsonInt.numberLine] textAndNumber batch) ∧
    ∃ b₁ b₂ b, ndjsonToRecordBatch JsonInt [JsonInt.bothLine] textAndNumber = .ok (some b₁) ∧
      ndjsonToRecordBatch JsonInt [JsonInt.numberLine] textAndNumber = .ok (some b₂) ∧
      ndjsonToRecordBatch JsonInt [JsonInt.bothLine, JsonInt.numberLine] textAndNumber = .ok (some b) ∧
      b.rows = b₁.rows ++ b₂.rows := by
  have haligned := rows_aligned_iff JsonInt.tryNewSound textAndNumber
  constructor
  · exact ⟨_, rfl, (haligned.1 _ _ rfl).mpr (by decide)⟩
  · exact ⟨_, _, _, rfl, rfl, rfl, haligned.2 [JsonInt.bothLine] [JsonInt.numberLine] _ _ _ rfl rfl rfl⟩

/-- A name used twice: one line makes two rows. -/
theorem rows_doubled_sample :
    ∃ batch, ndjsonToRecordBatch JsonInt [JsonInt.textLine]
        ⟨[⟨"a", .utf8, true⟩, ⟨"a", .utf8, true⟩]⟩ = .ok (some batch) ∧ batch.numRows = 2 ∧
      ¬RowAligned JsonInt [JsonInt.textLine] ⟨[⟨"a", .utf8, true⟩, ⟨"a", .utf8, true⟩]⟩ batch := by
  refine ⟨_, rfl, by decide, ?_⟩
  intro haligned
  exact absurd haligned.numRows (by decide)

/-! ### Convertible schemas -/

lemma arrayType_eq_self {dataType : DataType} :
    arrayType dataType = dataType ↔ dataType ≠ .largeUtf8 := by
  cases dataType <;> simp [arrayType]

lemma length_column_of_nodup {objects : List (Object N)} (hnodup : schema.names.Nodup) {field : Field}
    (hfield : field ∈ schema.fields) :
    ((collected schema objects field.name).map (cellOf field.dataType)).length = objects.length := by
  rw [collected_of_nodup hnodup objects hfield, List.length_map, List.length_map]

/-- With distinct names, all columns have one cell for each object. -/
lemma built_len {objects : List (Object N)} {arrays : List ArrayRef} (hnodup : schema.names.Nodup)
    (hbuilt : Built schema objects arrays) : ∀ array ∈ arrays, array.len = objects.length := by
  intro array harray
  have hcells : array.cells ∈ columnCells schema objects := by
    rw [← built_cells hbuilt]
    exact List.mem_map_of_mem harray
  obtain ⟨field, hfield, heq⟩ := List.mem_map.mp hcells
  rw [ArrayRef.len, ← heq, length_column_of_nodup hnodup hfield]

/-- Without a `LargeUtf8` field, the columns built pass the checks of arrow. -/
lemma valid_of_built {objects : List (Object N)} {arrays : List ArrayRef}
    (hfields : schema.fields ≠ []) (hnodup : schema.names.Nodup)
    (hnullable : ∀ field ∈ schema.fields, field.nullable = true)
    (htypes : ∀ field ∈ schema.fields, field.dataType ≠ .largeUtf8)
    (hbuilt : Built schema objects arrays) : Valid schema arrays := by
  have hne : arrays ≠ [] := by
    intro hnil
    apply hfields
    apply List.eq_nil_of_length_eq_zero
    rw [List.Forall₂.length_eq hbuilt, hnil, List.length_nil]
  have hmem : List.Forall₂ (fun field array => field ∈ schema.fields ∧
      buildArray field (collected schema objects field.name) = .ok array) schema.fields arrays :=
    (List.forall₂_and_left _ _).mpr ⟨fun field hfield => hfield, hbuilt⟩
  refine ⟨hne, ?_⟩
  rw [rowCount_eq hne (built_len hnodup hbuilt)]
  apply hmem.imp
  rintro field array ⟨hfield, hbuild⟩
  obtain ⟨hcells, htype⟩ := buildArray_eq_ok hbuild
  constructor
  · rw [htype, arrayType_eq_self]
    exact htypes field hfield
  · rw [ArrayRef.len, hcells, length_column_of_nodup hnodup hfield]
  · intro hnot
    rw [hnullable field hfield] at hnot
    cases hnot

/-- Arrow accepts no column of a `LargeUtf8` field. -/
lemma types_of_valid {objects : List (Object N)} {arrays : List ArrayRef}
    (hbuilt : Built schema objects arrays) (hvalid : Valid schema arrays) :
    ∀ field ∈ schema.fields, field.dataType ≠ .largeUtf8 := by
  intro field hfield
  obtain ⟨i, hi, rfl⟩ := List.mem_iff_getElem.mp hfield
  have hi' : i < arrays.length := List.Forall₂.length_eq hbuilt ▸ hi
  have hbuild := (List.forall₂_iff_get.mp hbuilt).2 i hi hi'
  have hfits := (List.forall₂_iff_get.mp hvalid.fits).2 i hi hi'
  rw [← arrayType_eq_self]
  exact (buildArray_eq_ok hbuild).2.symm.trans hfits.dataType

/-- Lines of JSON objects make a batch, when the columns pass the checks of arrow. -/
lemma exists_batch (hcomplete : Crates.TryNewComplete N) (hfields : schema.fields ≠ [])
    (hnodup : schema.names.Nodup) (hnullable : ∀ field ∈ schema.fields, field.nullable = true)
    (harms : ∀ field ∈ schema.fields, HasArm field.dataType)
    (htypes : ∀ field ∈ schema.fields, field.dataType ≠ .largeUtf8) {lines : List String}
    {objects : List (Object N)} (hlines : lines ≠ []) (hparsed : Parsed lines objects)
    (hfits : ∀ field ∈ schema.fields, TextFits field.dataType (objects.map (valueOf · field.name))) :
    ∃ batch, ndjsonToRecordBatch N lines schema = .ok (some batch) := by
  have hbuild : ∀ field ∈ schema.fields,
      ∃ array, buildArray field (collected schema objects field.name) = .ok array := by
    intro field hfield
    apply buildArray_of_hasArm (harms field hfield)
    rw [collected_of_nodup hnodup objects hfield]
    exact hfits field hfield
  obtain ⟨arrays, harrays⟩ := Except.mapM_total hbuild
  rw [Except.mapM_eq_ok] at harrays
  obtain ⟨batch, hbatch⟩ := hcomplete schema arrays
    (valid_of_built hfields hnodup hnullable htypes harrays)
  exact ⟨batch, ndjsonToRecordBatch_eq_ok.mpr ⟨hlines, objects, arrays, hparsed, harrays, hbatch⟩⟩

/-- The arrays of a batch hold no more text than their offsets reach. -/
lemma textFits_of_built {objects : List (Object N)} {arrays : List ArrayRef}
    (hnodup : schema.names.Nodup) (hbuilt : Built schema objects arrays) :
    ∀ field ∈ schema.fields, TextFits field.dataType (objects.map (valueOf · field.name)) := by
  intro field hfield
  obtain ⟨i, hi, rfl⟩ := List.mem_iff_getElem.mp hfield
  have hi' : i < arrays.length := List.Forall₂.length_eq hbuilt ▸ hi
  have hbuild := (List.forall₂_iff_get.mp hbuilt).2 i hi hi'
  rw [← collected_of_nodup hnodup objects hfield]
  exact textFits_of_buildArray hbuild

/-- Whether a batch is returned depends on `LargeUtf8` fields and on the size of the texts alone. -/
theorem convertible_iff (hsound : Crates.TryNewSound N) (hcomplete : Crates.TryNewComplete N)
    (schema : Schema) (hfields : schema.fields ≠ []) (hnodup : schema.names.Nodup)
    (hnullable : ∀ field ∈ schema.fields, field.nullable = true)
    (harms : ∀ field ∈ schema.fields, HasArm field.dataType) (lines : List String)
    (objects : List (Object N)) (hlines : lines ≠ []) (hparsed : Parsed lines objects) :
    (∃ batch, ndjsonToRecordBatch N lines schema = .ok (some batch)) ↔
      ∀ field ∈ schema.fields, field.dataType ≠ .largeUtf8 ∧ (field.dataType = .utf8 →
        textBytes (objects.map fun obj => stringCell (valueOf obj field.name)) ≤ maxOffset) := by
  constructor
  · rintro ⟨batch, h⟩ field hfield
    obtain ⟨-, objects', arrays, hparsed', hbuilt, hnew⟩ := ndjsonToRecordBatch_eq_ok.mp h
    obtain rfl := parsed_unique hparsed hparsed'
    obtain ⟨rfl, rfl⟩ := hsound _ _ _ hnew
    refine ⟨types_of_valid hbuilt batch.valid field hfield, ?_⟩
    intro htext
    have hfits := textFits_of_built hnodup hbuilt field hfield (by simp [htext])
    rwa [List.map_map] at hfits
  · intro h
    apply exists_batch hcomplete hfields hnodup hnullable harms (fun f hf => (h f hf).1) hlines hparsed
    intro field hfield htext
    rcases List.mem_pair.mp htext with htext | htext
    · rw [List.map_map]
      exact (h field hfield).2 htext
    · exact absurd htext (h field hfield).1

theorem convertible_sample :
    ∃ batch, ndjsonToRecordBatch JsonInt [JsonInt.bothLine, JsonInt.numberLine] textAndNumber =
      .ok (some batch) := by
  have hparsed : @Parsed JsonInt _ [JsonInt.bothLine, JsonInt.numberLine]
      [[("a", .string "x"), ("n", .number ⟨7⟩)], [("n", .string "8")]] := .cons rfl (.cons rfl .nil)
  apply (convertible_iff JsonInt.tryNewSound JsonInt.tryNewComplete textAndNumber (by decide)
    (by decide) (by decide) (by unfold HasArm; decide) _ _ (by decide) hparsed).mpr
  decide

/-- A `LargeUtf8` field: `build_array` makes a `StringArray` for it, which arrow refuses. -/
theorem large_utf8_sample :
    HasArm .largeUtf8 ∧ (∃ obj : Object JsonInt, Crates.fromStr JsonInt.textLine = .ok obj) ∧
      ndjsonToRecordBatch JsonInt [JsonInt.textLine] ⟨[⟨"a", .largeUtf8, true⟩]⟩ =
        .error (.error ("arrow error: Invalid argument error: column types must match schema types, " ++
          "expected LargeUtf8 but found Utf8 at column index 0")) := by
  refine ⟨by unfold HasArm; decide, ⟨_, rfl⟩, ?_⟩
  decide

end WpConnectorUtils.Ndjson
