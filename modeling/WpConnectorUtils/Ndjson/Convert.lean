import WpConnectorUtils.Library.Fallible
import WpConnectorUtils.Ndjson.Scalars

/-!
# NDJSON to record batches

`ndjson_to_record_batch`. JSON, dates and the checks of `RecordBatch::try_new` belong to other
crates: `Crates N` supplies them for JSON numbers `N`. A call that would panic, on `unwrap` or in
arrow's string builder, is a `Failure` of its own.
-/

namespace WpConnectorUtils.Ndjson
open Arrow

/-! ### Other crates -/

/-- `serde_json::Value` -/
inductive Value (N : Type)
  | null
  | bool (value : Bool)
  | number (value : N)
  | string (value : String)
  | array (items : List (Value N))
  | object (members : List (String × Value N))

/-- `serde_json::Map` -/
abbrev Object (N : Type) := List (String × Value N)

/-- The functions of `serde_json`, `chrono` and `arrow` that the conversion calls. -/
class Crates (N : Type) where
  DateTime : Type
  NaiveDateTime : Type
  fromStr : String → Except String (Object N) -- `serde_json::from_str`
  toString : Value N → String -- `Value::to_string`
  asI64 : N → Option Int64
  asF64 : N → Option F64
  parseFromRfc3339 : String → Option DateTime
  parseFromStr : String → String → Option NaiveDateTime
  andUtc : NaiveDateTime → DateTime -- `and_utc().fixed_offset()`
  timestampNanosOpt : DateTime → Option Int64
  debug : DataType → String -- `{other:?}`
  tryNew : Schema → List ArrayRef → Except String RecordBatch -- `RecordBatch::try_new`

/-- `RecordBatch::try_new` returns the batch it was asked for. -/
def Crates.TryNewSound (N : Type) [Crates N] : Prop :=
  ∀ schema columns batch, tryNew N schema columns = .ok batch →
    batch.schema = schema ∧ batch.columns = columns

/-- It refuses nothing that passes its checks. -/
def Crates.TryNewComplete (N : Type) [Crates N] : Prop :=
  ∀ schema columns, Valid schema columns → ∃ batch, tryNew N schema columns = .ok batch

/-- An `Err` with its message, or a panic. -/
inductive Failure
  | error (message : String)
  | unwrapNone
  | offsetOverflow -- `expect("byte array offset overflow")`
  deriving DecidableEq, Repr

/-- `Option::unwrap` -/
def unwrap {α : Type} (x : Option α) : Except Failure α :=
  match x with
  | some a => .ok a
  | none => .error .unwrapNone

/-! ### The conversion of one value -/

section Values

variable {N : Type} [Crates N]

/-- The instant of an RFC 3339 or `%Y-%m-%d %H:%M:%S` text. -/
def dateNanos (N : Type) [Crates N] (text : String) : Option Int64 :=
  ((Crates.parseFromRfc3339 (N := N) text).or
    ((Crates.parseFromStr text "%Y-%m-%d %H:%M:%S").map Crates.andUtc)).bind Crates.timestampNanosOpt

def timestampValueNanos (value : Value N) : Option Int64 :=
  match value with
  | .number number =>
    ((Crates.asI64 number).bind epochIntNanos).or ((Crates.asF64 number).bind epochFloatNanos)
  | .string text =>
    match dateNanos N text with
    | some nanos => some nanos
    | none => ((parseI64 text).bind epochIntNanos).or ((parseF64 text).bind epochFloatNanos)
  | _ => none

def stringCell (value : Value N) : Option String :=
  match value with
  | .string s => some s
  | .null => none
  | other => some (Crates.toString other)

def int64Cell (value : Value N) : Option Int64 :=
  match value with
  | .number n => Crates.asI64 n
  | .string s => parseI64 s
  | _ => none

def float64Cell (value : Value N) : Option F64 :=
  match value with
  | .number n => Crates.asF64 n
  | .string s => parseF64 s
  | _ => none

def booleanCell (value : Value N) : Option Bool :=
  match value with
  | .bool b => some b
  | .string s => parseBoolText s
  | _ => none

/-- `collect` into a `StringArray`. -/
def collectStrings (cells : List (Option String)) : Except Failure ArrayRef :=
  if textBytes cells ≤ maxOffset then .ok (.string cells) else .error .offsetOverflow

def buildArray (field : Field) (values : List (Value N)) : Except Failure ArrayRef :=
  match field.dataType with
  | .utf8 | .largeUtf8 => collectStrings (values.map stringCell)
  | .int64 => .ok (.int64 (values.map int64Cell))
  | .float64 => .ok (.float64 (values.map float64Cell))
  | .boolean => .ok (.boolean (values.map booleanCell))
  | .timestamp .nanosecond none => .ok (.timestampNanosecond (values.map timestampValueNanos))
  | other => .error (.error s!"unsupported Arrow type for NDJSON: {Crates.debug N other}")

/-- The cell a value becomes in a column of type `dataType`. -/
def cellOf (dataType : DataType) (value : Value N) : Cell :=
  match dataType with
  | .utf8 | .largeUtf8 => (stringCell value).map .string
  | .int64 => (int64Cell value).map .int64
  | .float64 => (float64Cell value).map .float64
  | .boolean => (booleanCell value).map .boolean
  | .timestamp .nanosecond none => (timestampValueNanos value).map .timestampNanosecond
  | _ => none

/-- The types with an arm in `build_array`. -/
def HasArm (dataType : DataType) : Prop :=
  dataType ∈ [.utf8, .largeUtf8, .int64, .float64, .boolean, .timestamp .nanosecond none]

/-- A `StringArray` can hold the texts of the values, where the arm of the type collects them. -/
def TextFits (dataType : DataType) (values : List (Value N)) : Prop :=
  dataType ∈ [.utf8, .largeUtf8] → textBytes (values.map stringCell) ≤ maxOffset

/-- The type of the array that the arm of a type builds. -/
def arrayType : DataType → DataType
  | .largeUtf8 => .utf8
  | dataType => dataType

end Values

/-! ### The conversion of the lines -/

section Lines

variable (N : Type) [Crates N]

/-- The value of a field in the object of a line. -/
def valueOf {N : Type} (obj : Object N) (name : String) : Value N := (obj.lookup name).getD .null

/-- `columns.get_mut(name).unwrap().push(val)` -/
def pushValue {N : Type} (columns : KeyedColumns String (Value N)) (name : String) (val : Value N) :
    Except Failure (KeyedColumns String (Value N)) :=
  unwrap (columns.push? name val)

/-- One turn of the loop over the lines. -/
def readLine (schema : Schema) (columns : KeyedColumns String (Value N)) (line : String) :
    Except Failure (KeyedColumns String (Value N)) := do
  let obj ← (Crates.fromStr line).mapError fun e => .error s!"invalid JSON: {e}"
  schema.fields.foldlM (fun columns field => pushValue columns field.name (valueOf obj field.name))
    columns

def ndjsonToRecordBatch (lines : List String) (schema : Schema) :
    Except Failure (Option RecordBatch) :=
  if lines.isEmpty then .ok none
  else do
    let columns ← lines.foldlM (readLine N schema) (KeyedColumns.start schema.names)
    let arrays ← schema.fields.mapM fun field => do buildArray field (← unwrap (columns field.name))
    let batch ← (Crates.tryNew N schema arrays).mapError fun e => .error s!"arrow error: {e}"
    return some batch

end Lines

/-! ### What the conversion returns -/

section Arrays

variable {N : Type} [Crates N]

lemma buildArray_of_text {field : Field} (h : field.dataType ∈ [.utf8, .largeUtf8])
    (values : List (Value N)) : buildArray field values = collectStrings (values.map stringCell) := by
  unfold buildArray
  rcases List.mem_pair.mp h with h | h <;> rw [h]

lemma collectStrings_eq_ok {cells : List (Option String)} {array : ArrayRef} :
    collectStrings cells = .ok array ↔ textBytes cells ≤ maxOffset ∧ array = .string cells := by
  unfold collectStrings
  split <;> simp [*, eq_comm]

lemma buildArray_eq_ok {field : Field} {values : List (Value N)} {array : ArrayRef}
    (h : buildArray field values = .ok array) :
    array.cells = values.map (cellOf field.dataType) ∧ array.dataType = arrayType field.dataType := by
  unfold buildArray at h
  split at h
  case h_7 => cases h
  case h_1 htype | h_2 htype =>
    obtain ⟨-, rfl⟩ := collectStrings_eq_ok.mp h
    rw [htype]
    constructor
    · simp [ArrayRef.cells, cellOf, Function.comp_def]
    · rfl
  all_goals
    rename_i htype
    cases h
    rw [htype]
    constructor
    · simp [ArrayRef.cells, cellOf, Function.comp_def]
    · rfl

/-- The array of a text column holds no more text than its offsets reach. -/
lemma textFits_of_buildArray {field : Field} {values : List (Value N)} {array : ArrayRef}
    (h : buildArray field values = .ok array) : TextFits field.dataType values := by
  intro htext
  rw [buildArray_of_text htext, collectStrings_eq_ok] at h
  exact h.1

lemma buildArray_of_hasArm {field : Field} (h : HasArm field.dataType) {values : List (Value N)}
    (hfits : TextFits field.dataType values) : ∃ array, buildArray field values = .ok array := by
  by_cases htext : field.dataType ∈ [.utf8, .largeUtf8]
  · exact ⟨_, (buildArray_of_text htext values).trans (collectStrings_eq_ok.mpr ⟨hfits htext, rfl⟩)⟩
  · unfold HasArm at h
    unfold buildArray
    simp only [List.mem_cons, List.not_mem_nil, or_false, not_or] at h htext
    rcases h with h | h | h | h | h | h
    · exact absurd h htext.1
    · exact absurd h htext.2
    all_goals
      rw [h]
      exact ⟨_, rfl⟩

end Arrays

section Spec

variable {N : Type} {schema : Schema}

lemma pushValue_eq {columns : KeyedColumns String (Value N)} {name : String}
    (h : (columns name).isSome) (val : Value N) :
    pushValue columns name val = .ok (columns.push name val) := by
  unfold pushValue
  rw [KeyedColumns.push?_eq_some h]
  rfl

/-- With a column for every field, the loop over the fields adds one row. -/
lemma pushFields_eq {columns : KeyedColumns String (Value N)} (hcovers : columns.Covers schema.names)
    (obj : Object N) :
    schema.fields.foldlM (fun columns field => pushValue columns field.name (valueOf obj field.name))
      columns = .ok (columns.pushRow schema.names (valueOf obj)) := by
  have hstep : ∀ m : KeyedColumns String (Value N), m.Covers schema.names → ∀ field ∈ schema.fields,
      pushValue m field.name (valueOf obj field.name) =
        .ok (m.push field.name (valueOf obj field.name)) ∧
      (m.push field.name (valueOf obj field.name)).Covers schema.names := by
    intro m hm field hfield
    have hname : field.name ∈ schema.names := List.mem_map_of_mem hfield
    exact ⟨pushValue_eq (hm _ hname) _, KeyedColumns.covers_push hm _ _⟩
  rw [(Except.foldlM_eq_foldl hstep hcovers).1, KeyedColumns.pushRow, Schema.names, List.foldl_map]

variable [Crates N]

/-- The objects of the lines. -/
def Parsed (lines : List String) (objects : List (Object N)) : Prop :=
  List.Forall₂ (fun line obj => Crates.fromStr line = .ok obj) lines objects

/-- A line adds the row of its object. -/
lemma readLine_eq_ok {columns columns' : KeyedColumns String (Value N)}
    (hcovers : columns.Covers schema.names) {line : String} :
    readLine N schema columns line = .ok columns' ↔
      ∃ obj, Crates.fromStr line = .ok obj ∧ columns.pushRow schema.names (valueOf obj) = columns' := by
  unfold readLine
  simp only [Except.bind_eq_ok, Except.mapError_eq_ok, pushFields_eq hcovers, Except.ok.injEq]

/-- The lines add the rows of their objects, in order. -/
lemma readLines_eq_ok {lines : List String} {columns columns' : KeyedColumns String (Value N)}
    (hcovers : columns.Covers schema.names) :
    lines.foldlM (readLine N schema) columns = .ok columns' ↔
      ∃ objects : List (Object N), Parsed lines objects ∧
        (objects.map valueOf).foldl (KeyedColumns.pushRow schema.names) columns = columns' := by
  unfold Parsed
  induction lines generalizing columns with
  | nil => simp [pure, Except.pure]
  | cons line lines ih =>
    simp only [Except.foldlM_cons_eq_ok, readLine_eq_ok hcovers, List.forall₂_cons_left_iff]
    constructor
    · rintro ⟨_, ⟨obj, hobj, rfl⟩, hrest⟩
      obtain ⟨objects, hobjects, rfl⟩ := (ih (KeyedColumns.covers_pushRow hcovers _)).mp hrest
      exact ⟨obj :: objects, ⟨obj, objects, hobj, hobjects, rfl⟩, rfl⟩
    · rintro ⟨_, ⟨obj, objects, hobj, hobjects, rfl⟩, rfl⟩
      refine ⟨_, ⟨obj, hobj, rfl⟩, ?_⟩
      exact (ih (KeyedColumns.covers_pushRow hcovers _)).mpr ⟨objects, hobjects, rfl⟩

/-- The values collected for a field: each object's value, as often as the schema names it. -/
def collected (schema : Schema) (objects : List (Object N)) (name : String) : List (Value N) :=
  objects.flatMap fun obj => List.replicate (schema.names.count name) (valueOf obj name)

/-- The columns that the arrays are built from. -/
def Built (schema : Schema) (objects : List (Object N)) (arrays : List ArrayRef) : Prop :=
  List.Forall₂ (fun field array => buildArray field (collected schema objects field.name) = .ok array)
    schema.fields arrays

/-- A batch is returned when the lines parse, the arrays get built and arrow accepts them. -/
theorem ndjsonToRecordBatch_eq_ok {lines : List String} {batch : RecordBatch} :
    ndjsonToRecordBatch N lines schema = .ok (some batch) ↔ lines ≠ [] ∧
      ∃ (objects : List (Object N)) (arrays : List ArrayRef), Parsed lines objects ∧
        Built schema objects arrays ∧ Crates.tryNew N schema arrays = .ok batch := by
  have harrays : ∀ objects : List (Object N),
      (schema.fields.mapM fun field => do
        buildArray field (← unwrap ((objects.map valueOf).foldl (KeyedColumns.pushRow schema.names)
          (KeyedColumns.start schema.names) field.name))) =
      schema.fields.mapM fun field => buildArray field (collected schema objects field.name) := by
    intro objects
    apply Except.mapM_congr
    intro field hfield
    have hname : field.name ∈ schema.names := List.mem_map_of_mem hfield
    rw [KeyedColumns.foldl_pushRow_apply, KeyedColumns.start_apply, if_pos hname, List.flatMap_map]
    rfl
  unfold ndjsonToRecordBatch Built
  by_cases hlines : lines = []
  · simp [hlines]
  rw [if_neg (by simpa using hlines)]
  simp only [Except.bind_eq_ok, Except.mapError_eq_ok, Except.pure_eq_ok, Option.some.injEq,
    readLines_eq_ok (KeyedColumns.covers_start _), ← Except.mapM_eq_ok]
  constructor
  · rintro ⟨_, ⟨objects, hobjects, rfl⟩, arrays, hbuilt, _, hbatch, rfl⟩
    exact ⟨hlines, objects, arrays, hobjects, (harrays objects).symm.trans hbuilt, hbatch⟩
  · rintro ⟨_, objects, arrays, hobjects, hbuilt, hbatch⟩
    exact ⟨_, ⟨objects, hobjects, rfl⟩, arrays, (harrays objects).trans hbuilt, batch, hbatch, rfl⟩

end Spec

end WpConnectorUtils.Ndjson
