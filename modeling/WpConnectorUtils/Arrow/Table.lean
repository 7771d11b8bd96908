import WpConnectorUtils.Library.Columns

/-!
# Schemas, arrays and record batches

The part of Arrow's data model that the NDJSON conversion uses. A `RecordBatch` carries what
`RecordBatch::try_new` has checked: there is a column, and every column has the type of its
field, the common length and no null the field forbids.
-/

namespace WpConnectorUtils.Arrow

/-- `f64` -/
abbrev F64 := Float.Model

inductive TimeUnit
  | second
  | millisecond
  | microsecond
  | nanosecond
  deriving DecidableEq, Repr

/-- The types the conversion tells apart; every other one is `other`. -/
inductive DataType
  | utf8
  | largeUtf8
  | int64
  | float64
  | boolean
  | timestamp (unit : TimeUnit) (timezone : Option String)
  | other (name : String)
  deriving DecidableEq, Repr

structure Field where
  name : String
  dataType : DataType
  nullable : Bool
  deriving DecidableEq, Repr

structure Schema where
  fields : List Field
  deriving DecidableEq, Repr

def Schema.names (schema : Schema) : List String := schema.fields.map Field.name

/-- The bytes of the texts of a column. -/
def textBytes (cells : List (Option String)) : Nat :=
  (cells.map fun cell => (cell.map String.utf8ByteSize).getD 0).sum

lemma textBytes_append (top bottom : List (Option String)) :
    textBytes (top ++ bottom) = textBytes top + textBytes bottom := by
  unfold textBytes
  rw [List.map_append, List.sum_append]

/-- `i32::MAX`, the largest offset into the texts of a `StringArray`. -/
def maxOffset : Nat := 2 ^ 31 - 1

/-- `StringArray`, `Int64Array`, `Float64Array`, `BooleanArray` or `TimestampNanosecondArray`. -/
inductive ArrayRef
  | string (cells : List (Option String))
  | int64 (cells : List (Option Int64))
  | float64 (cells : List (Option F64))
  | boolean (cells : List (Option Bool))
  | timestampNanosecond (cells : List (Option Int64))
  deriving DecidableEq

inductive Scalar
  | string (value : String)
  | int64 (value : Int64)
  | float64 (value : F64)
  | boolean (value : Bool)
  | timestampNanosecond (value : Int64)
  deriving DecidableEq

/-- A cell; `none` is null. -/
abbrev Cell := Option Scalar

namespace ArrayRef

def dataType : ArrayRef → DataType
  | string _ => .utf8
  | int64 _ => .int64
  | float64 _ => .float64
  | boolean _ => .boolean
  | timestampNanosecond _ => .timestamp .nanosecond none

def cells : ArrayRef → List Cell
  | string cells => cells.map (Option.map .string)
  | int64 cells => cells.map (Option.map .int64)
  | float64 cells => cells.map (Option.map .float64)
  | boolean cells => cells.map (Option.map .boolean)
  | timestampNanosecond cells => cells.map (Option.map .timestampNanosecond)

def len (array : ArrayRef) : Nat := array.cells.length

end ArrayRef

/-- `array` can be the column of `field` in a batch of `rows` rows. -/
structure Fits (rows : Nat) (field : Field) (array : ArrayRef) : Prop where
  dataType : array.dataType = field.dataType
  len : array.len = rows
  nulls : field.nullable = false → none ∉ array.cells

/-- The length of the first column. -/
def rowCount (columns : List ArrayRef) : Nat := (columns.head?.map ArrayRef.len).getD 0

lemma rowCount_eq {columns : List ArrayRef} {n : Nat} (hne : columns ≠ [])
    (h : ∀ array ∈ columns, array.len = n) : rowCount columns = n := by
  obtain ⟨array, rest, rfl⟩ := List.exists_cons_of_ne_nil hne
  exact h array List.mem_cons_self

/-- What `RecordBatch::try_new` checks. -/
structure Valid (schema : Schema) (columns : List ArrayRef) : Prop where
  nonempty : columns ≠ []
  fits : List.Forall₂ (Fits (rowCount columns)) schema.fields columns

instance (rows : Nat) (field : Field) (array : ArrayRef) : Decidable (Fits rows field array) :=
  decidable_of_iff (array.dataType = field.dataType ∧ array.len = rows ∧
      (field.nullable = false → none ∉ array.cells))
    ⟨fun h => ⟨h.1, h.2.1, h.2.2⟩, fun h => ⟨h.dataType, h.len, h.nulls⟩⟩

instance (schema : Schema) (columns : List ArrayRef) : Decidable (Valid schema columns) :=
  decidable_of_iff (columns ≠ [] ∧ List.Forall₂ (Fits (rowCount columns)) schema.fields columns)
    ⟨fun h => ⟨h.1, h.2⟩, fun h => ⟨h.nonempty, h.fits⟩⟩

structure RecordBatch where
  schema : Schema
  columns : List ArrayRef
  valid : Valid schema columns
  deriving DecidableEq

namespace RecordBatch

def numRows (batch : RecordBatch) : Nat := rowCount batch.columns

def numColumns (batch : RecordBatch) : Nat := batch.columns.length

/-- The cells of every row, in the order of the columns. -/
def rows (batch : RecordBatch) : List (List Cell) :=
  rowsOf none batch.numRows (batch.columns.map ArrayRef.cells)

lemma numColumns_eq (batch : RecordBatch) : batch.numColumns = batch.schema.fields.length :=
  batch.valid.fits.length_eq.symm

lemma length_column (batch : RecordBatch) : ∀ array ∈ batch.columns, array.len = batch.numRows := by
  intro array harray
  obtain ⟨i, hi, rfl⟩ := List.mem_iff_getElem.mp harray
  have hfits := (List.forall₂_iff_get.mp batch.valid.fits).2 i (batch.numColumns_eq ▸ hi) hi
  exact hfits.len

end RecordBatch

end WpConnectorUtils.Arrow
