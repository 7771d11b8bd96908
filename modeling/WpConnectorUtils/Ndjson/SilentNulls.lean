import WpConnectorUtils.Ndjson.Contract

/-!
# Null cells

Which values of the lines have a conversion to the type of their field, and what becomes of the
others: `build_array` turns them into nulls.
-/

namespace WpConnectorUtils.Ndjson
open Arrow

variable {N : Type} [Crates N] {schema : Schema}

/-- The values that can be converted to a type. -/
inductive Convertible : DataType → Value N → Prop
  | int64Number {number : N} {x : Int64} (h : Crates.asI64 number = some x) :
    Convertible .int64 (.number number)
  | int64String {text : String} {x : Int64} (h : parseI64 text = some x) :
    Convertible .int64 (.string text)
  | float64Number {number : N} {x : F64} (h : Crates.asF64 number = some x) :
    Convertible .float64 (.number number)
  | float64String {text : String} {x : F64} (h : parseF64 text = some x) :
    Convertible .float64 (.string text)
  | boolean (b : Bool) : Convertible .boolean (.bool b)
  | booleanString {text : String} {b : Bool} (h : parseBoolText text = some b) :
    Convertible .boolean (.string text)

/-- The types of the fields considered. -/
def Plain (dataType : DataType) : Prop := dataType ∈ [.int64, .float64, .boolean]

lemma hasArm_of_plain {dataType : DataType} (h : Plain dataType) :
    HasArm dataType ∧ dataType ≠ .largeUtf8 := by
  unfold Plain at h
  unfold HasArm
  revert dataType
  decide

/-- None of these types is a text. -/
lemma textFits_of_plain {dataType : DataType} (h : Plain dataType) (values : List (Value N)) :
    TextFits dataType values := by
  have hplain : ∀ d ∈ [DataType.int64, .float64, .boolean], d ∉ [DataType.utf8, .largeUtf8] := by
    decide
  intro htext
  exact absurd htext (hplain dataType h)

lemma convertible_of_int64Cell {value : Value N} {x : Int64} (h : int64Cell value = some x) :
    Convertible .int64 value := by
  cases value with
  | number number => exact .int64Number h
  | string text => exact .int64String h
  | _ => cases h

lemma convertible_of_float64Cell {value : Value N} {x : F64} (h : float64Cell value = some x) :
    Convertible .float64 value := by
  cases value with
  | number number => exact .float64Number h
  | string text => exact .float64String h
  | _ => cases h

lemma convertible_of_booleanCell {value : Value N} {b : Bool} (h : booleanCell value = some b) :
    Convertible .boolean value := by
  cases value with
  | bool b => exact .boolean b
  | string text => exact .booleanString h
  | _ => cases h

/-- A null cell stands for a value without a conversion. -/
lemma cellOf_eq_none {dataType : DataType} (htype : Plain dataType) {value : Value N} :
    cellOf dataType value = none ↔ ¬Convertible dataType value := by
  constructor
  · intro hcell hconv
    cases hconv with
    | int64Number h => simp [cellOf, int64Cell, h] at hcell
    | int64String h => simp [cellOf, int64Cell, h] at hcell
    | float64Number h => simp [cellOf, float64Cell, h] at hcell
    | float64String h => simp [cellOf, float64Cell, h] at hcell
    | boolean b => simp [cellOf, booleanCell] at hcell
    | booleanString h => simp [cellOf, booleanCell, h] at hcell
  · intro hconv
    by_contra hcell
    obtain ⟨scalar, hscalar⟩ := Option.ne_none_iff_exists'.mp hcell
    unfold Plain at htype
    simp only [List.mem_cons, List.not_mem_nil, or_false] at htype
    rcases htype with rfl | rfl | rfl
    · obtain ⟨x, hx, -⟩ := Option.map_eq_some_iff.mp hscalar
      exact hconv (convertible_of_int64Cell hx)
    · obtain ⟨x, hx, -⟩ := Option.map_eq_some_iff.mp hscalar
      exact hconv (convertible_of_float64Cell hx)
    · obtain ⟨b, hb, -⟩ := Option.map_eq_some_iff.mp hscalar
      exact hconv (convertible_of_booleanCell hb)

/-! ### Values without a conversion -/

/-- The object lacks the field or holds null for it. -/
def Missing (obj : Object N) (name : String) : Prop :=
  obj.lookup name = none ∨ obj.lookup name = some .null

/-- Some line has a value, not null, that cannot be converted to the type of its field. -/
def Unconvertible (N : Type) [Crates N] (lines : List String) (schema : Schema) : Prop :=
  ∃ line ∈ lines, ∃ obj : Object N, Crates.fromStr line = .ok obj ∧
    ∃ field ∈ schema.fields, ∃ value, obj.lookup field.name = some value ∧ value ≠ .null ∧
      ¬Convertible field.dataType value

/-- Such a value is an error. -/
def RejectsUnconvertible (N : Type) [Crates N] (lines : List String) (schema : Schema) : Prop :=
  Unconvertible N lines schema →
    ∃ message, ndjsonToRecordBatch N lines schema = .error (.error message)

/-- The cell of row `i` and column `j`. -/
def cellAt (batch : RecordBatch) (i j : Nat) : Option Cell :=
  batch.rows[i]?.bind fun row => row[j]?

/-- In a returned batch a cell is null only where the line lacks the field or holds null. -/
def NullsAreMissing (N : Type) [Crates N] (lines : List String) (schema : Schema) : Prop :=
  ∀ batch, ndjsonToRecordBatch N lines schema = .ok (some batch) →
    ∀ (i j : Nat) (line : String) (field : Field) (obj : Object N), lines[i]? = some line →
      schema.fields[j]? = some field → Crates.fromStr line = .ok obj →
      cellAt batch i j = some none → Missing obj field.name

/-- With distinct names, every cell of a batch is the conversion of the value of its line. -/
lemma cellAt_eq {lines : List String} {batch : RecordBatch} (hsound : Crates.TryNewSound N)
    (hnodup : schema.names.Nodup) (h : ndjsonToRecordBatch N lines schema = .ok (some batch))
    {i j : Nat} {line : String} {field : Field} {obj : Object N} (hline : lines[i]? = some line)
    (hfield : schema.fields[j]? = some field) (hobj : Crates.fromStr line = .ok obj) :
    cellAt batch i j = some (cellOf field.dataType (valueOf obj field.name)) := by
  obtain ⟨objects, hparsed, hrows⟩ := (aligned_of_nodup hsound h hnodup).rows
  have hobject : objects[i]? = some obj := by
    obtain ⟨hi, rfl⟩ := List.getElem?_eq_some_iff.mp hline
    have hi' : i < objects.length := List.Forall₂.length_eq hparsed ▸ hi
    have hget := (List.forall₂_iff_get.mp hparsed).2 i hi hi'
    rw [List.getElem?_eq_some_iff]
    exact ⟨hi', Except.ok.inj (hget.symm.trans hobj)⟩
  unfold cellAt
  rw [hrows, List.getElem?_map, hobject, Option.map_some, Option.bind_some, List.getElem?_map, hfield,
    Option.map_some]

/-- A value without a conversion becomes a null cell of the batch. -/
lemma cellAt_of_unconvertible {lines : List String} {batch : RecordBatch}
    (hsound : Crates.TryNewSound N) (hnodup : schema.names.Nodup)
    (htypes : ∀ field ∈ schema.fields, Plain field.dataType)
    (h : ndjsonToRecordBatch N lines schema = .ok (some batch)) (hbad : Unconvertible N lines schema) :
    ∃ (i j : Nat) (line : String) (field : Field) (obj : Object N), lines[i]? = some line ∧
      schema.fields[j]? = some field ∧ Crates.fromStr line = .ok obj ∧
      cellAt batch i j = some none ∧ ¬Missing obj field.name := by
  obtain ⟨line, hline, obj, hobj, field, hfield, value, hvalue, hne, hconv⟩ := hbad
  obtain ⟨i, hi⟩ := List.mem_iff_getElem?.mp hline
  obtain ⟨j, hj⟩ := List.mem_iff_getElem?.mp hfield
  have hnull : cellOf field.dataType (valueOf obj field.name) = none := by
    rw [cellOf_eq_none (htypes field hfield), valueOf, hvalue]
    exact hconv
  refine ⟨i, j, line, field, obj, hi, hj, hobj, ?_, ?_⟩
  · rw [cellAt_eq hsound hnodup h hi hj hobj, hnull]
  · rintro (hnone | hsome)
    · rw [hvalue] at hnone
      cases hnone
    · rw [hvalue] at hsome
      exact hne (Option.some.inj hsome)

/-- A null cell that the line does not explain comes from a value without a conversion. -/
lemma unconvertible_of_cellAt {lines : List String} {batch : RecordBatch}
    (hsound : Crates.TryNewSound N) (hnodup : schema.names.Nodup)
    (htypes : ∀ field ∈ schema.fields, Plain field.dataType)
    (h : ndjsonToRecordBatch N lines schema = .ok (some batch)) {i j : Nat} {line : String}
    {field : Field} {obj : Object N} (hline : lines[i]? = some line)
    (hfield : schema.fields[j]? = some field) (hobj : Crates.fromStr line = .ok obj)
    (hcell : cellAt batch i j = some none) (hmissing : ¬Missing obj field.name) :
    Unconvertible N lines schema := by
  have hmem : field ∈ schema.fields := List.mem_of_getElem? hfield
  rw [cellAt_eq hsound hnodup h hline hfield hobj, Option.some_inj,
    cellOf_eq_none (htypes field hmem)] at hcell
  cases hvalue : obj.lookup field.name with
  | none => exact absurd (.inl hvalue) hmissing
  | some value =>
    rw [valueOf, hvalue] at hcell
    refine ⟨line, List.mem_of_getElem? hline, obj, hobj, field, hmem, value, hvalue, ?_, hcell⟩
    rintro rfl
    exact hmissing (.inr hvalue)

/-- Both forms of the contract hold exactly when every value has a conversion: the lines are never
rejected for a value, which is null in the batch instead. -/
theorem no_silent_nulls_iff (hsound : Crates.TryNewSound N) (hcomplete : Crates.TryNewComplete N)
    (schema : Schema) (hnodup : schema.names.Nodup)
    (hnullable : ∀ field ∈ schema.fields, field.nullable = true)
    (htypes : ∀ field ∈ schema.fields, Plain field.dataType) (lines : List String)
    (hlines : lines ≠ []) (hjson : ∀ line ∈ lines, ∃ obj : Object N, Crates.fromStr line = .ok obj) :
    (RejectsUnconvertible N lines schema ↔ ¬Unconvertible N lines schema) ∧
      (NullsAreMissing N lines schema ↔ ¬Unconvertible N lines schema) := by
  obtain ⟨objects, hparsed⟩ := exists_parsed hjson
  have hbatch : Unconvertible N lines schema →
      ∃ batch, ndjsonToRecordBatch N lines schema = .ok (some batch) := by
    rintro ⟨_, _, _, _, field, hfield, _⟩
    exact exists_batch hcomplete (List.ne_nil_of_mem hfield) hnodup hnullable
      (fun field hfield => (hasArm_of_plain (htypes field hfield)).1)
      (fun field hfield => (hasArm_of_plain (htypes field hfield)).2) hlines hparsed
      (fun field hfield => textFits_of_plain (htypes field hfield) _)
  constructor
  · constructor
    · intro hrejects hbad
      obtain ⟨batch, h⟩ := hbatch hbad
      obtain ⟨message, herror⟩ := hrejects hbad
      rw [h] at herror
      cases herror
    · intro hnot hbad
      exact absurd hbad hnot
  · constructor
    · intro hnulls hbad
      obtain ⟨batch, h⟩ := hbatch hbad
      obtain ⟨i, j, line, field, obj, hline, hfield, hobj, hcell, hmissing⟩ :=
        cellAt_of_unconvertible hsound hnodup htypes h hbad
      exact hmissing (hnulls batch h i j line field obj hline hfield hobj hcell)
    · intro hnot batch h i j line field obj hline hfield hobj hcell
      by_contra hmissing
      exact hnot (unconvertible_of_cellAt hsound hnodup htypes h hline hfield hobj hcell hmissing)

/-! ### Samples -/

def oneInt64 (name : String) : Schema := ⟨[⟨name, .int64, true⟩]⟩

/-- A number and a text that is a number, in an `Int64` column. -/
theorem no_silent_nulls_sample :
    NullsAreMissing JsonInt [JsonInt.bothLine, JsonInt.numberLine] (oneInt64 "n") := by
  have hjson : ∀ line ∈ [JsonInt.bothLine, JsonInt.numberLine],
      ∃ obj : Object JsonInt, Crates.fromStr line = .ok obj := by
    intro line hline
    rcases List.mem_pair.mp hline with rfl | rfl
    · exact ⟨_, rfl⟩
    · exact ⟨_, rfl⟩
  apply (no_silent_nulls_iff JsonInt.tryNewSound JsonInt.tryNewComplete (oneInt64 "n") (by decide)
    (by decide) (by unfold Plain; decide) _ (by decide) hjson).2.mpr
  rintro ⟨line, hline, obj, hobj, field, hfield, value, hvalue, -, hconv⟩
  obtain rfl := List.mem_singleton.mp hfield
  rcases List.mem_pair.mp hline with rfl | rfl
  · cases hobj
    cases hvalue
    exact hconv (.int64Number rfl)
  · cases hobj
    cases hvalue
    exact hconv (.int64String (x := 8) (by decide))

/-- A text in an `Int64` column: no error, and a null cell where the line holds a value. -/
theorem silent_null_sample :
    Unconvertible JsonInt [JsonInt.textLine] (oneInt64 "a") ∧
      ¬RejectsUnconvertible JsonInt [JsonInt.textLine] (oneInt64 "a") ∧
      ¬NullsAreMissing JsonInt [JsonInt.textLine] (oneInt64 "a") := by
  have hconv : ¬Convertible .int64 (.string "x" : Value JsonInt) := by
    rintro (_ | h)
    cases h
  have hbad : Unconvertible JsonInt [JsonInt.textLine] (oneInt64 "a") :=
    ⟨_, List.mem_cons_self, _, rfl, _, List.mem_cons_self, .string "x", rfl, nofun, hconv⟩
  refine ⟨hbad, ?_, ?_⟩
  · intro hrejects
    obtain ⟨message, herror⟩ := hrejects hbad
    cases herror
  · intro hnulls
    rcases hnulls _ rfl 0 0 _ _ _ rfl rfl rfl rfl with h | h
    · cases h
    · cases h

end WpConnectorUtils.Ndjson
