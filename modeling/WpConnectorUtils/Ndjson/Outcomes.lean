import WpConnectorUtils.Ndjson.Contract

/-!
# The outcomes of the conversion

Every result of `ndjson_to_record_batch` and where it comes from: the first line that is no JSON
object, then the first field that `build_array` has no arm for or whose texts do not fit in its
array, then arrow, and only then the batch. Dropping fields from a schema drops columns from the
batch and changes nothing else.
-/

namespace WpConnectorUtils.Ndjson
open Arrow

variable {N : Type} [Crates N] {schema : Schema}

/-! ### The conversion in three passes -/

/-- The object of a line, or the error of the conversion. -/
def parseObject (N : Type) [Crates N] (line : String) : Except Failure (Object N) :=
  (Crates.fromStr line).mapError fun e => .error s!"invalid JSON: {e}"

/-- Parse all lines, then build all columns, then ask arrow for the batch. -/
lemma ndjsonToRecordBatch_eq {lines : List String} (hlines : lines ≠ []) :
    ndjsonToRecordBatch N lines schema = (do
      let objects ← lines.mapM (parseObject N)
      let arrays ← schema.fields.mapM fun field =>
        buildArray field (collected schema objects field.name)
      let batch ← (Crates.tryNew N schema arrays).mapError fun e => .error s!"arrow error: {e}"
      return some batch) := by
  have hread : lines.foldlM (readLine N schema) (KeyedColumns.start schema.names) =
      lines.mapM (parseObject N) >>= fun objects => .ok (objects.foldl
        (fun columns obj => columns.pushRow schema.names (valueOf obj))
        (KeyedColumns.start schema.names)) := by
    apply Except.foldlM_bind_eq (f := parseObject N) (I := fun m => m.Covers schema.names)
    · intro columns hcovers obj
      exact ⟨pushFields_eq hcovers obj, KeyedColumns.covers_pushRow hcovers _⟩
    · exact KeyedColumns.covers_start _
  unfold ndjsonToRecordBatch
  rw [if_neg (by simpa using hlines), hread]
  cases lines.mapM (parseObject N) with
  | error e => rfl
  | ok objects =>
    have harrays : (schema.fields.mapM fun field => do
          buildArray field (← unwrap (objects.foldl
            (fun columns obj => columns.pushRow schema.names (valueOf obj))
            (KeyedColumns.start schema.names) field.name))) =
        schema.fields.mapM fun field => buildArray field (collected schema objects field.name) := by
      apply Except.mapM_congr
      intro field hfield
      have hname : field.name ∈ schema.names := List.mem_map_of_mem hfield
      have hcolumn := KeyedColumns.foldl_pushRow_apply schema.names (objects.map valueOf)
        (KeyedColumns.start schema.names) field.name
      rw [List.foldl_map] at hcolumn
      rw [hcolumn, KeyedColumns.start_apply, if_pos hname, List.flatMap_map]
      rfl
    simp only [bind, Except.bind] at harrays ⊢
    rw [harrays]

lemma buildArray_of_not_hasArm {field : Field} (h : ¬HasArm field.dataType) (values : List (Value N)) :
    buildArray field values =
      .error (.error s!"unsupported Arrow type for NDJSON: {Crates.debug N field.dataType}") := by
  unfold HasArm at h
  simp only [List.mem_cons, List.not_mem_nil, or_false, not_or] at h
  obtain ⟨hutf8, hlarge, hint, hfloat, hbool, htime⟩ := h
  unfold buildArray
  split
  case h_7 => rfl
  all_goals
    rename_i htype
    first
      | exact absurd htype hutf8
      | exact absurd htype hlarge
      | exact absurd htype hint
      | exact absurd htype hfloat
      | exact absurd htype hbool
      | exact absurd htype htime

lemma buildArray_of_not_textFits {field : Field} {values : List (Value N)}
    (h : ¬TextFits field.dataType values) : buildArray field values = .error .offsetOverflow := by
  obtain ⟨htext, hmore⟩ := Classical.not_imp.mp h
  rw [buildArray_of_text htext, collectStrings, if_neg hmore]

lemma buildArray_eq_error {field : Field} {values : List (Value N)} {failure : Failure} :
    buildArray field values = .error failure ↔
      (¬HasArm field.dataType ∧
        failure = .error s!"unsupported Arrow type for NDJSON: {Crates.debug N field.dataType}") ∨
      (¬TextFits field.dataType values ∧ failure = .offsetOverflow) := by
  constructor
  · intro h
    by_cases harm : HasArm field.dataType
    · by_cases hfits : TextFits field.dataType values
      · obtain ⟨array, harray⟩ := buildArray_of_hasArm harm hfits
        rw [harray] at h
        cases h
      · rw [buildArray_of_not_textFits hfits] at h
        exact .inr ⟨hfits, (Except.error.inj h).symm⟩
    · rw [buildArray_of_not_hasArm harm] at h
      exact .inl ⟨harm, (Except.error.inj h).symm⟩
  · rintro (⟨harm, rfl⟩ | ⟨hfits, rfl⟩)
    · exact buildArray_of_not_hasArm harm values
    · exact buildArray_of_not_textFits hfits

lemma hasArm_of_buildArray {field : Field} {values : List (Value N)} {array : ArrayRef}
    (h : buildArray field values = .ok array) : HasArm field.dataType := by
  by_contra harm
  rw [buildArray_of_not_hasArm harm] at h
  cases h

/-! ### Every result -/

/-- The array of a field can be built from the objects. -/
def Collects (schema : Schema) (objects : List (Object N)) (field : Field) : Prop :=
  HasArm field.dataType ∧ TextFits field.dataType (collected schema objects field.name)

/-- What the conversion of the lines returns. -/
inductive Outcome (N : Type) [Crates N] (lines : List String) (schema : Schema) :
    Except Failure (Option RecordBatch) → Prop
  | empty (hlines : lines = []) : Outcome N lines schema (.ok none)
  | invalid {read rest : List String} {line e : String} {objects : List (Object N)}
      (hlines : lines = read ++ line :: rest) (hread : Parsed read objects)
      (hline : (Crates.fromStr line : Except String (Object N)) = .error e) :
      Outcome N lines schema (.error (.error s!"invalid JSON: {e}"))
  | unsupported {objects : List (Object N)} {before after : List Field} {field : Field}
      (hlines : lines ≠ []) (hparsed : Parsed lines objects)
      (hfields : schema.fields = before ++ field :: after)
      (hbefore : ∀ f ∈ before, Collects schema objects f) (hfield : ¬HasArm field.dataType) :
      Outcome N lines schema (.error (.error
        s!"unsupported Arrow type for NDJSON: {Crates.debug N field.dataType}"))
  | overflow {objects : List (Object N)} {before after : List Field} {field : Field}
      (hlines : lines ≠ []) (hparsed : Parsed lines objects)
      (hfields : schema.fields = before ++ field :: after)
      (hbefore : ∀ f ∈ before, Collects schema objects f)
      (hfield : field.dataType ∈ [.utf8, .largeUtf8])
      (hmore : maxOffset < textBytes ((collected schema objects field.name).map stringCell)) :
      Outcome N lines schema (.error .offsetOverflow)
  | refused {objects : List (Object N)} {arrays : List ArrayRef} {e : String}
      (hlines : lines ≠ []) (hparsed : Parsed lines objects) (hbuilt : Built schema objects arrays)
      (hnew : Crates.tryNew N schema arrays = .error e) :
      Outcome N lines schema (.error (.error s!"arrow error: {e}"))
  | batch {objects : List (Object N)} {arrays : List ArrayRef} {batch : RecordBatch}
      (hlines : lines ≠ []) (hparsed : Parsed lines objects) (hbuilt : Built schema objects arrays)
      (hnew : Crates.tryNew N schema arrays = .ok batch) :
      Outcome N lines schema (.ok (some batch))

lemma parseObject_eq_error {line : String} {failure : Failure} :
    parseObject N line = .error failure ↔
      ∃ e, (Crates.fromStr line : Except String (Object N)) = .error e ∧
        failure = .error s!"invalid JSON: {e}" := by
  unfold parseObject
  cases (Crates.fromStr line : Except String (Object N)) <;> simp [Except.mapError, eq_comm]

lemma parseObjects_eq_ok {lines : List String} {objects : List (Object N)} :
    lines.mapM (parseObject N) = .ok objects ↔ Parsed lines objects := by
  unfold parseObject Parsed
  simp only [Except.mapM_eq_ok, Except.mapError_eq_ok]

/-- The fields before one whose array cannot be built do not stop the traversal. -/
lemma buildArrays_eq_error (objects : List (Object N)) {failure : Failure} :
    (schema.fields.mapM fun field => buildArray field (collected schema objects field.name)) =
        .error failure ↔
      ∃ before field after, schema.fields = before ++ field :: after ∧
        (∀ f ∈ before, Collects schema objects f) ∧
        buildArray field (collected schema objects field.name) = .error failure := by
  rw [Except.mapM_eq_error]
  constructor
  · rintro ⟨before, field, after, arrays, hfields, hbefore, hfield⟩
    rw [Except.mapM_eq_ok] at hbefore
    refine ⟨before, field, after, hfields, ?_, hfield⟩
    intro f hf
    obtain ⟨i, hi, rfl⟩ := List.mem_iff_getElem.mp hf
    have hbuild := (List.forall₂_iff_get.mp hbefore).2 i hi (hbefore.length_eq ▸ hi)
    exact ⟨hasArm_of_buildArray hbuild, textFits_of_buildArray hbuild⟩
  · rintro ⟨before, field, after, hfields, hbefore, hfield⟩
    obtain ⟨arrays, harrays⟩ := Except.mapM_total fun f hf =>
      buildArray_of_hasArm (hbefore f hf).1 (hbefore f hf).2
    exact ⟨before, field, after, arrays, hfields, harrays, hfield⟩

/-- The conversion is the relation: the first bad line goes before the first column that cannot be
built, which goes before the checks of arrow. -/
theorem outcome_iff (lines : List String) (schema : Schema)
    (result : Except Failure (Option RecordBatch)) :
    ndjsonToRecordBatch N lines schema = result ↔ Outcome N lines schema result := by
  constructor
  · rintro rfl
    by_cases hlines : lines = []
    · subst hlines
      exact .empty rfl
    rw [ndjsonToRecordBatch_eq hlines]
    cases hobjects : lines.mapM (parseObject N) with
    | error failure =>
      obtain ⟨read, line, rest, objects, hsplit, hread, hline⟩ := Except.mapM_eq_error.mp hobjects
      obtain ⟨e, he, rfl⟩ := parseObject_eq_error.mp hline
      exact .invalid hsplit (parseObjects_eq_ok.mp hread) he
    | ok objects =>
      have hparsed := parseObjects_eq_ok.mp hobjects
      cases harrays : schema.fields.mapM fun field =>
          buildArray field (collected schema objects field.name) with
      | error failure =>
        obtain ⟨before, field, after, hfields, hbefore, hfield⟩ :=
          (buildArrays_eq_error objects).mp harrays
        simp only [bind, Except.bind, harrays]
        rcases buildArray_eq_error.mp hfield with ⟨harm, rfl⟩ | ⟨hfits, rfl⟩
        · exact .unsupported hlines hparsed hfields hbefore harm
        · obtain ⟨htext, hmore⟩ := Classical.not_imp.mp hfits
          exact .overflow hlines hparsed hfields hbefore htext (Nat.lt_of_not_le hmore)
      | ok arrays =>
        have hbuilt : Built schema objects arrays := Except.mapM_eq_ok.mp harrays
        simp only [bind, Except.bind, harrays]
        cases hnew : Crates.tryNew N schema arrays with
        | error e => exact .refused hlines hparsed hbuilt hnew
        | ok batch => exact .batch hlines hparsed hbuilt hnew
  · intro h
    cases h with
    | empty hlines =>
      rw [hlines]
      rfl
    | invalid hlines hread hline =>
      have hne : lines ≠ [] := by
        rw [hlines]
        simp
      have hobjects := Except.mapM_eq_error.mpr ⟨_, _, _, _, hlines, parseObjects_eq_ok.mpr hread,
        parseObject_eq_error.mpr ⟨_, hline, rfl⟩⟩
      rw [ndjsonToRecordBatch_eq hne, hobjects]
      rfl
    | @unsupported objects before after field hlines hparsed hfields hbefore hfield =>
      have harrays := (buildArrays_eq_error objects).mpr
        ⟨before, field, after, hfields, hbefore, buildArray_of_not_hasArm hfield _⟩
      rw [ndjsonToRecordBatch_eq hlines, parseObjects_eq_ok.mpr hparsed]
      simp only [bind, Except.bind, harrays]
    | @overflow objects before after field hlines hparsed hfields hbefore hfield hmore =>
      have hfits : ¬TextFits field.dataType (collected schema objects field.name) :=
        fun h => absurd (h hfield) (Nat.not_le.mpr hmore)
      have harrays := (buildArrays_eq_error objects).mpr
        ⟨before, field, after, hfields, hbefore, buildArray_of_not_textFits hfits⟩
      rw [ndjsonToRecordBatch_eq hlines, parseObjects_eq_ok.mpr hparsed]
      simp only [bind, Except.bind, harrays]
    | refused hlines hparsed hbuilt hnew =>
      rw [ndjsonToRecordBatch_eq hlines, parseObjects_eq_ok.mpr hparsed]
      simp only [bind, Except.bind, Except.mapM_eq_ok.mpr hbuilt, hnew, Except.mapError]
    | batch hlines hparsed hbuilt hnew =>
      exact ndjsonToRecordBatch_eq_ok.mpr ⟨hlines, _, _, hparsed, hbuilt, hnew⟩

/-! ### Which lines make a batch -/

/-- A line is an object that has a cell for every field that may not be null. -/
def Admits (N : Type) [Crates N] (schema : Schema) (line : String) : Prop :=
  ∃ obj : Object N, Crates.fromStr line = .ok obj ∧ ∀ field ∈ schema.fields,
    field.nullable = false → cellOf field.dataType (valueOf obj field.name) ≠ none

/-- The types that arrow accepts for the array of their arm. -/
def Buildable (schema : Schema) : Prop :=
  ∀ field ∈ schema.fields, HasArm field.dataType ∧ field.dataType ≠ .largeUtf8

/-- The texts of each text column of the lines fit in a `StringArray`. -/
def TextsFit (N : Type) [Crates N] (schema : Schema) (lines : List String) : Prop :=
  ∀ objects : List (Object N), Parsed lines objects → ∀ field ∈ schema.fields,
    TextFits field.dataType (objects.map (valueOf · field.name))

/-- The array of a field fits when none of the cells it may not have is null. -/
lemma fits_of_buildArray {objects : List (Object N)} (hnodup : schema.names.Nodup)
    {field : Field} (hfield : field ∈ schema.fields) (htype : field.dataType ≠ .largeUtf8)
    {array : ArrayRef}
    (hbuild : buildArray field (collected schema objects field.name) = .ok array) :
    Fits objects.length field array ↔ (field.nullable = false →
      ∀ obj ∈ objects, cellOf field.dataType (valueOf obj field.name) ≠ none) := by
  obtain ⟨hcells, harray⟩ := buildArray_eq_ok hbuild
  rw [collected_of_nodup hnodup objects hfield, List.map_map] at hcells
  have hnull : none ∉ array.cells ↔
      ∀ obj ∈ objects, cellOf field.dataType (valueOf obj field.name) ≠ none := by
    rw [hcells, List.mem_map]
    push Not
    rfl
  constructor
  · intro hfits hnullable
    exact hnull.mp (hfits.nulls hnullable)
  · intro hcell
    refine ⟨?_, ?_, ?_⟩
    · rw [harray, arrayType_eq_self]
      exact htype
    · rw [ArrayRef.len, hcells, List.length_map]
    · intro hnullable
      exact hnull.mpr (hcell hnullable)

lemma parsed_of_admits {lines : List String} (h : ∀ line ∈ lines, Admits N schema line) :
    ∃ objects : List (Object N), Parsed lines objects ∧ ∀ obj ∈ objects, ∀ field ∈ schema.fields,
      field.nullable = false → cellOf field.dataType (valueOf obj field.name) ≠ none := by
  induction lines with
  | nil => exact ⟨[], .nil, by simp⟩
  | cons line lines ih =>
    obtain ⟨obj, hobj, hcells⟩ := h line List.mem_cons_self
    obtain ⟨objects, hobjects, hrest⟩ := ih fun l hl => h l (List.mem_cons_of_mem line hl)
    refine ⟨obj :: objects, .cons hobj hobjects, ?_⟩
    intro o ho
    rcases List.mem_cons.mp ho with rfl | ho
    · exact hcells
    · exact hrest o ho

lemma admits_of_parsed {lines : List String} {objects : List (Object N)}
    (hparsed : Parsed lines objects) (h : ∀ obj ∈ objects, ∀ field ∈ schema.fields,
      field.nullable = false → cellOf field.dataType (valueOf obj field.name) ≠ none) :
    ∀ line ∈ lines, Admits N schema line := by
  intro line hline
  obtain ⟨i, hi, rfl⟩ := List.mem_iff_getElem.mp hline
  have hi' : i < objects.length := List.Forall₂.length_eq hparsed ▸ hi
  exact ⟨objects[i], (List.forall₂_iff_get.mp hparsed).2 i hi hi', h _ (List.getElem_mem hi')⟩

/-- With distinct names, there is a batch when the fields can be built, every line has its cells and
the texts fit. -/
lemma exists_batch_iff (hsound : Crates.TryNewSound N) (hcomplete : Crates.TryNewComplete N)
    (hnodup : schema.names.Nodup) (lines : List String) :
    (∃ batch, ndjsonToRecordBatch N lines schema = .ok (some batch)) ↔
      lines ≠ [] ∧ schema.fields ≠ [] ∧ Buildable schema ∧ (∀ line ∈ lines, Admits N schema line) ∧
        TextsFit N schema lines := by
  constructor
  · rintro ⟨batch, h⟩
    obtain ⟨hlines, objects, arrays, hparsed, hbuilt, hnew⟩ := ndjsonToRecordBatch_eq_ok.mp h
    obtain ⟨rfl, rfl⟩ := hsound _ _ _ hnew
    obtain ⟨field, hfield⟩ := exists_field rfl
    have htypes := types_of_valid hbuilt batch.valid
    have hcell : ∀ field ∈ batch.schema.fields, HasArm field.dataType ∧ (field.nullable = false →
        ∀ obj ∈ objects, cellOf field.dataType (valueOf obj field.name) ≠ none) := by
      intro field hfield
      obtain ⟨i, hi, rfl⟩ := List.mem_iff_getElem.mp hfield
      have hi' : i < batch.columns.length := List.Forall₂.length_eq hbuilt ▸ hi
      have hbuild := (List.forall₂_iff_get.mp hbuilt).2 i hi hi'
      have hfits := (List.forall₂_iff_get.mp batch.valid.fits).2 i hi hi'
      rw [rowCount_eq batch.valid.nonempty (built_len hnodup hbuilt)] at hfits
      exact ⟨hasArm_of_buildArray hbuild,
        (fits_of_buildArray hnodup hfield (htypes _ hfield) hbuild).mp hfits⟩
    refine ⟨hlines, List.ne_nil_of_mem hfield, fun f hf => ⟨(hcell f hf).1, htypes f hf⟩, ?_, ?_⟩
    · apply admits_of_parsed hparsed
      intro obj hobj f hf hnullable
      exact (hcell f hf).2 hnullable obj hobj
    · intro objects' hparsed'
      obtain rfl := parsed_unique hparsed hparsed'
      exact textFits_of_built hnodup hbuilt
  · rintro ⟨hlines, hfields, hbuildable, hadmits, htexts⟩
    obtain ⟨objects, hparsed, hcells⟩ := parsed_of_admits hadmits
    have hbuild : ∀ field ∈ schema.fields,
        ∃ array, buildArray field (collected schema objects field.name) = .ok array := by
      intro field hfield
      apply buildArray_of_hasArm (hbuildable field hfield).1
      rw [collected_of_nodup hnodup objects hfield]
      exact htexts objects hparsed field hfield
    obtain ⟨arrays, harrays⟩ := Except.mapM_total hbuild
    have hbuilt : Built schema objects arrays := Except.mapM_eq_ok.mp harrays
    have hne : arrays ≠ [] := by
      rintro rfl
      exact hfields (List.forall₂_nil_right_iff.mp hbuilt)
    have hmem : List.Forall₂ (fun field array => field ∈ schema.fields ∧
        buildArray field (collected schema objects field.name) = .ok array) schema.fields arrays :=
      (List.forall₂_and_left _ _).mpr ⟨fun field hfield => hfield, hbuilt⟩
    have hvalid : Valid schema arrays := by
      refine ⟨hne, ?_⟩
      rw [rowCount_eq hne (built_len hnodup hbuilt)]
      apply hmem.imp
      rintro field array ⟨hfield, hbuild⟩
      rw [fits_of_buildArray hnodup hfield (hbuildable field hfield).2 hbuild]
      intro hnullable obj hobj
      exact hcells obj hobj field hfield hnullable
    obtain ⟨batch, hbatch⟩ := hcomplete schema arrays hvalid
    exact ⟨batch, ndjsonToRecordBatch_eq_ok.mpr
      ⟨hlines, objects, arrays, hparsed, hbuilt, hbatch⟩⟩

/-! ### Fewer fields, fewer lines -/

/-- A schema of some of the fields, in any order, makes the batch of these columns. -/
theorem projected (hsound : Crates.TryNewSound N) (hcomplete : Crates.TryNewComplete N)
    {schema' : Schema} (hnodup : schema.names.Nodup) (hnodup' : schema'.names.Nodup)
    (hne : schema'.fields ≠ []) (hsub : schema'.fields ⊆ schema.fields) {lines : List String}
    {batch : RecordBatch} (h : ndjsonToRecordBatch N lines schema = .ok (some batch)) :
    ∃ batch', ndjsonToRecordBatch N lines schema' = .ok (some batch') ∧
      batch'.schema = schema' ∧ batch'.numRows = batch.numRows ∧
      ∀ (i j : Nat) (field : Field), schema.fields[i]? = some field →
        schema'.fields[j]? = some field → batch'.columns[j]? = batch.columns[i]? := by
  obtain ⟨hlines, -, hbuildable, hadmits, htexts⟩ :=
    (exists_batch_iff hsound hcomplete hnodup lines).mp ⟨batch, h⟩
  have hadmits' : ∀ line ∈ lines, Admits N schema' line := by
    intro line hline
    obtain ⟨obj, hobj, hcells⟩ := hadmits line hline
    exact ⟨obj, hobj, fun field hfield => hcells field (hsub hfield)⟩
  obtain ⟨batch', h'⟩ := (exists_batch_iff hsound hcomplete hnodup' lines).mpr
    ⟨hlines, hne, fun field hfield => hbuildable field (hsub hfield), hadmits',
      fun objects hparsed field hfield => htexts objects hparsed field (hsub hfield)⟩
  obtain ⟨-, objects, arrays, hparsed, hbuilt, hnew⟩ := ndjsonToRecordBatch_eq_ok.mp h
  obtain ⟨-, objects', arrays', hparsed', hbuilt', hnew'⟩ := ndjsonToRecordBatch_eq_ok.mp h'
  obtain rfl := parsed_unique hparsed hparsed'
  obtain ⟨rfl, rfl⟩ := hsound _ _ _ hnew
  obtain ⟨rfl, rfl⟩ := hsound _ _ _ hnew'
  refine ⟨batch', h', rfl, ?_, ?_⟩
  · rw [(aligned_of_nodup hsound h' hnodup').numRows, (aligned_of_nodup hsound h hnodup).numRows]
  · intro i j field hfield hfield'
    obtain ⟨hi, rfl⟩ := List.getElem?_eq_some_iff.mp hfield
    obtain ⟨hj, heq⟩ := List.getElem?_eq_some_iff.mp hfield'
    have hi' : i < batch.columns.length := List.Forall₂.length_eq hbuilt ▸ hi
    have hj' : j < batch'.columns.length := List.Forall₂.length_eq hbuilt' ▸ hj
    have hbuild := (List.forall₂_iff_get.mp hbuilt).2 i hi hi'
    have hbuild' := (List.forall₂_iff_get.mp hbuilt').2 j hj hj'
    simp only [List.get_eq_getElem] at hbuild hbuild'
    rw [heq, collected_of_nodup hnodup' objects (heq ▸ List.getElem_mem hj)] at hbuild'
    rw [collected_of_nodup hnodup objects (List.getElem_mem hi), hbuild'] at hbuild
    rw [List.getElem?_eq_getElem hi', List.getElem?_eq_getElem hj', Except.ok.inj hbuild]

theorem projected_sample :
    ∃ batch batch', ndjsonToRecordBatch JsonInt [JsonInt.bothLine, JsonInt.numberLine] textAndNumber =
        .ok (some batch) ∧
      ndjsonToRecordBatch JsonInt [JsonInt.bothLine, JsonInt.numberLine] ⟨[⟨"n", .int64, true⟩]⟩ =
        .ok (some batch') ∧ batch'.columns[0]? = batch.columns[1]? := by
  obtain ⟨batch', h', -, -, hcolumns⟩ := @projected JsonInt _ textAndNumber JsonInt.tryNewSound
    JsonInt.tryNewComplete ⟨[⟨"n", .int64, true⟩]⟩ (by decide) (by decide) (by decide) (by decide)
    [JsonInt.bothLine, JsonInt.numberLine] _ rfl
  exact ⟨_, batch', rfl, h', hcolumns 1 0 ⟨"n", .int64, true⟩ rfl rfl⟩

/-- The rows of a result; without lines there is no batch. -/
def resultRows (result : Option RecordBatch) : List (List Cell) :=
  (result.map RecordBatch.rows).getD []

/-- The row of an object. -/
def rowOf (schema : Schema) (obj : Object N) : List Cell :=
  schema.fields.map fun field => cellOf field.dataType (valueOf obj field.name)

lemma textsFit_nil : TextsFit N schema [] := by
  intro objects hparsed field _ _
  obtain rfl := List.forall₂_nil_left_iff.mp hparsed
  exact Nat.zero_le _

/-- Texts that fit together fit in parts. -/
lemma textsFit_of_infix {piece lines : List String} (hpiece : piece <:+: lines)
    (hjson : ∀ line ∈ lines, ∃ obj : Object N, Crates.fromStr line = .ok obj)
    (h : TextsFit N schema lines) : TextsFit N schema piece := by
  obtain ⟨before, after, rfl⟩ := hpiece
  intro objects hparsed field hfield htext
  have hparts : ∀ part : List String, (∀ line ∈ part, line ∈ before ++ piece ++ after) →
      ∃ objects : List (Object N), Parsed part objects := fun part hpart =>
    exists_parsed fun line hline => hjson line (hpart line hline)
  obtain ⟨left, hleft⟩ := hparts before (by simp +contextual)
  obtain ⟨right, hright⟩ := hparts after (by simp +contextual)
  have hall := h _ (List.rel_append (List.rel_append hleft hparsed) hright) field hfield htext
  simp only [List.map_append, textBytes_append] at hall
  omega

/-- The conversion succeeds exactly when it can take every line and the texts fit together. -/
lemma converts_iff (hsound : Crates.TryNewSound N) (hcomplete : Crates.TryNewComplete N)
    (hnodup : schema.names.Nodup) (lines : List String) :
    (∃ result, ndjsonToRecordBatch N lines schema = .ok result) ↔
      (∀ line ∈ lines, schema.fields ≠ [] ∧ Buildable schema ∧ Admits N schema line) ∧
        TextsFit N schema lines := by
  by_cases hlines : lines = []
  · subst hlines
    simp only [List.not_mem_nil, false_implies, implies_true, true_and]
    exact ⟨fun _ => textsFit_nil, fun _ => ⟨none, rfl⟩⟩
  have hbatch := exists_batch_iff hsound hcomplete hnodup lines
  constructor
  · rintro ⟨result, h⟩
    cases result with
    | none =>
      cases (outcome_iff _ _ _).mp h with
      | empty hempty => exact absurd hempty hlines
    | some batch =>
      obtain ⟨-, hfields, hbuildable, hadmits, htexts⟩ := hbatch.mp ⟨batch, h⟩
      exact ⟨fun line hline => ⟨hfields, hbuildable, hadmits line hline⟩, htexts⟩
  · rintro ⟨h, htexts⟩
    obtain ⟨line, hline⟩ := List.exists_mem_of_ne_nil lines hlines
    obtain ⟨hfields, hbuildable, -⟩ := h line hline
    obtain ⟨batch, hok⟩ := hbatch.mpr
      ⟨hlines, hfields, hbuildable, fun line hline => (h line hline).2.2, htexts⟩
    exact ⟨some batch, hok⟩

lemma rows_of_result (hsound : Crates.TryNewSound N) (hnodup : schema.names.Nodup)
    {lines : List String} {result : Option RecordBatch}
    (h : ndjsonToRecordBatch N lines schema = .ok result) :
    ∃ objects : List (Object N), Parsed lines objects ∧
      resultRows result = objects.map (rowOf schema) := by
  cases result with
  | none =>
    have hlines : lines = [] := by
      cases (outcome_iff _ _ _).mp h with
      | empty hempty => exact hempty
    subst hlines
    exact ⟨[], .nil, rfl⟩
  | some batch => exact (aligned_of_nodup hsound h hnodup).rows

/-- The rows of the pieces, one after the other. -/
lemma rows_of_results (hsound : Crates.TryNewSound N) (hnodup : schema.names.Nodup)
    {pieces : List (List String)} {results : List (Option RecordBatch)}
    (h : List.Forall₂ (fun lines result => ndjsonToRecordBatch N lines schema = .ok result)
      pieces results) :
    ∃ objects : List (Object N), Parsed pieces.flatten objects ∧
      (results.map resultRows).flatten = objects.map (rowOf schema) := by
  induction h with
  | nil => exact ⟨[], .nil, rfl⟩
  | cons hfirst _ ih =>
    obtain ⟨top, htop, hrows⟩ := rows_of_result hsound hnodup hfirst
    obtain ⟨bottom, hbottom, hrest⟩ := ih
    refine ⟨top ++ bottom, List.rel_append htop hbottom, ?_⟩
    rw [List.map_cons, List.flatten_cons, hrows, hrest, List.map_append]

/-- Lines may be converted piece by piece: all together succeed when every piece does and the texts
of all fit in one array a column, with the rows of the pieces in order. -/
theorem converted_in_pieces (hsound : Crates.TryNewSound N) (hcomplete : Crates.TryNewComplete N)
    (hnodup : schema.names.Nodup) (pieces : List (List String)) :
    ((∃ result, ndjsonToRecordBatch N pieces.flatten schema = .ok result) ↔
        (∃ results, (pieces.mapM fun lines => ndjsonToRecordBatch N lines schema) = .ok results) ∧
          TextsFit N schema pieces.flatten) ∧
      ∀ result results, ndjsonToRecordBatch N pieces.flatten schema = .ok result →
        (pieces.mapM fun lines => ndjsonToRecordBatch N lines schema) = .ok results →
        resultRows result = (results.map resultRows).flatten := by
  constructor
  · rw [converts_iff hsound hcomplete hnodup]
    constructor
    · rintro ⟨h, htexts⟩
      refine ⟨?_, htexts⟩
      apply Except.mapM_total
      intro lines hlines
      rw [converts_iff hsound hcomplete hnodup]
      refine ⟨fun line hline => h line (List.mem_flatten.mpr ⟨lines, hlines, hline⟩), ?_⟩
      apply textsFit_of_infix (List.infix_of_mem_flatten hlines) _ htexts
      intro line hline
      obtain ⟨-, -, obj, hobj, -⟩ := h line hline
      exact ⟨obj, hobj⟩
    · rintro ⟨⟨results, hresults⟩, htexts⟩
      refine ⟨?_, htexts⟩
      intro line hline
      obtain ⟨lines, hlines, hline⟩ := List.mem_flatten.mp hline
      obtain ⟨i, hi, rfl⟩ := List.mem_iff_getElem.mp hlines
      rw [Except.mapM_eq_ok] at hresults
      have hresult := (List.forall₂_iff_get.mp hresults).2 i hi (hresults.length_eq ▸ hi)
      exact ((converts_iff hsound hcomplete hnodup _).mp ⟨_, hresult⟩).1 line hline
  · intro result results h hresults
    obtain ⟨objects, hparsed, hrows⟩ := rows_of_result hsound hnodup h
    obtain ⟨objects', hparsed', hrows'⟩ := rows_of_results hsound hnodup
      (Except.mapM_eq_ok.mp hresults)
    rw [hrows, hrows', parsed_unique hparsed hparsed']

theorem converted_in_pieces_sample :
    ∃ batch first last, ndjsonToRecordBatch JsonInt [JsonInt.bothLine, JsonInt.numberLine]
        textAndNumber = .ok (some batch) ∧
      ndjsonToRecordBatch JsonInt [JsonInt.bothLine] textAndNumber = .ok (some first) ∧
      ndjsonToRecordBatch JsonInt [JsonInt.numberLine] textAndNumber = .ok (some last) ∧
      batch.rows = first.rows ++ last.rows := by
  have hpieces := @converted_in_pieces JsonInt _ textAndNumber JsonInt.tryNewSound
    JsonInt.tryNewComplete (by decide) [[JsonInt.bothLine], [], [JsonInt.numberLine]]
  refine ⟨_, _, _, rfl, rfl, rfl, ?_⟩
  exact (hpieces.2 _ _ rfl rfl).trans (by simp [resultRows])

end WpConnectorUtils.Ndjson
