import WpConnectorUtils.Arrow.Infer

/-!
# Batch metadata

`batch.rs`: the OML name of a batch becomes a field of its records for text sinks and the tag of
its frame for Arrow sinks, unless an output is disabled. `BatchMeta` belongs to another crate:
`Metadata M` supplies it.
-/

namespace WpConnectorUtils
open Arrow

/-- `wp_connector_api::BatchMeta` -/
class Metadata (M : Type) where
  isOutputDisabled : M → String → Bool
  omlName : M → Option String

section Functions

variable {M R : Type} [Metadata M] [Records R]

def injectOmlName (batchMeta : M) (data : List R) : List R :=
  if Metadata.isOutputDisabled batchMeta "wp_oml_name" then data
  else match Metadata.omlName batchMeta with
    | some name =>
      if !name.isEmpty then
        data.map fun record => Records.append record (Records.fromChars "wp_oml_name" name)
      else data
    | none => data

def resolveFrameTag (batchMeta : M) (configTag : String) : String :=
  if Metadata.isOutputDisabled batchMeta "tag" || Metadata.isOutputDisabled batchMeta "oml_name" then
    configTag
  else ((Metadata.omlName batchMeta).filter fun n => !n.isEmpty).getD configTag

/-! ### Injections -/

/-- The name that the records of a batch get. -/
def injectedName (batchMeta : M) : Option String :=
  if Metadata.isOutputDisabled batchMeta "wp_oml_name" then none
  else (Metadata.omlName batchMeta).filter fun name => !name.isEmpty

/-- The field of an injected name. -/
def omlField (R : Type) [Records R] (name : String) : Records.ModelField R :=
  Records.fromChars "wp_oml_name" name

lemma injectOmlName_eq (batchMeta : M) (data : List R) :
    injectOmlName batchMeta data = data.map fun record =>
      ((injectedName batchMeta).map (omlField R)).elim record (Records.append record) := by
  unfold injectOmlName injectedName
  split
  · simp
  · cases Metadata.omlName batchMeta with
    | none => simp
    | some name => by_cases hname : name.isEmpty <;> simp [Option.filter, hname, omlField]

/-- With all outputs enabled, the tag of a frame is the name its records would get. -/
lemma resolveFrameTag_eq {batchMeta : M}
    (h : ∀ output ∈ ["tag", "oml_name", "wp_oml_name"],
      Metadata.isOutputDisabled batchMeta output = false) (configTag : String) :
    resolveFrameTag batchMeta configTag = (injectedName batchMeta).getD configTag := by
  unfold resolveFrameTag injectedName
  rw [h _ (by decide), h _ (by decide), h _ (by decide)]
  rfl

variable {chars : Records.WpType R}

lemma columnField_omlField (laws : Records.Laws R chars) (name : String) :
    columnField R (omlField R name) = ⟨"wp_oml_name", Records.wpTypeToArrow chars, true⟩ := by
  unfold columnField omlField
  rw [laws.getName_fromChars, laws.getMeta_fromChars]

/-- Fields of names at the end of a record are columns at the end of its schema. -/
lemma inferSchema_append (laws : Records.Laws R chars) {record record' : R} {names : List String}
    (h : Records.items record' = Records.items record ++ names.map (omlField R)) :
    (inferSchemaFromRecord record').fields = (inferSchemaFromRecord record).fields ++
      List.replicate names.length ⟨"wp_oml_name", Records.wpTypeToArrow chars, true⟩ := by
  have hkept : (names.map (omlField R)).filter
      (fun f => !Records.isIgnore (Records.getMeta f)) = names.map (omlField R) := by
    rw [List.filter_eq_self]
    intro f hf
    obtain ⟨name, -, rfl⟩ := List.mem_map.mp hf
    rw [omlField, laws.getMeta_fromChars, laws.chars_kept]
    rfl
  have hcolumns : (names.map (omlField R)).map (columnField R) =
      List.replicate names.length ⟨"wp_oml_name", Records.wpTypeToArrow chars, true⟩ := by
    rw [List.eq_replicate_iff]
    constructor
    · rw [List.length_map, List.length_map]
    · intro field hfield
      obtain ⟨f, hf, rfl⟩ := List.mem_map.mp hfield
      obtain ⟨name, -, rfl⟩ := List.mem_map.mp hf
      exact columnField_omlField laws name
  unfold inferSchemaFromRecord
  dsimp only
  rw [h, List.filter_append, List.map_append, hkept, hcolumns]

lemma nodup_append_replicate {names : List String} {k : Nat} {name : String} :
    (names ++ List.replicate k name).Nodup ↔
      names.Nodup ∧ (k = 0 ∨ k = 1 ∧ name ∉ names) := by
  rw [List.nodup_append, List.nodup_replicate]
  constructor
  · rintro ⟨hnames, hk, hdisjoint⟩
    refine ⟨hnames, ?_⟩
    rcases Nat.le_one_iff_eq_zero_or_eq_one.mp hk with rfl | rfl
    · exact .inl rfl
    · exact .inr ⟨rfl, fun hname => hdisjoint name hname name (by simp) rfl⟩
  · rintro ⟨hnames, rfl | ⟨rfl, hname⟩⟩
    · simp [hnames]
    · refine ⟨hnames, le_rfl, ?_⟩
      intro a ha b hb
      rw [List.mem_replicate] at hb
      rw [hb.2]
      rintro rfl
      exact hname ha

/-- A record after the injections of a list of names. -/
structure Injected (chars : Records.WpType R) (names : List String) (record record' : R) : Prop where
  items : Records.items record' = Records.items record ++ names.map (omlField R)
  fields : (inferSchemaFromRecord record').fields = (inferSchemaFromRecord record).fields ++
    List.replicate names.length ⟨"wp_oml_name", Records.wpTypeToArrow chars, true⟩
  distinct : (inferSchemaFromRecord record').names.Nodup ↔
    (inferSchemaFromRecord record).names.Nodup ∧
      (names.length = 0 ∨ names.length = 1 ∧
        "wp_oml_name" ∉ (inferSchemaFromRecord record).names)

lemma injected_of_items (laws : Records.Laws R chars) {record record' : R} {names : List String}
    (h : Records.items record' = Records.items record ++ names.map (omlField R)) :
    Injected chars names record record' := by
  have hfields := inferSchema_append laws h
  refine ⟨h, hfields, ?_⟩
  have hnames : (inferSchemaFromRecord record').names =
      (inferSchemaFromRecord record).names ++ List.replicate names.length "wp_oml_name" := by
    rw [Schema.names, hfields, List.map_append, List.map_replicate]
    rfl
  rw [hnames, nodup_append_replicate]

/-- Injections, one batch after the other over the same records: every record keeps its fields and
gets one more for each name that is not empty and not disabled. Its inferred schema grows by as
many columns, whose names are distinct for at most one injection into records without one. -/
theorem injections_append (laws : Records.Laws R chars) (metas : List M) (data : List R) :
    List.Forall₂ (Injected chars (metas.filterMap injectedName)) data
      (metas.foldl (fun data batchMeta => injectOmlName batchMeta data) data) := by
  have hitems : List.Forall₂ (fun record record' => Records.items record' =
      Records.items record ++ (metas.filterMap injectedName).map (omlField R)) data
      (metas.foldl (fun data batchMeta => injectOmlName batchMeta data) data) := by
    induction metas generalizing data with
    | nil => simp
    | cons batchMeta metas ih =>
      have hrest := ih (injectOmlName batchMeta data)
      rw [injectOmlName_eq, List.forall₂_map_left_iff] at hrest
      rw [List.foldl_cons, injectOmlName_eq]
      apply hrest.imp
      intro record record' h
      rw [h]
      cases hname : injectedName batchMeta with
      | none => simp [hname]
      | some name => simp [hname, laws.items_append]
  exact hitems.imp fun record record' h => injected_of_items laws h

end Functions

/-! ### A sample of the crates -/

/-- A record of texts, and the metadata of a batch. -/
structure TextRecord where
  fields : List (String × String)
  deriving DecidableEq

structure TextMeta where
  omlName : Option String
  disabled : List String

instance : Records TextRecord where
  ModelField := String × String
  WpType := Unit
  items record := record.fields
  append record f := ⟨record.fields ++ [f]⟩
  fromChars name value := (name, value)
  getName f := f.1
  getMeta _ := ()
  isIgnore _ := false
  wpTypeToArrow _ := .utf8

instance : Metadata TextMeta where
  isOutputDisabled batchMeta output := batchMeta.disabled.contains output
  omlName batchMeta := batchMeta.omlName

lemma TextRecord.laws : Records.Laws TextRecord () where
  items_append _ _ := rfl
  getName_fromChars _ _ := rfl
  getMeta_fromChars _ _ := rfl
  chars_kept := rfl

/-- A disabled injection, one and another one: two columns of the same name. -/
theorem injections_append_sample :
    ∃ record : TextRecord, Injected () ["out", "stream_a"] ⟨[("msg", "hello")]⟩ record ∧
      ¬(inferSchemaFromRecord record).names.Nodup := by
  have hrun := injections_append TextRecord.laws
    [(⟨some "out", ["wp_oml_name"]⟩ : TextMeta), ⟨some "out", []⟩, ⟨some "", []⟩,
      ⟨some "stream_a", []⟩] [⟨[("msg", "hello")]⟩]
  obtain ⟨record, _, hinjected, -, -⟩ := List.forall₂_cons_left_iff.mp hrun
  have hnames : ([(⟨some "out", ["wp_oml_name"]⟩ : TextMeta), ⟨some "out", []⟩, ⟨some "", []⟩,
      ⟨some "stream_a", []⟩].filterMap injectedName) = ["out", "stream_a"] := by decide
  rw [hnames] at hinjected
  refine ⟨record, hinjected, ?_⟩
  rw [hinjected.distinct]
  decide

end WpConnectorUtils
