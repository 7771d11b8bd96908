import WpConnectorUtils.Arrow.Table

/-!
# Inferred schemas

`arrow/schema.rs`: text columns for a list of names, or the columns of the fields of a record. The
records and their mapping to Arrow types belong to other crates: `Records R` supplies them.
-/

namespace WpConnectorUtils.Arrow

/-- All columns are text. -/
def inferArrowSchema (fields : List String) : Schema :=
  ⟨fields.map fun f => ⟨f, .utf8, true⟩⟩

@[simp] lemma names_inferArrowSchema (fields : List String) :
    (inferArrowSchema fields).names = fields := by
  unfold Schema.names inferArrowSchema
  rw [List.map_map]
  exact List.map_id fields

/-- `DataRecord` and its fields (`wp_model_core`), with `wp_type_to_arrow` (`wp_arrow`). -/
class Records (R : Type) where
  ModelField : Type
  WpType : Type
  items : R → List ModelField
  append : R → ModelField → R
  fromChars : String → String → ModelField
  getName : ModelField → String
  getMeta : ModelField → WpType
  isIgnore : WpType → Bool -- `matches!(_, DataType::Ignore)`
  wpTypeToArrow : WpType → DataType

/-- What is relied on: `append` adds a field at the end, and a field made from characters has its
name and a type of its own, which is not `Ignore`. -/
structure Records.Laws (R : Type) [Records R] (chars : Records.WpType R) : Prop where
  items_append : ∀ (record : R) f, items (append record f) = items record ++ [f]
  getName_fromChars : ∀ name value, getName (fromChars (R := R) name value) = name
  getMeta_fromChars : ∀ name value, getMeta (fromChars (R := R) name value) = chars
  chars_kept : isIgnore chars = false

section Infer

variable {R : Type} [Records R]

/-- The column of a field of a record. -/
def columnField (R : Type) [Records R] (f : Records.ModelField R) : Field :=
  ⟨Records.getName f, Records.wpTypeToArrow (Records.getMeta f), true⟩

def inferSchemaFromRecord (record : R) : Schema :=
  ⟨((Records.items record).filter fun f => !Records.isIgnore (Records.getMeta f)).map
    (columnField R)⟩

end Infer

end WpConnectorUtils.Arrow
