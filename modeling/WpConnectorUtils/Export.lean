import WpConnectorUtils.Pipeline
import WpConnectorUtils.Ndjson.Rows

/-!
# From lines to rows

The whole way: a producer writes rows as JSON lines, a sink converts them in pieces to batches,
frames the batches and sends the frame through an encoder; a source decodes it and reads the rows.
-/

namespace WpConnectorUtils
open Codec Arrow Ndjson

/-- Rows written as lines, with the batches of the pieces of these lines and their frame, cut into
the chunks it is sent in. A piece without lines has no batch. -/
structure Export (N : Type) [Ndjson.Crates N] [Ipc Schema RecordBatch] (schema : Schema)
    (width : PointerWidth) where
  rows : List (List Cell)
  pieces : List (List String)
  written : List.Forall₂ (Writes N schema) pieces.flatten rows
  results : List (Option RecordBatch)
  converted : List.Forall₂
    (fun lines result => ndjsonToRecordBatch N lines schema = .ok result) pieces results
  tag : String
  chunks : List Codec.Bytes
  framed : encodeIpcFrameMulti tag results.reduceOption = .ok chunks.flatten
  tagged : (asBytes tag).length < 2 ^ 32
  nonempty : rows ≠ []
  allocated : Allocated width chunks.flatten

lemma flatten_resultRows (results : List (Option RecordBatch)) :
    (results.map resultRows).flatten = (results.reduceOption.map RecordBatch.rows).flatten := by
  induction results with
  | nil => rfl
  | cons result results ih =>
    rw [List.map_cons, List.flatten_cons, ih]
    cases result with
    | none => rfl
    | some batch =>
      rw [List.reduceOption_cons_of_some, List.map_cons, List.flatten_cons]
      rfl

section Exports

variable {N W : Type} [Ndjson.Crates N] [Ipc Schema RecordBatch] {schema : Schema}
  {width : PointerWidth}

namespace Export

/-- The batches hold the rows. -/
lemma rows_eq (hsound : Ndjson.Crates.TryNewSound N) (hnodup : schema.names.Nodup)
    (e : Export N schema width) : (e.results.reduceOption.map RecordBatch.rows).flatten = e.rows := by
  obtain ⟨objects, hparsed, hrows⟩ := rows_of_results hsound hnodup e.converted
  rw [← flatten_resultRows, hrows, rows_of_writes e.written hparsed]

/-- All of them have the schema that the lines were converted under. -/
lemma schema_eq (hsound : Ndjson.Crates.TryNewSound N) (e : Export N schema width) :
    ∀ batch ∈ e.results.reduceOption, batch.schema = schema := by
  intro batch hbatch
  obtain ⟨i, hi, hget⟩ := List.mem_iff_getElem.mp (List.reduceOption_mem_iff.mp hbatch)
  have hresult := (List.forall₂_iff_get.mp e.converted).2 i (e.converted.length_eq ▸ hi) hi
  rw [List.get_eq_getElem, List.get_eq_getElem, hget] at hresult
  obtain ⟨-, -, hschema, -⟩ := Ndjson.converted hsound hresult
  exact hschema

/-- What is shipped. -/
def shipment (hsound : Ndjson.Crates.TryNewSound N) (hnodup : schema.names.Nodup)
    (hschema : ∀ batch : RecordBatch, Ipc.schema batch = batch.schema) (e : Export N schema width) :
    Shipment RecordBatch width where
  tag := e.tag
  batches := e.results.reduceOption
  chunks := e.chunks
  framed := e.framed
  tagged := e.tagged
  nonempty := by
    intro hempty
    have hrows := e.rows_eq hsound hnodup
    rw [hempty] at hrows
    exact e.nonempty hrows.symm
  uniform := by
    intro b hb b' hb'
    rw [hschema, hschema, e.schema_eq hsound b hb, e.schema_eq hsound b' hb']
  allocated := e.allocated

end Export

/-- Sending the frames as messages. -/
def exports (N : Type) [Ndjson.Crates N] (schema : Schema) (width : PointerWidth) (W : Type)
    [Codec.Crates W] :
    Machine (Session (LayeredEncoder W) W) (Export N schema width)
      (List (Except CodecError Unit)) where
  step e s := (messages (LayeredEncoder W) W).step (e.chunks.map .encode) s

/-- If every call succeeded, the piece decodes to a frame that decodes to batches of the schema
with the rows. -/
def Arrives (dec : LayeredDecoder W)
    (exchange : Export N schema width × List (Except CodecError Unit)) (piece : Codec.Bytes) : Prop :=
  (∀ reply ∈ exchange.2, Succeeded reply) →
    ∃ (f : Codec.Bytes) (batches : List RecordBatch),
      (∀ prior, Decoder.decode dec piece prior = ⟨.ok (), dec, prior ++ f⟩) ∧
      decodeArrowFramedBatches width f = .ok batches ∧
      (∀ batch ∈ batches, batch.schema = schema) ∧
      (batches.map RecordBatch.rows).flatten = exchange.1.rows

/-- Rows written as JSON lines under distinct names, converted in any pieces and sent in any
chunks, whichever calls fail: each export has its own piece of the wire, and if its calls succeeded
the piece decodes, on a decoder with the same algorithms and key, to the rows in order. -/
theorem rows_through_codec [Codec.Crates W] (laws : Codec.Crates.RoundTrip W)
    (ipc : Ipc.RoundTrip Schema RecordBatch)
    (hschema : ∀ batch : RecordBatch, Ipc.schema batch = batch.schema)
    (hsound : Ndjson.Crates.TryNewSound N) (hnodup : schema.names.Nodup)
    {compression compression' : Option CompressConfig} {encryption : Option EncryptConfig}
    {enc : LayeredEncoder W} {dec : LayeredDecoder W}
    (halgo : compression'.map CompressConfig.algo = compression.map CompressConfig.algo)
    (henc : buildEncoder compression encryption = .ok enc)
    (hdec : buildDecoder compression' encryption = .ok dec) (sent : List (Export N schema width))
    (prior : Codec.Bytes) (w : W) :
    let M := exports N schema width W
    ∃ pieces, List.Forall₂ (Arrives dec) (M.exchanges sent ⟨enc, prior, w⟩) pieces ∧
      ∀ k, (M.run (sent.take k) ⟨enc, prior, w⟩).wire = prior ++ (pieces.take k).flatten := by
  intro M
  have hstart : Between dec ⟨enc, prior, w⟩ prior :=
    ⟨rfl, build_matches laws halgo henc hdec, build_pending henc⟩
  have hstep : ∀ (e : Export N schema width) (s : Session (LayeredEncoder W) W) (wire : Codec.Bytes),
      Between dec s wire → ∃ piece wire', Arrives dec (e, (M.step e s).1) piece ∧
        wire' = wire ++ piece ∧ Between dec (M.step e s).2 wire' := by
    intro e s wire h
    obtain ⟨piece, wire', hrestores, hwire, hnext⟩ :=
      shipment_step ipc h (e.shipment hsound hnodup hschema)
    refine ⟨piece, wire', ?_, hwire, hnext⟩
    intro hok
    obtain ⟨f, hdecode, hbatches⟩ := hrestores hok
    exact ⟨f, _, hdecode, hbatches, e.schema_eq hsound, e.rows_eq hsound hnodup⟩
  obtain ⟨pieces, hpieces, hruns⟩ := M.simulation_labelled (R := Between dec) hstep sent hstart
  refine ⟨pieces, hpieces, fun k => ?_⟩
  obtain ⟨wire, hrun, hwire⟩ := hruns k
  rw [hwire.wire_eq, Machine.appended_of_run hrun, List.map_id']

end Exports

/-! ### A sample of the crates

The Arrow IPC stream of two batches with a text and a null each, sent twice. -/

namespace TextBatch
open Codec.Recorded

def schema : Schema := ⟨[⟨"a", .utf8, true⟩]⟩

def batch (first second : Option String) : RecordBatch where
  schema := schema
  columns := [.string [first, second]]
  valid := ⟨by simp, .cons ⟨rfl, rfl, fun h => by cases h⟩ .nil⟩

def batches : List RecordBatch := [batch (some "x") none, batch none (some "x")]

def schemaMessage : Arrow.Bytes :=
  [0xff, 0xff, 0xff, 0xff, 0x78, 0x00, 0x00, 0x00, 0x10, 0x00, 0x00, 0x00, 0x00, 0x00, 0x0a, 0x00,
    0x0c, 0x00, 0x0a, 0x00, 0x09, 0x00, 0x04, 0x00, 0x0a, 0x00, 0x00, 0x00, 0x10, 0x00, 0x00,
    0x00, 0x00, 0x01, 0x04, 0x00, 0x08, 0x00, 0x08, 0x00, 0x00, 0x00, 0x04, 0x00, 0x08, 0x00,
    0x00, 0x00, 0x04, 0x00, 0x00, 0x00, 0x01, 0x00, 0x00, 0x00, 0x14, 0x00, 0x00, 0x00, 0x10,
    0x00, 0x14, 0x00, 0x10, 0x00, 0x0e, 0x00, 0x0f, 0x00, 0x04, 0x00, 0x00, 0x00, 0x08, 0x00,
    0x10, 0x00, 0x00, 0x00, 0x18, 0x00, 0x00, 0x00, 0x0c, 0x00, 0x00, 0x00, 0x00, 0x00, 0x01,
    0x05, 0x10, 0x00, 0x00, 0x00, 0x00, 0x00, 0x00, 0x00, 0x04, 0x00, 0x04, 0x00, 0x04, 0x00,
    0x00, 0x00, 0x01, 0x00, 0x00, 0x00, 0x61] ++
    List.replicate 15 0

/-- The metadata of a batch, the bits of the values that are not null, the offsets and the text. -/
def message (validity middle : UInt8) : Arrow.Bytes :=
  [0xff, 0xff, 0xff, 0xff, 0xb8, 0x00, 0x00, 0x00, 0x10, 0x00, 0x00, 0x00, 0x0c, 0x00, 0x1a, 0x00,
    0x18, 0x00, 0x17, 0x00, 0x04, 0x00, 0x08, 0x00, 0x0c, 0x00, 0x00, 0x00, 0x20, 0x00, 0x00,
    0x00, 0xc0, 0x00, 0x00, 0x00, 0x00, 0x00, 0x00, 0x00, 0x00, 0x00, 0x00, 0x00, 0x00, 0x00,
    0x00, 0x03, 0x04, 0x00, 0x0a, 0x00, 0x18, 0x00, 0x0c, 0x00, 0x08, 0x00, 0x04, 0x00, 0x0a,
    0x00, 0x00, 0x00, 0x2c, 0x00, 0x00, 0x00, 0x10, 0x00, 0x00, 0x00, 0x02, 0x00, 0x00, 0x00,
    0x00, 0x00, 0x00, 0x00, 0x00, 0x00, 0x00, 0x00, 0x01, 0x00, 0x00, 0x00, 0x02, 0x00, 0x00,
    0x00, 0x00, 0x00, 0x00, 0x00, 0x01, 0x00, 0x00, 0x00, 0x00, 0x00, 0x00, 0x00, 0x00, 0x00,
    0x00, 0x00, 0x03, 0x00, 0x00, 0x00, 0x00, 0x00, 0x00, 0x00, 0x00, 0x00, 0x00, 0x00, 0x01,
    0x00, 0x00, 0x00, 0x00, 0x00, 0x00, 0x00, 0x40, 0x00, 0x00, 0x00, 0x00, 0x00, 0x00, 0x00,
    0x0c, 0x00, 0x00, 0x00, 0x00, 0x00, 0x00, 0x00, 0x80, 0x00, 0x00, 0x00, 0x00, 0x00, 0x00,
    0x00, 0x01] ++
    List.replicate 39 0 ++ [validity] ++ List.replicate 63 0 ++
    [0x00, 0x00, 0x00, 0x00, middle, 0x00, 0x00, 0x00, 0x01, 0x00, 0x00, 0x00] ++
    List.replicate 52 0 ++ [0x78] ++ List.replicate 63 0

def stream : Arrow.Bytes := schemaMessage ++ message 1 1 ++ message 2 0 ++ RowBatch.endOfStream

/-- A writer that has seen other batches when it finishes is not sampled. -/
instance : Ipc Schema RecordBatch where
  Writer := Arrow.Bytes × List RecordBatch
  schema batch := batch.schema
  writerTryNew buf _ := .ok (buf, [])
  write writer batch := .ok (writer.1, writer.2 ++ [batch])
  finish writer :=
    if writer.2 = batches then .ok (writer.1 ++ stream, writer.2) else .error "Ipc error: not sampled"
  buffer writer := writer.1
  readerTryNew bytes :=
    if bytes = stream then .ok (batches.map .ok)
    else .error "Ipc error: Expected schema message, found empty stream."

lemma write_all (written : List RecordBatch) (writer : Ipc.Writer RecordBatch) :
    written.foldlM Ipc.write writer = .ok (writer.1, writer.2 ++ written) := by
  induction written generalizing writer with
  | nil => simp [pure, Except.pure]
  | cons batch written ih =>
    rw [Except.foldlM_cons_eq_ok]
    refine ⟨(writer.1, writer.2 ++ [batch]), rfl, ?_⟩
    rw [ih]
    simp

lemma roundTrip : Ipc.RoundTrip Schema RecordBatch where
  reads := by
    intro buf _ written (w₀ : Arrow.Bytes × List RecordBatch) (w₁ : Arrow.Bytes × List RecordBatch)
      (w₂ : Arrow.Bytes × List RecordBatch) _ hnew hwrite hfinish
    have h₀ : (buf, []) = w₀ := Except.ok.inj hnew
    have h₁ : (w₀.1, w₀.2 ++ written) = w₁ := Except.ok.inj ((write_all written w₀).symm.trans hwrite)
    subst h₀ h₁
    change (if written = batches then _ else _) = _ at hfinish
    by_cases hsampled : written = batches
    · rw [if_pos hsampled] at hfinish
      have h₂ : (buf ++ stream, written) = w₂ := Except.ok.inj hfinish
      refine ⟨stream, congrArg Prod.fst h₂.symm, ?_⟩
      rw [hsampled]
      exact if_pos rfl
    · rw [if_neg hsampled] at hfinish
      cases hfinish
  empty := ⟨_, rfl⟩

lemma encode_batches (tag : String) :
    encodeIpcFrameMulti tag batches = .ok (frameHeader tag ++ stream) := by
  change writeStream _ (frameHeader tag) schema batches = _
  unfold writeStream
  simp only [Except.bind_eq_ok, Except.mapError_eq_ok, Except.pure_eq_ok]
  exact ⟨(frameHeader tag, []), rfl, (frameHeader tag, batches), write_all _ _,
    (frameHeader tag ++ stream, batches), if_pos rfl, rfl⟩

def chunks : List Codec.Bytes := [frameHeader "rows", stream]

lemma length_chunks : chunks.flatten.length = 912 := by decide +kernel

/-- Two lines in each of two pieces, with an empty piece between them. -/
def exported : Export JsonInt schema .w64 where
  rows := [[some (.string "x")], [none], [none], [some (.string "x")]]
  pieces := [[JsonInt.textLine, JsonInt.numberLine], [], [JsonInt.numberLine, JsonInt.bothLine]]
  written := .cons ⟨_, rfl, .cons (.string "x") .nil⟩ (.cons ⟨_, rfl, .cons .null .nil⟩
    (.cons ⟨_, rfl, .cons .null .nil⟩ (.cons ⟨_, rfl, .cons (.string "x") .nil⟩ .nil)))
  results := [some (batch (some "x") none), none, some (batch none (some "x"))]
  converted := .cons rfl (.cons rfl (.cons rfl .nil))
  tag := "rows"
  chunks := chunks
  framed := by
    rw [chunks, List.flatten_cons, List.flatten_singleton]
    exact encode_batches "rows"
  tagged := by decide
  nonempty := List.cons_ne_nil _ _
  allocated := by
    unfold Allocated
    rw [length_chunks]
    decide

def zstdChunks : Codec.Bytes :=
  [0x28, 0xb5, 0x2f, 0xfd, 0x60, 0x90, 0x02, 0x7d, 0x05, 0x00, 0x82, 0x86, 0x13, 0x1f, 0xb0, 0x27,
    0xad, 0x01, 0x0c, 0xc3, 0x00, 0x2a, 0x0c, 0x03, 0xc4, 0x14, 0x07, 0xdd, 0xc1, 0x30, 0xa7,
    0x08, 0x48, 0xbb, 0x03, 0x53, 0x6a, 0xa4, 0xec, 0x78, 0x90, 0x4d, 0x88, 0x4c, 0x01, 0x8f,
    0x34, 0xcd, 0x5a, 0xe3, 0x0e, 0xc9, 0x86, 0x6c, 0x40, 0xaf, 0x4a, 0x1e, 0x2f, 0x0c, 0xaa,
    0x84, 0xe7, 0x88, 0x38, 0x8a, 0xdd, 0x15, 0x12, 0x0c, 0x5c, 0x32, 0xcc, 0xed, 0xa3, 0xe8,
    0xb1, 0xf4, 0x04, 0x4c, 0x6f, 0xba, 0xbc, 0x59, 0x6b, 0xad, 0x05, 0x23, 0xa1, 0x38, 0x0f,
    0x2d, 0x20, 0xc0, 0x82, 0xa1, 0x2a, 0x7a, 0x59, 0x82, 0x2b, 0x00, 0x40, 0xaf, 0x37, 0x98,
    0x8a, 0x88, 0x80, 0xc0, 0xd9, 0x5d, 0x62, 0xee, 0x26, 0xc6, 0x5c, 0xd3, 0x44, 0x21, 0x3b,
    0x1b, 0x93, 0xc5, 0x7c, 0xc8, 0x6c, 0xcb, 0xb2, 0x50, 0x80, 0xb5, 0x27, 0x5f, 0x6e, 0x4e,
    0x62, 0xc4, 0x01, 0xcc, 0x6a, 0x16, 0xbc, 0xf7, 0xc4, 0xd4, 0x0e, 0x59, 0x86, 0x6c, 0x9b,
    0x7a, 0x98, 0x85, 0x56, 0x33, 0xf8, 0x0d, 0x76, 0x0d, 0x54, 0xe2, 0x96, 0xf2, 0x55, 0x6b,
    0x2f, 0x0c, 0x7e, 0x7e, 0x3a, 0xd5, 0x58, 0x5a, 0xf6, 0xd0, 0xb3, 0xc8, 0xc0, 0x66, 0xcf,
    0x41, 0x5e, 0x10, 0xc2]

def zipped : Frame := ⟨.zstd, zstdChunks, by decide +kernel⟩

def sealedOnce : Codec.Bytes :=
  [0x10, 0x52, 0xd7, 0x19, 0xc5, 0xe5, 0xc2, 0xa2, 0xa5, 0xf4, 0xb8, 0x76, 0xd1, 0x79, 0x7a, 0x10,
    0x86, 0xd6, 0x05, 0xb2, 0xe3, 0x64, 0xef, 0x5b, 0x95, 0x66, 0xe9, 0x46, 0x1d, 0x43, 0x0c,
    0xb1, 0xc5, 0x04, 0xa9, 0x21, 0x6e, 0xf1, 0xb5, 0x90, 0x3c, 0x1f, 0x7c, 0xbe, 0xe2, 0x23,
    0xc4, 0x40, 0x7e, 0x14, 0xe8, 0xc1, 0x5b, 0x59, 0x97, 0x17, 0x65, 0x74, 0x24, 0xd0, 0x9e,
    0x8f, 0xb5, 0x41, 0xba, 0x22, 0xe9, 0x76, 0x79, 0x55, 0xc1, 0xe9, 0x24, 0xde, 0x77, 0x7b,
    0xfd, 0x83, 0x52, 0xda, 0xf4, 0x67, 0x6a, 0x8a, 0xc7, 0x97, 0x57, 0x24, 0x92, 0x47, 0x22,
    0x95, 0x13, 0x5d, 0xbc, 0xae, 0x6a, 0xc0, 0x56, 0xcb, 0x84, 0x81, 0x4a, 0xbb, 0xb4, 0x66,
    0x67, 0x30, 0x63, 0x75, 0x61, 0xd0, 0x8d, 0xff, 0xe8, 0x23, 0x63, 0x05, 0xfc, 0xc7, 0x2f,
    0x11, 0x71, 0x0b, 0xde, 0x35, 0x2a, 0x2f, 0x80, 0x49, 0x93, 0x03, 0xc8, 0x1f, 0xa7, 0x98,
    0xba, 0xb1, 0xc8, 0x14, 0x1a, 0x85, 0x22, 0x8c, 0x54, 0x30, 0xe2, 0xf9, 0x5f, 0x07, 0x2f,
    0xbd, 0x48, 0x8b, 0xe6, 0x2e, 0x7c, 0xbe, 0x72, 0x94, 0x0b, 0x12, 0xc8, 0x26, 0x11, 0xf2,
    0xba, 0x73, 0xf3, 0x81, 0x4b, 0x08, 0x8a, 0xeb, 0xa9, 0xb7, 0xe3, 0xb0, 0xf0, 0xf7, 0xd3,
    0xf1, 0x85, 0x6c, 0xd6, 0x17, 0x00, 0xa1, 0xbe, 0x84, 0xe9, 0xe3, 0xd1, 0x5e, 0x65, 0xf8,
    0x13, 0xd5, 0x1e, 0xc8, 0x06, 0x21, 0xeb, 0x27, 0x2e, 0x48, 0x53, 0x39, 0x5a]

def sealedAgain : Codec.Bytes :=
  [0xcf, 0xae, 0x68, 0xda, 0x7f, 0x76, 0xfc, 0xea, 0x1f, 0x9f, 0x67, 0x28, 0xf1, 0x1b, 0x24, 0x9a,
    0x50, 0x03, 0x6f, 0x68, 0xe5, 0x62, 0x8b, 0x8d, 0x36, 0xa3, 0xf6, 0x23, 0xe4, 0x8a, 0xcc,
    0xf9, 0xe8, 0xe3, 0x6d, 0xf8, 0x20, 0xf5, 0x81, 0x69, 0x57, 0x48, 0x0d, 0x01, 0x84, 0x08,
    0xf6, 0xa2, 0x1c, 0x1b, 0x33, 0x9d, 0xa8, 0x7b, 0x20, 0x7e, 0x14, 0x1c, 0x74, 0x95, 0x3c,
    0x81, 0x0a, 0x17, 0x51, 0x34, 0x6f, 0xc7, 0x5b, 0x36, 0x3b, 0xd9, 0xcd, 0xf2, 0x6a, 0x6e,
    0x52, 0x00, 0x56, 0xba, 0xf6, 0xc5, 0x6f, 0xaf, 0xe0, 0x22, 0x04, 0x7a, 0xf9, 0x97, 0x73,
    0x92, 0x75, 0x09, 0x20, 0xb8, 0x14, 0x9b, 0xd1, 0xc5, 0x1d, 0xf6, 0xd8, 0x05, 0x43, 0xf7,
    0x72, 0x27, 0xc2, 0x9e, 0x64, 0x5f, 0x56, 0xb7, 0xf6, 0xb4, 0x75, 0xbf, 0xf4, 0x29, 0x07,
    0x0e, 0xe2, 0x5c, 0x3f, 0x2e, 0xa0, 0x0f, 0x04, 0xfc, 0x78, 0xb8, 0x0b, 0x88, 0xe0, 0xfa,
    0xa3, 0x85, 0x97, 0x14, 0x68, 0x86, 0x39, 0x6a, 0xe1, 0x4b, 0x13, 0xc4, 0xfa, 0xc7, 0x72,
    0xbe, 0xfd, 0x70, 0x02, 0xc6, 0xde, 0x93, 0x56, 0x29, 0xfa, 0xe1, 0x0d, 0xd3, 0x2a, 0x31,
    0x4b, 0x90, 0xb8, 0x3f, 0x45, 0xc4, 0xcd, 0x82, 0xc3, 0xd6, 0x11, 0x07, 0x8b, 0x1c, 0x21,
    0xe5, 0xcf, 0x1f, 0xf1, 0xe9, 0xe3, 0x9d, 0x0c, 0x9e, 0xb5, 0x38, 0x72, 0xac, 0x7f, 0x5b,
    0x9c, 0xd9, 0x67, 0x63, 0xf6, 0x56, 0x4b, 0xe0, 0x33, 0x74, 0xf1, 0x6b, 0x5e]

def recording : Recording where
  zipped := [⟨(), chunks.flatten, zstdChunks⟩]
  sealings := [⟨(SampleWorld.key, SampleWorld.nonce, [0x03]), zipped.bytes, sealedOnce⟩,
    ⟨(SampleWorld.key, TwoTexts.otherNonce, [0x03]), zipped.bytes, sealedAgain⟩]
  draws := [some SampleWorld.nonce, some TwoTexts.otherNonce]
  zipped_invertible := by decide +kernel
  sealings_invertible := by decide +kernel
  fresh := TwoTexts.recording.fresh

def sentOnce : Frame := ⟨.aes256Gcm, SampleWorld.nonce.val ++ sealedOnce, by decide +kernel⟩

def sentAgain : Frame := ⟨.aes256Gcm, TwoTexts.otherNonce.val ++ sealedAgain, by decide +kernel⟩

lemma sends_once : Sends recording SampleWorld.key chunks.flatten 0 zipped sentOnce := by
  refine ⟨⟨rfl, ?_⟩, rfl, SampleWorld.nonce, sealedOnce, rfl, ?_, rfl⟩ <;> decide +kernel

lemma sends_again : Sends recording SampleWorld.key chunks.flatten 1 zipped sentAgain := by
  refine ⟨⟨rfl, ?_⟩, rfl, TwoTexts.otherNonce, sealedAgain, rfl, ?_, rfl⟩ <;> decide +kernel

lemma replies_and_wire :
    let M := exports JsonInt schema .w64 (Recorded recording)
    let start := between recording SampleWorld.key 0 0 [] 0
    M.exchanges [exported, exported] start =
      [(exported, [.ok (), .ok (), .ok ()]), (exported, [.ok (), .ok (), .ok ()])] ∧
      (M.run [exported] start).wire = sentOnce.bytes ∧
      (M.run [exported, exported] start).wire = sentOnce.bytes ++ sentAgain.bytes := by
  intro M start
  obtain ⟨hne, hshort⟩ := fits_block length_chunks (by decide) (by decide)
  have hfirst := message_sent sends_once hne hshort 0 0 []
  have hsecond := message_sent sends_again hne hshort 1 (0 + zipped.bytes.length) ([] ++ sentOnce.bytes)
  change M.step exported start = _ at hfirst
  change M.step exported _ = _ at hsecond
  refine ⟨?_, ?_, ?_⟩
  · simp only [Machine.exchanges, hfirst, hsecond]
    rfl
  · simp only [Machine.run, hfirst]
    rfl
  · simp only [Machine.run, hfirst, hsecond]
    rfl

end TextBatch

open TextBatch Codec.Recorded in
/-- Both exports arrive. -/
theorem rows_through_codec_sample :
    let M := exports JsonInt schema .w64 (Recorded recording)
    let start : Session (LayeredEncoder (Recorded recording)) (Recorded recording) :=
      ⟨encoder recording SampleWorld.key, [], ⟨0⟩⟩
    let dec := decoder recording SampleWorld.key
    (M.exchanges [exported, exported] start).map Prod.snd =
        [[.ok (), .ok (), .ok ()], [.ok (), .ok (), .ok ()]] ∧
      (M.run [exported, exported] start).wire = sentOnce.bytes ++ sentAgain.bytes ∧
      ∀ piece ∈ [sentOnce.bytes, sentAgain.bytes], ∃ (f : Codec.Bytes) (batches : List RecordBatch),
        (∀ prior, Decoder.decode dec piece prior = ⟨.ok (), dec, prior ++ f⟩) ∧
        decodeArrowFramedBatches .w64 f = .ok batches ∧ (∀ batch ∈ batches, batch.schema = schema) ∧
        (batches.map RecordBatch.rows).flatten =
          [[some (.string "x")], [none], [none], [some (.string "x")]] := by
  intro M start dec
  obtain ⟨hreplies, hwire₁, hwire₂⟩ := replies_and_wire
  change M.exchanges _ start = _ at hreplies
  obtain ⟨pieces, hpieces, hwires⟩ := @rows_through_codec JsonInt (Recorded recording) _ _ schema .w64 _
    Recorded.roundTrip TextBatch.roundTrip (fun _ => rfl) JsonInt.tryNewSound (by decide) (some {})
    (some {}) (some ⟨.aes256Gcm, SampleWorld.key⟩) (encoder recording SampleWorld.key) dec rfl rfl rfl
    [exported, exported] [] ⟨0⟩
  change List.Forall₂ _ (M.exchanges _ start) pieces at hpieces
  rw [hreplies] at hpieces ⊢
  obtain ⟨first, _, hfirst, hlast, rfl⟩ := List.forall₂_cons_left_iff.mp hpieces
  obtain ⟨second, _, hsecond, hnil, rfl⟩ := List.forall₂_cons_left_iff.mp hlast
  obtain rfl := List.forall₂_nil_left_iff.mp hnil
  obtain rfl : sentOnce.bytes = first := by simpa using hwire₁.symm.trans (hwires 1)
  obtain rfl : sentAgain.bytes = second := by simpa using hwire₂.symm.trans (hwires 2)
  refine ⟨rfl, hwire₂, ?_⟩
  rw [List.forall_mem_cons, List.forall_mem_singleton]
  exact ⟨hfirst (by simp [Succeeded]), hsecond (by simp [Succeeded])⟩

end WpConnectorUtils
