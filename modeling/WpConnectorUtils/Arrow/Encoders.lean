import WpConnectorUtils.Arrow.Splitter

/-!
# One stream, three encoders

The encoders of `arrow/encode.rs` repeat one block of code with other texts for its errors. They
agree: a frame is its header and the bare stream, and where one of them fails the others do, at
the same call and for the same reason. The payload formats of `arrow/format.rs` are at the end.
-/

namespace WpConnectorUtils.Arrow
open ByteFormat

section Agreement

variable {S B : Type} [Ipc S B]

/-- A writer only appends to its buffer: with other bytes in front it does the same. -/
structure Ipc.Appends (S B : Type) [Ipc S B] where
  ahead : Bytes → Ipc.Writer B → Ipc.Writer B
  new : ∀ buf schema, Ipc.writerTryNew buf schema = (Ipc.writerTryNew [] schema).map (ahead buf)
  write : ∀ buf w (b : B), Ipc.write (ahead buf w) b = (Ipc.write w b).map (ahead buf)
  finish : ∀ buf w, Ipc.finish (ahead buf w) = (Ipc.finish w).map (ahead buf)
  buffer : ∀ buf w, Ipc.buffer (ahead buf w) = buf ++ Ipc.buffer w

/-- The calls of an encoder that can fail. -/
inductive Stage
  | create
  | write
  | finish
  deriving DecidableEq, Repr

/-- The error of a call, with the text that an encoder has for it. -/
def WriterDetails.error (details : WriterDetails) (failure : Stage × String) : SinkError :=
  match failure.1 with
  | .create => ⟨details.create, failure.2⟩
  | .write => ⟨details.write, failure.2⟩
  | .finish => ⟨details.finish, failure.2⟩

/-- The stream of the batches, or the call that failed with its reason. -/
def ipcStream (schema : S) (batches : List B) : Except (Stage × String) Bytes := do
  let writer ← (Ipc.writerTryNew (B := B) [] schema).mapError (Stage.create, ·)
  let writer ← (batches.foldlM Ipc.write writer).mapError (Stage.write, ·)
  let writer ← (Ipc.finish writer).mapError (Stage.finish, ·)
  return Ipc.buffer writer

/-- The block of the encoders puts its buffer in front of the stream and its texts on the error. -/
lemma writeStream_eq (laws : Ipc.Appends S B) (details : WriterDetails) (buf : Bytes) (schema : S)
    (batches : List B) : writeStream details buf schema batches =
      ((ipcStream schema batches).map (buf ++ ·)).mapError details.error := by
  unfold writeStream ipcStream
  rw [laws.new]
  cases Ipc.writerTryNew (B := B) [] schema with
  | error e => rfl
  | ok w =>
    change ((batches.foldlM Ipc.write (laws.ahead buf w)).mapError _ >>= _) = _
    rw [Except.foldlM_map (laws.write buf)]
    cases hwrite : batches.foldlM Ipc.write w with
    | error e => simp [bind, Except.bind, Except.map, Except.mapError, hwrite, WriterDetails.error]
    | ok w' =>
      have hfinish := laws.finish buf w'
      cases hw : Ipc.finish w' with
      | error e =>
        rw [hw] at hfinish
        simp [bind, Except.bind, Except.map, Except.mapError, hwrite, hw, hfinish,
          WriterDetails.error]
      | ok w'' =>
        rw [hw] at hfinish
        simp [bind, Except.bind, Except.map, Except.mapError, hwrite, hw, hfinish, laws.buffer,
          pure, Except.pure]

def streamDetails : WriterDetails :=
  ⟨"arrow create stream writer", "arrow encode batch", "arrow finish stream"⟩

def framedDetails : WriterDetails :=
  ⟨"arrow create framed writer", "arrow encode framed", "arrow finish framed"⟩

def framedMultiDetails : WriterDetails :=
  ⟨"arrow create framed multi writer", "arrow encode framed multi", "arrow finish framed multi"⟩

/-- The tag of a frame. -/
def frameTag (payload : Bytes) : Bytes := (payload.drop 4).take (tagLen payload)

lemma frameTag_frame {tag : String} (htag : (asBytes tag).length < 256 ^ 4) (ipc : Bytes) :
    frameTag (frameHeader tag ++ ipc) = asBytes tag := by
  unfold frameTag tagLen
  rw [(frameHeader_append htag ipc).1, frameHeader, List.append_assoc,
    List.drop_left' (length_beBytes 4 _), List.take_left]

/-- The three encoders on one batch: one outcome, the stream or a failed call, explains them all;
and a frame gives back its tag and decodes to whatever the bare stream decodes to. -/
theorem encoders_agree (laws : Ipc.Appends S B) (batch : B) :
    (∃ outcome : Except (Stage × String) Bytes,
      encodeBatchIpcStream batch = outcome.mapError streamDetails.error ∧
      ∀ tag, encodeIpcFrame tag batch =
          (outcome.map (frameHeader tag ++ ·)).mapError framedDetails.error ∧
        encodeIpcFrameMulti tag [batch] =
          (outcome.map (frameHeader tag ++ ·)).mapError framedMultiDetails.error) ∧
    ∀ tag width f, (asBytes tag).length < 2 ^ 32 → encodeIpcFrame tag batch = .ok f →
      Allocated width f → ∃ stream, encodeBatchIpcStream batch = .ok stream ∧
        frameTag f = asBytes tag ∧
        decodeArrowFramedBatches (B := B) width f = decodeArrowIpcBatches stream := by
  have hbare : ∀ outcome : Except (Stage × String) Bytes, outcome.map ([] ++ ·) = outcome := by
    intro outcome
    cases outcome <;> rfl
  have hstream : encodeBatchIpcStream batch =
      (ipcStream (Ipc.schema batch) [batch]).mapError streamDetails.error := by
    rw [encodeBatchIpcStream, writeStream_eq laws, hbare]
    rfl
  have hframe (tag : String) : encodeIpcFrame tag batch =
      ((ipcStream (Ipc.schema batch) [batch]).map (frameHeader tag ++ ·)).mapError
        framedDetails.error := writeStream_eq laws _ _ _ _
  constructor
  · refine ⟨_, hstream, fun tag => ⟨hframe tag, ?_⟩⟩
    exact writeStream_eq laws _ _ _ _
  · intro tag width f htag hf hfit
    have htag' : (asBytes tag).length < 256 ^ 4 := lt_of_lt_of_eq htag (by norm_num)
    rw [hframe, Except.mapError_eq_ok] at hf
    cases houtcome : ipcStream (Ipc.schema batch) [batch] with
    | error failure =>
      rw [houtcome] at hf
      cases hf
    | ok stream =>
      rw [houtcome] at hf hstream
      obtain rfl : frameHeader tag ++ stream = f := Except.ok.inj hf
      exact ⟨stream, hstream, frameTag_frame htag' stream,
        decodeArrowFramedBatches_frame htag' hfit⟩

end Agreement

def RowBatch.appends : Ipc.Appends Unit RowBatch where
  ahead (buf : Bytes) (w : Bytes) := buf ++ w
  new _ _ := rfl
  write buf w b := congrArg Except.ok (List.append_assoc buf w b.message)
  finish buf w := congrArg Except.ok (List.append_assoc buf w endOfStream)
  buffer _ _ := rfl

theorem encoders_agree_sample :
    ∃ stream, encodeBatchIpcStream RowBatch.one = .ok stream ∧
      encodeIpcFrame "tag" RowBatch.one = .ok (frameHeader "tag" ++ stream) ∧
      decodeArrowFramedBatches (B := RowBatch) .w64 (frameHeader "tag" ++ stream) =
        decodeArrowIpcBatches stream := by
  have hagree := encoders_agree RowBatch.appends RowBatch.one
  obtain ⟨outcome, hstream, hframes⟩ := hagree.1
  have hencode : encodeIpcFrame "tag" RowBatch.one =
      .ok (frameHeader "tag" ++ (RowBatch.schemaMessage ++ RowBatch.one.message ++
        RowBatch.endOfStream)) := rfl
  have hheader : (frameHeader "tag").length = 7 := by decide
  have hfit : Allocated .w64 (frameHeader "tag" ++ (RowBatch.schemaMessage ++
      RowBatch.one.message ++ RowBatch.endOfStream)) := by
    simp [Allocated, PointerWidth.bits, hheader, RowBatch.schemaMessage, RowBatch.endOfStream]
  obtain ⟨stream, hok, -, hdecode⟩ := hagree.2 "tag" .w64 _ (by decide) hencode hfit
  cases outcome with
  | error failure =>
    rw [hstream] at hok
    cases hok
  | ok bytes =>
    obtain rfl : bytes = stream := Except.ok.inj (hstream.symm.trans hok)
    refine ⟨bytes, hok, (hframes "tag").1, ?_⟩
    have hbytes := Except.ok.inj (hencode.symm.trans (hframes "tag").1)
    rw [hbytes] at hdecode
    exact hdecode

/-! ### Payload formats -/

inductive WireFormat
  | ndjson
  | arrowStream
  | arrowFramed
  deriving DecidableEq, Repr

def supportedDataFormats : List String := ["ndjson", "arrow_ipc", "arrow_framed"]

namespace WireFormat

def fromDataFormat (value : Option String) : WireFormat :=
  match value.getD "ndjson" with
  | "arrow_framed" => .arrowFramed
  | "arrow_ipc" => .arrowStream
  | _ => .ndjson

def parseStrict (value : Option String) : Except String WireFormat :=
  match value with
  | none | some "ndjson" => .ok .ndjson
  | some "arrow_ipc" => .ok .arrowStream
  | some "arrow_framed" => .ok .arrowFramed
  | some raw =>
    .error ("data_format must be one of: " ++ ", ".intercalate supportedDataFormats ++
      s!" (got '{raw}')")

def isArrow : WireFormat → Bool
  | .arrowStream | .arrowFramed => true
  | .ndjson => false

/-- The strict parser accepts the supported formats, with the meaning of the lenient one, which
takes everything else for NDJSON. -/
lemma parseStrict_eq_ok (value : Option String) (format : WireFormat) :
    parseStrict value = .ok format ↔
      value.getD "ndjson" ∈ supportedDataFormats ∧ fromDataFormat value = format := by
  cases value with
  | none => simp [parseStrict, fromDataFormat, supportedDataFormats]
  | some raw =>
    by_cases h₁ : raw = "ndjson"
    · subst h₁
      simp [parseStrict, fromDataFormat, supportedDataFormats]
    by_cases h₂ : raw = "arrow_ipc"
    · subst h₂
      simp [parseStrict, fromDataFormat, supportedDataFormats]
    by_cases h₃ : raw = "arrow_framed"
    · subst h₃
      simp [parseStrict, fromDataFormat, supportedDataFormats]
    simp [parseStrict, fromDataFormat, supportedDataFormats, h₁, h₂, h₃]

end WireFormat

end WpConnectorUtils.Arrow
