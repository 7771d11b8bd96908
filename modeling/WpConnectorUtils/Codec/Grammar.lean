import WpConnectorUtils.Codec.Chain

/-!
# The language of a decoder

Which byte strings a decoder accepts, in terms of `frame`, and what it has appended when it
returns, whether or not it accepts.
-/

namespace WpConnectorUtils.Codec
open ByteFormat

/-- `57 50 01 kind`, the four bytes of the length of `p`, then `p`. -/
def frame (kind : FrameKind) (p : Bytes) : Bytes :=
  [0x57, 0x50, 0x01, kind.toU8] ++ beBytes 4 p.length ++ p

lemma Frame.bytes_eq (f : Frame) : f.bytes = frame f.kind f.payload := rfl

/-- `w` is the frames of the payloads `ps`, and these open to the texts `ds`. -/
structure Parses (kind : FrameKind) (opened : Bytes → Bytes → Prop) (w : Bytes) (ps ds : List Bytes) :
    Prop where
  word : w = (ps.map (frame kind)).flatten
  fits : ∀ p ∈ ps, p.length < u32Limit
  opens : List.Forall₂ opened ps ds

/-- No frame that opens stands at the front of `r`. -/
def NoGoodFrame (kind : FrameKind) (opened : Bytes → Bytes → Prop) (r : Bytes) : Prop :=
  ∀ p d rest, p.length < u32Limit → opened p d → r ≠ frame kind p ++ rest

/-- `reply`, given for the input `w` and the earlier output `prior`, accepts exactly the words of
the grammar, in one way each, and has appended the texts of the leading good frames. -/
structure ReadsGrammar (kind : FrameKind) (opened : Bytes → Bytes → Prop) (w prior : Bytes)
    (reply : Except CodecError Unit × Bytes) : Prop where
  ok_iff : reply.1 = .ok () ↔ ∃ ps ds, Parses kind opened w ps ds
  unique : ∀ ps ds qs es, Parses kind opened w ps ds → Parses kind opened w qs es → ps = qs ∧ ds = es
  output_of_parses : ∀ ps ds, Parses kind opened w ps ds → reply.2 = prior ++ ds.flatten
  output_of_err : reply.1 ≠ .ok () → ∃ v r ps ds, w = v ++ r ∧ Parses kind opened v ps ds ∧ r ≠ [] ∧
    NoGoodFrame kind opened r ∧ reply.2 = prior ++ ds.flatten
  output_of_leading : ∀ v r ps ds, w = v ++ r → Parses kind opened v ps ds → NoGoodFrame kind opened r →
    reply.2 = prior ++ ds.flatten

section Handler

variable {kind : FrameKind} {opened : Bytes → Bytes → Prop} {handle : BlockHandler}

lemma parses_of_stream (hopen : ∀ f d, Opens handle f d ↔ f.kind = kind ∧ opened f.payload d)
    {fs : List Frame} {ds : List Bytes} (h : List.Forall₂ (Opens handle) fs ds) :
    Parses kind opened (frameCode.stream fs) (fs.map Frame.payload) ds := by
  induction h with
  | nil => exact ⟨rfl, by simp, .nil⟩
  | @cons f d fs ds hd _ ih =>
    obtain ⟨rfl, hd⟩ := (hopen f d).mp hd
    refine ⟨?_, ?_, .cons hd ih.opens⟩
    · rw [PrefixCode.stream_cons, ih.word, frameCode_encode, Frame.bytes_eq]
      simp
    · rw [List.map_cons, List.forall_mem_cons]
      exact ⟨f.fits, ih.fits⟩

lemma stream_of_parses (hopen : ∀ f d, Opens handle f d ↔ f.kind = kind ∧ opened f.payload d)
    {w : Bytes} {ps ds : List Bytes} (h : Parses kind opened w ps ds) :
    ∃ fs, w = frameCode.stream fs ∧ ps = fs.map Frame.payload ∧ List.Forall₂ (Opens handle) fs ds := by
  obtain ⟨rfl, hfits, hopens⟩ := h
  induction hopens with
  | nil => exact ⟨[], rfl, rfl, .nil⟩
  | @cons p d ps ds hd _ ih =>
    rw [List.forall_mem_cons] at hfits
    obtain ⟨fs, hw, rfl, hfs⟩ := ih hfits.2
    refine ⟨⟨kind, p, hfits.1⟩ :: fs, ?_, rfl, .cons ((hopen _ _).mpr ⟨rfl, hd⟩) hfs⟩
    rw [PrefixCode.stream_cons, ← hw]
    rfl

lemma halts_iff_noGoodFrame (hopen : ∀ f d, Opens handle f d ↔ f.kind = kind ∧ opened f.payload d)
    (r : Bytes) : frameCode.Halts (fun f => ∃ d, Opens handle f d) r ↔ NoGoodFrame kind opened r := by
  constructor
  · intro h p d rest hfits hd hr
    have htake : frameCode.take r = some (⟨kind, p, hfits⟩, rest) := by
      rw [hr]
      exact frameCode.take_encode ⟨kind, p, hfits⟩ rest
    exact h _ rest htake ⟨d, (hopen _ d).mpr ⟨rfl, hd⟩⟩
  · rintro h f rest htake ⟨d, hd⟩
    obtain ⟨rfl, hd⟩ := (hopen f d).mp hd
    exact h f.payload d rest f.fits hd (frameCode.encode_take r f rest htake).symm

/-- The loop reads the grammar of the frames its handler opens. -/
theorem decodeFrames_readsGrammar
    (hopen : ∀ f d, Opens handle f d ↔ f.kind = kind ∧ opened f.payload d) (w prior : Bytes) :
    ReadsGrammar kind opened w prior (decodeFrames handle w prior) := by
  have hleading : ∀ v r ps ds, w = v ++ r → Parses kind opened v ps ds → NoGoodFrame kind opened r →
      (decodeFrames handle w prior).2 = prior ++ ds.flatten := by
    intro v r ps ds hw hp hr
    obtain ⟨fs, rfl, -, hfs⟩ := stream_of_parses hopen hp
    rw [hw, decodeFrames_stream hfs]
    by_cases hnil : r = []
    · rw [hnil, decodeFrames_nil]
    · obtain ⟨e, he⟩ := decodeFrames_halts hnil ((halts_iff_noGoodFrame hopen r).mpr hr)
      rw [he]
  refine ⟨?_, ?_, ?_, ?_, hleading⟩
  · rw [decodeFrames_ok_iff]
    constructor
    · rintro ⟨fs, ds, rfl, hfs⟩
      exact ⟨_, ds, parses_of_stream hopen hfs⟩
    · rintro ⟨ps, ds, hp⟩
      obtain ⟨fs, hw, -, hfs⟩ := stream_of_parses hopen hp
      exact ⟨fs, ds, hw, hfs⟩
  · intro ps ds qs es hp hq
    obtain ⟨fs, hw, rfl, hfs⟩ := stream_of_parses hopen hp
    obtain ⟨gs, hv, rfl, hgs⟩ := stream_of_parses hopen hq
    obtain rfl : fs = gs := frameCode.stream_injective (hw.symm.trans hv)
    exact ⟨rfl, opened_unique hfs hgs⟩
  · intro ps ds hp
    exact hleading w [] ps ds (by simp) hp ((halts_iff_noGoodFrame hopen []).mp (by simp))
  · intro herr
    obtain ⟨fs, ds, r, hw, hfs, hr, hout, hok⟩ := decodeFrames_spec handle w
    refine ⟨_, r, _, ds, hw, parses_of_stream hopen hfs, ?_, (halts_iff_noGoodFrame hopen r).mp hr,
      hout prior⟩
    exact fun hnil => herr ((hok prior).mpr hnil)

end Handler

/-! ### The decoders -/

/-- The payload decompresses to `d`. -/
def BlockDecompressor.Opened (p : BlockDecompressor) (payload d : Bytes) : Prop :=
  p.decompress payload = .ok d

/-- The first twelve bytes of the payload are a nonce under which the rest opens to `d`. -/
def AeadDecoder.Opened {W : Type} (a : AeadDecoder W) (payload d : Bytes) : Prop :=
  ∃ h : 12 ≤ payload.length,
    a.cipher.aeadOpen ⟨payload.take 12, List.length_take_of_le h⟩ [a.kind.toU8] (payload.drop 12) = .ok d

lemma AeadDecoder.opens_iff_opened {W : Type} (a : AeadDecoder W) (f : Frame) (d : Bytes) :
    Opens a.handle f d ↔ f.kind = a.kind ∧ a.Opened f.payload d := by
  rw [a.opens_iff]
  constructor
  · rintro ⟨hkind, nonce, sealed, hp, hopen⟩
    have hlen : nonce.val.length = 12 := nonce.property
    have htake : f.payload.take 12 = nonce.val := by rw [hp, List.take_left' hlen]
    have hdrop : f.payload.drop 12 = sealed := by rw [hp, List.drop_left' hlen]
    have hle : 12 ≤ f.payload.length := by
      rw [hp, List.length_append]
      omega
    refine ⟨hkind, hle, ?_⟩
    simp only [htake, hdrop, Subtype.coe_eta]
    exact hopen
  · rintro ⟨hkind, hlen, hopen⟩
    exact ⟨hkind, ⟨_, List.length_take_of_le hlen⟩, _, (List.take_append_drop 12 _).symm, hopen⟩

section Decode

variable {W : Type} (d : AeadDecoder W) (c : BlockDecompressor)

lemma decode_decompress (w prior : Bytes) :
    Decoder.decode (⟨none, some c⟩ : LayeredDecoder W) w prior =
      ⟨(decodeFrames c.handle w prior).1, ⟨none, some c⟩, (decodeFrames c.handle w prior).2⟩ := rfl

lemma decode_decrypt (w prior : Bytes) :
    Decoder.decode (⟨some d, none⟩ : LayeredDecoder W) w prior =
      ⟨(decodeFrames d.handle w prior).1, ⟨some d, none⟩, (decodeFrames d.handle w prior).2⟩ := rfl

lemma decode_both_of_ok {w mid : Bytes} (h : decodeFrames d.handle w [] = (.ok (), mid))
    (prior : Bytes) : Decoder.decode (⟨some d, some c⟩ : LayeredDecoder W) w prior =
      ⟨(decodeFrames c.handle mid prior).1, ⟨some d, some c⟩, (decodeFrames c.handle mid prior).2⟩ := by
  change ChainDecoder.decode (⟨some d, some c⟩ : LayeredDecoder W) w prior = _
  have hd : Decoder.decode d w [] = ⟨.ok (), d, mid⟩ := by
    change d.decode w [] = _
    unfold AeadDecoder.decode
    rw [h]
  unfold ChainDecoder.decode
  dsimp only
  rw [hd]
  rfl

lemma decode_both_of_error {w mid : Bytes} {e : CodecError}
    (h : decodeFrames d.handle w [] = (.error e, mid)) (prior : Bytes) :
    Decoder.decode (⟨some d, some c⟩ : LayeredDecoder W) w prior =
      ⟨.error e, ⟨some d, some c⟩, prior⟩ := by
  change ChainDecoder.decode (⟨some d, some c⟩ : LayeredDecoder W) w prior = _
  have hd : Decoder.decode d w [] = ⟨.error e, d, mid⟩ := by
    change d.decode w [] = _
    unfold AeadDecoder.decode
    rw [h]
  unfold ChainDecoder.decode
  dsimp only
  rw [hd]

end Decode

/-- The two-layer decoder reads the inner grammar out of the texts of the outer one, and appends
nothing unless the whole input is in the outer one. -/
structure ReadsBoth {W : Type} (d : AeadDecoder W) (c : BlockDecompressor) (w prior : Bytes)
    (reply : Except CodecError Unit × Bytes) : Prop where
  ok_iff : reply.1 = .ok () ↔ ∃ ps ds qs es, Parses d.kind d.Opened w ps ds ∧
    Parses c.kind c.Opened ds.flatten qs es
  output_of_parses : ∀ ps ds qs es, Parses d.kind d.Opened w ps ds →
    Parses c.kind c.Opened ds.flatten qs es → reply.2 = prior ++ es.flatten
  output_of_outer : ∀ ps ds, Parses d.kind d.Opened w ps ds →
    ReadsGrammar c.kind c.Opened ds.flatten prior reply
  output_of_err : (∀ ps ds, ¬Parses d.kind d.Opened w ps ds) → reply.2 = prior

lemma decode_readsBoth {W : Type} (d : AeadDecoder W) (c : BlockDecompressor) (w prior : Bytes) :
    ReadsBoth d c w prior
      ((Decoder.decode (⟨some d, some c⟩ : LayeredDecoder W) w prior).result,
        (Decoder.decode (⟨some d, some c⟩ : LayeredDecoder W) w prior).output) := by
  have houter := decodeFrames_readsGrammar d.opens_iff_opened w []
  rcases h : decodeFrames d.handle w [] with ⟨result, mid⟩
  rw [h] at houter
  cases result with
  | error e =>
    have hnone : ∀ ps ds, ¬Parses d.kind d.Opened w ps ds := by
      intro ps ds hp
      have hok := houter.ok_iff.mpr ⟨ps, ds, hp⟩
      cases hok
    rw [decode_both_of_error d c h]
    refine ⟨⟨?_, ?_⟩, ?_, ?_, fun _ => rfl⟩
    · intro hok
      cases hok
    · rintro ⟨ps, ds, -, -, hp, -⟩
      exact absurd hp (hnone ps ds)
    · intro ps ds _ _ hp
      exact absurd hp (hnone ps ds)
    · intro ps ds hp
      exact absurd hp (hnone ps ds)
  | ok u =>
    obtain ⟨ps, ds, hp⟩ := houter.ok_iff.mp rfl
    have hmid : mid = ds.flatten := houter.output_of_parses ps ds hp
    have hsame : ∀ ps' ds', Parses d.kind d.Opened w ps' ds' → ds' = ds := by
      intro ps' ds' hp'
      exact (houter.unique ps' ds' ps ds hp' hp).2
    rw [decode_both_of_ok d c h, hmid]
    have hinner : ReadsGrammar c.kind c.Opened ds.flatten prior _ :=
      decodeFrames_readsGrammar c.opens_iff ds.flatten prior
    refine ⟨⟨?_, ?_⟩, ?_, ?_, ?_⟩
    · intro hok
      obtain ⟨qs, es, hq⟩ := hinner.ok_iff.mp hok
      exact ⟨ps, ds, qs, es, hp, hq⟩
    · rintro ⟨ps', ds', qs, es, hp', hq⟩
      rw [hsame ps' ds' hp'] at hq
      exact hinner.ok_iff.mpr ⟨qs, es, hq⟩
    · intro ps' ds' qs es hp' hq
      rw [hsame ps' ds' hp'] at hq
      exact hinner.output_of_parses qs es hq
    · intro ps' ds' hp'
      rw [hsame ps' ds' hp']
      exact hinner
    · intro hnone
      exact absurd hp (hnone ps ds)

/-- Every decoder with a layer accepts exactly its grammar, with a unique parse, and on `Err` has
appended what the leading good frames hold; with both layers, only if the outer one accepts. -/
theorem decode_grammar {W : Type} (d : AeadDecoder W) (c : BlockDecompressor) (w prior : Bytes) :
    ReadsGrammar c.kind c.Opened w prior
        ((Decoder.decode (⟨none, some c⟩ : LayeredDecoder W) w prior).result,
          (Decoder.decode (⟨none, some c⟩ : LayeredDecoder W) w prior).output) ∧
      ReadsGrammar d.kind d.Opened w prior
        ((Decoder.decode (⟨some d, none⟩ : LayeredDecoder W) w prior).result,
          (Decoder.decode (⟨some d, none⟩ : LayeredDecoder W) w prior).output) ∧
      ReadsBoth d c w prior
        ((Decoder.decode (⟨some d, some c⟩ : LayeredDecoder W) w prior).result,
          (Decoder.decode (⟨some d, some c⟩ : LayeredDecoder W) w prior).output) := by
  refine ⟨?_, ?_, decode_readsBoth d c w prior⟩
  · exact decodeFrames_readsGrammar c.opens_iff w prior
  · exact decodeFrames_readsGrammar d.opens_iff_opened w prior

end WpConnectorUtils.Codec
