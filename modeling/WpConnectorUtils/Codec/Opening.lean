import WpConnectorUtils.Codec.Refinement
import WpConnectorUtils.Codec.Chunking
import WpConnectorUtils.Codec.Statistics
import WpConnectorUtils.Codec.Recording

/-!
# What a key opens

Under the right key the wire of compression and encryption together opens to the bytes that
compression alone calls for, which the segments of the input determine. Frames sealed under
another key stop a decoder at the first of them, unless one ciphertext opens under both keys.
-/

namespace WpConnectorUtils.Codec

variable {W : Type}

/-! ### The right key -/

section Opened

variable [Crates W] {deflate : Bytes → Nat → Bytes} {zstd : Bytes → Int → Bytes}

lemma Crates.Compresses.pureCompress (h : Crates.Compresses W deflate zstd) :
    Crates.PureCompress W where
  gz block level v w := (h.gzEncode block level v).trans (h.gzEncode block level w).symm
  zstd block level v w := (h.zstdCompress block level v).trans (h.zstdCompress block level w).symm

omit [Crates W] in
/-- The outer wire opens to the inner one. -/
lemma Refines.opens {a : AeadDecoder W} {both only : Session (LayeredEncoder W) W}
    (h : Refines a both only) (prior : Bytes) :
    decodeFrames a.handle both.wire prior = (.ok (), prior ++ only.wire) := by
  obtain ⟨gs, fss, hboth, honly, hopens⟩ := h.wires
  have hinner : List.Forall₂ (Opens a.handle) gs (fss.map frameCode.stream) := by
    rw [List.forall₂_map_right_iff]
    exact hopens.imp (fun _ _ hg => hg.2)
  rw [hboth, honly, decodeFrames_stream_ok hinner]

lemma refines_start (hopen : Crates.OpenInverts W) (hpure : Crates.PureCompress W)
    {compression : CompressConfig} {encryption : EncryptConfig} {both : LayeredEncoder W}
    {a : AeadDecoder W} (hboth : buildEncoder (some compression) (some encryption) = .ok both)
    (ha : buildDecryptor encryption = .ok a) (w v : W) :
    Refines a ⟨both, [], w⟩ ⟨⟨some (buildCompressor compression), none⟩, [], v⟩ := by
  obtain ⟨hc, he⟩ := buildEncoder_ok hboth
  obtain ⟨compress, encrypt⟩ := both
  dsimp only [Option.map] at hc
  subst hc
  cases he with
  | some he =>
    exact ⟨⟨_, _, rfl, rfl, build_pure hpure compression, aead_matches hopen he ha⟩, [], [], rfl, rfl,
      .nil⟩

/-- When every call of an encoder with both layers succeeds, its wire decrypts, after every call, to
the reference wire of the segments of the input: chunks, nonces and the world leave no trace. -/
theorem opened_wire (hopen : Crates.OpenInverts W) (hzip : Crates.Compresses W deflate zstd)
    {compression : CompressConfig} {encryption : EncryptConfig} {both : LayeredEncoder W}
    {a : AeadDecoder W} (hboth : buildEncoder (some compression) (some encryption) = .ok both)
    (ha : buildDecryptor encryption = .ok a) (calls : List Call) (w : W)
    (hok : (sessions (LayeredEncoder W) W).Accepts Succeeded calls ⟨both, [], w⟩) (prior : Bytes) :
    Decoder.decode a ((sessions (LayeredEncoder W) W).run calls ⟨both, [], w⟩).wire prior =
      ⟨.ok (), a, prior ++ referenceWire (algoKind compression.algo)
        (compressedBlock deflate zstd compression) (segments calls)⟩ := by
  have hstep : ∀ call s t, Refines a s t →
      Succeeded ((sessions (LayeredEncoder W) W).step call s).1 →
      Succeeded ((sessions (LayeredEncoder W) W).step call t).1 ∧
        Refines a ((sessions (LayeredEncoder W) W).step call s).2
          ((sessions (LayeredEncoder W) W).step call t).2 := by
    intro call s t h hcall
    have h' := h.step hcall
    exact ⟨h'.1, h'.2.1⟩
  obtain ⟨-, hrun⟩ := Machine.lockstep _ hstep calls
    (refines_start hopen hzip.pureCompress hboth ha w w) hok
  have hinner := (follows_run (computes_of_build hzip compression) rfl calls [] w).2.wire
  rw [List.nil_append, buildCompressor_kind] at hinner
  change a.decode _ prior = _
  unfold AeadDecoder.decode
  rw [hrun.opens, hinner]

end Opened

lemma TotalWorld.openInverts : Crates.OpenInverts TotalWorld where
  ring key nonce aad p w w' c h := by
    have hc := congrArg Prod.fst h
    exact SampleWorld.roundTrip.ring key nonce aad p ⟨true⟩ _ c (Prod.ext hc rfl)
  sm4 key nonce aad p w w' c h := by
    have hc := congrArg Prod.fst h
    exact SampleWorld.roundTrip.sm4 key nonce aad p ⟨true⟩ _ c (Prod.ext hc rfl)

/-- A text sent byte by byte opens to its one compressed frame. -/
theorem opened_wire_sample :
    let both : LayeredEncoder TotalWorld :=
      ⟨some (buildCompressor {}), some ⟨ringAes256Gcm SampleWorld.key, .aes256Gcm, 0, 0⟩⟩
    let a : AeadDecoder TotalWorld := ⟨ringAes256Gcm SampleWorld.key, .aes256Gcm⟩
    Decoder.decode a ((sessions (LayeredEncoder TotalWorld) TotalWorld).run
        [.encode [0x68], .encode [0x69], .finish] ⟨both, [], ⟨⟩⟩).wire [] =
      ⟨.ok (), a, SampleWorld.framedText⟩ := by
  intro both a
  have hok : (sessions (LayeredEncoder TotalWorld) TotalWorld).Accepts Succeeded
      [.encode [0x68], .encode [0x69], .finish] ⟨both, [], ⟨⟩⟩ := by
    refine Machine.accepts_of_step (LayeredEncoder.step_both_short _ _ _ _ _ (by decide)) rfl ?_
    refine Machine.accepts_of_step (LayeredEncoder.step_both_short _ _ _ _ _ (by decide)) rfl ?_
    exact ⟨rfl, trivial⟩
  have href : referenceWire .zstd (compressedBlock (fun block _ => TotalWorld.deflate block)
      (fun block _ => TotalWorld.zstd block) {})
      (segments [.encode [0x68], .encode [0x69], .finish]) = SampleWorld.framedText := by
    decide
  have hopened := @opened_wire TotalWorld _ _ _ TotalWorld.openInverts TotalWorld.compresses {}
    ⟨.aes256Gcm, SampleWorld.key⟩ both a rfl rfl [.encode [0x68], .encode [0x69], .finish] ⟨⟩ hok []
  rw [hopened]
  exact congrArg _ href

/-! ### Another key -/

/-- The ciphertext of the frame, sealed under the key of `cfg`, opens under the one of `cfg'` too. -/
structure OpensTwice (W : Type) [Crates W] (cfg cfg' : EncryptConfig) (f : Frame) : Prop where
  cipher : cfg'.cipher = cfg.cipher
  key : cfg'.key ≠ cfg.key
  opened : ∃ (nonce : Nonce) (c p d : Bytes) (w w' : W), f.payload = nonce.val ++ c ∧
    cfg.cipherOf.aeadSeal nonce [(cipherFrameKind cfg.cipher).toU8] p w = (.ok c, w') ∧
    (cfg'.cipherOf : AeadCipher W).aeadOpen nonce [(cipherFrameKind cfg'.cipher).toU8] c = .ok d

section Foreign

variable [Crates W] {cfg cfg' : EncryptConfig}

lemma buildDecryptor_eq {a : AeadDecoder W} (ha : buildDecryptor cfg' = .ok a) :
    a = ⟨cfg'.cipherOf, cipherFrameKind cfg'.cipher⟩ := by
  unfold buildDecryptor at ha
  split at ha
  · cases ha
  · rename_i cipher hcipher
    obtain ⟨rfl, -⟩ := buildAeadCipher_eq hcipher
    exact (Except.ok.inj ha).symm

lemma cipherFrameKind_injective : Function.Injective cipherFrameKind := by
  intro c c' h
  cases c <;> cases c' <;> first | rfl | cases h

/-- A frame of another configuration that a decryptor opens. -/
lemma foreign_frame (hne : cfg ≠ cfg') {a : AeadDecoder W} (ha : buildDecryptor cfg' = .ok a)
    {f : Frame} {p d : Bytes}
    (h : SealedBy (cfg.cipherOf : AeadCipher W) (cipherFrameKind cfg.cipher) f p)
    (hopen : Opens a.handle f d) : OpensTwice W cfg cfg' f := by
  obtain rfl := buildDecryptor_eq ha
  obtain ⟨hkind, nonce, c, w, w', hseal, hpayload⟩ := h
  rw [AeadDecoder.opens_iff] at hopen
  obtain ⟨hkind', nonce', c', hpayload', hopened⟩ := hopen
  have hcipher : cfg'.cipher = cfg.cipher := cipherFrameKind_injective (hkind'.symm.trans hkind)
  obtain ⟨hnonce, rfl⟩ := List.append_inj (hpayload.symm.trans hpayload')
    (nonce.property.trans nonce'.property.symm)
  obtain rfl : nonce = nonce' := Subtype.ext hnonce
  refine ⟨hcipher, ?_, nonce, c, p, d, w, w', hpayload, hseal, hopened⟩
  intro hkey
  cases cfg
  cases cfg'
  cases hcipher
  cases hkey
  exact hne rfl

/-- The loop of a decryptor stops at a frame that it does not open. -/
lemma decodeFrames_stops {handle : BlockHandler} {own text : Bytes}
    (hown : decodeFrames handle own [] = (.ok (), text)) {f : Frame} (h : ∀ d, ¬Opens handle f d) :
    ∃ e, ∀ rest prior,
      decodeFrames handle (own ++ (f.bytes ++ rest)) prior = (.error e, prior ++ text) := by
  cases hhandle : handle f.kind f.payload with
  | ok d => exact absurd hhandle (h d)
  | error e =>
    refine ⟨e, fun rest prior => ?_⟩
    rw [decodeFrames_append (decodeFrames_prior hown prior), decodeFrames_frame, hhandle]

/-- Behind anything an encoder of its own configuration emitted, a decoder is given what an encoder
of another key or cipher emitted. Either it stops at the first of the other frames, having appended
what its own frames carry, or nothing at all if it decompresses; or the two ciphers are one, and the
ciphertext of this frame opens under both keys. -/
theorem foreign_frames_stop (laws : Crates.RoundTrip W)
    {compression compression' foreign : Option CompressConfig} (hne : cfg ≠ cfg')
    {own other : LayeredEncoder W} {dec : LayeredDecoder W}
    (halgo : compression'.map CompressConfig.algo = compression.map CompressConfig.algo)
    (hown : buildEncoder compression (some cfg') = .ok own)
    (hdec : buildDecoder compression' (some cfg') = .ok dec)
    (hother : buildEncoder foreign (some cfg) = .ok other) (calls calls' : List Call) (w w' : W)
    (hwire : ((sessions (LayeredEncoder W) W).run calls' ⟨other, [], w'⟩).wire ≠ []) :
    let M := sessions (LayeredEncoder W) W
    ∃ f rest p text, (M.run calls' ⟨other, [], w'⟩).wire = f.bytes ++ rest ∧
      SealedBy (cfg.cipherOf : AeadCipher W) (cipherFrameKind cfg.cipher) f p ∧
      Decodes dec (M.run calls ⟨own, [], w⟩).wire text ∧
      (OpensTwice W cfg cfg' f ∨ ∃ e, ∀ after prior,
        Decoder.decode dec ((M.run calls ⟨own, [], w⟩).wire ++
            ((M.run calls' ⟨other, [], w'⟩).wire ++ after)) prior =
          ⟨.error e, dec, if compression'.isSome then prior else prior ++ text⟩) := by
  intro M
  have hl : LayeredEncoder.Layered own := build_layered (.inr (by simp)) hown
  obtain ⟨fs, ds, hrun⟩ := carried_run
    ⟨[], [], carried_start hl (build_matches laws halgo hown hdec) w⟩ calls
  have htext : Decodes dec (M.run calls ⟨own, [], w⟩).wire ds.flatten := by
    rw [hrun.wire]
    exact decodes_stream hrun.carries
  obtain ⟨-, he⟩ := buildEncoder_ok hother
  obtain ⟨compress, encrypt⟩ := other
  cases he with
  | some he =>
    obtain ⟨cipher, hcipher, rfl⟩ := buildEncryptor_ok he
    obtain ⟨rfl, -⟩ := buildAeadCipher_eq hcipher
    obtain ⟨gs, es, hforeign⟩ := accounted_of_run compress cfg.cipherOf (cipherFrameKind cfg.cipher)
      calls' [] w'
    have hstream := hforeign.wire
    rw [List.nil_append] at hstream
    have hsealed := hforeign.sealed
    rw [hstream] at hwire ⊢
    cases hsealed with
    | nil => exact absurd rfl hwire
    | @cons g p gs es hg _ =>
      refine ⟨g, frameCode.stream gs, p, ds.flatten, frameCode.stream_cons g gs, hg, htext, ?_⟩
      obtain ⟨hp, ha⟩ := buildDecoder_ok hdec
      obtain ⟨decrypt, decompress⟩ := dec
      dsimp only at hp ha
      subst hp
      cases ha with
      | @some _ a ha =>
        by_cases htwice : ∃ d, Opens a.handle g d
        · obtain ⟨d, hd⟩ := htwice
          exact .inl (foreign_frame hne ha hg hd)
        right
        cases compression' with
        | none =>
          obtain ⟨e, hstop⟩ := decodeFrames_stops (decodes_decrypt_iff.mp htext)
            (not_exists.mp htwice)
          refine ⟨e, fun after prior => ?_⟩
          change Decoder.decode (⟨some a, none⟩ : LayeredDecoder W) _ prior = _
          rw [PrefixCode.stream_cons, frameCode_encode, List.append_assoc, decode_decrypt, hstop]
          rfl
        | some zip =>
          obtain ⟨mid, hmid, -⟩ := decodes_both_iff.mp htext
          obtain ⟨e, hstop⟩ := decodeFrames_stops hmid (not_exists.mp htwice)
          refine ⟨e, fun after prior => ?_⟩
          change Decoder.decode (⟨some a, some (buildDecompressor W zip)⟩ : LayeredDecoder W) _ prior = _
          rw [PrefixCode.stream_cons, frameCode_encode, List.append_assoc,
            decode_both_of_error a _ (hstop _ [])]
          rfl

end Foreign

namespace TwoTexts
open SampleWorld Recorded

/-- The encoder of the other key sends the text. -/
lemma other_wire : ((sessions (LayeredEncoder (Recorded recording)) (Recorded recording)).run
    [.encode text, .finish] ⟨encoder recording otherKey, [], ⟨0⟩⟩).wire = sentOther.bytes := by
  have hencode := LayeredEncoder.step_both_short (buildCompressor {} : BlockCompressor (Recorded recording))
    ⟨ringAes256Gcm otherKey, .aes256Gcm, 0, 0⟩ text [] ⟨0⟩ (by decide)
  unfold encoder
  rw [Machine.run_of_step hencode]
  exact congrArg (fun o => o.1.output) (call_finish sends_other (by decide) 0 0 [])

/-- The key does not open what the other key sealed. -/
lemma not_opensTwice :
    ¬OpensTwice (Recorded recording) ⟨.aes256Gcm, otherKey⟩ ⟨.aes256Gcm, key⟩ sentOther := by
  rintro ⟨-, -, n, c, p, d, w, w', hpayload, -, hopen⟩
  obtain ⟨hnonce, rfl⟩ := List.append_inj hpayload (nonce.property.trans n.property.symm)
  obtain rfl : nonce = n := Subtype.ext hnonce
  have hrefused : (ringAes256Gcm key : AeadCipher (Recorded recording)).aeadOpen nonce [0x03]
      otherSealedFrame = .error (.decode "open failed (tampered data?)") := by
    decide +kernel
  cases hrefused.symm.trans hopen

end TwoTexts

open TwoTexts in
/-- Behind the frame of a reply, a decoder is given the frame of a text under another key. -/
theorem foreign_frames_stop_sample :
    let dec : LayeredDecoder (Recorded recording) :=
      ⟨some ⟨ringAes256Gcm SampleWorld.key, .aes256Gcm⟩, none⟩
    ∃ e, ∀ after prior, Decoder.decode dec (sentReply.bytes ++ (sentOther.bytes ++ after)) prior =
      ⟨.error e, dec, prior ++ framedReply⟩ := by
  intro dec
  have hown : ((sessions (LayeredEncoder (Recorded recording)) (Recorded recording)).run
      [.encode framedReply] ⟨⟨none, some ⟨ringAes256Gcm SampleWorld.key, .aes256Gcm, 0, 0⟩⟩, [],
        ⟨1⟩⟩).wire = sentReply.bytes := by
    decide +kernel
  have hreply : Decodes dec sentReply.bytes framedReply := by
    have hopen : Opens (⟨ringAes256Gcm SampleWorld.key, .aes256Gcm⟩ : AeadDecoder (Recorded recording)).handle
        sentReply framedReply := by
      unfold Opens
      decide +kernel
    exact decodes_decrypt_iff.mpr (decodeFrames_single hopen)
  have hforeign := @foreign_frames_stop (Recorded recording) _ ⟨.aes256Gcm, otherKey⟩
    ⟨.aes256Gcm, SampleWorld.key⟩ Recorded.roundTrip none none (some {}) (by decide +kernel)
    ⟨none, some ⟨ringAes256Gcm SampleWorld.key, .aes256Gcm, 0, 0⟩⟩
    (Recorded.encoder recording otherKey) dec rfl rfl rfl rfl [.encode framedReply]
    [.encode SampleWorld.text, .finish] ⟨1⟩ ⟨0⟩ (by rw [other_wire]; exact sentOther.bytes_ne_nil)
  dsimp only at hforeign
  rw [other_wire, hown] at hforeign
  obtain ⟨f, rest, -, text, hother, -, htext, hstops⟩ := hforeign
  obtain ⟨rfl, -⟩ := frameCode.encode_append_inj ((List.append_nil sentOther.bytes).trans hother)
  obtain rfl : framedReply = text :=
    congrArg Outcome.output ((hreply []).symm.trans (htext []))
  exact hstops.resolve_left not_opensTwice

end WpConnectorUtils.Codec
