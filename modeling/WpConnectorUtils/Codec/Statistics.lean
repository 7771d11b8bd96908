import WpConnectorUtils.Library.Fallible
import WpConnectorUtils.Codec.Step
import WpConnectorUtils.Codec.Recording

/-!
# The wire and the counters in every run

Whatever fails, an encoder with a layer appends whole frames of its outermost kind only, and
its counters say exactly what has been sealed into them.
-/

namespace WpConnectorUtils.Codec

variable {W : Type}

/-- Under `cipher`, frame `f` is a nonce followed by the seal of `d`. -/
structure SealedBy (cipher : AeadCipher W) (kind : FrameKind) (f : Frame) (d : Bytes) : Prop where
  kind_eq : f.kind = kind
  sealed : ∃ (nonce : Nonce) (c : Bytes) (w w' : W),
    cipher.aeadSeal nonce [kind.toU8] d w = (.ok c, w') ∧ f.payload = nonce.val ++ c

lemma AeadEncoder.Packs.sealedBy [Crates W] {e : AeadEncoder W} {w w' : W} {input : Bytes} {f : Frame}
    (h : e.Packs w input f w') : SealedBy e.cipher e.kind f input := by
  obtain ⟨hkind, nonce, sealed, ⟨w₁, -, hseal⟩, hpayload⟩ := h
  exact ⟨hkind, nonce, sealed, w₁, w', hseal, hpayload⟩

lemma kinds_of_sealed {cipher : AeadCipher W} {kind : FrameKind} {fs : List Frame} {ds : List Bytes}
    (h : List.Forall₂ (SealedBy cipher kind) fs ds) : ∀ f ∈ fs, f.kind = kind := by
  induction h with
  | nil => simp
  | cons hd _ ih =>
    rw [List.forall_mem_cons]
    exact ⟨hd.kind_eq, ih⟩

lemma BlockCompressor.PacksAll.kinds {c : BlockCompressor W} {w w' : W} {blocks : List Bytes}
    {fs : List Frame} (h : c.PacksAll w blocks fs w') : ∀ f ∈ fs, f.kind = c.kind := by
  induction h with
  | nil => simp
  | cons hf _ ih =>
    rw [List.forall_mem_cons]
    exact ⟨hf.1, ih⟩

/-- The seal appends a tag of 16 bytes. -/
def TagLength (cipher : AeadCipher W) : Prop :=
  ∀ nonce aad p w c w', cipher.aeadSeal nonce aad p w = (.ok c, w') → c.length = p.length + 16

/-- The seals of both ciphers append a tag of 16 bytes. -/
structure Crates.TagLength (W : Type) [Crates W] : Prop where
  ring : ∀ key nonce aad p (w w' : W) c, ringSeal key nonce aad p w = (.ok c, w') →
    c.length = p.length + 16
  sm4 : ∀ key nonce aad p (w w' : W) c, sm4Encrypt key nonce aad p w = (c, w') →
    c.length = p.length + 16

lemma SealedBy.length_bytes {cipher : AeadCipher W} (htag : TagLength cipher) {kind : FrameKind}
    {f : Frame} {d : Bytes} (h : SealedBy cipher kind f d) : f.bytes.length = 36 + d.length := by
  obtain ⟨-, nonce, c, w, w', hseal, hpayload⟩ := h
  have hc := htag _ _ _ _ _ _ hseal
  have hn : nonce.val.length = 12 := nonce.property
  rw [Frame.length_bytes, hpayload, List.length_append]
  omega

lemma length_stream_of_sealed {cipher : AeadCipher W} (htag : TagLength cipher) {kind : FrameKind}
    {fs : List Frame} {ds : List Bytes} (h : List.Forall₂ (SealedBy cipher kind) fs ds) :
    (frameCode.stream fs).length = 36 * fs.length + (ds.map List.length).sum := by
  induction h with
  | nil => rfl
  | cons hd _ ih =>
    have hf := hd.length_bytes htag
    simp only [PrefixCode.stream_cons, frameCode_encode, List.length_append, List.length_cons,
      List.map_cons, List.sum_cons]
    omega

/-- The encoder with `n` more nonces issued and `m` more bytes sealed. -/
def AeadEncoder.advance (e : AeadEncoder W) (n m : Nat) : AeadEncoder W :=
  { e with noncesIssued := e.noncesIssued + n, sealedBytes := e.sealedBytes + m }

section Steps

variable [Crates W] {call : Call} {w w' : W} {enc enc' : LayeredEncoder W}
  {result : Except CodecError Unit} {fs : List Frame}

/-- With encryption, a call seals one text for each frame it appends and counts them; a failing
call appends nothing. -/
lemma LayeredEncoder.Step.seals (h : LayeredEncoder.Step call w enc result enc' fs w')
    {e : AeadEncoder W} (he : enc.encrypt = some e) :
    ∃ ds, List.Forall₂ (SealedBy e.cipher e.kind) fs ds ∧
      enc'.encrypt = some (e.advance fs.length (ds.map List.length).sum) ∧
      (¬Succeeded result → fs = []) := by
  cases h with
  | compressed => cases he
  | jammed => cases he
  | encrypted _ hf =>
    cases he
    refine ⟨[call.input], .cons hf.sealedBy .nil, ?_, ?_⟩
    · simp [AeadEncoder.advance, AeadEncoder.count]
    · intro herr
      exact absurd rfl herr
  | wrapped _ _ hg =>
    cases he
    refine ⟨[_], .cons hg.sealedBy .nil, ?_, ?_⟩
    · simp [AeadEncoder.advance, AeadEncoder.count]
    · intro herr
      exact absurd rfl herr
  | idle | refused | buffered | unwrapped | broken =>
    cases he
    exact ⟨[], .nil, rfl, fun _ => rfl⟩

/-- Without encryption, the frames are those of the compressor. -/
lemma LayeredEncoder.Step.compresses {c : BlockCompressor W}
    (h : LayeredEncoder.Step call w ⟨some c, none⟩ result enc' fs w') :
    ∃ rest, enc' = ⟨some (c.hold rest), none⟩ ∧ ∀ f ∈ fs, f.kind = c.kind := by
  cases h with
  | compressed h => exact ⟨_, rfl, h.packs.kinds⟩
  | jammed h => exact ⟨_, rfl, h.packs.kinds⟩

end Steps

/-! ### Runs -/

lemma layered_of_encrypt {enc : LayeredEncoder W} {e : AeadEncoder W} (h : enc.encrypt = some e) :
    LayeredEncoder.Layered enc := by
  rintro rfl
  cases h

section Runs

variable [Crates W]

/-- The session's encoder has sealed `ds` into `fs`, which is all it has appended to `prior`. -/
structure Accounted (cipher : AeadCipher W) (kind : FrameKind) (prior : Bytes)
    (s : Session (LayeredEncoder W) W) (fs : List Frame) (ds : List Bytes) : Prop where
  wire : s.wire = prior ++ frameCode.stream fs
  sealed : List.Forall₂ (SealedBy cipher kind) fs ds
  encoder : s.encoder.encrypt = some ⟨cipher, kind, fs.length, (ds.map List.length).sum⟩

lemma Accounted.step {cipher : AeadCipher W} {kind : FrameKind} {prior : Bytes}
    {s : Session (LayeredEncoder W) W} {fs : List Frame} {ds : List Bytes}
    (h : Accounted cipher kind prior s fs ds) (call : Call) :
    ∃ gs es, Accounted cipher kind prior ((sessions (LayeredEncoder W) W).step call s).2
        (fs ++ gs) (ds ++ es) ∧
      (¬Succeeded ((sessions (LayeredEncoder W) W).step call s).1 → gs = [] ∧ es = []) := by
  obtain ⟨enc, wire, w⟩ := s
  obtain ⟨hwire, hsealed, henc⟩ := h
  dsimp only at hwire henc
  obtain ⟨result, enc', gs, w', hstep, hcall⟩ :=
    LayeredEncoder.call_step (layered_of_encrypt henc) call w
  obtain ⟨es, hes, henc', herr⟩ := hstep.seals henc
  rw [sessions_step (hcall wire)]
  refine ⟨gs, es, ⟨?_, List.rel_append hsealed hes, ?_⟩, ?_⟩
  · rw [hwire, frameCode.stream_append, List.append_assoc]
  · rw [henc']
    simp [AeadEncoder.advance]
  · intro hfail
    have hgs := herr hfail
    rw [hgs] at hes
    cases hes
    exact ⟨hgs, rfl⟩

lemma Accounted.stats {cipher : AeadCipher W} {kind : FrameKind} {prior : Bytes}
    {s : Session (LayeredEncoder W) W} {fs : List Frame} {ds : List Bytes}
    (h : Accounted cipher kind prior s fs ds) :
    Encoder.stats s.encoder = ⟨fs.length, (ds.map List.length).sum⟩ := by
  change ChainEncoder.stats s.encoder = _
  unfold ChainEncoder.stats
  rw [h.encoder]
  rfl

/-- A failing call changes neither the wire nor the counters. -/
lemma Accounted.unchanged {cipher : AeadCipher W} {kind : FrameKind} {prior : Bytes}
    {s : Session (LayeredEncoder W) W} {fs : List Frame} {ds : List Bytes}
    (h : Accounted cipher kind prior s fs ds) {call : Call}
    (hfail : ¬Succeeded ((sessions (LayeredEncoder W) W).step call s).1) :
    ((sessions (LayeredEncoder W) W).step call s).2.wire = s.wire ∧
      Encoder.stats ((sessions (LayeredEncoder W) W).step call s).2.encoder =
        Encoder.stats s.encoder := by
  obtain ⟨gs, es, hnext, hsame⟩ := h.step call
  obtain ⟨rfl, rfl⟩ := hsame hfail
  rw [List.append_nil, List.append_nil] at hnext
  exact ⟨hnext.wire.trans h.wire.symm, hnext.stats.trans h.stats.symm⟩

lemma accounted_run {cipher : AeadCipher W} {kind : FrameKind} {prior : Bytes}
    {s : Session (LayeredEncoder W) W} (h : ∃ fs ds, Accounted cipher kind prior s fs ds)
    (calls : List Call) :
    ∃ fs ds, Accounted cipher kind prior ((sessions (LayeredEncoder W) W).run calls s) fs ds := by
  have hstep : ∀ call s, (∃ fs ds, Accounted cipher kind prior s fs ds) →
      ∃ fs ds, Accounted cipher kind prior ((sessions (LayeredEncoder W) W).step call s).2 fs ds := by
    rintro call s ⟨fs, ds, h⟩
    obtain ⟨gs, es, h', -⟩ := h.step call
    exact ⟨_, _, h'⟩
  exact Machine.run_invariant _ hstep calls h

/-- Without encryption, the session has appended to `prior` frames of the compressor's kind. -/
def Compressing (kind : FrameKind) (prior : Bytes) (s : Session (LayeredEncoder W) W) : Prop :=
  ∃ c fs, s.encoder = ⟨some c, none⟩ ∧ c.kind = kind ∧ s.wire = prior ++ frameCode.stream fs ∧
    ∀ f ∈ fs, f.kind = kind

lemma Compressing.stats {kind : FrameKind} {prior : Bytes} {s : Session (LayeredEncoder W) W}
    (h : Compressing kind prior s) : Encoder.stats s.encoder = {} := by
  obtain ⟨c, fs, henc, -⟩ := h
  rw [henc]
  rfl

lemma compressing_run {kind : FrameKind} {prior : Bytes} {s : Session (LayeredEncoder W) W}
    (h : Compressing kind prior s) (calls : List Call) :
    Compressing kind prior ((sessions (LayeredEncoder W) W).run calls s) := by
  have hstep : ∀ call s, Compressing kind prior s →
      Compressing kind prior ((sessions (LayeredEncoder W) W).step call s).2 := by
    rintro call ⟨enc, wire, w⟩ ⟨c, fs, rfl, hkind, hwire, hfs⟩
    dsimp only at hwire
    have hl : LayeredEncoder.Layered (⟨some c, none⟩ : LayeredEncoder W) := by
      simp [LayeredEncoder.Layered]
    obtain ⟨result, enc', gs, w', hstep, hcall⟩ := LayeredEncoder.call_step hl call w
    obtain ⟨rest, rfl, hgs⟩ := hstep.compresses
    rw [sessions_step (hcall wire)]
    refine ⟨c.hold rest, fs ++ gs, rfl, hkind, ?_, ?_⟩
    · rw [hwire, frameCode.stream_append, List.append_assoc]
    · rw [List.forall_mem_append]
      exact ⟨hfs, fun f hf => (hgs f hf).trans hkind⟩
  exact Machine.run_invariant _ hstep calls h

lemma compressing_of_run (c : BlockCompressor W) (calls : List Call) (prior : Bytes) (w : W) :
    Compressing c.kind prior
      ((sessions (LayeredEncoder W) W).run calls ⟨⟨some c, none⟩, prior, w⟩) := by
  apply compressing_run
  exact ⟨c, [], rfl, rfl, (List.append_nil prior).symm, by simp⟩

lemma accounted_of_run (compress : Option (BlockCompressor W)) (cipher : AeadCipher W)
    (kind : FrameKind) (calls : List Call) (prior : Bytes) (w : W) :
    ∃ fs ds, Accounted cipher kind prior ((sessions (LayeredEncoder W) W).run calls
      ⟨⟨compress, some ⟨cipher, kind, 0, 0⟩⟩, prior, w⟩) fs ds := by
  apply accounted_run
  exact ⟨[], [], (List.append_nil prior).symm, .nil, rfl⟩

lemma tagLength_of_build (htag : Crates.TagLength W) {cfg : EncryptConfig} {cipher : AeadCipher W}
    (h : buildAeadCipher cfg = .ok cipher) : TagLength cipher := by
  intro nonce aad p w c w' hs
  unfold buildAeadCipher at h
  split at h
  · split at h
    · cases h
    split at h
    · cases h
    · cases h
      simp only [ringAes256Gcm, Prod.mk.injEq, Except.mapError_eq_ok] at hs
      exact htag.ring _ _ _ _ _ _ _ (Prod.ext hs.1 hs.2)
  · split at h
    · cases h
    · cases h
      simp only [sm4GcmCipher, Prod.mk.injEq, Except.ok.injEq] at hs
      exact htag.sm4 _ _ _ _ _ _ _ (Prod.ext hs.1 hs.2)

end Runs

/-- The kind of the outermost configured layer. -/
def outermostKind : Option CompressConfig → Option EncryptConfig → Option FrameKind
  | _, some cfg => some (cipherFrameKind cfg.cipher)
  | some cfg, none => match cfg.algo with
    | .gzip => some .gzip
    | .zstd => some .zstd
  | none, none => none

lemma outermostKind_compress [Crates W] (cfg : CompressConfig) :
    outermostKind (some cfg) none = some (buildCompressor cfg : BlockCompressor W).kind := by
  obtain ⟨algo, level⟩ := cfg
  cases algo <;> rfl

/-- After any calls, failing ones included, the wire is whole frames of the outermost kind and the
counters say what has been sealed in them; a call that fails with encryption on changes neither. -/
theorem wire_and_stats [Crates W] {compression : Option CompressConfig}
    {encryption : Option EncryptConfig} {enc : LayeredEncoder W}
    (hlayer : compression ≠ none ∨ encryption ≠ none)
    (henc : buildEncoder compression encryption = .ok enc) (calls : List Call) (prior : Bytes) (w : W) :
    let s := (sessions (LayeredEncoder W) W).run calls ⟨enc, prior, w⟩
    ∃ fs, s.wire = prior ++ frameCode.stream fs ∧
      (∀ f ∈ fs, outermostKind compression encryption = some f.kind) ∧
      (encryption = none → Encoder.stats s.encoder = {}) ∧
      ∀ cfg, encryption = some cfg →
        fs.length = (Encoder.stats s.encoder).noncesIssued ∧
        (Crates.TagLength W → (frameCode.stream fs).length =
          36 * (Encoder.stats s.encoder).noncesIssued + (Encoder.stats s.encoder).sealedBytes) ∧
        (∃ (cipher : AeadCipher W) (ds : List Bytes), buildAeadCipher cfg = .ok cipher ∧
          List.Forall₂ (SealedBy cipher (cipherFrameKind cfg.cipher)) fs ds ∧
          (Encoder.stats s.encoder).sealedBytes = (ds.map List.length).sum) ∧
        ∀ call, ¬Succeeded ((sessions (LayeredEncoder W) W).step call s).1 →
          ((sessions (LayeredEncoder W) W).step call s).2.wire = s.wire ∧
          Encoder.stats ((sessions (LayeredEncoder W) W).step call s).2.encoder =
            Encoder.stats s.encoder := by
  obtain ⟨hc, he⟩ := buildEncoder_ok henc
  obtain ⟨compress, encrypt⟩ := enc
  intro s
  cases he with
  | none =>
    cases compression with
    | none => simp at hlayer
    | some cfg =>
      dsimp only [Option.map] at hc
      subst hc
      have hrun := compressing_of_run (buildCompressor cfg) calls prior w
      have hstats := hrun.stats
      obtain ⟨c, fs, -, -, hwire, hfs⟩ := hrun
      refine ⟨fs, hwire, ?_, fun _ => hstats, ?_⟩
      · intro f hf
        rw [outermostKind_compress (W := W), hfs f hf]
      · intro cfg' hcfg'
        cases hcfg'
  | some he =>
    rename_i cfg e
    obtain ⟨cipher, hcipher, rfl⟩ := buildEncryptor_ok he
    obtain ⟨fs, ds, hrun⟩ :=
      accounted_of_run compress cipher (cipherFrameKind cfg.cipher) calls prior w
    refine ⟨fs, hrun.wire, ?_, ?_, ?_⟩
    · intro f hf
      rw [kinds_of_sealed hrun.sealed f hf]
      rfl
    · intro h
      cases h
    · intro cfg' hcfg'
      cases hcfg'
      rw [hrun.stats]
      refine ⟨rfl, ?_, ⟨cipher, ds, hcipher, hrun.sealed, rfl⟩, ?_⟩
      · intro htag
        exact length_stream_of_sealed (tagLength_of_build htag hcipher) hrun.sealed
      · intro call hfail
        have hsame := hrun.unchanged hfail
        rw [hrun.stats] at hsame
        exact hsame

lemma Recorded.tagLength {r : Recording}
    (h : ∀ k ∈ r.sealings, k.answer.length = k.request.length + 16) : Crates.TagLength (Recorded r) where
  ring key nonce aad p _ _ c hseal := by
    have hc : Known.forward r.sealings () (key, nonce, aad) p = .ok c := congrArg Prod.fst hseal
    unfold Known.forward at hc
    split at hc
    · rename_i k hk
      obtain ⟨-, rfl⟩ : k.key = (key, nonce, aad) ∧ k.request = p := by simpa using List.find?_some hk
      rw [← Except.ok.inj hc]
      exact h k (List.mem_of_find?_eq_some hk)
    · cases hc
  sm4 _ _ _ p _ _ c hseal := by
    have hc : p ++ List.replicate 16 0 = c := congrArg Prod.fst hseal
    rw [← hc, List.length_append, List.length_replicate]

open TwoTexts in
/-- Two texts are sent; a third one finds no nonce. -/
theorem wire_and_stats_sample :
    let M := sessions (LayeredEncoder (Recorded recording)) (Recorded recording)
    let s := M.run (bothCalls ++ [.encode SampleWorld.text])
      ⟨Recorded.encoder recording SampleWorld.key, [], ⟨0⟩⟩
    s.wire = frameCode.stream [sent, sentReply] ∧
      (∀ f ∈ [sent, sentReply], outermostKind (some {}) (some ⟨.aes256Gcm, SampleWorld.key⟩) = some f.kind) ∧
      Encoder.stats s.encoder = ⟨2, 39⟩ ∧ s.wire.length = 36 * 2 + 39 ∧
      ¬Succeeded (M.step .finish s).1 ∧ (M.step .finish s).2.wire = s.wire ∧
      Encoder.stats (M.step .finish s).2.encoder = ⟨2, 39⟩ := by
  intro M s
  obtain ⟨fs, hwire, hkinds, -, hstats⟩ := @wire_and_stats (Recorded recording) _ (some {})
    (some ⟨.aes256Gcm, SampleWorld.key⟩) (Recorded.encoder recording SampleWorld.key) (.inl (by simp)) rfl
    (bothCalls ++ [.encode SampleWorld.text]) [] ⟨0⟩
  have hs : s = ⟨⟨some ((buildCompressor {}).hold SampleWorld.text),
      some ⟨ringAes256Gcm SampleWorld.key, .aes256Gcm, 2, 39⟩⟩, sent.bytes ++ sentReply.bytes, ⟨2⟩⟩ := by
    have hencode := LayeredEncoder.step_both_short (W := Recorded recording) (buildCompressor {})
      ⟨ringAes256Gcm SampleWorld.key, .aes256Gcm, 2, 39⟩ SampleWorld.text
      (sent.bytes ++ sentReply.bytes) ⟨2⟩ (by decide)
    change M.run _ _ = _
    rw [Machine.run_append, both_sent.2, Machine.run_of_step hencode]
    rfl
  have hfail : ¬Succeeded (M.step .finish s).1 := by
    rw [hs]
    unfold Succeeded
    decide +kernel
  have hsent : s.wire = frameCode.stream [sent, sentReply] := (congrArg Session.wire hs).trans rfl
  have hcounted : Encoder.stats s.encoder = ⟨2, 39⟩ := by rw [hs]; rfl
  obtain rfl : [sent, sentReply] = fs := frameCode.stream_injective (hsent.symm.trans hwire)
  obtain ⟨-, hlen, -, hunchanged⟩ := hstats _ rfl
  have htag := hlen (Recorded.tagLength (by decide))
  obtain ⟨hsame, hcounters⟩ := hunchanged .finish hfail
  rw [hcounted] at htag
  rw [← hsent] at htag
  exact ⟨hsent, hkinds, hcounted, htag, hfail, hsame, hcounters.trans hcounted⟩

/-! ### Encryption alone -/

section EncryptOnly

variable [Crates W]

/-- The chunk that an exchange of an encryptor has sealed: a non-empty one that was accepted. -/
def sealedChunk : Call × Except CodecError Unit → Option Bytes
  | (.encode chunk, .ok ()) => if chunk = [] then none else some chunk
  | _ => none

/-- The session encrypts only and has sealed `ds`. -/
def EncryptsOnly (cipher : AeadCipher W) (kind : FrameKind) (prior : Bytes)
    (s : Session (LayeredEncoder W) W) (ds : List Bytes) : Prop :=
  s.encoder.compress = none ∧ ∃ fs, Accounted cipher kind prior s fs ds

lemma sealedChunk_of_empty {call : Call} (h : call.input = []) (reply : Except CodecError Unit) :
    sealedChunk (call, reply) = none := by
  cases call with
  | encode chunk =>
    obtain rfl : chunk = [] := h
    cases reply <;> rfl
  | finish => rfl

lemma sealedChunk_of_ok {call : Call} (h : call.input ≠ []) :
    sealedChunk (call, .ok ()) = some call.input := by
  cases call with
  | encode chunk => exact if_neg h
  | finish => exact absurd rfl h

/-- An exchange seals its chunk, if it has one. -/
lemma EncryptsOnly.step {cipher : AeadCipher W} {kind : FrameKind} {prior : Bytes}
    {s : Session (LayeredEncoder W) W} {ds : List Bytes} (h : EncryptsOnly cipher kind prior s ds)
    (call : Call) : EncryptsOnly cipher kind prior ((sessions (LayeredEncoder W) W).step call s).2
      (ds ++ (sealedChunk (call, ((sessions (LayeredEncoder W) W).step call s).1)).toList) := by
  obtain ⟨⟨compress, encrypt⟩, wire, w⟩ := s
  obtain ⟨hcompress, fs, hwire, hsealed, hencrypt⟩ := h
  dsimp only at hcompress hwire hencrypt
  subst hcompress hencrypt
  have hl : LayeredEncoder.Layered
      ⟨none, some ⟨cipher, kind, fs.length, (ds.map List.length).sum⟩⟩ := layered_of_encrypt rfl
  obtain ⟨result, enc', gs, w', hstep, hcall⟩ := LayeredEncoder.call_step hl call w
  rw [sessions_step (hcall wire)]
  cases hstep with
  | idle hempty =>
    rw [sealedChunk_of_empty hempty, PrefixCode.stream_nil, List.append_nil, Option.toList_none,
      List.append_nil]
    exact ⟨rfl, fs, hwire, hsealed, rfl⟩
  | @encrypted _ f _ hne hf =>
    rw [sealedChunk_of_ok hne]
    refine ⟨rfl, fs ++ [f], ?_, List.rel_append hsealed (.cons hf.sealedBy .nil), ?_⟩
    · rw [hwire, frameCode.stream_append, List.append_assoc]
    · simp [AeadEncoder.count]
  | refused =>
    have hnone (err : CodecError) : sealedChunk (call, .error err) = none := by
      cases call <;> rfl
    rw [hnone, PrefixCode.stream_nil, List.append_nil, Option.toList_none, List.append_nil]
    exact ⟨rfl, fs, hwire, hsealed, rfl⟩

lemma encryptsOnly_run {cipher : AeadCipher W} {kind : FrameKind} {prior : Bytes}
    (calls : List Call) {s : Session (LayeredEncoder W) W} {ds : List Bytes}
    (h : EncryptsOnly cipher kind prior s ds) :
    EncryptsOnly cipher kind prior ((sessions (LayeredEncoder W) W).run calls s)
      (ds ++ ((sessions (LayeredEncoder W) W).exchanges calls s).filterMap sealedChunk) := by
  induction calls generalizing s ds with
  | nil =>
    rw [Machine.exchanges, List.filterMap_nil, List.append_nil]
    exact h
  | cons call calls ih =>
    have hrest := ih (h.step call)
    rw [List.append_assoc] at hrest
    rw [Machine.exchanges, List.filterMap_cons]
    cases hchunk : sealedChunk (call, ((sessions (LayeredEncoder W) W).step call s).1) with
    | none =>
      rw [hchunk] at hrest
      exact hrest
    | some chunk =>
      rw [hchunk] at hrest
      exact hrest

/-- Encryption alone: after any calls, failing ones included, the wire is one frame for each
non-empty chunk whose call returned `Ok`, sealing that chunk, and the counters are their number
and their bytes. -/
theorem sealed_chunks {cfg : EncryptConfig} {enc : LayeredEncoder W}
    (henc : buildEncoder none (some cfg) = .ok enc) (calls : List Call) (prior : Bytes) (w : W) :
    let M := sessions (LayeredEncoder W) W
    let s := M.run calls ⟨enc, prior, w⟩
    let accepted := (M.exchanges calls ⟨enc, prior, w⟩).filterMap sealedChunk
    ∃ (cipher : AeadCipher W) (fs : List Frame), buildAeadCipher cfg = .ok cipher ∧
      s.wire = prior ++ frameCode.stream fs ∧
      List.Forall₂ (SealedBy cipher (cipherFrameKind cfg.cipher)) fs accepted ∧
      Encoder.stats s.encoder = ⟨accepted.length, (accepted.map List.length).sum⟩ := by
  obtain ⟨hc, he⟩ := buildEncoder_ok henc
  obtain ⟨compress, encrypt⟩ := enc
  dsimp only [Option.map] at hc
  subst hc
  cases he with
  | some he =>
    obtain ⟨cipher, hcipher, rfl⟩ := buildEncryptor_ok he
    have hstart : EncryptsOnly cipher (cipherFrameKind cfg.cipher) prior
        ⟨⟨none, some ⟨cipher, cipherFrameKind cfg.cipher, 0, 0⟩⟩, prior, w⟩ [] :=
      ⟨rfl, [], (List.append_nil prior).symm, .nil, rfl⟩
    obtain ⟨-, fs, hrun⟩ := encryptsOnly_run calls hstart
    intro M s accepted
    refine ⟨cipher, fs, hcipher, hrun.wire, hrun.sealed, ?_⟩
    rw [hrun.stats, hrun.sealed.length_eq]
    rfl

end EncryptOnly

/-- The first nonce is refused, the second one is not. -/
theorem sealed_chunks_sample :
    let enc : LayeredEncoder SampleWorld := ⟨none, some ⟨ringAes256Gcm SampleWorld.key, .aes256Gcm, 0, 0⟩⟩
    let calls : List Call := [.encode SampleWorld.text, .encode SampleWorld.text, .finish, .encode []]
    let M := sessions (LayeredEncoder SampleWorld) SampleWorld
    Encoder.stats (M.run calls ⟨enc, [], ⟨false⟩⟩).encoder = ⟨1, 2⟩ := by
  obtain ⟨cipher, fs, -, -, -, hstats⟩ := @sealed_chunks SampleWorld _ ⟨.aes256Gcm, SampleWorld.key⟩
    ⟨none, some ⟨ringAes256Gcm SampleWorld.key, .aes256Gcm, 0, 0⟩⟩ rfl
    [.encode SampleWorld.text, .encode SampleWorld.text, .finish, .encode []] [] ⟨false⟩
  exact hstats

end WpConnectorUtils.Codec
