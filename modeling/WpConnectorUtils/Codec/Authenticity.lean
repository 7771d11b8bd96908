import WpConnectorUtils.Codec.Grammar

/-!
# Authenticity

With an ideal cipher, a decoder with encryption releases nothing but what encoders with its
cipher and key have sealed. Only the kind byte is authenticated with the text; the rest of the
header is pinned by `take_block`, and the split of the payload by the length of the nonce.
-/

namespace WpConnectorUtils.Codec

variable {W : Type} [Crates W]

/-- One `encode` call of some `AeadEncoder`, in the world it was made in. -/
structure Encoding (W : Type) where
  encoder : AeadEncoder W
  input : Bytes
  world : W

namespace Encoding

/-- The call sealed its input under the nonce into `c`. -/
def SealedInto (ev : Encoding W) (nonce : Nonce) (c : Bytes) : Prop :=
  ev.input ≠ [] ∧ ∃ w', ev.encoder.Seals ev.world ev.input nonce c w'

/-- The call returned `Ok` and appended frame `f`. -/
def Emitted (ev : Encoding W) (f : Frame) : Prop :=
  ∃ e' w', ev.encoder.encode ev.input [] ev.world = (⟨.ok (), e', f.bytes⟩, w')

/-- A call emits a frame exactly when what it sealed fits into that frame. -/
lemma emitted_iff (ev : Encoding W) (f : Frame) :
    ev.Emitted f ↔ f.kind = ev.encoder.kind ∧
      ∃ nonce c, ev.SealedInto nonce c ∧ f.payload = nonce.val ++ c := by
  constructor
  · rintro ⟨e', w', h⟩
    by_cases hne : ev.input = []
    · rw [hne, AeadEncoder.encode_nil] at h
      have hbytes : [] = f.bytes := congrArg (fun p => p.1.output) h
      exact absurd hbytes.symm f.bytes_ne_nil
    · by_cases hpacks : ∃ g w₁, ev.encoder.Packs ev.world ev.input g w₁
      · obtain ⟨g, w₁, hg⟩ := hpacks
        have hbytes : [] ++ g.bytes = f.bytes := by
          rw [AeadEncoder.encode_of_packs hne hg] at h
          exact congrArg (fun p => p.1.output) h
        have hsame : g = f := (frameCode.encode_append_inj (congrArg (· ++ []) hbytes)).1
        obtain ⟨hkind, nonce, c, hseal, hpayload⟩ := hg
        rw [← hsame]
        exact ⟨hkind, nonce, c, ⟨hne, w₁, hseal⟩, hpayload⟩
      · have hrej : ev.encoder.Rejects ev.world ev.input := fun g w₁ hg => hpacks ⟨g, w₁, hg⟩
        obtain ⟨err, w₁, he⟩ := AeadEncoder.encode_of_rejects hne hrej
        rw [he] at h
        cases congrArg (fun p => p.1.result) h
  · rintro ⟨hkind, nonce, c, ⟨hne, w', hseal⟩, hpayload⟩
    have hpacks : ev.encoder.Packs ev.world ev.input f w' := ⟨hkind, nonce, c, hseal, hpayload⟩
    exact ⟨_, w', AeadEncoder.encode_of_packs hne hpacks []⟩

end Encoding

/-- All calls so far of encoders with the decoder's cipher, key and kind. -/
def SameCipher (a : AeadDecoder W) (events : List (Encoding W)) : Prop :=
  ∀ ev ∈ events, ev.encoder.cipher = a.cipher ∧ ev.encoder.kind = a.kind

/-- Opening succeeds exactly on what one of the calls sealed, and gives back its input. -/
def IdealCipher (a : AeadDecoder W) (events : List (Encoding W)) : Prop :=
  ∀ nonce aad c p, a.cipher.aeadOpen nonce aad c = .ok p ↔
    aad = [a.kind.toU8] ∧ ∃ ev ∈ events, ev.SealedInto nonce c ∧ ev.input = p

/-- Frame `f` was emitted by one of the calls, for the text `p`. -/
def Genuine (events : List (Encoding W)) (f : Frame) (p : Bytes) : Prop :=
  ∃ ev ∈ events, ev.Emitted f ∧ ev.input = p

section Ideal

variable {a : AeadDecoder W} {events : List (Encoding W)}

/-- The frames that open are the emitted ones. -/
theorem opens_iff_genuine (hsame : SameCipher a events) (hideal : IdealCipher a events) (f : Frame)
    (p : Bytes) : Opens a.handle f p ↔ Genuine events f p := by
  rw [a.opens_iff]
  constructor
  · rintro ⟨hkind, nonce, c, hpayload, hopen⟩
    obtain ⟨-, ev, hev, hsealed, hinput⟩ := (hideal _ _ _ _).mp hopen
    have hkind' : f.kind = ev.encoder.kind := hkind.trans (hsame ev hev).2.symm
    exact ⟨ev, hev, (ev.emitted_iff f).mpr ⟨hkind', nonce, c, hsealed, hpayload⟩, hinput⟩
  · rintro ⟨ev, hev, hemitted, hinput⟩
    obtain ⟨hkind, nonce, c, hsealed, hpayload⟩ := (ev.emitted_iff f).mp hemitted
    refine ⟨hkind.trans (hsame ev hev).2, nonce, c, hpayload, ?_⟩
    exact (hideal _ _ _ _).mpr ⟨rfl, ev, hev, hsealed, hinput⟩

lemma genuine_all (hsame : SameCipher a events) (hideal : IdealCipher a events) {fs : List Frame}
    {ps : List Bytes} :
    List.Forall₂ (Opens a.handle) fs ps ↔ List.Forall₂ (Genuine events) fs ps := by
  constructor
  · intro h
    exact h.imp fun f p => (opens_iff_genuine hsame hideal f p).mp
  · intro h
    exact h.imp fun f p => (opens_iff_genuine hsame hideal f p).mpr

/-- No emitted frame stands at the front of `r`. -/
def NoneGenuine (events : List (Encoding W)) (r : Bytes) : Prop :=
  ∀ f p rest, r = f.bytes ++ rest → ¬Genuine events f p

/-- What the decoder appends for an arbitrary input. -/
lemma decodeFrames_genuine (hsame : SameCipher a events) (hideal : IdealCipher a events)
    (w prior : Bytes) : ∃ fs ps r, w = frameCode.stream fs ++ r ∧ List.Forall₂ (Genuine events) fs ps ∧
      NoneGenuine events r ∧ (decodeFrames a.handle w prior).2 = prior ++ ps.flatten ∧
      ((decodeFrames a.handle w prior).1 = .ok () ↔ r = []) := by
  obtain ⟨fs, ps, r, hw, hfs, hr, hout, hok⟩ := decodeFrames_spec a.handle w
  refine ⟨fs, ps, r, hw, (genuine_all hsame hideal).mp hfs, ?_, hout prior, hok prior⟩
  intro f p rest hrest hf
  have htake : frameCode.take r = some (f, rest) := by
    rw [hrest]
    exact frameCode.take_encode f rest
  exact hr f rest htake ⟨p, (opens_iff_genuine hsame hideal f p).mpr hf⟩

/-- Only one frame was emitted: any other input of its length is refused, and nothing comes out. -/
lemma decodeFrames_tampered (hsame : SameCipher a events) (hideal : IdealCipher a events)
    {s : Frame} (hs : ∀ f p, Genuine events f p → f = s) {w : Bytes}
    (hlen : w.length = s.bytes.length) (hne : w ≠ s.bytes) (prior : Bytes) :
    (decodeFrames a.handle w prior).1 ≠ .ok () ∧ (decodeFrames a.handle w prior).2 = prior := by
  obtain ⟨fs, ps, r, hw, hfs, -, hout, hok⟩ := decodeFrames_genuine hsame hideal w prior
  have hnil : fs = [] := by
    cases hfs with
    | nil => rfl
    | @cons f p fs ps hf _ =>
      have hwf : w = s.bytes ++ (frameCode.stream fs ++ r) := by
        rw [hw, hs f p hf, PrefixCode.stream_cons, List.append_assoc]
        rfl
      have htail : (frameCode.stream fs ++ r).length = 0 := by
        have hsum := congrArg List.length hwf
        rw [List.length_append] at hsum
        omega
      rw [List.length_eq_zero_iff.mp htail, List.append_nil] at hwf
      exact absurd hwf hne
  rw [hnil] at hw hfs
  have hps : ps = [] := by
    cases hfs
    rfl
  constructor
  · intro h
    rw [hok.mp h] at hw
    have hzero := congrArg List.length hw
    rw [hlen, Frame.length_bytes] at hzero
    simp at hzero
  · rw [hout, hps, List.flatten_nil, List.append_nil]

/-- Both layers: what comes out was decompressed from frames found in the texts of emitted frames. -/
lemma decode_both_genuine (hsame : SameCipher a events) (hideal : IdealCipher a events)
    (p : BlockDecompressor) (w prior : Bytes) :
    ∃ fs ps r gs es rest, w = frameCode.stream fs ++ r ∧ List.Forall₂ (Genuine events) fs ps ∧
      ps.flatten = frameCode.stream gs ++ rest ∧ List.Forall₂ (Opens p.handle) gs es ∧
      (Decoder.decode (⟨some a, some p⟩ : LayeredDecoder W) w prior).output = prior ++ es.flatten := by
  obtain ⟨fs, ps, r, hw, hfs, -, hout, -⟩ := decodeFrames_genuine hsame hideal w []
  rcases hdec : decodeFrames a.handle w [] with ⟨result, mid⟩
  rw [hdec] at hout
  have hmid : mid = ps.flatten := hout
  cases result with
  | error e =>
    refine ⟨fs, ps, r, [], [], ps.flatten, hw, hfs, rfl, .nil, ?_⟩
    rw [decode_both_of_error a p hdec, List.flatten_nil, List.append_nil]
  | ok u =>
    obtain ⟨gs, es, rest, hgs, hes, -, hin, -⟩ := decodeFrames_spec p.handle ps.flatten
    refine ⟨fs, ps, r, gs, es, rest, hw, hfs, hgs, hes, ?_⟩
    rw [decode_both_of_ok a p hdec, hmid]
    exact hin prior

/-- Whatever bytes an adversary sends: the decoder accepts exactly the concatenations of emitted
frames and releases their texts; otherwise it releases those of the leading emitted frames. One
emitted frame altered in place releases nothing, and what both layers together release was
decompressed out of texts of emitted frames. -/
theorem decode_authentic (hsame : SameCipher a events) (hideal : IdealCipher a events)
    (p : BlockDecompressor) (w prior : Bytes) :
    let reply := Decoder.decode (⟨some a, none⟩ : LayeredDecoder W) w prior
    (reply.result = .ok () ↔ ∃ fs ps, w = frameCode.stream fs ∧ List.Forall₂ (Genuine events) fs ps) ∧
    (∀ fs ps, w = frameCode.stream fs → List.Forall₂ (Genuine events) fs ps →
      reply.output = prior ++ ps.flatten) ∧
    (∃ fs ps r, w = frameCode.stream fs ++ r ∧ List.Forall₂ (Genuine events) fs ps ∧
      NoneGenuine events r ∧ reply.output = prior ++ ps.flatten) ∧
    (∀ s, (∀ f t, Genuine events f t → f = s) → w.length = s.bytes.length → w ≠ s.bytes →
      reply.result ≠ .ok () ∧ reply.output = prior) ∧
    ∃ fs ps r gs es rest, w = frameCode.stream fs ++ r ∧ List.Forall₂ (Genuine events) fs ps ∧
      ps.flatten = frameCode.stream gs ++ rest ∧ List.Forall₂ (Opens p.handle) gs es ∧
      (Decoder.decode (⟨some a, some p⟩ : LayeredDecoder W) w prior).output = prior ++ es.flatten := by
  intro reply
  refine ⟨?_, ?_, ?_, ?_, decode_both_genuine hsame hideal p w prior⟩
  · change (decodeFrames a.handle w prior).1 = .ok () ↔ _
    rw [decodeFrames_ok_iff]
    simp only [genuine_all hsame hideal]
  · intro fs ps hw hfs
    change (decodeFrames a.handle w prior).2 = _
    rw [hw, decodeFrames_stream_ok ((genuine_all hsame hideal).mpr hfs)]
  · obtain ⟨fs, ps, r, hw, hfs, hr, hout, -⟩ := decodeFrames_genuine hsame hideal w prior
    exact ⟨fs, ps, r, hw, hfs, hr, hout⟩
  · intro s hs hlen hne
    exact decodeFrames_tampered hsame hideal hs hlen hne prior

end Ideal

/-! ### A sample -/

def sampleAead : AeadCipher SampleWorld where
  aeadSeal := (ringAes256Gcm SampleWorld.key).aeadSeal
  aeadOpen nonce aad c :=
    if nonce = SampleWorld.nonce ∧ aad = [0x03] ∧ c = SampleWorld.sealedText then .ok SampleWorld.text
    else .error (.decode "open failed (tampered data?)")

def sampleEncoding : Encoding SampleWorld where
  encoder := ⟨sampleAead, .aes256Gcm, 0, 0⟩
  input := SampleWorld.text
  world := ⟨true⟩

def sampleFrame : Frame where
  kind := .aes256Gcm
  payload := SampleWorld.nonce.val ++ SampleWorld.sealedText
  fits := by decide

lemma sample_sealedInto (nonce : Nonce) (c : Bytes) :
    sampleEncoding.SealedInto nonce c ↔ nonce = SampleWorld.nonce ∧ c = SampleWorld.sealedText := by
  constructor
  · rintro ⟨-, w', w₁, hnonce, hseal⟩
    have hn : Except.ok SampleWorld.nonce = Except.ok nonce := congrArg Prod.fst hnonce
    cases hn
    have hc : Except.ok SampleWorld.sealedText = Except.ok c := congrArg Prod.fst hseal
    cases hc
    exact ⟨rfl, rfl⟩
  · rintro ⟨rfl, rfl⟩
    exact ⟨by decide, ⟨true⟩, ⟨true⟩, rfl, rfl⟩

lemma sample_ideal : IdealCipher (⟨sampleAead, .aes256Gcm⟩ : AeadDecoder SampleWorld)
    [sampleEncoding] := by
  intro nonce aad c p
  simp only [List.mem_singleton, exists_eq_left, sample_sealedInto]
  change (if nonce = SampleWorld.nonce ∧ aad = [0x03] ∧ c = SampleWorld.sealedText then
    Except.ok SampleWorld.text else _) = _ ↔ aad = [0x03] ∧ _ ∧ SampleWorld.text = p
  split
  · rename_i h
    simp [h]
  · rename_i h
    constructor
    · intro hp
      cases hp
    · rintro ⟨haad, ⟨hnonce, hc⟩, -⟩
      exact absurd ⟨hnonce, haad, hc⟩ h

lemma sample_genuine {f : Frame} {t : Bytes} (h : Genuine [sampleEncoding] f t) : f = sampleFrame := by
  obtain ⟨ev, hev, hemitted, -⟩ := h
  rw [List.mem_singleton.mp hev, Encoding.emitted_iff] at hemitted
  obtain ⟨hkind, nonce, c, hsealed, hpayload⟩ := hemitted
  obtain ⟨rfl, rfl⟩ := (sample_sealedInto nonce c).mp hsealed
  exact Frame.ext' hkind hpayload

theorem decode_authentic_sample :
    (Decoder.decode (⟨some ⟨sampleAead, .aes256Gcm⟩, none⟩ : LayeredDecoder SampleWorld)
        (sampleFrame.bytes.set 37 0x00) []).result ≠ .ok () ∧
      (Decoder.decode (⟨some ⟨sampleAead, .aes256Gcm⟩, none⟩ : LayeredDecoder SampleWorld)
        (sampleFrame.bytes.set 37 0x00) []).output = [] := by
  have hsame : SameCipher (⟨sampleAead, .aes256Gcm⟩ : AeadDecoder SampleWorld) [sampleEncoding] := by
    intro ev hev
    rw [List.mem_singleton.mp hev]
    exact ⟨rfl, rfl⟩
  have hauth := decode_authentic hsame sample_ideal (buildDecompressor SampleWorld {})
    (sampleFrame.bytes.set 37 0x00) []
  exact hauth.2.2.2.1 sampleFrame (fun f t => sample_genuine) (by simp) (by decide)

end WpConnectorUtils.Codec
