import Mathlib.Data.List.ReduceOption
import Mathlib.Data.Set.Basic
import WpConnectorUtils.Codec.Step

/-!
# Recorded crates

A recording holds what `zstd` and `ring` answered to some requests, and the draws of the random
source in order. In the world of a recording the crates give these answers again, and refuse every
other request.
-/

namespace WpConnectorUtils.Codec

/-- A request under a key, and the answer to it. -/
structure Known (κ : Type) where
  key : κ
  request : Bytes
  answer : Bytes

namespace Known

variable {κ ε δ : Type} [DecidableEq κ]

def forward (known : List (Known κ)) (refusal : ε) (key : κ) (request : Bytes) : Except ε Bytes :=
  match known.find? fun k => k.key = key ∧ k.request = request with
  | some k => .ok k.answer
  | none => .error refusal

def backward (known : List (Known κ)) (refusal : ε) (key : κ) (answer : Bytes) : Except ε Bytes :=
  match known.find? fun k => k.key = key ∧ k.answer = answer with
  | some k => .ok k.request
  | none => .error refusal

/-- Every answer leads back to its request. -/
def Invertible (known : List (Known κ)) : Prop :=
  ∀ k ∈ known, backward known () k.key k.answer = .ok k.request

instance (known : List (Known κ)) : Decidable (Invertible known) :=
  inferInstanceAs (Decidable (∀ k ∈ known, backward known () k.key k.answer = .ok k.request))

lemma backward_of_forward {known : List (Known κ)} (h : Invertible known) {refusal : ε} {key : κ}
    {request answer : Bytes} (hforward : forward known refusal key request = .ok answer)
    (refusal' : δ) : backward known refusal' key answer = .ok request := by
  unfold forward at hforward
  split at hforward
  swap
  · cases hforward
  rename_i k hk
  obtain rfl := Except.ok.inj hforward
  obtain ⟨rfl, rfl⟩ : k.key = key ∧ k.request = request := by simpa using List.find?_some hk
  have hback := h k (List.mem_of_find?_eq_some hk)
  unfold backward at hback ⊢
  split at hback
  · exact congrArg Except.ok (Except.ok.inj hback)
  · cases hback

end Known

/-- Texts compressed at level 3, texts sealed under a key, a nonce and associated data, and draws,
of which some may have failed. -/
structure Recording where
  zipped : List (Known Unit)
  sealings : List (Known (Bytes × Nonce × Bytes))
  draws : List (Option Nonce)
  zipped_invertible : Known.Invertible zipped
  sealings_invertible : Known.Invertible sealings
  fresh : draws.reduceOption.Nodup

/-- The world of a recording, after some draws. -/
structure Recorded (r : Recording) where
  drawn : Nat

namespace Recorded

variable {r : Recording}

def draw (w : Recorded r) : Except Unit Nonce :=
  match (r.draws[w.drawn]?).join with
  | some nonce => .ok nonce
  | none => .error ()

instance : Crates (Recorded r) where
  gzEncode _ _ w := (.error "not recorded", w)
  gzDecode _ := .error "not recorded"
  zstdCompress data level w :=
    (if level = 3 then Known.forward r.zipped "not recorded" () data else .error "not recorded", w)
  zstdDecodeAll data := Known.backward r.zipped "not recorded" () data
  randomFill w := (draw w, ⟨w.drawn + 1⟩)
  unboundKey _ := .ok ()
  ringSeal key nonce aad p w := (Known.forward r.sealings () (key, nonce, aad) p, w)
  ringOpen key nonce aad c := Known.backward r.sealings () (key, nonce, aad) c
  sm4Encrypt _ _ _ p w := (p ++ List.replicate 16 0, w)
  sm4Decrypt _ _ _ c := .ok (c.take (c.length - 16))

lemma roundTrip : Crates.RoundTrip (Recorded r) where
  gz _ _ _ _ _ h := by cases congrArg Prod.fst h
  zstd _ level _ _ c h := by
    have hc := congrArg Prod.fst h
    change (if level = 3 then _ else _) = Except.ok c at hc
    split_ifs at hc
    exact Known.backward_of_forward r.zipped_invertible hc _
  ring _ _ _ _ _ _ _ h :=
    Known.backward_of_forward r.sealings_invertible (congrArg Prod.fst h) _
  sm4 _ _ _ p _ _ c h := by
    have hc : p ++ List.replicate 16 0 = c := congrArg Prod.fst h
    rw [← hc]
    simp [Crates.sm4Decrypt]

/-- The nonces drawn so far. -/
def issued (w : Recorded r) : Set Nonce := {nonce | nonce ∈ (r.draws.take w.drawn).reduceOption}

lemma draw_fresh {w w' : Recorded r} {nonce : Nonce} (h : Crates.randomFill w = (.ok nonce, w')) :
    nonce ∉ w.issued ∧ nonce ∈ w'.issued := by
  obtain rfl : (⟨w.drawn + 1⟩ : Recorded r) = w' := congrArg Prod.snd h
  have hdraw : draw w = .ok nonce := congrArg Prod.fst h
  unfold draw at hdraw
  have hget : r.draws[w.drawn]? = some (some nonce) := by
    split at hdraw
    · rename_i n hn
      rw [← Except.ok.inj hdraw]
      exact Option.join_eq_some_iff.mp hn
    · cases hdraw
  have htake : (r.draws.take (w.drawn + 1)).reduceOption =
      (r.draws.take w.drawn).reduceOption ++ [nonce] := by
    rw [List.take_add_one, hget, List.reduceOption_append]
    rfl
  have hnodup : (r.draws.take (w.drawn + 1)).reduceOption.Nodup :=
    r.fresh.sublist ((List.take_sublist _ _).filterMap _)
  rw [htake] at hnodup
  constructor
  · intro hold
    exact (List.nodup_append.mp hnodup).2.2 nonce hold nonce (List.mem_singleton_self nonce) rfl
  · change nonce ∈ (r.draws.take (w.drawn + 1)).reduceOption
    rw [htake]
    exact List.mem_append_right _ (List.mem_singleton_self nonce)

lemma issued_draw (w : Recorded r) : w.issued ⊆ (⟨w.drawn + 1⟩ : Recorded r).issued := by
  intro nonce hnonce
  change nonce ∈ (r.draws.take (w.drawn + 1)).reduceOption
  rw [List.take_add_one, List.reduceOption_append]
  exact List.mem_append_left _ hnonce

/-! ### An encoder with both layers -/

def encoder (r : Recording) (key : Bytes) : LayeredEncoder (Recorded r) :=
  ⟨some (buildCompressor {}), some ⟨ringAes256Gcm key, .aes256Gcm, 0, 0⟩⟩

def decoder (r : Recording) (key : Bytes) : LayeredDecoder (Recorded r) :=
  ⟨some ⟨ringAes256Gcm key, .aes256Gcm⟩, some (buildDecompressor (Recorded r) {})⟩

/-- The recording has the text compressed into the frame. -/
def Zips (r : Recording) (text : Bytes) (f : Frame) : Prop :=
  f.kind = .zstd ∧ Known.forward r.zipped "not recorded" () text = .ok f.payload

/-- It also has this frame sealed into `g`, under the nonce of draw `drawn`. -/
structure Sends (r : Recording) (key text : Bytes) (drawn : Nat) (f g : Frame) : Prop where
  zips : Zips r text f
  kind : g.kind = .aes256Gcm
  seals : ∃ nonce sealed, draw (⟨drawn⟩ : Recorded r) = .ok nonce ∧
    Known.forward r.sealings () (key, nonce, [FrameKind.aes256Gcm.toU8]) f.bytes = .ok sealed ∧
    g.payload = nonce.val ++ sealed

lemma Zips.packs {text : Bytes} {f : Frame} (h : Zips r text f) (w : Recorded r) :
    ((buildCompressor {} : BlockCompressor (Recorded r)).hold text).Packs w text f w := by
  refine ⟨h.1, ?_⟩
  change ((Known.forward r.zipped "not recorded" () text).mapError CodecError.compress, _) = _
  rw [h.2]
  rfl

section Finishing

variable {key text : Bytes} {drawn : Nat} {f g : Frame}

lemma call_finish (h : Sends r key text drawn f g) (hne : text ≠ []) (noncesIssued sealedBytes : Nat)
    (output : Bytes) :
    let e : AeadEncoder (Recorded r) := ⟨ringAes256Gcm key, .aes256Gcm, noncesIssued, sealedBytes⟩
    Encoder.call (⟨some ((buildCompressor {}).hold text), some e⟩ : LayeredEncoder (Recorded r)) output
        ⟨drawn⟩ .finish =
      (⟨.ok (), ⟨some (buildCompressor {}), some (e.count f.bytes)⟩, output ++ g.bytes⟩,
        ⟨drawn + 1⟩) := by
  intro e
  obtain ⟨hzips, hkind, nonce, sealed, hdraw, hseal, hpayload⟩ := h
  have hg : e.Packs ⟨drawn⟩ f.bytes g ⟨drawn + 1⟩ := by
    refine ⟨hkind, nonce, sealed, ⟨⟨drawn + 1⟩, ?_, ?_⟩, hpayload⟩
    · change ((draw (⟨drawn⟩ : Recorded r)).mapError _, _) = _
      rw [hdraw]
      rfl
    · change ((Known.forward r.sealings () (key, nonce, [FrameKind.aes256Gcm.toU8]) f.bytes).mapError _,
        _) = _
      rw [hseal]
      rfl
  exact LayeredEncoder.call_both_finish hne (hzips.packs _) hg output

lemma call_finish_undrawn (h : Zips r text f) (hne : text ≠ [])
    (hdraw : draw (⟨drawn⟩ : Recorded r) = .error ()) (noncesIssued sealedBytes : Nat)
    (output : Bytes) :
    let e : AeadEncoder (Recorded r) := ⟨ringAes256Gcm key, .aes256Gcm, noncesIssued, sealedBytes⟩
    Encoder.call (⟨some ((buildCompressor {}).hold text), some e⟩ : LayeredEncoder (Recorded r)) output
        ⟨drawn⟩ .finish =
      (⟨.error (.encrypt "nonce generation failed"), ⟨some (buildCompressor {}), some e⟩, output⟩,
        ⟨drawn + 1⟩) := by
  intro e
  have hfinish := BlockCompressor.call_of_emits (.finish hne (h.packs (⟨drawn⟩ : Recorded r))) []
  rw [LayeredEncoder.call_both_of_ok hfinish]
  have hnonce : newNonce (⟨drawn⟩ : Recorded r) =
      (.error (.encrypt "nonce generation failed"), ⟨drawn + 1⟩) := by
    change ((draw (⟨drawn⟩ : Recorded r)).mapError _, _) = _
    rw [hdraw]
    rfl
  have hmid : ([] ++ frameCode.stream [f]).isEmpty = false := by simp [f.bytes_ne_nil]
  unfold AeadEncoder.encode
  rw [hmid, hnonce]
  rfl

end Finishing

end Recorded

/-! ### A sample

Two texts sealed under a nonce each, and the first one under another key as well. -/

namespace TwoTexts
open SampleWorld

def reply : Bytes := [0x6f, 0x6b, 0x21]

def zstdReply : Bytes := [0x28, 0xb5, 0x2f, 0xfd, 0x20, 0x03, 0x19, 0x00, 0x00, 0x6f, 0x6b, 0x21]

/-- The frame of `zstdReply`. -/
def framedReply : Bytes := [0x57, 0x50, 0x01, 0x02, 0x00, 0x00, 0x00, 0x0c] ++ zstdReply

def otherNonce : Nonce := ⟨(List.range' 12 12).map UInt8.ofNat, by decide⟩

def otherKey : Bytes := (List.range' 32 32).map UInt8.ofNat

def sealedReply : Bytes :=
  [0xcf, 0xae, 0x68, 0xda, 0x7f, 0x76, 0xfc, 0x5f, 0x1f, 0x9f, 0x67, 0x28, 0xb1, 0x88, 0x3f, 0xe7,
    0x55, 0x6c, 0x86, 0xcf, 0x38, 0xf5, 0xbe, 0x78, 0xf1, 0x2a, 0xf9, 0xe8, 0xa0, 0xa0, 0x07, 0x67,
    0x83, 0xf8, 0x20, 0x21]

/-- The frame of the text, sealed under the other key. -/
def otherSealedFrame : Bytes :=
  [0x0b, 0x02, 0x5c, 0xa5, 0x4a, 0x35, 0xeb, 0xe7, 0x94, 0x4c, 0xe6, 0x3b, 0x06, 0x71, 0x4f, 0x3c,
    0x13, 0x18, 0x80, 0xb5, 0x6c, 0x6c, 0xcd, 0x73, 0xc5, 0xec, 0x91, 0xe0, 0x48, 0xd2, 0xe9, 0xac,
    0xeb, 0xa9, 0x0c]

def recording : Recording where
  zipped := [⟨(), text, zstdText⟩, ⟨(), reply, zstdReply⟩]
  sealings := [⟨(key, nonce, [0x03]), framedText, sealedFrame⟩,
    ⟨(key, otherNonce, [0x03]), framedReply, sealedReply⟩,
    ⟨(otherKey, nonce, [0x03]), framedText, otherSealedFrame⟩]
  draws := [some nonce, some otherNonce]
  zipped_invertible := by decide +kernel
  sealings_invertible := by decide +kernel
  fresh := by decide

/-- The compressed frames. -/
def textFrame : Frame := ⟨.zstd, zstdText, by decide⟩

def replyFrame : Frame := ⟨.zstd, zstdReply, by decide⟩

/-- The text and the reply as they are sent, and the text as it is sent under the other key. -/
def sent : Frame := ⟨.aes256Gcm, nonce.val ++ sealedFrame, by decide⟩

def sentReply : Frame := ⟨.aes256Gcm, otherNonce.val ++ sealedReply, by decide⟩

def sentOther : Frame := ⟨.aes256Gcm, nonce.val ++ otherSealedFrame, by decide⟩

lemma sends_text : Recorded.Sends recording key text 0 textFrame sent := by
  refine ⟨⟨rfl, ?_⟩, rfl, nonce, sealedFrame, rfl, ?_, rfl⟩ <;> decide +kernel

lemma sends_reply : Recorded.Sends recording key reply 1 replyFrame sentReply := by
  refine ⟨⟨rfl, ?_⟩, rfl, otherNonce, sealedReply, rfl, ?_, rfl⟩ <;> decide +kernel

lemma sends_other : Recorded.Sends recording otherKey text 0 textFrame sentOther := by
  refine ⟨⟨rfl, ?_⟩, rfl, nonce, otherSealedFrame, rfl, ?_, rfl⟩ <;> decide +kernel

lemma opens_sent :
    Opens (⟨ringAes256Gcm key, .aes256Gcm⟩ : AeadDecoder (Recorded recording)).handle sent
      textFrame.bytes := by
  unfold Opens
  decide +kernel

lemma opens_sentReply :
    Opens (⟨ringAes256Gcm key, .aes256Gcm⟩ : AeadDecoder (Recorded recording)).handle sentReply
      replyFrame.bytes := by
  unfold Opens
  decide +kernel

/-- The calls that send both texts. -/
def bothCalls : List Call := [.encode text, .finish, .encode reply, .finish]

lemma both_sent :
    let M := sessions (LayeredEncoder (Recorded recording)) (Recorded recording)
    let s : Session (LayeredEncoder (Recorded recording)) (Recorded recording) :=
      ⟨Recorded.encoder recording key, [], ⟨0⟩⟩
    M.Accepts Succeeded bothCalls s ∧ M.run bothCalls s =
      ⟨⟨some (buildCompressor {}), some ⟨ringAes256Gcm key, .aes256Gcm, 2, 39⟩⟩,
        sent.bytes ++ sentReply.bytes, ⟨2⟩⟩ := by
  intro M s
  have hencode := LayeredEncoder.step_both_short (W := Recorded recording) (buildCompressor {})
    ⟨ringAes256Gcm key, .aes256Gcm, 0, 0⟩ text [] ⟨0⟩ (by decide)
  have hfinish := sessions_step (Recorded.call_finish sends_text (by decide) 0 0 [])
  have hencode' := LayeredEncoder.step_both_short (W := Recorded recording) (buildCompressor {})
    ⟨ringAes256Gcm key, .aes256Gcm, 1, 19⟩ reply sent.bytes ⟨1⟩ (by decide)
  have hfinish' := sessions_step (Recorded.call_finish sends_reply (by decide) 1 19 sent.bytes)
  constructor
  · refine Machine.accepts_of_step hencode rfl ?_
    refine Machine.accepts_of_step hfinish rfl ?_
    refine Machine.accepts_of_step hencode' rfl ?_
    exact Machine.accepts_of_step hfinish' rfl trivial
  · change M.run bothCalls s = M.run [] _
    exact (Machine.run_of_step hencode).trans <| (Machine.run_of_step hfinish).trans <|
      (Machine.run_of_step hencode').trans (Machine.run_of_step hfinish')

end TwoTexts

end WpConnectorUtils.Codec
