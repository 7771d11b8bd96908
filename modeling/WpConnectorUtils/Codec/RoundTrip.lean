import WpConnectorUtils.Library.Channel
import WpConnectorUtils.Codec.Matching
import WpConnectorUtils.Codec.Recording

/-!
# Round trip

An encoder and its matching decoder realize a buffered channel: the wire decodes to what the
channel has delivered, and the compressor's buffer is what it still holds.
-/

namespace WpConnectorUtils.Codec

variable {W : Type}

lemma Matches.plain {dec : LayeredDecoder W} (h : Matches ⟨none, none⟩ dec) : dec = ⟨none, none⟩ := by
  obtain ⟨decrypt, decompress⟩ := dec
  obtain ⟨hc, he⟩ := h
  cases hc
  cases he
  rfl

lemma Matches.layered {enc : LayeredEncoder W} {dec : LayeredDecoder W} (h : Matches enc dec)
    (hl : LayeredEncoder.Layered enc) : dec ≠ ⟨none, none⟩ := by
  rintro rfl
  obtain ⟨compress, encrypt⟩ := enc
  obtain ⟨hc, he⟩ := h
  cases hc
  cases he
  exact hl rfl

lemma decoder_finish (dec : LayeredDecoder W) (output : Bytes) :
    Decoder.finish dec output = ⟨.ok (), dec, output⟩ := by
  obtain ⟨decrypt, decompress⟩ := dec
  cases decrypt <;> cases decompress <;> rfl

variable [Crates W]

/-- What a call asks of the channel. -/
def Call.command : Call → Channel.Command UInt8
  | .encode chunk => .send chunk
  | .finish => .flush

lemma Call.data_command (call : Call) : call.command.data = call.input := by
  cases call <;> rfl

lemma data_commands (calls : List Call) :
    ((calls.map Call.command).map Channel.Command.data).flatten = plaintext calls := by
  rw [List.map_map, plaintext]
  congr 2
  funext call
  exact call.data_command

/-- The session stands for the channel: its wire decodes to the delivered bytes. -/
structure Realizes (dec : LayeredDecoder W) (s : Session (LayeredEncoder W) W)
    (ch : Channel UInt8) : Prop where
  matching : Matches s.encoder dec
  delivered : Decodes dec s.wire ch.delivered
  pending : LayeredEncoder.pending s.encoder = ch.pending

/-- A successful call is a step of the channel. -/
theorem Realizes.step {dec : LayeredDecoder W} {call : Call} {s : Session (LayeredEncoder W) W}
    {ch : Channel UInt8} (h : Realizes dec s ch)
    (hok : Succeeded ((sessions (LayeredEncoder W) W).step call s).1) :
    ∃ ch', Channel.Step call.command ch ch' ∧
      Realizes dec ((sessions (LayeredEncoder W) W).step call s).2 ch' := by
  obtain ⟨enc, wire, w⟩ := s
  obtain ⟨hm, hdel, hpend⟩ := h
  dsimp only at hm hdel hpend
  by_cases hl : LayeredEncoder.Layered enc
  · obtain ⟨result, enc', fs, w', hstep, hcall⟩ := LayeredEncoder.call_step hl call w
    rw [sessions_step (hcall wire)] at hok ⊢
    obtain ⟨ds, hds, hmove⟩ := hstep.carries hm
    obtain ⟨hsplit, hfin⟩ := hmove hok
    have hmoved : ch.pending ++ call.command.data = ds.flatten ++ LayeredEncoder.pending enc' := by
      rw [← hpend, call.data_command, hsplit]
    have hflush : call.command = .flush → LayeredEncoder.pending enc' = [] := by
      cases call with
      | encode chunk =>
        intro hcmd
        cases hcmd
      | finish => exact fun _ => hfin rfl
    exact ⟨_, Channel.step_of_move ds.flatten hmoved hflush, hstep.matches hm,
      hdel.append (decodes_stream hds), rfl⟩
  · obtain rfl : enc = ⟨none, none⟩ := not_not.mp hl
    obtain rfl := hm.plain
    have hpending : ch.pending = [] := hpend.symm
    have hcall : Encoder.call (⟨none, none⟩ : LayeredEncoder W) wire w call =
        (⟨.ok (), ⟨none, none⟩, wire ++ call.input⟩, w) := by
      cases call with
      | encode chunk => rfl
      | finish =>
        rw [Call.input_finish, List.append_nil]
        rfl
    rw [sessions_step hcall]
    have hmoved : ch.pending ++ call.command.data = call.input ++ [] := by
      rw [hpending, call.data_command, List.nil_append, List.append_nil]
    exact ⟨_, Channel.step_of_move call.input hmoved (fun _ => rfl), hm,
      hdel.append (decodes_plain_iff.mpr rfl), rfl⟩

/-- After calls that all succeed and a last `finish`, the wire decodes to the plaintext. -/
theorem decodes_of_accepted {enc : LayeredEncoder W} {dec : LayeredDecoder W} (hm : Matches enc dec)
    (hempty : LayeredEncoder.pending enc = []) {calls : List Call} {w : W}
    (hok : (sessions (LayeredEncoder W) W).Accepts Succeeded (calls ++ [.finish]) ⟨enc, [], w⟩) :
    Decodes dec ((sessions (LayeredEncoder W) W).run (calls ++ [.finish]) ⟨enc, [], w⟩).wire
      (plaintext calls) := by
  have hstart : Realizes dec ⟨enc, [], w⟩ ⟨[], []⟩ := ⟨hm, decodes_nil dec, hempty⟩
  obtain ⟨ch, hrun, hch⟩ := (sessions (LayeredEncoder W) W).simulation
    (fun _ _ _ h hok => h.step hok) (calls ++ [.finish]) hstart hok
  rw [List.map_append] at hrun
  obtain ⟨hdel, -⟩ := Channel.delivered_of_flushed hrun
  rw [data_commands] at hdel
  rw [← hdel]
  exact hch.delivered

/-- Whatever the layers, the chunks and the nonces: when every call succeeded and the last one is
`finish`, the decoder with the same algorithms and key gives back exactly the chunks. -/
theorem codec_round_trip (laws : Crates.RoundTrip W)
    {compression compression' : Option CompressConfig} {encryption : Option EncryptConfig}
    {enc : LayeredEncoder W} {dec : LayeredDecoder W}
    (halgo : compression'.map CompressConfig.algo = compression.map CompressConfig.algo)
    (henc : buildEncoder compression encryption = .ok enc)
    (hdec : buildDecoder compression' encryption = .ok dec) (calls : List Call) (w : W)
    (hok : (sessions (LayeredEncoder W) W).Accepts Succeeded (calls ++ [.finish]) ⟨enc, [], w⟩)
    (prior : Bytes) :
    Decoder.decode dec ((sessions (LayeredEncoder W) W).run (calls ++ [.finish]) ⟨enc, [], w⟩).wire
        prior = ⟨.ok (), dec, prior ++ plaintext calls⟩ ∧
      ∀ output, Decoder.finish dec output = ⟨.ok (), dec, output⟩ :=
  ⟨decodes_of_accepted (build_matches laws halgo henc hdec) (build_pending henc) hok prior,
    decoder_finish dec⟩

theorem codec_round_trip_sample :
    Decoder.decode sampleDecoder ((sessions (LayeredEncoder SampleWorld) SampleWorld).run
        [.encode SampleWorld.text, .finish, .encode [], .finish] ⟨sampleEncoder, [], ⟨true⟩⟩).wire [0x00] =
        ⟨.ok (), sampleDecoder, [0x00, 0x68, 0x69]⟩ ∧
      ∀ output, Decoder.finish sampleDecoder output = ⟨.ok (), sampleDecoder, output⟩ :=
  @codec_round_trip SampleWorld _ SampleWorld.roundTrip (some {}) (some { level := 19 })
    (some ⟨.aes256Gcm, SampleWorld.key⟩) sampleEncoder sampleDecoder rfl rfl rfl
    [.encode SampleWorld.text, .finish, .encode []] ⟨true⟩ sample_accepted [0x00]

/-! ### Pieces and cuts -/

/-- Decoding the pieces one after the other on the same decoder, up to the first error. -/
def decodePieces (dec : LayeredDecoder W) (output : Bytes) : List Bytes → Outcome (LayeredDecoder W)
  | [] => ⟨.ok (), dec, output⟩
  | piece :: pieces =>
    match Decoder.decode dec piece output with
    | ⟨.error e, dec, output⟩ => ⟨.error e, dec, output⟩
    | ⟨.ok (), dec, output⟩ => decodePieces dec output pieces

section Cuts

variable {dec : LayeredDecoder W} {fs : List Frame} {ds : List Bytes}

omit [Crates W]

lemma decodePieces_cons {piece text : Bytes} (h : Decodes dec piece text) (pieces : List Bytes)
    (output : Bytes) :
    decodePieces dec output (piece :: pieces) = decodePieces dec (output ++ text) pieces := by
  rw [decodePieces, h]

lemma forall₂_split {α β : Type} {R : α → β → Prop} {a b : List α} {l : List β}
    (h : List.Forall₂ R (a ++ b) l) :
    ∃ la lb, l = la ++ lb ∧ List.Forall₂ R a la ∧ List.Forall₂ R b lb := by
  have ha := List.forall₂_take a.length h
  have hb := List.forall₂_drop a.length h
  rw [List.take_left] at ha
  rw [List.drop_left] at hb
  exact ⟨_, _, (List.take_append_drop a.length l).symm, ha, hb⟩

/-- Frames that decode on their own decode in any grouping. -/
lemma decodePieces_groups {groups : List (List Frame)}
    (h : List.Forall₂ (Carries dec) groups.flatten ds) (output : Bytes) :
    decodePieces dec output (groups.map frameCode.stream) = ⟨.ok (), dec, output ++ ds.flatten⟩ := by
  induction groups generalizing ds output with
  | nil =>
    rw [List.flatten_nil] at h
    cases h
    simp [decodePieces]
  | cons g groups ih =>
    rw [List.flatten_cons] at h
    obtain ⟨dg, dr, rfl, hg, hr⟩ := forall₂_split h
    rw [List.map_cons, decodePieces_cons (decodes_stream hg), ih hr, List.flatten_append,
      List.append_assoc]

/-- An incomplete frame stops the loop after the texts of the whole ones. -/
lemma decodeFrames_cut {handle : BlockHandler} {bytes text c : Bytes}
    (h : decodeFrames handle bytes [] = (.ok (), text)) (hc : c ≠ []) (hcut : frameCode.take c = none) :
    ∃ e, ∀ prior, decodeFrames handle (bytes ++ c) prior = (.error e, prior ++ text) := by
  obtain ⟨e, he⟩ := decodeFrames_halts hc (frameCode.halts_of_take_eq_none hcut)
  refine ⟨e, ?_⟩
  intro prior
  rw [decodeFrames_append (decodeFrames_prior h prior), he]

/-- An incomplete frame after whole ones makes the decoder fail, and it appends a part of what
the whole ones carry. -/
lemma decode_cut (hl : dec ≠ ⟨none, none⟩) (h : List.Forall₂ (Carries dec) fs ds) {c : Bytes}
    (hc : c ≠ []) (hcut : frameCode.take c = none) :
    ∃ e text, text <+: ds.flatten ∧ ∀ prior,
      Decoder.decode dec (frameCode.stream fs ++ c) prior = ⟨.error e, dec, prior ++ text⟩ := by
  have hwhole := decodes_stream h
  obtain ⟨decrypt, decompress⟩ := dec
  cases decrypt with
  | none =>
    cases decompress with
    | none => exact absurd rfl hl
    | some p =>
      obtain ⟨e, he⟩ := decodeFrames_cut (decodes_decompress_iff.mp hwhole) hc hcut
      refine ⟨e, ds.flatten, List.prefix_rfl, ?_⟩
      intro prior
      rw [decode_decompress, he]
  | some a =>
    cases decompress with
    | none =>
      obtain ⟨e, he⟩ := decodeFrames_cut (decodes_decrypt_iff.mp hwhole) hc hcut
      refine ⟨e, ds.flatten, List.prefix_rfl, ?_⟩
      intro prior
      rw [decode_decrypt, he]
    | some p =>
      -- the outer loop fails, so nothing reaches the inner one
      obtain ⟨mid, hmid, -⟩ := decodes_both_iff.mp hwhole
      obtain ⟨e, he⟩ := decodeFrames_cut hmid hc hcut
      refine ⟨e, [], List.nil_prefix, ?_⟩
      intro prior
      rw [decode_both_of_error a p (he []), List.append_nil]

end Cuts

/-- The wire of a finished run decodes in any grouping into whole frames; cut anywhere else, the
front of it is an error, after a part of the plaintext. -/
theorem decode_cuts (laws : Crates.RoundTrip W)
    {compression compression' : Option CompressConfig} {encryption : Option EncryptConfig}
    {enc : LayeredEncoder W} {dec : LayeredDecoder W}
    (hlayer : compression ≠ none ∨ encryption ≠ none)
    (halgo : compression'.map CompressConfig.algo = compression.map CompressConfig.algo)
    (henc : buildEncoder compression encryption = .ok enc)
    (hdec : buildDecoder compression' encryption = .ok dec) (calls : List Call) (w : W)
    (hok : (sessions (LayeredEncoder W) W).Accepts Succeeded (calls ++ [.finish]) ⟨enc, [], w⟩)
    (prior : Bytes) :
    let wire := ((sessions (LayeredEncoder W) W).run (calls ++ [.finish]) ⟨enc, [], w⟩).wire
    (∀ groups : List (List Frame), wire = (groups.map frameCode.stream).flatten →
      decodePieces dec prior (groups.map frameCode.stream) = ⟨.ok (), dec, prior ++ plaintext calls⟩) ∧
    ∀ k, k ≤ wire.length →
      (frameCode.IsBoundary wire k → decodePieces dec prior [wire.take k, wire.drop k] =
        ⟨.ok (), dec, prior ++ plaintext calls⟩) ∧
      (¬frameCode.IsBoundary wire k → ∃ e text, text <+: plaintext calls ∧
        Decoder.decode dec (wire.take k) prior = ⟨.error e, dec, prior ++ text⟩) := by
  have hm := build_matches laws halgo henc hdec
  have hl := build_layered hlayer henc
  obtain ⟨fs, ds, hrun⟩ := carried_run ⟨[], [], carried_start hl hm w⟩ (calls ++ [.finish])
  have hds : ds.flatten = plaintext calls := by
    have hall := decodes_of_accepted hm (build_pending henc) hok []
    rw [hrun.wire, decodes_stream hrun.carries] at hall
    exact congrArg Outcome.output hall
  have hdl := hm.layered hl
  intro wire
  have hwire : wire = frameCode.stream fs := hrun.wire
  have hgroups : ∀ groups : List (List Frame), wire = (groups.map frameCode.stream).flatten →
      decodePieces dec prior (groups.map frameCode.stream) =
        ⟨.ok (), dec, prior ++ plaintext calls⟩ := by
    intro groups hgroups
    have hflat : groups.flatten = fs := by
      apply frameCode.stream_injective
      rw [← hwire, hgroups, PrefixCode.stream, List.map_flatten, List.flatten_flatten, List.map_map]
      rfl
    rw [← hds]
    exact decodePieces_groups (hflat ▸ hrun.carries) prior
  refine ⟨hgroups, ?_⟩
  intro k hk
  constructor
  · rw [hwire]
    intro hb
    obtain ⟨a, b, hab, htake, hdrop⟩ := frameCode.isBoundary_split hb
    have htwo := hgroups [a, b] (by rw [hwire, hab]; simp)
    rw [htake, hdrop]
    exact htwo
  · intro hb
    rw [hwire] at hk hb ⊢
    obtain ⟨a, f, b, c, t, hfs, htake, hf, hc, ht⟩ := frameCode.exists_cut_word fs k hk hb
    have hcarries := hrun.carries
    rw [hfs] at hcarries
    obtain ⟨da, db, hda, ha, -⟩ := forall₂_split hcarries
    obtain ⟨e, text, hprefix, hcut⟩ := decode_cut hdl ha hc (frameCode.take_eq_none_of_cut hf ht)
    have hplain : da.flatten <+: plaintext calls := by
      rw [← hds, hda, List.flatten_append]
      exact List.prefix_append _ _
    refine ⟨e, text, hprefix.trans hplain, ?_⟩
    rw [htake, hcut]

open TwoTexts in
/-- A wire of two frames. -/
theorem decode_cuts_sample :
    let wire := ((sessions (LayeredEncoder (Recorded recording)) (Recorded recording)).run
      [.encode SampleWorld.text, .finish, .encode reply, .finish]
      ⟨Recorded.encoder recording SampleWorld.key, [], ⟨0⟩⟩).wire
    let dec := Recorded.decoder recording SampleWorld.key
    wire = sent.bytes ++ sentReply.bytes ∧
    (∀ groups : List (List Frame), wire = (groups.map frameCode.stream).flatten →
      decodePieces dec [] (groups.map frameCode.stream) =
        ⟨.ok (), dec, SampleWorld.text ++ reply⟩) ∧
    ∀ k, k ≤ wire.length →
      (frameCode.IsBoundary wire k → decodePieces dec [] [wire.take k, wire.drop k] =
        ⟨.ok (), dec, SampleWorld.text ++ reply⟩) ∧
      (¬frameCode.IsBoundary wire k → ∃ e text, text <+: SampleWorld.text ++ reply ∧
        Decoder.decode dec (wire.take k) [] = ⟨.error e, dec, text⟩) := by
  intro wire dec
  obtain ⟨hok, hrun⟩ := both_sent
  exact ⟨congrArg Session.wire hrun, @decode_cuts (Recorded recording) _ Recorded.roundTrip (some {}) (some {})
    (some ⟨.aes256Gcm, SampleWorld.key⟩) (Recorded.encoder recording SampleWorld.key) dec (.inl (by simp))
    rfl rfl rfl [.encode SampleWorld.text, .finish, .encode reply] ⟨0⟩ hok []⟩

end WpConnectorUtils.Codec
