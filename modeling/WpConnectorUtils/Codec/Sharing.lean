import WpConnectorUtils.Codec.Losses

/-!
# Encoders with one output

A call appends to whatever output it is handed, so encoders may share one: several writers of one
connection, or the successive runs of a process that appends to one file. The decoder reads what
each call moved, in the order of the calls.
-/

namespace WpConnectorUtils.Codec
open Channel (ofSender)

/-- Encoders in use in one world, with one output. -/
structure Shared (ι W : Type) where
  encoders : ι → LayeredEncoder W
  output : Bytes
  world : W

/-- A command is a call of one of the encoders, which runs to its end. -/
def shared (ι W : Type) [DecidableEq ι] [Crates W] :
    Machine (Shared ι W) (ι × Call) (Except CodecError Unit) where
  step command s :=
    let (o, w) := Encoder.call (s.encoders command.1) s.output s.world command.2
    (o.result, ⟨Function.update s.encoders command.1 o.self, o.output, w⟩)

section Sharing

variable {ι W : Type}

/-- What an exchange with one of the encoders says about the passage of the bytes. -/
structure PassesOf (compressing encrypting : Bool) (exchange : (ι × Call) × Except CodecError Unit)
    (entry : ι × Channel.Passage UInt8) : Prop where
  sender : entry.1 = exchange.1.1
  passes : Passes compressing encrypting (exchange.1.2, exchange.2) entry.2

/-- An encoder that writes for `dec`, has the given layers and holds `held`. -/
structure Serves (dec : LayeredDecoder W) (compressing encrypting : Bool) (enc : LayeredEncoder W)
    (held : Bytes) : Prop where
  matching : Matches enc dec
  compress : enc.compress.isSome = compressing
  encrypt : enc.encrypt.isSome = encrypting
  pending : LayeredEncoder.pending enc = held

/-- The encoders stand for lossy channels with one destination. -/
structure Merges (dec : LayeredDecoder W) (compressing encrypting : Bool) (s : Shared ι W)
    (c : Channel.Merge ι UInt8) : Prop where
  delivered : Decodes dec s.output c.delivered
  serves : ∀ i, Serves dec compressing encrypting (s.encoders i) (c.pending i)

variable [DecidableEq ι] [Crates W]

lemma Merges.step {dec : LayeredDecoder W} {compressing encrypting : Bool} {s : Shared ι W}
    {c : Channel.Merge ι UInt8} (h : Merges dec compressing encrypting s c) (command : ι × Call) :
    ∃ entry c', PassesOf compressing encrypting (command, ((shared ι W).step command s).1) entry ∧
      Channel.Merge.Step entry c c' ∧
      Merges dec compressing encrypting ((shared ι W).step command s).2 c' := by
  obtain ⟨j, call⟩ := command
  obtain ⟨hm, hcompress, hencrypt, hpending⟩ := h.serves j
  obtain ⟨p, result, enc', output', w', hcall, hpasses, hsplit, hdel', hm', hcompress', hencrypt'⟩ :=
    LayeredEncoder.call_passes hm call h.delivered s.world
  rw [hcompress, hencrypt] at hpasses
  have hstep : (shared ι W).step (j, call) s =
      (result, ⟨Function.update s.encoders j enc', output', w'⟩) := by
    unfold shared
    dsimp only
    rw [hcall]
  rw [hstep]
  refine ⟨(j, p), ⟨c.delivered ++ p.moved,
    Function.update c.pending j (LayeredEncoder.pending enc')⟩, ⟨rfl, hpasses⟩, ⟨rfl, ?_, ?_⟩,
    hdel', ?_⟩
  · dsimp only
    rw [← hpending, hsplit, Function.update_self]
  · intro i hi
    exact Function.update_of_ne hi _ _
  · intro i
    dsimp only
    by_cases hi : i = j
    · subst hi
      rw [Function.update_self, Function.update_self]
      exact ⟨hm', hcompress'.trans hcompress, hencrypt'.trans hencrypt, rfl⟩
    · rw [Function.update_of_ne hi, Function.update_of_ne hi]
      exact h.serves i

/-- The data of a sender's passages are the inputs of its calls. -/
lemma data_of_sender {compressing encrypting : Bool} {commands : List (ι × Call)} {s : Shared ι W}
    {ps : List (ι × Channel.Passage UInt8)}
    (h : List.Forall₂ (PassesOf compressing encrypting) ((shared ι W).exchanges commands s) ps)
    (i : ι) (k : Nat) :
    ((ofSender i (ps.take k)).map Channel.Passage.data).flatten =
      plaintext (ofSender i (commands.take k)) := by
  induction commands generalizing s ps k with
  | nil =>
    cases h
    simp [plaintext, ofSender]
  | cons command commands ih =>
    cases h with
    | @cons _ entry _ ps hp hps =>
      cases k with
      | zero => rfl
      | succ k =>
        obtain ⟨j, call⟩ := command
        obtain ⟨j', p⟩ := entry
        obtain ⟨hsender, hpasses⟩ := hp
        obtain rfl : j' = j := hsender
        rw [List.take_succ_cons, List.take_succ_cons]
        by_cases hij : j' = i
        · subst hij
          rw [Channel.ofSender_cons_self, Channel.ofSender_cons_self, List.map_cons,
            List.flatten_cons, ih hps, hpasses.data]
          rfl
        · rw [Channel.ofSender_cons_of_ne hij, Channel.ofSender_cons_of_ne hij, ih hps]

end Sharing

/-- Encoders with the algorithms and the key of one decoder append to one output, in any
interleaving and whichever calls fail. After every call the output decodes to what the calls moved,
in their order; and of each encoder, what it was given is what its calls took out and what it
holds. -/
theorem writers_share_output {ι W : Type} [DecidableEq ι] [Crates W] (laws : Crates.RoundTrip W)
    {compression : Option CompressConfig} {encryption : Option EncryptConfig}
    {dec : LayeredDecoder W} (hdec : buildDecoder compression encryption = .ok dec)
    {encoders : ι → LayeredEncoder W}
    (hbuilt : ∀ i, ∃ compression' : Option CompressConfig,
      compression.map CompressConfig.algo = compression'.map CompressConfig.algo ∧
      buildEncoder compression' encryption = .ok (encoders i))
    {prior text : Bytes} (hprior : Decodes dec prior text) (commands : List (ι × Call)) (w : W) :
    let M := shared ι W
    ∃ ps : List (ι × Channel.Passage UInt8),
      List.Forall₂ (PassesOf compression.isSome encryption.isSome)
        (M.exchanges commands ⟨encoders, prior, w⟩) ps ∧
      ∀ k, let s := M.run (commands.take k) ⟨encoders, prior, w⟩
        Decodes dec s.output (text ++ ((ps.take k).map fun entry => entry.2.moved).flatten) ∧
        ∀ i, plaintext (ofSender i (commands.take k)) =
          ((ofSender i (ps.take k)).map Channel.Passage.taken).flatten ++
            LayeredEncoder.pending (s.encoders i) := by
  intro M
  have hstart : Merges dec compression.isSome encryption.isSome ⟨encoders, prior, w⟩
      ⟨text, fun _ => []⟩ := by
    refine ⟨hprior, fun i => ?_⟩
    obtain ⟨compression', halgo, henc⟩ := hbuilt i
    obtain ⟨hcompress, hencrypt⟩ := build_shape henc
    have hsome : compression'.isSome = compression.isSome := by
      rw [← Option.isSome_map (f := CompressConfig.algo), ← halgo, Option.isSome_map]
    exact ⟨build_matches laws halgo henc hdec, hcompress.trans hsome, hencrypt, build_pending henc⟩
  obtain ⟨ps, hps, hruns⟩ := M.simulation_labelled (fun command _ _ h => h.step command) commands
    hstart
  refine ⟨ps, hps, fun k => ?_⟩
  obtain ⟨c, hrun, hc⟩ := hruns k
  obtain ⟨hdel, hsplit⟩ := Channel.Merge.conserved_of_run hrun
  intro s
  constructor
  · rw [← hdel]
    exact hc.delivered
  · intro i
    have hsent := hsplit i
    rw [List.nil_append, data_of_sender hps] at hsent
    rw [hsent, (hc.serves i).pending]

/-- Two encoders of different levels take turns; the output begins with what an earlier one
wrote. -/
theorem writers_share_output_sample :
    let M := shared Bool SampleWorld
    let level : Bool → Int := fun b => if b then 3 else 19
    let encoders : Bool → LayeredEncoder SampleWorld := fun b =>
      ⟨some (buildCompressor { level := level b }), none⟩
    let dec : LayeredDecoder SampleWorld := ⟨none, some (buildDecompressor SampleWorld {})⟩
    let commands : List (Bool × Call) := [(true, .encode SampleWorld.text),
      (false, .encode SampleWorld.text), (false, .finish), (true, .finish)]
    ∃ ps : List (Bool × Channel.Passage UInt8),
      List.Forall₂ (PassesOf true false)
        (M.exchanges commands ⟨encoders, SampleWorld.framedText, ⟨true⟩⟩) ps ∧
      ∀ k, let s := M.run (commands.take k) ⟨encoders, SampleWorld.framedText, ⟨true⟩⟩
        Decodes dec s.output
          (SampleWorld.text ++ ((ps.take k).map fun entry => entry.2.moved).flatten) ∧
        ∀ i, plaintext (ofSender i (commands.take k)) =
          ((ofSender i (ps.take k)).map Channel.Passage.taken).flatten ++
            LayeredEncoder.pending (s.encoders i) := by
  intro M level encoders dec commands
  have hopens : Opens (buildDecompressor SampleWorld {}).handle
    ⟨.zstd, SampleWorld.zstdText, by decide⟩ SampleWorld.text := rfl
  have htext : Decodes dec SampleWorld.framedText SampleWorld.text :=
    decodes_decompress_iff.mpr (decodeFrames_single hopens)
  exact @writers_share_output Bool SampleWorld _ _ SampleWorld.roundTrip (some {}) none dec rfl encoders
    (fun b => ⟨some { level := level b }, rfl, by cases b <;> rfl⟩) _ _ htext commands ⟨true⟩

end WpConnectorUtils.Codec
