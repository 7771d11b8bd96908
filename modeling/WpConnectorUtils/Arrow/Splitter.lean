import WpConnectorUtils.Arrow.Frame

/-!
# The frame splitter

How `decode_arrow_framed_batches` finds the IPC stream in an arbitrary payload, with what can
panic on the way: the sum of `4` and the tag length, in a build with overflow checks, and the
slice of the payload.
-/

namespace WpConnectorUtils.Arrow
open ByteFormat

/-- The tag length in the first four bytes. -/
def tagLen (payload : Bytes) : Nat := beNat (payload.take 4)

inductive Panic
  | addOverflow
  | sliceStart
  deriving DecidableEq, Repr

/-- `a + b` for `usize`: a build with overflow checks panics where the other one wraps. -/
def addUsize (width : PointerWidth) (checks : Bool) (a b : Nat) : Except Panic Nat :=
  if a + b < 2 ^ width.bits then .ok (a + b)
  else if checks then .error .addOverflow
  else .ok ((a + b) % 2 ^ width.bits)

/-- `&bytes[start..]` -/
def sliceFrom (bytes : Bytes) (start : Nat) : Except Panic Bytes :=
  if start ≤ bytes.length then .ok (bytes.drop start) else .error .sliceStart

/-- The bytes that go to `decode_arrow_ipc_batches`; `none` when the payload is skipped. -/
def splitFrame (width : PointerWidth) (checks : Bool) (payload : Bytes) :
    Except Panic (Option Bytes) :=
  if payload.length < 4 then .ok none
  else do
    let start ← addUsize width checks 4 (tagLen payload)
    if start > payload.length then return none
    else return some (← sliceFrom payload start)

lemma addUsize_of_lt {width : PointerWidth} {a b : Nat} (h : a + b < 2 ^ width.bits)
    (checks : Bool) : addUsize width checks a b = .ok (a + b) := by
  unfold addUsize
  rw [if_pos h]

lemma addUsize_unchecked (width : PointerWidth) (a b : Nat) :
    addUsize width false a b = .ok ((a + b) % 2 ^ width.bits) := by
  unfold addUsize
  by_cases h : a + b < 2 ^ width.bits
  · rw [if_pos h, Nat.mod_eq_of_lt h]
  · rw [if_neg h]
    rfl

lemma splitFrame_short {payload : Bytes} (h : payload.length < 4) (width : PointerWidth)
    (checks : Bool) : splitFrame width checks payload = .ok none := by
  unfold splitFrame
  rw [if_pos h]

/-- Once there is a start, the comparison before the slice keeps it in range. -/
lemma splitFrame_of_start {width : PointerWidth} {checks : Bool} {payload : Bytes} {start : Nat}
    (hlen : 4 ≤ payload.length) (h : addUsize width checks 4 (tagLen payload) = .ok start) :
    splitFrame width checks payload =
      .ok (if start ≤ payload.length then some (payload.drop start) else none) := by
  unfold splitFrame
  rw [if_neg (by omega), h]
  change (if start > payload.length then _ else _) = _
  by_cases hstart : start ≤ payload.length
  · have hslice : sliceFrom payload start = .ok (payload.drop start) := by
      unfold sliceFrom
      rw [if_pos hstart]
    rw [if_neg (by omega), if_pos hstart, hslice]
    rfl
  · rw [if_pos (by omega), if_neg hstart]
    rfl

lemma splitFrame_overflow {width : PointerWidth} {payload : Bytes} (hlen : 4 ≤ payload.length)
    (h : 2 ^ width.bits ≤ 4 + tagLen payload) :
    splitFrame width true payload = .error .addOverflow := by
  have hadd : addUsize width true 4 (tagLen payload) = .error .addOverflow := by
    unfold addUsize
    rw [if_neg (by omega), if_pos rfl]
  unfold splitFrame
  rw [if_neg (by omega), hadd]
  rfl

/-- Without overflow checks nothing panics, and the decoder reads the part split off. -/
theorem decode_of_split {S B : Type} [Ipc S B] (width : PointerWidth) (payload : Bytes) :
    ∃ part, splitFrame width false payload = .ok part ∧
      decodeArrowFramedBatches (B := B) width payload =
        (part.map decodeArrowIpcBatches).getD (.ok []) := by
  unfold decodeArrowFramedBatches
  by_cases hlen : payload.length < 4
  · refine ⟨none, splitFrame_short hlen width false, ?_⟩
    rw [if_pos hlen]
    rfl
  · have hstart : addUsize width false 4 (tagLen payload) = .ok (ipcStart width payload) :=
      addUsize_unchecked width 4 (tagLen payload)
    refine ⟨_, splitFrame_of_start (by omega) hstart, ?_⟩
    rw [if_neg hlen]
    by_cases hin : ipcStart width payload ≤ payload.length
    · rw [if_neg (by omega), if_pos hin]
      rfl
    · rw [if_pos (by omega), if_neg hin]
      rfl

/-- The sum is exact, nothing panics, a payload without a whole tag is skipped and otherwise the
bytes after the tag, these and no others, are decoded, whatever the reader does with them. -/
structure SplitsSafely (width : PointerWidth) (payload : Bytes) : Prop where
  exact : 4 ≤ payload.length → ∀ checks,
    addUsize width checks 4 (tagLen payload) = .ok (4 + tagLen payload)
  noPanic : ∀ checks panic, splitFrame width checks payload ≠ .error panic
  skips : payload.length < 4 ∨ payload.length < 4 + tagLen payload →
    (∀ checks, splitFrame width checks payload = .ok none) ∧
      ∀ (S B : Type) [Ipc S B], decodeArrowFramedBatches (B := B) width payload = .ok []
  passes : 4 ≤ payload.length → 4 + tagLen payload ≤ payload.length →
    (∀ checks, splitFrame width checks payload = .ok (some (payload.drop (4 + tagLen payload)))) ∧
      ∀ (S B : Type) [Ipc S B], decodeArrowFramedBatches (B := B) width payload =
        decodeArrowIpcBatches (payload.drop (4 + tagLen payload))

lemma decode_of_split_eq {S B : Type} [Ipc S B] {width : PointerWidth} {payload : Bytes}
    {part : Option Bytes} (h : splitFrame width false payload = .ok part) :
    decodeArrowFramedBatches (B := B) width payload =
      (part.map decodeArrowIpcBatches).getD (.ok []) := by
  obtain ⟨part', hpart, hdecode⟩ := decode_of_split (B := B) width payload
  have hsame : part' = part := Except.ok.inj (hpart.symm.trans h)
  rw [hdecode, hsame]

/-- What a payload splits into, when the sum does not overflow. -/
lemma splitsSafely_of_exact {width : PointerWidth} {payload : Bytes}
    (hexact : 4 ≤ payload.length → 4 + tagLen payload < 2 ^ width.bits) :
    SplitsSafely width payload := by
  have hsplit : 4 ≤ payload.length → ∀ checks, splitFrame width checks payload =
      .ok (if 4 + tagLen payload ≤ payload.length then some (payload.drop (4 + tagLen payload))
        else none) := by
    intro hlen checks
    exact splitFrame_of_start hlen (addUsize_of_lt (hexact hlen) checks)
  have hskip : payload.length < 4 ∨ payload.length < 4 + tagLen payload → ∀ checks,
      splitFrame width checks payload = .ok none := by
    intro h checks
    by_cases hlen : payload.length < 4
    · exact splitFrame_short hlen width checks
    · rw [hsplit (by omega), if_neg (by omega)]
  have hpass : 4 ≤ payload.length → 4 + tagLen payload ≤ payload.length → ∀ checks,
      splitFrame width checks payload = .ok (some (payload.drop (4 + tagLen payload))) := by
    intro hlen hin checks
    rw [hsplit hlen, if_pos hin]
  refine ⟨fun hlen => addUsize_of_lt (hexact hlen), ?_, ?_, ?_⟩
  · intro checks panic
    by_cases h : payload.length < 4 ∨ payload.length < 4 + tagLen payload
    · rw [hskip h]
      exact nofun
    · rw [hpass (by omega) (by omega)]
      exact nofun
  · intro h
    refine ⟨hskip h, ?_⟩
    intro S B _
    exact decode_of_split_eq (hskip h false)
  · intro hlen hin
    refine ⟨hpass hlen hin, ?_⟩
    intro S B _
    exact decode_of_split_eq (hpass hlen hin false)

/-- The splitter is safe except on a 32-bit target for a payload whose first four bytes announce a
tag of `2 ^ 32 - 4` bytes or more. -/
theorem splits_safely_iff (width : PointerWidth) (payload : Bytes) :
    SplitsSafely width payload ↔
      width = .w64 ∨ payload.length < 4 ∨ tagLen payload < 2 ^ 32 - 4 := by
  constructor
  · intro h
    by_contra hnot
    push Not at hnot
    obtain ⟨hwidth, hlen, htag⟩ := hnot
    cases width with
    | w64 => exact hwidth rfl
    | w32 =>
      have hover : 2 ^ PointerWidth.w32.bits ≤ 4 + tagLen payload := by
        change 2 ^ 32 ≤ _
        omega
      exact h.noPanic true _ (splitFrame_overflow hlen hover)
  · intro h
    apply splitsSafely_of_exact
    intro hlen
    have htag : tagLen payload < 2 ^ 32 := by
      have hlt := beNat_lt (payload.take 4)
      have hfour : (payload.take 4).length = 4 := List.length_take_of_le hlen
      rw [hfour] at hlt
      exact hlt.trans_le (by norm_num)
    cases width with
    | w64 =>
      change _ < 2 ^ 64
      omega
    | w32 =>
      change _ < 2 ^ 32
      rcases h with h | h | h
      · cases h
      · omega
      · omega

/-- On a 32-bit target, a tag length of `2 ^ 32 - 1` wraps to a start inside the header: a build
with overflow checks panics and the other one decodes the header's last byte and the tag. -/
theorem wrapped_start_sample :
    let payload : Bytes := [0xff, 0xff, 0xff, 0xff, 0x00]
    Allocated .w32 payload ∧ payload.length < 4 + tagLen payload ∧
      splitFrame .w32 true payload = .error .addOverflow ∧
      splitFrame .w32 false payload = .ok (some [0xff, 0x00]) ∧
      decodeArrowFramedBatches (B := RowBatch) .w32 payload =
        .error "arrow ipc: Ipc error: Expected schema message, found empty stream." := by
  refine ⟨by unfold Allocated; decide, by decide, by decide, by decide, by decide⟩

end WpConnectorUtils.Arrow
