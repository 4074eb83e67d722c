import HoldTheDonut.Vision.Chunking

/-!
# Padding and unpadding are inverse

A sender applies `xtlsPadding` block by block with one shared `uuid_once`, every
block but the last with `Continue`, the last with `End` or `Direct`, and then
writes on without padding.  Whatever lengths the generator drew and however the
wire is cut into chunks, the receiver's `Unpadder` emits the contents and the tail,
ends `finished`, and reports `direct` exactly when the last command said so.

The chunking is already disposed of (`chunkFree_push`), so what is left is one
push of the whole wire.  A block is pushed in its three pieces --- five header
bytes, content, padding --- and the state after each piece is written down:
`inBlock u cmd n p` has `n` content and `p` padding bytes outstanding.  Empty
content and empty padding need no cases of their own, because `settle` is where
the code decides whether anything is outstanding at all.
-/

namespace HoldTheDonut
namespace Vision

open Streaming

/-! ## The length field -/

theorem paddingLen_nonneg (contentLen : ℕ) (longPadding : Bool) (seed : Seed) (draw : ℕ) :
    0 ≤ paddingLen contentLen longPadding seed draw := by
  unfold paddingLen
  simp only
  split <;> omega

/-- **The padding length fits its field**, whatever was drawn: the clamp to the
block budget is what bounds it. -/
theorem paddingLen_lt (contentLen : ℕ) (longPadding : Bool) (seed : Seed) (draw : ℕ) :
    paddingLen contentLen longPadding seed draw < 2 ^ 16 := by
  unfold paddingLen bufSize
  simp only
  split
  · omega
  · split <;> omega

/-- A block without the UUID in front of it. -/
def blockBytes (content : List UInt8) (command : UInt8) (padLen : ℕ) : List UInt8 :=
  [command, hi8 content.length, lo8 content.length, hi8 padLen, lo8 padLen] ++
    (content ++ List.replicate padLen 0)

theorem xtlsPadding_eq (content : List UInt8) (command : UInt8) (uuidOnce : Option Uuid)
    (longPadding : Bool) (seed : Seed) (draw : ℕ) :
    xtlsPadding content command uuidOnce longPadding seed draw =
      ((uuidOnce.map List.Vector.toList).getD [] ++
        blockBytes content command (paddingLen content.length longPadding seed draw).toNat,
        none) := by
  unfold xtlsPadding blockBytes
  simp only [List.append_assoc]

namespace Unpadder

/-! ## One block -/

/-- A block with its header read: `n` content and `p` padding bytes to go. -/
def inBlock (u : Unpadder) (command : UInt8) (n p : ℕ) : Unpadder :=
  { u with
    remainingCommand := 0
    remainingContent := n
    remainingPadding := p
    currentCommand := command.toNat }

/-- The state at a block boundary: the next byte is a command. -/
structure AtBlock (u : Unpadder) : Prop extends Running u where
  at_command : u.remainingCommand = 5
  not_direct : u.direct = false

variable {n p : ℕ}

theorem inBlock_settle_of_pos (u : Unpadder) (command : UInt8) (h : 0 < n ∨ 0 < p) :
    (u.inBlock command n p).settle = u.inBlock command n p := by
  unfold settle
  rw [if_neg]
  unfold BlockDone inBlock
  simp only
  omega

variable {u : Unpadder}

theorem AtBlock.inBlock_running (hu : u.AtBlock) (command : UInt8) (h : 0 < n ∨ 0 < p)
    (hn : n < 65536) (hp : p < 65536) : (u.inBlock command n p).Running := by
  refine ⟨⟨?_, ?_⟩, hu.not_finished, hu.not_passthrough, hu.is_started⟩
  · constructor <;> simp [inBlock]
    · omega
    · omega
  · unfold BlockDone inBlock
    simp only
    omega

/-- Settled or not, what follows a block header is a valid state. -/
theorem AtBlock.inBlock_settle_valid (hu : u.AtBlock) (command : UInt8) (hn : n < 65536)
    (hp : p < 65536) : (u.inBlock command n p).settle.Valid := by
  by_cases hf : (u.inBlock command n p).settle.finished = true
  · exact Or.inl hf
  · have hcounted : (u.inBlock command n p).Counted := by
      constructor <;> simp [inBlock]
      · omega
      · omega
    have hf' := Bool.not_eq_true _ ▸ hf
    refine Or.inr (Or.inr (Or.inr ⟨hcounted.settle_live hf', hf', ?_, ?_⟩))
    · rw [(settle_frame _).1]
      exact hu.not_passthrough
    · rw [(settle_frame _).2]
      exact hu.is_started

/-- A header byte is a turn of its own. -/
theorem Running.push_header_byte (h : u.Running) (hc : 0 < u.remainingCommand) (x : UInt8) :
    u.push [x] = ((u.readHeader x).settle, []) := by
  rw [h.push_eq, process_singleton h.not_finished x (by rw [consume_command hc]),
    consume_command hc]

theorem settle_of_command_pos (h : 0 < u.remainingCommand) : u.settle = u := by
  unfold settle
  rw [if_neg]
  unfold BlockDone
  omega

/-- Every header byte but the last leaves the block running. -/
theorem Running.readHeader_running (h : u.Running) (hc : 1 < u.remainingCommand) (x : UInt8) :
    (u.readHeader x).Running := by
  have hframe := consume_frame u [x]
  rw [consume_command (by omega)] at hframe
  refine ⟨⟨h.toCounted.readHeader (by omega) x, ?_⟩, ?_, ?_, ?_⟩
  · unfold BlockDone readHeader
    simp only
    omega
  · rw [hframe.1, h.not_finished]
  · rw [hframe.2.1, h.not_passthrough]
  · rw [hframe.2.2, h.is_started]

theorem Running.push_header_cons (h : u.Running) (hc : 1 < u.remainingCommand) (x : UInt8)
    (c : List UInt8) : u.push (x :: c) = (u.readHeader x).push c := by
  have hpos : 0 < (u.readHeader x).remainingCommand := by
    unfold readHeader
    simp only
    omega
  rw [h.push_cons, h.push_header_byte (by omega), settle_of_command_pos hpos, andThen_nil]

/-- Header bytes emit nothing and leave the block running, as long as the header is not
complete. -/
theorem Running.push_short (h : u.Running) {b : List UInt8}
    (hb : (b.length : ℤ) < u.remainingCommand) : (u.push b).1.Running ∧ (u.push b).2 = [] := by
  induction b generalizing u with
  | nil =>
      rw [chunkFree_push.nil u (Or.inr (Or.inr (Or.inr h)))]
      exact ⟨h, rfl⟩
  | cons x b ih =>
      rw [List.length_cons, Nat.cast_succ] at hb
      have hc : 1 < u.remainingCommand := by omega
      rw [h.push_header_cons hc]
      refine ih (h.readHeader_running hc x) ?_
      show (b.length : ℤ) < u.remainingCommand - 1
      omega

section AtBlock

variable (hu : u.AtBlock)

include hu

theorem AtBlock.push_short {b : List UInt8} (hb : b.length < 5) :
    (u.push b).1.Running ∧ (u.push b).2 = [] :=
  hu.toRunning.push_short (by rw [hu.at_command]; omega)

/-- The five header bytes, whatever they say. -/
theorem AtBlock.push_header_bytes (command a b c d : UInt8) :
    u.push [command, a, b, c, d] = ((u.inBlock command (be16 a b) (be16 c d)).settle, []) := by
  have hcmd : ∀ (v : Unpadder) (x : UInt8),
      (v.readHeader x).remainingCommand = v.remainingCommand - 1 := fun _ _ => rfl
  have r₅ := hu.toRunning
  have r₄ := r₅.readHeader_running (by rw [hu.at_command]; decide) command
  have r₃ := r₄.readHeader_running (by rw [hcmd, hu.at_command]; decide) a
  have r₂ := r₃.readHeader_running (by rw [hcmd, hcmd, hu.at_command]; decide) b
  have r₁ := r₂.readHeader_running (by rw [hcmd, hcmd, hcmd, hu.at_command]; decide) c
  rw [r₅.push_header_cons (by rw [hu.at_command]; decide),
    r₄.push_header_cons (by rw [hcmd, hu.at_command]; decide),
    r₃.push_header_cons (by rw [hcmd, hcmd, hu.at_command]; decide),
    r₂.push_header_cons (by rw [hcmd, hcmd, hcmd, hu.at_command]; decide),
    r₁.push_header_byte (by rw [hcmd, hcmd, hcmd, hcmd, hu.at_command]; decide)]
  have hbytes : (((((u.readHeader command).readHeader a).readHeader b).readHeader c).readHeader d) =
      u.inBlock command (be16 a b) (be16 c d) := by
    simp [readHeader, inBlock, hu.at_command, lor_high_low]
  rw [hbytes]

variable (command : UInt8)

/-- The five header bytes of a block with `n` content and `p` padding bytes. -/
theorem AtBlock.push_header (hn : n < 65536) (hp : p < 65536) :
    u.push [command, hi8 n, lo8 n, hi8 p, lo8 p] = ((u.inBlock command n p).settle, []) := by
  rw [hu.push_header_bytes, be16_hi8_lo8 hn, be16_hi8_lo8 hp]

/-- Content of a block goes out as it is, as much of it as has come. -/
theorem AtBlock.push_content_part {c : List UInt8} (hc : c.length ≤ n) (hn : n < 65536)
    (hp : p < 65536) :
    (u.inBlock command n p).settle.push c =
      ((u.inBlock command (n - c.length) p).settle, c) := by
  by_cases hnil : c = []
  · subst hnil
    exact chunkFree_push.nil _ (hu.inBlock_settle_valid command hn hp)
  · have hpos : 0 < c.length := List.length_pos_of_ne_nil hnil
    have hrun := hu.inBlock_running command (p := p) (Or.inl (hpos.trans_le hc)) hn hp
    obtain ⟨k, hk⟩ : ∃ k, c.length = k + 1 := ⟨c.length - 1, by omega⟩
    have hleft : (n : ℤ) - (min n c.length : ℕ) = ((n - c.length : ℕ) : ℤ) := by omega
    rw [inBlock_settle_of_pos u command (Or.inl (hpos.trans_le hc)), hrun.push_eq]
    unfold process
    rw [hk, processLoop_succ k hrun.not_finished hnil, ← hk,
      consume_content rfl (by simp [inBlock]; omega) (by simp [inBlock]; omega)]
    simp [inBlock, andThen, resume_nil, List.take_of_length_le hc, List.drop_of_length_le hc,
      ← hleft]

/-- The content of a block goes out as it is. -/
theorem AtBlock.push_content (content : List UInt8) (hn : content.length < 65536) (hp : p < 65536) :
    (u.inBlock command content.length p).settle.push content =
      ((u.inBlock command 0 p).settle, content) := by
  rw [hu.push_content_part command le_rfl hn hp, Nat.sub_self]

/-- Padding of a block is dropped, whatever it is. -/
theorem AtBlock.push_padding_part {c : List UInt8} (hc : c.length ≤ p) (hp : p < 65536) :
    (u.inBlock command 0 p).settle.push c =
      ((u.inBlock command 0 (p - c.length)).settle, []) := by
  by_cases hnil : c = []
  · subst hnil
    exact chunkFree_push.nil _ (hu.inBlock_settle_valid command (Nat.zero_lt_succ _) hp)
  · have hpos : 0 < c.length := List.length_pos_of_ne_nil hnil
    have hrun := hu.inBlock_running command (n := 0) (Or.inr (hpos.trans_le hc))
      (Nat.zero_lt_succ _) hp
    obtain ⟨k, hk⟩ : ∃ k, c.length = k + 1 := ⟨c.length - 1, by omega⟩
    have hleft : (p : ℤ) - (min p c.length : ℕ) = ((p - c.length : ℕ) : ℤ) := by omega
    rw [inBlock_settle_of_pos u command (Or.inr (hpos.trans_le hc)), hrun.push_eq]
    unfold process
    rw [hk, processLoop_succ k hrun.not_finished hnil, ← hk,
      consume_padding rfl rfl (by simp [inBlock]) (by simp [inBlock]; omega)]
    simp [inBlock, andThen, resume_nil, List.drop_of_length_le hc, ← hleft]

/-- Any input behind a header, cut where the content ends. -/
theorem AtBlock.push_content_cut (hn : n < 65536) (hp : p < 65536) (b : List UInt8) :
    (u.inBlock command n p).settle.push b =
      andThen ((u.inBlock command (n - b.length) p).settle, b.take n) fun v =>
        v.push (b.drop n) := by
  have hlen : (b.take n).length = min n b.length := List.length_take
  have hpart := hu.push_content_part command (c := b.take n) (by rw [hlen]; exact min_le_left _ _)
    hn hp
  rw [hlen, ← Nat.sub_eq_sub_min] at hpart
  rw [← hpart, ← chunkFree_push.append _ _ _ (hu.inBlock_settle_valid command hn hp),
    List.take_append_drop]

/-- Any input behind the content, cut where the padding ends. -/
theorem AtBlock.push_padding_cut (hp : p < 65536) (b : List UInt8) :
    (u.inBlock command 0 p).settle.push b =
      (u.inBlock command 0 (p - b.length)).settle.push (b.drop p) := by
  have hlen : (b.take p).length = min p b.length := List.length_take
  have hpart := hu.push_padding_part command (c := b.take p) (by rw [hlen]; exact min_le_left _ _)
    hp
  rw [hlen, ← Nat.sub_eq_sub_min] at hpart
  have hvalid := hu.inBlock_settle_valid command (n := 0) (Nat.zero_lt_succ _) hp
  have happend := chunkFree_push.append _ (b.take p) (b.drop p) hvalid
  rw [List.take_append_drop, hpart, andThen_nil] at happend
  exact happend

/-- The padding of a block is dropped. -/
theorem AtBlock.push_padding (hp : p < 65536) :
    (u.inBlock command 0 p).settle.push (List.replicate p 0) =
      ((u.inBlock command 0 0).settle, []) := by
  rw [hu.push_padding_part command (by rw [List.length_replicate]) hp, List.length_replicate,
    Nat.sub_self]

/-- **One block**: its content comes out, and its command decides what follows. -/
theorem AtBlock.push_block (content : List UInt8) (command : UInt8) (hn : content.length < 65536)
    (hp : p < 65536) :
    u.push (blockBytes content command p) = ((u.inBlock command 0 0).settle, content) := by
  unfold blockBytes
  rw [chunkFree_push.append _ _ _ (Or.inr (Or.inr (Or.inr hu.toRunning))),
    hu.push_header command hn hp, andThen_nil,
    chunkFree_push.append _ _ _ (hu.inBlock_settle_valid command hn hp),
    hu.push_content command content hn hp, andThen, hu.push_padding command hp]
  simp

/-- Behind a Continue block stands the next block boundary. -/
theorem AtBlock.settle_continue : (u.inBlock commandPaddingContinue 0 0).settle.AtBlock := by
  have hsettle : (u.inBlock commandPaddingContinue 0 0).settle =
      (u.inBlock commandPaddingContinue 0 0).nextBlock := by
    simp [settle, BlockDone, inBlock, commandPaddingContinue]
  rw [hsettle]
  exact ⟨⟨nextBlock_live _, hu.not_finished, hu.not_passthrough, hu.is_started⟩, rfl,
    hu.not_direct⟩

end AtBlock

/-- Behind any other block the padding is over. -/
theorem settle_finished (u : Unpadder) {command : UInt8} (hcmd : command ≠ commandPaddingContinue) :
    (u.inBlock command 0 0).settle.finished = true := by
  have hne : command.toNat ≠ 0 := fun h => hcmd (UInt8.toNat_inj.mp h)
  simp [settle, BlockDone, inBlock, hne, finish]

/-- A Continue block leads to the next block boundary. -/
theorem AtBlock.push_continue (hu : u.AtBlock) (content : List UInt8) (hn : content.length < 65536)
    (hp : p < 65536) :
    ∃ v : Unpadder, u.push (blockBytes content commandPaddingContinue p) = (v, content) ∧
      v.AtBlock :=
  ⟨_, hu.push_block content commandPaddingContinue hn hp, hu.settle_continue⟩

/-- An End or Direct block ends the padding, and only Direct asks for the splice. -/
theorem AtBlock.push_last (hu : u.AtBlock) (content : List UInt8) {command : UInt8}
    (hcmd : command = commandPaddingEnd ∨ command = commandPaddingDirect)
    (hn : content.length < 65536) (hp : p < 65536) :
    ∃ v : Unpadder, u.push (blockBytes content command p) = (v, content) ∧
      v.finished = true ∧ (v.direct = true ↔ command = commandPaddingDirect) := by
  refine ⟨_, hu.push_block content command hn hp, ?_⟩
  rcases hcmd with rfl | rfl
  · simp [settle, BlockDone, inBlock, finish, commandPaddingEnd, commandPaddingDirect,
      hu.not_direct]
  · simp [settle, BlockDone, inBlock, finish, commandPaddingDirect]

/-- The UUID, and enough behind it to start: the unpadder is at its first block. -/
theorem push_uuid (uuid : Uuid) {rest : List UInt8} (hrest : 5 ≤ rest.length) :
    (new uuid).push (uuid.toList ++ rest) = (new uuid).start.push rest := by
  have hc : (new uuid).Collecting := ⟨rfl, rfl, rfl, by simp [new]⟩
  have hlen : uuid.toList.length = 16 := uuid.toList_length
  have hp : (new uuid).pending = [] := rfl
  have hid : (new uuid).userUuid = uuid := rfl
  rw [hc.push_eq, hp, hid, List.nil_append, if_neg (by rw [List.length_append]; omega),
    List.take_left' hlen, if_neg (by simp), List.drop_left' hlen, hc.start_running.push_eq]

theorem start_new_atBlock (uuid : Uuid) : (new uuid).start.AtBlock :=
  ⟨Collecting.start_running ⟨rfl, rfl, rfl, by simp [new]⟩, rfl, rfl⟩

end Unpadder

/-! ## A whole padded stream -/

/-- One write of the sender: its content, whether long padding is asked for, and
what the generator returned within the range it was given. -/
structure PadBlock where
  content : List UInt8
  content_le : content.length ≤ 65535
  longPadding : Bool
  draw : Fin (drawBound content.length longPadding defaultSeed)

/-- The padding length the block is written with. -/
def PadBlock.padLen (b : PadBlock) : ℤ :=
  paddingLen b.content.length b.longPadding defaultSeed b.draw

/-- `xtls_padding` applied block by block with one shared `uuid_once`: `last` is the
command of the last block, every other one says Continue. -/
def padBlocks (last : UInt8) : Option Uuid → List PadBlock → List UInt8
  | _, [] => []
  | uuidOnce, b :: bs =>
    let command := if bs.isEmpty then last else commandPaddingContinue
    let r := xtlsPadding b.content command uuidOnce b.longPadding defaultSeed b.draw
    r.1 ++ padBlocks last r.2 bs

theorem PadBlock.padLen_toNat_lt (b : PadBlock) : b.padLen.toNat < 65536 := by
  have h := paddingLen_lt b.content.length b.longPadding defaultSeed b.draw
  unfold PadBlock.padLen
  omega

/-- The blocks of a padded stream, with the UUID already behind. -/
theorem Unpadder.AtBlock.push_padBlocks {last : UInt8}
    (hlast : last = commandPaddingEnd ∨ last = commandPaddingDirect) (tail : List UInt8) :
    ∀ (blocks : List PadBlock), blocks ≠ [] → ∀ {u : Unpadder}, u.AtBlock →
    ∃ v : Unpadder,
      u.push (padBlocks last none blocks ++ tail) =
        (v, (blocks.map PadBlock.content).flatten ++ tail) ∧
      v.finished = true ∧ (v.direct = true ↔ last = commandPaddingDirect)
  | [], hne, _, _ => absurd rfl hne
  | [b], _, u, hu => by
    have hb := b.content_le
    obtain ⟨v, hv, hfin, hdir⟩ := hu.push_last b.content hlast (by omega) b.padLen_toNat_lt
    refine ⟨v, ?_, hfin, hdir⟩
    simp only [padBlocks, xtlsPadding_eq, List.isEmpty_nil, if_true, Option.map_none,
      Option.getD_none, List.nil_append, List.append_nil, List.map_cons, List.map_nil,
      List.flatten_cons, List.flatten_nil]
    rw [chunkFree_push.append _ _ _ (Or.inr (Or.inr (Or.inr hu.toRunning)))]
    unfold PadBlock.padLen at hv
    rw [hv, andThen, push_finished hfin]
  | b :: b' :: bs, _, u, hu => by
    have hb := b.content_le
    obtain ⟨w, hw, hwb⟩ := hu.push_continue b.content (by omega) b.padLen_toNat_lt
    obtain ⟨v, hv, hfin, hdir⟩ :=
      AtBlock.push_padBlocks hlast tail (b' :: bs) (List.cons_ne_nil _ _) hwb
    refine ⟨v, ?_, hfin, hdir⟩
    rw [padBlocks]
    simp only [xtlsPadding_eq, List.isEmpty_cons, Bool.false_eq_true, if_false, Option.map_none,
      Option.getD_none, List.nil_append, List.append_assoc]
    rw [chunkFree_push.append _ _ _ (Or.inr (Or.inr (Or.inr hu.toRunning)))]
    unfold PadBlock.padLen at hw
    rw [hw, andThen, hv]
    simp

theorem padBlocks_some (last : UInt8) (uuid : Uuid) {blocks : List PadBlock}
    (hne : blocks ≠ []) :
    padBlocks last (some uuid) blocks = uuid.toList ++ padBlocks last none blocks := by
  obtain ⟨b, bs, rfl⟩ := List.exists_cons_of_ne_nil hne
  simp [padBlocks, xtlsPadding_eq]

theorem five_le_length_padBlocks (last : UInt8) {blocks : List PadBlock} (hne : blocks ≠ []) :
    5 ≤ (padBlocks last none blocks).length := by
  obtain ⟨b, bs, rfl⟩ := List.exists_cons_of_ne_nil hne
  simp only [padBlocks, xtlsPadding_eq, blockBytes, List.length_append, List.length_cons]
  omega

/-- **Padding round trip under any chunking.** -/
theorem pushAll_padBlocks (uuid : Uuid) (blocks : List PadBlock) (hne : blocks ≠ [])
    (last : UInt8) (hlast : last = commandPaddingEnd ∨ last = commandPaddingDirect)
    (tail : List UInt8) (chunks : List (List UInt8))
    (hchunks : chunks.flatten = padBlocks last (some uuid) blocks ++ tail) :
    (pushAll Unpadder.push (Unpadder.new uuid) chunks).2 =
        (blocks.map PadBlock.content).flatten ++ tail ∧
      (pushAll Unpadder.push (Unpadder.new uuid) chunks).1.finished = true ∧
      ((pushAll Unpadder.push (Unpadder.new uuid) chunks).1.direct = true ↔
        last = commandPaddingDirect) ∧
      ∀ b ∈ blocks, 0 ≤ b.padLen ∧ b.padLen < 2 ^ 16 := by
  have hlen : 5 ≤ (padBlocks last none blocks ++ tail).length := by
    have := five_le_length_padBlocks last hne
    rw [List.length_append]
    omega
  obtain ⟨v, hv, hfin, hdir⟩ :=
    Unpadder.AtBlock.push_padBlocks hlast tail blocks hne (Unpadder.start_new_atBlock uuid)
  rw [Unpadder.chunkFree_push.pushAll_eq (Unpadder.valid_new uuid), hchunks,
    padBlocks_some last uuid hne, List.append_assoc, Unpadder.push_uuid uuid hlen, hv]
  exact ⟨rfl, hfin, hdir, fun b _ => ⟨paddingLen_nonneg _ _ _ _, paddingLen_lt _ _ _ _⟩⟩

/-- One Direct block of two bytes and three bytes of padding, cut inside its header and
inside its padding. -/
theorem pushAll_padBlocks_direct :
    (pushAll Unpadder.push (Unpadder.new ⟨List.replicate 16 7, rfl⟩)
        [List.replicate 16 7, [2, 0], [2, 0, 3, 1, 2, 0], [0, 0, 9]]).2 = [1, 2, 9] ∧
      (pushAll Unpadder.push (Unpadder.new ⟨List.replicate 16 7, rfl⟩)
        [List.replicate 16 7, [2, 0], [2, 0, 3, 1, 2, 0], [0, 0, 9]]).1.direct = true := by
  have h := pushAll_padBlocks ⟨List.replicate 16 7, rfl⟩
    [⟨[1, 2], by decide, false, ⟨3, by decide⟩⟩] (by simp) commandPaddingDirect (Or.inr rfl) [9]
    [List.replicate 16 7, [2, 0], [2, 0, 3, 1, 2, 0], [0, 0, 9]] (by decide)
  exact ⟨h.1, h.2.2.1.mpr rfl⟩

end Vision
end HoldTheDonut
