import HoldTheDonut.Core.Bytes
import HoldTheDonut.Streaming.Transducer
import Mathlib.Data.Fin.VecNotation
import Mathlib.Data.Int.Bitwise

/-!
# `donut-io/src/vision_xray.rs`: the padding codec

XTLS-Vision hides the first writes of a connection in padded blocks

    [uuid?][command][contentLen:2][padLen:2][content][pad]

where the user's UUID opens the very first block only.  `xtlsPadding` builds one
block; `Unpadder` is the state machine that takes a stream of blocks apart again,
fed by whatever pieces the outer TLS layer hands over.

The random padding length is the one thing the code does not decide.  It enters
here as `draw`, the value `gen_range` returned, together with `drawBound`, the
exclusive upper end of the range it was asked for.

The counters of `Unpadder` are `i32` in the source, with `-1` for "not running",
so they are integers here; `asUsize` is the cast that turns a negative counter
into a huge one.  The loop of `process` is a recursion on fuel.  The length of the
input is always enough of it, because every turn of the loop consumes a byte
unless the block is already over; `Vision.Chunking` proves that and never looks at
the fuel again.
-/

namespace HoldTheDonut
namespace Vision

open Streaming

/-- The 16-byte user id that opens a padded stream. -/
abbrev Uuid : Type := Octets 16

def commandPaddingContinue : UInt8 := 0x00
def commandPaddingEnd : UInt8 := 0x01
def commandPaddingDirect : UInt8 := 0x02

/-- The byte budget of a padded block. -/
def bufSize : ℕ := 8192

/-- The four parameters of the padding length. -/
abbrev Seed : Type := Fin 4 → ℕ

def defaultSeed : Seed := ![900, 500, 900, 256]

/-! ## Padding -/

/-- The exclusive upper end of the range `gen_range` draws from. -/
def drawBound (contentLen : ℕ) (longPadding : Bool) (seed : Seed) : ℕ :=
  if contentLen < seed 0 ∧ longPadding = true then seed 1 else seed 3

/-- The padding length for a draw: the long form tops the content up to at least
`seed 2`, and both forms are clamped to what the block budget leaves. -/
def paddingLen (contentLen : ℕ) (longPadding : Bool) (seed : Seed) (draw : ℕ) : ℤ :=
  let wanted : ℤ :=
    if contentLen < seed 0 ∧ longPadding = true then
      (draw : ℤ) + seed 2 - contentLen
    else draw
  let cap : ℤ := (bufSize : ℤ) - 21 - contentLen
  let capped := if wanted > cap then cap else wanted
  if capped < 0 then 0 else capped

/-- `XtlsPadding`: one padded block, and what is left of `uuid_once`, which is
taken by the first block and empty ever after. -/
def xtlsPadding (content : List UInt8) (command : UInt8) (uuidOnce : Option Uuid)
    (longPadding : Bool) (seed : Seed) (draw : ℕ) : List UInt8 × Option Uuid :=
  let padLen := (paddingLen content.length longPadding seed draw).toNat
  ((uuidOnce.map List.Vector.toList).getD [] ++
      [command, hi8 content.length, lo8 content.length, hi8 padLen, lo8 padLen] ++
      content ++ List.replicate padLen 0,
    none)

/-! ## Unpadding -/

/-- Per-direction unpadding state. -/
structure Unpadder where
  userUuid : Uuid
  started : Bool
  passthrough : Bool
  pending : List UInt8
  remainingCommand : ℤ
  remainingContent : ℤ
  remainingPadding : ℤ
  currentCommand : ℤ
  finished : Bool
  direct : Bool
  deriving DecidableEq

namespace Unpadder

def new (userUuid : Uuid) : Unpadder where
  userUuid := userUuid
  started := false
  passthrough := false
  pending := []
  remainingCommand := -1
  remainingContent := -1
  remainingPadding := -1
  currentCommand := 0
  finished := false
  direct := false

/-- `i as usize` on a 64-bit target. -/
def asUsize (i : ℤ) : ℕ := (i % 2 ^ 64).toNat

/-- One byte of the five-byte block header, the most significant field first. -/
def readHeader (u : Unpadder) (data : UInt8) : Unpadder :=
  let v :=
    match u.remainingCommand with
    | 5 => { u with currentCommand := data.toNat }
    | 4 => { u with remainingContent := data.toNat * 256 }
    | 3 => { u with remainingContent := Int.lor u.remainingContent data.toNat }
    | 2 => { u with remainingPadding := data.toNat * 256 }
    | 1 => { u with remainingPadding := Int.lor u.remainingPadding data.toNat }
    | _ => u
  { v with remainingCommand := u.remainingCommand - 1 }

/-- The first half of a turn of the loop: take header, content or padding off the
front.  Returns the state, what is emitted and the bytes left over. -/
def consume (u : Unpadder) (b : List UInt8) : Unpadder × List UInt8 × List UInt8 :=
  if 0 < u.remainingCommand then
    match b with
    | [] => (u, [], [])
    | data :: rest => (u.readHeader data, [], rest)
  else if 0 < u.remainingContent then
    let n := min (asUsize u.remainingContent) b.length
    ({ u with remainingContent := u.remainingContent - n }, b.take n, b.drop n)
  else
    let n := min (asUsize u.remainingPadding) b.length
    ({ u with remainingPadding := u.remainingPadding - n }, [], b.drop n)

/-- The test of the second half: nothing of the current block is outstanding. -/
def BlockDone (u : Unpadder) : Prop :=
  u.remainingCommand ≤ 0 ∧ u.remainingContent ≤ 0 ∧ u.remainingPadding ≤ 0

instance (u : Unpadder) : Decidable u.BlockDone :=
  inferInstanceAs (Decidable (_ ∧ _ ∧ _))

/-- A Continue block is over: the next block header follows. -/
def nextBlock (u : Unpadder) : Unpadder := { u with remainingCommand := 5 }

/-- An End or Direct block is over, and with it the padding. -/
def finish (u : Unpadder) : Unpadder :=
  { u with
    remainingCommand := -1
    remainingContent := -1
    remainingPadding := -1
    finished := true
    direct := u.direct || decide (u.currentCommand = 2) }

/-- The loop of `process`.  The bytes behind the last block go out verbatim. -/
def processLoop : ℕ → Unpadder → List UInt8 → Unpadder × List UInt8
  | 0, u, _ => (u, [])
  | fuel + 1, u, b =>
    if b = [] then (u, [])
    else
      let r := u.consume b
      if r.1.BlockDone then
        if r.1.currentCommand = 0 then
          andThen (r.1.nextBlock, r.2.1) fun v => processLoop fuel v r.2.2
        else (r.1.finish, r.2.1 ++ r.2.2)
      else andThen (r.1, r.2.1) fun v => processLoop fuel v r.2.2

def process (u : Unpadder) (input : List UInt8) : Unpadder × List UInt8 :=
  processLoop input.length u input

/-- The UUID matched: drop it and start on the first block header. -/
def start (u : Unpadder) : Unpadder :=
  { u with started := true, remainingCommand := 5, pending := [] }

/-- `XtlsUnpadding`: feed received bytes, return the de-padded content. -/
def push (u : Unpadder) (input : List UInt8) : Unpadder × List UInt8 :=
  if u.finished = true then (u, input)
  else if u.passthrough = true then (u, input)
  else if u.started = false then
    let pending := u.pending ++ input
    if pending.length < 21 then ({ u with pending := pending }, [])
    else if pending.take 16 ≠ u.userUuid.toList then
      -- not a padded stream: hand over everything buffered so far
      ({ u with passthrough := true, pending := [] }, pending)
    else u.start.process (pending.drop 16)
  else u.process input

end Unpadder

end Vision
end HoldTheDonut
