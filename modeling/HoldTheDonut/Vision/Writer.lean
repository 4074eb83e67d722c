import HoldTheDonut.Vision.Cipher
import HoldTheDonut.Vision.Splice

/-!
# The downlink against the documented writer

`docs/VISION_PROTOCOL.md` describes the writer of a Vision stream.  Two of its rules are about
every padded block: its content fits the budget of `8192` bytes with `21` to spare, since a
larger read is reshaped into several blocks; and once the filter is down to its last packet
without having seen a ServerHello of TLS 1.2 or above, the block is sent with `End` and the
padding is over.

`vision_server_splice` has neither.  It pads each chunk it reads, of up to 16 KiB, as one block,
and it ends the padding at application data only, so an inner connection that is not TLS is
padded for ever.  `followsWriter_iff` says for which inputs the rules are kept.

What the filter knows is a function of the buffers it was shown (`Watched`): as long as no
ServerHello is among the first eight it counts down from eight, and a handshake is seen exactly
if one of the first eight starts one.  The filter and the downlink are cut out of the session
as a machine of their own (`Flow`), whose inputs are the contents and chunks that pass;
`flow_of_splice` finds every run of the session in it.
-/

namespace HoldTheDonut
namespace Vision

open Machine

/-! ## The filter and the downlink -/

/-- What passes the filter: the content of the client's blocks, and the chunks of the target
with what the generator returns for their padding. -/
inductive Passed where
  | up (content : List UInt8)
  | down (chunk : List UInt8) (draw : ℕ)

/-- The part of a session that decides how chunks are sent. -/
structure Flow where
  filter : FilterState
  downlink : Downlink
  sent : List Sent

namespace Flow

def start (uuid : Uuid) : Flow := ⟨.initial, Downlink.new uuid, []⟩

def step (s : Flow) : Passed → Flow
  | .up content => if content = [] then s else { s with filter := s.filter.observe content }
  | .down chunk draw =>
    let f := s.downlink.observed s.filter chunk
    let r := s.downlink.send f chunk draw
    ⟨f, r.1, s.sent ++ [r.2]⟩

def run (uuid : Uuid) (ps : List Passed) : Flow := ps.foldl step (start uuid)

theorem run_concat (uuid : Uuid) (ps : List Passed) (e : Passed) :
    run uuid (ps ++ [e]) = (run uuid ps).step e := by
  unfold run
  rw [List.foldl_append, List.foldl_cons, List.foldl_nil]

theorem step_up (s : Flow) (content : List UInt8) : s.step (.up content) =
    ⟨if content = [] then s.filter else s.filter.observe content, s.downlink, s.sent⟩ := by
  rw [step]
  split <;> rfl

end Flow

/-- What the session shares with its flow. -/
def Splice.flow {τ : Type} (s : Splice τ) : Flow := ⟨s.filter, s.downlink, s.sent⟩

section Cut

variable {τ : Type}

@[simp] theorem Splice.flow_settle (s : Splice τ) : s.settle.flow = s.flow := by
  unfold Splice.settle
  split <;> rfl

/-- Plaintext passes the filter as the content it is unpadded to. -/
theorem Splice.flow_takePlaintext (s : Splice τ) (pt : List UInt8) :
    (s.takePlaintext pt).flow = s.flow ∨
      (s.takePlaintext pt).flow = s.flow.step (.up (s.unp.push pt).2) := by
  unfold Splice.takePlaintext
  split
  · exact Or.inl rfl
  · exact Or.inr (Flow.step_up s.flow (s.unp.push pt).2).symm

theorem Splice.flow_takeRecord (feed : τ → List UInt8 → Option (τ × List UInt8)) (s : Splice τ)
    (total : ℕ) : (s.takeRecord feed total).flow = s.flow ∨
      ∃ content, (s.takeRecord feed total).flow = s.flow.step (.up content) := by
  unfold Splice.takeRecord
  split
  · exact Or.inl rfl
  · next tls pt hfeed =>
    rw [Splice.flow_settle]
    exact (Splice.flow_takePlaintext _ pt).imp id fun h => ⟨_, h⟩

/-- A step of the session is one of the flow, or none. -/
theorem flow_of_moved {feed : τ → List UInt8 → Option (τ × List UInt8)} {s t : Splice τ}
    {e : SpliceEvent} (h : Splice.Moved feed s e t) :
    t.flow = s.flow ∨ (∃ content, t.flow = s.flow.step (.up content)) ∨
      ∃ chunk draw, chunk ≠ [] ∧ chunk.length ≤ readChunk ∧
        t.flow = s.flow.step (.down chunk draw) := by
  cases h with
  | fill _ _ => exact Or.inl rfl
  | record _ _ _ =>
    rcases Splice.flow_takeRecord feed s _ with h | h
    · exact Or.inl h
    · exact Or.inr (Or.inl h)
  | buffered _ _ _ => exact Or.inl rfl
  | socket _ _ _ _ => exact Or.inl rfl
  | ended _ _ _ => exact Or.inl rfl
  | torn _ _ _ _ _ => exact Or.inl rfl
  | @chunk chunk draw hne hle _ =>
    exact Or.inr (Or.inr ⟨chunk, draw, hne, hle, Splice.flow_settle _⟩)
  | targetEof => exact Or.inl rfl

/-- The session stands where a flow stands, over chunks that fit the read buffer. -/
def Splice.FlowsFrom (uuid : Uuid) (s : Splice τ) : Prop :=
  ∃ ps, s.flow = Flow.run uuid ps ∧
    ∀ chunk draw, Passed.down chunk draw ∈ ps → chunk ≠ [] ∧ chunk.length ≤ readChunk

/-- **Every run of a session is a run of the flow.** -/
theorem flow_of_splice {feed : τ → List UInt8 → Option (τ × List UInt8)} {tls : τ} {uuid : Uuid}
    {leftover inbuf unread : List UInt8} {events : List SpliceEvent} {s : Splice τ}
    (hrun : Machine.run (Splice.step feed) (Splice.start tls uuid leftover inbuf unread) events =
      some s) : s.FlowsFrom uuid := by
  refine run_inv ?_ events ?_ hrun
  · rintro s e t ⟨ps, hflow, hsize⟩ hstep
    rcases flow_of_moved (Splice.moved_of_step hstep) with h | ⟨content, h⟩ |
      ⟨chunk, draw, hne, hle, h⟩
    · exact ⟨ps, h.trans hflow, hsize⟩
    · refine ⟨ps ++ [.up content], by rw [h, hflow, Flow.run_concat], fun chunk draw hmem => ?_⟩
      rcases List.mem_append.mp hmem with hmem | hmem
      · exact hsize chunk draw hmem
      · cases List.mem_singleton.mp hmem
    · refine ⟨ps ++ [.down chunk draw], by rw [h, hflow, Flow.run_concat], fun c d hmem => ?_⟩
      rcases List.mem_append.mp hmem with hmem | hmem
      · exact hsize c d hmem
      · cases List.mem_singleton.mp hmem
        exact ⟨hne, hle⟩
  · rcases Splice.flow_takePlaintext _ leftover with h | h
    · exact ⟨[], h, fun _ _ hmem => absurd hmem List.not_mem_nil⟩
    · refine ⟨[.up _], h, fun _ _ hmem => ?_⟩
      cases List.mem_singleton.mp hmem

end Cut

/-- A Direct block that ends in a record, and a chunk of the target before that record. -/
def chunkBetween : Option (Splice Unit) :=
  Machine.run (Splice.step fun _ r => some ((), r.drop 5))
    (Splice.start () (List.Vector.replicate 16 7) (List.replicate 16 7 ++ [2]) [23, 3]
      [3, 0, 5, 0, 1, 0, 0, 65, 8]) [.fill 9, .chunk [1, 2] 0, .record]

theorem flow_of_splice_chunkBetween : ∃ s, chunkBetween = some s ∧ s.sent.length = 1 ∧
    s.FlowsFrom (List.Vector.replicate 16 7) := by
  have hrun : chunkBetween = some _ := rfl
  exact ⟨_, hrun, rfl, flow_of_splice hrun⟩

/-! ## What the filter knows -/

/-- The buffer starts like a ClientHello. -/
def OpensClient (b : List UInt8) : Prop :=
  6 ≤ b.length ∧ b.take 2 = tlsClientHsStart ∧ b.getD 5 0 = tlsHsTypeClientHello

instance : DecidablePred OpensClient := fun _ => inferInstanceAs (Decidable (_ ∧ _ ∧ _))

/-- A ServerHello of TLS 1.2 or above starts in one of the first eight buffers. -/
def ServerSeen (bs : List (List UInt8)) : Prop := ∃ b ∈ bs.take 8, Opens b

/-- A handshake starts in one of the first eight buffers. -/
def HandshakeSeen (bs : List (List UInt8)) : Prop := ∃ b ∈ bs.take 8, Opens b ∨ OpensClient b

/-- The filter after some buffers.  Once a ServerHello has been seen nothing is said of its
counter, which may stop at any time. -/
structure Watched (bs : List (List UInt8)) (f : FilterState) : Prop where
  server : f.isTls12OrAbove = true ↔ ServerSeen bs
  handshake : f.isTls = true ↔ HandshakeSeen bs
  counting : ¬ ServerSeen bs → f.numberToFilter = 8 - (min 8 bs.length : ℕ) ∧
    f.remainingServerHello = 0 ∧ f.enableXtls = false

namespace FilterState

variable (f : FilterState) (b : List UInt8)

theorem readHello_flags :
    (f.readHello b).isTls12OrAbove = (f.isTls12OrAbove || decide (Opens b)) ∧
    (f.readHello b).isTls = (f.isTls || decide (Opens b ∨ OpensClient b)) := by
  unfold readHello
  by_cases hopens : Opens b
  · rw [if_pos hopens.1, if_pos hopens.2, readCipher_eq]
    simp [hopens]
  · by_cases hlen : 6 ≤ b.length
    · rw [if_pos hlen, if_neg fun h => hopens ⟨hlen, h⟩]
      by_cases hclient : OpensClient b
      · rw [if_pos hclient.2]
        simp [hopens, hclient]
      · rw [if_neg fun h => hclient ⟨hlen, h⟩]
        simp [hopens, hclient]
    · have hclient : ¬ OpensClient b := fun h => hlen h.1
      rw [if_neg hlen]
      simp [hopens, hclient]

theorem readVersions_flags : (f.readVersions b).isTls12OrAbove = f.isTls12OrAbove ∧
    (f.readVersions b).isTls = f.isTls := by
  unfold readVersions
  split
  · simp only
    split
    · exact ⟨rfl, rfl⟩
    · split <;> exact ⟨rfl, rfl⟩
  · exact ⟨rfl, rfl⟩

theorem filter_flags :
    (f.filter b).isTls12OrAbove = (f.isTls12OrAbove || decide (Opens b)) ∧
    (f.filter b).isTls = (f.isTls || decide (Opens b ∨ OpensClient b)) := by
  unfold filter
  obtain ⟨hserver, htls⟩ := readVersions_flags
    (readHello { f with numberToFilter := f.numberToFilter - 1 } b) b
  obtain ⟨hserver', htls'⟩ := readHello_flags { f with numberToFilter := f.numberToFilter - 1 } b
  exact ⟨hserver.trans hserver', htls.trans htls'⟩

end FilterState

/-- One more buffer counts if it is among the first eight. -/
theorem exists_mem_take_concat {P : List UInt8 → Prop} (bs : List (List UInt8))
    (b : List UInt8) : (∃ x ∈ (bs ++ [b]).take 8, P x) ↔
      (∃ x ∈ bs.take 8, P x) ∨ (bs.length < 8 ∧ P b) := by
  by_cases hfull : bs.length < 8
  · rw [List.take_of_length_le (by rw [List.length_append, List.length_singleton]; omega),
      List.take_of_length_le (by omega)]
    simp only [List.mem_append, List.mem_singleton, or_and_right, exists_or, exists_eq_left,
      hfull, true_and]
  · rw [List.take_append_of_le_length (by omega)]
    simp only [hfull, false_and, or_false]

theorem ServerSeen.handshakeSeen {bs : List (List UInt8)} (h : ServerSeen bs) :
    HandshakeSeen bs := by
  obtain ⟨b, hb, hopens⟩ := h
  exact ⟨b, hb, Or.inl hopens⟩

section Watching

variable {bs : List (List UInt8)} {f : FilterState} {b : List UInt8}

theorem watched_initial : Watched [] FilterState.initial := by
  refine ⟨?_, ?_, fun _ => ⟨rfl, rfl, rfl⟩⟩
  · exact iff_of_false (by decide) fun ⟨x, hx, _⟩ => absurd hx List.not_mem_nil
  · exact iff_of_false (by decide) fun ⟨x, hx, _⟩ => absurd hx List.not_mem_nil

/-- A ServerHello once seen stays seen. -/
theorem Watched.observe_of_serverSeen (hf : Watched bs f) (hseen : ServerSeen bs) :
    Watched (bs ++ [b]) (f.observe b) := by
  have hserver := hf.server.mpr hseen
  have htls := hf.handshake.mpr hseen.handshakeSeen
  have hflags : (f.observe b).isTls12OrAbove = true ∧ (f.observe b).isTls = true := by
    unfold FilterState.observe
    split
    · rw [(f.filter_flags b).1, (f.filter_flags b).2, hserver, htls]
      exact ⟨rfl, rfl⟩
    · exact ⟨hserver, htls⟩
  have hseen' : ServerSeen (bs ++ [b]) := (exists_mem_take_concat bs b).mpr (Or.inl hseen)
  exact ⟨iff_of_true hflags.1 hseen', iff_of_true hflags.2 hseen'.handshakeSeen,
    fun hnot => absurd hseen' hnot⟩

/-- Without one the filter counts down and looks. -/
theorem Watched.observe_of_counting (hf : Watched bs f) (hseen : ¬ ServerSeen bs) :
    Watched (bs ++ [b]) (f.observe b) := by
  obtain ⟨hcount, hleft, hoff⟩ := hf.counting hseen
  unfold FilterState.observe
  by_cases hfull : bs.length < 8
  · rw [if_pos (by omega)]
    obtain ⟨hserver, htls⟩ := f.filter_flags b
    refine ⟨?_, ?_, fun hseen' => ?_⟩
    · rw [hserver, Bool.or_eq_true, hf.server, decide_eq_true_iff, ServerSeen, ServerSeen,
        exists_mem_take_concat, and_iff_right hfull]
    · rw [htls, Bool.or_eq_true, hf.handshake, decide_eq_true_iff, HandshakeSeen, HandshakeSeen,
        exists_mem_take_concat, and_iff_right hfull]
    · have hopens : ¬ Opens b := fun h =>
        hseen' ((exists_mem_take_concat bs b).mpr (Or.inr ⟨hfull, h⟩))
      obtain ⟨hn, hx, -, hr⟩ :=
        FilterState.readHello_spec { f with numberToFilter := f.numberToFilter - 1 } b
      rw [if_neg hopens] at hr
      -- no record is outstanding, so the second half of the filter does nothing
      rw [FilterState.filter, FilterState.readVersions, if_neg (by rw [hr]; exact hleft.not_gt)]
      refine ⟨?_, hr.trans hleft, hx.trans hoff⟩
      rw [hn, List.length_append, List.length_singleton]
      show f.numberToFilter - 1 = _
      omega
  · rw [if_neg (by omega)]
    refine ⟨?_, ?_, fun _ => ⟨?_, hleft, hoff⟩⟩
    · rw [hf.server, ServerSeen, ServerSeen, exists_mem_take_concat]
      simp only [hfull, false_and, or_false]
    · rw [hf.handshake, HandshakeSeen, HandshakeSeen, exists_mem_take_concat]
      simp only [hfull, false_and, or_false]
    · rw [hcount, List.length_append, List.length_singleton]
      omega

theorem Watched.observe (hf : Watched bs f) : Watched (bs ++ [b]) (f.observe b) := by
  by_cases hseen : ServerSeen bs
  · exact hf.observe_of_serverSeen hseen
  · exact hf.observe_of_counting hseen

end Watching

/-! ## How long the padding goes on -/

/-- The buffers the filter is shown while the downlink is not spliced. -/
def buffers (ps : List Passed) : List (List UInt8) :=
  ps.filterMap fun
    | .up content => if content = [] then none else some content
    | .down chunk _ => some chunk

/-- Application data in complete records, with room for a record and a byte. -/
def AppRecords (chunk : List UInt8) : Prop :=
  6 ≤ chunk.length ∧ tlsAppDataStart.isPrefixOf chunk = true ∧ isCompleteRecord chunk = true

/-- A chunk behind these buffers ends the padding: it is application data of a connection that
has started like TLS. -/
def EndsPadding (bs : List (List UInt8)) (chunk : List UInt8) : Prop :=
  HandshakeSeen (bs ++ [chunk]) ∧ AppRecords chunk

/-- No chunk so far has ended the padding. -/
def StillPadding (ps : List Passed) : Prop :=
  ∀ pre chunk draw post, ps = pre ++ .down chunk draw :: post → ¬ EndsPadding (buffers pre) chunk

theorem appData_iff {bs : List (List UInt8)} {f : FilterState} {chunk : List UInt8}
    (hf : Watched (bs ++ [chunk]) f) :
    Downlink.appData f chunk = true ↔ EndsPadding bs chunk := by
  unfold Downlink.appData EndsPadding AppRecords
  rw [← hf.handshake]
  simp only [Bool.and_eq_true, decide_eq_true_iff, and_assoc]

theorem stillPadding_nil : StillPadding [] := by
  intro pre chunk draw post h
  exact absurd h (by simp)

theorem stillPadding_up (ps : List Passed) (content : List UInt8) :
    StillPadding (ps ++ [.up content]) ↔ StillPadding ps := by
  constructor
  · rintro h pre chunk draw post rfl
    exact h pre chunk draw (post ++ [.up content]) (by simp)
  · intro h pre chunk draw post heq
    rcases concat_eq_split heq with ⟨-, hlast⟩ | ⟨post', -, hps⟩
    · cases hlast
    · exact h pre chunk draw post' hps

theorem stillPadding_down (ps : List Passed) (chunk : List UInt8) (draw : ℕ) :
    StillPadding (ps ++ [.down chunk draw]) ↔
      StillPadding ps ∧ ¬ EndsPadding (buffers ps) chunk := by
  constructor
  · refine fun h => ⟨?_, h ps chunk draw [] rfl⟩
    rintro pre c d post rfl
    exact h pre c d (post ++ [.down chunk draw]) (by simp)
  · rintro ⟨h, hends⟩ pre c d post heq
    rcases concat_eq_split heq with ⟨rfl, hlast⟩ | ⟨post', -, hps⟩
    · cases hlast
      exact hends
    · exact h pre c d post' hps

/-- Where the downlink stands after what has passed. -/
inductive Stands (ps : List Passed) (s : Flow) : Prop
  | padding (still : StillPadding ps) (pads : s.downlink.isPadding = true)
      (unspliced : s.downlink.spliced = false) (watched : Watched (buffers ps) s.filter)
  | finished (ended : ¬ StillPadding ps) (plain : s.downlink.isPadding = false)

section Standing

variable {ps : List Passed} {s : Flow}

theorem Stands.up (h : Stands ps s) (content : List UInt8) :
    Stands (ps ++ [.up content]) (s.step (.up content)) := by
  rw [Flow.step_up]
  cases h with
  | padding still pads unspliced watched =>
    refine .padding ((stillPadding_up ps content).mpr still) pads unspliced ?_
    unfold buffers at watched ⊢
    rw [List.filterMap_append]
    by_cases hnil : content = []
    · simpa [hnil] using watched
    · simpa [hnil] using watched.observe
  | finished ended plain =>
    exact .finished (fun h => ended ((stillPadding_up ps content).mp h)) plain

theorem buffers_down (ps : List Passed) (chunk : List UInt8) (draw : ℕ) :
    buffers (ps ++ [.down chunk draw]) = buffers ps ++ [chunk] := by
  unfold buffers
  rw [List.filterMap_append]
  rfl

/-- The downlink no longer pads, and stays so. -/
theorem isPadding_step_down (h : s.downlink.isPadding = false) (chunk : List UInt8) (draw : ℕ) :
    (s.step (.down chunk draw)).downlink.isPadding = false := by
  show (s.downlink.send _ chunk draw).1.isPadding = false
  cases hspliced : s.downlink.spliced with
  | true =>
    rw [Downlink.send_spliced hspliced]
    exact h
  | false =>
    rw [Downlink.send_plain hspliced h]
    exact h

theorem Stands.down (h : Stands ps s) (chunk : List UInt8) (draw : ℕ) :
    Stands (ps ++ [.down chunk draw]) (s.step (.down chunk draw)) := by
  cases h with
  | padding still pads unspliced watched =>
    have hseen : Watched (buffers ps ++ [chunk]) (s.downlink.observed s.filter chunk) := by
      rw [Downlink.observed, unspliced]
      exact watched.observe
    obtain ⟨p, -, hsend⟩ := Downlink.send_padding unspliced pads
      (s.downlink.observed s.filter chunk) chunk draw
    have happ := appData_iff hseen
    by_cases hends : EndsPadding (buffers ps) chunk
    · refine .finished (fun h => ((stillPadding_down ps chunk draw).mp h).2 hends) ?_
      show (s.downlink.send _ chunk draw).1.isPadding = false
      rw [hsend, happ.mpr hends]
      rfl
    · have hdata : Downlink.appData (s.downlink.observed s.filter chunk) chunk = false :=
        Bool.not_eq_true _ ▸ fun h => hends (happ.mp h)
      refine .padding ((stillPadding_down ps chunk draw).mpr ⟨still, hends⟩) ?_ ?_ ?_
      · show (s.downlink.send _ chunk draw).1.isPadding = true
        rw [hsend, hdata]
        rfl
      · show (s.downlink.send _ chunk draw).1.spliced = false
        rw [hsend, Downlink.command, hdata]
        rfl
      · rw [buffers_down]
        exact hseen
  | finished ended plain =>
    exact .finished (fun h => ended ((stillPadding_down ps chunk draw).mp h).1)
      (isPadding_step_down plain chunk draw)

/-- **Where the downlink stands after a run.** -/
theorem stands_run (uuid : Uuid) (ps : List Passed) : Stands ps (Flow.run uuid ps) := by
  induction ps using List.reverseRecOn with
  | nil => exact .padding stillPadding_nil rfl rfl watched_initial
  | append_singleton ps e ih =>
    rw [Flow.run_concat]
    cases e with
    | up content => exact ih.up content
    | down chunk draw => exact ih.down chunk draw

end Standing

/-! ## The rules of the writer -/

/-- The two rules for a padded block: its content, the filter it was judged by, its command and
whether the padding goes on. -/
structure WriterRules (f : FilterState) (content : List UInt8) (command : UInt8)
    (padding : Bool) : Prop where
  fits : content.length ≤ bufSize - 21
  finishes : f.isTls12OrAbove = false → f.numberToFilter ≤ 1 →
    command = commandPaddingEnd ∧ padding = false

/-- Every padded block that is sent keeps the rules. -/
def FollowsWriter (uuid : Uuid) (ps : List Passed) : Prop :=
  ∀ pre chunk draw post, ps = pre ++ .down chunk draw :: post →
    let s := Flow.run uuid pre
    s.downlink.spliced = false → s.downlink.isPadding = true → ∃ command padLen,
      (s.step (.down chunk draw)).sent = s.sent ++ [.block s.downlink.uuidOnce command
        (wireBlock s.downlink.uuidOnce chunk command padLen)] ∧
      WriterRules (s.filter.observe chunk) chunk command
        (s.step (.down chunk draw)).downlink.isPadding

section Rules

variable {bs : List (List UInt8)} {f : FilterState} {chunk : List UInt8}

/-- The filter is at its last packet without a ServerHello, said of the buffers. -/
theorem Watched.atEnd_iff (hf : Watched bs f) :
    (f.isTls12OrAbove = false ∧ f.numberToFilter ≤ 1) ↔ ¬ ServerSeen bs ∧ 7 ≤ bs.length := by
  rw [← Bool.not_eq_true, hf.server]
  refine and_congr_right fun hseen => ?_
  rw [(hf.counting hseen).1]
  omega

/-- Without a ServerHello, the block of a chunk has the command `End` exactly if the chunk ends
the padding. -/
theorem Watched.command_eq_end_iff (hf : Watched (bs ++ [chunk]) f)
    (hseen : ¬ ServerSeen (bs ++ [chunk])) :
    Downlink.command f chunk = commandPaddingEnd ↔ EndsPadding bs chunk := by
  rw [← appData_iff hf, Downlink.command, (hf.counting hseen).2.2]
  cases Downlink.appData f chunk <;> decide

end Rules

/-- What a padding downlink does with a chunk. -/
theorem step_down_padding {s : Flow} (hs : s.downlink.spliced = false)
    (hp : s.downlink.isPadding = true) (chunk : List UInt8) (draw : ℕ) :
    ∃ padLen, (s.step (.down chunk draw)).sent = s.sent ++ [.block s.downlink.uuidOnce
        (Downlink.command (s.filter.observe chunk) chunk)
        (wireBlock s.downlink.uuidOnce chunk (Downlink.command (s.filter.observe chunk) chunk)
          padLen)] ∧
      (s.step (.down chunk draw)).downlink.isPadding =
        !Downlink.appData (s.filter.observe chunk) chunk := by
  have hobs : s.downlink.observed s.filter chunk = s.filter.observe chunk := by
    rw [Downlink.observed, hs]
    rfl
  obtain ⟨padLen, -, hsend⟩ := Downlink.send_padding hs hp (s.filter.observe chunk) chunk draw
  refine ⟨padLen, ?_, ?_⟩
  · show s.sent ++ [(s.downlink.send (s.downlink.observed s.filter chunk) chunk draw).2] = _
    rw [hobs, hsend]
  · show (s.downlink.send (s.downlink.observed s.filter chunk) chunk draw).1.isPadding = _
    rw [hobs, hsend]

/-- **When the downlink follows the documented writer.**  For every sequence of uplink contents
and chunks: exactly if each chunk that is read while the padding goes on fits a block, and,
from the seventh buffer on, ends the padding unless a ServerHello has been seen among the first
eight. -/
theorem followsWriter_iff (uuid : Uuid) (ps : List Passed) : FollowsWriter uuid ps ↔
    ∀ pre chunk draw post, ps = pre ++ .down chunk draw :: post → StillPadding pre →
      chunk.length ≤ bufSize - 21 ∧
      (7 ≤ (buffers pre ++ [chunk]).length → ¬ ServerSeen (buffers pre ++ [chunk]) →
        EndsPadding (buffers pre) chunk) := by
  constructor
  · intro h pre chunk draw post heq hstill
    cases stands_run uuid pre with
    | finished ended _ => exact absurd hstill ended
    | padding _ pads unspliced watched =>
      have hseen := watched.observe (b := chunk)
      obtain ⟨command, padLen, hsent, hrules⟩ := h pre chunk draw post heq unspliced pads
      obtain ⟨padLen', hsent', -⟩ := step_down_padding unspliced pads chunk draw
      have hcommand : command =
          Downlink.command ((Flow.run uuid pre).filter.observe chunk) chunk := by
        have hblock := List.singleton_inj.mp (List.append_cancel_left (hsent.symm.trans hsent'))
        exact (Sent.block.inj hblock).2.1
      refine ⟨hrules.fits, fun hseven hserver => ?_⟩
      obtain ⟨hnot, hlast⟩ := hseen.atEnd_iff.mpr ⟨hserver, hseven⟩
      exact (hseen.command_eq_end_iff hserver).mp (hcommand ▸ (hrules.finishes hnot hlast).1)
  · intro h pre chunk draw post heq s unspliced pads
    cases stands_run uuid pre with
    | finished _ plain => exact absurd (pads.symm.trans plain) (by decide)
    | padding still _ _ watched =>
      have hseen := watched.observe (b := chunk)
      obtain ⟨padLen, hsent, hpadding⟩ := step_down_padding unspliced pads chunk draw
      obtain ⟨hfits, hends⟩ := h pre chunk draw post heq still
      refine ⟨_, padLen, hsent, hfits, fun hnot hlast => ?_⟩
      obtain ⟨hserver, hseven⟩ := hseen.atEnd_iff.mp ⟨hnot, hlast⟩
      have hend := hends hseven hserver
      refine ⟨(hseen.command_eq_end_iff hserver).mpr hend, ?_⟩
      rw [hpadding, (appData_iff hseen).mpr hend]
      rfl

/-- **Both rules are broken.**  A chunk of 8172 bytes is sent as one block; and the seventh of
seven chunks that are no TLS is sent with `Continue`. -/
theorem downlink_breaks_writer :
    (∃ uuid, ¬ FollowsWriter uuid [.down (List.replicate 8172 0) 0]) ∧
    ∃ uuid, ¬ FollowsWriter uuid (List.replicate 7 (.down [0x41] 0)) := by
  constructor
  · refine ⟨List.Vector.replicate 16 0, fun h => ?_⟩
    obtain ⟨_, _, -, hrules⟩ := h [] _ 0 [] rfl rfl rfl
    have hfits := hrules.fits
    rw [List.length_replicate] at hfits
    exact absurd hfits (by decide)
  · refine ⟨List.Vector.replicate 16 0, fun h => ?_⟩
    obtain ⟨_, _, -, hrules⟩ := h (List.replicate 6 (.down [0x41] 0)) [0x41] 0 [] rfl rfl rfl
    have hstill := (hrules.finishes (by decide) (by decide)).2
    exact absurd hstill (by decide)

end Vision
end HoldTheDonut
