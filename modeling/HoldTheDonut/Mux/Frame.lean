import HoldTheDonut.Core.Lossy
import HoldTheDonut.Server.Outbound

/-!
# `donut-server/src/mux.rs`: the frames

    [meta-len 2][sid 2][status 1][option 1] [network 1][port 2][type 1][addr]  [global-id]
    [data-len 2][data]

The address part belongs to `New` frames and to `Keep` frames whose network byte says
UDP; whatever else the metadata holds is skipped.  `parseFrame` takes one frame off a
buffer, asks for more with `none`, or reports a stream that is not Mux.
-/

namespace HoldTheDonut
namespace Mux

open Server

def statusNew : UInt8 := 0x01
def statusKeep : UInt8 := 0x02
def statusEnd : UInt8 := 0x03
def statusKeepalive : UInt8 := 0x04
def optionData : UInt8 := 0x01
def netUdp : UInt8 := 0x02

/-- A target as a frame states it. -/
inductive Addr where
  | ip (addr : SocketAddr)
  | domain (host : String) (port : UInt16)
  deriving DecidableEq

/-- A frame target as the router sees it: domains stay domains. -/
def endpointOf : Addr → Endpoint
  | .ip s => ⟨.ip s.ip, s.port⟩
  | .domain h p => ⟨.domain h, p⟩

/-- `[port][type][addr]` off the front of `b`, with the number of bytes used. -/
def readAddr (b : List UInt8) : Option (Addr × ℕ) :=
  if b.length < 3 then none
  else
    let port := UInt16.ofNat (be16 (b.getD 0 0) (b.getD 1 0))
    let ty := b.getD 2 0
    if ty = 0x01 then
      if b.length < 7 then none
      else some (.ip ⟨.v4 (Octets.fromSlice 4 ((b.drop 3).take 4)), port⟩, 7)
    else if ty = 0x03 then
      if b.length < 19 then none
      else some (.ip ⟨.v6 (Octets.fromSlice 16 ((b.drop 3).take 16)), port⟩, 19)
    else if ty = 0x02 then
      if b.length < 4 then none
      else
        let dlen := (b.getD 3 0).toNat
        if b.length < 4 + dlen then none
        else some (.domain (fromUtf8Lossy ((b.drop 4).take dlen)) port, 4 + dlen)
    else none

/-- `[network=UDP][port][type][addr]` of a response. -/
def writeAddr (src : SocketAddr) : List UInt8 :=
  [netUdp, hi8 src.port.toNat, lo8 src.port.toNat] ++
    match src.ip with
    | .v4 a => 0x01 :: a.toList
    | .v6 a => 0x03 :: a.toList

structure Frame where
  sid : UInt16
  status : UInt8
  target : Option Addr
  data : Option (List UInt8)
  deriving DecidableEq

/-- The `InvalidData` errors of the relay. -/
inductive MuxError where
  /-- Not a Mux stream: the length found and the first sixteen bytes. -/
  | badMetaLength (metaLen : ℕ) (head : List UInt8)
  | metaTruncated
  | addrParse
  | unknownStatus
  deriving DecidableEq

/-- The target in the metadata, if this kind of frame carries one. -/
def metaTarget (frameMeta : List UInt8) : Except MuxError (Option Addr) :=
  let status := frameMeta.getD 2 0
  if status = statusNew ∨
      (status = statusKeep ∧ 4 < frameMeta.length ∧ frameMeta.getD 4 0 = netUdp) then
    if frameMeta.length < 5 then .error .metaTruncated
    else
      match readAddr (frameMeta.drop 5) with
      | some (a, _) => .ok (some a)
      | none => .error .addrParse
  else .ok none

/-- The optional payload behind the metadata: `none` asks for more. -/
def takeData (option : UInt8) (rest : List UInt8) :
    Option (Option (List UInt8) × List UInt8) :=
  if option &&& optionData ≠ 0 then
    if rest.length < 2 then none
    else
      let dlen := be16 (rest.getD 0 0) (rest.getD 1 0)
      if rest.length < 2 + dlen then none
      else some (some ((rest.drop 2).take dlen), rest.drop (2 + dlen))
  else some (none, rest)

/-- One complete frame off the front of `buf`, and what is left. -/
def parseFrame (buf : List UInt8) : Except MuxError (Option (Frame × List UInt8)) :=
  if buf.length < 2 then .ok none
  else
    let metaLen := be16 (buf.getD 0 0) (buf.getD 1 0)
    if metaLen < 4 ∨ 512 < metaLen then .error (.badMetaLength metaLen (buf.take 16))
    else if buf.length < 2 + metaLen then .ok none
    else
      let frameMeta := (buf.drop 2).take metaLen
      match metaTarget frameMeta with
      | .error e => .error e
      | .ok target =>
        match takeData (frameMeta.getD 3 0) (buf.drop (2 + metaLen)) with
        | none => .ok none
        | some (data, rest) =>
          .ok (some (⟨UInt16.ofNat (be16 (frameMeta.getD 0 0) (frameMeta.getD 1 0)),
            frameMeta.getD 2 0, target, data⟩, rest))

/-- A response on its way to the client: Keep, data and source address. -/
def keepFrame (sid : UInt16) (src : SocketAddr) (data : List UInt8) : List UInt8 :=
  let frameMeta := [hi8 sid.toNat, lo8 sid.toNat, statusKeep, optionData] ++ writeAddr src
  [hi8 frameMeta.length, lo8 frameMeta.length] ++ frameMeta ++
    [hi8 data.length, lo8 data.length] ++ data

/-! ## What a frame costs and states -/

theorem takeData_length {option : UInt8} {rest rest' : List UInt8} {data : Option (List UInt8)}
    (h : takeData option rest = some (data, rest')) : rest'.length ≤ rest.length := by
  unfold takeData at h
  split at h
  · split at h
    · cases h
    · simp only at h
      split at h
      · cases h
      · cases h
        rw [List.length_drop]
        omega
  · cases h
    exact le_rfl

/-- What there is to know about a parsed frame. -/
structure ParsedFrom (buf : List UInt8) (f : Frame) (rest : List UInt8) (metaLen : ℕ) : Prop where
  four_le : 4 ≤ metaLen
  complete : 2 + metaLen ≤ buf.length
  status_eq : f.status = ((buf.drop 2).take metaLen).getD 2 0
  target_eq : metaTarget ((buf.drop 2).take metaLen) = .ok f.target
  data_eq : takeData (((buf.drop 2).take metaLen).getD 3 0) (buf.drop (2 + metaLen)) =
    some (f.data, rest)

theorem parsedFrom_of_parseFrame {buf rest : List UInt8} {f : Frame}
    (h : parseFrame buf = .ok (some (f, rest))) :
    ParsedFrom buf f rest (be16 (buf.getD 0 0) (buf.getD 1 0)) := by
  unfold parseFrame at h
  split at h
  · cases h
  · simp only at h
    split at h
    · cases h
    · next hrange =>
      split at h
      · cases h
      · next hlen =>
        split at h
        · cases h
        · next target htarget =>
          split at h
          · cases h
          · next data rest' hdata =>
            cases h
            exact ⟨by omega, by omega, rfl, htarget, hdata⟩

/-- A parsed frame consumes its metadata. -/
theorem parseFrame_length {buf rest : List UInt8} {f : Frame}
    (h : parseFrame buf = .ok (some (f, rest))) : rest.length < buf.length := by
  have hp := parsedFrom_of_parseFrame h
  have hle := takeData_length hp.data_eq
  have hcomplete := hp.complete
  rw [List.length_drop] at hle
  omega

/-- Only `New` and `Keep` frames state a target. -/
theorem parseFrame_status {buf rest : List UInt8} {f : Frame}
    (h : parseFrame buf = .ok (some (f, rest))) (ht : f.target ≠ none) :
    f.status = statusNew ∨ f.status = statusKeep := by
  have hp := parsedFrom_of_parseFrame h
  have htarget := hp.target_eq
  rw [hp.status_eq]
  unfold metaTarget at htarget
  simp only at htarget
  split at htarget
  · next hcond =>
    rcases hcond with hnew | ⟨hkeep, -⟩
    · exact Or.inl hnew
    · exact Or.inr hkeep
  · exact absurd (Except.ok.inj htarget).symm ht

end Mux
end HoldTheDonut
