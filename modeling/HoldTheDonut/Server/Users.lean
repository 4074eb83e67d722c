import HoldTheDonut.Core.Auth
import HoldTheDonut.Machine.Run
import HoldTheDonut.Storage.Disk
import Mathlib.Logic.Equiv.List

/-!
# `donut-server/src/users.rs`: the user store

The accepted users exist three times: as a list of records in memory, as the snapshot the
proxy reads, and as a JSON file.  `add` and `remove` change all three, one after the other,
under a lock: the candidate list is written to a sibling file, synced and renamed over
`users.json`, then the directory is synced, then the records are replaced, then the snapshot.

Each of these is a step of its own here, with the system's answer in the event.  Any number of
callers may wait for the lock and any of them may get it.  The first boot goes through the same
steps: it persists the seed before there is a store at all.

Four of the steps can fail, and they are the first four.  From the rename on nothing can, since
the answers about the directory are ignored.  So a call that fails has changed nothing that is
read, and one that does not fail changes all three copies (`userStore_consistent`).
-/

namespace HoldTheDonut
namespace Server

open Machine Storage

/-! ## Paths -/

/-- A path as `Path::components` sees it. -/
structure HostPath where
  root : Bool
  parts : List String
  deriving DecidableEq

namespace HostPath

/-- The components of a text: empty parts are skipped, and so is a `.` that is not the first. -/
def parse (s : String) : HostPath where
  root := s.toList.head? == some '/'
  parts :=
    match (s.toList.splitOn '/').map String.ofList with
    | [] => []
    | first :: rest =>
      (if first = "" then [] else [first]) ++ rest.filter fun part => part ≠ "" ∧ part ≠ "."

/-- `Path::parent`: the root and the empty path have none. -/
def parent (p : HostPath) : Option HostPath :=
  if p.parts = [] then none else some { p with parts := p.parts.dropLast }

/-- `Path::join` with one more component. -/
def join (p : HostPath) (name : String) : HostPath := { p with parts := p.parts ++ [name] }

/-- The empty path, which no file has. -/
def empty : HostPath := ⟨false, []⟩

end HostPath

/-- The users' file lies beside the configuration. -/
def usersPath (config : String) : HostPath :=
  ((HostPath.parse config).parent.getD (HostPath.parse ".")).join "users.json"

/-! ## Records, calls and answers -/

/-- One provisioned device. -/
structure UserRecord where
  uuid : UserId
  name : String
  added : UInt64
  deriving DecidableEq

/-- The JSON text of a list of records. -/
structure Json where
  encode : List UserRecord → List UInt8
  decode : List UInt8 → Option (List UserRecord)
  round_trip : ∀ records, decode (encode records) = some records

inductive UserStoreError where
  | io
  | duplicate (uuid : UserId)
  deriving DecidableEq

inductive StoreCall where
  | add (name : String) (uuid : Option UserId)
  | remove (uuid : UserId)
  deriving DecidableEq

inductive StoreReply where
  | added (record : UserRecord)
  | removed (found : Bool)
  deriving DecidableEq

/-- The snapshot of a list of records. -/
def authOf (records : List UserRecord) : UserAuth := ⟨records.map UserRecord.uuid⟩

/-- What a call comes to once it has the lock: an answer at once, or a list to be persisted
and the answer after that. -/
inductive Plan where
  | answer (reply : Except UserStoreError StoreReply)
  | persist (candidate : List UserRecord) (reply : StoreReply)

/-- `add` and `remove` up to `persist`.  `minted` is the id made up when none is given. -/
def plan (records : List UserRecord) (call : StoreCall) (minted : UserId) (now : UInt64) : Plan :=
  match call with
  | .add name uuid =>
    let id := uuid.getD minted
    if records.any fun r => r.uuid = id then .answer (.error (.duplicate id))
    else .persist (records ++ [⟨id, name, now⟩]) (.added ⟨id, name, now⟩)
  | .remove uuid =>
    let candidate := records.filter fun r => r.uuid ≠ uuid
    if candidate.length = records.length then .answer (.ok (.removed false))
    else .persist candidate (.removed true)

/-! ## The store -/

/-- The users' file and the sibling it is written to first. -/
inductive UserFile where
  | users
  | tmp
  deriving DecidableEq

/-- The three copies, as they are found at some moment. -/
structure View where
  records : List UserRecord
  handle : Option UserAuth
  file : Option (List UserRecord)

/-- The next step of the caller that holds the lock. -/
inductive Stage where
  | create
  | write (fd : ℕ)
  | syncFile (fd : ℕ)
  | rename
  | openDir
  | syncDir
  | commit
  | publish
  | finish
  deriving DecidableEq

/-- A call that holds the lock: its answer, if nothing fails, and the copies it found. -/
structure Holder where
  call : StoreCall
  reply : StoreReply
  found : View

/-- A list that is being persisted, for a call or, at the first boot, for none. -/
structure Job where
  holder : Option Holder
  candidate : List UserRecord
  stage : Stage
  dirSynced : Bool

/-- A call that has returned, with the copies it found and the copies it left. -/
structure Completed where
  call : StoreCall
  reply : Except UserStoreError StoreReply
  before : View
  after : View

structure UserStore where
  disk : Disk UserFile (List UInt8)
  records : List UserRecord
  /-- The snapshot; there is none before the store has been made. -/
  handle : Option UserAuth
  job : Option Job
  waiting : List StoreCall
  completed : List Completed
  /-- For each list that became visible, whether its directory had been synced. -/
  published : List Bool

/-- What happens: a caller comes, one that waits gets the lock, or the holder takes a step and
the system answers.  A write that fails may have written some of its bytes. -/
inductive StoreEvent where
  | arrive (call : StoreCall)
  | lock (i : ℕ) (minted : UserId) (now : UInt64)
  | advance (ok : Bool) (written : ℕ)

section Machine

variable (json : Json) (path : HostPath)

/-- The three copies. -/
def UserStore.view (s : UserStore) : View :=
  ⟨s.records, s.handle, (s.disk.read .users).bind json.decode⟩

/-- The call returns and the lock is free. -/
def UserStore.complete (s : UserStore) (call : StoreCall) (reply : Except UserStoreError StoreReply)
    (found : View) : UserStore :=
  { s with
    job := none
    completed := s.completed ++ [⟨call, reply, found, s.view json⟩] }

/-- A step of `persist` has failed.  At the first boot there is no store then. -/
def UserStore.fail (s : UserStore) (j : Job) : UserStore :=
  match j.holder with
  | some h => s.complete json h.call (.error .io) h.found
  | none => { s with job := none }

/-- Can the directory of a file be opened?  The empty path cannot. -/
def opensDir (ok : Bool) : Bool :=
  match path.parent with
  | some dir => ok && dir != .empty
  | none => false

/-- One step of the holder. -/
def UserStore.advance (s : UserStore) (j : Job) (ok : Bool) (written : ℕ) : UserStore :=
  match j.stage with
  | .create =>
    if ok then
      { s with
        disk := (s.disk.create .tmp []).1
        job := some { j with stage := .write (s.disk.create .tmp []).2 } }
    else s.fail json j
  | .write fd =>
    if ok then
      { s with
        disk := s.disk.write fd (json.encode j.candidate)
        job := some { j with stage := .syncFile fd } }
    else
      UserStore.fail json
        { s with disk := s.disk.write fd ((json.encode j.candidate).take written) } j
  | .syncFile fd =>
    if ok then
      { s with disk := s.disk.syncFile fd, job := some { j with stage := .rename } }
    else s.fail json j
  | .rename =>
    if ok then
      { s with disk := s.disk.rename .tmp .users, job := some { j with stage := .openDir } }
    else s.fail json j
  -- the two answers about the directory are ignored
  | .openDir =>
    if opensDir path ok then { s with job := some { j with stage := .syncDir } }
    else { s with job := some { j with stage := .commit } }
  | .syncDir =>
    if ok then
      { s with
        disk := s.disk.syncDir
        job := some { j with stage := .commit, dirSynced := true } }
    else { s with job := some { j with stage := .commit } }
  | .commit => { s with records := j.candidate, job := some { j with stage := .publish } }
  | .publish =>
    { s with
      handle := some (authOf s.records)
      published := s.published ++ [j.dirSynced]
      job := j.holder.map fun h => { j with holder := some h, stage := .finish } }
  | .finish =>
    match j.holder with
    | some h => s.complete json h.call (.ok h.reply) h.found
    | none => { s with job := none }

/-- A waiting call gets the lock. -/
def UserStore.lock (s : UserStore) (call : StoreCall) (minted : UserId) (now : UInt64) :
    UserStore :=
  match plan s.records call minted now with
  | .answer reply => s.complete json call reply (s.view json)
  | .persist candidate reply =>
    { s with job := some ⟨some ⟨call, reply, s.view json⟩, candidate, .create, false⟩ }

/-- One event.  Callers come once there is a store, which the first boot ends with. -/
def UserStore.step (s : UserStore) : StoreEvent → Option UserStore
  | .arrive call =>
    if s.handle.isSome then some { s with waiting := s.waiting ++ [call] } else none
  | .lock i minted now =>
    if s.job.isNone ∧ s.handle.isSome then
      (s.waiting[i]?).map fun call =>
        UserStore.lock json { s with waiting := s.waiting.eraseIdx i } call minted now
    else none
  | .advance ok written => s.job.map fun j => s.advance json path j ok written

/-- The disk at the start: the users' file, if there is one, and what an earlier run may have
left under the sibling's name. -/
def diskOf (file tmp : Option (List UInt8)) : Disk UserFile (List UInt8) where
  files := [⟨file.getD [], true⟩, ⟨tmp.getD [], true⟩]
  dir
    | .users => file.map fun _ => 0
    | .tmp => tmp.map fun _ => 1
  older := []

/-- The record of a seeded user. -/
def seedRecord (now : UInt64) (uuid : UserId) : UserRecord := ⟨uuid, "seed", now⟩

/-- `load_or_seed`: the file wins, and the seed is persisted when there is none.  There is no
store for a file that does not parse. -/
def UserStore.loadOrSeed (file tmp : Option (List UInt8)) (seed : List UserId) (now : UInt64) :
    Option UserStore :=
  match file with
  | some data =>
    (json.decode data).map fun records =>
      ⟨diskOf file tmp, records, some (authOf records), none, [], [], []⟩
  | none =>
    some ⟨diskOf file tmp, [], none,
      some ⟨none, seed.map (seedRecord now), .create, false⟩, [], [], []⟩

end Machine

/-! ## What is meant -/

/-- The snapshot accepts an id. -/
def View.Authorises (v : View) (id : UserId) : Prop :=
  ∃ auth, v.handle = some auth ∧ auth.isAuthorized id = true

/-- The three copies are the same. -/
structure View.Agrees (v : View) : Prop where
  file : v.file = some v.records
  authorised : ∀ id, v.Authorises id ↔ ∃ r ∈ v.records, r.uuid = id

/-- **What a call that has returned may have changed.**  Nothing, if it returned an error or
removed nothing, and it removes nothing exactly for an id that was not accepted.  An `add`
accepts one more id, the one it was given if it was given one.  A `remove` accepts one less. -/
def Completed.Lawful (e : Completed) : Prop :=
  match e.call, e.reply with
  | _, .error _ => e.after = e.before
  | .add name uuid, .ok (.added r) =>
    r.name = name ∧ (∀ id, uuid = some id → r.uuid = id) ∧
      ¬ e.before.Authorises r.uuid ∧
      ∀ id, e.after.Authorises id ↔ e.before.Authorises id ∨ id = r.uuid
  | .remove id, .ok (.removed found) =>
    if found then
      e.before.Authorises id ∧
        ∀ id', e.after.Authorises id' ↔ e.before.Authorises id' ∧ id' ≠ id
    else ¬ e.before.Authorises id ∧ e.after = e.before
  | _, _ => False

/-- The copies of one list. -/
def View.of (records : List UserRecord) : View := ⟨records, some (authOf records), some records⟩

theorem View.of_authorises (records : List UserRecord) (id : UserId) :
    (View.of records).Authorises id ↔ ∃ r ∈ records, r.uuid = id := by
  constructor
  · rintro ⟨auth, hauth, hid⟩
    cases hauth
    exact List.mem_map.mp ((UserAuth.isAuthorized_iff _ _).mp hid)
  · intro h
    exact ⟨authOf records, rfl, (UserAuth.isAuthorized_iff _ _).mpr (List.mem_map.mpr h)⟩

theorem View.of_agrees (records : List UserRecord) : (View.of records).Agrees :=
  ⟨rfl, View.of_authorises records⟩

/-! ## What a plan comes to -/

variable {records candidate : List UserRecord} {now : UInt64} {minted : UserId}

/-- An `add` that goes on. -/
theorem plan_add_eq_persist {name : String} {uuid : Option UserId} {reply : StoreReply}
    (h : plan records (.add name uuid) minted now = .persist candidate reply) :
    ∃ r : UserRecord, reply = .added r ∧ candidate = records ++ [r] ∧ r.name = name ∧
      (∀ id, uuid = some id → r.uuid = id) ∧ ∀ x ∈ records, x.uuid ≠ r.uuid := by
  rw [plan] at h
  split at h
  · cases h
  · next hnew =>
    cases h
    refine ⟨_, rfl, rfl, rfl, ?_, ?_⟩
    · rintro id rfl
      rfl
    · intro x hx heq
      exact hnew (List.any_eq_true.mpr ⟨x, hx, decide_eq_true heq⟩)

/-- A `remove` that goes on. -/
theorem plan_remove_eq_persist {uuid : UserId} {reply : StoreReply}
    (h : plan records (.remove uuid) minted now = .persist candidate reply) :
    reply = .removed true ∧ candidate = records.filter (fun r => r.uuid ≠ uuid) ∧
      ∃ r ∈ records, r.uuid = uuid := by
  rw [plan] at h
  split at h
  · cases h
  · next hlen =>
    cases h
    refine ⟨rfl, rfl, ?_⟩
    by_contra hnone
    refine hlen (congrArg List.length (List.filter_eq_self.mpr fun r hr => ?_))
    exact decide_eq_true fun heq => hnone ⟨r, hr, heq⟩

variable {reply : Except UserStoreError StoreReply} {call : StoreCall}

/-- A call that is answered at once has found nothing to change. -/
theorem plan_eq_answer (h : plan records call minted now = .answer reply) :
    (∃ id, reply = .error (.duplicate id)) ∨
    ∃ uuid, call = .remove uuid ∧ reply = .ok (.removed false) ∧
      ¬ ∃ r ∈ records, r.uuid = uuid := by
  cases call with
  | add name uuid =>
    rw [plan] at h
    split at h
    · cases h
      exact Or.inl ⟨_, rfl⟩
    · cases h
  | remove uuid =>
    rw [plan] at h
    split at h
    · next hlen =>
      cases h
      refine Or.inr ⟨uuid, rfl, rfl, ?_⟩
      rintro ⟨r, hr, heq⟩
      have hall := List.length_filter_eq_length_iff.mp hlen r hr
      exact of_decide_eq_true hall heq
    · cases h

/-- **A persisted plan is lawful.** -/
theorem lawful_of_persist {reply : StoreReply}
    (h : plan records call minted now = .persist candidate reply) :
    (Completed.mk call (.ok reply) (.of records) (.of candidate)).Lawful := by
  cases call with
  | add name uuid =>
    obtain ⟨r, rfl, rfl, hname, huuid, hnew⟩ := plan_add_eq_persist h
    refine ⟨hname, huuid, ?_, fun id => ?_⟩
    · rw [View.of_authorises]
      rintro ⟨x, hx, heq⟩
      exact hnew x hx heq
    · rw [View.of_authorises, View.of_authorises]
      constructor
      · rintro ⟨x, hx, rfl⟩
        rcases List.mem_append.mp hx with hx | hx
        · exact Or.inl ⟨x, hx, rfl⟩
        · exact Or.inr (congrArg UserRecord.uuid (List.mem_singleton.mp hx))
      · rintro (⟨x, hx, rfl⟩ | rfl)
        · exact ⟨x, List.mem_append_left _ hx, rfl⟩
        · exact ⟨r, List.mem_append_right _ (List.mem_singleton_self r), rfl⟩
  | remove uuid =>
    obtain ⟨rfl, rfl, hmem⟩ := plan_remove_eq_persist h
    refine ⟨(View.of_authorises _ _).mpr hmem, fun id => ?_⟩
    rw [View.of_authorises, View.of_authorises]
    constructor
    · rintro ⟨x, hx, rfl⟩
      obtain ⟨hx, hne⟩ := List.mem_filter.mp hx
      exact ⟨⟨x, hx, rfl⟩, of_decide_eq_true hne⟩
    · rintro ⟨⟨x, hx, rfl⟩, hne⟩
      exact ⟨x, List.mem_filter.mpr ⟨hx, decide_eq_true hne⟩, rfl⟩

theorem lawful_of_answer (h : plan records call minted now = .answer reply) :
    (Completed.mk call reply (.of records) (.of records)).Lawful := by
  rcases plan_eq_answer h with ⟨id, rfl⟩ | ⟨uuid, rfl, rfl, hnone⟩
  · cases call <;> rfl
  · refine ⟨?_, rfl⟩
    rw [View.of_authorises]
    exact hnone

/-! ## The invariant -/

/-- The list a job started from; none at the first boot. -/
def Job.before (j : Job) : Option (List UserRecord) := j.holder.map fun h => h.found.records

/-- The holder found three equal copies, and its job is what its call comes to. -/
structure Holder.Sound (h : Holder) (candidate : List UserRecord) : Prop where
  found : h.found = .of h.found.records
  planned : ∃ minted now, plan h.found.records h.call minted now = .persist candidate h.reply

/-- The records and the snapshot, as far as the job is: the records change at `commit`, the
snapshot at `publish`. -/
def Job.InMemory (j : Job) (s : UserStore) : Prop :=
  match j.stage with
  | .publish => s.records = j.candidate ∧ s.handle = j.before.map authOf
  | .finish => s.records = j.candidate ∧ s.handle = some (authOf j.candidate)
  | _ => s.records = j.before.getD [] ∧ s.handle = j.before.map authOf

section Invariant

variable (json : Json)

/-- What is read at the path: a list, or nothing. -/
def Shows (d : Disk UserFile (List UInt8)) (l : Option (List UserRecord)) : Prop :=
  (d.read .users).map json.decode = l.map some

/-- The file, as far as the job is: it changes at `rename`. -/
def Job.OnDisk (j : Job) (d : Disk UserFile (List UInt8)) : Prop :=
  match j.stage with
  | .create => Shows json d j.before
  | .write fd => Shows json d j.before ∧ ∃ f, d.Leads .tmp fd f
  | .syncFile fd => Shows json d j.before ∧ ∃ b, d.Leads .tmp fd ⟨json.encode j.candidate, b⟩
  | .rename => Shows json d j.before ∧ ∃ fd, d.Leads .tmp fd ⟨json.encode j.candidate, true⟩
  | _ => ∃ i, d.Leads .users i ⟨json.encode j.candidate, true⟩

/-- A job that is on its way. -/
structure Job.Sound (j : Job) (s : UserStore) : Prop where
  holder : ∀ h, j.holder = some h → h.Sound j.candidate
  onDisk : j.OnDisk json s.disk
  inMemory : j.InMemory s

/-- A call that has returned found three equal copies, left three equal copies, and was
lawful. -/
structure Completed.Good (e : Completed) : Prop where
  before : e.before = .of e.before.records
  after : e.after = .of e.after.records
  lawful : e.Lawful

structure UserStore.Coherent (s : UserStore) : Prop where
  separate : s.disk.Separate .tmp .users
  free : s.job = none → ∀ auth, s.handle = some auth → s.view json = .of s.records
  busy : ∀ j, s.job = some j → j.Sound json s
  good : ∀ e ∈ s.completed, e.Good

variable {json}

theorem Shows.of_alike {d d' : Disk UserFile (List UInt8)} {l : Option (List UserRecord)}
    (h : Shows json d l) (hsame : Disk.Alike d d' .users) : Shows json d' l := by
  rw [Shows, hsame.read]
  exact h

theorem Shows.of_leads {d : Disk UserFile (List UInt8)} {i : ℕ} {b : Bool}
    (h : d.Leads .users i ⟨json.encode records, b⟩) : Shows json d (some records) := by
  rw [Shows, h.read]
  exact congrArg some (json.round_trip records)

variable {s : UserStore}

theorem view_eq_of (hfile : Shows json s.disk (some records)) (hrecords : s.records = records)
    (hhandle : s.handle = some (authOf records)) : s.view json = .of records := by
  have hread : (s.disk.read .users).bind json.decode = some records := by
    cases hr : s.disk.read .users with
    | none =>
      rw [Shows, hr] at hfile
      cases hfile
    | some data =>
      rw [Shows, hr] at hfile
      exact Option.some.inj hfile
  rw [UserStore.view, hread, hrecords, hhandle]
  rfl

/-- A call returns. -/
theorem coherent_complete (hseparate : s.disk.Separate .tmp .users)
    (hgood : ∀ e ∈ s.completed, e.Good) (hview : s.view json = .of s.records) {found : View}
    (hfound : found = .of found.records)
    (hlawful : (Completed.mk call reply found (.of s.records)).Lawful) :
    (s.complete json call reply found).Coherent json := by
  refine ⟨hseparate, fun _ _ _ => hview, fun j hj => ?_, fun e he => ?_⟩
  · cases hj
  · rcases List.mem_append.mp he with he | he
    · exact hgood e he
    · rw [List.mem_singleton.mp he, hview]
      exact ⟨hfound, rfl, hlawful⟩

/-- A step of `persist` fails: nothing that is read has changed. -/
theorem coherent_fail {j : Job} (hseparate : s.disk.Separate .tmp .users)
    (hgood : ∀ e ∈ s.completed, e.Good) (hholder : ∀ h, j.holder = some h → h.Sound j.candidate)
    (hshows : Shows json s.disk j.before) (hrecords : s.records = j.before.getD [])
    (hhandle : s.handle = j.before.map authOf) : (s.fail json j).Coherent json := by
  rw [Job.before] at hshows hrecords hhandle
  rw [UserStore.fail]
  cases hh : j.holder with
  | none =>
    rw [hh] at hrecords hhandle
    refine ⟨hseparate, fun _ auth hauth => ?_, fun j hj => ?_, hgood⟩
    · exact absurd (hauth.symm.trans hhandle) (Option.some_ne_none auth)
    · cases hj
  | some h =>
    have hsound := hholder h hh
    rw [hh] at hshows hrecords hhandle
    have hview := view_eq_of hshows hrecords hhandle
    have hsame : s.records = h.found.records := hrecords
    refine coherent_complete hseparate hgood (hview.trans (by rw [hsame])) hsound.found ?_
    rw [hsame, ← hsound.found]
    cases h.call <;> rfl

/-- A job that has got the store to the next stage. -/
theorem coherent_busy {j : Job} (hjob : s.job = some j) (hseparate : s.disk.Separate .tmp .users)
    (hgood : ∀ e ∈ s.completed, e.Good) (hsound : j.Sound json s) : s.Coherent json := by
  refine ⟨hseparate, fun h => ?_, fun j' hj' => ?_, hgood⟩
  · rw [hjob] at h
    cases h
  · rw [hjob] at hj'
    cases hj'
    exact hsound

theorem tmp_ne_users : UserFile.tmp ≠ UserFile.users := by decide

/-- The last step of the holder: the three copies are the candidate, and the call is over. -/
theorem coherent_finish (h : s.Coherent json) {path : HostPath} {holder : Option Holder}
    {dirSynced : Bool} (hjob : s.job = some ⟨holder, candidate, .finish, dirSynced⟩) (ok : Bool)
    (written : ℕ) :
    (s.advance json path ⟨holder, candidate, .finish, dirSynced⟩ ok written).Coherent json := by
  have hs := h.busy _ hjob
  obtain rfl : s.records = candidate := hs.inMemory.1
  obtain ⟨i, hleads⟩ := hs.onDisk
  have hview : s.view json = .of s.records :=
    view_eq_of (Shows.of_leads hleads) rfl hs.inMemory.2
  cases holder with
  | none =>
    refine ⟨h.separate, fun _ _ _ => hview, fun j hj => ?_, h.good⟩
    cases hj
  | some holder =>
    have hsound := hs.holder holder rfl
    obtain ⟨minted, now, hplan⟩ := hsound.planned
    refine coherent_complete h.separate h.good hview hsound.found ?_
    rw [hsound.found]
    exact lawful_of_persist hplan

/-- **Every step of the holder keeps the store coherent**, whatever the system answers. -/
theorem coherent_advance (h : s.Coherent json) (path : HostPath) {j : Job} (hjob : s.job = some j)
    (ok : Bool) (written : ℕ) :
    (s.advance json path j ok written).Coherent json := by
  have hs := h.busy j hjob
  obtain ⟨holder, candidate, stage, dirSynced⟩ := j
  cases stage with
  | create =>
    cases ok with
    | true =>
      obtain ⟨hsep, hleads, hsame⟩ := Disk.create_rule h.separate tmp_ne_users []
      exact coherent_busy rfl hsep h.good
        ⟨hs.holder, ⟨Shows.of_alike hs.onDisk hsame, _, hleads⟩, hs.inMemory⟩
    | false =>
      exact coherent_fail h.separate h.good hs.holder hs.onDisk hs.inMemory.1 hs.inMemory.2
  | write fd =>
    obtain ⟨hshows, f, hleads⟩ := hs.onDisk
    cases ok with
    | true =>
      obtain ⟨hsep, hleads', hsame⟩ :=
        Disk.put_rule h.separate hleads ⟨json.encode candidate, false⟩
      exact coherent_busy rfl hsep h.good
        ⟨hs.holder, ⟨hshows.of_alike hsame, false, hleads'⟩, hs.inMemory⟩
    | false =>
      -- the sibling has some of the bytes, the users' file is untouched
      obtain ⟨hsep, -, hsame⟩ :=
        Disk.put_rule h.separate hleads ⟨(json.encode candidate).take written, false⟩
      exact coherent_fail hsep h.good hs.holder (hshows.of_alike hsame) hs.inMemory.1
        hs.inMemory.2
  | syncFile fd =>
    obtain ⟨hshows, b, hleads⟩ := hs.onDisk
    cases ok with
    | true =>
      obtain ⟨hsep, hleads', hsame⟩ :=
        Disk.put_rule h.separate hleads ⟨json.encode candidate, true⟩
      rw [← Disk.syncFile_of_leads hleads] at hsep hleads' hsame
      exact coherent_busy rfl hsep h.good
        ⟨hs.holder, ⟨hshows.of_alike hsame, fd, hleads'⟩, hs.inMemory⟩
    | false =>
      exact coherent_fail h.separate h.good hs.holder hshows hs.inMemory.1 hs.inMemory.2
  | rename =>
    obtain ⟨hshows, fd, hleads⟩ := hs.onDisk
    cases ok with
    | true =>
      obtain ⟨hsep, hleads', -⟩ := Disk.rename_rule h.separate tmp_ne_users hleads
      exact coherent_busy rfl hsep h.good ⟨hs.holder, ⟨fd, hleads'⟩, hs.inMemory⟩
    | false =>
      exact coherent_fail h.separate h.good hs.holder hshows hs.inMemory.1 hs.inMemory.2
  | openDir =>
    rw [UserStore.advance]
    dsimp only
    split
    · exact coherent_busy rfl h.separate h.good
        ⟨hs.holder, hs.onDisk, hs.inMemory⟩
    · exact coherent_busy rfl h.separate h.good
        ⟨hs.holder, hs.onDisk, hs.inMemory⟩
  | syncDir =>
    cases ok with
    | true =>
      obtain ⟨i, hleads⟩ := hs.onDisk
      obtain ⟨hsep, hleads', -⟩ := Disk.syncDir_rule h.separate hleads
      exact coherent_busy rfl hsep h.good ⟨hs.holder, ⟨i, hleads'⟩, hs.inMemory⟩
    | false =>
      exact coherent_busy rfl h.separate h.good
        ⟨hs.holder, hs.onDisk, hs.inMemory⟩
  | commit =>
    exact coherent_busy rfl h.separate h.good
      ⟨hs.holder, hs.onDisk, ⟨rfl, hs.inMemory.2⟩⟩
  | publish =>
    obtain rfl : s.records = candidate := hs.inMemory.1
    obtain ⟨i, hleads⟩ := hs.onDisk
    cases holder with
    | none =>
      -- the first boot ends here
      refine ⟨h.separate, fun _ _ _ => ?_, fun j hj => ?_, h.good⟩
      · exact view_eq_of (Shows.of_leads hleads) rfl rfl
      · cases hj
    | some holder =>
      exact coherent_busy rfl h.separate h.good
        ⟨hs.holder, ⟨i, hleads⟩, ⟨rfl, rfl⟩⟩
  | finish => exact coherent_finish h hjob ok written

/-- A waiting call gets the lock. -/
theorem coherent_lock (h : s.Coherent json) (hjob : s.job = none) {auth : UserAuth}
    (hhandle : s.handle = some auth) (call : StoreCall) (minted : UserId) (now : UInt64) :
    (s.lock json call minted now).Coherent json := by
  have hview := h.free hjob auth hhandle
  rw [UserStore.lock]
  cases hplan : plan s.records call minted now with
  | answer reply =>
    refine coherent_complete h.separate h.good hview ?_ ?_
    · rw [hview]
      rfl
    · rw [hview]
      exact lawful_of_answer hplan
  | persist candidate reply =>
    have hfile : Shows json s.disk (some s.records) := by
      have hread : (s.disk.read .users).bind json.decode = some s.records :=
        congrArg View.file hview
      obtain ⟨data, hdata, hdecode⟩ := Option.bind_eq_some_iff.mp hread
      rw [Shows, hdata]
      exact congrArg some hdecode
    refine coherent_busy rfl h.separate h.good ⟨?_, hfile, rfl, ?_⟩
    · rintro holder ⟨⟩
      exact ⟨hview, minted, now, hplan⟩
    · exact congrArg View.handle hview

/-- Who waits does not matter. -/
theorem coherent_waiting (h : s.Coherent json) (waiting : List StoreCall) :
    UserStore.Coherent json { s with waiting := waiting } :=
  ⟨h.separate, h.free, fun j hj => ⟨(h.busy j hj).holder, (h.busy j hj).onDisk,
    (h.busy j hj).inMemory⟩, h.good⟩

/-- **Every event keeps the store coherent.** -/
theorem coherent_step {path : HostPath} {t : UserStore} {e : StoreEvent} (h : s.Coherent json)
    (hstep : s.step json path e = some t) : t.Coherent json := by
  cases e with
  | arrive call =>
    rw [UserStore.step] at hstep
    split at hstep
    · cases hstep
      exact coherent_waiting h _
    · cases hstep
  | lock i minted now =>
    rw [UserStore.step] at hstep
    split at hstep
    · next hfree =>
      obtain ⟨call, -, rfl⟩ := Option.map_eq_some_iff.mp hstep
      obtain ⟨auth, hauth⟩ := Option.isSome_iff_exists.mp hfree.2
      exact coherent_lock (coherent_waiting h (s.waiting.eraseIdx i))
        (Option.isNone_iff_eq_none.mp hfree.1) hauth call minted now
    · cases hstep
  | advance ok written =>
    obtain ⟨j, hj, rfl⟩ := Option.map_eq_some_iff.mp hstep
    exact coherent_advance h path hj ok written

theorem diskOf_separate (file tmp : Option (List UInt8)) :
    (diskOf file tmp).Separate .tmp .users := by
  have htmp : ∀ i, (diskOf file tmp).dir .tmp = some i → i = 1 := by
    intro i hi
    obtain ⟨-, -, rfl⟩ := Option.map_eq_some_iff.mp hi
    rfl
  have husers : ∀ dir ∈ (diskOf file tmp).dirs, ∀ i, dir .users = some i → i = 0 := by
    intro dir hdir i hi
    rw [List.mem_singleton.mp hdir] at hi
    obtain ⟨-, -, rfl⟩ := Option.map_eq_some_iff.mp hi
    rfl
  refine ⟨fun i hi => ?_, fun dir hdir i hi => ?_, fun i hi dir hdir hi' => ?_⟩
  · rw [htmp i hi]
    exact Nat.one_lt_two
  · rw [husers dir hdir i hi]
    exact Nat.two_pos
  · exact absurd ((htmp i hi).symm.trans (husers dir hdir i hi')) Nat.one_ne_zero

/-- **The store starts coherent.** -/
theorem coherent_loadOrSeed {file tmp : Option (List UInt8)} {seed : List UserId}
    (hstart : UserStore.loadOrSeed json file tmp seed now = some s) :
    s.Coherent json := by
  cases file with
  | some data =>
    obtain ⟨records, hdecode, rfl⟩ := Option.map_eq_some_iff.mp hstart
    have hfile : Shows json (diskOf (some data) tmp) (some records) := congrArg some hdecode
    refine ⟨diskOf_separate _ _, fun _ _ _ => view_eq_of hfile rfl rfl, fun j hj => ?_,
      fun e he => ?_⟩
    · cases hj
    · cases he
  | none =>
    cases hstart
    refine coherent_busy rfl (diskOf_separate _ _) (fun e he => ?_) ⟨?_, rfl, rfl, rfl⟩
    · cases he
    · rintro holder ⟨⟩

/-- **Every state that is reached is coherent.** -/
theorem coherent_run (path : HostPath) {file tmp : Option (List UInt8)} {seed : List UserId}
    {s₀ : UserStore} (hstart : UserStore.loadOrSeed json file tmp seed now = some s₀)
    (events : List StoreEvent) (hrun : run (UserStore.step json path) s₀ events = some s) :
    s.Coherent json :=
  run_inv (fun _ _ _ hs hstep => coherent_step hs hstep) events (coherent_loadOrSeed hstart) hrun

/-- **The user store is consistent.**  For every initial file that parses or is absent, every
seed, every interleaving of callers and every choice of failing steps: whenever the lock is
free the three copies are the same; a call that has returned found them the same, left them
the same, and was lawful. -/
theorem userStore_consistent (path : HostPath) {file tmp : Option (List UInt8)}
    {seed : List UserId} {now : UInt64} {s₀ s : UserStore}
    (hstart : UserStore.loadOrSeed json file tmp seed now = some s₀) (events : List StoreEvent)
    (hrun : run (UserStore.step json path) s₀ events = some s) :
    (s.job = none → s.handle ≠ none → (s.view json).Agrees) ∧
      ∀ e ∈ s.completed, e.before.Agrees ∧ e.after.Agrees ∧ e.Lawful := by
  have h := coherent_run path hstart events hrun
  constructor
  · intro hjob hhandle
    obtain ⟨auth, hauth⟩ := Option.ne_none_iff_exists'.mp hhandle
    rw [h.free hjob auth hauth]
    exact View.of_agrees _
  · intro e he
    have hgood := h.good e he
    refine ⟨?_, ?_, hgood.lawful⟩
    · rw [hgood.before]
      exact View.of_agrees _
    · rw [hgood.after]
      exact View.of_agrees _

end Invariant

/-! ## A codec and a run -/

/-- A record as numbers. -/
def UserRecord.code (r : UserRecord) : List ℕ × List ℕ × ℕ :=
  (r.uuid.toList.map UInt8.toNat, r.name.toList.map Char.toNat, r.added.toNat)

def UserRecord.ofCode (c : List ℕ × List ℕ × ℕ) : Option UserRecord :=
  if h : (c.1.map UInt8.ofNat).length = 16 then
    some ⟨⟨c.1.map UInt8.ofNat, h⟩, String.ofList (c.2.1.map Char.ofNat), UInt64.ofNat c.2.2⟩
  else none

theorem UserRecord.ofCode_code (r : UserRecord) : UserRecord.ofCode r.code = some r := by
  have huuid : (r.uuid.toList.map UInt8.toNat).map UInt8.ofNat = r.uuid.toList := by
    rw [List.map_map]
    exact (List.map_congr_left fun b _ => UInt8.ofNat_toNat).trans (List.map_id _)
  have hname : (r.name.toList.map Char.toNat).map Char.ofNat = r.name.toList := by
    rw [List.map_map]
    exact (List.map_congr_left fun c _ => Char.ofNat_toNat c).trans (List.map_id _)
  have hlen : ((r.uuid.toList.map UInt8.toNat).map UInt8.ofNat).length = 16 := by
    rw [huuid]
    exact r.uuid.toList_length
  rw [UserRecord.ofCode, UserRecord.code, dif_pos hlen]
  refine congrArg some ?_
  obtain ⟨uuid, name, added⟩ := r
  congr 1
  · exact Subtype.ext huuid
  · rw [hname, String.ofList_toList]
  · exact UInt64.ofNat_toNat

theorem mapM_ofCode (records : List UserRecord) :
    (records.map UserRecord.code).mapM UserRecord.ofCode = some records := by
  induction records with
  | nil => rfl
  | cons r records ih =>
    rw [List.map_cons, List.mapM_cons, UserRecord.ofCode_code, ih]
    rfl

/-- The round trip of JSON can be had: here is a format that has it. -/
def sampleJson : Json where
  encode records := List.replicate (Encodable.encode (records.map UserRecord.code)) 0
  decode data :=
    (Encodable.decode data.length : Option (List (List ℕ × List ℕ × ℕ))).bind fun codes =>
      codes.mapM UserRecord.ofCode
  round_trip records := by
    rw [List.length_replicate, Encodable.encodek, Option.bind_some, mapM_ofCode]

/-- The system has no objection. -/
def goAhead (n : ℕ) : List StoreEvent := List.replicate n (.advance true 0)

/-- A first boot with one user, and one more added by a caller. -/
def bootAndAdd : List StoreEvent :=
  goAhead 8 ++ [.arrive (.add "phone" (some (List.Vector.replicate 16 2))),
    .lock 0 (List.Vector.replicate 16 3) 5] ++ goAhead 9

theorem userStore_consistent_add :
    ∃ s₀ s e, UserStore.loadOrSeed sampleJson none none [List.Vector.replicate 16 1] 4 = some s₀ ∧
      run (UserStore.step sampleJson ⟨true, ["etc", "users.json"]⟩) s₀ bootAndAdd = some s ∧
      (s.view sampleJson).Agrees ∧ s.completed = [e] ∧
      e.reply = .ok (.added ⟨List.Vector.replicate 16 2, "phone", 5⟩) ∧ e.Lawful := by
  have hstart : UserStore.loadOrSeed sampleJson none none [List.Vector.replicate 16 1] 4 =
      some _ := rfl
  have h := userStore_consistent ⟨true, ["etc", "users.json"]⟩ hstart bootAndAdd rfl
  exact ⟨_, _, _, hstart, rfl, h.1 rfl (Option.some_ne_none _), rfl, rfl,
    (h.2 _ List.mem_cons_self).2.2⟩

end Server
end HoldTheDonut
