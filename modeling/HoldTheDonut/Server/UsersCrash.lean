import HoldTheDonut.Server.Users

/-!
# The user store and power loss

"A crash can only ever lose a write that never became visible to a client": the list is on the
disk, file and directory, before the snapshot is replaced.  For the file this holds, since its
sync can fail the call.  For the directory it is not checked: a directory that cannot be opened
or synced is passed over in silence, and the snapshot is replaced all the same.

There is one configuration in which that always happens.  `Path::parent` of a bare file name
is the empty path, so a daemon started with one keeps its users in `users.json`, whose parent is
again the empty path, which cannot be opened.

The state between the rename and the sync of the directory is torn: a power loss leaves the
list before or the list after.  That is as it should be while the call is in progress, and no
longer once its snapshot is visible.  So the store is durable at every moment of a run exactly
if the directory was synced for each list that became visible (`durable_iff`).
-/

namespace HoldTheDonut
namespace Server

open Machine Storage

section Crash

variable (json : Json)

/-- **What a power loss may do.**  With no call in progress the list in force is found.  While
one is in progress, the list before it or the list after it is found, and the list after it if
its snapshot is visible already. -/
def UserStore.Durable (s : UserStore) : Prop :=
  ∀ r, s.disk.Survives .users r →
    match s.job with
    | none => r.map json.decode = (s.handle.map fun _ => s.records).map some
    | some j =>
      if j.stage = .finish then r.map json.decode = some (some j.candidate)
      else r.map json.decode = j.before.map some ∨ r.map json.decode = some (some j.candidate)

/-- A power loss leaves one list, or nothing at all. -/
def Firm (d : Disk UserFile (List UInt8)) (l : Option (List UserRecord)) : Prop :=
  ∀ r, d.Survives .users r → r.map json.decode = l.map some

/-- A power loss leaves one of two lists, and may leave the first. -/
def Torn (d : Disk UserFile (List UInt8)) (l l' : Option (List UserRecord)) : Prop :=
  (∀ r, d.Survives .users r → r.map json.decode = l.map some ∨ r.map json.decode = l'.map some) ∧
    ∃ r, d.Survives .users r ∧ r.map json.decode = l.map some

/-- How far a stage is: the file is untouched, the rename may still be lost, the answers about
the directory have come, or the list is visible. -/
inductive Progress where
  | untouched
  | renamed
  | settled
  | visible

def Stage.progress : Stage → Progress
  | .create | .write _ | .syncFile _ | .rename => .untouched
  | .openDir | .syncDir => .renamed
  | .commit | .publish => .settled
  | .finish => .visible

/-- What a power loss leaves, as far as the job is. -/
def Job.Kept (j : Job) (d : Disk UserFile (List UInt8)) : Prop :=
  match j.stage.progress with
  | .untouched => j.dirSynced = false ∧ Firm json d j.before
  | .renamed => j.dirSynced = false ∧ Torn json d j.before (some j.candidate)
  | .settled =>
    if j.dirSynced then Firm json d (some j.candidate)
    else Torn json d j.before (some j.candidate)
  | .visible => Firm json d (some j.candidate)

/-- What a power loss leaves is what it should. -/
structure UserStore.Tight (s : UserStore) : Prop where
  free : s.job = none → Firm json s.disk (s.handle.map fun _ => s.records)
  busy : ∀ j, s.job = some j → j.Kept json s.disk

variable {json}

theorem Firm.of_alike {d d' : Disk UserFile (List UInt8)} {l : Option (List UserRecord)}
    (h : Firm json d l) (hsame : Disk.Alike d d' .users) : Firm json d' l :=
  fun r hr => h r ((hsame.survives r).mp hr)

variable {now : UInt64}

/-- The candidate is never the list it replaces. -/
theorem candidate_ne_of_persist {records candidate : List UserRecord} {call : StoreCall}
    {minted : UserId} {reply : StoreReply}
    (h : plan records call minted now = .persist candidate reply) : records ≠ candidate := by
  intro heq
  cases call with
  | add name uuid =>
    obtain ⟨r, -, hcand, -⟩ := plan_add_eq_persist h
    have hlen := congrArg List.length (heq.trans hcand)
    rw [List.length_append] at hlen
    exact absurd hlen (Nat.ne_of_lt (Nat.lt_succ_self _))
  | remove uuid =>
    obtain ⟨-, hcand, r, hr, hid⟩ := plan_remove_eq_persist h
    rw [heq.trans hcand] at hr
    exact of_decide_eq_true (List.mem_filter.mp hr).2 hid

variable {j : Job}

theorem before_ne_candidate (hholder : ∀ h, j.holder = some h → h.Sound j.candidate) :
    j.before ≠ some j.candidate := by
  rw [Job.before]
  cases hh : j.holder with
  | none => exact (Option.some_ne_none _).symm
  | some h =>
    obtain ⟨minted, now, hplan⟩ := (hholder h hh).planned
    exact fun heq => candidate_ne_of_persist hplan (Option.some.inj heq)

variable {s : UserStore}

/-- A tight store is durable. -/
theorem UserStore.Tight.durable (h : s.Tight json) : s.Durable json := by
  intro r hr
  cases hjob : s.job with
  | none => exact h.free hjob r hr
  | some j =>
    have hkept := h.busy j hjob
    rw [Job.Kept] at hkept
    dsimp only
    split
    · next hfinish =>
      rw [hfinish] at hkept
      exact hkept r hr
    · next hfinish =>
      cases hp : j.stage.progress with
      | untouched =>
        rw [hp] at hkept
        exact Or.inl (hkept.2 r hr)
      | renamed =>
        rw [hp] at hkept
        exact hkept.2.1 r hr
      | settled =>
        rw [hp] at hkept
        dsimp only at hkept
        split at hkept
        · exact Or.inr (hkept r hr)
        · exact hkept.1 r hr
      | visible =>
        refine absurd ?_ hfinish
        cases hs : j.stage <;> rw [hs] at hp <;> first | rfl | cases hp

/-! ## What a step does -/

theorem tight_busy (hjob : s.job = some j) (hkept : j.Kept json s.disk) : s.Tight json := by
  refine ⟨fun h => ?_, fun j' hj' => ?_⟩
  · rw [hjob] at h
    cases h
  · rw [hjob] at hj'
    cases hj'
    exact hkept

theorem tight_complete (h : Firm json s.disk (s.handle.map fun _ => s.records)) (call : StoreCall)
    (reply : Except UserStoreError StoreReply) (found : View) :
    (s.complete json call reply found).Tight json :=
  ⟨fun _ => h, fun _ hj => absurd hj.symm (Option.some_ne_none _)⟩

/-- A step of `persist` fails: a power loss leaves what it left before the call. -/
theorem tight_fail (hfirm : Firm json s.disk j.before) (hrecords : s.records = j.before.getD [])
    (hhandle : s.handle = j.before.map authOf) : (s.fail json j).Tight json := by
  rw [Job.before] at hfirm hrecords hhandle
  rw [UserStore.fail]
  cases hh : j.holder with
  | none =>
    rw [hh] at hfirm hhandle
    refine ⟨fun _ => ?_, fun _ hj => absurd hj.symm (Option.some_ne_none _)⟩
    show Firm json s.disk (s.handle.map fun _ => s.records)
    rw [hhandle]
    exact hfirm
  | some h =>
    rw [hh] at hfirm hrecords hhandle
    refine tight_complete ?_ _ _ _
    rw [hhandle, hrecords]
    exact hfirm

theorem fail_published (s : UserStore) (j : Job) : (s.fail json j).published = s.published := by
  rw [UserStore.fail]
  cases j.holder <;> rfl

variable (json) in
/-- What an event may do to a tight store: it stays tight, with nothing new visible or with a
list whose directory has been synced; or a list becomes visible that a power loss may take
back. -/
inductive Follows (s t : UserStore) : Prop where
  | quiet (h : t.Tight json) (hpublished : t.published = s.published)
  | synced (h : t.Tight json) (hpublished : t.published = s.published ++ [true])
  | lapse (h : ¬ t.Durable json) (hpublished : t.published = s.published ++ [false])

/-- The list becomes visible. -/
theorem follows_publish (hc : s.Coherent json) (h : s.Tight json) (path : HostPath)
    (hjob : s.job = some j) (hstage : j.stage = .publish) (ok : Bool) (written : ℕ) :
    Follows json s (s.advance json path j ok written) := by
  have hs := hc.busy j hjob
  have hkept := h.busy j hjob
  obtain ⟨holder, candidate, stage, dirSynced⟩ := j
  cases hstage
  obtain rfl : s.records = candidate := hs.inMemory.1
  cases dirSynced with
  | true =>
    refine .synced ?_ rfl
    cases holder with
    | none => exact ⟨fun _ => hkept, fun _ hj => absurd hj.symm (Option.some_ne_none _)⟩
    | some holder => exact tight_busy rfl hkept
  | false =>
    refine .lapse (fun hdurable => ?_) rfl
    -- the list before the call may still come back, and it is not the visible one
    obtain ⟨-, r, hr, hbefore⟩ := hkept
    have hne := before_ne_candidate hs.holder
    have hafter : r.map json.decode = some (some s.records) := by
      cases holder with
      | none => exact hdurable r hr
      | some holder => exact hdurable r hr
    have heq := hbefore.symm.trans hafter
    obtain ⟨l, hl, hl'⟩ := Option.map_eq_some_iff.mp heq
    exact hne (hl.trans hl')

/-- **What a step of the holder may do.** -/
theorem follows_advance (hc : s.Coherent json) (h : s.Tight json) (path : HostPath)
    (hjob : s.job = some j) (ok : Bool) (written : ℕ) :
    Follows json s (s.advance json path j ok written) := by
  by_cases hpublish : j.stage = .publish
  · exact follows_publish hc h path hjob hpublish ok written
  have hs := hc.busy j hjob
  have hkept := h.busy j hjob
  obtain ⟨holder, candidate, stage, dirSynced⟩ := j
  cases stage with
  | create =>
    cases ok with
    | true =>
      obtain ⟨-, -, hsame⟩ := Disk.create_rule hc.separate tmp_ne_users []
      exact .quiet (tight_busy rfl ⟨hkept.1, hkept.2.of_alike hsame⟩) rfl
    | false =>
      exact .quiet (tight_fail hkept.2 hs.inMemory.1 hs.inMemory.2) (fail_published s _)
  | write fd =>
    obtain ⟨-, f, hleads⟩ := hs.onDisk
    cases ok with
    | true =>
      obtain ⟨-, -, hsame⟩ := Disk.put_rule hc.separate hleads ⟨json.encode candidate, false⟩
      exact .quiet (tight_busy rfl ⟨hkept.1, hkept.2.of_alike hsame⟩) rfl
    | false =>
      obtain ⟨-, -, hsame⟩ :=
        Disk.put_rule hc.separate hleads ⟨(json.encode candidate).take written, false⟩
      exact .quiet (tight_fail (hkept.2.of_alike hsame) hs.inMemory.1 hs.inMemory.2)
        (fail_published _ _)
  | syncFile fd =>
    obtain ⟨-, b, hleads⟩ := hs.onDisk
    cases ok with
    | true =>
      obtain ⟨-, -, hsame⟩ := Disk.put_rule hc.separate hleads ⟨json.encode candidate, true⟩
      rw [← Disk.syncFile_of_leads hleads] at hsame
      exact .quiet (tight_busy rfl ⟨hkept.1, hkept.2.of_alike hsame⟩) rfl
    | false =>
      exact .quiet (tight_fail hkept.2 hs.inMemory.1 hs.inMemory.2) (fail_published s _)
  | rename =>
    obtain ⟨hshows, fd, hleads⟩ := hs.onDisk
    cases ok with
    | true =>
      obtain ⟨-, -, hsurvives⟩ := Disk.rename_rule hc.separate tmp_ne_users hleads
      refine .quiet (tight_busy rfl ⟨hkept.1, fun r hr => ?_, ?_⟩) rfl
      · rcases (hsurvives r).mp hr with hr | rfl
        · exact Or.inl (hkept.2 r hr)
        · exact Or.inr (congrArg some (json.round_trip candidate))
      · exact ⟨_, (hsurvives _).mpr (Or.inl hc.separate.survives_read), hshows⟩
    | false =>
      exact .quiet (tight_fail hkept.2 hs.inMemory.1 hs.inMemory.2) (fail_published s _)
  | openDir =>
    obtain ⟨rfl, htorn⟩ : dirSynced = false ∧ Torn json s.disk _ (some candidate) := hkept
    rw [UserStore.advance]
    dsimp only
    split
    · exact .quiet (tight_busy rfl ⟨rfl, htorn⟩) rfl
    · exact .quiet (tight_busy rfl htorn) rfl
  | syncDir =>
    obtain ⟨rfl, htorn⟩ : dirSynced = false ∧ Torn json s.disk _ (some candidate) := hkept
    cases ok with
    | true =>
      obtain ⟨i, hleads⟩ := hs.onDisk
      obtain ⟨-, -, hsurvives⟩ := Disk.syncDir_rule hc.separate hleads
      refine .quiet (tight_busy rfl fun r hr => ?_) rfl
      rw [(hsurvives r).mp hr]
      exact congrArg some (json.round_trip candidate)
    | false => exact .quiet (tight_busy rfl htorn) rfl
  | commit => exact .quiet (tight_busy rfl hkept) rfl
  | publish => exact absurd rfl hpublish
  | finish =>
    have hfirm : Firm json s.disk (s.handle.map fun _ => s.records) := by
      rw [hs.inMemory.1, hs.inMemory.2]
      exact hkept
    cases holder with
    | none => exact .quiet ⟨fun _ => hfirm, fun _ hj => absurd hj.symm (Option.some_ne_none _)⟩ rfl
    | some holder => exact .quiet (tight_complete hfirm _ _ _) rfl

variable {path : HostPath} {t : UserStore}

/-- **What an event may do.** -/
theorem follows_step {e : StoreEvent} (hc : s.Coherent json) (h : s.Tight json)
    (hstep : s.step json path e = some t) : Follows json s t := by
  cases e with
  | arrive call =>
    rw [UserStore.step] at hstep
    split at hstep
    · cases hstep
      exact .quiet ⟨h.free, h.busy⟩ rfl
    · cases hstep
  | lock i minted now =>
    rw [UserStore.step] at hstep
    split at hstep
    · next hfree =>
      obtain ⟨call, -, rfl⟩ := Option.map_eq_some_iff.mp hstep
      have hfirm := h.free (Option.isNone_iff_eq_none.mp hfree.1)
      rw [UserStore.lock]
      cases plan s.records call minted now with
      | answer reply =>
        exact .quiet ⟨fun _ => hfirm, fun _ hj => absurd hj.symm (Option.some_ne_none _)⟩ rfl
      | persist candidate reply =>
        obtain ⟨auth, hauth⟩ := Option.isSome_iff_exists.mp hfree.2
        rw [hauth] at hfirm
        exact .quiet (tight_busy rfl ⟨rfl, hfirm⟩) rfl
    · cases hstep
  | advance ok written =>
    obtain ⟨j, hj, rfl⟩ := Option.map_eq_some_iff.mp hstep
    exact follows_advance hc h path hj ok written

/-- The store starts tight: what is found at the start is safe. -/
theorem tight_loadOrSeed {file tmp : Option (List UInt8)} {seed : List UserId}
    (hstart : UserStore.loadOrSeed json file tmp seed now = some s) : s.Tight json := by
  have hfirm : ∀ l, file.map json.decode = l.map some → Firm json (diskOf file tmp) l := by
    rintro l hl r ⟨dir, hdir, hr⟩
    rw [List.mem_singleton.mp hdir] at hr
    rcases hr with ⟨hnone, rfl⟩ | ⟨i, f, x, hi, hf, rfl, hx⟩
    · rw [Option.map_eq_none_iff.mp hnone] at hl
      exact hl
    · obtain ⟨data, rfl, rfl⟩ := Option.map_eq_some_iff.mp hi
      cases hf
      rw [hx rfl]
      exact hl
  cases file with
  | some data =>
    obtain ⟨records, hdecode, rfl⟩ := Option.map_eq_some_iff.mp hstart
    exact ⟨fun _ => hfirm (some records) (congrArg some hdecode),
      fun _ hj => absurd hj.symm (Option.some_ne_none _)⟩
  | none =>
    cases hstart
    exact tight_busy rfl ⟨rfl, hfirm none rfl⟩

/-! ## What is on record about the directory -/

/-- What an event does to the record: what becomes visible is recorded with the answers of its
own job, a directory counts as synced only by the step that syncs it, and that step comes only
after the directory has been opened. -/
structure Traced (path : HostPath) (s t : UserStore) : Prop where
  published : t.published = s.published ∨
    ∃ j, s.job = some j ∧ t.published = s.published ++ [j.dirSynced]
  dirSynced : ∀ j', t.job = some j' → j'.dirSynced = true →
    ∃ j, s.job = some j ∧ (j.dirSynced = true ∨ j.stage = .syncDir)
  opened : ∀ j', t.job = some j' → j'.stage = .syncDir →
    s.job = some j' ∨ ∃ ok, opensDir path ok = true

theorem traced_of_idle (hjob : t.job = none) (hpublished : t.published = s.published) :
    Traced path s t := by
  refine ⟨Or.inl hpublished, fun j' hj' => ?_, fun j' hj' => ?_⟩
  · exact absurd (hj'.symm.trans hjob) (Option.some_ne_none _)
  · exact absurd (hj'.symm.trans hjob) (Option.some_ne_none _)

theorem traced_of_next {j' : Job} (hjob : s.job = some j) (hjob' : t.job = some j')
    (hsame : j'.dirSynced = j.dirSynced) (hstage : j'.stage ≠ .syncDir)
    (hpublished : t.published = s.published ∨ t.published = s.published ++ [j.dirSynced]) :
    Traced path s t := by
  refine ⟨hpublished.imp_right fun h => ⟨j, hjob, h⟩, fun j'' hj'' hsynced => ?_,
    fun j'' hj'' hsync => ?_⟩
  · rw [hjob'] at hj''
    cases hj''
    exact ⟨j, hjob, Or.inl (hsame.symm.trans hsynced)⟩
  · rw [hjob'] at hj''
    cases hj''
    exact absurd hsync hstage

theorem traced_fail (s : UserStore) (j : Job) (hpublished : t.published = s.published) :
    Traced path s (t.fail json j) := by
  refine traced_of_idle ?_ ((fail_published t j).trans hpublished)
  rw [UserStore.fail]
  cases j.holder <;> rfl

theorem traced_advance (path : HostPath) (hjob : s.job = some j) (ok : Bool) (written : ℕ) :
    Traced path s (s.advance json path j ok written) := by
  obtain ⟨holder, candidate, stage, dirSynced⟩ := j
  cases stage with
  | create =>
    cases ok with
    | true => exact traced_of_next hjob rfl rfl Stage.noConfusion (Or.inl rfl)
    | false => exact traced_fail s _ rfl
  | write fd =>
    cases ok with
    | true => exact traced_of_next hjob rfl rfl Stage.noConfusion (Or.inl rfl)
    | false => exact traced_fail s _ rfl
  | syncFile fd =>
    cases ok with
    | true => exact traced_of_next hjob rfl rfl Stage.noConfusion (Or.inl rfl)
    | false => exact traced_fail s _ rfl
  | rename =>
    cases ok with
    | true => exact traced_of_next hjob rfl rfl Stage.noConfusion (Or.inl rfl)
    | false => exact traced_fail s _ rfl
  | openDir =>
    rw [UserStore.advance]
    dsimp only
    split
    · next hopens =>
      refine ⟨Or.inl rfl, ?_, fun _ _ _ => Or.inr ⟨ok, hopens⟩⟩
      rintro j' ⟨⟩ hsynced
      exact ⟨_, hjob, Or.inl hsynced⟩
    · exact traced_of_next hjob rfl rfl Stage.noConfusion (Or.inl rfl)
  | syncDir =>
    cases ok with
    | true =>
      refine ⟨Or.inl rfl, fun _ _ _ => ⟨_, hjob, Or.inr rfl⟩, ?_⟩
      rintro j' ⟨⟩ hstage
      exact Stage.noConfusion hstage
    | false => exact traced_of_next hjob rfl rfl Stage.noConfusion (Or.inl rfl)
  | commit => exact traced_of_next hjob rfl rfl Stage.noConfusion (Or.inl rfl)
  | publish =>
    cases holder with
    | none =>
      refine ⟨Or.inr ⟨_, hjob, rfl⟩, fun _ hj' => ?_, fun _ hj' => ?_⟩
      · exact absurd hj'.symm (Option.some_ne_none _)
      · exact absurd hj'.symm (Option.some_ne_none _)
    | some holder => exact traced_of_next hjob rfl rfl Stage.noConfusion (Or.inr rfl)
  | finish => cases holder <;> exact traced_of_idle rfl rfl

theorem traced_step {e : StoreEvent} (hstep : s.step json path e = some t) : Traced path s t := by
  cases e with
  | arrive call =>
    rw [UserStore.step] at hstep
    split at hstep
    · cases hstep
      exact ⟨Or.inl rfl, fun j hj h => ⟨j, hj, Or.inl h⟩, fun j hj _ => Or.inl hj⟩
    · cases hstep
  | lock i minted now =>
    rw [UserStore.step] at hstep
    split at hstep
    · obtain ⟨call, -, rfl⟩ := Option.map_eq_some_iff.mp hstep
      rw [UserStore.lock]
      cases plan s.records call minted now with
      | answer reply => exact traced_of_idle rfl rfl
      | persist candidate reply =>
        refine ⟨Or.inl rfl, ?_, ?_⟩
        · rintro j' ⟨⟩ hsynced
          exact Bool.noConfusion hsynced
        · rintro j' ⟨⟩ hstage
          exact Stage.noConfusion hstage
    · cases hstep
  | advance ok written =>
    obtain ⟨j, hj, rfl⟩ := Option.map_eq_some_iff.mp hstep
    exact traced_advance path hj ok written

/-- What has become visible stays on record. -/
theorem Traced.published_le (h : Traced path s t) :
    s.published <+: t.published := by
  rcases h.published with heq | ⟨j, -, heq⟩
  · exact heq ▸ List.prefix_refl _
  · exact heq ▸ List.prefix_append _ _

theorem published_le_run (events : List StoreEvent)
    (hrun : run (UserStore.step json path) s events = some t) : s.published <+: t.published := by
  have hstep : ∀ (u : UserStore) e v, s.published <+: u.published →
      u.step json path e = some v → s.published <+: v.published :=
    fun _ _ _ h hstep => h.trans (traced_step hstep).published_le
  exact run_inv hstep events (List.prefix_refl _) hrun

/-- A directory that cannot be opened is not synced, and nothing on record says it was. -/
structure Unsynced (s : UserStore) : Prop where
  job : ∀ j, s.job = some j → j.dirSynced = false ∧ j.stage ≠ .syncDir
  published : ∀ synced ∈ s.published, synced = false

theorem Unsynced.step (hbare : path.parent = some .empty) (h : Unsynced s)
    (htraced : Traced path s t) : Unsynced t := by
  refine ⟨fun j hj => ⟨?_, fun hstage => ?_⟩, fun synced hmem => ?_⟩
  · refine Bool.eq_false_of_not_eq_true fun hsynced => ?_
    obtain ⟨j₀, hj₀, hcases⟩ := htraced.dirSynced j hj hsynced
    rcases hcases with hsynced | hstage
    · rw [(h.job j₀ hj₀).1] at hsynced
      cases hsynced
    · exact (h.job j₀ hj₀).2 hstage
  · rcases htraced.opened j hj hstage with hj₀ | ⟨ok, hopens⟩
    · exact (h.job j hj₀).2 hstage
    · rw [opensDir, hbare] at hopens
      dsimp only at hopens
      rw [bne_self_eq_false, Bool.and_false] at hopens
      cases hopens
  · rcases htraced.published with heq | ⟨j₀, hj₀, heq⟩
    · rw [heq] at hmem
      exact h.published synced hmem
    · rw [heq] at hmem
      rcases List.mem_append.mp hmem with hmem | hmem
      · exact h.published synced hmem
      · rw [List.mem_singleton.mp hmem]
        exact (h.job j₀ hj₀).1

/-- The users' file lies in the parent of the configuration. -/
theorem usersPath_parent (config : String) :
    (usersPath config).parent =
      some ((HostPath.parse config).parent.getD (HostPath.parse ".")) := by
  rw [usersPath, HostPath.parent, HostPath.join, if_neg (by simp)]
  simp only [List.dropLast_concat]

/-! ## Every moment of a run -/

/-- **A run so far.**  Every list that became visible had its directory synced and the store is
tight, or one had not and there was a moment at which a power loss would have taken it back. -/
theorem tight_or_lapsed (path : HostPath) {file tmp : Option (List UInt8)} {seed : List UserId}
    {s₀ : UserStore} (hstart : UserStore.loadOrSeed json file tmp seed now = some s₀)
    (events : List StoreEvent) (hrun : run (UserStore.step json path) s₀ events = some s) :
    ((∀ synced ∈ s.published, synced = true) ∧ s.Tight json) ∨
      (false ∈ s.published ∧ ∃ pre t, pre <+: events ∧
        run (UserStore.step json path) s₀ pre = some t ∧ ¬ t.Durable json) := by
  refine (run_history (fun es u => run (UserStore.step json path) s₀ es = some u ∧
    (((∀ synced ∈ u.published, synced = true) ∧ u.Tight json) ∨
      (false ∈ u.published ∧ ∃ pre t, pre <+: es ∧
        run (UserStore.step json path) s₀ pre = some t ∧ ¬ t.Durable json)))
    ⟨rfl, Or.inl ⟨?_, tight_loadOrSeed hstart⟩⟩ ?_ events hrun).2
  · cases file with
    | some data =>
      obtain ⟨records, -, rfl⟩ := Option.map_eq_some_iff.mp hstart
      exact fun _ hmem => absurd hmem List.not_mem_nil
    | none =>
      cases hstart
      exact fun _ hmem => absurd hmem List.not_mem_nil
  · rintro es u e v ⟨hrun, hcases⟩ hstep
    have hrun' := run_concat_eq_some.mpr ⟨u, hrun, hstep⟩
    refine ⟨hrun', ?_⟩
    rcases hcases with ⟨hall, htight⟩ | ⟨hfalse, pre, t, hpre, ht, hlapse⟩
    · cases follows_step (coherent_run path hstart es hrun) htight hstep with
      | quiet htight' heq =>
        rw [heq]
        exact Or.inl ⟨hall, htight'⟩
      | synced htight' heq =>
        rw [heq]
        refine Or.inl ⟨fun synced hmem => ?_, htight'⟩
        rcases List.mem_append.mp hmem with hmem | hmem
        · exact hall synced hmem
        · exact List.mem_singleton.mp hmem
      | lapse hlapse heq =>
        rw [heq]
        exact Or.inr ⟨List.mem_append_right _ (List.mem_singleton_self _), es ++ [e], v,
          List.prefix_refl _, hrun', hlapse⟩
    · exact Or.inr ⟨(traced_step hstep).published_le.subset hfalse, pre, t,
        hpre.trans (List.prefix_append _ _), ht, hlapse⟩

/-- **When the user store survives power loss.**  For every configuration path and every
history: a power loss at any moment leaves the list before or the list after the call in
progress, with all that is visible, exactly if the directory was opened and synced for each
list that became visible.  With a bare file name it never is. -/
theorem durable_iff (config : String) {file tmp : Option (List UInt8)} {seed : List UserId}
    {now : UInt64} {s₀ s : UserStore}
    (hstart : UserStore.loadOrSeed json file tmp seed now = some s₀) (events : List StoreEvent)
    (hrun : run (UserStore.step json (usersPath config)) s₀ events = some s) :
    ((∀ pre t, pre <+: events → run (UserStore.step json (usersPath config)) s₀ pre = some t →
        t.Durable json) ↔ ∀ synced ∈ s.published, synced = true) ∧
      ((HostPath.parse config).parent = some .empty →
        ∀ synced ∈ s.published, synced = false) := by
  refine ⟨⟨fun hdurable => ?_, fun hall pre t hpre ht => ?_⟩, fun hbare => ?_⟩
  · rcases tight_or_lapsed _ hstart events hrun with ⟨hall, -⟩ | ⟨-, pre, t, hpre, ht, hlapse⟩
    · exact hall
    · exact absurd (hdurable pre t hpre ht) hlapse
  · -- what is on record at the moment of the power loss is on record at the end
    have hrecord : t.published <+: s.published := by
      obtain ⟨rest, rfl⟩ := hpre
      rw [run_append, ht, Option.bind_some] at hrun
      exact published_le_run rest hrun
    rcases tight_or_lapsed _ hstart pre ht with ⟨-, htight⟩ | ⟨hfalse, -⟩
    · exact htight.durable
    · exact absurd (hall false (hrecord.subset hfalse)) Bool.false_ne_true
  · have hparent : (usersPath config).parent = some .empty := by
      rw [usersPath_parent, hbare]
      rfl
    have hunsynced : Unsynced s₀ := by
      cases file with
      | some data =>
        obtain ⟨records, -, rfl⟩ := Option.map_eq_some_iff.mp hstart
        exact ⟨fun _ hj => absurd hj.symm (Option.some_ne_none _),
          fun _ hmem => absurd hmem List.not_mem_nil⟩
      | none =>
        cases hstart
        refine ⟨?_, fun _ hmem => absurd hmem List.not_mem_nil⟩
        rintro j ⟨⟩
        exact ⟨rfl, Stage.noConfusion⟩
    exact (run_inv (fun _ _ _ h hstep => Unsynced.step hparent h (traced_step hstep)) events
      hunsynced hrun).published

end Crash

/-! ## Two configurations -/

/-- A store whose file holds no user. -/
def emptyStore : UserStore :=
  ⟨diskOf (some (sampleJson.encode [])) none, [], some (authOf []), none, [], [], []⟩

theorem loadOrSeed_emptyStore :
    UserStore.loadOrSeed sampleJson (some (sampleJson.encode [])) none [] 0 = some emptyStore := by
  rw [UserStore.loadOrSeed, sampleJson.round_trip]
  rfl

/-- A caller adds a user and gets the lock. -/
def addPhone : List StoreEvent :=
  [.arrive (.add "phone" (some (List.Vector.replicate 16 2))),
    .lock 0 (List.Vector.replicate 16 3) 5]

/-- With an absolute path, and a system that has no objection. -/
theorem durable_absolute :
    ∃ s, run (UserStore.step sampleJson (usersPath "/etc/donut/server.toml")) emptyStore
        (addPhone ++ goAhead 9) = some s ∧ s.published = [true] ∧
      ∀ pre t, pre <+: addPhone ++ goAhead 9 →
        run (UserStore.step sampleJson (usersPath "/etc/donut/server.toml")) emptyStore pre =
          some t → t.Durable sampleJson := by
  have h := durable_iff "/etc/donut/server.toml" loadOrSeed_emptyStore (addPhone ++ goAhead 9) rfl
  refine ⟨_, rfl, rfl, h.1.mpr fun synced hmem => ?_⟩
  exact List.mem_singleton.mp hmem

/-- **A bare file name.**  The user has been added and is accepted, and no step has failed;
after a power loss the file is the old one. -/
theorem bare_name_loses_visible_user :
    ∃ s auth, run (UserStore.step sampleJson (usersPath "server.toml")) emptyStore
        (addPhone ++ goAhead 8) = some s ∧ s.job = none ∧
      s.handle = some auth ∧ auth.isAuthorized (List.Vector.replicate 16 2) = true ∧
      ∃ r, s.disk.Survives .users r ∧ r.map sampleJson.decode = some (some []) := by
  refine ⟨_, _, rfl, rfl, rfl, ?_, some (sampleJson.encode []), ?_, ?_⟩
  · rw [UserAuth.isAuthorized_iff]
    exact List.mem_singleton_self _
  · -- the directory before the sibling was made may come back
    refine ⟨emptyStore.disk.dir, ?_, Or.inr ⟨0, _, _, rfl, rfl, rfl, fun _ => rfl⟩⟩
    exact List.mem_cons_of_mem _ (List.mem_cons_of_mem _ List.mem_cons_self)
  · exact congrArg some (sampleJson.round_trip [])

end Server
end HoldTheDonut
