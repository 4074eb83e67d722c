import HoldTheDonut.Server.Users

/-!
# A removed user stays out

`Server.Users` says what one call does when it returns.  An operator who removes a user wants
more: from then on nobody gets in under that id, while other callers come and go, calls fail half
way, and also after a restart, which takes the list from the file and ignores the seed.

The id is in none of the lists there are: the records, what a holder found, what it is about to
persist.  The snapshot and the file show one of these lists at every moment (`Coherent`), so they
do not have it either.  Only a caller who asks for the id, or an id made up that happens to be
it, brings it back (`StoreEvent.Brings`).  A power loss is another matter: `Server.UsersCrash`.
-/

namespace HoldTheDonut
namespace Server

open Machine

/-- No record has the id. -/
def Lacks (u : UserId) (records : List UserRecord) : Prop := ∀ r ∈ records, r.uuid ≠ u

/-- A caller asks for the id, or it is made up for one who asks for none. -/
def StoreEvent.Brings (u : UserId) : StoreEvent → Prop
  | .arrive (.add _ uuid) => uuid = some u
  | .lock _ minted _ => minted = u
  | _ => False

/-- None of the lists has the id, and nobody waits to add it. -/
structure UserStore.Without (u : UserId) (s : UserStore) : Prop where
  made : s.handle ≠ none
  records : Lacks u s.records
  job : ∀ j, s.job = some j → Lacks u j.candidate ∧ ∀ l, j.before = some l → Lacks u l
  waiting : ∀ name, StoreCall.add name (some u) ∉ s.waiting

theorem Lacks.plan {u minted : UserId} {records candidate : List UserRecord} {call : StoreCall}
    {now : UInt64} {reply : StoreReply} (h : Lacks u records)
    (hcall : ∀ name, call ≠ .add name (some u)) (hminted : minted ≠ u)
    (hplan : plan records call minted now = .persist candidate reply) : Lacks u candidate := by
  cases call with
  | add name uuid =>
    rw [Server.plan] at hplan
    split at hplan
    · cases hplan
    · cases hplan
      intro r hr
      rcases List.mem_append.mp hr with hr | hr
      · exact h r hr
      · rw [List.mem_singleton.mp hr]
        cases uuid with
        | none => exact hminted
        | some id =>
          rintro rfl
          exact hcall name rfl
  | remove id =>
    obtain ⟨-, rfl, -⟩ := plan_remove_eq_persist hplan
    exact fun r hr => h r (List.mem_of_mem_filter hr)

section Run

variable {json : Json} {path : HostPath} {u : UserId} {s t : UserStore}

/-- **What a step of the holder can do to the lists.** -/
theorem advance_lists (s : UserStore) (j : Job) (ok : Bool) (written : ℕ) :
    ((s.advance json path j ok written).records = s.records ∨
      (s.advance json path j ok written).records = j.candidate) ∧
    (s.advance json path j ok written).waiting = s.waiting ∧
    (s.handle ≠ none → (s.advance json path j ok written).handle ≠ none) ∧
    ∀ j', (s.advance json path j ok written).job = some j' →
      j'.candidate = j.candidate ∧ j'.before = j.before := by
  obtain ⟨holder, candidate, stage, synced⟩ := j
  unfold UserStore.advance UserStore.fail
  cases stage <;> cases holder <;> dsimp only <;> (try split) <;>
    simp +contextual [UserStore.complete, Job.before]

/-- **Every event that does not bring the id keeps it out of the lists.** -/
theorem UserStore.Without.step (h : s.Without u) {e : StoreEvent} (he : ¬ e.Brings u)
    (hstep : UserStore.step json path s e = some t) : t.Without u := by
  cases e with
  | arrive call =>
    rw [UserStore.step] at hstep
    split at hstep
    · cases hstep
      refine ⟨h.made, h.records, h.job, fun name hmem => ?_⟩
      rcases List.mem_append.mp hmem with hmem | hmem
      · exact h.waiting name hmem
      · rw [← List.mem_singleton.mp hmem] at he
        exact he rfl
    · cases hstep
  | lock i minted now =>
    rw [UserStore.step] at hstep
    split at hstep
    · obtain ⟨call, hcall, rfl⟩ := Option.map_eq_some_iff.mp hstep
      have hwaiting : ∀ name, StoreCall.add name (some u) ∉ s.waiting.eraseIdx i :=
        fun name hmem => h.waiting name (List.mem_of_mem_eraseIdx hmem)
      unfold UserStore.lock
      split
      · exact ⟨h.made, h.records, fun j hj => (by cases hj), hwaiting⟩
      · next candidate reply hplan =>
        refine ⟨h.made, h.records, fun j hj => ?_, hwaiting⟩
        cases hj
        refine ⟨h.records.plan (fun name heq => ?_) he hplan, fun l hl => ?_⟩
        · exact h.waiting name (heq ▸ List.mem_of_getElem? hcall)
        · cases hl
          exact h.records
    · cases hstep
  | advance ok written =>
    obtain ⟨j, hj, rfl⟩ := Option.map_eq_some_iff.mp hstep
    obtain ⟨hcandidate, hbefore⟩ := h.job j hj
    obtain ⟨hrecords, hwaiting, hmade, hjob⟩ := advance_lists s j ok written
    refine ⟨hmade h.made, ?_, fun j' hj' => ?_, by rw [hwaiting]; exact h.waiting⟩
    · rcases hrecords with heq | heq <;> rw [heq]
      · exact h.records
      · exact hcandidate
    · obtain ⟨hsame, hfound⟩ := hjob j' hj'
      rw [hsame, hfound]
      exact ⟨hcandidate, hbefore⟩

theorem UserStore.Without.run {events : List StoreEvent} (h : s.Without u)
    (hnone : ∀ e ∈ events, ¬ e.Brings u)
    (hrun : Machine.run (UserStore.step json path) s events = some t) : t.Without u := by
  induction events generalizing s with
  | nil => exact Option.some.inj hrun ▸ h
  | cons e events ih =>
    obtain ⟨s', hstep, hrest⟩ := run_cons_eq_some.mp hrun
    exact ih (h.step (hnone e List.mem_cons_self) hstep)
      (fun e he => hnone e (List.mem_cons_of_mem _ he)) hrest

/-- Nobody gets in under the id, now or after a restart, whatever the configuration seeds. -/
def UserStore.Bars (json : Json) (u : UserId) (s : UserStore) : Prop :=
  ¬ (s.view json).Authorises u ∧ ∀ tmp seed now, ∃ s',
    UserStore.loadOrSeed json (s.disk.read .users) tmp seed now = some s' ∧
      ¬ (s'.view json).Authorises u

theorem Lacks.not_authorises {l : List UserRecord} {v : View} (h : Lacks u l)
    (hv : v.handle = some (authOf l)) : ¬ v.Authorises u := by
  rintro ⟨auth, hauth, hok⟩
  obtain rfl := Option.some.inj (hv.symm.trans hauth)
  obtain ⟨r, hr, hid⟩ := (View.of_authorises l u).mp ⟨_, rfl, hok⟩
  exact h r hr hid

/-- The snapshot shows one list and the file another, and neither has the id. -/
theorem Lacks.bars {l l' : List UserRecord} (h : Lacks u l) (h' : Lacks u l')
    (hhandle : s.handle = some (authOf l)) (hfile : Shows json s.disk (some l')) :
    s.Bars json u := by
  refine ⟨h.not_authorises hhandle, fun tmp seed now => ?_⟩
  obtain ⟨data, hdata, hdecode⟩ := Option.map_eq_some_iff.mp hfile
  rw [hdata]
  exact ⟨_, congrArg (Option.map _) hdecode, h'.not_authorises rfl⟩

/-- **What is in no list gets nobody in**, whatever the holder of the lock is at. -/
theorem UserStore.Without.bars (h : s.Without u) (hs : s.Coherent json) : s.Bars json u := by
  obtain ⟨auth, hauth⟩ := Option.ne_none_iff_exists'.mp h.made
  cases hjob : s.job with
  | none =>
    have hview := hs.free hjob auth hauth
    obtain ⟨data, hdata, hdecode⟩ := Option.bind_eq_some_iff.mp (congrArg View.file hview)
    refine h.records.bars h.records (congrArg View.handle hview) ?_
    rw [Shows, hdata]
    exact congrArg some hdecode
  | some j =>
    obtain ⟨hcandidate, hbefore⟩ := h.job j hjob
    obtain ⟨-, hdisk, hmemory⟩ := hs.busy j hjob
    -- until `publish` the snapshot is that of the list found
    have hold : s.handle = j.before.map authOf → ∀ l', Shows json s.disk l' →
        (∀ l, j.before = some l → ∃ l'', l' = some l'' ∧ Lacks u l'') → s.Bars json u := by
      intro hhandle l' hshows hlacks
      obtain ⟨l, hl, hlauth⟩ := Option.map_eq_some_iff.mp (hhandle.symm.trans hauth)
      obtain ⟨l'', rfl, hl''⟩ := hlacks l hl
      exact (hbefore l hl).bars hl'' (hauth.trans (congrArg some hlauth.symm)) hshows
    -- until `rename` the file is that of the list found too
    have hearly : s.handle = j.before.map authOf → Shows json s.disk j.before → s.Bars json u :=
      fun hhandle hshows => hold hhandle _ hshows fun l hl => ⟨l, hl, hbefore l hl⟩
    have hrenamed : s.handle = j.before.map authOf →
        (∃ i, s.disk.Leads .users i ⟨json.encode j.candidate, true⟩) → s.Bars json u := by
      rintro hhandle ⟨i, hleads⟩
      exact hold hhandle _ (.of_leads hleads) fun _ _ => ⟨_, rfl, hcandidate⟩
    unfold Job.OnDisk at hdisk
    unfold Job.InMemory at hmemory
    cases hstage : j.stage <;> rw [hstage] at hdisk hmemory
    case create => exact hearly hmemory.2 hdisk
    case write | syncFile | rename => exact hearly hmemory.2 hdisk.1
    case openDir | syncDir | commit | publish => exact hrenamed hmemory.2 hdisk
    case finish =>
      obtain ⟨i, hleads⟩ := hdisk
      exact hcandidate.bars hcandidate hmemory.2 (.of_leads hleads)

/-- **A removed user stays out.**  Take any moment of any run at which the lock is free, the
snapshot does not accept the id and nobody waits to add it.  However callers, their steps and
failures interleave from there on, as long as none of them asks for the id and none is given it:
at every later moment, also in the middle of a call, the snapshot does not accept the id, and
neither does a server restarted from the file as it is then, whatever its seed. -/
theorem removed_stays_out (path : HostPath) {file tmp : Option (List UInt8)}
    {seed : List UserId} {now : UInt64} {s₀ : UserStore}
    (hstart : UserStore.loadOrSeed json file tmp seed now = some s₀) (events : List StoreEvent)
    (hrun : run (UserStore.step json path) s₀ events = some s) (hfree : s.job = none)
    (hmade : s.handle ≠ none) (hout : ¬ (s.view json).Authorises u)
    (hwaiting : ∀ name, StoreCall.add name (some u) ∉ s.waiting) (later : List StoreEvent)
    (hnone : ∀ e ∈ later, ¬ e.Brings u)
    (hlater : run (UserStore.step json path) s later = some t) : t.Bars json u := by
  have hs := coherent_run path hstart events hrun
  have ht : t.Coherent json := by
    refine coherent_run path hstart (events ++ later) ?_
    rw [run_append, hrun]
    exact hlater
  obtain ⟨auth, hauth⟩ := Option.ne_none_iff_exists'.mp hmade
  have hwithout : s.Without u := by
    refine ⟨hmade, fun r hr hid => hout ?_, fun j hj => ?_, hwaiting⟩
    · rw [hs.free hfree auth hauth]
      exact (View.of_authorises s.records u).mpr ⟨r, hr, hid⟩
    · rw [hfree] at hj
      cases hj
  exact (hwithout.run hnone hlater).bars ht

end Run

/-- A first boot with one user, who is removed. -/
def bootAndRemove : List StoreEvent :=
  goAhead 8 ++ [.arrive (.remove (List.Vector.replicate 16 1)),
    .lock 0 (List.Vector.replicate 16 3) 5] ++ goAhead 9

/-- Another user is being added: the file has been renamed. -/
def addHalfWay : List StoreEvent :=
  [.arrive (.add "laptop" none), .lock 0 (List.Vector.replicate 16 3) 7] ++ goAhead 5

theorem removed_stays_out_add :
    ∃ s₀ s t, UserStore.loadOrSeed sampleJson none none [List.Vector.replicate 16 1] 4 = some s₀ ∧
      run (UserStore.step sampleJson ⟨true, ["etc", "users.json"]⟩) s₀ bootAndRemove = some s ∧
      run (UserStore.step sampleJson ⟨true, ["etc", "users.json"]⟩) s addHalfWay = some t ∧
      t.job.isSome = true ∧ t.Bars sampleJson (List.Vector.replicate 16 1) := by
  have hstart : UserStore.loadOrSeed sampleJson none none [List.Vector.replicate 16 1] 4 =
      some _ := rfl
  refine ⟨_, _, _, hstart, rfl, rfl, rfl, ?_⟩
  refine removed_stays_out ⟨true, ["etc", "users.json"]⟩ hstart bootAndRemove rfl rfl
    (Option.some_ne_none _) ?_ (fun _ => List.not_mem_nil) addHalfWay ?_ rfl
  · exact Lacks.not_authorises (l := []) nofun rfl
  · have hother : (List.Vector.replicate 16 3 : UserId) ≠ List.Vector.replicate 16 1 := by decide
    simpa [addHalfWay, goAhead, StoreEvent.Brings] using hother

end Server
end HoldTheDonut
