import HoldTheDonut.Core.IpLiteral
import HoldTheDonut.Mux.Replay

/-!
# The cascade of `mux_relay`

A chained target is meant to be the exit's business: the entry passes the endpoint on as the
frame states it, and "resolving here is only to label" the responses.  But the label is also
the key under which a cascade session is filed, and a frame without a label is dropped.  Three
things follow, one section each.

*What the local resolver decides.*  Two networks that differ in their name lookups alone
should see the same dials and the same datagrams for each endpoint.  They do exactly if every
target has a label no lookup is needed for, and targets of one sub-session that share a label
are the same endpoint (`lookup_independent_iff`).

*Where a datagram without a target goes.*  It should continue to the last stated one.  It goes
to the only cascade session there is, or to the local socket, which no code ever connects.

*What becomes of a cascade session that has ended.*  Nothing: it stays filed, and the next
datagram for its target is written to it (`fresh_dial_iff`).
-/

namespace HoldTheDonut
namespace Mux

open Machine Routing Server

/-! ## What the local resolver decides -/

/-- The address a target spells out: no name server is asked for it. -/
def literal : Addr → Option SocketAddr
  | .ip s => some s
  | .domain h p => (parseIpAddr h).map fun ip => ⟨ip, p⟩

/-- `lookup_host` parses its argument before it asks anybody. -/
def MuxEnv.Std (env : MuxEnv) : Prop :=
  ∀ n h p ip, parseIpAddr h = some ip → env.lookupHost n h p = some ⟨ip, p⟩

/-- Two networks that differ in their name lookups at most. -/
structure MuxEnv.Agree (env env' : MuxEnv) : Prop where
  dialUdp : env.dialUdp = env'.dialUdp
  bindUdp : env.bindUdp = env'.bindUdp
  delivers : env.delivers = env'.delivers

/-- The endpoint an action dials, if it is a dial. -/
def Action.dialled : Action → Option Endpoint
  | .dial _ ep => some ep
  | _ => none

/-- The endpoints dialled, in order. -/
def dialled (log : List Handled) : List Endpoint :=
  log.flatMap fun h => h.actions.filterMap Action.dialled

/-- The datagrams written to the cascade session of an endpoint, in order. -/
def writtenTo (ep : Endpoint) (log : List Handled) : List (List UInt8) :=
  log.flatMap fun h => (h.datagrams.filter fun d => d.1 = .cascade ep).map Prod.snd

/-- The log of a relay that is sent a list of frames.  It is left at the first frame of an
unknown kind. -/
def handled (env : MuxEnv) (router : Router) (outbounds : Outbounds) (frames : List Frame) :
    List Handled :=
  (replay env router outbounds (frames.takeWhile fun f => f.Known)).log

/-- The name lookups do not show: two networks that differ in nothing else see the same dials
and the same datagrams for each endpoint, and each datagram goes to the session of the
endpoint its frame states. -/
def LookupIndependent (router : Router) (outbounds : Outbounds) (frames : List Frame) : Prop :=
  ∀ env env' : MuxEnv, env.Std → env'.Std → env.Agree env' →
    (dialled (handled env router outbounds frames) =
        dialled (handled env' router outbounds frames) ∧
      ∀ ep, writtenTo ep (handled env router outbounds frames) =
        writtenTo ep (handled env' router outbounds frames)) ∧
    ∀ h ∈ handled env router outbounds frames, ∀ t, h.frame.target = some t →
      ∀ d ∈ h.datagrams, d.1 = .cascade (endpointOf t)

/-- Every datagram states a target that spells out its address. -/
def Spelled (frames : List Frame) : Prop :=
  ∀ f ∈ frames, ∀ t, f.Sends t → literal t ≠ none

/-- Two datagrams of one sub-session, not ended in between, that spell out the same address
state the same endpoint. -/
def Distinct (frames : List Frame) : Prop :=
  ∀ pre f mid g post t t', frames = pre ++ f :: (mid ++ g :: post) → f.sid = g.sid →
    (∀ x ∈ mid, x.status = statusEnd → x.sid ≠ f.sid) → f.Sends t → g.Sends t' →
      literal t = literal t' → endpointOf t = endpointOf t'

theorem endpointOf_injective : Function.Injective endpointOf := by
  intro t t' h
  cases t with
  | ip s =>
    cases t' with
    | ip s' =>
      obtain ⟨ip, port⟩ := s
      obtain ⟨ip', port'⟩ := s'
      simp only [endpointOf, Endpoint.mk.injEq, Address.ip.injEq] at h
      rw [h.1, h.2]
    | domain h' p' => simp [endpointOf] at h
  | domain h p =>
    cases t' with
    | ip s' => simp [endpointOf] at h
    | domain h' p' =>
      simp only [endpointOf, Endpoint.mk.injEq, Address.domain.injEq] at h
      rw [h.1, h.2]

variable {addr : SocketAddr} {t : Addr}

theorem resolve_of_literal {env : MuxEnv} (hstd : env.Std) (n : ℕ) (h : literal t = some addr) :
    (resolve env n t).1 = some addr := by
  cases t with
  | ip s => exact h
  | domain host p =>
    obtain ⟨ip, hip, rfl⟩ := Option.map_eq_some_iff.mp h
    exact hstd n host p ip hip

/-! ### Spelled targets keep the networks apart from the frames -/

section Independent

variable {env env' : MuxEnv} {router : Router} {outbounds : Outbounds}

/-- Every stated target is chained. -/
def Chained (router : Router) (outbounds : Outbounds) (frames : List Frame) : Prop :=
  ∀ f ∈ frames, ∀ t, f.target = some t →
    (outbounds.get (router.route (endpointOf t))).isSome = true

theorem resolve_congr (hstd : env.Std) (hstd' : env'.Std) (n : ℕ) (h : literal t ≠ none) :
    resolve env n t = resolve env' n t := by
  obtain ⟨addr, haddr⟩ := Option.ne_none_iff_exists'.mp h
  refine Prod.ext ?_ ?_
  · rw [resolve_of_literal hstd n haddr, resolve_of_literal hstd' n haddr]
  · cases t <;> rfl

theorem hand_congr (hagree : env.Agree env') (n : ℕ) (via : Via) (data : List UInt8) :
    hand env n via data = hand env' n via data := by
  rw [hand, hand, hagree.delivers]

variable {f : Frame}

theorem serve_congr (hstd : env.Std) (hstd' : env'.Std) (hagree : env.Agree env') (n : ℕ)
    (sess : UdpSession)
    (hchained : ∀ t, f.target = some t →
      (outbounds.get (router.route (endpointOf t))).isSome = true)
    (hspelled : ∀ t, f.data ≠ none → f.target = some t → literal t ≠ none) :
    serve env router outbounds n sess f = serve env' router outbounds n sess f := by
  rcases serve_cases env router outbounds n sess f with
    ⟨hdata, hserve⟩ | ⟨data, hdata, htarget, hserve⟩ | ⟨data, t, -, htarget, hnone, -⟩ |
    ⟨data, t, chain, hdata, htarget, hchain, hserve⟩
  · rw [hserve, serve, hdata]
  · rw [hserve, serve, hdata, htarget]
    simp only [sendDatagram, sendUntargeted, hand_congr hagree]
  · have hsome := hchained t htarget
    rw [hnone] at hsome
    cases hsome
  · have hsome : f.data ≠ none := by
      rw [hdata]
      exact Option.some_ne_none data
    have hlit : literal t ≠ none := hspelled t hsome htarget
    rw [hserve, serve_of_chained env' n sess htarget hdata hchain]
    unfold sendChained
    rw [resolve_congr hstd hstd' n hlit, hagree.dialUdp]
    simp only [hand_congr hagree]

variable {frames : List Frame}

/-- **Spelled targets make the networks agree.** -/
theorem replay_congr (hstd : env.Std) (hstd' : env'.Std) (hagree : env.Agree env')
    (hchained : Chained router outbounds frames) (hspelled : Spelled frames) :
    replay env router outbounds frames = replay env' router outbounds frames := by
  refine List.foldl_ext _ _ _ fun s f hf => ?_
  unfold dispatch
  by_cases hserved : f.Served
  · have hserve := serve_congr hstd hstd' hagree s.log.length (s.session f.sid)
      (hchained f hf) fun t hdata htarget => hspelled f hf t ⟨hserved, hdata, htarget⟩
    rw [hserve]
  · have hserved' : ¬ (f.status = statusNew ∨ f.status = statusKeep) := hserved
    rw [if_neg hserved', if_neg hserved']

variable {link : ChainLink}

/-- With spelled targets, the frame a cascade session comes from spells out its address. -/
theorem filed_of_lookup (hstd : env.Std) (hspelled : Spelled frames) {sid : UInt16}
    (h : ((replay env router outbounds frames).session sid).chain.lookup addr = some link) :
    ∃ (pre : List Frame) (f : Frame) (mid : List Frame) (t : Addr),
      frames = pre ++ f :: mid ∧ f.sid = sid ∧
      (∀ x ∈ mid, x.status = statusEnd → x.sid ≠ sid) ∧ f.Sends t ∧
        literal t = some addr ∧ endpointOf t = link.endpoint := by
  obtain ⟨pre, f, mid, t, chain, rfl, hsid, hmid, hsends, -, hres, -, rfl⟩ := opener_of_lookup h
  obtain ⟨a, ha⟩ := Option.ne_none_iff_exists'.mp (hspelled f (by simp) t hsends)
  refine ⟨pre, f, mid, t, rfl, hsid, hmid, hsends, ?_, rfl⟩
  rw [resolve_of_literal hstd _ ha] at hres
  rw [ha, hres]

variable {data : List UInt8}

/-- What is done for a served frame whose target is chained. -/
theorem actions_entryOf {s : Relay} {chain : ChainOutbound} (hserved : f.Served)
    (htarget : f.target = some t) (hdata : f.data = some data)
    (hchain : outbounds.get (router.route (endpointOf t)) = some chain) :
    (entryOf env router outbounds s f).actions =
      (sendChained env s.log.length (s.session f.sid) chain t data).2 := by
  rw [entryOf]
  simp only [if_pos hserved]
  rw [serve_of_chained env _ _ htarget hdata hchain]

/-- The datagrams of such a frame. -/
theorem datagrams_entryOf {s : Relay} {chain : ChainOutbound} (hserved : f.Served)
    (htarget : f.target = some t) (hdata : f.data = some data)
    (hchain : outbounds.get (router.route (endpointOf t)) = some chain) :
    (entryOf env router outbounds s f).datagrams =
      (sendChained env s.log.length (s.session f.sid) chain t data).2.filterMap
        Action.datagram := by
  rw [Handled.datagrams, actions_entryOf hserved htarget hdata hchain]

theorem mem_hand_datagrams {n : ℕ} {via : Via} {d : Via × List UInt8}
    (h : d ∈ (hand env n via data).filterMap Action.datagram) : d.1 = via := by
  rw [hand_datagrams] at h
  split at h
  · rw [List.mem_singleton.mp h]
  · cases h

/-- A frame that sends nothing has no datagrams. -/
theorem datagrams_entryOf_of_not_sends {s : Relay} (htarget : f.target = some t) (h : ¬ f.Sends t) :
    (entryOf env router outbounds s f).datagrams = [] := by
  rw [Handled.datagrams, entryOf]
  by_cases hserved : f.Served
  · have hdata : f.data = none := by
      by_contra hdata
      exact h ⟨hserved, hdata, htarget⟩
    simp only [if_pos hserved, serve, hdata]
    rfl
  · simp only [if_neg hserved]
    rfl

/-- The newest datagram goes where its frame says: to the session that was dialled for the
endpoint, or to one that an earlier frame filed under the same address. -/
theorem datagrams_entryOf_of_distinct (hstd : env.Std) {g : Frame}
    (hchained : Chained router outbounds (frames ++ [g])) (hspelled : Spelled (frames ++ [g]))
    (hdistinct : Distinct (frames ++ [g])) (htarget : g.target = some t) :
    ∀ d ∈ (entryOf env router outbounds (replay env router outbounds frames) g).datagrams,
      d.1 = .cascade (endpointOf t) := by
  intro d hd
  have hg : g ∈ frames ++ [g] := List.mem_append_right _ (List.mem_singleton_self g)
  by_cases hsends : g.Sends t
  · obtain ⟨data, hdata⟩ := Option.ne_none_iff_exists'.mp hsends.2.1
    obtain ⟨chain, hchain⟩ := Option.isSome_iff_exists.mp (hchained g hg t htarget)
    obtain ⟨addr, hlit⟩ := Option.ne_none_iff_exists'.mp (hspelled g hg t hsends)
    rw [datagrams_entryOf hsends.1 htarget hdata hchain] at hd
    rcases sendChained_cases env _ _ chain t data with
      ⟨-, heq⟩ | ⟨a, link, hres, hlink, heq⟩ | ⟨a, -, -, -, heq⟩ | ⟨a, -, -, -, heq⟩
    · rw [heq, resolve_datagrams] at hd
      cases hd
    · rw [heq, List.filterMap_append, resolve_datagrams, List.nil_append] at hd
      rw [mem_hand_datagrams hd]
      -- the session was filed by an earlier frame, which stated the same endpoint
      have hbefore : Spelled frames := fun f hf => hspelled f (List.mem_append_left _ hf)
      obtain ⟨pre, f, mid, t', rfl, hsid, hmid, hsends', hlit', hep⟩ :=
        filed_of_lookup hstd hbefore hlink
      rw [resolve_of_literal hstd _ hlit] at hres
      have hsame : endpointOf t' = endpointOf t := by
        refine hdistinct pre f mid g [] t' t (by simp) hsid ?_ hsends' hsends ?_
        · rw [hsid]
          exact hmid
        · rw [hlit', hlit, hres]
      rw [← hep, hsame]
    · rw [heq, List.filterMap_append, List.filterMap_append, resolve_datagrams] at hd
      exact mem_hand_datagrams hd
    · rw [heq, List.filterMap_append, resolve_datagrams] at hd
      cases hd
  · rw [datagrams_entryOf_of_not_sends htarget hsends] at hd
    cases hd

/-- **With distinct spelled targets, each datagram goes where its frame says.** -/
theorem datagram_of_distinct (hstd : env.Std) (hchained : Chained router outbounds frames)
    (hspelled : Spelled frames) (hdistinct : Distinct frames) :
    ∀ h ∈ (replay env router outbounds frames).log, ∀ t, h.frame.target = some t →
      ∀ d ∈ h.datagrams, d.1 = .cascade (endpointOf t) := by
  intro h hmem t htarget
  obtain ⟨pre, g, post, rfl, -, rfl⟩ := exists_of_mem_log env router outbounds hmem
  have hsub : ∀ f ∈ pre ++ [g], f ∈ pre ++ g :: post := by
    intro f hf
    rw [List.append_cons]
    exact List.mem_append_left _ hf
  refine datagrams_entryOf_of_distinct hstd (fun f hf => hchained f (hsub f hf))
    (fun f hf => hspelled f (hsub f hf)) ?_ htarget
  intro pre' f mid x rest t t' heq
  refine hdistinct pre' f mid x (rest ++ post) t t' ?_
  rw [List.append_cons, heq]
  simp

end Independent

/-! ### Two networks that tell the frames apart -/

section Networks

variable {router : Router} {outbounds : Outbounds}

/-- Everything works, but no name server answers. -/
def silentNet : MuxEnv where
  lookupHost := fun _ h p => literal (.domain h p)
  dialUdp := fun _ _ _ => true
  bindUdp := fun _ _ => true
  delivers := fun _ _ => true

/-- Everything works, and the name server has one answer for everything. -/
def answeringNet (addr : SocketAddr) : MuxEnv :=
  { silentNet with lookupHost := fun _ h p => some ((literal (.domain h p)).getD addr) }

theorem silentNet_std : silentNet.Std := by
  intro n h p ip hip
  show (parseIpAddr h).map _ = _
  rw [hip]
  rfl

theorem answeringNet_std (addr : SocketAddr) : (answeringNet addr).Std := by
  intro n h p ip hip
  show some (((parseIpAddr h).map _).getD addr) = _
  rw [hip]
  rfl

theorem answeringNet_agree (addr : SocketAddr) : (answeringNet addr).Agree silentNet :=
  ⟨rfl, rfl, rfl⟩

/-- Without a name server only spelled targets have a label. -/
theorem resolve_silentNet (n : ℕ) (t : Addr) : (resolve silentNet n t).1 = literal t := by
  cases t <;> rfl

theorem resolve_answeringNet (addr : SocketAddr) (n : ℕ) (h : literal t = none) :
    (resolve (answeringNet addr) n t).1 = some addr := by
  cases t with
  | ip s => cases h
  | domain host p =>
    show some ((literal (.domain host p)).getD addr) = _
    rw [h]
    rfl

/-! ### What was dialled -/

section Dialled

variable (env : MuxEnv) (n : ℕ) (sess : UdpSession)

@[simp] theorem resolve_dialled (t : Addr) :
    (resolve env n t).2.filterMap Action.dialled = [] := by
  cases t <;> rfl

@[simp] theorem hand_dialled (via : Via) (data : List UInt8) :
    (hand env n via data).filterMap Action.dialled = [] := by
  unfold hand
  split <;> rfl

theorem sendUntargeted_dialled (data : List UInt8) :
    (sendUntargeted env n sess data).filterMap Action.dialled = [] := by
  unfold sendUntargeted
  split
  · split
    · exact hand_dialled env n _ data
    · rfl
  · split
    · exact hand_dialled env n _ data
    · rfl

theorem sendLocal_dialled (t : Addr) (data : List UInt8) :
    (sendLocal env n sess t data).2.filterMap Action.dialled = [] := by
  have hlooked := resolve_dialled env n t
  have hbound : ∀ ipv6, [Action.bind ipv6].filterMap Action.dialled = [] := fun _ => rfl
  unfold sendLocal
  rcases hres : resolve env n t with ⟨_ | addr, looked⟩
  · rw [hres] at hlooked
    exact hlooked
  · rw [hres] at hlooked
    cases sess.direct with
    | some d => simp only [List.filterMap_append, hlooked, hand_dialled, List.append_nil]
    | none =>
      simp only
      split
      · simp only [List.filterMap_append, hlooked, hbound, hand_dialled, List.append_nil]
      · simp only [List.filterMap_append, hlooked, hbound, List.append_nil]

variable (router outbounds)

/-- What serving a frame dials: nothing, or the endpoint it states, which then has a label. -/
theorem serve_dialled_cases (f : Frame) :
    (serve env router outbounds n sess f).2.filterMap Action.dialled = [] ∨
    ∃ t, f.target = some t ∧ (resolve env n t).1 ≠ none ∧
      (serve env router outbounds n sess f).2.filterMap Action.dialled = [endpointOf t] := by
  rcases serve_cases env router outbounds n sess f with
    ⟨-, hserve⟩ | ⟨data, -, -, hserve⟩ | ⟨data, t, -, -, -, hserve⟩ |
    ⟨data, t, chain, -, htarget, -, hserve⟩
  · refine Or.inl ?_
    rw [hserve]
    rfl
  · rw [hserve]
    exact Or.inl (sendUntargeted_dialled env n sess data)
  · rw [hserve]
    exact Or.inl (sendLocal_dialled env n sess t data)
  · have hdial : [Action.dial chain (endpointOf t)].filterMap Action.dialled = [endpointOf t] :=
      rfl
    rw [hserve]
    rcases sendChained_cases env n sess chain t data with
      ⟨-, heq⟩ | ⟨addr, link, -, -, heq⟩ | ⟨addr, haddr, -, -, heq⟩ | ⟨addr, haddr, -, -, heq⟩
    · refine Or.inl ?_
      rw [heq, resolve_dialled]
    · refine Or.inl ?_
      rw [heq, List.filterMap_append, resolve_dialled, hand_dialled]
      rfl
    · refine Or.inr ⟨t, htarget, haddr ▸ Option.some_ne_none addr, ?_⟩
      rw [heq, List.filterMap_append, List.filterMap_append, resolve_dialled, hand_dialled,
        hdial]
      rfl
    · refine Or.inr ⟨t, htarget, haddr ▸ Option.some_ne_none addr, ?_⟩
      rw [heq, List.filterMap_append, resolve_dialled, hdial]
      rfl

end Dialled

theorem mem_dialled {log : List Handled} {ep : Endpoint} :
    ep ∈ dialled log ↔ ∃ h ∈ log, ep ∈ h.actions.filterMap Action.dialled :=
  List.mem_flatMap

/-- Without a name server, only spelled targets are dialled. -/
theorem dialled_silentNet (frames : List Frame) :
    ∀ ep ∈ dialled (replay silentNet router outbounds frames).log,
      ∃ t, endpointOf t = ep ∧ literal t ≠ none := by
  intro ep hep
  obtain ⟨h, hmem, hep⟩ := mem_dialled.mp hep
  obtain ⟨pre, g, post, -, -, rfl⟩ := exists_of_mem_log silentNet router outbounds hmem
  by_cases hserved : g.Served
  · simp only [entryOf, if_pos hserved] at hep
    rcases serve_dialled_cases router outbounds silentNet _ _ g with hnil | ⟨t, -, hres, hone⟩
    · rw [hnil] at hep
      cases hep
    · rw [hone] at hep
      rw [resolve_silentNet] at hres
      exact ⟨t, (List.mem_singleton.mp hep).symm, hres⟩
  · simp only [entryOf, if_neg hserved] at hep
    cases hep

variable {link : ChainLink}

/-- **Where a cascade session was dialled**: its endpoint is among those dialled. -/
theorem endpoint_mem_dialled (env : MuxEnv) (frames : List Frame) {sid : UInt16}
    (h : ((replay env router outbounds frames).session sid).chain.lookup addr = some link) :
    link.endpoint ∈ dialled (replay env router outbounds frames).log := by
  induction frames using List.reverseRecOn with
  | nil => cases h
  | append_singleton frames g ih =>
    have hold : ((replay env router outbounds frames).session sid).chain.lookup addr = some link →
        link.endpoint ∈ dialled (replay env router outbounds (frames ++ [g])).log := by
      intro hlink
      obtain ⟨e, he, hep⟩ := mem_dialled.mp (ih hlink)
      exact mem_dialled.mpr ⟨e, (log_prefix_replay _ _ _ frames [g]).subset he, hep⟩
    have hlookup := h
    rw [replay_concat] at hlookup
    rcases session_dispatch_cases env router outbounds _ g sid with
      ⟨-, heq⟩ | ⟨-, -, heq⟩ | ⟨rfl, hserved, heq⟩
    · rw [heq] at hlookup
      exact hold hlookup
    · rw [heq] at hlookup
      cases hlookup
    · rw [heq] at hlookup
      rcases serve_chain_cases env router outbounds _ _ g with
        hsame | ⟨t, a, chain, -, -, -, -, -, -, hdial, hins⟩
      · rw [hsame] at hlookup
        exact hold hlookup
      · rw [hins] at hlookup
        rcases lookup_insert_cases hlookup with ⟨-, rfl⟩ | ⟨-, hother⟩
        · have hentry := entryOf_mem_log env router outbounds frames [] hserved.known
          refine mem_dialled.mpr ⟨_, hentry, ?_⟩
          simp only [entryOf, if_pos hserved]
          exact List.mem_filterMap.mpr ⟨_, hdial, rfl⟩
        · exact hold hother

variable {f : Frame}

variable (router outbounds) in
/-- On a network where everything works, a datagram whose target has a label is written to
the session filed under it. -/
theorem link_of_sends {env : MuxEnv} (hdial : ∀ n c e, env.dialUdp n c e = true)
    (hdelivers : ∀ n ep, env.delivers n (.cascade ep) = true) (s : Relay) (hsends : f.Sends t)
    (hchained : (outbounds.get (router.route (endpointOf t))).isSome = true)
    (hres : (resolve env s.log.length t).1 = some addr) :
    ∃ link, ((dispatch env router outbounds s f).session f.sid).chain.lookup addr = some link ∧
      ∃ d ∈ (entryOf env router outbounds s f).datagrams, d.1 = .cascade link.endpoint := by
  obtain ⟨data, hdata⟩ := Option.ne_none_iff_exists'.mp hsends.2.1
  obtain ⟨chain, hchain⟩ := Option.isSome_iff_exists.mp hchained
  have hhand : ∀ ep, (Via.cascade ep, data) ∈
      (hand env s.log.length (.cascade ep) data).filterMap Action.datagram := by
    intro ep
    rw [hand_datagrams, if_pos (hdelivers _ _)]
    exact List.mem_singleton_self _
  rw [session_dispatch_of_served _ _ _ _ _ hsends.1,
    serve_of_chained env _ _ hsends.2.2 hdata hchain,
    datagrams_entryOf hsends.1 hsends.2.2 hdata hchain]
  rcases sendChained_cases env s.log.length (s.session f.sid) chain t data with
    ⟨hnone, -⟩ | ⟨a, link, ha, hlink, heq⟩ | ⟨a, ha, -, -, heq⟩ | ⟨a, -, -, hfail, -⟩
  · rw [hres] at hnone
    cases hnone
  · obtain rfl : addr = a := Option.some.inj (hres.symm.trans ha)
    rw [heq]
    refine ⟨link, hlink, (.cascade link.endpoint, data), ?_, rfl⟩
    rw [List.filterMap_append]
    exact List.mem_append_right _ (hhand _)
  · obtain rfl : addr = a := Option.some.inj (hres.symm.trans ha)
    rw [heq]
    refine ⟨⟨chain, endpointOf t⟩, AList.lookup_insert _, (.cascade (endpointOf t), data), ?_, rfl⟩
    rw [List.filterMap_append]
    exact List.mem_append_right _ (hhand _)
  · rw [hdial] at hfail
    cases hfail

variable {frames : List Frame}
  (hchained : Chained router outbounds (frames.takeWhile fun f => f.Known))
  (h : LookupIndependent router outbounds frames)

include hchained h

/-- **A name shows.**  A target that does not spell out its address is dialled for on one
network and not on the other. -/
theorem spelled_of_independent : Spelled (frames.takeWhile fun f => f.Known) := by
  intro f hf t hsends hname
  -- any address will do: which one the name server gives does not matter
  let addr : SocketAddr := ⟨.v4 (List.Vector.replicate 4 0), 0⟩
  obtain ⟨pre, post, hsplit⟩ := List.append_of_mem hf
  have hnets := h (answeringNet addr) silentNet (answeringNet_std addr) silentNet_std
    (answeringNet_agree addr)
  unfold handled at hnets
  rw [hsplit] at hnets
  have hentry := entryOf_mem_log (answeringNet addr) router outbounds pre post hsends.1.known
  obtain ⟨link, hlink, d, hd, hvia⟩ := link_of_sends router outbounds
    (fun _ _ _ => rfl) (fun _ _ => rfl) (replay (answeringNet addr) router outbounds pre) hsends
    (hchained f hf t hsends.2.2) (resolve_answeringNet addr _ hname)
  have hep : link.endpoint = endpointOf t := by
    have hstated := hnets.2 _ hentry t hsends.2.2 d hd
    rw [hvia] at hstated
    exact Via.cascade.inj hstated
  have hdialled : endpointOf t ∈
      dialled (replay (answeringNet addr) router outbounds (pre ++ f :: post)).log := by
    rw [← replay_concat] at hlink
    obtain ⟨e, he, hmem⟩ := mem_dialled.mp (endpoint_mem_dialled _ _ hlink)
    have hprefix := log_prefix_replay (answeringNet addr) router outbounds (pre ++ [f]) post
    rw [List.append_assoc] at hprefix
    rw [← hep]
    exact mem_dialled.mpr ⟨e, hprefix.subset he, hmem⟩
  rw [hnets.1.1] at hdialled
  obtain ⟨t', ht', hspelled⟩ := dialled_silentNet _ _ hdialled
  exact hspelled (endpointOf_injective ht' ▸ hname)

/-- **A shared label shows**: the second of two endpoints is sent to the session of the
first. -/
theorem distinct_of_independent : Distinct (frames.takeWhile fun f => f.Known) := by
  intro pre f mid g post t t' hsplit hsid hmid hf hg hlit
  have hspelled := spelled_of_independent hchained h
  have hstated := (h silentNet silentNet silentNet_std silentNet_std ⟨rfl, rfl, rfl⟩).2
  unfold handled at hstated
  rw [hsplit] at hchained hspelled hstated
  have hfmem : f ∈ pre ++ f :: (mid ++ g :: post) := by simp
  have hgmem : g ∈ pre ++ f :: (mid ++ g :: post) := by simp
  obtain ⟨addr, haddr⟩ := Option.ne_none_iff_exists'.mp (hspelled f hfmem t hf)
  obtain ⟨link, hlink, d, hd, hvia⟩ := link_of_sends router outbounds
    (fun _ _ _ => rfl) (fun _ _ => rfl) (replay silentNet router outbounds pre) hf
    (hchained f hfmem t hf.2.2) ((resolve_silentNet _ t).trans haddr)
  obtain ⟨link', hlink', d', hd', hvia'⟩ := link_of_sends router outbounds
    (fun _ _ _ => rfl) (fun _ _ => rfl) (replay silentNet router outbounds (pre ++ f :: mid)) hg
    (hchained g hgmem t' hg.2.2) ((resolve_silentNet _ t').trans (hlit ▸ haddr))
  -- the session of the first datagram is still filed when the second comes
  have hkept : link' = link := by
    rw [← replay_concat] at hlink
    have hfiled := keeps_replay silentNet router outbounds (pre ++ [f]) mid hmid addr link hlink
    rw [List.append_assoc, List.singleton_append, hsid] at hfiled
    have hserved := session_dispatch_of_served silentNet router outbounds
      (replay silentNet router outbounds (pre ++ f :: mid)) g hg.1
    rw [hserved, serve_keeps _ _ _ _ _ g addr link hfiled] at hlink'
    exact (Option.some.inj hlink').symm
  have hfirst : Via.cascade link.endpoint = .cascade (endpointOf t) := by
    rw [← hvia]
    exact hstated _ (entryOf_mem_log silentNet router outbounds pre _ hf.1.known) t hf.2.2 d hd
  have hsecond : Via.cascade link'.endpoint = .cascade (endpointOf t') := by
    have hentry := entryOf_mem_log silentNet router outbounds (pre ++ f :: mid) post hg.1.known
    rw [List.append_assoc] at hentry
    rw [← hvia']
    exact hstated _ hentry t' hg.2.2 d' hd'
  rw [hkept] at hsecond
  exact Via.cascade.inj (hfirst.symm.trans hsecond)

end Networks

/-- **What of the cascade the local resolver decides.**  For every list of frames whose stated
targets are chained: the name lookups of the entry node show neither in the dials nor in the
datagrams for each endpoint, and each datagram goes to the endpoint its frame states, exactly
if every target spells out its address and those of one sub-session that spell out the same
one are the same endpoint. -/
theorem lookup_independent_iff (router : Router) (outbounds : Outbounds) (frames : List Frame)
    (hchained : Chained router outbounds (frames.takeWhile fun f => f.Known)) :
    LookupIndependent router outbounds frames ↔
      Spelled (frames.takeWhile fun f => f.Known) ∧
        Distinct (frames.takeWhile fun f => f.Known) := by
  constructor
  · exact fun h => ⟨spelled_of_independent hchained h, distinct_of_independent hchained h⟩
  · rintro ⟨hspelled, hdistinct⟩ env env' hstd hstd' hagree
    have hsame : handled env router outbounds frames = handled env' router outbounds frames := by
      rw [handled, handled, replay_congr hstd hstd' hagree hchained hspelled]
    refine ⟨⟨by rw [hsame], fun ep => by rw [hsame]⟩, ?_⟩
    exact datagram_of_distinct hstd hchained hspelled hdistinct

def exitChain : ChainOutbound := ⟨"exit", "exit.example:443", List.Vector.replicate 16 7⟩

/-- Everything goes up one chain. -/
def exitOnly : Outbounds := ⟨AList.singleton "exit" exitChain, none⟩

def chainAll : Router := ⟨[], "exit"⟩

/-- A datagram for a name, and one for an address. -/
def nameFrame (name : String) (byte : UInt8) : Frame :=
  ⟨7, statusNew, some (.domain name 53), some [byte]⟩

def addressFrame (addr : SocketAddr) (byte : UInt8) : Frame :=
  ⟨7, statusNew, some (.ip addr), some [byte]⟩

/-- The address of the examples. -/
def sampleAddr : SocketAddr := ⟨.v4 (List.Vector.replicate 4 9), 53⟩

variable {frames : List Frame}

/-- Targets that are addresses are spelled and distinct. -/
theorem spelled_and_distinct_of_ip (h : ∀ f ∈ frames, ∀ t, f.target = some t → ∃ s, t = .ip s) :
    Spelled frames ∧ Distinct frames := by
  constructor
  · intro f hf t hsends
    obtain ⟨s, rfl⟩ := h f hf t hsends.2.2
    exact Option.some_ne_none s
  · rintro pre f mid g post t t' rfl - - hf hg hlit
    obtain ⟨s, rfl⟩ := h f (by simp) t hf.2.2
    obtain ⟨s', rfl⟩ := h g (by simp) t' hg.2.2
    rw [Option.some.inj hlit]

/-- Two datagrams for one address. -/
theorem lookup_independent_address :
    LookupIndependent chainAll exitOnly [addressFrame sampleAddr 1, addressFrame sampleAddr 2] := by
  refine (lookup_independent_iff chainAll exitOnly _ ?_).mpr (spelled_and_distinct_of_ip ?_)
  · intro f hf t _
    rfl
  · intro f hf t ht
    have hf' : f ∈ [addressFrame sampleAddr 1, addressFrame sampleAddr 2] :=
      (List.takeWhile_sublist _).subset hf
    rcases List.mem_pair.mp hf' with rfl | rfl
    · exact ⟨sampleAddr, (Option.some.inj ht).symm⟩
    · exact ⟨sampleAddr, (Option.some.inj ht).symm⟩

/-- **Two names with one address share a session**, and without a name server nothing is sent
at all: the datagram for `b` is written to the session dialled for `a`. -/
theorem shared_label_misdirects :
    (answeringNet sampleAddr).Std ∧ silentNet.Std ∧ (answeringNet sampleAddr).Agree silentNet ∧
      dialled (handled (answeringNet sampleAddr) chainAll exitOnly
        [nameFrame "a" 1, nameFrame "b" 2]) = [⟨.domain "a", 53⟩] ∧
      writtenTo ⟨.domain "a", 53⟩ (handled (answeringNet sampleAddr) chainAll exitOnly
        [nameFrame "a" 1, nameFrame "b" 2]) = [[1], [2]] ∧
      dialled (handled silentNet chainAll exitOnly [nameFrame "a" 1, nameFrame "b" 2]) = [] := by
  refine ⟨answeringNet_std _, silentNet_std, answeringNet_agree _, ?_, ?_, ?_⟩
  · decide
  · decide
  · decide

/-! ## Where a datagram without a target goes -/

section Untargeted

variable (env : MuxEnv) (router : Router) (outbounds : Outbounds)

/-- `e` is the last entry of a sub-session, among those of a log, that states a target. -/
def LastStated (log : List Handled) (sid : UInt16) (e : Handled) (t : Addr) : Prop :=
  ∃ pre mid, log = pre ++ e :: mid ∧ e.frame.sid = sid ∧ e.frame.target = some t ∧
    ∀ x ∈ mid, x.frame.sid = sid → x.frame.target = none

/-- The way chosen for a target when it was stated: its cascade session, or the local socket
to the address it had. -/
def wayOf (e : Handled) (t : Addr) : Option Via :=
  match outbounds.get (router.route (endpointOf t)) with
  | some _ => some (.cascade (endpointOf t))
  | none => (resolve env e.index t).1.map fun addr => .socket (some addr)

/-- The egress of a target is open when a frame comes: there is a cascade session for it, and
it takes datagrams; or there is a local socket. -/
def EgressOpen (h : Handled) (t : Addr) : Prop :=
  match outbounds.get (router.route (endpointOf t)) with
  | some _ =>
    (∃ addr link, h.before.chain.lookup addr = some link ∧ link.endpoint = endpointOf t) ∧
      env.delivers h.index (.cascade (endpointOf t)) = true
  | none => h.before.direct ≠ none

theorem entries_of_one {chain : AList fun _ : SocketAddr => ChainLink}
    (hone : chain.keys.length = 1) : ∃ x, chain.entries = [x] := by
  rw [AList.keys, List.keys, List.length_map] at hone
  exact List.length_eq_one_iff.mp hone

variable {link : ChainLink}

/-- A table with one key holds what is found in it first. -/
theorem head_of_lookup {chain : AList fun _ : SocketAddr => ChainLink}
    (hone : chain.keys.length = 1) (h : chain.lookup addr = some link) :
    chain.entries.head? = some ⟨addr, link⟩ := by
  have hmem : (⟨addr, link⟩ : (_ : SocketAddr) × ChainLink) ∈ chain.entries :=
    AList.mem_lookup_iff.mp h
  obtain ⟨x, hx⟩ := entries_of_one hone
  rw [hx] at hmem ⊢
  rw [List.mem_singleton.mp hmem]
  rfl

/-- The local socket is never connected, so what is sent to its peer is lost. -/
theorem sendUntargeted_of_many (hunconnected : ∀ n, env.delivers n (.socket none) = false)
    (n : ℕ) {sess : UdpSession} (hmany : sess.chain.keys.length ≠ 1) (data : List UInt8) :
    sendUntargeted env n sess data = [] := by
  rw [sendUntargeted, if_neg hmany]
  split
  · rw [hand, hunconnected]
    rfl
  · rfl

/-- With one cascade session, that is where the datagram goes. -/
theorem sendUntargeted_of_one (n : ℕ) {sess : UdpSession} (hone : sess.chain.keys.length = 1)
    (data : List UInt8) :
    ∃ ep, sendUntargeted env n sess data = hand env n (.cascade ep) data := by
  obtain ⟨x, hx⟩ := entries_of_one hone
  refine ⟨x.2.endpoint, ?_⟩
  rw [sendUntargeted, if_pos hone, hx]
  rfl

/-- **Where a datagram without a target goes.**  In every run, for every `Keep` frame with
data and no target whose sub-session last stated the target `t`, whose egress is open: the
data is sent as one datagram on the way chosen for `t` exactly if `t` is chained and the
sub-session has one cascade session. -/
theorem untargeted_continues_iff (hunconnected : ∀ n, env.delivers n (.socket none) = false)
    {visionUuid : Option Vision.Uuid} {leftover : List UInt8} {events : List Event} {s : Relay}
    (hrun : run (step env router outbounds)
      (start env router outbounds visionUuid leftover) events = some s)
    {before after : List Handled} {h : Handled} (hlog : s.log = before ++ h :: after)
    (hkeep : h.frame.status = statusKeep) {data : List UInt8} (hdata : h.frame.data = some data)
    (htarget : h.frame.target = none) :
    ∀ e t, LastStated before h.frame.sid e t → EgressOpen env router outbounds h t →
      ((∃ via, wayOf env router outbounds e t = some via ∧ h.datagrams = [(via, data)]) ↔
        (outbounds.get (router.route (endpointOf t))).isSome = true ∧
          h.before.chain.keys.length = 1) := by
  intro e t _ hopen
  have hmem : h ∈ s.log := by
    rw [hlog]
    exact List.mem_append_right _ List.mem_cons_self
  have hdatagrams : h.datagrams =
      (sendUntargeted env h.index h.before data).filterMap Action.datagram := by
    rw [Handled.datagrams, (run_log hrun h hmem).actions_eq (Or.inr hkeep), serve, hdata, htarget]
    rfl
  unfold wayOf
  unfold EgressOpen at hopen
  by_cases hone : h.before.chain.keys.length = 1
  · cases hchain : outbounds.get (router.route (endpointOf t)) with
    | some chain =>
      rw [hchain] at hopen
      obtain ⟨⟨addr, link, hlink, hep⟩, hdelivers⟩ := hopen
      refine iff_of_true ⟨.cascade (endpointOf t), rfl, ?_⟩ ⟨rfl, hone⟩
      rw [hdatagrams, sendUntargeted, if_pos hone, head_of_lookup hone hlink]
      simp only [hep]
      rw [hand_datagrams, if_pos hdelivers]
    | none =>
      refine iff_of_false ?_ fun h => Bool.noConfusion h.1
      rintro ⟨via, hvia, hsent⟩
      -- the only cascade session gets what was meant for the local socket
      obtain ⟨addr, -, rfl⟩ := Option.map_eq_some_iff.mp hvia
      obtain ⟨ep, heq⟩ := sendUntargeted_of_one env h.index hone data
      have hin : (Via.socket (some addr), data) ∈ h.datagrams := by
        rw [hsent]
        exact List.mem_singleton_self _
      rw [hdatagrams, heq] at hin
      cases mem_hand_datagrams hin
  · refine iff_of_false ?_ fun h => hone h.2
    rintro ⟨via, -, hsent⟩
    rw [hdatagrams, sendUntargeted_of_many env hunconnected h.index hone data] at hsent
    cases hsent

end Untargeted

/-- Everything works, except that a socket that was never connected has no peer to send to. -/
def unconnectedNet : MuxEnv :=
  { silentNet with delivers := fun _ via => decide (via ≠ .socket none) }

/-- `Keep` on sub-session 7 with one byte and no target. -/
def keepFrameBytes : List UInt8 := [0, 4, 0, 7, 2, 1, 0, 1, 43]

/-- The target of `blockedFrame`. -/
def sampleHost : SocketAddr := ⟨.v4 (Octets.fromSlice 4 [10, 0, 0, 1]), 53⟩

def sampleTarget : Addr := .ip sampleHost

theorem lastStated_singleton {e : Handled} {sid : UInt16} (hsid : e.frame.sid = sid)
    (ht : e.frame.target = some t) : LastStated [e] sid e t :=
  ⟨[], [], rfl, hsid, ht, fun _ hx => absurd hx List.not_mem_nil⟩

/-- The two frames as they are logged, the second by a relay whose sub-session is `sess`. -/
def statedEntry (actions : List Action) : Handled :=
  ⟨0, ⟨7, statusNew, some sampleTarget, some [42]⟩, .default, actions⟩

def keptEntry (sess : UdpSession) (actions : List Action) : Handled :=
  ⟨1, ⟨7, statusKeep, none, some [43]⟩, sess, actions⟩

/-- A sub-session with one cascade session, to the target of the example. -/
def chainedSession : UdpSession :=
  ⟨none, AList.singleton sampleHost ⟨exitChain, endpointOf sampleTarget⟩⟩

set_option maxRecDepth 4000 in
theorem start_log_chained :
    (start unconnectedNet chainAll exitOnly none (blockedFrame ++ keepFrameBytes)).log =
      [statedEntry [.dial exitChain (endpointOf sampleTarget),
          .send (.cascade (endpointOf sampleTarget)) [42]],
        keptEntry chainedSession [.send (.cascade (endpointOf sampleTarget)) [43]]] := rfl

set_option maxRecDepth 4000 in
theorem start_log_local :
    (start unconnectedNet ⟨[], "freedom"⟩ .empty none (blockedFrame ++ keepFrameBytes)).log =
      [statedEntry [.bind false, .send (.socket (some sampleHost)) [42]],
        keptEntry ⟨some ⟨false⟩, ∅⟩ []] := rfl

/-- With one cascade session the datagram follows the one before it. -/
theorem untargeted_continues_chained :
    ∃ via, wayOf unconnectedNet chainAll exitOnly (statedEntry
        [.dial exitChain (endpointOf sampleTarget),
          .send (.cascade (endpointOf sampleTarget)) [42]]) sampleTarget = some via ∧
      (keptEntry chainedSession [.send (.cascade (endpointOf sampleTarget)) [43]]).datagrams =
        [(via, [43])] :=
  (untargeted_continues_iff unconnectedNet chainAll exitOnly (fun _ => rfl)
    (run_nil (start unconnectedNet chainAll exitOnly none (blockedFrame ++ keepFrameBytes)))
    (start_log_chained.trans (List.singleton_append (l := [_])).symm) rfl rfl rfl _ sampleTarget
    (lastStated_singleton rfl rfl)
    ⟨⟨sampleHost, ⟨exitChain, endpointOf sampleTarget⟩, rfl, rfl⟩, rfl⟩).mpr
    ⟨rfl, rfl⟩

/-- **A datagram after a local one is lost.**  The local socket is open and the target was
stated a frame ago; the next datagram without a target is not sent at all. -/
theorem untargeted_lost_local :
    ∃ e h, (start unconnectedNet ⟨[], "freedom"⟩ .empty none (blockedFrame ++ keepFrameBytes)).log =
        [e, h] ∧
      LastStated [e] h.frame.sid e sampleTarget ∧
      EgressOpen unconnectedNet ⟨[], "freedom"⟩ .empty h sampleTarget ∧
      h.frame.status = statusKeep ∧ h.frame.data = some [43] ∧ h.frame.target = none ∧
      h.datagrams = [] :=
  ⟨_, _, start_log_local, lastStated_singleton rfl rfl, Option.some_ne_none _, rfl, rfl, rfl, rfl⟩

/-! ## What becomes of a cascade session that has ended -/

/-- A frame is handled, or the session filed under an address ends: its downlink reaches the
end of the stream, or a write to it fails. -/
inductive CascadeEvent where
  | frame (f : Frame)
  | ends (sid : UInt16) (addr : SocketAddr)

/-- The relay, and the sessions that have ended but are still filed.  The relay itself has no
record of them: the receive task returns, and the result of a write is ignored. -/
structure Watched where
  relay : Relay
  dead : List (UInt16 × SocketAddr)

section Ended

variable (env : MuxEnv) (router : Router) (outbounds : Outbounds)

/-- One event.  Only a session that is filed can end, and only `End` unfiles one. -/
def watch (w : Watched) : CascadeEvent → Option Watched
  | .frame f =>
    if w.relay.ended.isSome then none
    else some ⟨dispatch env router outbounds w.relay f,
      if f.status = statusEnd then w.dead.filter fun d => d.1 ≠ f.sid else w.dead⟩
  | .ends sid addr =>
    if ((w.relay.session sid).chain.lookup addr).isSome then
      some ⟨w.relay, (sid, addr) :: w.dead⟩
    else none

/-- **What an event does.** -/
theorem watch_cases {w w' : Watched} {e : CascadeEvent}
    (h : watch env router outbounds w e = some w') :
    (∃ f, e = .frame f ∧ w'.relay = dispatch env router outbounds w.relay f ∧
      ∀ d ∈ w.dead, (f.status = statusEnd → f.sid ≠ d.1) → d ∈ w'.dead) ∨
    (∃ sid addr, e = .ends sid addr ∧ w'.relay = w.relay ∧ w'.dead = (sid, addr) :: w.dead) := by
  cases e with
  | frame f =>
    rw [watch] at h
    split at h
    · cases h
    · cases h
      refine Or.inl ⟨f, rfl, rfl, fun d hd hne => ?_⟩
      show d ∈ if f.status = statusEnd then w.dead.filter fun d => d.1 ≠ f.sid else w.dead
      split
      · next hend => exact List.mem_filter.mpr ⟨hd, decide_eq_true (hne hend).symm⟩
      · exact hd
  | ends sid addr =>
    rw [watch] at h
    split at h
    · cases h
      exact Or.inr ⟨sid, addr, rfl, rfl, rfl⟩
    · cases h

/-- The session under an address has ended and is still filed. -/
def Watched.Holds (w : Watched) (sid : UInt16) (addr : SocketAddr) (link : ChainLink) : Prop :=
  (sid, addr) ∈ w.dead ∧ (w.relay.session sid).chain.lookup addr = some link

/-- The event is not an `End` frame of the sub-session. -/
def CascadeEvent.Spares (sid : UInt16) (e : CascadeEvent) : Prop :=
  ∀ f, e = .frame f → f.status = statusEnd → f.sid ≠ sid

variable {link : ChainLink}

variable {env router outbounds} in
theorem Watched.Holds.watch {w w' : Watched} {sid : UInt16} (hw : w.Holds sid addr link)
    {e : CascadeEvent} (he : e.Spares sid) (h : watch env router outbounds w e = some w') :
    w'.Holds sid addr link := by
  obtain ⟨f, rfl, hrelay, hdead⟩ | ⟨sid', addr', rfl, hrelay, hdead⟩ :=
    watch_cases env router outbounds h
  · refine ⟨hdead _ hw.1 (he f rfl), ?_⟩
    rw [hrelay]
    exact keeps_dispatch env router outbounds w.relay f (he f rfl) addr link hw.2
  · rw [Watched.Holds, hrelay, hdead]
    exact ⟨List.mem_cons_of_mem _ hw.1, hw.2⟩

/-- **An ended session stays filed** until an `End` frame of its sub-session. -/
theorem holds_of_run {w u : Watched} {sid : UInt16}
    (hlink : (w.relay.session sid).chain.lookup addr = some link) {more : List CascadeEvent}
    (hrun : run (watch env router outbounds) w (.ends sid addr :: more) = some u)
    (hspares : ∀ e ∈ more, e.Spares sid) : u.Holds sid addr link := by
  obtain ⟨v, hends, hmore⟩ := run_cons_eq_some.mp hrun
  have hv : v.Holds sid addr link := by
    obtain ⟨f, hf, -⟩ | ⟨sid', addr', heq, hrelay, hdead⟩ := watch_cases env router outbounds hends
    · cases hf
    · cases heq
      rw [Watched.Holds, hrelay, hdead]
      exact ⟨List.mem_cons_self, hlink⟩
  refine run_history (fun es x => (∀ e ∈ es, e.Spares sid) → x.Holds sid addr link)
    (fun _ => hv) ?_ more hmore hspares
  intro es x e y ih hstep hall
  exact (ih fun e he => hall e (List.mem_append_left _ he)).watch (hall e (by simp)) hstep

/-- The entry's datagram was written to a session dialled for it. -/
def Handled.Fresh (h : Handled) (ep : Endpoint) (data : List UInt8) : Prop :=
  ep ∈ h.actions.filterMap Action.dialled ∧ h.datagrams = [(.cascade ep, data)]

variable {f : Frame} {data : List UInt8}

/-- When a datagram for a chained target is written to a fresh session, if dialling and
writing would succeed: its label has no session yet. -/
theorem fresh_entryOf_iff (s : Relay) (hserved : f.Served) (htarget : f.target = some t)
    (hdata : f.data = some data) {chain : ChainOutbound}
    (hchain : outbounds.get (router.route (endpointOf t)) = some chain)
    (hdial : env.dialUdp s.log.length chain (endpointOf t) = true)
    (hdelivers : env.delivers s.log.length (.cascade (endpointOf t)) = true) :
    (entryOf env router outbounds s f).Fresh (endpointOf t) data ↔
      ∃ a, (resolve env s.log.length t).1 = some a ∧
        (s.session f.sid).chain.lookup a = none := by
  have hone : [Action.dial chain (endpointOf t)].filterMap Action.dialled = [endpointOf t] := rfl
  have hnone : [Action.dial chain (endpointOf t)].filterMap Action.datagram = [] := rfl
  rw [Handled.Fresh, Handled.datagrams, actions_entryOf hserved htarget hdata hchain]
  rcases sendChained_cases env s.log.length (s.session f.sid) chain t data with
    ⟨hres, heq⟩ | ⟨a, link, hres, hlink, heq⟩ | ⟨a, hres, hlink, -, heq⟩ | ⟨a, -, -, hfail, -⟩
  · refine iff_of_false ?_ ?_
    · rw [heq, resolve_dialled]
      exact fun h => List.not_mem_nil h.1
    · rintro ⟨a, ha, -⟩
      rw [hres] at ha
      cases ha
  · refine iff_of_false ?_ ?_
    · rw [heq, List.filterMap_append, resolve_dialled, hand_dialled]
      exact fun h => List.not_mem_nil h.1
    · rintro ⟨b, hb, hfree⟩
      rw [hres] at hb
      cases hb
      rw [hlink] at hfree
      cases hfree
  · refine iff_of_true ⟨?_, ?_⟩ ⟨a, hres, hlink⟩
    · rw [heq, List.filterMap_append, List.filterMap_append, hone]
      simp
    · rw [heq, List.filterMap_append, List.filterMap_append, resolve_datagrams, hnone,
        hand_datagrams, if_pos hdelivers]
      rfl
  · rw [hdial] at hfail
    cases hfail

/-- **What becomes of an ended session.**  The session for the target `t` under the address
`addr` has ended, dialling again and writing to the new session would succeed, and a datagram
for `t` comes.  It is written to a freshly dialled session exactly if the label its target now
gets has no session in the sub-session; and until an `End` frame `addr` has one, the ended
one. -/
theorem fresh_dial_iff {w u v : Watched} {sid : UInt16} {addr : SocketAddr} {link : ChainLink}
    (hlink : (w.relay.session sid).chain.lookup addr = some link) {t : Addr}
    (hfor : link.endpoint = endpointOf t) {more : List CascadeEvent}
    (hrun : run (watch env router outbounds) w (.ends sid addr :: more) = some u) {f : Frame}
    (hnext : watch env router outbounds u (.frame f) = some v) (hsid : f.sid = sid)
    (hserved : f.Served) (htarget : f.target = some t) {data : List UInt8}
    (hdata : f.data = some data) {chain : ChainOutbound}
    (hchain : outbounds.get (router.route (endpointOf t)) = some chain)
    (hdial : env.dialUdp u.relay.log.length chain (endpointOf t) = true)
    (hdelivers : env.delivers u.relay.log.length (.cascade (endpointOf t)) = true) :
    (∃ h, v.relay.log = u.relay.log ++ [h] ∧ h.frame = f ∧
      (h.Fresh (endpointOf t) data ↔
        ∃ a, (resolve env u.relay.log.length t).1 = some a ∧
          (u.relay.session sid).chain.lookup a = none)) ∧
    ((∀ e ∈ more, e.Spares sid) → ∃ old, u.Holds sid addr old ∧ old.endpoint = endpointOf t) := by
  refine ⟨⟨entryOf env router outbounds u.relay f, ?_, rfl, ?_⟩, fun hspares => ?_⟩
  · obtain ⟨g, hg, hrelay, -⟩ | ⟨sid', addr', heq, -⟩ := watch_cases env router outbounds hnext
    · cases hg
      rw [hrelay, dispatch_log_of_known _ _ _ _ _ hserved.known]
    · cases heq
  · rw [← hsid]
    exact fresh_entryOf_iff env router outbounds u.relay hserved htarget hdata hchain hdial
      hdelivers
  · exact ⟨link, holds_of_run env router outbounds hlink hrun hspares, hfor⟩

end Ended

/-- `End` of the sub-session of the examples. -/
def endFrame : Frame := ⟨7, statusEnd, none, none⟩

/-- The relay after one datagram. -/
def oneSent : Watched :=
  ⟨replay silentNet chainAll exitOnly [addressFrame sampleAddr 1], []⟩

/-- After an `End` frame the target is dialled again. -/
theorem fresh_dial_after_end :
    ∃ u v h, run (watch silentNet chainAll exitOnly) oneSent
        [.ends 7 sampleAddr, .frame endFrame] = some u ∧
      watch silentNet chainAll exitOnly u (.frame (addressFrame sampleAddr 2)) = some v ∧
      v.relay.log = u.relay.log ++ [h] ∧ h.Fresh (endpointOf (.ip sampleAddr)) [2] := by
  have hlink : (oneSent.relay.session 7).chain.lookup sampleAddr =
      some ⟨exitChain, endpointOf (.ip sampleAddr)⟩ := rfl
  have hrun : run (watch silentNet chainAll exitOnly) oneSent
      [.ends 7 sampleAddr, .frame endFrame] = some _ := rfl
  have hchain : exitOnly.get (chainAll.route (endpointOf (.ip sampleAddr))) = some exitChain := rfl
  obtain ⟨⟨h, hlog, -, hfresh⟩, -⟩ := fresh_dial_iff silentNet chainAll exitOnly hlink rfl hrun
    (f := addressFrame sampleAddr 2) rfl rfl (Or.inl rfl) rfl rfl hchain rfl rfl
  exact ⟨_, _, h, hrun, rfl, hlog, hfresh.mpr ⟨sampleAddr, rfl, rfl⟩⟩

/-- **An ended session is written to.**  The session has ended and dialling would succeed; the
next datagram for its target dials nothing. -/
theorem ended_session_reused :
    ∃ v e h, run (watch silentNet chainAll exitOnly) ⟨idleRelay, []⟩
        [.frame (addressFrame sampleAddr 1), .ends 7 sampleAddr,
          .frame (addressFrame sampleAddr 2)] = some v ∧
      v.relay.log = [e, h] ∧ (7, sampleAddr) ∈ v.dead ∧
      silentNet.dialUdp 1 exitChain (endpointOf (.ip sampleAddr)) = true ∧
      silentNet.delivers 1 (.cascade (endpointOf (.ip sampleAddr))) = true ∧
      h.actions.filterMap Action.dialled = [] :=
  ⟨_, _, _, rfl, rfl, List.mem_cons_self, rfl, rfl, rfl⟩

end Mux
end HoldTheDonut
