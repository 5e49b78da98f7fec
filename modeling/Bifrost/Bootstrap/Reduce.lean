import Bifrost.Lib.Group
import Bifrost.Bootstrap.Latest

/-!
# Reduction to the latest events

`RbcEvent._remove_finalized_rids`. The events are grouped by the hex form of
their request ids, which are injective (`key_inj`), and of each group the
latest event stays unless it is final. `IsLatest` says in terms of the input
which events these are; a permutation of the input has the same ones, up to
events of one request and status (`reduction_exact`).
-/

namespace Bifrost

open Bifrost.Lib

namespace RbcEvent

/-- `req_id_concat_bytes`. -/
def reqIdConcatBytes (self : RbcEvent) : RM Bytes := do
  let (chain, rnd, seq) ← self.reqId
  let cfg ← RM.getConfig
  pure ((chain.formattedBytes cfg.network).val ++ toBE 16 rnd ++ toBE 16 seq)

/-- The loop that groups the events. -/
def groupByRid : List RbcEvent → Dict Str (List RbcEvent) → RM (Dict Str (List RbcEvent))
  | [], groups => pure groups
  | event :: events, groups => do
    let rid ← event.reqIdConcatBytes
    groupByRid events (Dict.push (hexOf rid) event groups)

def isFinalized (self : RbcEvent) : Bool := self.status ∈ [.committed, .rollbacked]

/-- The loop over the groups. -/
def latestNotFinalized (order : Comparison RbcEvent) : Dict Str (List RbcEvent) → RM (List RbcEvent)
  | [] => pure []
  | (_, events) :: groups => do
    let latest ← extractLatestEventStatus order events
    let rest ← latestNotFinalized order groups
    pure (if latest.isFinalized then rest else latest :: rest)

/-- `_remove_finalized_rids`. -/
def removeFinalizedRids (order : Comparison RbcEvent) (eventObjs : List RbcEvent) :
    RM (List RbcEvent) := do
  let groups ← groupByRid eventObjs []
  latestNotFinalized order groups

/-! ## Request ids -/

/-- The request id as the message has it. -/
def rid (self : RbcEvent) : RequestId :=
  ⟨self.msg.chain, self.msg.roundId.val, self.msg.sequence.val⟩

end RbcEvent

def RequestId.direction (net : Network) (rid : RequestId) : Direction :=
  if ChainEnum.fromBytes net rid.chain.val = some .bifrost then .outbound else .inbound

/-- The hex form of `req_id_concat_bytes`. -/
def RequestId.key (rid : RequestId) : Str :=
  hexOf (rid.chain.val ++ toBE 16 rid.rnd ++ toBE 16 rid.seq)

theorem RequestId.key_inj {rid rid' : RequestId} (hr : rid.rnd < 256 ^ 16)
    (hs : rid.seq < 256 ^ 16) (hr' : rid'.rnd < 256 ^ 16) (hs' : rid'.seq < 256 ^ 16)
    (h : rid.key = rid'.key) : rid = rid' := by
  have hbytes := hexOf_inj h
  have hpre : (rid.chain.val ++ toBE 16 rid.rnd).length =
      (rid'.chain.val ++ toBE 16 rid'.rnd).length := by
    simp [rid.chain.property, rid'.chain.property]
  obtain ⟨hpair, hseq⟩ := List.append_inj hbytes hpre
  obtain ⟨hchain, hrnd⟩ := List.append_inj hpair (by rw [rid.chain.property, rid'.chain.property])
  have hrnd' : rid.rnd = rid'.rnd := by
    rw [← ofBE_toBE hr, hrnd, ofBE_toBE hr']
  have hseq' : rid.seq = rid'.seq := by
    rw [← ofBE_toBE hs, hseq, ofBE_toBE hs']
  obtain ⟨chain, rnd, seq⟩ := rid
  obtain ⟨chain', rnd', seq'⟩ := rid'
  have hchain' : chain = chain' := Subtype.ext hchain
  subst hchain' hrnd' hseq'
  rfl

namespace RbcEvent

variable {env : Env} {s : RState}

theorem key_rid_inj {e e' : RbcEvent} : e.rid.key = e'.rid.key ↔ e.rid = e'.rid := by
  have hr : ∀ e : RbcEvent, e.rid.rnd < 256 ^ 16 := fun e =>
    lt_of_lt_of_le e.msg.roundId.isLt (by decide)
  have hs : ∀ e : RbcEvent, e.rid.seq < 256 ^ 16 := fun e =>
    lt_of_lt_of_le e.msg.sequence.isLt (by decide)
  exact ⟨RequestId.key_inj (hr e) (hs e) (hr e') (hs e'), fun h => by rw [h]⟩

theorem reqIdConcatBytes_run {e : RbcEvent} (h : (e.srcChain? env.cfg.network).isSome) :
    ∃ b, e.reqIdConcatBytes env s = ⟨.ok b, s, []⟩ ∧ hexOf b = e.rid.key := by
  obtain ⟨c, hc⟩ := Option.isSome_iff_exists.mp h
  have hchain : c.formattedBytes env.cfg.network = e.msg.chain :=
    ChainEnum.formattedBytes_of_fromBytes hc
  refine ⟨_, by simp [reqIdConcatBytes, reqId_run hc]; rfl, ?_⟩
  rw [hchain, ← List.append_assoc]
  rfl

theorem hasDirection_rid {e : RbcEvent} {net : Network} (h : (e.srcChain? net).isSome) :
    e.HasDirection net (e.rid.direction net) := by
  obtain ⟨c, hc⟩ := Option.isSome_iff_exists.mp h
  have hc' : ChainEnum.fromBytes net e.rid.chain.val = some c := hc
  unfold RequestId.direction
  rw [hc']
  by_cases hb : c = .bifrost
  · rw [if_pos (by rw [hb])]
    exact hc.trans (by rw [hb])
  · rw [if_neg (by simpa using hb)]
    exact ⟨c, hc, hb⟩

/-! ## The two loops -/

variable {order : Comparison RbcEvent} {events : List RbcEvent} {groups : Dict Str (List RbcEvent)}

/-- The events can be grouped if and only if their source chains are known. -/
theorem groupByRid_run (h : ∀ e ∈ events, (e.srcChain? env.cfg.network).isSome) :
    groupByRid events groups env s =
      ⟨.ok (events.foldl (fun d e => Dict.push e.rid.key e d) groups), s, []⟩ := by
  induction events generalizing groups with
  | nil => rfl
  | cons e events ih =>
    obtain ⟨b, hrun, hkey⟩ := reqIdConcatBytes_run (s := s) (h e List.mem_cons_self)
    simp [groupByRid, hrun, hkey, ih fun e' he' => h e' (List.mem_cons_of_mem e he')]

theorem groupByRid_ok {groups' : Dict Str (List RbcEvent)} {s' : RState} {w : List Effect}
    (h : groupByRid events groups env s = ⟨.ok groups', s', w⟩) :
    ∀ e ∈ events, (e.srcChain? env.cfg.network).isSome := by
  induction events generalizing groups s w with
  | nil =>
    intro e he
    cases he
  | cons e events ih =>
    obtain ⟨b, s₁, w₁, w₂, h₁, h₂, -⟩ := Proc.bind_ok h
    intro e' he'
    rcases List.mem_cons.mp he' with rfl | he'
    · cases hc : e'.srcChain? env.cfg.network with
      | none => simp [reqIdConcatBytes, reqId_error hc] at h₁
      | some c => rfl
    · exact ih h₂ e' he'

theorem latestNotFinalized_returns
    (h : ∀ p ∈ groups, ∃ m, extractLatestEventStatus order p.2 env s = ⟨.ok m, s, []⟩) :
    ∃ out, latestNotFinalized order groups env s = ⟨.ok out, s, []⟩ := by
  induction groups with
  | nil => exact ⟨[], rfl⟩
  | cons p groups ih =>
    obtain ⟨m, hm⟩ := h p List.mem_cons_self
    obtain ⟨rest, hrest⟩ := ih fun q hq => h q (List.mem_cons_of_mem p hq)
    exact ⟨_, by simp [latestNotFinalized, hm, hrest]; rfl⟩

/-- The groups of a loop that ran to its end have their latest events. -/
theorem latestNotFinalized_ok {out : List RbcEvent} {s' : RState} {w : List Effect}
    (hd : ∀ p ∈ groups, p.2 ≠ [] ∧ ∃ d, ∀ e ∈ p.2, e.HasDirection env.cfg.network d)
    (h : latestNotFinalized order groups env s = ⟨.ok out, s', w⟩) :
    ∃ ms, List.Forall₂ (fun p m => extractLatestEventStatus order p.2 env s = ⟨.ok m, s, []⟩)
      groups ms ∧ out = ms.filter (!·.isFinalized) ∧ s' = s ∧ w = [] := by
  induction groups generalizing out s' w with
  | nil =>
    obtain ⟨rfl, rfl, rfl⟩ := Proc.pure_ok h
    exact ⟨[], .nil, rfl, rfl, rfl⟩
  | cons p groups ih =>
    obtain ⟨m, s₁, w₁, w₂, h₁, h₂, rfl⟩ := Proc.bind_ok h
    obtain ⟨rest, s₂, w₃, w₄, h₃, h₄, rfl⟩ := Proc.bind_ok h₂
    obtain ⟨rfl, rfl, rfl⟩ := Proc.pure_ok h₄
    obtain ⟨hne, d, hdir⟩ := hd p List.mem_cons_self
    obtain ⟨-, -, rfl, rfl⟩ := extract_greatest hne hdir h₁
    obtain ⟨ms, hms, rfl, rfl, rfl⟩ := ih (fun q hq => hd q (List.mem_cons_of_mem p hq)) h₃
    refine ⟨m :: ms, .cons h₁ hms, ?_, rfl, rfl⟩
    cases hf : m.isFinalized <;> simp [hf]

/-! ## The events that stay -/

/-- No event of the same request has come further. -/
def IsLatest (net : Network) (events : List RbcEvent) (m : RbcEvent) : Prop :=
  m ∈ events ∧ ∀ e ∈ events, e.rid = m.rid →
    (m.rid.direction net).rank e.status ≤ (m.rid.direction net).rank m.status

/-- Every chain is known, and of every outbound request more than FAILED. -/
def Reducible (net : Network) (events : List RbcEvent) : Prop :=
  ∀ e ∈ events, (e.srcChain? net).isSome ∧
    (e.rid.direction net = .outbound → ∃ e' ∈ events, e'.rid = e.rid ∧ e'.status ≠ .failed)

/-- `out` has one event for each request of `events` that is not final, a latest one. -/
structure Reduction (net : Network) (events out : List RbcEvent) : Prop where
  nodup : (out.map rid).Nodup
  latest : ∀ m ∈ out, IsLatest net events m ∧ m.isFinalized = false
  complete : ∀ e ∈ events, (∀ e' ∈ events, e'.rid = e.rid → e'.isFinalized = false) →
    ∃ m ∈ out, m.rid = e.rid

/-- A final status is greater than every other one. -/
theorem isFinalized_of_rank_le (d : Direction) {e m : RbcEvent} (he : e.isFinalized)
    (hle : d.rank e.status ≤ d.rank m.status) : m.isFinalized := by
  have key : ∀ c c' : EventClass, c.status ∈ [ChainEventStatus.committed, .rollbacked] →
      d.rank c.status ≤ d.rank c'.status →
      c'.status ∈ [ChainEventStatus.committed, .rollbacked] := by
    intro c c'
    cases d <;> cases c <;> cases c' <;> decide
  unfold isFinalized at *
  exact decide_eq_true (key e.cls m.cls (of_decide_eq_true he) hle)

section Groups

variable (hknown : ∀ e ∈ events, (e.srcChain? env.cfg.network).isSome)
include hknown

/-- A group is the events of one request. -/
theorem mem_group {p : Str × List RbcEvent} (hp : p ∈ Dict.group (·.rid.key) events) :
    ∃ r : RequestId, p.1 = r.key ∧ p.2 ≠ [] ∧ (∀ e, e ∈ p.2 ↔ e ∈ events ∧ e.rid = r) ∧
      ∀ e ∈ p.2, e.HasDirection env.cfg.network (r.direction env.cfg.network) := by
  obtain ⟨hne, hmem⟩ := Dict.mem_of_mem_group hp
  obtain ⟨a, ha⟩ := List.exists_mem_of_ne_nil _ hne
  have hkey := ((hmem a).mp ha).2
  have hmem' : ∀ e, e ∈ p.2 ↔ e ∈ events ∧ e.rid = a.rid := by
    intro e
    rw [hmem, ← hkey, key_rid_inj]
  refine ⟨a.rid, hkey.symm, hne, hmem', fun e he => ?_⟩
  obtain ⟨he, hr⟩ := (hmem' e).mp he
  rw [← hr]
  exact hasDirection_rid (hknown e he)

/-- What is selected from a group is a latest event of its request. -/
theorem selected_of_groups {ms : List RbcEvent}
    (hms : List.Forall₂ (fun p m => extractLatestEventStatus order p.2 env s = ⟨.ok m, s, []⟩)
      (Dict.group (·.rid.key) events) ms) :
    List.Forall₂ (fun p m => IsLatest env.cfg.network events m ∧ p.1 = m.rid.key)
      (Dict.group (·.rid.key) events) ms := by
  refine ((List.forall₂_and_left _ ms).mpr ⟨fun p hp => hp, hms⟩).imp fun p m hpm => ?_
  obtain ⟨hp, hrun⟩ := hpm
  obtain ⟨r, hkey, hne, hmem, hdir⟩ := mem_group hknown hp
  obtain ⟨hm, hmax, -, -⟩ := extract_greatest hne hdir hrun
  obtain ⟨hm, rfl⟩ := (hmem m).mp hm
  exact ⟨⟨hm, fun e he hr => hmax e ((hmem e).mpr ⟨he, hr⟩)⟩, hkey⟩

theorem reduction_of_groups {ms : List RbcEvent}
    (hms : List.Forall₂ (fun p m => extractLatestEventStatus order p.2 env s = ⟨.ok m, s, []⟩)
      (Dict.group (·.rid.key) events) ms) :
    Reduction env.cfg.network events (ms.filter (!·.isFinalized)) := by
  have hsel := selected_of_groups hknown hms
  have hkeys : (Dict.group (·.rid.key) events).map Prod.fst = ms.map (·.rid.key) := by
    rw [← List.forall₂_eq_eq_eq, List.forall₂_map_left_iff, List.forall₂_map_right_iff]
    exact hsel.imp fun p m h => h.2
  have hlatest : ∀ m ∈ ms, IsLatest env.cfg.network events m :=
    ((List.forall₂_and_left ms _).mp hsel.flip).1
  refine ⟨?_, fun m hm => ?_, fun e he hopen => ?_⟩
  · have hnodup := Dict.nodup_group (fun e : RbcEvent => e.rid.key) events
    rw [hkeys] at hnodup
    have hrids : (ms.map rid).Nodup := by
      refine List.Nodup.of_map RequestId.key ?_
      rw [List.map_map]
      exact hnodup
    exact hrids.sublist (List.filter_sublist.map _)
  · obtain ⟨hm, hf⟩ := List.mem_filter.mp hm
    exact ⟨hlatest m hm, by simpa using hf⟩
  · obtain ⟨p, hp, hk⟩ := Dict.exists_mem_group (fun e : RbcEvent => e.rid.key) he
    have hmem := List.mem_map_of_mem (f := Prod.fst) hp
    rw [hkeys, hk] at hmem
    obtain ⟨m, hm, hkey⟩ := List.mem_map.mp hmem
    have hr := key_rid_inj.mp hkey
    refine ⟨m, List.mem_filter.mpr ⟨hm, ?_⟩, hr⟩
    rw [hopen m (hlatest m hm).1 hr]
    rfl

end Groups

theorem removeFinalizedRids_ok {out : List RbcEvent} {s' : RState} {w : List Effect}
    (h : removeFinalizedRids order events env s = ⟨.ok out, s', w⟩) :
    (∀ e ∈ events, (e.srcChain? env.cfg.network).isSome) ∧
      (∃ ms, List.Forall₂ (fun p m => extractLatestEventStatus order p.2 env s = ⟨.ok m, s, []⟩)
        (Dict.group (·.rid.key) events) ms ∧ out = ms.filter (!·.isFinalized)) ∧
      s' = s ∧ w = [] := by
  obtain ⟨groups, s₁, w₁, w₂, h₁, h₂, rfl⟩ := Proc.bind_ok h
  have hknown := groupByRid_ok h₁
  rw [groupByRid_run hknown] at h₁
  cases h₁
  obtain ⟨ms, hms, rfl, rfl, rfl⟩ := latestNotFinalized_ok (fun p hp => by
    obtain ⟨r, -, hne, -, hdir⟩ := mem_group hknown hp
    exact ⟨hne, _, hdir⟩) h₂
  exact ⟨hknown, ⟨ms, hms, rfl⟩, rfl, rfl⟩

/-- What the reduction returns. -/
theorem reduction_of_val {out : List RbcEvent}
    (h : (removeFinalizedRids order events env s).val = .ok out) :
    Reduction env.cfg.network events out := by
  rcases hrun : removeFinalizedRids order events env s with ⟨v, s', w⟩
  rw [hrun] at h
  obtain rfl : v = .ok out := h
  obtain ⟨hknown, ⟨ms, hms, rfl⟩, -, -⟩ := removeFinalizedRids_ok hrun
  exact reduction_of_groups hknown hms

/-- Each group of a reducible input has its latest event. -/
theorem extract_returns (hred : Reducible env.cfg.network events) (order : Comparison RbcEvent)
    (s : RState) {p : Str × List RbcEvent} (hp : p ∈ Dict.group (·.rid.key) events) :
    ∃ m, extractLatestEventStatus order p.2 env s = ⟨.ok m, s, []⟩ := by
  obtain ⟨r, -, hne, hmem, hdir⟩ := mem_group (fun e he => (hred e he).1) hp
  cases hd : r.direction env.cfg.network with
  | inbound =>
    rw [hd] at hdir
    obtain ⟨m, -, hm, -⟩ := extract_inbound hne hdir
    exact ⟨m, hm⟩
  | outbound =>
    obtain ⟨a, ha⟩ := List.exists_mem_of_ne_nil _ hne
    obtain ⟨he, rfl⟩ := (hmem a).mp ha
    obtain ⟨e', he', hr', hst⟩ := (hred a he).2 hd
    rw [hd] at hdir
    obtain ⟨m, -, hm, -⟩ := extract_outbound hdir ⟨e', (hmem e').mpr ⟨he', hr'⟩, hst⟩
    exact ⟨m, hm⟩

/-- The reduction returns if and only if its input is reducible. -/
theorem removeFinalizedRids_returns_iff (order : Comparison RbcEvent) (s : RState) :
    (∃ out, (removeFinalizedRids order events env s).val = .ok out) ↔
      Reducible env.cfg.network events := by
  constructor
  · rintro ⟨out, hok⟩
    rcases hrun : removeFinalizedRids order events env s with ⟨v, s', w⟩
    rw [hrun] at hok
    obtain rfl : v = .ok out := hok
    obtain ⟨hknown, ⟨ms, hms, -⟩, -, -⟩ := removeFinalizedRids_ok hrun
    obtain ⟨hextract, -⟩ : (∀ p ∈ Dict.group (·.rid.key) events,
        ∃ m, extractLatestEventStatus order p.2 env s = ⟨.ok m, s, []⟩) ∧
          List.Forall₂ (fun _ _ => True) _ ms :=
      (List.forall₂_and_left _ ms).mp (hms.imp fun p m h => ⟨⟨m, h⟩, trivial⟩)
    refine fun e he => ⟨hknown e he, fun hout => ?_⟩
    by_contra hfailed
    obtain ⟨p, hp, hk⟩ := Dict.exists_mem_group (fun e : RbcEvent => e.rid.key) he
    obtain ⟨r, hkey, hne, hmem, hdir⟩ := mem_group hknown hp
    obtain rfl : e.rid = r := by
      obtain ⟨a, ha⟩ := List.exists_mem_of_ne_nil _ hne
      rw [← ((hmem a).mp ha).2] at hkey ⊢
      exact key_rid_inj.mp (hk.symm.trans hkey)
    rw [hout] at hdir
    have hall : ∀ a ∈ p.2, a.status = .failed := by
      intro a ha
      by_contra hst
      exact hfailed ⟨a, ((hmem a).mp ha).1, ((hmem a).mp ha).2, hst⟩
    obtain ⟨m, hm⟩ := hextract p hp
    rw [extract_outbound_failed hne hdir hall] at hm
    cases hm
  · intro hred
    have hknown : ∀ e ∈ events, (e.srcChain? env.cfg.network).isSome := fun e he => (hred e he).1
    obtain ⟨out, hout⟩ := latestNotFinalized_returns fun p hp => extract_returns hred order s hp
    refine ⟨out, ?_⟩
    unfold removeFinalizedRids
    rw [Proc.bind_run, groupByRid_run hknown, Res.andThen_ok]
    show (Res.after [] (latestNotFinalized order (Dict.group (·.rid.key) events) env s)).val = _
    rw [hout]
    rfl

/-! ## What the output says about the input -/

theorem IsLatest.of_perm {net : Network} {events' : List RbcEvent} {m : RbcEvent}
    (h : IsLatest net events m) (hperm : events.Perm events') : IsLatest net events' m :=
  ⟨hperm.mem_iff.mp h.1, fun e he => h.2 e (hperm.mem_iff.mpr he)⟩

theorem Reducible.of_perm {net : Network} {events' : List RbcEvent}
    (h : Reducible net events) (hperm : events.Perm events') : Reducible net events' := by
  intro e he
  obtain ⟨hknown, hst⟩ := h e (hperm.mem_iff.mpr he)
  refine ⟨hknown, fun hout => ?_⟩
  obtain ⟨e', he', hr⟩ := hst hout
  exact ⟨e', hperm.mem_iff.mp he', hr⟩

namespace Reduction

variable {net : Network} {out : List RbcEvent}

/-- A request without a final event has one event in the output. -/
theorem filter_of_open (h : Reduction net events out) {e : RbcEvent} (he : e ∈ events)
    (hopen : ∀ e' ∈ events, e'.rid = e.rid → e'.isFinalized = false) :
    ∃ m ∈ events, m.rid = e.rid ∧ out.filter (·.rid = e.rid) = [m] := by
  obtain ⟨m, hm, hr⟩ := h.complete e he hopen
  refine ⟨m, (h.latest m hm).1.1, hr, ?_⟩
  rw [← hr]
  exact filter_of_nodup_map h.nodup hm

/-- A request with a final event has none. -/
theorem filter_of_finalized (h : Reduction net events out) {e : RbcEvent} (he : e ∈ events)
    (hf : e.isFinalized) : out.filter (·.rid = e.rid) = [] := by
  rw [List.filter_eq_nil_iff]
  intro m hm hr
  obtain ⟨⟨-, hmax⟩, hopen⟩ := h.latest m hm
  have hle := hmax e he (of_decide_eq_true hr).symm
  rw [isFinalized_of_rank_le _ hf hle] at hopen
  cases hopen

/-- The requests and statuses of the output, in terms of the input. -/
theorem mem_pair_iff (h : Reduction net events out) {r : RequestId} {st : ChainEventStatus} :
    (∃ m ∈ out, m.rid = r ∧ m.status = st) ↔
      ∃ m, IsLatest net events m ∧ m.isFinalized = false ∧ m.rid = r ∧ m.status = st := by
  constructor
  · rintro ⟨m, hm, hpair⟩
    obtain ⟨hlatest, hopen⟩ := h.latest m hm
    exact ⟨m, hlatest, hopen, hpair⟩
  · rintro ⟨m, hlatest, hopen, rfl, rfl⟩
    obtain ⟨m', hm', hr⟩ := h.complete m hlatest.1 fun e he hr => by
      by_contra hf
      have hf' := isFinalized_of_rank_le _ (by simpa using hf) (hlatest.2 e he hr)
      rw [hopen] at hf'
      cases hf'
    obtain ⟨⟨hmem', hmax'⟩, -⟩ := h.latest m' hm'
    have hle := hmax' m hlatest.1 hr.symm
    have hle' := hlatest.2 m' hmem' hr
    rw [hr] at hle
    have hcls := Direction.rank_inj _ (le_antisymm hle hle')
    exact ⟨m', hm', hr, congrArg EventClass.status hcls.symm⟩

end Reduction

/-- **Bootstrap reduction.** A request without a final event is left with one of its events, one
with a final event with none; there is nothing else, and the order of the input does not matter. -/
theorem reduction_exact (order : Comparison RbcEvent) (s : RState) {out : List RbcEvent}
    (h : (removeFinalizedRids order events env s).val = .ok out) :
    (∀ e ∈ events, (∀ e' ∈ events, e'.rid = e.rid → e'.isFinalized = false) →
      ∃ m ∈ events, m.rid = e.rid ∧ out.filter (·.rid = e.rid) = [m]) ∧
    (∀ e ∈ events, e.isFinalized → out.filter (·.rid = e.rid) = []) ∧
    (∀ m ∈ out, m ∈ events) ∧
    ∀ events', events.Perm events' →
      ∃ out', (removeFinalizedRids order events' env s).val = .ok out' ∧
        ∀ r st, (∃ m ∈ out, m.rid = r ∧ m.status = st) ↔ ∃ m ∈ out', m.rid = r ∧ m.status = st := by
  have hred := reduction_of_val h
  refine ⟨fun e he => hred.filter_of_open he, fun e he => hred.filter_of_finalized he,
    fun m hm => (hred.latest m hm).1.1, fun events' hperm => ?_⟩
  have hable := (removeFinalizedRids_returns_iff order s).mp ⟨out, h⟩
  obtain ⟨out', h'⟩ := (removeFinalizedRids_returns_iff order s).mpr (hable.of_perm hperm)
  refine ⟨out', h', fun r st => ?_⟩
  rw [hred.mem_pair_iff, (reduction_of_val h').mem_pair_iff]
  constructor
  · rintro ⟨m, hm, hpair⟩
    exact ⟨m, hm.of_perm hperm, hpair⟩
  · rintro ⟨m, hm, hpair⟩
    exact ⟨m, hm.of_perm hperm.symm, hpair⟩

theorem reduction_exact_accepted : ∃ out,
    (removeFinalizedRids Sample.order [Sample.event .accepted .ethereum .bifrost,
      Sample.event .requested .ethereum .bifrost] (Sample.soleEnv .accepted)
      (Sample.state (Sample.msg .ethereum .bifrost .accepted))).val = .ok out ∧
    ∃ m, out.filter (·.rid = (Sample.event .accepted .ethereum .bifrost).rid) = [m] := by
  have hred : Reducible (Sample.soleEnv .accepted).cfg.network
      [Sample.event .accepted .ethereum .bifrost, Sample.event .requested .ethereum .bifrost] := by
    intro e he
    rcases List.mem_pair.mp he with rfl | rfl <;> exact ⟨by decide +kernel, by decide +kernel⟩
  obtain ⟨out, hout⟩ := (removeFinalizedRids_returns_iff Sample.order
    (Sample.state (Sample.msg .ethereum .bifrost .accepted))).mpr hred
  obtain ⟨hopen, -⟩ := reduction_exact Sample.order _ hout
  obtain ⟨m, -, -, hm⟩ := hopen _ List.mem_cons_self (by decide +kernel)
  exact ⟨out, hout, m, hm⟩

end RbcEvent

end Bifrost
