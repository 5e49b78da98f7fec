import Bifrost.Events.RbcSpec
import Bifrost.Lib.TupleOrder

/-!
# The latest event of a request

`sort_by_event_status` and `extract_latest_event_status` of `rbclib/utils.py`.
The statuses of an inbound request are ordered by their numbers, those of an
outbound request by the if-chain of the source, which is the table
`outboundBranches` here. Its last row looks FAILED up and takes REQUESTED, so an
outbound request of which only FAILED is known raises (`latest_is_max_iff`).
-/

namespace Bifrost

open Bifrost.Lib

/-- The `(status.value, element)` tuples sorted; for equal values they compare the elements, by the
comparison of chainpy's base class. -/
def sortByEventStatus (order : Comparison RbcEvent) (arr : List RbcEvent) : List RbcEvent :=
  (order.sorted (arr.map fun element => (element.status.value, element))).map Prod.snd

/-- `sorted_list[status_list.index(status)]`. -/
def elementWith (sortedList : List RbcEvent) (status : ChainEventStatus) : RM RbcEvent :=
  Proc.ofOption .valueError
    ((index? (sortedList.map RbcEvent.status) status).bind fun i => sortedList[i]?)

/-- The branches for an outbound request: the status each looks for, and the one it takes. -/
def outboundBranches : List (ChainEventStatus × ChainEventStatus) :=
  [(.committed, .committed), (.rollbacked, .rollbacked), (.executed, .executed),
    (.reverted, .reverted), (.accepted, .accepted), (.rejected, .rejected),
    (.requested, .requested),
    -- `elif FAILED in status_list: return sorted_list[status_list.index(REQUESTED)]`
    (.failed, .requested)]

def extractLatestEventStatus (order : Comparison RbcEvent) (arr : List RbcEvent) : RM RbcEvent := do
  let sortedList := sortByEventStatus order arr
  let statusList := sortedList.map RbcEvent.status
  let first ← Proc.ofOption (.exception "list index out of range") sortedList.head?
  let inbound ← first.isInbound
  if inbound then
    Proc.ofOption (.exception "list index out of range") sortedList.getLast?
  else match outboundBranches.find? fun branch => branch.1 ∈ statusList with
    | some branch => elementWith sortedList branch.2
    | none => RM.raise "Invalid event status"

/-! ## The order of the protocol -/

inductive Direction where
  | inbound | outbound
  deriving DecidableEq, Repr

/-- The direction of a request follows from its source chain. -/
def RbcEvent.HasDirection (net : Network) : Direction → RbcEvent → Prop
  | .inbound, e => ∃ c, e.srcChain? net = some c ∧ c ≠ .bifrost
  | .outbound, e => e.srcChain? net = some .bifrost

def outboundRank : ChainEventStatus → Nat
  | .failed => 1
  | .requested => 2
  | .rejected => 3
  | .accepted => 4
  | .reverted => 5
  | .executed => 6
  | .rollbacked => 7
  | .committed => 8
  | _ => 0

/-- How far a request of the direction has come. -/
def Direction.rank : Direction → ChainEventStatus → Nat
  | .inbound => ChainEventStatus.value
  | .outbound => outboundRank

theorem Direction.rank_inj (d : Direction) {c c' : EventClass}
    (h : d.rank c.status = d.rank c'.status) : c = c' := by
  revert h
  cases d <;> cases c <;> cases c' <;> decide

section Latest

variable {order : Comparison RbcEvent} {arr : List RbcEvent} {env : Env} {s : RState}

theorem sortByEventStatus_perm (order : Comparison RbcEvent) (arr : List RbcEvent) :
    (sortByEventStatus order arr).Perm arr := by
  have hperm := (order.perm_sorted (arr.map fun e => (e.status.value, e))).map Prod.snd
  rwa [List.map_map, show (Prod.snd ∘ fun e : RbcEvent => (e.status.value, e)) = id from rfl,
    List.map_id] at hperm

theorem mem_sortByEventStatus (order : Comparison RbcEvent) {e : RbcEvent} :
    e ∈ sortByEventStatus order arr ↔ e ∈ arr :=
  (sortByEventStatus_perm order arr).mem_iff

/-- The sort puts an event of the greatest value last. -/
theorem getLast?_sortByEventStatus (order : Comparison RbcEvent) (hne : arr ≠ []) :
    ∃ m ∈ arr, (sortByEventStatus order arr).getLast? = some m ∧
      ∀ e ∈ arr, e.status.value ≤ m.status.value := by
  cases h : (order.sorted (arr.map fun e => (e.status.value, e))).getLast? with
  | none =>
    rw [order.getLast?_sorted_eq_none, List.map_eq_nil_iff] at h
    exact absurd h hne
  | some p =>
    obtain ⟨hp, hmax⟩ := order.getLast?_sorted h
    obtain ⟨m, hm, rfl⟩ := List.mem_map.mp hp
    refine ⟨m, hm, ?_, fun e he => hmax _ (List.mem_map_of_mem he)⟩
    rw [sortByEventStatus, List.getLast?_map, h]
    rfl

theorem elementWith_run (env : Env) (s : RState) {l : List RbcEvent} {status : ChainEventStatus}
    (h : status ∈ l.map RbcEvent.status) :
    ∃ m ∈ l, m.status = status ∧ elementWith l status env s = ⟨.ok m, s, []⟩ := by
  obtain ⟨i, hi⟩ := Option.isSome_iff_exists.mp (index?_isSome.mpr h)
  have hget := getElem?_of_index? hi
  rw [List.getElem?_map] at hget
  obtain ⟨m, hm, hst⟩ := Option.map_eq_some_iff.mp hget
  refine ⟨m, List.mem_of_getElem? hm, hst, ?_⟩
  unfold elementWith
  rw [hi, Option.bind_some, hm]
  rfl

theorem elementWith_absent {l : List RbcEvent} {status : ChainEventStatus}
    (h : status ∉ l.map RbcEvent.status) :
    elementWith l status env s = ⟨.error .valueError, s, []⟩ := by
  have hnone : index? (l.map RbcEvent.status) status = none := by
    rw [← Option.not_isSome_iff_eq_none, index?_isSome]
    exact h
  unfold elementWith
  rw [hnone]
  rfl

theorem head?_sortByEventStatus (order : Comparison RbcEvent) (hne : arr ≠ []) :
    ∃ a ∈ arr, (sortByEventStatus order arr).head? = some a := by
  cases h : sortByEventStatus order arr with
  | nil => exact absurd (List.perm_nil.mp (h ▸ (sortByEventStatus_perm order arr).symm)) hne
  | cons a l =>
    refine ⟨a, (mem_sortByEventStatus order).mp ?_, rfl⟩
    rw [h]
    exact List.mem_cons_self

/-- An inbound request: the event that the sort puts last. -/
theorem extract_inbound (hne : arr ≠ []) (hd : ∀ e ∈ arr, e.HasDirection env.cfg.network .inbound) :
    ∃ m ∈ arr, extractLatestEventStatus order arr env s = ⟨.ok m, s, []⟩ ∧
      ∀ e ∈ arr, e.status.value ≤ m.status.value := by
  obtain ⟨a, ha, hhead⟩ := head?_sortByEventStatus order hne
  obtain ⟨c, hc, hne'⟩ := hd a ha
  obtain ⟨m, hm, hlast, hmax⟩ := getLast?_sortByEventStatus order hne
  refine ⟨m, hm, ?_, hmax⟩
  unfold extractLatestEventStatus
  simp [hhead, RbcEvent.isInbound_run hc, hne', hlast]

/-! ## Outbound requests -/

theorem outboundBranches_pairwise :
    outboundBranches.Pairwise fun a b => outboundRank b.1 < outboundRank a.1 := by
  decide

/-- Every status of an event has its branch, and all but the one of FAILED take it. -/
theorem mem_outboundBranches (c : EventClass) :
    (c.status, if c = .failed then .requested else c.status) ∈ outboundBranches := by
  cases c <;> decide

theorem outboundBranch_taken {branch : ChainEventStatus × ChainEventStatus}
    (h : branch ∈ outboundBranches) :
    branch.2 = if branch.1 = .failed then .requested else branch.1 := by
  revert branch
  decide

/-- The branch of an outbound request is the one of its greatest status. -/
theorem extract_outbound_run (order : Comparison RbcEvent) (s : RState) (hne : arr ≠ [])
    (hd : ∀ e ∈ arr, e.HasDirection env.cfg.network .outbound) :
    ∃ m ∈ arr, (∀ e ∈ arr, outboundRank e.status ≤ outboundRank m.status) ∧
      extractLatestEventStatus order arr env s =
        elementWith (sortByEventStatus order arr)
          (if m.status = .failed then .requested else m.status) env s := by
  obtain ⟨a, ha, hhead⟩ := head?_sortByEventStatus order hne
  have hstatus : ∀ st, st ∈ (sortByEventStatus order arr).map RbcEvent.status ↔
      ∃ e ∈ arr, e.status = st := by
    intro st
    simp only [List.mem_map, mem_sortByEventStatus]
  rcases hfind : outboundBranches.find? fun branch =>
      branch.1 ∈ (sortByEventStatus order arr).map RbcEvent.status with - | branch
  · have := List.find?_eq_none.mp hfind _ (mem_outboundBranches a.cls)
    exact absurd (decide_eq_true ((hstatus _).mpr ⟨a, ha, rfl⟩)) this
  · have hmem := List.mem_of_find?_eq_some hfind
    have htest := List.find?_some hfind
    obtain ⟨m, hm, hst⟩ := (hstatus branch.1).mp (of_decide_eq_true htest)
    refine ⟨m, hm, fun e he => ?_, ?_⟩
    · rw [hst]
      exact find?_greatest outboundBranches_pairwise hfind _ (mem_outboundBranches e.cls)
        (decide_eq_true ((hstatus _).mpr ⟨e, he, rfl⟩))
    · rw [hst, ← outboundBranch_taken hmem]
      unfold extractLatestEventStatus
      simp [hhead, RbcEvent.isInbound_run (hd a ha), -List.mem_map, hfind]

/-- An outbound request of which some status other than FAILED is known. -/
theorem extract_outbound (hd : ∀ e ∈ arr, e.HasDirection env.cfg.network .outbound)
    (hknown : ∃ e ∈ arr, e.status ≠ .failed) :
    ∃ m ∈ arr, extractLatestEventStatus order arr env s = ⟨.ok m, s, []⟩ ∧
      ∀ e ∈ arr, outboundRank e.status ≤ outboundRank m.status := by
  obtain ⟨a, ha, hnot⟩ := hknown
  obtain ⟨m, hm, hmax, hrun⟩ := extract_outbound_run order s (List.ne_nil_of_mem ha) hd
  have hmf : m.status ≠ .failed := by
    intro heq
    have hle := hmax a ha
    have hlow : ∀ c : EventClass, c.status ≠ .failed →
        ¬ outboundRank c.status ≤ outboundRank .failed := by
      intro c
      cases c <;> decide
    rw [heq] at hle
    exact hlow a.cls hnot hle
  rw [if_neg hmf] at hrun
  obtain ⟨m', hm', hst, hrun'⟩ := elementWith_run env s
    (List.mem_map_of_mem ((mem_sortByEventStatus order).mpr hm))
  refine ⟨m', (mem_sortByEventStatus order).mp hm', hrun.trans hrun', fun e he => ?_⟩
  rw [hst]
  exact hmax e he

/-- An outbound request of which only FAILED is known. -/
theorem extract_outbound_failed (hne : arr ≠ [])
    (hd : ∀ e ∈ arr, e.HasDirection env.cfg.network .outbound)
    (hall : ∀ e ∈ arr, e.status = .failed) :
    extractLatestEventStatus order arr env s = ⟨.error .valueError, s, []⟩ := by
  obtain ⟨m, hm, -, hrun⟩ := extract_outbound_run order s hne hd
  rw [hrun, if_pos (hall m hm)]
  apply elementWith_absent
  intro hmem
  obtain ⟨e, he, hst⟩ := List.mem_map.mp hmem
  rw [hall e ((mem_sortByEventStatus order).mp he)] at hst
  cases hst

/-- What the selection returns is of the greatest status. -/
theorem extract_greatest {d : Direction} (hne : arr ≠ [])
    (hd : ∀ e ∈ arr, e.HasDirection env.cfg.network d) {m : RbcEvent} {s' : RState}
    {w : List Effect} (h : extractLatestEventStatus order arr env s = ⟨.ok m, s', w⟩) :
    m ∈ arr ∧ (∀ e ∈ arr, d.rank e.status ≤ d.rank m.status) ∧ s' = s ∧ w = [] := by
  have key : ∃ m ∈ arr, extractLatestEventStatus order arr env s = ⟨.ok m, s, []⟩ ∧
      ∀ e ∈ arr, d.rank e.status ≤ d.rank m.status := by
    cases d with
    | inbound => exact extract_inbound hne hd
    | outbound =>
      by_cases hall : ∀ e ∈ arr, e.status = .failed
      · rw [extract_outbound_failed hne hd hall] at h
        cases h
      · exact extract_outbound hd (by simpa using hall)
  obtain ⟨m', hm', hrun, hmax⟩ := key
  rw [hrun] at h
  cases h
  exact ⟨hm', hmax, rfl, rfl⟩

/-- **The latest status of a request.** The selection returns an event whose status is the
greatest of the list, except where the list has only FAILED events of an outbound request. -/
theorem latest_is_max_iff (order : Comparison RbcEvent) (s : RState) {d : Direction}
    (hne : arr ≠ []) (hd : ∀ e ∈ arr, e.HasDirection env.cfg.network d) :
    (∃ m ∈ arr, (extractLatestEventStatus order arr env s).val = .ok m ∧
      ∀ e ∈ arr, d.rank e.status ≤ d.rank m.status) ↔
      d = .inbound ∨ ∃ e ∈ arr, e.status ≠ .failed := by
  constructor
  · rintro ⟨m, -, hok, -⟩
    cases d with
    | inbound => exact .inl rfl
    | outbound =>
      right
      by_contra hall
      have hall' : ∀ e ∈ arr, e.status = .failed := by simpa using hall
      rw [extract_outbound_failed hne hd hall'] at hok
      cases hok
  · intro hcond
    cases d with
    | inbound =>
      obtain ⟨m, hm, hrun, hmax⟩ := extract_inbound hne hd
      exact ⟨m, hm, by rw [hrun], hmax⟩
    | outbound =>
      rcases hcond with hcond | hknown
      · cases hcond
      · obtain ⟨m, hm, hrun, hmax⟩ := extract_outbound hd hknown
        exact ⟨m, hm, by rw [hrun], hmax⟩

end Latest

/-! ## Two requests -/

namespace Sample

/-- Event objects compare by their time lock. -/
def order : Comparison RbcEvent where
  le := fun a b => a.timeLock ≤ b.timeLock
  total := fun a b => by simpa using le_total a.timeLock b.timeLock
  trans := fun a b c => by simpa using le_trans

theorem event_outbound (cls : EventClass) (dst : ChainEnum) :
    (event cls .bifrost dst).HasDirection .mainnet .outbound := by
  show ChainEnum.fromBytes .mainnet _ = _
  exact ChainEnum.fromBytes_formattedBytes .mainnet .bifrost

end Sample

/-- The only event of an outbound request is FAILED: the selection looks REQUESTED up and
raises. -/
theorem latest_of_failed_raises : ¬ ∀ (order : Comparison RbcEvent) (d : Direction)
    (arr : List RbcEvent) (env : Env) (s : RState), arr ≠ [] →
      (∀ e ∈ arr, e.HasDirection env.cfg.network d) →
      (∀ e ∈ arr, ∀ e' ∈ arr, e.requestId? env.cfg.network = e'.requestId? env.cfg.network) →
      ∃ m ∈ arr, (extractLatestEventStatus order arr env s).val = .ok m ∧
        ∀ e ∈ arr, d.rank e.status ≤ d.rank m.status := by
  intro hall
  have hd : ∀ e ∈ [Sample.event .failed .bifrost .ethereum],
      e.HasDirection (Sample.soleEnv .failed).cfg.network .outbound := by
    intro e he
    rw [List.mem_singleton.mp he]
    exact Sample.event_outbound .failed .ethereum
  obtain ⟨m, -, hok, -⟩ := hall Sample.order .outbound [Sample.event .failed .bifrost .ethereum]
    (Sample.soleEnv .failed) (Sample.state (Sample.msg .bifrost .ethereum .failed)) (by simp) hd
    (by simp)
  rw [extract_outbound_failed (by simp) hd (by simp [RbcEvent.status, Sample.event,
    EventClass.status])] at hok
  cases hok

/-- An outbound request that was accepted after its first status. -/
theorem latest_is_max_accepted :
    ∃ m ∈ [Sample.event .accepted .bifrost .ethereum, Sample.event .requested .bifrost .ethereum],
      (extractLatestEventStatus Sample.order
        [Sample.event .accepted .bifrost .ethereum, Sample.event .requested .bifrost .ethereum]
        (Sample.soleEnv .accepted) (Sample.state (Sample.msg .bifrost .ethereum .accepted))).val =
          .ok m ∧ ∀ e ∈ [Sample.event .accepted .bifrost .ethereum,
            Sample.event .requested .bifrost .ethereum],
              Direction.outbound.rank e.status ≤ Direction.outbound.rank m.status := by
  refine (latest_is_max_iff Sample.order _ (by simp) fun e he => ?_).mpr
    (.inr ⟨_, List.mem_cons_self, by decide⟩)
  rcases List.mem_pair.mp he with rfl | rfl
  · exact Sample.event_outbound .accepted .ethereum
  · exact Sample.event_outbound .requested .ethereum

end Bifrost
