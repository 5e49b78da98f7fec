import Bifrost.Events.RoundUp

/-!
# The primary relayer of a RoundUp event

`RoundUpEvent.is_primary_relayer` takes both the modulus and the index from the
relayers of the round before the event's. `PreviousSet` is that set with a
process for each relayer; every answer of the chain may list the relayers in an
order and letter case of its own. The rank of a relayer depends on none of it,
so one and the same relayer is the primary one whenever each of them asks. A
fast relayer does not ask: it is always a primary one (`exists_primary`).
-/

namespace Bifrost

open Bifrost.Lib

/-- The relayers of the round before the event's, and a process for each of them. -/
structure PreviousSet (e : RoundUpEvent) where
  addrs : List Address
  env : Address → Env
  addrs_ne : addrs ≠ []
  nodup : addrs.Nodup
  answer : ∀ a t, ((((env a).view t).previousSelectedRelayers .bifrost (e.round - 1) true).map
    lower).Perm (addrs.map Address.hex)
  env_account : ∀ a, (env a).account.address = a
  env_up : ∀ a t, (env a).down t = false

/-- A run of `is_primary_relayer` in a process that is not a fast relayer's. -/
theorem RoundUpEvent.isPrimaryRelayer_run {e : RoundUpEvent} {env : Env} {s : RState}
    {addrs : List Address} (hrole : env.cfg.isFastRelayer = false) (hup : env.down s.now = false)
    (hne : addrs ≠ []) (hans : (((env.view s.now).previousSelectedRelayers .bifrost
      (e.round - 1) true).map lower).Perm (addrs.map Address.hex)) :
    e.isPrimaryRelayer env s =
      ⟨.ok (decide (some (e.blockNumber % addrs.length) = (s.cache (e.round - 1)).join)), s.tick,
        [.called .bifrost "previous_selected_relayers"]⟩ := by
  have hlist : RM.fetchSortedRelayerListLower .bifrost (some ((e.round : Int) - 1)) true env s =
      ⟨.ok ((sorted addrs).map Address.hex), s.tick,
        [.called .bifrost "previous_selected_relayers"]⟩ := by
    rw [fetchSortedRelayerListLower_run, read_up hup]
    simp only [View.relayers, sortedLower_eq hans]
    rfl
  have hlen : (sorted addrs).length ≠ 0 := by
    rw [length_sorted]
    exact fun h => hne (List.length_eq_zero_iff.mp h)
  unfold RoundUpEvent.isPrimaryRelayer
  rw [Proc.bind_run, getConfig_run, Res.andThen_ok, Res.after_nil, if_neg (by simp [hrole]),
    Proc.bind_run, hlist, Res.andThen_ok, mapM_ofHex?_hex, Proc.ofOption_some, Proc.bind_run,
    Proc.pure_run, Res.andThen_ok, Res.after_nil, if_neg hlen, Proc.bind_run, getValueByKey_run,
    length_sorted]
  rfl

theorem RoundUpEvent.isPrimaryRelayer_fast {e : RoundUpEvent} {env : Env} {s : RState}
    (hrole : env.cfg.isFastRelayer = true) : e.isPrimaryRelayer env s = ⟨.ok true, s, []⟩ := by
  unfold RoundUpEvent.isPrimaryRelayer
  rw [Proc.bind_run, getConfig_run, Res.andThen_ok, Res.after_nil, if_pos hrole]
  rfl

namespace PreviousSet

variable {e : RoundUpEvent} (P : PreviousSet e)

/-- The cache of `a`'s process holds under the previous round what `fetch_relayer_index` gave. -/
def HoldsIndex (a : Address) (s : RState) : Prop :=
  ∃ s₀ i, (RM.fetchRelayerIndex .bifrost (some ((e.round : Int) - 1)) none (P.env a) s₀).val =
    .ok i ∧ s.cache (e.round - 1) = some i

/-- Any two answers of the chain give a relayer one rank. -/
theorem rank_congr (a a₁ a₂ : Address) (t₁ t₂ : Nat) :
    rank (((P.env a₁).view t₁).previousSelectedRelayers .bifrost (e.round - 1) true) a =
      rank (((P.env a₂).view t₂).previousSelectedRelayers .bifrost (e.round - 1) true) a := by
  rw [rank, rank, sortedLower_eq (P.answer a₁ t₁), sortedLower_eq (P.answer a₂ t₂)]

/-- What the cache holds is the relayer's rank in any answer. -/
theorem HoldsIndex.cache {a : Address} {s : RState} (h : P.HoldsIndex a s) (a₁ : Address)
    (t : Nat) : s.cache (e.round - 1) = some
      (rank (((P.env a₁).view t).previousSelectedRelayers .bifrost (e.round - 1) true) a) := by
  obtain ⟨s₀, i, hi, hs⟩ := h
  rw [fetchRelayerIndex_run, read_up (P.env_up a s₀.now)] at hi
  rw [hs, ← Except.ok.inj hi, P.rank_congr a a₁ a t s₀.now, Option.getD_none, P.env_account]
  rfl

/-- A state whose cache holds the relayer's rank. -/
theorem exists_holdsIndex (a : Address) : ∃ s, P.HoldsIndex a s := by
  refine ⟨{ Sample.state Sample.outbound.msg with
      cache := fun _ =>
        some (rank (((P.env a).view 0).previousSelectedRelayers .bifrost (e.round - 1) true) a) },
    Sample.state Sample.outbound.msg, _, ?_, rfl⟩
  rw [fetchRelayerIndex_run, read_up (P.env_up a _), Option.getD_none, P.env_account]
  rfl

/-- **Unique primary.** One relayer of the set gets True and every other one False, whenever each
of them asks, but for the fast relayers, which always get True. -/
theorem exists_primary : ∃ p ∈ P.addrs, ∀ a ∈ P.addrs, ∀ s, P.HoldsIndex a s →
    (e.isPrimaryRelayer (P.env a) s).val =
      .ok (decide (a = p ∨ (P.env a).cfg.isFastRelayer = true)) := by
  have hlt : e.blockNumber % P.addrs.length < P.addrs.length :=
    Nat.mod_lt _ (List.length_pos_iff.mpr P.addrs_ne)
  -- the primary one is the relayer whose rank is the block number modulo the size
  obtain ⟨a₀, -⟩ := List.exists_mem_of_ne_nil _ P.addrs_ne
  obtain ⟨p, hp, hrank⟩ := exists_rank P.nodup (P.answer a₀ 0) hlt
  refine ⟨p, hp, fun a _ s hs => ?_⟩
  cases hrole : (P.env a).cfg.isFastRelayer with
  | true =>
    rw [RoundUpEvent.isPrimaryRelayer_fast hrole]
    simp
  | false =>
    rw [RoundUpEvent.isPrimaryRelayer_run hrole (P.env_up a s.now) P.addrs_ne (P.answer a s.now)]
    show Except.ok _ = Except.ok _
    congr 1
    rw [decide_eq_decide, HoldsIndex.cache P hs a₀ 0, Option.join_some]
    constructor
    · intro h
      exact .inl (rank_inj h.symm hrank)
    · rintro (rfl | hfast)
      · exact hrank.symm
      · cases hfast

end PreviousSet

/-! ## Two fast relayers -/

/-- The event of a completed change to round 2. -/
def Sample.roundTwo : RoundUpEvent where
  statusData := ChainEventStatus.nextAuthorityCommitted.value
  round := 2
  validatorList := [(Sample.address 3).hex, (Sample.address 4).hex]
  sigs := ⟨[], [], []⟩
  blockNumber := 0
  timeLock := 0
  mode := .send
  updatingChains := [.ethereum]
  selectedChain := .none
  aggregated := true

/-- The relayers of every round are two, and both are fast relayers. -/
def Sample.fastSet (e : RoundUpEvent) : PreviousSet e where
  addrs := [Sample.address 3, Sample.address 4]
  env := fun a =>
    { Sample.env fun _ =>
        Sample.view [(Sample.address 3).hex, (Sample.address 4).hex] .accepted with
      account := { Sample.account with address := a }
      cfg := { Sample.cfg with relayerRole := .fastRelayer } }
  addrs_ne := by simp
  nodup := by decide +kernel
  answer := by
    intro a t
    show ([(Sample.address 3).hex, (Sample.address 4).hex].map lower).Perm _
    simp
  env_account := fun a => rfl
  env_up := fun a t => rfl

/-- Both get True. -/
theorem not_unique_previous : ¬ ∀ (e : RoundUpEvent) (P : PreviousSet e), ∃ p ∈ P.addrs,
    ∀ a ∈ P.addrs, ∀ s, P.HoldsIndex a s →
      (e.isPrimaryRelayer (P.env a) s).val = .ok (decide (a = p)) := by
  intro hall
  obtain ⟨p, -, hp⟩ := hall Sample.roundTwo (Sample.fastSet _)
  have hboth : ∀ a ∈ (Sample.fastSet Sample.roundTwo).addrs, a = p := by
    intro a ha
    obtain ⟨s, hs⟩ := (Sample.fastSet Sample.roundTwo).exists_holdsIndex a
    have hval := hp a ha s hs
    rw [RoundUpEvent.isPrimaryRelayer_fast rfl] at hval
    simpa using hval.symm
  have hne : Sample.address 3 ≠ Sample.address 4 := by decide
  exact hne ((hboth _ List.mem_cons_self).trans (hboth _ (by simp [Sample.fastSet])).symm)

end Bifrost
