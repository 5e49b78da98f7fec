import Bifrost.Events.RbcSpec

/-!
# The primary relayer of a Socket event

`is_primary_relayer` takes the block number modulo the size of the current
relayer set and compares it with the relayer's index in the set of the event's
round. `RelayerSet` is the set of one round together with a process for each of
its relayers; all processes see one history of the chain, each at its own times.
-/

namespace Bifrost

open Bifrost.Lib

/-- The relayers of the event's round, in any order and any letter case, their processes, and
the history of the chain. -/
structure RelayerSet (e : RbcEvent) where
  addrs : List Address
  answer : List Str
  view : Nat → View
  env : Address → Env
  addrs_ne : addrs ≠ []
  nodup : addrs.Nodup
  answer_lower : answer.map lower = addrs.map Address.hex
  round : ∀ t, (view t).previousSelectedRelayers .bifrost e.msg.roundId.val true = answer
  env_account : ∀ a, (env a).account.address = a
  env_view : ∀ a, (env a).view = view
  env_up : ∀ a t, (env a).down t = false
  env_role : ∀ a, (env a).cfg.isFastRelayer = false
  env_src : ∀ a, (e.srcChain? (env a).cfg.network).isSome

namespace RelayerSet

variable {e : RbcEvent} (R : RelayerSet e)

/-- The size of the relayer set that the chain reports at the `t`-th read. -/
def size (t : Nat) : Nat := ((R.view t).selectedRelayers .bifrost true).length

/-- The cache of `a`'s process holds under the event's round what `fetch_relayer_index` gave. -/
def HoldsIndex (a : Address) (s : RState) : Prop :=
  ∃ s₀ i, (RM.fetchRelayerIndex .bifrost (some e.msg.roundId.val) none (R.env a) s₀).val = .ok i ∧
    s.cache e.msg.roundId.val = some i

/-- The states in which the relayers evaluate the event, at times of their own. -/
def Evaluating (block : Nat) (st : Address → RState) : Prop :=
  ∀ a ∈ R.addrs, R.HoldsIndex a (st a) ∧ ((st a).heap e.detectedEvent).blockNumber = block

/-- `is_primary_relayer` is True for the relayer. -/
def IsPrimary (a : Address) (s : RState) : Prop := (e.isPrimaryRelayer (R.env a) s).val = .ok true

theorem answer_perm : (R.answer.map lower).Perm (R.addrs.map Address.hex) := by
  rw [R.answer_lower]

theorem fetchRelayerIndex_val (a : Address) (s : RState) :
    (RM.fetchRelayerIndex .bifrost (some e.msg.roundId.val) none (R.env a) s).val =
      .ok (rank R.answer a) := by
  rw [fetchRelayerIndex_run, read_up (R.env_up a s.now), R.env_view, R.env_account]
  show Except.ok (rank ((R.view s.now).previousSelectedRelayers .bifrost
    e.msg.roundId.val true) a) = _
  rw [R.round]

/-- What the cache holds is the rank. -/
theorem HoldsIndex.cache {a : Address} {s : RState} (h : R.HoldsIndex a s) :
    s.cache e.msg.roundId.val = some (rank R.answer a) := by
  obtain ⟨s₀, i, hi, hs⟩ := h
  rw [R.fetchRelayerIndex_val] at hi
  rw [hs, ← Except.ok.inj hi]

/-- The relayer is the primary one when its rank is the block number modulo the current size. -/
theorem isPrimary_iff {a : Address} {s : RState} {block : Nat} (hi : R.HoldsIndex a s)
    (hb : (s.heap e.detectedEvent).blockNumber = block) :
    R.IsPrimary a s ↔ R.size s.now ≠ 0 ∧ rank R.answer a = some (block % R.size s.now) := by
  obtain ⟨c, hc⟩ := Option.isSome_iff_exists.mp (R.env_src a)
  have hcache := HoldsIndex.cache R hi
  have hnum : RM.fetchRelayerNum .bifrost true (R.env a) s =
      ⟨.ok (R.size s.now), s.tick, [.called .bifrost "selected_relayers"]⟩ := by
    rw [fetchRelayerNum_run, read_up (R.env_up a s.now), R.env_view]
    rfl
  unfold IsPrimary RbcEvent.isPrimaryRelayer
  simp only [Proc.bind_run, getConfig_run, Res.andThen_ok, Res.after_nil, R.env_role, hnum,
    RM.detectedEvent_run, RState.tick_heap, hb, Bool.false_eq_true, if_false]
  by_cases hz : R.size s.now = 0
  · simp [hz]
  · simp only [hz, if_false, Proc.bind_run, RbcEvent.rnd_run hc, Res.andThen_ok, getValueByKey_run,
      RState.tick_cache, hcache, Proc.pure_run, Res.after_mk, Option.join_some, ne_eq,
      not_false_eq_true, true_and, Except.ok.injEq, decide_eq_true_eq]
    exact eq_comm

/-- The states of relayers that ask at the times `τ`. -/
def asking (block : Nat) (τ : Address → Nat) (a : Address) : RState where
  cache := fun _ => some (rank R.answer a)
  heap := fun _ => .ofMsg e.msg block
  currentRound := 0
  roundCache := none
  now := τ a

theorem evaluating_asking (block : Nat) (τ : Address → Nat) :
    R.Evaluating block (R.asking block τ) :=
  fun a _ => ⟨⟨R.asking block τ a, _, R.fetchRelayerIndex_val a _, rfl⟩, rfl⟩

theorem isPrimary_asking {block : Nat} {τ : Address → Nat} {a : Address} (ha : a ∈ R.addrs) :
    R.IsPrimary a (R.asking block τ a) ↔
      R.size (τ a) ≠ 0 ∧ rank R.answer a = some (block % R.size (τ a)) :=
  R.isPrimary_iff (R.evaluating_asking block τ a ha).1 rfl

/-- **Unique primary.** Exactly one relayer of the set is the primary one, whenever each of
them asks, if and only if the block number leaves the same remainder, an index of the set,
modulo every size that the chain reports. -/
theorem unique_primary_iff (block : Nat) :
    (∀ st, R.Evaluating block st → ∃! a, a ∈ R.addrs ∧ R.IsPrimary a (st a)) ↔
      ∃ i < R.addrs.length, ∀ t, R.size t ≠ 0 ∧ block % R.size t = i := by
  constructor
  · intro h
    -- when all ask at one time, the remainder at that time is the rank of the primary relayer
    have hat : ∀ t, ∃ a ∈ R.addrs, R.size t ≠ 0 ∧
        rank R.answer a = some (block % R.size t) := by
      intro t
      obtain ⟨a, ⟨ha, hp⟩, -⟩ := h _ (R.evaluating_asking block fun _ => t)
      exact ⟨a, ha, (R.isPrimary_asking ha).mp hp⟩
    obtain ⟨a₀, ha₀, hz₀, hr₀⟩ := hat 0
    refine ⟨_, rank_lt R.answer_perm hr₀, fun t => ?_⟩
    obtain ⟨a, ha, hz, hr⟩ := hat t
    by_cases heq : a = a₀
    · rw [heq, hr₀] at hr
      exact ⟨hz, (Option.some.inj hr).symm⟩
    · -- two relayers would be primary, each at its own time
      let τ : Address → Nat := Function.update (fun _ => 0) a t
      have hτ : τ a = t := Function.update_self ..
      have hτ₀ : τ a₀ = 0 := Function.update_of_ne (Ne.symm heq) ..
      have huniq := h _ (R.evaluating_asking block τ)
      have hp : R.IsPrimary a (R.asking block τ a) :=
        (R.isPrimary_asking ha).mpr (by rw [hτ]; exact ⟨hz, hr⟩)
      have hp₀ : R.IsPrimary a₀ (R.asking block τ a₀) :=
        (R.isPrimary_asking ha₀).mpr (by rw [hτ₀]; exact ⟨hz₀, hr₀⟩)
      exact absurd (huniq.unique ⟨ha, hp⟩ ⟨ha₀, hp₀⟩) heq
  · rintro ⟨i, hi, hall⟩ st hst
    obtain ⟨a, ha, hr⟩ := exists_rank R.nodup R.answer_perm hi
    refine ⟨a, ⟨ha, (R.isPrimary_iff (hst a ha).1 (hst a ha).2).mpr ?_⟩, ?_⟩
    · obtain ⟨hz, hm⟩ := hall (st a).now
      exact ⟨hz, by rw [hr, hm]⟩
    · rintro a' ⟨ha', hp'⟩
      obtain ⟨-, hr'⟩ := (R.isPrimary_iff (hst a' ha').1 (hst a' ha').2).mp hp'
      rw [(hall (st a').now).2] at hr'
      exact rank_inj hr' hr

end RelayerSet

/-! ## Two primary relayers -/

/-- A third relayer joins the set after the first read. -/
def Sample.growingView (t : Nat) : View :=
  { Sample.view [(Sample.address 1).hex, (Sample.address 2).hex] .accepted with
    selectedRelayers := fun _ _ => (Sample.address 1).hex :: (Sample.address 2).hex ::
      if t = 0 then [] else [(Sample.address 3).hex] }

/-- The two relayers of the round. -/
def Sample.relayerSet : RelayerSet Sample.outbound where
  addrs := [Sample.address 1, Sample.address 2]
  answer := [(Sample.address 1).hex, (Sample.address 2).hex]
  view := Sample.growingView
  env := fun a =>
    { Sample.env Sample.growingView with account := { Sample.account with address := a } }
  addrs_ne := by simp
  nodup := by decide +kernel
  answer_lower := by decide +kernel
  round := fun _ => rfl
  env_account := fun _ => rfl
  env_view := fun _ => rfl
  env_up := fun _ _ => rfl
  env_role := fun _ => rfl
  env_src := fun _ => Option.isSome_of_mem Sample.outbound_srcChain

/-- For block 3 both relayers are primary when one asks before and one after the change. -/
theorem not_unique_primary : ¬ ∀ (e : RbcEvent) (R : RelayerSet e) (block : Nat)
    (st : Address → RState), R.Evaluating block st →
      ∃! a, a ∈ R.addrs ∧ R.IsPrimary a (st a) := by
  intro h
  let τ : Address → Nat := fun a => if a = Sample.address 2 then 0 else 1
  have huniq := h _ Sample.relayerSet 3 _ (Sample.relayerSet.evaluating_asking 3 τ)
  have h1 : Sample.address 1 ∈ Sample.relayerSet.addrs ∧ Sample.relayerSet.IsPrimary
      (Sample.address 1) (Sample.relayerSet.asking 3 τ (Sample.address 1)) := by
    refine ⟨by decide +kernel, ?_⟩
    rw [Sample.relayerSet.isPrimary_asking (by decide +kernel)]
    decide +kernel
  have h2 : Sample.address 2 ∈ Sample.relayerSet.addrs ∧ Sample.relayerSet.IsPrimary
      (Sample.address 2) (Sample.relayerSet.asking 3 τ (Sample.address 2)) := by
    refine ⟨by decide +kernel, ?_⟩
    rw [Sample.relayerSet.isPrimary_asking (by decide +kernel)]
    decide +kernel
  have heq := huniq.unique h1 h2
  revert heq
  decide +kernel

end Bifrost
