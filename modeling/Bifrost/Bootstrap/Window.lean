import Bifrost.Bootstrap.Pending

/-!
# The rounds of the bootstrap

`register_relayer_auth` makes a cache entry for the latest round and the rounds
before it, `min(6, R)` in all, so that the first round without one is
`R - min(6, R)`. `RbcEvent.bootstrap` drops a round only below `R - 6`, so that
it keeps this round, too. The two windows agree on the events of a start if and
only if every request of this round has been finalised (`bootstrap_registered_iff`).
-/

namespace Bifrost

open Bifrost.Lib

variable {env : Env} {s s' : RState} {w : List Effect}

namespace RbcEvent

/-- `e` is an event of round `k`, and no event of its request is final. -/
def OpenInRound (events : List RbcEvent) (k : Nat) (e : RbcEvent) : Prop :=
  e ∈ events ∧ e.msg.roundId.val = k ∧
    ∀ e' ∈ events, e'.rid = e.rid → e'.isFinalized = false

/-- A round has an event of an unfinished request if and only if the reduction leaves one. -/
theorem Reduction.exists_open_iff {net : Network} {events latest : List RbcEvent}
    (h : Reduction net events latest) (k : Nat) :
    (∃ e, OpenInRound events k e) ↔ ∃ m ∈ latest, m.msg.roundId.val = k := by
  constructor
  · rintro ⟨e, he, hk, hopen⟩
    obtain ⟨m, hm, hrid⟩ := h.complete e he hopen
    exact ⟨m, hm, (congrArg RequestId.rnd hrid).trans hk⟩
  · rintro ⟨m, hm, hk⟩
    obtain ⟨⟨hmem, hmax⟩, hopen⟩ := h.latest m hm
    refine ⟨m, hmem, hk, fun e he hrid => ?_⟩
    by_contra hf
    have hfin := isFinalized_of_rank_le _ (by simpa using hf) (hmax e he hrid)
    rw [hopen] at hfin
    cases hfin

section Window

variable {order : Comparison RbcEvent} {refs : List Ref} {R : Nat} {events latest : List RbcEvent}

/-- The two windows agree on what a start returns: each returned event has a registered round,
and each latest event of a registered round is returned. -/
def WindowsAgree (cache : Cache) (latest returned : List RbcEvent) : Prop :=
  (∀ e ∈ returned, (cache e.msg.roundId.val).isSome) ∧
    ∀ m ∈ latest, (cache m.msg.roundId.val).isSome → ∃ t, stamped t m ∈ returned

/-- Of the last rounds, only the first unregistered one is kept and has no entry. -/
theorem isRecent_iff {e : RbcEvent} (hle : e.msg.roundId.val ≤ R) : e.IsRecent R ↔
    (e.msg.roundId.val : Int) ∈ Relayer.historyRounds R ∨
      e.msg.roundId.val = Relayer.firstUnregistered R := by
  rw [Relayer.mem_historyRounds]
  simp only [IsRecent, Relayer.firstUnregistered, Relayer.BIFROST_VALIDATOR_HISTORY_LIMIT_BLOCKS]
  omega

theorem windowsAgree_iff {cache : Cache} {t : Nat} (hslow : env.cfg.isFastRelayer = false)
    (hcache : ∀ k : Nat, (cache k).isSome ↔ (k : Int) ∈ Relayer.historyRounds R)
    (hle : ∀ m ∈ latest, m.msg.roundId.val ≤ R) :
    WindowsAgree cache latest ((latest.filter (·.IsKept env.cfg R)).map (stamped t)) ↔
      ∀ m ∈ latest, m.msg.roundId.val ≠ Relayer.firstUnregistered R := by
  have hkept : ∀ m ∈ latest, m.IsKept env.cfg R ↔ (m.msg.roundId.val : Int) ∈
      Relayer.historyRounds R ∨ m.msg.roundId.val = Relayer.firstUnregistered R := by
    intro m hm
    rw [← isRecent_iff (hle m hm)]
    simp [IsKept, hslow]
  constructor
  · rintro ⟨hreturned, -⟩ m hm heq
    have hmem : stamped t m ∈ (latest.filter (·.IsKept env.cfg R)).map (stamped t) :=
      List.mem_map_of_mem (List.mem_filter.mpr ⟨hm, decide_eq_true ((hkept m hm).mpr (.inr heq))⟩)
    have hlt := (Relayer.mem_historyRounds.mp ((hcache _).mp (hreturned _ hmem))).1
    exact absurd heq hlt.ne'
  · intro hnone
    refine ⟨fun e he => ?_, fun m hm hreg => ?_⟩
    · obtain ⟨m, hm, rfl⟩ := List.mem_map.mp he
      obtain ⟨hm, hk⟩ := List.mem_filter.mp hm
      rcases (hkept m hm).mp (of_decide_eq_true hk) with hreg | heq
      · exact (hcache _).mpr hreg
      · exact absurd heq (hnone m hm)
    · refine ⟨t, List.mem_map_of_mem (List.mem_filter.mpr ⟨hm, decide_eq_true ?_⟩)⟩
      exact (hkept m hm).mpr (.inl ((hcache _).mp hreg))

/-- A registration of a fresh process and a bootstrap behind it. -/
structure Started (env : Env) (order : Comparison RbcEvent) (refs : List Ref) (R : Nat) (s : RState)
    (events latest : List RbcEvent) : Prop where
  roundCache : s.roundCache = some R
  cache : ∃ s₀ s₁ w, (∀ k, s₀.cache k = none) ∧ s₀.roundCache = some R ∧
    Relayer.registerRelayerAuth env s₀ = ⟨.ok (), s₁, w⟩ ∧ s.cache = s₁.cache
  detected : (initAll refs env s).val = .ok events
  rounds : ∀ e ∈ events, e.msg.roundId.val ≤ R
  reduced : (removeFinalizedRids order events env s).val = .ok latest

theorem Started.isSome_cache_iff (h : Started env order refs R s events latest) (k : Nat) :
    (s.cache k).isSome ↔ (k : Int) ∈ Relayer.historyRounds R := by
  obtain ⟨s₀, s₁, w, h0, hR, hreg, hcache⟩ := h.cache
  rw [hcache, (Relayer.registerRelayerAuth_ok hR hreg).2.2, h0]
  simp

theorem Started.agree_iff (h : Started env order refs R s events latest)
    (hslow : env.cfg.isFastRelayer = false) : ∃ returned,
      (bootstrap order refs env s).val = .ok returned ∧
        (WindowsAgree s.cache latest returned ↔
          ∀ m ∈ latest, m.msg.roundId.val ≠ Relayer.firstUnregistered R) := by
  have hred := reduction_of_val h.reduced
  exact ⟨_, bootstrap_val h.roundCache h.detected h.reduced, windowsAgree_iff hslow
    h.isSome_cache_iff fun m hm => h.rounds m (hred.latest m hm).1.1⟩

/-- **The windows of a start.** After the registration of a fresh process, the bootstrap returns
exactly the latest events of registered rounds if and only if no request of the round before
them is unfinished. -/
theorem bootstrap_registered_iff (h : Started env order refs R s events latest)
    (hslow : env.cfg.isFastRelayer = false) : ∃ returned,
      (bootstrap order refs env s).val = .ok returned ∧
        (WindowsAgree s.cache latest returned ↔
          ¬ ∃ e, OpenInRound events (Relayer.firstUnregistered R) e) := by
  obtain ⟨returned, hval, hagree⟩ := h.agree_iff hslow
  refine ⟨returned, hval, ?_⟩
  rw [hagree, (reduction_of_val h.reduced).exists_open_iff]
  simp only [not_exists, not_and]

end Window

end RbcEvent

/-! ## Starts with one request of round 5 -/

namespace Sample

/-- The state in which the latest round `R` is known. -/
def unregistered (R : Nat) : RState := { restarted .accepted with roundCache := some R }

/-- The state of the bootstrap, after the registration. -/
def registered (R : Nat) : RState :=
  { unregistered R with
    cache := (Relayer.registerRelayerAuth (soleEnv .accepted) (unregistered R)).st.cache }

/-- A start in a round whose registration succeeds. -/
theorem exists_started {R : Nat} (h5 : 5 ≤ R) (hval : (Relayer.registerRelayerAuth
    (soleEnv .accepted) (unregistered R)).val = .ok ()) :
    ∃ latest, RbcEvent.Started (soleEnv .accepted) order [0] R (registered R)
      [detected .accepted] latest := by
  obtain ⟨latest, hlatest⟩ := reduced_detected (soleEnv .accepted) rfl .accepted (registered R)
  refine ⟨latest, rfl, ⟨unregistered R, _, _, fun _ => rfl, rfl, Res.eq_of_val hval, rfl⟩,
    initAll_detected (soleEnv .accepted) .accepted rfl, fun e he => ?_, hlatest⟩
  rw [List.mem_singleton.mp he]
  exact h5

end Sample

namespace RbcEvent

/-- In round 6 the rounds 1 to 6 are registered. -/
theorem bootstrap_registered_recent : ∃ latest returned : List RbcEvent,
    (bootstrap Sample.order [0] (Sample.soleEnv .accepted) (Sample.registered 6)).val =
      .ok returned ∧
    (WindowsAgree (Sample.registered 6).cache latest returned ↔
      ¬ ∃ e, OpenInRound [Sample.detected .accepted] (Relayer.firstUnregistered 6) e) := by
  obtain ⟨latest, hstart⟩ := Sample.exists_started (R := 6) (by decide) (by decide +kernel)
  exact ⟨latest, bootstrap_registered_iff hstart rfl⟩

/-- A start in round 11 registers the rounds 6 to 11, and returns a request of round 5. -/
theorem bootstrap_unregistered : ¬ ∀ (env : Env) (order : Comparison RbcEvent)
    (refs : List Ref) (R : Nat) (s : RState) (events latest returned : List RbcEvent),
      Started env order refs R s events latest → env.cfg.isFastRelayer = false →
      (bootstrap order refs env s).val = .ok returned →
      WindowsAgree s.cache latest returned := by
  intro hall
  obtain ⟨latest, hstart⟩ := Sample.exists_started (R := 11) (by decide) (by decide +kernel)
  obtain ⟨returned, hval, hagree⟩ := hstart.agree_iff rfl
  have hopen : ∃ e, OpenInRound [Sample.detected .accepted] 5 e := by
    refine ⟨_, List.mem_singleton_self _, rfl, fun e he _ => ?_⟩
    rw [List.mem_singleton.mp he]
    rfl
  obtain ⟨m, hm, hround⟩ := ((reduction_of_val hstart.reduced).exists_open_iff 5).mp hopen
  exact hagree.mp (hall _ _ _ _ _ _ _ _ hstart rfl hval) m hm hround

end RbcEvent

end Bifrost
