import Bifrost.Events.Handler
import Bifrost.Loop.Coherent
import Bifrost.Relayer.Start

/-!
# The cache over whole runs

A run of the process is any sequence of registrations, handlers, periods of the
feed and other reads, also where some of them raise. What the cache holds after
a run is what the registrations stored and the relayer's own indices
(`cacheInv_run`), so it is sound when every registered round is one the relayer
was selected in (`cacheSound_of_served`). `register_relayer_auth` stores `None`
for the other rounds, and `is_previous_relayer` takes the key for a selection.
-/

namespace Bifrost

open Bifrost.Lib

/-- What the process can do next. -/
inductive Action where
  | start | register
  | check (e : RbcEvent) | handle (h : Handler) (e : RbcEvent)
  | roundUp (e : RoundUpEvent) (outcome : TxOutcome) | period (outcome : TxOutcome)
  | detect (ref : Ref) (log : DetectedEvent) | wait

/-- The state after the action, which may have raised. -/
def Action.run (env : Env) (s : RState) : Action → RState
  | start => (Relayer.start env s).st
  | register => (Relayer.registerRelayerAuth env s).st
  | check e => (e.checkMyEvent env s).st
  | handle h e => (h.run e env s).st
  | roundUp e outcome => (e.process outcome env s).st
  | period outcome => (VSPFeed.period outcome env s).st
  | detect ref log => { s with heap := Function.update s.heap ref log }
  | wait => s.tick

/-- The rounds that the action registers. -/
def Action.rounds (env : Env) (s : RState) : Action → List Int
  | start => Relayer.historyRounds ((env.view s.now).latestRound .bifrost)
  | register => (s.roundCache.map Relayer.historyRounds).getD []
  | _ => []

/-- An action, with the state it was taken in. -/
structure Taken where
  before : RState
  action : Action

inductive AuthStep (env : Env) : RState → List Taken → RState → Prop where
  | take (s : RState) (a : Action) : AuthStep env s [⟨s, a⟩] (a.run env s)

abbrev AuthRun (env : Env) := Run (AuthStep env)

/-! ## What a run stores -/

variable {env : Env} {P : Env → RState → Prop} {I : Int → Option Nat → Prop} {s s' : RState}

/-- `P` stays when the answer of the chain is registered for round `k`. -/
def KeptRound (env : Env) (P : Env → RState → Prop) (k : Int) : Prop :=
  ∀ s t v, rank ((env.view t).previousSelectedRelayers .bifrost k true) env.account.address = v →
    P env s → P env { s with cache := Function.update s.cache k (some v) }

theorem cacheProp_registerRound (hP : CacheProp P) {k : Int} (hk : KeptRound env P k)
    (hs : P env s) : P env (Relayer.registerRound k env s).st := by
  have ht : P env s.tick := hP.of_cache (RState.tick_cache s) hs
  unfold Relayer.registerRound
  rw [Proc.bind_run, fetchRelayerIndex_run]
  unfold Env.read
  split
  · exact ht
  · exact hk s.tick s.now _ rfl ht

theorem cacheProp_registerRounds (hP : CacheProp P) {rnds : List Int}
    (hk : ∀ k ∈ rnds, KeptRound env P k) (hs : P env s) :
    P env (Relayer.registerRounds rnds env s).st := by
  induction rnds generalizing s with
  | nil => exact hs
  | cons k rnds ih =>
    have hone := cacheProp_registerRound hP (hk k List.mem_cons_self) hs
    unfold Relayer.registerRounds
    rw [Proc.bind_run]
    -- a read that fails ends the loop with the rounds stored so far
    rcases hr : Relayer.registerRound k env s with ⟨e | u, t, w⟩
    · rwa [hr] at hone
    · rw [hr] at hone
      exact ih (fun k' hk' => hk k' (List.mem_cons_of_mem k hk')) hone

theorem cacheProp_register (hP : CacheProp P)
    (hk : ∀ k ∈ Action.rounds env s .register, KeptRound env P k) (hs : P env s) :
    P env (Relayer.registerRelayerAuth env s).st := by
  unfold Relayer.registerRelayerAuth
  rw [Proc.bind_run, Proc.get_run, Res.andThen_ok, Res.after_nil]
  cases hc : s.roundCache with
  | none => exact hs
  | some rnd =>
    have hrounds : Action.rounds env s .register = Relayer.historyRounds rnd := by
      simp [Action.rounds, hc]
    rw [hrounds] at hk
    exact cacheProp_registerRounds hP hk hs

theorem cacheProp_start (hP : CacheProp P)
    (hk : ∀ k ∈ Action.rounds env s .start, KeptRound env P k) (hs : P env s) :
    P env (Relayer.start env s).st := by
  have ht : P env s.tick := hP.of_cache (RState.tick_cache s) hs
  unfold Relayer.start
  rw [Proc.bind_run, fetchLatestRound_run]
  unfold Env.read
  split
  · exact ht
  · rw [Res.andThen_ok, Res.after_st, Proc.bind_run, Proc.modify_run, Res.andThen_ok,
      Res.after_st]
    exact cacheProp_register hP hk (hP.of_cache (by rfl) ht)

/-- One action keeps what storing the relayer's own indices and registering its rounds keeps. -/
theorem cacheProp_action (hP : CacheProp P) {a : Action}
    (hk : ∀ k ∈ a.rounds env s, KeptRound env P k) (hs : P env s) : P env (a.run env s) := by
  cases a with
  | start => exact cacheProp_start hP hk hs
  | register => exact cacheProp_register hP hk hs
  | check e => exact RbcEvent.quiet_checkMyEvent.cache P hP env s hs
  | handle h e => exact h.keepsCache_run e P hP env s hs
  | roundUp e outcome => exact (RoundUpEvent.keepsSockets_process outcome).cache P hP env s hs
  | period outcome => exact (VSPFeed.keepsSockets_period outcome).cache P hP env s hs
  | detect ref log => exact hP.of_cache (by rfl) hs
  | wait => exact hP.of_cache (RState.tick_cache s) hs

/-- `I` allows what a registration of round `k` stores. -/
def AdmitsRound (env : Env) (I : Int → Option Nat → Prop) (k : Int) : Prop :=
  ∀ t, I k (rank ((env.view t).previousSelectedRelayers .bifrost k true) env.account.address)

theorem AdmitsRound.kept {k : Int} (h : AdmitsRound env I k) : KeptRound env (CacheInv I) k :=
  fun _ t _ hv hs => CacheInv.store hs (hv ▸ h t)

/-- From an empty cache, a run stores the relayer's own indices and what it registers. -/
theorem cacheInv_run {ls : List Taken} (hI : Admits env I) (h0 : ∀ k, s.cache k = none)
    (hrun : AuthRun env s ls s')
    (hk : ∀ l ∈ ls, ∀ k ∈ l.action.rounds env l.before, AdmitsRound env I k) :
    CacheInv I env s' := by
  have hinv := hrun.invariant
    (P := fun hist s => (∀ l ∈ hist, ∀ k ∈ l.action.rounds env l.before, AdmitsRound env I k) →
      CacheInv I env s) ?_ ?_
  · exact hinv hk
  · intro _
    exact ⟨hI, fun k v hv => by rw [h0] at hv; cases hv⟩
  · intro hist s ls s' ih hstep hk
    cases hstep with
    | take a =>
      have hs : CacheInv I env s := ih fun l hl => hk l (List.mem_append_left _ hl)
      have hrounds := hk ⟨s, a⟩ (List.mem_append_right _ List.mem_cons_self)
      exact cacheProp_action (CacheInv.cacheProp I) (fun k hk' => (hrounds k hk').kept) hs

/-! ## Sound caches -/

/-- The relayers of a round are the same at every read. -/
def Stable (env : Env) (relayers : Int → List Str) : Prop :=
  ∀ t k, (env.view t).previousSelectedRelayers .bifrost k true = relayers k

/-- The relayer is one of the relayers of round `k`. -/
def SelectedIn (env : Env) (relayers : Int → List Str) (k : Int) : Prop :=
  env.account.address.hex ∈ (relayers k).map lower

variable {relayers : Int → List Str}

theorem selectedIn_iff_rank {k : Int} :
    SelectedIn env relayers k ↔ (rank (relayers k) env.account.address).isSome := by
  rw [rank, index?_isSome, sortedLower, mem_sorted]
  exact Iff.rfl

/-- Every key holds the relayer's position in the sorted list of the round. -/
def CacheSound (env : Env) (relayers : Int → List Str) (s : RState) : Prop :=
  ∀ k v, s.cache k = some v →
    ∃ i, v = some i ∧ (sortedLower (relayers k))[i]? = some env.account.address.hex

/-- `is_previous_relayer` is True only for a relayer of the round before. -/
def PreviousSound (env : Env) (relayers : Int → List Str) (s : RState) : Prop :=
  ∀ e : RoundUpEvent, (e.isPreviousRelayer env s).val = .ok true →
    SelectedIn env relayers (e.round - 1)

theorem isPreviousRelayer_run (hrole : env.cfg.isFastRelayer = false) (e : RoundUpEvent) :
    e.isPreviousRelayer env s = ⟨.ok (s.cache (e.round - 1)).isSome, s, []⟩ := by
  simp [RoundUpEvent.isPreviousRelayer, hrole]

theorem CacheSound.previous (hrole : env.cfg.isFastRelayer = false)
    (hs : CacheSound env relayers s) : PreviousSound env relayers s := by
  intro e he
  rw [isPreviousRelayer_run hrole] at he
  obtain ⟨v, hv⟩ := Option.isSome_iff_exists.mp (Except.ok.inj he)
  obtain ⟨i, -, hi⟩ := hs _ v hv
  have hmem := List.mem_of_getElem? hi
  rwa [sortedLower, mem_sorted] at hmem

/-- **Soundness of the cache.** In a run that registers only rounds the relayer was selected in,
each key holds the relayer's own position, and a True `is_previous_relayer` of a relayer that is
not fast is right. -/
theorem cacheSound_of_served {ls : List Taken} (hst : Stable env relayers)
    (h0 : ∀ k, s.cache k = none) (hrun : AuthRun env s ls s')
    (hserved : ∀ l ∈ ls, ∀ k ∈ l.action.rounds env l.before, SelectedIn env relayers k) :
    CacheSound env relayers s' ∧
      (env.cfg.isFastRelayer = false → PreviousSound env relayers s') := by
  let I : Int → Option Nat → Prop := fun k v =>
    ∃ i, v = some i ∧ (sortedLower (relayers k))[i]? = some env.account.address.hex
  have hown : ∀ {k i}, rank (relayers k) env.account.address = some i → I k (some i) :=
    fun hi => ⟨_, rfl, getElem?_of_index? hi⟩
  have hI : Admits env I := by
    intro t k i hi
    rw [hst t k] at hi
    exact hown hi
  have hreg : ∀ k, SelectedIn env relayers k → AdmitsRound env I k := by
    intro k hk t
    obtain ⟨i, hi⟩ := Option.isSome_iff_exists.mp (selectedIn_iff_rank.mp hk)
    rw [hst t k, hi]
    exact hown hi
  have hinv := cacheInv_run hI h0 hrun fun l hl k hk => hreg k (hserved l hl k hk)
  exact ⟨hinv.2, fun hrole => CacheSound.previous hrole hinv.2⟩

/-! ## Registrations at the start -/

namespace Sample

/-- The process before its first round is known. -/
def fresh : RState := state outbound.msg

/-- The relayers of every round are `relayers`. -/
def roundEnv (relayers : List Str) : Env :=
  Sample.env fun _ => view relayers .accepted

/-- The state after `run_relayer` has registered the last six rounds. -/
def started (relayers : List Str) : RState := Action.start.run (roundEnv relayers) fresh

theorem started_run (relayers : List Str) :
    AuthRun (roundEnv relayers) fresh [⟨fresh, .start⟩] (started relayers) :=
  .single (.take fresh .start)

theorem stable_roundEnv (relayers : List Str) :
    Stable (roundEnv relayers) fun _ => relayers := fun _ _ => rfl

/-- The log of round 6. -/
def roundUp : RoundUpEvent where
  statusData := 10
  round := 6
  validatorList := []
  sigs := ⟨[], [], []⟩
  blockNumber := 7
  timeLock := 0
  mode := .send
  updatingChains := [.ethereum]
  selectedChain := .none
  aggregated := true

end Sample

/-- A start of the only relayer. -/
theorem cacheSound_of_served_sole :
    CacheSound (Sample.roundEnv [Sample.account.address.hex])
      (fun _ => [Sample.account.address.hex]) (Sample.started [Sample.account.address.hex]) ∧
    PreviousSound (Sample.roundEnv [Sample.account.address.hex])
      (fun _ => [Sample.account.address.hex]) (Sample.started [Sample.account.address.hex]) := by
  have hsound := cacheSound_of_served (Sample.stable_roundEnv [Sample.account.address.hex])
    (fun _ => rfl) (Sample.started_run _) fun l _ k _ => by
      show Sample.account.address.hex ∈ [Sample.account.address.hex].map lower
      decide +kernel
  exact ⟨hsound.1, hsound.2 rfl⟩

/-- A start registers `None` for a round that another relayer was selected in, and
`is_previous_relayer` takes the key for a selection. -/
theorem not_cacheSound : ∃ env relayers ls s', env.cfg.isFastRelayer = false ∧
    Stable env relayers ∧ AuthRun env Sample.fresh ls s' ∧ ¬ CacheSound env relayers s' ∧
    ¬ PreviousSound env relayers s' := by
  let other : Str := (Sample.address 2).hex
  have hkey : (Sample.started [other]).cache 5 = some none := by decide +kernel
  refine ⟨_, _, _, _, rfl, Sample.stable_roundEnv [other], Sample.started_run [other], ?_, ?_⟩
  · intro h
    obtain ⟨i, hi, -⟩ := h 5 none hkey
    cases hi
  · intro h
    have hprev : (Sample.roundUp.isPreviousRelayer (Sample.roundEnv [other])
        (Sample.started [other])).val = .ok true := by
      have hround : (Sample.roundUp.round : Int) - 1 = 5 := rfl
      rw [isPreviousRelayer_run rfl, hround, hkey]
      rfl
    have hsel := h Sample.roundUp hprev
    revert hsel
    show ¬ Sample.account.address.hex ∈ [other].map lower
    decide +kernel

end Bifrost
