import Bifrost.Relayer.Fetch

/-!
# The start of a relayer

`Relayer.run_relayer` stores the latest round and registers the relayer's index
in the last rounds. `register_relayer_auth` stores what `fetch_relayer_index`
gives, `None` included; the other two writers of the cache store indices only.
The keys of the cache are then the last rounds and the old keys
(`registerRelayerAuth_ok`), and a start returns exactly where all its reads are
answered (`start_returns_iff`).
-/

namespace Bifrost

open Bifrost.Lib

namespace Relayer

def BIFROST_VALIDATOR_HISTORY_LIMIT_BLOCKS : Nat := 6

/-- The loop body of `register_relayer_auth` for round `rnd`. -/
def registerRound (rnd : Int) : RM Unit := do
  let relayerIndex ← RM.fetchRelayerIndex .bifrost (some rnd) none
  RM.setValueByKey rnd relayerIndex

def registerRounds : List Int → RM Unit
  | [] => pure ()
  | rnd :: rnds => do
    registerRound rnd
    registerRounds rnds

/-- The rounds the loop goes over, latest first. -/
def historyRounds (roundCache : Nat) : List Int :=
  (List.range (min BIFROST_VALIDATOR_HISTORY_LIMIT_BLOCKS roundCache)).map
    fun i => (roundCache : Int) - i

def registerRelayerAuth : RM Unit := do
  let s ← Proc.get
  let roundCache ← Proc.ofOption .typeError s.roundCache
  registerRounds (historyRounds roundCache)

/-- The start of `run_relayer`: the latest round, and the rounds before it. -/
def start : RM Unit := do
  let rnd ← RM.fetchLatestRound .bifrost
  Proc.modify fun s => { s with roundCache := some rnd }
  registerRelayerAuth

end Relayer

variable {env : Env} {s s' : RState} {w : List Effect}

namespace Relayer

/-! ## What it stores -/

/-- The round before the registered ones. -/
def firstUnregistered (R : Nat) : Nat := R - min BIFROST_VALIDATOR_HISTORY_LIMIT_BLOCKS R

theorem mem_historyRounds {R : Nat} {k : Nat} :
    (k : Int) ∈ historyRounds R ↔ firstUnregistered R < k ∧ k ≤ R := by
  simp only [historyRounds, firstUnregistered, BIFROST_VALIDATOR_HISTORY_LIMIT_BLOCKS,
    List.mem_map, List.bind_eq_flatMap, List.mem_flatMap, List.mem_range, List.pure_def,
    List.mem_singleton]
  constructor
  · rintro ⟨_, ⟨i, hi, rfl⟩, heq⟩
    omega
  · rintro ⟨hlo, hhi⟩
    exact ⟨_, ⟨R - k, by omega, rfl⟩, by omega⟩

theorem registerRound_ok {k : Int} (h : registerRound k env s = ⟨.ok (), s', w⟩) :
    s'.roundCache = s.roundCache ∧ s'.now = s.now + 1 ∧
      ∀ j, (s'.cache j).isSome ↔ j = k ∨ (s.cache j).isSome := by
  obtain ⟨i, s₁, w₁, w₂, h₁, h₂, rfl⟩ := Proc.bind_ok h
  rw [fetchRelayerIndex_run] at h₁
  obtain ⟨-, rfl, -⟩ := Res.mk.inj h₁
  cases h₂
  refine ⟨rfl, rfl, fun j => ?_⟩
  by_cases hj : j = k <;> simp [hj]

theorem registerRounds_ok {rnds : List Int} (h : registerRounds rnds env s = ⟨.ok (), s', w⟩) :
    s'.roundCache = s.roundCache ∧ s'.now = s.now + rnds.length ∧
      ∀ j, (s'.cache j).isSome ↔ j ∈ rnds ∨ (s.cache j).isSome := by
  induction rnds generalizing s w with
  | nil =>
    obtain ⟨-, rfl, -⟩ := Proc.pure_ok h
    exact ⟨rfl, rfl, fun j => by simp⟩
  | cons k rnds ih =>
    obtain ⟨_, s₁, w₁, w₂, h₁, h₂, rfl⟩ := Proc.bind_ok h
    obtain ⟨hround, hnow, hone⟩ := registerRound_ok h₁
    obtain ⟨hrounds, hnows, hrest⟩ := ih h₂
    refine ⟨hrounds.trans hround, ?_, fun j => ?_⟩
    · rw [hnows, hnow, List.length_cons, Nat.add_assoc, Nat.add_comm 1]
    · rw [hrest, hone, List.mem_cons]
      tauto

theorem length_historyRounds (R : Nat) :
    (historyRounds R).length = min BIFROST_VALIDATOR_HISTORY_LIMIT_BLOCKS R := by
  simp [historyRounds]

/-- The reads of `run_relayer` before the feed is made. -/
def startReads (R : Nat) : Nat := 1 + min BIFROST_VALIDATOR_HISTORY_LIMIT_BLOCKS R

/-- After a registration, the keys are the last rounds and the old keys. -/
theorem registerRelayerAuth_ok {R : Nat} (hR : s.roundCache = some R)
    (h : registerRelayerAuth env s = ⟨.ok (), s', w⟩) : s'.roundCache = some R ∧
      s'.now = s.now + min BIFROST_VALIDATOR_HISTORY_LIMIT_BLOCKS R ∧
      ∀ j, (s'.cache j).isSome ↔ j ∈ historyRounds R ∨ (s.cache j).isSome := by
  unfold registerRelayerAuth at h
  rw [Proc.bind_run, Proc.get_run, Res.andThen_ok, Res.after_nil, hR] at h
  obtain ⟨hround, hnow, hcache⟩ := registerRounds_ok h
  exact ⟨hround.trans hR, length_historyRounds R ▸ hnow, hcache⟩

theorem start_ok (h : start env s = ⟨.ok (), s', w⟩) :
    s'.roundCache = some ((env.view s.now).latestRound .bifrost) ∧
      s'.now = s.now + startReads ((env.view s.now).latestRound .bifrost) := by
  obtain ⟨rnd, s₁, w₁, w₂, h₁, h₂, -⟩ := Proc.bind_ok h
  obtain ⟨rfl, rfl, -⟩ := worldCall_ok h₁
  obtain ⟨_, s₂, w₃, w₄, h₃, h₄, -⟩ := Proc.bind_ok h₂
  cases h₃
  obtain ⟨hround, hnow, -⟩ := registerRelayerAuth_ok rfl h₄
  exact ⟨hround, hnow.trans (Nat.add_assoc ..)⟩

end Relayer

/-! ## When it returns -/

/-- The `n` reads from `t` on are answered. -/
def Env.Answers (env : Env) (t n : Nat) : Prop := ∀ k < n, env.down (t + k) = false

theorem Env.answers_zero (t : Nat) : env.Answers t 0 := fun _ hk => absurd hk (Nat.not_lt_zero _)

theorem Env.answers_succ {t n : Nat} :
    env.Answers t (n + 1) ↔ env.down t = false ∧ env.Answers (t + 1) n := by
  constructor
  · refine fun h => ⟨h 0 n.succ_pos, fun k hk => ?_⟩
    rw [Nat.add_assoc, Nat.add_comm 1 k]
    exact h (k + 1) (Nat.succ_lt_succ hk)
  · rintro ⟨h₀, h⟩ k hk
    cases k with
    | zero => exact h₀
    | succ k =>
      rw [Nat.add_comm k 1, ← Nat.add_assoc]
      exact h k (Nat.lt_of_succ_lt_succ hk)

theorem worldCall_returns_iff {α : Type} (chain : ChainEnum) (method : String) (answer : View → α) :
    (∃ a s' w, RM.worldCall chain method answer env s = ⟨.ok a, s', w⟩) ↔
      env.down s.now = false := by
  rw [worldCall_run]
  cases env.down s.now <;> simp

namespace Relayer

theorem registerRound_returns_iff (rnd : Int) :
    (∃ a s' w, registerRound rnd env s = ⟨.ok a, s', w⟩) ↔ env.down s.now = false := by
  unfold registerRound
  rw [Proc.bind_returns_iff]
  constructor
  · rintro ⟨i, t, w, h, -⟩
    rw [fetchRelayerIndex_run] at h
    exact (read_ok (Res.mk.inj h).1).1
  · intro h
    exact ⟨_, _, _, by rw [fetchRelayerIndex_run, read_up h], _, _, _, rfl⟩

theorem registerRounds_returns_iff (rnds : List Int) :
    (∃ a s' w, registerRounds rnds env s = ⟨.ok a, s', w⟩) ↔ env.Answers s.now rnds.length := by
  induction rnds generalizing s with
  | nil => exact ⟨fun _ => Env.answers_zero _, fun _ => ⟨(), s, [], rfl⟩⟩
  | cons rnd rnds ih =>
    rw [registerRounds, Proc.bind_returns_iff, List.length_cons, Env.answers_succ]
    constructor
    · rintro ⟨v, t, w, h, hrest⟩
      refine ⟨(registerRound_returns_iff rnd).mp ⟨v, t, w, h⟩, ?_⟩
      rw [← (registerRound_ok h).2.1]
      exact ih.mp hrest
    · rintro ⟨hup, hrest⟩
      obtain ⟨v, t, w, h⟩ := (registerRound_returns_iff rnd).mpr hup
      rw [← (registerRound_ok h).2.1] at hrest
      exact ⟨v, t, w, h, ih.mpr hrest⟩

theorem start_returns_iff : (∃ a s' w, start env s = ⟨.ok a, s', w⟩) ↔
    env.Answers s.now (startReads ((env.view s.now).latestRound .bifrost)) := by
  have hrest (R : Nat) : (∃ a s' w, (do
      Proc.modify fun s => { s with roundCache := some R }
      registerRelayerAuth : RM Unit) env s.tick = ⟨.ok a, s', w⟩) ↔
        env.Answers (s.now + 1) (min BIFROST_VALIDATOR_HISTORY_LIMIT_BLOCKS R) := by
    rw [← length_historyRounds]
    exact registerRounds_returns_iff (s := { s.tick with roundCache := some R }) (historyRounds R)
  rw [start, Proc.bind_returns_iff, startReads, Nat.add_comm, Env.answers_succ]
  constructor
  · rintro ⟨R, t, w, h, hreg⟩
    have hup := (worldCall_returns_iff .bifrost "latest_round" _).mp ⟨R, t, w, h⟩
    obtain ⟨rfl, rfl, -⟩ := worldCall_ok h
    exact ⟨hup, (hrest _).mp hreg⟩
  · rintro ⟨hup, hreg⟩
    obtain ⟨R, t, w, h⟩ := (worldCall_returns_iff .bifrost "latest_round" fun v : View =>
      v.latestRound .bifrost).mpr hup
    obtain ⟨rfl, rfl, -⟩ := worldCall_ok h
    exact ⟨_, _, w, h, (hrest _).mpr hreg⟩

end Relayer

end Bifrost
