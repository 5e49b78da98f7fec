import Bifrost.Utils.Height

/-!
# Where the chains are watched from

`Relayer.determine_latest_heights_for_each_chain`. BIFROST is watched from a block
some rounds back, every other supported chain from the block that the height
search finds for the time of this one. The start of a relayer gets through this
loop exactly when a block of each of these chains is near that time, and then no
block since that time lies below the height of its chain (`latestHeights_exact`).
-/

namespace Bifrost

open Bifrost.Lib

namespace ChainManager

variable {manager : ChainManager} {time : Int}

/-! ## One chain -/

/-- The latest height is at or after the time, or the search can probe a block that is near. -/
def Locates (manager : ChainManager) (time : Int) : Prop :=
  time ≤ manager.timestamp manager.latestHeight ∨
    ∃ h, Probed manager.latestHeight manager.head h ∧
      |time - 30000 - manager.timestamp h| < 30000

/-- A height with nothing of the chain since the time below it, and not long before it. -/
structure Located (manager : ChainManager) (time : Int) (h : Nat) : Prop where
  probed : Probed manager.latestHeight manager.head h
  near : h = manager.latestHeight ∧ time ≤ manager.timestamp h ∨
    time - 60000 < manager.timestamp h ∧ manager.timestamp h < time
  before : ∀ b, manager.latestHeight ≤ b → b < h → manager.timestamp b < time

theorem isFront_latest (hle : manager.latestHeight ≤ manager.head) : manager.IsFront 0 0 :=
  ⟨fun h => by omega, hle⟩

/-- A search that has ended is the bisection, or has not begun. -/
theorem find_cases (hext : manager.chainName ≠ .bifrost) (hmono : manager.Monotone)
    (hle : manager.latestHeight ≤ manager.head) (time : Int) :
    (time ≤ manager.timestamp manager.latestHeight ∧
      ∀ fuel, manager.findHeightByTimestamp fuel time 0 0 = some (.ok manager.latestHeight)) ∨
    manager.timestamp manager.latestHeight < time ∧
      ∀ fuel, manager.findHeightByTimestamp fuel time 0 0 =
        (bisect (manager.probe (time - 30000)) fuel manager.latestHeight manager.head).map .ok := by
  have hf := isFront_latest hle
  rcases le_or_gt time (manager.timestamp manager.latestHeight) with h | h
  · exact .inl ⟨h, fun fuel => find_of_le hf fuel h⟩
  · refine .inr ⟨h, fun fuel => ?_⟩
    have hshift : manager.shifted time = time - 30000 := if_pos hext
    rw [find_of_lt hf fuel h, hshift]
    exact binarySearch_eq hmono fuel hle le_rfl (time - 30000)

theorem locates_iff (hext : manager.chainName ≠ .bifrost) (hmono : manager.Monotone)
    (hle : manager.latestHeight ≤ manager.head) :
    (∃ fuel h, manager.findHeightByTimestamp fuel time 0 0 = some (.ok h)) ↔
      manager.Locates time := by
  rcases find_cases hext hmono hle time with ⟨hback, hfind⟩ | ⟨hback, hfind⟩
  · exact ⟨fun _ => .inl hback, fun _ => ⟨0, _, hfind 0⟩⟩
  · have hends := bisect_ends_iff hle (ordered_probe hmono (time - 30000) le_rfl)
    simp only [probe_eq_iff] at hends
    unfold Locates
    rw [← hends]
    simp [hfind, hback]

/-- Whatever the fuel, a search that ends raises nothing, and what it returns locates the time. -/
theorem located_of_find (hext : manager.chainName ≠ .bifrost) (hmono : manager.Monotone)
    (hle : manager.latestHeight ≤ manager.head) {fuel : Nat} {x : Except Exn Nat}
    (h : manager.findHeightByTimestamp fuel time 0 0 = some x) :
    ∃ height, x = .ok height ∧ manager.Located time height := by
  rcases find_cases hext hmono hle time with ⟨hback, hfind⟩ | ⟨hback, hfind⟩
  · rw [hfind] at h
    obtain rfl := Option.some.inj h
    exact ⟨_, rfl, ⟨le_rfl, .inr rfl⟩, .inl ⟨rfl, hback⟩, fun b hb hlt => by omega⟩
  · rw [hfind] at h
    obtain ⟨height, hhit, rfl⟩ := Option.map_eq_some_iff.mp h
    obtain ⟨hprobed, heq⟩ := bisect_hit hle hhit
    have hnear := probe_eq_iff.mp heq
    rw [abs_lt] at hnear
    refine ⟨height, rfl, hprobed, .inr ⟨by omega, by omega⟩, fun b _ hlt => ?_⟩
    have hb := hmono b height hlt.le (hprobed.le hle)
    omega

theorem Located.locates {h : Nat} (hloc : manager.Located time h) : manager.Locates time := by
  rcases hloc.near with ⟨rfl, hback⟩ | ⟨hafter, hbefore⟩
  · exact .inl hback
  · refine .inr ⟨h, hloc.probed, ?_⟩
    rw [abs_lt]
    omega

/-- More fuel changes no result. -/
theorem find_mono (hext : manager.chainName ≠ .bifrost) (hmono : manager.Monotone)
    (hle : manager.latestHeight ≤ manager.head) {fuel fuel' : Nat} (hfuel : fuel ≤ fuel')
    {x : Except Exn Nat} (h : manager.findHeightByTimestamp fuel time 0 0 = some x) :
    manager.findHeightByTimestamp fuel' time 0 0 = some x := by
  rcases find_cases hext hmono hle time with ⟨-, hfind⟩ | ⟨-, hfind⟩
  · rwa [hfind] at h ⊢
  · rw [hfind] at h ⊢
    obtain ⟨height, hhit, rfl⟩ := Option.map_eq_some_iff.mp h
    rw [bisect_mono hhit hfuel]
    rfl

end ChainManager

/-! ## All chains -/

/-- The manager of each chain. -/
abbrev Managers := ChainEnum → ChainManager

/-- `chain_manager.latest_height = height` -/
def Managers.setLatestHeight (managers : Managers) (chain : ChainEnum) (height : Nat) : Managers :=
  Function.update managers chain { managers chain with latestHeight := height }

/-- `fetch_round_info` of the authority's answer: the current height, the round and its length. -/
def fetchRoundInfo : List Nat → Except Exn (Nat × Nat × Nat)
  | [currentRndIdx, _, _, _, _, currentHeight, roundLength, _] =>
    .ok (currentHeight, currentRndIdx, roundLength)
  | _ => .error .valueError

namespace Relayer

def BOOTSTRAP_OFFSET_ROUNDS : Nat := 5

/-- The loop over the chains that are left. -/
def latestHeights (fuel bootstrapStartHeight : Nat) :
    List ChainEnum → Managers → Option (Except Exn Managers)
  | [], managers => some (.ok managers)
  | chain :: chains, managers =>
    if chain = .bifrost then
      latestHeights fuel bootstrapStartHeight chains
        (managers.setLatestHeight chain bootstrapStartHeight)
    else
      let bootstrapStartTime := (managers .bifrost).timestamp bootstrapStartHeight
      match (managers chain).findHeightByTimestamp fuel bootstrapStartTime 0 0 with
      | some (.ok height) =>
        latestHeights fuel bootstrapStartHeight chains (managers.setLatestHeight chain height)
      | some (.error e) => some (.error e)
      | none => none

def determineLatestHeightsForEachChain (fuel : Nat) (roundInfo : List Nat)
    (supportedChainList : List ChainEnum) (managers : Managers) : Option (Except Exn Managers) :=
  match fetchRoundInfo roundInfo with
  | .error e => some (.error e)
  | .ok (currentHeight, _, roundLength) =>
    let bootstrapStartHeight := max (currentHeight - roundLength * BOOTSTRAP_OFFSET_ROUNDS) 1
    latestHeights fuel bootstrapStartHeight supportedChainList managers

end Relayer

/-- A chain that a search can be made on. -/
structure ChainManager.Searchable (manager : ChainManager) (chain : ChainEnum) : Prop where
  chainName : manager.chainName = chain
  mono : manager.Monotone
  le_head : manager.latestHeight ≤ manager.head

/-- What the loop leaves of the manager of a chain. -/
def ChainManager.Placed (manager : ChainManager) (chain : ChainEnum) (start : Nat) (time : Int)
    (manager' : ChainManager) : Prop :=
  ∃ h, manager' = { manager with latestHeight := h } ∧
    if chain = .bifrost then h = start else manager.Located time h

section Loop

variable {managers managers' : Managers} {chains : List ChainEnum} {start fuel : Nat}

theorem Managers.setLatestHeight_of_ne {chain c : ChainEnum} (h : c ≠ chain) (height : Nat) :
    managers.setLatestHeight chain height c = managers c :=
  Function.update_of_ne h ..

/-- The chains that are left have their managers still. -/
theorem Managers.setLatestHeight_of_mem {chain c : ChainEnum} (hnot : chain ∉ chains)
    (hc : c ∈ chains) (height : Nat) : managers.setLatestHeight chain height c = managers c :=
  setLatestHeight_of_ne (by rintro rfl; exact hnot hc) height

theorem Managers.timestamp_setLatestHeight (chain c : ChainEnum) (height : Nat) :
    (managers.setLatestHeight chain height c).timestamp = (managers c).timestamp := by
  unfold setLatestHeight
  by_cases h : c = chain
  · subst h
    rw [Function.update_self]
  · rw [Function.update_of_ne h]

/-- A loop that ends raises nothing, and has placed its chains and no other. -/
theorem latestHeights_ok {time : Int} (htime : (managers .bifrost).timestamp start = time)
    (hsearch : ∀ c ∈ chains, c ≠ .bifrost → (managers c).Searchable c) (hnodup : chains.Nodup)
    {x : Except Exn Managers}
    (h : Relayer.latestHeights fuel start chains managers = some x) :
    ∃ managers', x = .ok managers' ∧
      (∀ c ∈ chains, (managers c).Placed c start time (managers' c)) ∧
      ∀ c ∉ chains, managers' c = managers c := by
  induction chains generalizing managers with
  | nil =>
    cases h
    exact ⟨managers, rfl, fun c hc => (List.not_mem_nil hc).elim, fun _ _ => rfl⟩
  | cons chain chains ih =>
    obtain ⟨hnot, hnodup⟩ := List.nodup_cons.mp hnodup
    -- the rest of the loop, behind the height of the first chain
    have hrest (height : Nat)
        (hplaced :
          if chain = .bifrost then height = start else (managers chain).Located time height)
        (h : Relayer.latestHeights fuel start chains (managers.setLatestHeight chain height) =
          some x) :
        ∃ managers', x = .ok managers' ∧
          (∀ c ∈ chain :: chains, (managers c).Placed c start time (managers' c)) ∧
          ∀ c ∉ chain :: chains, managers' c = managers c := by
      have hsame (c : ChainEnum) (hc : c ∈ chains) :
          managers.setLatestHeight chain height c = managers c :=
        Managers.setLatestHeight_of_mem hnot hc height
      obtain ⟨managers', rfl, hin, hout⟩ := ih
        (by rw [Managers.timestamp_setLatestHeight, htime])
        (fun c hc => by rw [hsame c hc]; exact hsearch c (List.mem_cons_of_mem _ hc)) hnodup h
      refine ⟨managers', rfl, fun c hc => ?_, fun c hc => ?_⟩
      · rcases List.mem_cons.mp hc with rfl | hc
        · refine ⟨height, ?_, hplaced⟩
          rw [hout c hnot]
          exact Function.update_self ..
        · rw [← hsame c hc]
          exact hin c hc
      · rw [List.mem_cons, not_or] at hc
        rw [hout c hc.2]
        exact Managers.setLatestHeight_of_ne hc.1 height
    unfold Relayer.latestHeights at h
    split at h
    · next hbifrost => exact hrest start (by rw [if_pos hbifrost]) h
    · next hext =>
      have hhead := hsearch chain List.mem_cons_self hext
      have hname : (managers chain).chainName ≠ .bifrost := by rwa [hhead.chainName]
      dsimp only at h
      rw [htime] at h
      rcases hfind : (managers chain).findHeightByTimestamp fuel time 0 0 with _ | e | height
      · rw [hfind] at h
        cases h
      · obtain ⟨height, herr, -⟩ :=
          ChainManager.located_of_find hname hhead.mono hhead.le_head hfind
        cases herr
      · obtain ⟨height', heq, hloc⟩ :=
          ChainManager.located_of_find hname hhead.mono hhead.le_head hfind
        cases heq
        rw [hfind] at h
        exact hrest height (by rwa [if_neg hext]) h

/-- Where each other chain locates the time, the loop ends with enough fuel. -/
theorem latestHeights_ends {time : Int} (htime : (managers .bifrost).timestamp start = time)
    (hsearch : ∀ c ∈ chains, c ≠ .bifrost → (managers c).Searchable c) (hnodup : chains.Nodup)
    (hlocates : ∀ c ∈ chains, c ≠ .bifrost → (managers c).Locates time) :
    ∃ enough, ∀ fuel ≥ enough, (Relayer.latestHeights fuel start chains managers).isSome := by
  induction chains generalizing managers with
  | nil => exact ⟨0, fun _ _ => rfl⟩
  | cons chain chains ih =>
    obtain ⟨hnot, hnodup⟩ := List.nodup_cons.mp hnodup
    have hrest (height : Nat) : ∃ enough, ∀ fuel ≥ enough, (Relayer.latestHeights fuel start
        chains (managers.setLatestHeight chain height)).isSome := by
      have hsame (c : ChainEnum) (hc : c ∈ chains) :
          managers.setLatestHeight chain height c = managers c :=
        Managers.setLatestHeight_of_mem hnot hc height
      refine ih (by rw [Managers.timestamp_setLatestHeight, htime]) (fun c hc => ?_) hnodup
        fun c hc hext => ?_
      · rw [hsame c hc]
        exact hsearch c (List.mem_cons_of_mem _ hc)
      · rw [hsame c hc]
        exact hlocates c (List.mem_cons_of_mem _ hc) hext
    by_cases hbifrost : chain = .bifrost
    · obtain ⟨enough, hends⟩ := hrest start
      refine ⟨enough, fun fuel hfuel => ?_⟩
      rw [Relayer.latestHeights, if_pos hbifrost]
      exact hends fuel hfuel
    · have hhead := hsearch chain List.mem_cons_self hbifrost
      have hname : (managers chain).chainName ≠ .bifrost := by rwa [hhead.chainName]
      obtain ⟨n, height, hfind⟩ := (ChainManager.locates_iff hname hhead.mono hhead.le_head).mpr
        (hlocates chain List.mem_cons_self hbifrost)
      obtain ⟨enough, hends⟩ := hrest height
      refine ⟨max n enough, fun fuel hfuel => ?_⟩
      rw [Relayer.latestHeights, if_neg hbifrost]
      dsimp only
      rw [htime, ChainManager.find_mono hname hhead.mono hhead.le_head (by omega) hfind]
      exact hends fuel (by omega)

end Loop

/-- **Start heights.** The start of a relayer gets through the loop over its chains, given enough
fuel, if and only if each chain other than BIFROST locates the time of the block of BIFROST that it
starts from. It raises only where a search does not end, at the limit of the recursion, and what it
leaves places every chain: BIFROST at this block, any other one where no block since its time is
skipped. -/
theorem latestHeights_exact {managers : Managers} {supportedChainList : List ChainEnum}
    {roundInfo : List Nat} {currentHeight rnd roundLength start : Nat} {time : Int}
    (hinfo : fetchRoundInfo roundInfo = .ok (currentHeight, rnd, roundLength))
    (hstart : start = max (currentHeight - roundLength * Relayer.BOOTSTRAP_OFFSET_ROUNDS) 1)
    (htime : (managers .bifrost).timestamp start = time) (hnodup : supportedChainList.Nodup)
    (hsearch : ∀ c ∈ supportedChainList, c ≠ .bifrost → (managers c).Searchable c) :
    ((∃ fuel, (Relayer.determineLatestHeightsForEachChain fuel roundInfo supportedChainList
        managers).isSome) ↔
      ∀ c ∈ supportedChainList, c ≠ .bifrost → (managers c).Locates time) ∧
    ∀ fuel x, Relayer.determineLatestHeightsForEachChain fuel roundInfo supportedChainList
        managers = some x →
      ∃ managers', x = .ok managers' ∧
        (∀ c ∈ supportedChainList, (managers c).Placed c start time (managers' c)) ∧
        ∀ c ∉ supportedChainList, managers' c = managers c := by
  have hloop (fuel : Nat) : Relayer.determineLatestHeightsForEachChain fuel roundInfo
      supportedChainList managers =
        Relayer.latestHeights fuel start supportedChainList managers := by
    rw [Relayer.determineLatestHeightsForEachChain, hinfo, hstart]
  simp only [hloop]
  refine ⟨⟨?_, fun hlocates => ?_⟩, fun fuel x h => latestHeights_ok htime hsearch hnodup h⟩
  · rintro ⟨fuel, h⟩ c hc hext
    obtain ⟨x, hx⟩ := Option.isSome_iff_exists.mp h
    obtain ⟨managers', -, hplaced, -⟩ := latestHeights_ok htime hsearch hnodup hx
    obtain ⟨height, -, hloc⟩ := hplaced c hc
    rw [if_neg hext] at hloc
    exact hloc.locates
  · obtain ⟨enough, hends⟩ := latestHeights_ends htime hsearch hnodup hlocates
    exact ⟨enough, hends enough le_rfl⟩


/-- BIFROST and ETHEREUM, with blocks 6000 and 12000 time units apart. -/
def Sample.managers : Managers := fun c =>
  if c = .bifrost then ⟨c, 0, 100, fun h => 6000 * h⟩ else ⟨c, 0, 60, fun h => 12000 * h⟩

/-- The start block of BIFROST is number 50, which ETHEREUM locates. -/
theorem latestHeights_exact_two : ∃ fuel, (Relayer.determineLatestHeightsForEachChain fuel
    [5, 0, 0, 0, 0, 100, 10, 1] [.bifrost, .ethereum] Sample.managers).isSome := by
  have htime : (Sample.managers .bifrost).timestamp 50 = 300000 := by decide
  have hmanager {c : ChainEnum} (hc : c ≠ .bifrost) :
      Sample.managers c = ⟨c, 0, 60, fun h => 12000 * h⟩ := if_neg hc
  refine (latestHeights_exact rfl rfl htime (by decide) fun c _ hc => ?_).1.mpr fun c _ hc => ?_
  · rw [hmanager hc]
    refine ⟨rfl, fun a b hab _ => ?_, Nat.zero_le 60⟩
    show (12000 : Int) * a ≤ 12000 * b
    omega
  · rw [hmanager hc]
    refine .inr ⟨24, ⟨Nat.zero_le 24, .inl (by show 24 < 60; omega)⟩, ?_⟩
    show |(300000 : Int) - 30000 - 12000 * (24 : Nat)| < 30000
    decide

end Bifrost
