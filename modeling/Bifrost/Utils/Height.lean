import Bifrost.Lib.Bisect
import Bifrost.Primitives.Chain
import Bifrost.Relayer.State

/-!
# The height a chain is bootstrapped from

`find_height_by_timestamp` looks for a block less than 30000 time units away
from the target time, on an external chain from 30000 before it. The recursion
of `binary_search` runs on fuel; `none` is a search that has not come to its
end. It is a bisection that keeps the midpoint (`binarySearch_eq`), so it ends
exactly when a block below the head is near the target (`search_ends_iff`).
Where the blocks are less than 30000 apart there is one, and no event at or
after the target time is skipped (`height_skips_nothing`).
-/

namespace Bifrost

open Bifrost.Lib

/-- The blocks of a chain, as its `EthChainManager` reads them. -/
structure ChainManager where
  chainName : ChainEnum
  latestHeight : Nat
  /-- The height of `eth_get_block_by_height()`. -/
  head : Nat
  timestamp : Nat → Int

namespace ChainManager

variable (manager : ChainManager)

def binarySearch : Nat → Nat → Int → Nat → Int → Int → Option (Except Exn Nat)
  | 0, _, _, _, _, _ => none
  | fuel + 1, frontHeight, frontTime, rearHeight, rearTime, targetTime =>
    if rearTime < frontTime ∨ rearHeight < frontHeight then
      some (.error (.exception "binary search prams error: front > rear"))
    else
      let mediumHeight := (frontHeight + rearHeight) / 2
      let mediumTime := manager.timestamp mediumHeight
      if |targetTime - mediumTime| < 30000 then some (.ok mediumHeight)
      else if mediumTime < targetTime then
        binarySearch fuel mediumHeight mediumTime rearHeight rearTime targetTime
      else binarySearch fuel frontHeight frontTime mediumHeight mediumTime targetTime

/-- The front of the search: without a height of at least one, the manager's latest height. -/
def front (frontHeight : Nat) (frontTime : Int) : Nat × Int :=
  if frontHeight < 1 then (manager.latestHeight, manager.timestamp manager.latestHeight)
  else (frontHeight, frontTime)

/-- The target time of the search. -/
def shifted (targetTime : Int) : Int :=
  if manager.chainName ≠ .bifrost then targetTime - 30000 else targetTime

def findHeightByTimestamp (fuel : Nat) (targetTime : Int) (frontHeight : Nat) (frontTime : Int) :
    Option (Except Exn Nat) :=
  let rearTime := manager.timestamp manager.head
  let (frontHeight, frontTime) := manager.front frontHeight frontTime
  if targetTime ≤ frontTime then some (.ok frontHeight)
  else manager.binarySearch fuel frontHeight frontTime manager.head rearTime
    (manager.shifted targetTime)

/-! ## The search as a bisection -/

/-- What the search does at a block. -/
def probe (targetTime : Int) (height : Nat) : Ordering :=
  if |targetTime - manager.timestamp height| < 30000 then .eq
  else if manager.timestamp height < targetTime then .lt
  else .gt

/-- The timestamps up to the head do not decrease. -/
def Monotone : Prop := ∀ a b, a ≤ b → b ≤ manager.head → manager.timestamp a ≤ manager.timestamp b

variable {manager}

theorem probe_eq_iff {targetTime : Int} {height : Nat} :
    manager.probe targetTime height = .eq ↔ |targetTime - manager.timestamp height| < 30000 := by
  unfold probe
  split
  · simpa
  · split <;> simp_all

theorem ordered_probe (hmono : manager.Monotone) (targetTime : Int) {front rear : Nat}
    (hrear : rear ≤ manager.head) : Ordered (manager.probe targetTime) front rear := by
  intro a b _ hab hb
  have hle := hmono a b hab (by omega)
  unfold probe
  constructor
  · intro h
    split at h
    · cases h
    split at h
    · rename_i hfar hlt
      rw [abs_lt] at hfar
      rw [if_neg (by rw [abs_lt]; omega), if_pos (by omega)]
    · cases h
  · intro h
    split at h
    · cases h
    split at h
    · cases h
    · rename_i hfar hge
      rw [abs_lt] at hfar
      rw [if_neg (by rw [abs_lt]; omega), if_neg (by omega)]

/-- Between ends that have the times of their blocks, the search raises nothing and bisects. -/
theorem binarySearch_eq (hmono : manager.Monotone) (fuel : Nat) {front rear : Nat}
    (hle : front ≤ rear) (hrear : rear ≤ manager.head) (targetTime : Int) :
    manager.binarySearch fuel front (manager.timestamp front) rear (manager.timestamp rear)
      targetTime = (bisect (manager.probe targetTime) fuel front rear).map .ok := by
  induction fuel generalizing front rear with
  | zero => rfl
  | succ fuel ih =>
    have htime := hmono front rear hle hrear
    unfold binarySearch bisect
    rw [if_neg (by omega)]
    simp only [probe]
    split
    · rfl
    · split
      · exact ih (by omega) hrear
      · exact ih (by omega) (by omega)

/-! ## The end of the search -/

/-- A block from the front on, and below the head, is near the time the search looks for. -/
def HasNear (manager : ChainManager) (front : Nat) (targetTime : Int) : Prop :=
  ∃ h, front ≤ h ∧ h < manager.head ∧ |targetTime - manager.timestamp h| < 30000

/-- The arguments of a search: a front that is a block of the chain, given with its time. -/
structure IsFront (manager : ChainManager) (frontHeight : Nat) (frontTime : Int) : Prop where
  time : 1 ≤ frontHeight → frontTime = manager.timestamp frontHeight
  le_head : (manager.front frontHeight frontTime).1 ≤ manager.head

variable {frontHeight : Nat} {frontTime targetTime : Int}

theorem IsFront.snd (hf : manager.IsFront frontHeight frontTime) :
    (manager.front frontHeight frontTime).2 =
      manager.timestamp (manager.front frontHeight frontTime).1 := by
  have htime := hf.time
  unfold front at *
  split
  · rfl
  · exact htime (by omega)

theorem find_of_le (hf : manager.IsFront frontHeight frontTime) (fuel : Nat)
    (h : targetTime ≤ manager.timestamp (manager.front frontHeight frontTime).1) :
    manager.findHeightByTimestamp fuel targetTime frontHeight frontTime =
      some (.ok (manager.front frontHeight frontTime).1) := by
  have hsnd := hf.snd
  unfold findHeightByTimestamp
  dsimp only
  rw [if_pos (by omega)]

/-- A target after the front is searched for. -/
theorem find_of_lt (hf : manager.IsFront frontHeight frontTime) (fuel : Nat)
    (h : manager.timestamp (manager.front frontHeight frontTime).1 < targetTime) :
    manager.findHeightByTimestamp fuel targetTime frontHeight frontTime =
      manager.binarySearch fuel (manager.front frontHeight frontTime).1
        (manager.timestamp (manager.front frontHeight frontTime).1) manager.head
        (manager.timestamp manager.head) (manager.shifted targetTime) := by
  have hsnd := hf.snd
  unfold findHeightByTimestamp
  dsimp only
  rw [if_neg (by omega), hsnd]

/-- The search of an interval below the head ends if and only if one of its blocks is near. -/
theorem binarySearch_ends_iff (hmono : manager.Monotone) {front : Nat} (hlt : front < manager.head)
    (targetTime : Int) :
    (∃ fuel h, manager.binarySearch fuel front (manager.timestamp front) manager.head
      (manager.timestamp manager.head) targetTime = some (.ok h)) ↔
      manager.HasNear front targetTime := by
  have hiff := bisect_isSome_iff hlt (ordered_probe hmono targetTime le_rfl)
  simp only [probe_eq_iff] at hiff
  unfold HasNear
  rw [← hiff]
  apply exists_congr
  intro fuel
  rw [binarySearch_eq hmono fuel hlt.le le_rfl, Option.isSome_iff_exists]
  apply exists_congr
  intro h
  simp

/-- **The end of the height search.** For a target after the front and not after the head, the
search and the bisection it calls return if and only if a block below the head is near the
time they look for. -/
theorem search_ends_iff (hmono : manager.Monotone) (hf : manager.IsFront frontHeight frontTime)
    (hfront : manager.timestamp (manager.front frontHeight frontTime).1 < targetTime)
    (hhead : targetTime ≤ manager.timestamp manager.head) :
    ((∃ fuel h, manager.findHeightByTimestamp fuel targetTime frontHeight frontTime =
        some (.ok h)) ↔
      manager.HasNear (manager.front frontHeight frontTime).1 (manager.shifted targetTime)) ∧
    ((∃ fuel h, manager.binarySearch fuel (manager.front frontHeight frontTime).1
        (manager.timestamp (manager.front frontHeight frontTime).1) manager.head
        (manager.timestamp manager.head) (manager.shifted targetTime) = some (.ok h)) ↔
      manager.HasNear (manager.front frontHeight frontTime).1 (manager.shifted targetTime)) := by
  have hlt : (manager.front frontHeight frontTime).1 < manager.head := by
    refine lt_of_le_of_ne hf.le_head fun heq => ?_
    rw [heq] at hfront
    omega
  have hends := binarySearch_ends_iff hmono hlt (manager.shifted targetTime)
  refine ⟨?_, hends⟩
  simp only [find_of_lt hf _ hfront]
  exact hends

/-- Blocks 0, 1 and 2, with a production gap of 100000 time units after each. -/
def sample (chainName : ChainEnum) : ChainManager := ⟨chainName, 0, 2, fun h => 100000 * h⟩

/-- The block before the target and the one after it are both far: the search goes on for ever. -/
theorem search_not_ends : ¬ ∀ (manager : ChainManager) (frontHeight : Nat)
    (frontTime targetTime : Int), manager.Monotone → manager.IsFront frontHeight frontTime →
      manager.timestamp (manager.front frontHeight frontTime).1 < targetTime →
      targetTime ≤ manager.timestamp manager.head →
      ∃ fuel h, manager.findHeightByTimestamp fuel targetTime frontHeight frontTime =
        some (.ok h) := by
  intro hall
  have hmono : (sample .bifrost).Monotone := by
    intro a b hab _
    show (100000 : Int) * a ≤ 100000 * b
    omega
  have hf : (sample .bifrost).IsFront 1 100000 := ⟨fun _ => rfl, by decide⟩
  obtain ⟨fuel, h, hfind⟩ := hall _ 1 100000 150000 hmono hf (by decide) (by decide)
  rw [find_of_lt hf fuel (by decide)] at hfind
  obtain ⟨x, hfront, hhead, hnear⟩ :=
    (binarySearch_ends_iff hmono (by decide) _).mp ⟨fuel, h, hfind⟩
  obtain rfl : x = 1 := le_antisymm (Nat.lt_succ_iff.mp hhead) hfront
  revert hnear
  decide

/-- A target 10000 after block 1 is near it. -/
theorem search_ends_near : ∃ fuel h,
    (sample .bifrost).findHeightByTimestamp fuel 110000 1 100000 = some (.ok h) := by
  have hmono : (sample .bifrost).Monotone := by
    intro a b hab _
    show (100000 : Int) * a ≤ 100000 * b
    omega
  have hf : (sample .bifrost).IsFront 1 100000 := ⟨fun _ => rfl, by decide⟩
  refine ((search_ends_iff hmono hf (by decide) (by decide)).1).mpr ⟨1, ?_, ?_, ?_⟩
  · decide
  · decide
  · decide

/-! ## Blocks that are close together -/

/-- From the front to the head, a block follows within less than 30000 time units. -/
def Dense (manager : ChainManager) (front : Nat) : Prop :=
  ∀ a, front ≤ a → a < manager.head → manager.timestamp (a + 1) - manager.timestamp a < 30000

/-- The search ends with the height `h`, with any fuel that lets it end. -/
def Returns (search : Nat → Option (Except Exn Nat)) (h : Nat) : Prop :=
  (∃ fuel, search fuel = some (.ok h)) ∧ ∀ fuel x, search fuel = some x → x = .ok h

/-- The last block before the target is near the shifted target. -/
theorem hasNear_of_dense {front : Nat} (hdense : manager.Dense front) (hle : front ≤ manager.head)
    (hfront : manager.timestamp front < targetTime)
    (hhead : targetTime ≤ manager.timestamp manager.head) :
    manager.HasNear front (targetTime - 30000) := by
  obtain ⟨h, hfh, hh, hbefore, hafter⟩ :=
    exists_lost (p := fun h => manager.timestamp h < targetTime) hle hfront (by omega)
  have hgap := hdense h hfh hh
  refine ⟨h, hfh, hh, ?_⟩
  rw [abs_lt]
  omega

/-- A search of an interval with a near block returns one. -/
theorem binarySearch_returns (hmono : manager.Monotone) {front : Nat} (hlt : front < manager.head)
    (hnear : manager.HasNear front targetTime) :
    ∃ h, Returns (manager.binarySearch · front (manager.timestamp front) manager.head
        (manager.timestamp manager.head) targetTime) h ∧
      front ≤ h ∧ h ≤ manager.head ∧ |targetTime - manager.timestamp h| < 30000 := by
  obtain ⟨fuel, h, hfind⟩ := (binarySearch_ends_iff hmono hlt targetTime).mpr hnear
  have hbis : ∀ n, manager.binarySearch n front (manager.timestamp front) manager.head
      (manager.timestamp manager.head) targetTime =
        (bisect (manager.probe targetTime) n front manager.head).map .ok :=
    fun n => binarySearch_eq hmono n hlt.le le_rfl targetTime
  have hhit : bisect (manager.probe targetTime) fuel front manager.head = some h := by
    rw [hbis] at hfind
    simpa using hfind
  obtain ⟨hprobed, heq⟩ := bisect_hit hlt.le hhit
  refine ⟨h, ⟨⟨fuel, hfind⟩, fun n x hx => ?_⟩, hprobed.1, hprobed.le hlt.le, probe_eq_iff.mp heq⟩
  -- two searches that end do so with one height
  dsimp only at hx
  rw [hbis] at hx
  obtain ⟨h', hh', rfl⟩ := Option.map_eq_some_iff.mp hx
  rcases Nat.le_total fuel n with hle | hle
  · rw [bisect_mono hhit hle] at hh'
    rw [Option.some.inj hh']
  · rw [bisect_mono hh' hle] at hhit
    rw [Option.some.inj hhit]

/-- **No event is skipped.** On an external chain with blocks that are close together, the search
returns the front, at or after the target, or a block less than 60000 before the target; every
block below it is before the target. -/
theorem height_skips_nothing (hext : manager.chainName ≠ .bifrost) (hmono : manager.Monotone)
    (hf : manager.IsFront frontHeight frontTime)
    (hdense : manager.Dense (manager.front frontHeight frontTime).1)
    (hhead : targetTime ≤ manager.timestamp manager.head) :
    ∃ h, Returns (manager.findHeightByTimestamp · targetTime frontHeight frontTime) h ∧
      (manager.front frontHeight frontTime).1 ≤ h ∧ h ≤ manager.head ∧
      (h = (manager.front frontHeight frontTime).1 ∧ targetTime ≤ manager.timestamp h ∨
        targetTime - 60000 < manager.timestamp h ∧ manager.timestamp h < targetTime) ∧
      ∀ b, (manager.front frontHeight frontTime).1 ≤ b → b < h →
        manager.timestamp b < targetTime := by
  rcases le_or_gt targetTime (manager.timestamp (manager.front frontHeight frontTime).1) with
    hle | hlt
  · have hfind := fun n => find_of_le hf n hle
    refine ⟨_, ⟨⟨0, hfind 0⟩, fun n x hx => ?_⟩, le_rfl, hf.le_head, .inl ⟨rfl, hle⟩, ?_⟩
    · dsimp only at hx
      rw [hfind n] at hx
      exact (Option.some.inj hx).symm
    · intro b hfb hb
      omega
  · have hne : (manager.front frontHeight frontTime).1 < manager.head := by
      refine lt_of_le_of_ne hf.le_head fun heq => ?_
      rw [heq] at hlt
      omega
    have hshift : manager.shifted targetTime = targetTime - 30000 := if_pos hext
    have hnear := hasNear_of_dense hdense hf.le_head hlt hhead
    obtain ⟨h, hret, hfh, hh, hclose⟩ := binarySearch_returns hmono hne hnear
    rw [abs_lt] at hclose
    simp only [find_of_lt hf _ hlt, hshift]
    refine ⟨h, hret, hfh, hh, .inr ⟨by omega, by omega⟩, fun b _ hb => ?_⟩
    have := hmono b h hb.le hh
    omega

/-- Ten blocks of an external chain, 12000 time units apart. -/
theorem height_skips_nothing_steady : ∃ h, Returns
    ((⟨.ethereum, 0, 10, fun h => 12000 * h⟩ : ChainManager).findHeightByTimestamp · 70000 0 0) h ∧
      h ≤ 10 := by
  have hmono : (⟨.ethereum, 0, 10, fun h => 12000 * h⟩ : ChainManager).Monotone := by
    intro a b hab _
    show (12000 : Int) * a ≤ 12000 * b
    omega
  have hdense : (⟨.ethereum, 0, 10, fun h => 12000 * h⟩ : ChainManager).Dense 0 := by
    intro a _ _
    show (12000 : Int) * ((a + 1 : Nat) : Int) - 12000 * a < 30000
    omega
  have hfront : (⟨.ethereum, 0, 10, fun h => 12000 * h⟩ : ChainManager).IsFront 0 0 :=
    ⟨fun h => by omega, by decide⟩
  obtain ⟨h, hret, -, hh, -⟩ :=
    height_skips_nothing (by decide) hmono hfront hdense (by decide : (70000 : Int) ≤ 12000 * 10)
  exact ⟨h, hret, hh⟩

end ChainManager

end Bifrost
