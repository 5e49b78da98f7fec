import Bifrost.Lib.Collections
import Bifrost.Relayer.State

/-!
# Remote reads

The fetchers of `rbclib/utils.py`. Each is one remote read and a function of
its answer (`worldCall_map`), so one lemma gives its run: the value, the clock
one step on, and the chain and method it called.
-/

namespace Bifrost

open Bifrost.Lib

/-- `selected_relayers` or, for a given round, `previous_selected_relayers`. -/
def View.relayers (v : View) (chain : ChainEnum) (rnd : Option Int) (isInitial : Bool) :
    List Str :=
  match rnd with
  | none => v.selectedRelayers chain isInitial
  | some k => v.previousSelectedRelayers chain k isInitial

/-- The lower-cased relayer list, sorted. -/
def sortedLower (l : List Str) : List Str := sorted (l.map lower)

theorem sortedLower_length (l : List Str) : (sortedLower l).length = l.length := by
  rw [sortedLower, length_sorted, List.length_map]

/-- The index of the relayer in an answer that lists relayers. -/
def rank (answer : List Str) (a : Address) : Option Nat := index? (sortedLower answer) a.hex

/-! ## Ranks -/

/-- Sorting hex strings sorts the addresses. -/
theorem sorted_hex (l : List Address) : sorted (l.map Address.hex) = (sorted l).map Address.hex :=
  (map_sorted Address.hex_le_iff l).symm

section Rank

variable {addrs : List Address} {answer : List Str} {a a' : Address} {i : Nat}

/-- However the answer orders and spells the addresses, sorting it gives one list. -/
theorem sortedLower_eq (h : (answer.map lower).Perm (addrs.map Address.hex)) :
    sortedLower answer = (sorted addrs).map Address.hex := by
  rw [sortedLower, sorted_eq_iff.mpr h, sorted_hex]

theorem rank_lt (h : (answer.map lower).Perm (addrs.map Address.hex))
    (hi : rank answer a = some i) : i < addrs.length := by
  have hlt := index?_lt hi
  rwa [sortedLower_eq h, List.length_map, length_sorted] at hlt

/-- Distinct addresses have distinct ranks. -/
theorem rank_inj (hi : rank answer a = some i) (hi' : rank answer a' = some i) : a = a' := by
  have ha := getElem?_of_index? hi
  rw [getElem?_of_index? hi'] at ha
  exact (Address.hex_inj (Option.some.inj ha)).symm

/-- Each index below the size of the set is the rank of one of its addresses. -/
theorem exists_rank (hn : addrs.Nodup) (h : (answer.map lower).Perm (addrs.map Address.hex))
    (hi : i < addrs.length) : ∃ a ∈ addrs, rank answer a = some i := by
  have hnodup : (sortedLower answer).Nodup := by
    rw [sortedLower, nodup_sorted, h.nodup_iff]
    exact hn.map fun _ _ => Address.hex_inj
  have hlt : i < (sorted addrs).length := by rwa [length_sorted]
  refine ⟨(sorted addrs)[i], mem_sorted.mp (List.getElem_mem hlt), ?_⟩
  rw [rank, index?_eq_some hnodup, sortedLower_eq h, List.getElem?_map,
    List.getElem?_eq_getElem hlt, Option.map_some]

end Rank

namespace RM

def fetchLatestRound (chain : ChainEnum) : RM Nat :=
  worldCall chain "latest_round" fun v => v.latestRound chain

/-- The loop of `fetch_bottom_round`, from the least round so far. -/
def bottomLoop : List ChainEnum → Nat → RM Nat
  | [], bottomRound => pure bottomRound
  | chain :: chains, bottomRound => do
    let roundNum ← fetchLatestRound chain
    bottomLoop chains (if bottomRound > roundNum then roundNum else bottomRound)

def fetchBottomRound : RM Nat := do
  let cfg ← getConfig
  bottomLoop cfg.supportedChainList (2 ^ 256 - 1)

def isSelectedRelayer (chain : ChainEnum) (rnd : Option Int) (relayerAddress : Address)
    (isInitial : Bool) : RM Bool :=
  match rnd with
  | none => worldCall chain "is_selected_relayer" fun v =>
      v.isSelectedRelayer chain relayerAddress.hex isInitial
  | some k => worldCall chain "is_previous_selected_relayer" fun v =>
      v.isPreviousSelectedRelayer chain k relayerAddress.hex isInitial

def fetchSortedRelayerListLower (chain : ChainEnum) (rnd : Option Int) (isInitial : Bool) :
    RM (List Str) := do
  let method := if rnd.isNone then "selected_relayers" else "previous_selected_relayers"
  let validatorList ← worldCall chain method fun v => v.relayers chain rnd isInitial
  pure (sortedLower validatorList)

def fetchRelayerIndex (chain : ChainEnum) (rnd : Option Int) (relayerAddress : Option Address) :
    RM (Option Nat) := do
  let sortedRelayerList ← fetchSortedRelayerListLower chain rnd true
  let env ← Proc.ask
  let address := lower (relayerAddress.getD env.account.address).hex
  pure (index? sortedRelayerList address)

def fetchRelayerNum (chain : ChainEnum) (isInitial : Bool) : RM Nat := do
  let validators ← fetchSortedRelayerListLower chain none isInitial
  pure validators.length

def fetchQuorum (chain : ChainEnum) (rnd : Option Int) (isInitial : Bool) : RM Nat :=
  match rnd with
  | none => worldCall chain "majority" fun v => v.majority chain isInitial
  | some k => worldCall chain "previous_majority" fun v => v.previousMajority chain k isInitial

def fetchSocketRbcSigs (rid : RequestId) (status : ChainEventStatus) : RM SigTuple :=
  worldCall .bifrost "get_signatures" fun v => v.getSignatures rid status.value

def fetchSocketVspSigs (rnd : Nat) : RM SigTuple :=
  worldCall .bifrost "get_round_signatures" fun v => v.getRoundSignatures rnd

/-- The call a `CallTx` asks for, and the answer the chain gives. -/
def getRequest (tx : CallTx) : RM RequestInfo := do
  let info ← worldCall tx.chain tx.method fun v => v.getRequest tx.chain tx.rid
  Proc.emit (.request tx.chain tx.rid info)
  pure info

end RM

/-! ## Runs of the fetchers -/

section Run

variable {α β : Type} {env : Env} {s : RState}

/-- What the next read answers. -/
def Env.read (env : Env) (s : RState) (answer : View → α) : Except Exn α :=
  if env.down s.now then .error .rpc else .ok (answer (env.view s.now))

theorem worldCall_map (chain : ChainEnum) (method : String) (answer : View → α) (f : α → β) :
    (do let a ← RM.worldCall chain method answer; pure (f a) : RM β) env s =
      ⟨env.read s fun v => f (answer v), s.tick, [.called chain method]⟩ := by
  rw [Proc.bind_run, worldCall_run]
  unfold Env.read
  split <;> simp

theorem fetchLatestRound_run (chain : ChainEnum) : RM.fetchLatestRound chain env s =
    ⟨env.read s fun v => v.latestRound chain, s.tick, [.called chain "latest_round"]⟩ :=
  worldCall_run ..

theorem fetchSortedRelayerListLower_run (chain : ChainEnum) (rnd : Option Int) (b : Bool) :
    RM.fetchSortedRelayerListLower chain rnd b env s =
      ⟨env.read s fun v => sortedLower (v.relayers chain rnd b), s.tick, [.called chain
        (if rnd.isNone then "selected_relayers" else "previous_selected_relayers")]⟩ :=
  worldCall_map ..

theorem fetchRelayerIndex_run (chain : ChainEnum) (rnd : Option Int) (a : Option Address) :
    RM.fetchRelayerIndex chain rnd a env s =
      ⟨env.read s fun v =>
          rank (v.relayers chain rnd true) (a.getD env.account.address),
        s.tick, [.called chain
          (if rnd.isNone then "selected_relayers" else "previous_selected_relayers")]⟩ := by
  unfold RM.fetchRelayerIndex
  rw [Proc.bind_run, fetchSortedRelayerListLower_run]
  unfold Env.read
  split <;> simp [rank]

theorem fetchRelayerNum_run (chain : ChainEnum) (b : Bool) : RM.fetchRelayerNum chain b env s =
    ⟨env.read s fun v => (v.selectedRelayers chain b).length, s.tick,
      [.called chain "selected_relayers"]⟩ := by
  unfold RM.fetchRelayerNum
  rw [Proc.bind_run, fetchSortedRelayerListLower_run]
  unfold Env.read
  split <;> simp [sortedLower, View.relayers]

theorem fetchSocketRbcSigs_run (rid : RequestId) (status : ChainEventStatus) :
    RM.fetchSocketRbcSigs rid status env s = ⟨env.read s fun v => v.getSignatures rid status.value,
      s.tick, [.called .bifrost "get_signatures"]⟩ :=
  worldCall_run ..

theorem isSelectedRelayer_ok {chain : ChainEnum} {k : Int} {a : Address} {b v : Bool}
    {s' : RState} {w : List Effect}
    (h : RM.isSelectedRelayer chain (some k) a b env s = ⟨.ok v, s', w⟩) :
    v = (env.view s.now).isPreviousSelectedRelayer chain k a.hex b ∧ s' = s.tick ∧
      w = [.called chain "is_previous_selected_relayer"] := by
  unfold RM.isSelectedRelayer at h
  exact worldCall_ok h

theorem isSelectedRelayer_up {chain : ChainEnum} {k : Int} {a : Address} {b v : Bool}
    {s' : RState} {w : List Effect}
    (h : RM.isSelectedRelayer chain (some k) a b env s = ⟨.ok v, s', w⟩) :
    env.down s.now = false := by
  unfold RM.isSelectedRelayer at h
  dsimp only at h
  rw [worldCall_run] at h
  by_contra hd
  rw [if_pos (by simpa using hd)] at h
  cases h

theorem read_ok {answer : View → α} {a : α} (h : env.read s answer = .ok a) :
    env.down s.now = false ∧ a = answer (env.view s.now) := by
  unfold Env.read at h
  split at h
  · cases h
  · next hd =>
    cases h
    exact ⟨by simpa using hd, rfl⟩

theorem read_up {answer : View → α} (h : env.down s.now = false) :
    env.read s answer = .ok (answer (env.view s.now)) := by
  rw [Env.read, h]
  rfl

end Run

end Bifrost
