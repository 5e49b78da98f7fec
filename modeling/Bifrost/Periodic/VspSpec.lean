import Bifrost.Periodic.VspCase

/-!
# What a period of the feed votes for

`buildTransactionParams_ok` says which reads a vote is made of: the round is the
first read of the period, the validator list the last one. With a chain that has
one round and one relayer list at each read (`History`), the vote is true exactly
when both rounds have the same relayers.
-/

namespace Bifrost

open Bifrost.Lib

namespace VSPFeed

variable {env : Env} {s s' : RState} {w : List Effect}

/-- A period that returns a transaction: the round is new, and the vote is for it and for the
list of its last read; nothing else is signed. -/
theorem buildTransactionParams_ok {tx : SendTx}
    (h : buildTransactionParams env s = ⟨.ok (some tx), s', w⟩) :
    s.currentRound < (env.view s.now).latestRound .bifrost ∧
      ∃ msg sigs, encodeRound ((env.view s.now).latestRound .bifrost) (sortedLower
          ((env.view (listRead env.cfg s.now)).selectedRelayers .bifrost true)) = some msg ∧
        voteSig env msg = some sigs ∧
        tx = ⟨.bifrost, SOCKET_CONTRACT_NAME, ROUND_UP_FUNCTION_NAME,
          .roundControlPoll ((env.view s.now).latestRound .bifrost) (sortedLower
            ((env.view (listRead env.cfg s.now)).selectedRelayers .bifrost true)) sigs.tuple⟩ ∧
        ∀ b, .signed b ∈ w ↔ b = msg := by
  obtain ⟨hnew, -, -, -, msg, sigs, hmsg, hsigs, htx, rfl⟩ := period_vote h
  refine ⟨hnew, msg, sigs, hmsg, hsigs, htx, fun b => ?_⟩
  simp [roundCalls]

/-! ## Votes and the history of the chain -/

/-- At each read BIFROST is in one round, and lists the relayers of this round. -/
structure History (env : Env) where
  roundAt : Nat → Nat
  relayersOf : Nat → List Str
  latest : ∀ t, (env.view t).latestRound .bifrost = roundAt t
  current : ∀ t, (env.view t).selectedRelayers .bifrost true = relayersOf (roundAt t)

/-- The round and the list of the vote belong together. -/
def History.IsTrue {env : Env} (H : History env) (tx : SendTx) : Prop :=
  ∀ rnd validators sigs, tx.args = .roundControlPoll rnd validators sigs →
    validators = sortedLower (H.relayersOf rnd)

/-- **The voted pair.** A vote is for the relayers of its round if and only if the round in
which the list was read has the same relayers, up to order and letter case. -/
theorem vote_isTrue_iff (H : History env) {tx : SendTx}
    (h : buildTransactionParams env s = ⟨.ok (some tx), s', w⟩) :
    H.IsTrue tx ↔ ((H.relayersOf (H.roundAt (listRead env.cfg s.now))).map lower).Perm
      ((H.relayersOf (H.roundAt s.now)).map lower) := by
  obtain ⟨-, msg, sigs, -, -, rfl, -⟩ := buildTransactionParams_ok h
  rw [← sorted_eq_iff, ← H.current, ← H.latest s.now]
  constructor
  · intro htrue
    exact htrue _ _ _ rfl
  · intro heq rnd validators sigs' hargs
    cases hargs
    exact heq

end VSPFeed

/-! ## Votes across a round change -/

/-- BIFROST goes from round 6 to round 7, with one more relayer, before the read `change`. -/
def Sample.changingView (change t : Nat) : View :=
  { Sample.view [Sample.account.address.hex] .accepted with
    latestRound := fun _ => if t < change then 6 else 7
    selectedRelayers := fun _ _ =>
      Sample.account.address.hex :: if t < change then [] else [(Sample.address 2).hex] }

def Sample.history (change : Nat) : VSPFeed.History (Sample.env (Sample.changingView change)) where
  roundAt := fun t => if t < change then 6 else 7
  relayersOf := fun r => Sample.account.address.hex ::
    if r < 7 then [] else [(Sample.address 2).hex]
  latest := fun _ => rfl
  current := fun t => by
    show _ :: _ = _ :: _
    by_cases h : t < change <;> simp [h]

/-- The vote of the sample relayer for round 6. -/
def Sample.voteTx (validators : List Str) : SendTx :=
  ⟨.bifrost, SOCKET_CONTRACT_NAME, ROUND_UP_FUNCTION_NAME, .roundControlPoll 6 validators
    ⟨[ethHashBytes 0], [ethHashBytes 0], [27]⟩⟩

namespace VSPFeed

/-- A period whose reads all fall into round 6 votes for its relayers. -/
theorem vote_isTrue_stable : ∃ s' w, buildTransactionParams (Sample.env (Sample.changingView 9))
    (Sample.state Sample.outbound.msg) =
      ⟨.ok (some (Sample.voteTx [Sample.account.address.hex])), s', w⟩ ∧
    (Sample.history 9).IsTrue (Sample.voteTx [Sample.account.address.hex]) := by
  have hval : (buildTransactionParams (Sample.env (Sample.changingView 9))
      (Sample.state Sample.outbound.msg)).val.toOption =
        some (some (Sample.voteTx [Sample.account.address.hex])) := by decide +kernel
  obtain ⟨s', w, h⟩ := Res.ok_of_toOption hval
  exact ⟨s', w, h, (vote_isTrue_iff (Sample.history 9) h).mpr (.refl _)⟩

/-- A change before the last read makes a vote for round 6 with the relayers of round 7. -/
theorem vote_not_isTrue : ¬ ∀ (env : Env) (H : History env) (s s' : RState) (tx : SendTx)
    (w : List Effect), buildTransactionParams env s = ⟨.ok (some tx), s', w⟩ → H.IsTrue tx := by
  intro hall
  have hval : (buildTransactionParams (Sample.env (Sample.changingView 4))
      (Sample.state Sample.outbound.msg)).val.toOption = some (some
        (Sample.voteTx [Sample.account.address.hex, (Sample.address 2).hex])) := by decide +kernel
  obtain ⟨s', w, h⟩ := Res.ok_of_toOption hval
  have htrue := hall _ (Sample.history 4) _ _ _ _ h _ _ _ rfl
  revert htrue
  decide +kernel

end VSPFeed

end Bifrost
