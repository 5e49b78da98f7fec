import Bifrost.Events.RoundUpTriples
import Bifrost.Loop.Coherent

/-!
# Triples of the loop

The triples of a whole handling, for every event and every outcome of its
transaction, and of a period of the feed. A handling keeps the marker of the feed,
signs at most the message of its event, with one status, and sends only what the
event sends (`triple_process`).
A period signs at most the list it reads, for the round it reads, and only when
that round is above the marker (`VSPFeed.triple_period`).
-/

namespace Bifrost

open Bifrost.Lib Proc

variable {X : Exn → Prop} {S : Bytes → Prop} {T : SendTx → Prop} {env : Env} {n l : Nat}

/-! ## Handlings -/

namespace RbcEvent

variable {self : RbcEvent} (hc : Copes env X self)

include hc

theorem triple_handleTxResult (outcome : TxOutcome) :
    Triple (issuing X S T) env (self.Held n l) (self.handleTxResult outcome)
      fun _ => Marked n l := by
  cases outcome with
  | success => exact (triple_handleTxResultSuccess hc).weaken fun _ _ => Held.marked
  | fail => exact triple_handleTxResultFail hc
  | noReceipt =>
    exact triple_guarded hc (fun _ => Held.marked)
      ((Triple.bind (triple_summary hc) fun _ => triple_handleTxResultFail hc).conseq
        (fun _ hs => hs.2) fun _ _ hs => hs)

theorem triple_processCall :
    Triple (issuing X S T) env (self.Held n l) self.processCall fun _ => Marked n l := by
  refine .bind (triple_buildCall hc) fun p => ?_
  cases p with
  | none => exact .pure fun _ => Held.marked
  | some tx =>
    exact .bind (triple_getRequest hc.rpc tx) fun info => .pull fun hinfo =>
      triple_handleCallResult hc hinfo

variable (hS : ∀ t, self.signedStatus? env.cfg.network = some t →
  S (self.msg.withStatus t).encode)

include hS

theorem triple_processSend (outcome : TxOutcome) :
    Triple (issuing X S fun _ => True) env (self.Held n l) (self.processSend outcome)
      fun _ => Marked n l := by
  refine .bind (triple_build hc hS) fun p => ?_
  cases p with
  | none => exact .pure fun _ hs => hs.2.2
  | some tx =>
    exact .bind (.emit (Q := fun _ => self.Held n l) trivial fun _ hs => hs.2)
      fun _ => triple_handleTxResult hc outcome

theorem triple_process (outcome : TxOutcome) :
    Triple (issuing X S fun _ => True) env (self.Held n l) (self.process outcome)
      fun _ => Marked n l := by
  unfold process
  cases self.mode with
  | send => exact triple_processSend hc hS outcome
  | call => exact triple_processCall hc

end RbcEvent

/-- What a handling sends its builder has returned, from reads of this very handling. -/
theorem RbcEvent.sends_of_sent {e : RbcEvent} {outcome : TxOutcome} {s s' : RState}
    {w : List Effect} {p : Option RbcEvent} (hmsg : (s.heap e.detectedEvent).decoded = e.msg)
    (h : e.process outcome env s = ⟨.ok p, s', w⟩) {tx : SendTx} (htx : .sent tx ∈ w) :
    e.Sends env s.now s'.now tx := by
  have hc := Copes.any env e
  have hheld : e.Held s.currentRound s.now s := ⟨hmsg, rfl, le_rfl⟩
  -- neither the builder nor a handler of the result sends anything itself
  have hbuild := triple_build (S := fun _ => True) (T := fun _ => False) (n := s.currentRound)
    (l := s.now) hc fun _ _ => trivial
  unfold process at h
  cases hmode : e.mode with
  | call =>
    rw [hmode] at h
    have hcall := triple_processCall (S := fun _ => True) (T := fun _ => False)
      (n := s.currentRound) (l := s.now) hc
    exact ((hcall.ok hheld h).2 _ htx).elim
  | send =>
    rw [hmode] at h
    rcases processSend_ok h with ⟨hb, -⟩ | ⟨tx', s₁, w₁, w₂, hb, hr, rfl⟩
    · exact ((hbuild.ok hheld hb).2 _ htx).elim
    · obtain ⟨⟨hsends, hheld₁⟩, hw₁⟩ := hbuild.ok hheld hb
      have hresult := triple_handleTxResult (S := fun _ => True) (T := fun _ => False)
        (n := s.currentRound) (l := s₁.now) hc outcome
      obtain ⟨hmarked, hw₂⟩ := hresult.ok ⟨hheld₁.1, hheld₁.2.1, le_rfl⟩ hr
      rcases List.mem_append.mp htx with htx | htx
      · exact (hw₁ _ htx).elim
      · rcases List.mem_cons.mp htx with heq | htx
        · cases heq
          exact (hsends _ rfl).mono hmarked.2
        · exact (hw₂ _ htx).elim

/-- What a handling of an event issues, when the log of the event holds its message. -/
theorem RbcEvent.process_issues {e : RbcEvent} {outcome : TxOutcome} {s s' : RState}
    {w : List Effect} {p : Option RbcEvent} (hmsg : (s.heap e.detectedEvent).decoded = e.msg)
    (h : e.process outcome env s = ⟨.ok p, s', w⟩) : s'.currentRound = s.currentRound ∧
      (∀ msg, .signed msg ∈ w → ∃ t, e.signedStatus? env.cfg.network = some t ∧
        msg = (e.msg.withStatus t).encode) ∧
      ∀ tx, .sent tx ∈ w → e.Sends env s.now s'.now tx := by
  have htriple := triple_process (n := s.currentRound) (l := s.now) (Copes.any env e)
    (S := fun msg => ∃ t, e.signedStatus? env.cfg.network = some t ∧
      msg = (e.msg.withStatus t).encode) (fun t ht => ⟨t, ht, rfl⟩) outcome
  obtain ⟨hmarked, hw⟩ := htriple.ok ⟨hmsg, rfl, le_rfl⟩ h
  exact ⟨hmarked.1, fun _ hs => hw _ hs, fun _ hs => sends_of_sent hmsg h hs⟩

theorem RoundUpEvent.triple_process {self : RoundUpEvent} (hc : RoundUpCopes env X self)
    (outcome : TxOutcome) :
    Triple (issuing X S fun _ => True) env (Marked n l) (self.process outcome)
      fun _ => Marked n l := by
  unfold RoundUpEvent.process
  cases hmode : self.mode with
  | call => exact .throw (hc.mode hmode)
  | send =>
    refine .bind (RoundUpEvent.triple_build hc) fun p => ?_
    cases p with
    | none => exact .pure fun _ hs => hs.2
    | some tx =>
      refine .bind (.emit (Q := fun _ => Marked n l) trivial fun _ hs => hs.2) fun _ => ?_
      cases outcome <;> exact .pure fun _ hs => hs

theorem RoundUpEvent.sends_of_sent {e : RoundUpEvent} {outcome : TxOutcome} {s s' : RState}
    {w : List Effect} {p : Option RoundUpEvent} (h : e.process outcome env s = ⟨.ok p, s', w⟩)
    {tx : SendTx} (htx : .sent tx ∈ w) : e.Sends env s.now s'.now tx := by
  have hbuild := triple_build (S := fun _ => True) (T := fun _ => False) (n := s.currentRound)
    (l := s.now) (RoundUpCopes.any env e)
  unfold process at h
  cases hmode : e.mode with
  | call =>
    rw [hmode] at h
    cases h
  | send =>
    rw [hmode] at h
    obtain ⟨q, s₁, w₁, w₂, hb, hr, rfl⟩ := Proc.bind_ok h
    obtain ⟨⟨hsends, -⟩, hw₁⟩ := hbuild.ok ⟨rfl, le_rfl⟩ hb
    rcases List.mem_append.mp htx with htx | htx
    · exact (hw₁ _ htx).elim
    · cases q with
      | none =>
        cases hr
        cases htx
      | some tx' =>
        -- the handlers of the result do nothing
        have hst : s' = s₁ ∧ w₂ = [.sent tx'] := by
          cases outcome <;> cases hr <;> exact ⟨rfl, rfl⟩
        obtain ⟨rfl, rfl⟩ := hst
        cases List.mem_singleton.mp htx
        exact hsends _ rfl

theorem RoundUpEvent.process_issues {e : RoundUpEvent} {outcome : TxOutcome} {s s' : RState}
    {w : List Effect} {p : Option RoundUpEvent}
    (h : e.process outcome env s = ⟨.ok p, s', w⟩) : s'.currentRound = s.currentRound ∧
      (∀ msg, .signed msg ∉ w) ∧ ∀ tx, .sent tx ∈ w → e.Sends env s.now s'.now tx := by
  have htriple := triple_process (n := s.currentRound) (l := s.now) (RoundUpCopes.any env e)
    (S := fun _ => False) outcome
  obtain ⟨hmarked, hw⟩ := htriple.ok ⟨rfl, le_rfl⟩ h
  exact ⟨hmarked.1, fun _ hs => (hw _ hs).elim, fun _ hs => sends_of_sent h hs⟩

/-! ## The feed -/

/-- The next read is the `k`-th, and the marker is `n`. -/
def Clock (k n : Nat) (s : RState) : Prop := s.now = k ∧ s.currentRound = n

/-- The exceptions are left open. -/
abbrev issuingAny (S : Bytes → Prop) (T : SendTx → Prop) : Policy Exn Effect :=
  issuing (fun _ => True) S T

theorem triple_clockRead {α : Type} {k : Nat} (chain : ChainEnum) (method : String)
    (answer : View → α) : Triple (issuingAny S T) env (Clock k n) (RM.worldCall chain method answer)
      fun a s => (env.down k = false ∧ a = answer (env.view k)) ∧ Clock (k + 1) n s := by
  rintro s ⟨rfl, rfl⟩
  rw [worldCall_run]
  refine ⟨fun o ho => ?_, ?_⟩
  · rw [List.mem_singleton.mp ho]
    trivial
  · cases hd : env.down s.now with
    | true => trivial
    | false => exact ⟨⟨rfl, rfl⟩, rfl, rfl⟩

namespace VSPFeed

variable {k rnd : Nat}

/-- The string of a vote for `rnd` whose list is the `k`-th read, which came through. -/
def VoteAt (env : Env) (k rnd : Nat) (msg : Bytes) : Prop :=
  env.down k = false ∧
    encodeRound rnd (sortedLower ((env.view k).selectedRelayers .bifrost true)) = some msg

theorem triple_exportRounds (chains : List ChainEnum) :
    Triple (issuingAny S T) env (Clock k n) (exportRounds chains) fun _ s =>
      (∀ i < chains.length, env.down (k + i) = false) ∧ Clock (k + chains.length) n s := by
  induction chains generalizing k with
  | nil => exact .pure fun _ hs => ⟨fun i hi => absurd hi (Nat.not_lt_zero i), hs⟩
  | cons c chains ih =>
    refine .bind (triple_clockRead _ _ _) fun _ => .pull fun hd => ih.weaken fun _ s hs => ?_
    obtain ⟨hup, hs⟩ := hs
    rw [Nat.add_right_comm] at hs
    refine ⟨fun i hi => ?_, hs⟩
    rcases i with _ | i
    · exact hd.1
    · have hi' := hup i (Nat.lt_of_succ_lt_succ hi)
      rwa [Nat.add_assoc, Nat.add_comm 1 i] at hi'

theorem triple_updateIndex : Triple (issuingAny S T) env (Clock k n) (updateIndex rnd)
    fun _ => Clock (k + 1) n := by
  refine .bind (.bind (.bind (triple_clockRead _ _ _) fun _ => .pull fun _ =>
    .pure (Q := fun _ => Clock (k + 1) n) fun _ hs => hs) fun _ => .bind
      (.ask (Q := fun _ => Clock (k + 1) n) fun _ hs => hs) fun _ =>
        .pure (Q := fun _ => Clock (k + 1) n) fun _ hs => hs) fun i => ?_
  cases i with
  | none => exact .pure fun _ hs => hs
  | some i =>
    exact .bind (.modify (Q := fun _ => Clock (k + 1) n) fun _ hs => hs) fun _ =>
      .pure fun _ hs => hs

theorem triple_vote : Triple (issuingAny (VoteAt env k rnd) T) env (Clock k n) (vote rnd)
    fun _ _ => True := by
  refine .bind (.bind (triple_clockRead _ _ _) fun _ => .pure (Q := fun l s => (env.down k = false ∧
    l = sortedLower ((env.view k).selectedRelayers .bifrost true)) ∧ Clock (k + 1) n s)
      fun _ hs => ⟨⟨hs.1.1, ?_⟩, hs.2⟩) fun l => .pull ?_
  · rw [hs.1.2]
    rfl
  rintro ⟨hup, rfl⟩
  refine .bind (.ofOption (Q := fun msg s => VoteAt env k rnd msg ∧ Clock (k + 1) n s)
    (fun _ => trivial) fun _ _ hmsg hs => ⟨⟨hup, hmsg⟩, hs⟩) fun msg => .pull fun hmsg => ?_
  refine .bind (.of_run (Q := fun _ _ => True) fun s _ => ⟨_, _, _, sign_run msg, trivial,
    fun o ho => ?_⟩) fun _ => .bind (.ofOption (Q := fun _ _ => True) (fun _ => trivial)
      fun _ _ _ _ => trivial) fun _ => .pure fun _ _ => trivial
  rw [List.mem_singleton.mp ho]
  exact hmsg

theorem triple_newRound :
    Triple (issuingAny (VoteAt env (k + 2) rnd) T) env (Clock k n) (newRound rnd)
      fun _ _ => True :=
  .bind triple_updateIndex fun _ => .bind (.ask (Q := fun _ => Clock (k + 1) n) fun _ hs => hs)
    fun _ => .bind (triple_clockRead _ _ _) fun _ => .pull fun _ =>
      .ite (fun _ => .pure fun _ _ => trivial) fun _ => triple_vote

/-- What a period signs: the list of one read, for the round of its first read, when the reads of
the rounds succeed and that round is above the marker. -/
def SignsAt (env : Env) (s : RState) (msg : Bytes) : Prop :=
  RoundsUp env s ∧ s.currentRound < readRound env s ∧
    VoteAt env (listRead env.cfg s.now) (readRound env s) msg

theorem triple_build (s₀ : RState) : Triple (issuingAny (SignsAt env s₀) T) env
    (Clock s₀.now s₀.currentRound) buildTransactionParams fun _ _ => True := by
  refine .bind (triple_clockRead _ _ _) fun rnd => .pull ?_
  rintro ⟨hfirst, rfl⟩
  refine .bind triple_getConfig fun cfg => .pull ?_
  rintro rfl
  refine .bind (triple_exportRounds _) fun _ => .pull fun hup => .bind (.get (Q := fun st s =>
    st.currentRound = s₀.currentRound ∧ Clock (s₀.now + 1 + env.cfg.supportedChainList.length)
      s₀.currentRound s) fun _ hs => ⟨hs.2, hs⟩) fun st => .pull fun hst => ?_
  refine .ite (fun _ => .pure fun _ _ => trivial) fun hlt => .bind (.modify (Q := fun _ =>
    Clock (s₀.now + 1 + env.cfg.supportedChainList.length) (readRound env s₀))
      fun _ hs => ⟨hs.1, rfl⟩) fun _ => ?_
  refine (triple_newRound (T := T)).mono (fun _ he => he) fun o ho => ?_
  cases o with
  | signed msg =>
    have hread : s₀.now + 1 + env.cfg.supportedChainList.length + 2 =
        listRead env.cfg s₀.now := by
      unfold listRead
      omega
    rw [hst] at hlt
    refine ⟨fun i hi => ?_, not_le.mp hlt, hread ▸ ho⟩
    rcases i with _ | i
    · exact hfirst
    · have hi' := hup i hi
      rwa [Nat.add_assoc, Nat.add_comm 1 i] at hi'
  | _ => exact ho

theorem triple_period (s₀ : RState) (outcome : TxOutcome) :
    Triple (issuingAny (SignsAt env s₀) fun _ => True) env (Clock s₀.now s₀.currentRound)
      (period outcome) fun _ _ => True := by
  refine .bind (triple_build s₀) fun p => ?_
  cases p with
  | none => exact .pure fun _ _ => trivial
  | some tx =>
    refine .bind (.emit (Q := fun _ _ => True) trivial fun _ _ => trivial) fun _ => ?_
    cases outcome <;> exact .pure fun _ _ => trivial

/-- What a period sends is what its builder has returned. -/
theorem build_of_sent {s : RState} {outcome : TxOutcome} {tx : SendTx}
    (h : .sent tx ∈ (period outcome env s).out) :
    ∃ s' w, buildTransactionParams env s = ⟨.ok (some tx), s', w⟩ := by
  have hbuild : Triple (issuingAny (SignsAt env s) fun _ => False) env
      (Clock s.now s.currentRound) buildTransactionParams fun _ _ => True := triple_build s
  have hnone := hbuild.out ⟨rfl, rfl⟩
  rcases Proc.mem_out_bind h with h | ⟨p, s₁, w₁, hrun, h⟩
  · exact (hnone _ h).elim
  · cases p with
    | none => cases h
    | some tx' =>
      have hsent : .sent tx ∈ [Effect.sent tx'] := by cases outcome <;> exact h
      cases List.mem_singleton.mp hsent
      exact ⟨s₁, w₁, hrun⟩

/-- The round of a signature is the marker behind the period. -/
theorem marker_of_signed {s : RState} {outcome : TxOutcome} {msg : Bytes}
    (h : .signed msg ∈ (period outcome env s).out) :
    SignsAt env s msg ∧ (period outcome env s).st.currentRound = readRound env s := by
  have hsigns : SignsAt env s msg := (triple_period s outcome).out ⟨rfl, rfl⟩ _ h
  refine ⟨hsigns, ?_⟩
  obtain ⟨hup, hnew, -⟩ := hsigns
  rw [period_st, period_fresh hup hnew, Res.after_st, newRound_st]

end VSPFeed

end Bifrost
