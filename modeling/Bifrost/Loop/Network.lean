import Bifrost.Lib.Interleave
import Bifrost.Lib.Quorum
import Bifrost.Loop.Provenance
import Bifrost.Periodic.VspRun

/-!
# Many relayers

A process signs at most one validator list for each round: a vote raises the
marker to its round, and nothing else moves the marker (`one_list`). A network
runs the processes of all relayers in any interleaving, each with its own answers
from the chains; the faulty ones do anything. A payload is certified when enough
relayers have signed it. Then some honest one has seen a log that justifies it
(`certified_grounded`), the two outcomes of an inbound request are not both
certified unless an honest relayer has seen both (`certified_both`), and a round
has one certified list (`certified_list`).
-/

namespace Bifrost

open Bifrost.Lib

/-! ## One list for a round -/

section OneList

variable {env : Env} {hist acts : List Act} {n n' : Node}

/-- The rounds that were voted for are up to the marker, and each has one list. -/
structure OneList (cfg : Config) (hist : List Act) (n : Node) : Prop where
  traced : Traced cfg hist n
  marked : ∀ r l, SignedIn hist (.validators r l) → r.val ≤ n.loop.st.currentRound
  unique : ∀ r l l', SignedIn hist (.validators r l) → SignedIn hist (.validators r l') → l = l'

/-- An act that signs no list and keeps the marker. -/
theorem OneList.quiet {a : Act} (h : OneList env.cfg hist n) (ht : Traced env.cfg (hist ++ [a]) n')
    (hround : n'.loop.st.currentRound = n.loop.st.currentRound)
    (hno : ∀ r l, .signed (Payload.validators r l).encode ∉ a.out) :
    OneList env.cfg (hist ++ [a]) n' := by
  have hold : ∀ {r l}, SignedIn (hist ++ [a]) (.validators r l) →
      SignedIn hist (.validators r l) := fun {r l} hs => hs.append.resolve_right (hno r l)
  refine ⟨ht, fun r l hs => ?_, fun r l l' hs hs' => h.unique r l l' (hold hs) (hold hs')⟩
  rw [hround]
  exact h.marked r l (hold hs)

/-- A period votes for a round above the marker, with the one list it reads. -/
theorem OneList.period {st : RState} {queue : List Queued} {next : Ref} {outcome : TxOutcome}
    (h : OneList env.cfg hist ⟨⟨st, queue⟩, next⟩)
    (ht : Traced env.cfg (hist ++ [.fed (VSPFeed.period outcome env st).out])
      ⟨⟨(VSPFeed.period outcome env st).st, queue⟩, next⟩) :
    OneList env.cfg (hist ++ [.fed (VSPFeed.period outcome env st).out])
      ⟨⟨(VSPFeed.period outcome env st).st, queue⟩, next⟩ := by
  have hnew : ∀ {r l}, .signed (Payload.validators r l).encode ∈
      (VSPFeed.period outcome env st).out → r.val = VSPFeed.readRound env st ∧
        st.currentRound < r.val ∧
        (VSPFeed.period outcome env st).st.currentRound = r.val ∧
        (sortedLower ((env.view (VSPFeed.listRead env.cfg st.now)).selectedRelayers .bifrost
          true)).mapM Address.ofHex? = some l := by
    intro r l hs
    obtain ⟨⟨-, hlt, -, hvote⟩, hmarker⟩ := VSPFeed.marker_of_signed hs
    obtain ⟨r', l', hr', hl', heq⟩ := encodeRound_payload.mp hvote
    obtain ⟨rfl, rfl⟩ := Payload.validators_inj heq
    exact ⟨hr', hr' ▸ hlt, hmarker.trans hr'.symm, hl'⟩
  have hle : st.currentRound ≤ (VSPFeed.period outcome env st).st.currentRound := by
    rw [VSPFeed.period_st]
    exact VSPFeed.le_currentRound env st
  refine ⟨ht, fun r l hs => ?_, fun r l l' hs hs' => ?_⟩
  · rcases hs.append with hs | hs
    · exact (h.marked r l hs).trans hle
    · exact (hnew hs).2.2.1.ge
  · rcases hs.append with hs | hs <;> rcases hs'.append with hs' | hs'
    · exact h.unique r l l' hs hs'
    · exact absurd (h.marked r l hs) (not_le.mpr (hnew hs').2.1)
    · exact absurd (h.marked r l' hs') (not_le.mpr (hnew hs).2.1)
    · exact Option.some.inj ((hnew hs).2.2.2.symm.trans (hnew hs').2.2.2)

theorem currentRound_of_init {log : RoundUpLog} {timeLock : Nat} {s s' : RState}
    {e : RoundUpEvent} {w : List Effect}
    (h : RoundUpEvent.init log timeLock env s = ⟨.ok e, s', w⟩) :
    s'.currentRound = s.currentRound := by
  have hconstruct : ∀ t, Proc.Keeps (fun _ t => t.currentRound = s.currentRound)
      (RoundUpEvent.construct log t) := fun _ =>
    .bind (.bind .ask fun _ => .pure _) fun _ => .ite (.throw _) (.pure _)
  have hkeeps : Proc.Keeps (fun _ t => t.currentRound = s.currentRound)
      (RoundUpEvent.init log timeLock) :=
    .bind (.bind .ask fun _ => .pure _) fun _ => .ite (hconstruct _)
      (.bind (.bind .ask fun _ => .bind .get fun _ => .pure _) fun _ =>
        .bind (.ofOption _ _) fun _ => hconstruct _)
  have hst := hkeeps env s rfl
  rwa [h] at hst

/-- The process starts at most at the begin of its acts. -/
def OneLife (acts : List Act) : Prop := ∀ a ∈ acts.tail, a.isBoot = false

instance (acts : List Act) : Decidable (OneLife acts) :=
  inferInstanceAs (Decidable (∀ a ∈ acts.tail, a.isBoot = false))

theorem OneLife.of_append {acts acts' : List Act} (h : OneLife (acts ++ acts')) :
    OneLife acts := by
  cases acts with
  | nil => exact fun a ha => by cases ha
  | cons b acts => exact fun a ha => h a (List.mem_append_left _ ha)

theorem OneLife.boot {es : List RbcEvent} {us : List RoundUpEvent} {w : List Effect}
    (h : OneLife (hist ++ [.booted es us w])) : hist = [] := by
  cases hist with
  | nil => rfl
  | cons b hist => cases h _ (List.mem_append_right _ (List.mem_singleton_self _))

theorem oneList_step (h : OneList env.cfg hist n) (hlife : OneLife (hist ++ acts))
    (hstep : NodeStep env n acts n') : OneList env.cfg (hist ++ acts) n' := by
  have ht := traced_step h.traced hstep
  cases hstep with
  | detect log timeLock e w hd =>
    obtain ⟨rfl, -, -⟩ := RbcEvent.detect_ok hd
    exact h.quiet ht rfl fun _ _ hs => by cases hs
  | passOver queue log timeLock w hd =>
    obtain ⟨rfl, -, -⟩ := RbcEvent.detect_ok hd
    rw [List.append_nil] at ht ⊢
    exact ⟨ht, h.marked, h.unique⟩
  | detectRoundUp next log timeLock e w hinit =>
    exact h.quiet ht (currentRound_of_init hinit) fun _ _ hs => by cases hs
  | handle next hd hloop =>
    obtain ⟨hround, hsigned, -⟩ := h.traced.issues hloop
    refine h.quiet ht hround fun r l hs => ?_
    obtain ⟨e, -, t, -, heq⟩ := hsigned _ hs
    exact Payload.request_ne_validators _ _ _ heq.symm
  | period st queue next outcome _ => exact h.period ht
  | wait st queue next =>
    rw [List.append_nil] at ht ⊢
    exact ⟨ht, h.marked, h.unique⟩
  | restart queue order roundUpOrder timeLock logs roundUps es us w hboot =>
    -- a new process has a marker of its own, but nothing has been signed before
    obtain rfl := hlife.boot
    have hnone : ∀ p, ¬ SignedIn ([] ++ [.booted es us w]) p := by
      rintro p ⟨a, ha, hs⟩
      rw [List.mem_singleton.mp ha] at hs
      exact (Relayer.boot_ok hboot).1 _ hs
    exact ⟨ht, fun r l hs => absurd hs (hnone _), fun r l l' hs => absurd hs (hnone _)⟩

/-- Between two starts, a process signs at most one list for each round. -/
theorem one_list (hrun : NodeRun env n acts n') (hstart : n.loop.queue = [])
    (hlife : OneLife acts) {r : Fin (2 ^ 256)} {l l' : List Address}
    (hl : SignedIn acts (.validators r l)) (hl' : SignedIn acts (.validators r l')) : l = l' := by
  have hnone : ∀ p, ¬ SignedIn [] p := fun p ⟨_, ha, _⟩ => List.not_mem_nil ha
  have h0 : OneList env.cfg [] n := ⟨.start hstart, fun _ _ hs => absurd hs (hnone _),
    fun _ _ _ hs => absurd hs (hnone _)⟩
  exact (hrun.invariant (P := fun hist n => OneLife hist → OneList env.cfg hist n) (fun _ => h0)
    (fun ih hstep hlife => oneList_step (ih hlife.of_append) hlife hstep) hlife).unique r l l'
      hl hl'

end OneList

/-! ## Networks -/

/-- The relayers `ι`. An honest one runs a process in an environment of its own, on the one
network; a faulty one makes any steps. -/
structure Fleet (ι : Type) where
  network : Network
  faulty : Finset ι
  env : ι → Env
  step : ι → Node → List Act → Node → Prop
  honest : ∀ i ∉ faulty, ∀ n acts n', step i n acts n' → NodeStep (env i) n acts n'
  network_eq : ∀ i ∉ faulty, (env i).cfg.network = network

/-- Messages that agree up to their statuses. -/
theorem RbcEvent.msg_of_withStatus {d : RbcEvent} {m : SocketMsg} {t t' : ChainEventStatus}
    (h : m.withStatus t = d.msg.withStatus t') : t' = t ∧ d.msg = m.withStatus d.status := by
  refine ⟨?_, ?_⟩
  · apply ChainEventStatus.value_inj
    rw [← d.msg.withStatus_status t', ← h, SocketMsg.withStatus_status]
  · have hd := congrArg (·.withStatus d.status) h
    simp only [SocketMsg.withStatus_withStatus] at hd
    rw [hd, d.msg_withStatus]

namespace Fleet

variable {ι : Type} [DecidableEq ι] {F : Fleet ι} {g g' : ι → Node} {acts : List (ι × Act)}
  {t : Nat} {m : SocketMsg}

/-- At least `t` relayers have signed the payload. -/
def Certified (F : Fleet ι) (acts : List (ι × Act)) (t : Nat) (p : Payload) : Prop :=
  Lib.Certified F.faulty (fun i p => SignedIn (labelsOf i acts) p) t p

variable (hrun : Run (Interleave F.step) g acts g')
  (hstart : ∀ i ∉ F.faulty, (g i).loop.queue = [])

include hrun

/-- In any interleaving each honest relayer runs its process. -/
theorem process_run {i : ι} (hi : i ∉ F.faulty) :
    NodeRun (F.env i) (g i) (labelsOf i acts) (g' i) :=
  (hrun.component i).mono (F.honest i hi)

include hstart

theorem grounded_of_signed {i : ι} (hi : i ∉ F.faulty)
    (h : SignedIn (labelsOf i acts) (.request m)) :
    ∃ d ∈ detectedIn (labelsOf i acts), ∃ s, d.Justifies F.network s ∧ m = d.msg.withStatus s := by
  obtain ⟨d, hd, s, hjust, hm⟩ := exists_justified (process_run hrun hi) (hstart i hi) h
  rw [F.network_eq i hi] at hjust
  exact ⟨d, hd, s, hjust, hm⟩

/-- **Validity.** More signatures than there are faulty relayers: an honest one has detected a log
of this very message that justifies the status. -/
theorem certified_grounded (ht : F.faulty.card < t) (h : F.Certified acts t (.request m)) :
    ∃ i ∉ F.faulty, ∃ d ∈ detectedIn (labelsOf i acts), ∃ s,
      d.Justifies F.network s ∧ m = d.msg.withStatus s := by
  obtain ⟨i, hi, hsigned⟩ := h.exists_votes ht
  exact ⟨i, hi, grounded_of_signed hrun hstart hi hsigned⟩

variable [Fintype ι]

/-- **No two outcomes.** Two quorums for opposite outcomes of an inbound request share an honest
relayer that has detected its EXECUTED and its REVERTED log. -/
theorem certified_both (ht : Fintype.card ι + F.faulty.card < 2 * t)
    (hinbound : ChainEnum.fromBytes F.network m.chain.val ≠ some .bifrost)
    (hacc : F.Certified acts t (.request (m.withStatus .accepted)))
    (hrej : F.Certified acts t (.request (m.withStatus .rejected))) :
    ∃ i ∉ F.faulty,
      (∃ d ∈ detectedIn (labelsOf i acts), d.cls = .executed ∧ d.msg = m.withStatus .executed) ∧
      ∃ d ∈ detectedIn (labelsOf i acts), d.cls = .reverted ∧ d.msg = m.withStatus .reverted := by
  obtain ⟨i, hi, hsacc, hsrej⟩ := hacc.exists_both hrej ht
  obtain ⟨d, hd, s, hjust, heq⟩ := grounded_of_signed hrun hstart hi hsacc
  obtain ⟨d', hd', s', hjust', heq'⟩ := grounded_of_signed hrun hstart hi hsrej
  obtain ⟨rfl, hmsg⟩ := RbcEvent.msg_of_withStatus heq
  obtain ⟨rfl, hmsg'⟩ := RbcEvent.msg_of_withStatus heq'
  have hcls : d.cls = .executed := by
    rcases hjust with hcls | ⟨-, hsrc⟩
    · exact hcls
    · unfold RbcEvent.srcChain? at hsrc
      rw [hmsg] at hsrc
      exact absurd hsrc hinbound
  have hcls' : d'.cls = .reverted := hjust'
  refine ⟨i, hi, ⟨d, hd, hcls, ?_⟩, d', hd', hcls', ?_⟩
  · rw [hmsg, RbcEvent.status, hcls]
    rfl
  · rw [hmsg', RbcEvent.status, hcls']
    rfl

/-- **One list.** Where no honest relayer starts again, a round has at most one list that a quorum
has signed. -/
theorem certified_list (ht : Fintype.card ι + F.faulty.card < 2 * t)
    (hlife : ∀ i ∉ F.faulty, OneLife (labelsOf i acts)) {r : Fin (2 ^ 256)}
    {l l' : List Address} (h : F.Certified acts t (.validators r l))
    (h' : F.Certified acts t (.validators r l')) : l = l' := by
  have hvotes : ∀ i ∉ F.faulty, SignedIn (labelsOf i acts) (.validators r l) →
      SignedIn (labelsOf i acts) (.validators r l') →
        Payload.validators r l = .validators r l' := by
    intro i hi hl hl'
    rw [one_list (process_run hrun hi) (hstart i hi) (hlife i hi) hl hl']
  exact (Payload.validators_inj (congrArg _ (h.unique hvotes h' ht))).2

end Fleet

/-! ## Four relayers, one of them faulty -/

namespace Sample

def fleetEnv (i : Fin 4) : Env := memberEnv [1, 2, 3, 4] (⟨i.val + 1, by omega⟩ : Byte) .requested

/-- The last relayer does anything. -/
def fleet : Fleet (Fin 4) where
  network := .mainnet
  faulty := {3}
  env := fleetEnv
  step := fun i n acts n' => i = 3 ∨ NodeStep (fleetEnv i) n acts n'
  honest := fun _ hi _ _ _ h => h.resolve_left fun heq => hi (Finset.mem_singleton.mpr heq)
  network_eq := fun _ _ => rfl

/-- An input to one of the relayers, or anything that the faulty one signs. -/
inductive FleetInput where
  | run (i : Fin 4) (input : NodeInput)
  | forge (p : Payload)

def fleetStep? : FleetInput → (Fin 4 → Node) → Option ((Fin 4 × Act) × (Fin 4 → Node))
  | .run i input, g => (Node.step? (fleetEnv i) input (g i)).map fun p =>
      ((i, p.1), Function.update g i p.2)
  | .forge p, g => some ((3, .fed [.signed p.encode]), g)

theorem step_of_fleetStep? {input : FleetInput} {g g' : Fin 4 → Node} {l : Fin 4 × Act}
    (h : fleetStep? input g = some (l, g')) : Interleave fleet.step g [l] g' := by
  cases input with
  | run i input =>
    obtain ⟨⟨a, n'⟩, hstep, heq⟩ := Option.map_eq_some_iff.mp h
    cases heq
    exact .move (l := [a]) i (.inr (step_of_step? hstep))
  | forge p =>
    cases h
    have hmove : Interleave fleet.step g _ (Function.update g 3 (g 3)) :=
      .move (l := [.fed [.signed p.encode]]) 3 (.inl rfl)
    rwa [Function.update_eq_self] at hmove

/-- What the inputs compute is a run of the fleet, of which a decidable property can be
evaluated. -/
theorem exists_fleetRun (inputs : List FleetInput)
    (P : List (Fin 4 × Act) → (Fin 4 → Node) → Prop) [∀ acts g, Decidable (P acts g)]
    (h : (Run.exec fleetStep? inputs fun _ => node).any fun p => P p.1 p.2) :
    ∃ acts g, Run (Interleave fleet.step) (fun _ => node) acts g ∧ P acts g := by
  obtain ⟨⟨acts, g⟩, hr, hP⟩ := (Option.any_eq_true _ _).mp h
  exact ⟨acts, g, Run.of_exec (f := fleetStep?) (fun _ _ _ _ => step_of_fleetStep?) hr,
    by simpa using hP⟩

/-- The request of the sample, in no status yet. -/
def openRequest : SocketMsg := msg .ethereum .bifrost .none

def committee : List Address := [address 1, address 2, address 3, address 4]

/-- One relayer sees the EXECUTED log of a request from ETHEREUM, one the REVERTED log and one
both. The faulty relayer signs both outcomes, and two lists for the new round. -/
def fleetInputs : List FleetInput :=
  [.run 0 (.detect (.ofMsg (msg .ethereum .bifrost .executed) 7) 1),
    .run 1 (.detect (.ofMsg (msg .ethereum .bifrost .executed) 7) 1),
    .forge (.request (openRequest.withStatus .accepted)),
    .run 2 (.detect (.ofMsg (msg .ethereum .bifrost .reverted) 9) 1),
    .run 1 (.handleHead .success), .run 0 (.handleHead .fail),
    .forge (.validators nextRound []),
    .run 1 (.detect (.ofMsg (msg .ethereum .bifrost .reverted) 9) 1),
    .run 2 (.handleHead .success), .run 1 (.handleHead .noReceipt),
    .forge (.request (openRequest.withStatus .rejected)),
    .run 0 (.period .success), .forge (.validators nextRound committee), .run 1 (.period .fail)]

/-- Some three relayers sign for each outcome, and some three for the list. -/
theorem exists_splitRun : ∃ acts g', Run (Interleave fleet.step) (fun _ => node) acts g' ∧
    (∀ i : Fin 4, i ∈ ([0, 1, 3] : List (Fin 4)) →
      SignedIn (labelsOf i acts) (.request (openRequest.withStatus .accepted)) ∧
        SignedIn (labelsOf i acts) (.validators nextRound committee)) ∧
    (∀ i : Fin 4, i ∈ ([1, 2, 3] : List (Fin 4)) →
      SignedIn (labelsOf i acts) (.request (openRequest.withStatus .rejected))) ∧
    ∀ i : Fin 4, OneLife (labelsOf i acts) :=
  exists_fleetRun fleetInputs _ (by decide +kernel)

end Sample

namespace Fleet

/-- An honest relayer and the faulty one sign ACCEPTED, and the honest one has seen why. -/
theorem certified_grounded_split : ∃ acts g',
    Run (Interleave Sample.fleet.step) (fun _ => Sample.node) acts g' ∧
    Sample.fleet.Certified acts 2 (.request (Sample.openRequest.withStatus .accepted)) ∧
    ∃ i ∉ Sample.fleet.faulty, ∃ d ∈ detectedIn (labelsOf i acts), ∃ s, d.Justifies .mainnet s ∧
      Sample.openRequest.withStatus .accepted = d.msg.withStatus s := by
  obtain ⟨acts, g', hrun, hacc, -, -⟩ := Sample.exists_splitRun
  have hcert : Sample.fleet.Certified acts 2
      (.request (Sample.openRequest.withStatus .accepted)) :=
    ⟨{0, 3}, by decide, fun i hi _ => (hacc i (by revert i; decide)).1⟩
  exact ⟨acts, g', hrun, hcert, certified_grounded hrun (fun _ _ => rfl) (by decide : 1 < 2) hcert⟩

/-- Two quorums of three, each with the faulty relayer in it, share one that has seen both logs. -/
theorem certified_both_split : ∃ acts g',
    Run (Interleave Sample.fleet.step) (fun _ => Sample.node) acts g' ∧
    Sample.fleet.Certified acts 3 (.request (Sample.openRequest.withStatus .accepted)) ∧
    Sample.fleet.Certified acts 3 (.request (Sample.openRequest.withStatus .rejected)) ∧
    ∃ i ∉ Sample.fleet.faulty,
      (∃ d ∈ detectedIn (labelsOf i acts), d.cls = .executed ∧
        d.msg = Sample.openRequest.withStatus .executed) ∧
      ∃ d ∈ detectedIn (labelsOf i acts), d.cls = .reverted ∧
        d.msg = Sample.openRequest.withStatus .reverted := by
  obtain ⟨acts, g', hrun, hacc, hrej, -⟩ := Sample.exists_splitRun
  have hacc' : Sample.fleet.Certified acts 3
      (.request (Sample.openRequest.withStatus .accepted)) :=
    ⟨{0, 1, 3}, by decide, fun i hi _ => (hacc i (by revert i; decide)).1⟩
  have hrej' : Sample.fleet.Certified acts 3
      (.request (Sample.openRequest.withStatus .rejected)) :=
    ⟨{1, 2, 3}, by decide, fun i hi _ => hrej i (by revert i; decide)⟩
  exact ⟨acts, g', hrun, hacc', hrej', certified_both hrun (fun _ _ => rfl)
    (by decide : 4 + 1 < 2 * 3) (by decide +kernel) hacc' hrej'⟩

/-- A quorum of three has signed a list, and no other one can have, whatever the faulty relayer
signs. -/
theorem certified_list_split : ∃ acts g',
    Run (Interleave Sample.fleet.step) (fun _ => Sample.node) acts g' ∧
    Sample.fleet.Certified acts 3 (.validators Sample.nextRound Sample.committee) ∧
      ∀ l, Sample.fleet.Certified acts 3 (.validators Sample.nextRound l) →
        l = Sample.committee := by
  obtain ⟨acts, g', hrun, hacc, -, hlife⟩ := Sample.exists_splitRun
  have hcert : Sample.fleet.Certified acts 3 (.validators Sample.nextRound Sample.committee) :=
    ⟨{0, 1, 3}, by decide, fun i hi _ => (hacc i (by revert i; decide)).2⟩
  exact ⟨acts, g', hrun, hcert, fun l hl => certified_list hrun (fun _ _ => rfl)
    (by decide : 4 + 1 < 2 * 3) (fun i _ => hlife i) hl hcert⟩

end Fleet

end Bifrost
