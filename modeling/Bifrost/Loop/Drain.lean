import Bifrost.Loop.FanOut
import Bifrost.Loop.Provenance

/-!
# Draining the queue

Where nothing can go wrong in the handlings of the events a process has detected,
none of its queued events raises, whichever is taken next and whatever becomes of
its transaction (`Traced.progress`). A handling leaves less work than it takes
(`work_lt`): the stages of a Socket event, and one handling of a RoundUp event
with two of each clone. So the queue drains, in whatever order the events are
taken, with periods of the feed and waits in between (`drains`).
-/

namespace Bifrost

open Bifrost.Lib

variable {env : Env} {s s' : RState}

/-! ## Work -/

/-- How often the event, and its clones, can still be handled. -/
def RoundUpEvent.work (e : RoundUpEvent) : Nat :=
  e.budget (1 + 2 * e.updatingChains.length) fun _ aggregated => if aggregated then 2 else 1

def Queued.work : Queued → Nat
  | .socket e => stage e
  | .roundUp e => e.work

def Node.work (n : Node) : Nat := total Queued.work n.loop.queue

theorem total_const {ε : Type} {w : ε → Nat} {k : Nat} {l : List ε} (h : ∀ a ∈ l, w a = k) :
    total w l = k * l.length := by
  induction l with
  | nil => rfl
  | cons a l ih =>
    rw [total_cons, h a List.mem_cons_self, ih fun b hb => h b (List.mem_cons_of_mem a hb),
      List.length_cons, Nat.mul_succ, Nat.add_comm]

theorem RoundUpEvent.work_none {e : RoundUpEvent} (h : e.selectedChain = .none) :
    e.work = 1 + 2 * e.updatingChains.length := if_pos h

theorem RoundUpEvent.work_clone {e : RoundUpEvent} (h : e.selectedChain ≠ .none) :
    e.work = if e.aggregated then 2 else 1 := budget_of_ne_none rfl h

theorem Queued.work_pos (q : Queued) : 1 ≤ q.work := by
  cases q with
  | socket e => exact stage_pos e
  | roundUp e =>
    show 1 ≤ e.work
    by_cases h : e.selectedChain = .none
    · rw [e.work_none h]
      exact Nat.le_add_right 1 _
    · rw [e.work_clone h]
      split <;> decide

/-- What a handling leaves is less work than what it took. -/
theorem work_lt {h : Handling}
    (hup : ∀ e, h.event = .roundUp e → .none ∉ e.updatingChains)
    (hp : process h.outcome h.event env s = ⟨.ok h.next, s', h.out⟩) :
    total Queued.work h.queued < h.event.work := by
  have hnil : h.queued = [] → total Queued.work h.queued < h.event.work := by
    intro hl
    rw [hl]
    exact Queued.work_pos _
  cases hev : h.event with
  | socket e =>
    rw [hev] at hp hnil
    have hmoves := moves_of_process hp
    rcases hmoves.left with hl | ⟨e', hl, -⟩
    · exact hnil hl
    · rw [hl] at hmoves ⊢
      exact hmoves.stage_lt
  | roundUp e =>
    have hcase : RoundUpCase env e ⟨s, h, s'⟩ := roundUpCase_of_valid hp hev
    rw [hev] at hnil
    cases hcase with
    | otherStatus _ _ hl => exact hnil hl
    | notMine _ _ hl => exact hnil hl
    | processed _ _ _ _ hl => exact hnil hl
    | relayed _ _ _ _ _ _ _ _ hl => exact hnil hl
    | split hnone _ hl =>
      have hl' : h.queued = e.updatingChains.map fun c => .roundUp (e.cloned env.cfg c) := hl
      have htwo : ∀ c ∈ e.updatingChains, Queued.work (.roundUp (e.cloned env.cfg c)) = 2 := by
        intro c hc
        have hne : (e.cloned env.cfg c).selectedChain ≠ .none := fun h0 => hup e hev (h0 ▸ hc)
        exact RoundUpEvent.work_clone hne
      have hwork : (Queued.roundUp e).work = 1 + 2 * e.updatingChains.length := e.work_none hnone
      rw [hl', total_map, total_const htwo, hwork]
      omega
    | deferred hne _ _ _ ha _ _ hl =>
      have hl' : h.queued = [.roundUp (e.deferred (e.nextTimeLock env s'))] := hl
      have hone : Queued.work (.roundUp (e.deferred (e.nextTimeLock env s'))) = 1 :=
        RoundUpEvent.work_clone (e := e.deferred _) hne
      have htwo : (Queued.roundUp e).work = 2 := by
        show e.work = 2
        rw [e.work_clone hne, ha]
        rfl
      rw [hl', total_cons, hone, htwo]
      decide

/-! ## Progress -/

section Transfer

variable {X : Exn → Prop}

theorem Copes.becomes {d e : RbcEvent} (h : Copes env X d) (hbec : d.Becomes e) :
    Copes env X e :=
  ⟨h.rpc, hbec.srcChain? env.cfg.network ▸ h.chain, hbec.inst? env.cfg.network ▸ h.inst,
    h.status, h.relayers, h.recovery, h.batch, h.delay⟩

theorem RoundUpCopes.carried {d e : RoundUpEvent} (h : RoundUpCopes env X d)
    (hcar : d.Carries env.cfg e) : RoundUpCopes env X e := by
  refine ⟨h.rpc, ?_, h.supported, ?_, ?_, ?_, ?_, fun hmode => ?_⟩
  · rw [hcar.statusData]
    exact h.status
  · rw [hcar.round]
    exact h.address
  · rw [hcar.round]
    exact h.relayers
  · rw [hcar.round]
    exact h.batch
  · rw [hcar.round, hcar.validatorList]
    exact h.encode
  · rw [hcar.mode] at hmode
    cases hmode

end Transfer

/-- Nothing can go wrong in the handlings of the detected events. -/
structure AllCope (env : Env) (hist : List Act) : Prop where
  sockets : ∀ d ∈ detectedIn hist, Copes env (fun _ => False) d
  roundUps : ∀ d ∈ roundUpsIn hist, RoundUpCopes env (fun _ => False) d

section Progress

variable {hist acts : List Act} {n n' : Node}

/-- Whichever event is taken next, and whatever becomes of its transaction, its handling
returns. -/
theorem Traced.progress (ht : Traced env.cfg hist n) (hcope : AllCope env hist) {q : Queued}
    (hq : q ∈ n.loop.queue) (outcome : TxOutcome) :
    ∃ h n', NodeStep env n [.handled h] n' ∧ h.event = q ∧ h.outcome = outcome := by
  obtain ⟨⟨st, queue⟩, next⟩ := n
  have hret : ∃ p st' w, process outcome q env st = ⟨.ok p, st', w⟩ := by
    cases q with
    | socket e =>
      obtain ⟨d, hd, hbec⟩ := ht.queued e hq
      have hmsg := ht.coherent.msg e hq
      obtain ⟨p, st', w, hrun, -⟩ := (RbcEvent.triple_process (S := fun _ => True)
        (n := st.currentRound) (l := st.now) ((hcope.sockets d hd).becomes hbec)
        (fun _ _ => trivial) outcome).total (fun _ h => h) ⟨hmsg, rfl, le_rfl⟩
      exact ⟨p.map .socket, st', w ++ [], by simp only [process, Proc.bind_run, hrun]; rfl⟩
    | roundUp e =>
      obtain ⟨d, hd, hcar⟩ := ht.roundUps e hq
      obtain ⟨p, st', w, hrun, -⟩ := (RoundUpEvent.triple_process (S := fun _ => True)
        (n := st.currentRound) (l := st.now) ((hcope.roundUps d hd).carried hcar)
        outcome).total (fun _ h => h) ⟨rfl, le_rfl⟩
      exact ⟨p.map .roundUp, st', w ++ [], by simp only [process, Proc.bind_run, hrun]; rfl⟩
  obtain ⟨p, st', w, hrun⟩ := hret
  obtain ⟨l₁, l₂, rfl⟩ := List.append_of_mem hq
  exact ⟨⟨q, outcome, w, p⟩, _, .handle next _ (.handle l₁ l₂ ⟨q, outcome, w, p⟩ hrun), rfl, rfl⟩

/-! ## Rounds -/

/-- Periods of the feed, waits and logs that are passed over, and then a handling. -/
def Round (env : Env) (n n' : Node) : Prop :=
  ∃ acts n₁ h, NodeRun env n acts n₁ ∧ (∀ a ∈ acts, ∃ out, a = .fed out) ∧
    NodeStep env n₁ [.handled h] n'

/-- Nothing is detected or handled meanwhile. -/
theorem idle_of_fed (hrun : NodeRun env n acts n') (hidle : ∀ a ∈ acts, ∃ out, a = .fed out) :
    detectedIn acts = [] ∧ roundUpsIn acts = [] ∧ n'.loop.queue = n.loop.queue := by
  induction hrun with
  | nil => exact ⟨rfl, rfl, rfl⟩
  | @cons n n₁ n' ls ms hstep _ ih =>
    have hnone : detectedIn ls = [] ∧ roundUpsIn ls = [] ∧ n₁.loop.queue = n.loop.queue := by
      cases hstep with
      | detect | detectRoundUp | handle | restart =>
        obtain ⟨out, hout⟩ := hidle _ List.mem_cons_self
        cases hout
      | passOver | period | wait => exact ⟨rfl, rfl, rfl⟩
    obtain ⟨hdetected, hroundUps, hqueue⟩ := hnone
    obtain ⟨hd, hr, hq⟩ := ih fun a ha => hidle a (List.mem_append_right _ ha)
    refine ⟨?_, ?_, hq.trans hqueue⟩
    · rw [detectedIn_append, hdetected, hd, List.append_nil]
    · rw [roundUpsIn_append, hroundUps, hr, List.append_nil]

theorem AllCope.append {acts : List Act} (h : AllCope env hist) (hd : detectedIn acts = [])
    (hr : roundUpsIn acts = []) : AllCope env (hist ++ acts) := by
  refine ⟨?_, ?_⟩
  · rw [detectedIn_append, hd, List.append_nil]
    exact h.sockets
  · rw [roundUpsIn_append, hr, List.append_nil]
    exact h.roundUps

/-- A handling lowers the work. -/
theorem Traced.lowers (hnone : .none ∉ env.cfg.supportedChainList)
    (ht : Traced env.cfg hist n) {h : Handling} (hstep : NodeStep env n [.handled h] n') :
    n'.work < n.work := by
  cases hstep with
  | handle next h hloop =>
    have hup : ∀ e, h.event = .roundUp e → .none ∉ e.updatingChains := by
      intro e hev hmem
      obtain ⟨d, -, hcar⟩ := ht.roundUps e (hev ▸ mem_queue_of_step hloop)
      rw [hcar.updating] at hmem
      exact hnone (List.mem_of_mem_erase hmem)
    cases hloop with
    | handle l₁ l₂ _ hp =>
      have hlt := work_lt hup hp
      simp only [Node.work, total_append, total_cons]
      omega

/-- A round takes an event from the queue, and lowers the work. -/
theorem Round.lowers (hnone : .none ∉ env.cfg.supportedChainList)
    (ht : Traced env.cfg hist n) (hcope : AllCope env hist) (hround : Round env n n') :
    (∃ hist', Traced env.cfg hist' n' ∧ AllCope env hist') ∧ n'.work < n.work := by
  obtain ⟨acts, n₁, h, hrun, hidle, hstep⟩ := hround
  obtain ⟨hd, hr, hq⟩ := idle_of_fed hrun hidle
  have ht' := hrun.invariant_from (P := Traced env.cfg) (fun ht hs => traced_step ht hs) hist ht
  refine ⟨⟨_, traced_step ht' hstep, (hcope.append hd hr).append rfl rfl⟩, ?_⟩
  have hlt := ht'.lowers hnone hstep
  rwa [Node.work, Node.work, hq] at hlt

/-- **The queue drains.** Where nothing can go wrong in the handlings of what it has detected, a
process can handle each of its queued events with each outcome, and in whatever order it takes
them the queue is empty after as many handlings as there is work, unless it detects more. -/
theorem drains (hnone : .none ∉ env.cfg.supportedChainList) (hrun : NodeRun env n acts n')
    (hstart : n.loop.queue = []) (hcope : AllCope env acts) :
    (∀ q ∈ n'.loop.queue, ∀ outcome, ∃ h n'', NodeStep env n' [.handled h] n'' ∧
      h.event = q ∧ h.outcome = outcome) ∧
    Inevitably (Round env) (fun n => n.loop.queue = []) n'.work n' := by
  have ht := traced_run hrun hstart
  refine ⟨fun q hq outcome => ht.progress hcope hq outcome, inevitably_of_measure
    (I := fun n => ∃ hist, Traced env.cfg hist n ∧ AllCope env hist) ?_ ?_ ⟨acts, ht, hcope⟩
      (Nat.le_refl _)⟩
  · rintro m ⟨hist, ht, hcope⟩ hne
    obtain ⟨q, hq⟩ := List.exists_mem_of_ne_nil _ hne
    obtain ⟨h, m', hstep, -⟩ := ht.progress hcope hq .success
    exact ⟨m', [], m, h, .nil m, List.forall_mem_nil _, hstep⟩
  · rintro m m' ⟨hist, ht, hcope⟩ hround
    exact hround.lowers hnone ht hcope

end Progress

section Sample

variable {status : ChainEventStatus}

theorem Sample.copes (members : List Byte) (b : Byte) (hmembers : members ≠ []) {d : RbcEvent}
    (hsrc : d.srcChain? .mainnet ≠ none) (hinst : d.inst? .mainnet ≠ none) :
    Copes (memberEnv members b status) (fun _ => False) d where
  rpc := fun _ h => Bool.false_ne_true h
  chain := hsrc
  inst := hinst
  status := fun _ _ _ h => by
    have hvalue : ChainEventStatus.ofValue? status.value = some status := by
      cases status <;> rfl
    exact Option.some_ne_none _ (hvalue.symm.trans h)
  relayers := fun _ h => hmembers (List.map_eq_nil_iff.mp h)
  recovery := fun _ h => absurd h (show ¬ 256 ≤ 27 by decide)
  batch := fun _ _ _ h => absurd h (show SocketSignature.ofTuple ⟨[], [], []⟩ ≠ none by decide)
  delay := fun h => by cases h

theorem Sample.roundUpCopes (members : List Byte) (b : Byte) (hmembers : members ≠ [])
    (haddress : (sortedLower (members.map fun b => (address b).hex)).mapM Address.ofHex? ≠ none)
    {d : RoundUpEvent}
    (hstatus : ChainEventStatus.ofValue? d.statusData ≠ none)
    (hencode : encodeRound d.round (sorted d.validatorList) ≠ none) (hmode : d.mode = .send) :
    RoundUpCopes (memberEnv members b status) (fun _ => False) d where
  rpc := fun _ h => Bool.false_ne_true h
  status := hstatus
  supported := fun h => h List.mem_cons_self
  address := fun _ h => haddress h
  relayers := fun _ h => hmembers (List.map_eq_nil_iff.mp h)
  batch := fun _ h => absurd h (show SocketSignature.ofTuple ⟨[], [], []⟩ ≠ none by decide)
  encode := hencode
  mode := fun h => by
    rw [hmode] at h
    cases h

end Sample

/-- An inbound request and a round change are detected. -/
theorem drains_two : ∃ acts n', NodeRun (Sample.soleEnv .requested) Sample.node acts n' ∧
    n'.loop.queue.length = 2 ∧ Inevitably (Round (Sample.soleEnv .requested))
      (fun n => n.loop.queue = []) n'.work n' := by
  obtain ⟨acts, n', hrun, hlen, hsockets, hroundUps⟩ := exists_nodeRun (Sample.soleEnv .requested)
    [.detectRoundUp Sample.committedLog 0,
      .detect (.ofMsg (Sample.msg .ethereum .bifrost .requested) 7) 1]
    Sample.node (fun acts n' => n'.loop.queue.length = 2 ∧
      (∀ d ∈ detectedIn acts, d.srcChain? .mainnet ≠ none ∧ d.inst? .mainnet ≠ none) ∧
      ∀ d ∈ roundUpsIn acts, ChainEventStatus.ofValue? d.statusData ≠ none ∧
        encodeRound d.round (sorted d.validatorList) ≠ none ∧ d.mode = .send)
    (by decide +kernel)
  refine ⟨acts, n', hrun, hlen, (drains (by decide) hrun rfl ⟨fun d hd => ?_, fun d hd => ?_⟩).2⟩
  · exact Sample.copes [1] 1 (List.cons_ne_nil _ _) (hsockets d hd).1
      (hsockets d hd).2
  · exact Sample.roundUpCopes [1] 1 (List.cons_ne_nil _ _) (by decide)
      (hroundUps d hd).1 (hroundUps d hd).2.1 (hroundUps d hd).2.2

end Bifrost
