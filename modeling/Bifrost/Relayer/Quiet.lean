import Bifrost.Relayer.Fetch

/-!
# Quiet procedures

Most of what a handler does touches neither a log nor the queue. `Quiet x`:
whatever its outcome, `x` keeps the logs, writes only the relayer's own indices
to the cache (`KeepsCache`), and emits only local effects (remote reads,
signatures, metrics). The lists of a handler's other effects (`requestsOf`,
`enqueuedOf`, `sentOf`) do not see a quiet part.
-/

namespace Bifrost

open Bifrost.Lib

namespace Effect

/-- Neither the answer of a request, nor a queue entry, nor a transaction. -/
def IsLocal : Effect → Prop
  | .called .. | .signed _ | .metric .. => True
  | .request .. | .enqueued _ | .sent _ => False

def IsCall : Effect → Prop
  | .called .. => True
  | _ => False

def request? : Effect → Option (ChainEnum × RequestId × RequestInfo)
  | .request chain rid info => some (chain, rid, info)
  | _ => none

def enqueued? : Effect → Option Queued
  | .enqueued q => some q
  | _ => none

def sent? : Effect → Option SendTx
  | .sent tx => some tx
  | _ => none

end Effect

/-- The answers of `get_request` among the effects. -/
def requestsOf (w : List Effect) : List (ChainEnum × RequestId × RequestInfo) :=
  w.filterMap Effect.request?

def enqueuedOf (w : List Effect) : List Queued := w.filterMap Effect.enqueued?

def sentOf (w : List Effect) : List SendTx := w.filterMap Effect.sent?

section Lists

variable (w w' : List Effect)

@[simp] theorem requestsOf_append : requestsOf (w ++ w') = requestsOf w ++ requestsOf w' :=
  List.filterMap_append ..

@[simp] theorem enqueuedOf_append : enqueuedOf (w ++ w') = enqueuedOf w ++ enqueuedOf w' :=
  List.filterMap_append ..

@[simp] theorem sentOf_append : sentOf (w ++ w') = sentOf w ++ sentOf w' :=
  List.filterMap_append ..

@[simp] theorem requestsOf_sent (tx : SendTx) : requestsOf (.sent tx :: w) = requestsOf w := rfl

@[simp] theorem enqueuedOf_sent (tx : SendTx) : enqueuedOf (.sent tx :: w) = enqueuedOf w := rfl

@[simp] theorem sentOf_sent (tx : SendTx) : sentOf (.sent tx :: w) = tx :: sentOf w := rfl

theorem mem_enqueuedOf {q : Queued} : q ∈ enqueuedOf w ↔ .enqueued q ∈ w := by
  simp only [enqueuedOf, List.mem_filterMap]
  constructor
  · rintro ⟨o, ho, h⟩
    cases o <;> simp_all [Effect.enqueued?]
  · intro h
    exact ⟨_, h, rfl⟩

variable {w} (hw : ∀ o ∈ w, o.IsLocal)

include hw in
theorem requestsOf_local : requestsOf w = [] := by
  refine List.filterMap_eq_nil_iff.mpr fun o ho => ?_
  have := hw o ho
  cases o <;> simp_all [Effect.IsLocal, Effect.request?]

include hw in
theorem enqueuedOf_local : enqueuedOf w = [] := by
  refine List.filterMap_eq_nil_iff.mpr fun o ho => ?_
  have := hw o ho
  cases o <;> simp_all [Effect.IsLocal, Effect.enqueued?]

include hw in
theorem sentOf_local : sentOf w = [] := by
  refine List.filterMap_eq_nil_iff.mpr fun o ho => ?_
  have := hw o ho
  cases o <;> simp_all [Effect.IsLocal, Effect.sent?]

end Lists

/-! ## The cache -/

/-- `I` allows the relayer's own index in any round, as some read gives it. -/
def Admits (env : Env) (I : Int → Option Nat → Prop) : Prop :=
  ∀ t k i, rank ((env.view t).previousSelectedRelayers .bifrost k true) env.account.address =
    some i → I k (some i)

/-- Every stored value satisfies `I`. -/
def CacheInv (I : Int → Option Nat → Prop) (env : Env) (s : RState) : Prop :=
  Admits env I ∧ ∀ k v, s.cache k = some v → I k v

theorem CacheInv.store {I : Int → Option Nat → Prop} {env : Env} {s : RState} {k : Int}
    {v : Option Nat} (hs : CacheInv I env s) (hv : I k v) :
    CacheInv I env { s with cache := Function.update s.cache k (some v) } := by
  refine ⟨hs.1, fun k' v' h => ?_⟩
  dsimp only at h
  by_cases hk : k' = k
  · subst hk
    rw [Function.update_self, Option.some.injEq] at h
    rwa [← h]
  · rw [Function.update_of_ne hk] at h
    exact hs.2 k' v' h

/-- `P` speaks of the cache, and storing an index of the relayer keeps it. -/
structure CacheProp (P : Env → RState → Prop) : Prop where
  of_cache : ∀ {env s s'}, s'.cache = s.cache → P env s → P env s'
  store : ∀ {env s t k i}, rank ((env.view t).previousSelectedRelayers .bifrost k true)
    env.account.address = some i → P env s →
    P env { s with cache := Function.update s.cache k (some (some i)) }

theorem CacheInv.cacheProp (I : Int → Option Nat → Prop) : CacheProp (CacheInv I) where
  of_cache := by
    intro env s s' h hs
    refine ⟨hs.1, fun k v hv => ?_⟩
    rw [h] at hv
    exact hs.2 k v hv
  store := fun hi hs => CacheInv.store hs (hs.1 _ _ _ hi)

/-- A key stays. -/
theorem CacheProp.key (k : Int) : CacheProp fun _ s => (s.cache k).isSome where
  of_cache := by
    intro env s s' h hs
    rwa [h]
  store := by
    intro env s t k' i _ hs
    dsimp only
    by_cases hk : k = k'
    · rw [hk, Function.update_self]
      rfl
    · rwa [Function.update_of_ne hk]

/-- Keeps every property of the cache that storing the relayer's own indices keeps. -/
def KeepsCache {α : Type} (x : RM α) : Prop := ∀ P, CacheProp P → Proc.Keeps P x

namespace KeepsCache

variable {α β : Type} {x : RM α} {f : α → RM β}

theorem bind (hx : KeepsCache x) (hf : ∀ a, KeepsCache (f a)) : KeepsCache (x >>= f) :=
  fun P hP => .bind (hx P hP) fun a => hf a P hP

theorem ite {c : Prop} [Decidable c] {y : RM α} (hx : KeepsCache x) (hy : KeepsCache y) :
    KeepsCache (if c then x else y) :=
  fun P hP => .ite (hx P hP) (hy P hP)

theorem modify {g : RState → RState} (h : ∀ s, (g s).cache = s.cache) :
    KeepsCache (Proc.modify g : RM Unit) :=
  fun _ hP => .modify fun _ s => hP.of_cache (h s)

/-- Storing the index that `fetch_relayer_index` gave, if it gave one. -/
theorem storeIndex (k : Int) {y : RM α} {z : RM α} (hy : KeepsCache y) (hz : KeepsCache z) :
    KeepsCache (do
      let i ← RM.fetchRelayerIndex .bifrost (some k) none
      match i with
      | some i => do
        RM.setValueByKey k (some i)
        y
      | none => z) := by
  intro P hP env s hs
  have ht : P env s.tick := hP.of_cache (RState.tick_cache s) hs
  rw [Proc.bind_run, fetchRelayerIndex_run]
  unfold Env.read
  split
  · exact ht
  · rw [Res.andThen_ok, Res.after_st]
    beta_reduce
    generalize hi : rank _ _ = i
    cases i with
    | none => exact hz P hP env s.tick ht
    | some i => exact hy P hP env _ (hP.store hi ht)

end KeepsCache

/-! ## Quiet procedures -/

/-- Keeps the logs and the cache, and emits local effects only. -/
structure Quiet {α : Type} (x : RM α) : Prop where
  keeps : ∀ h, Proc.Keeps (fun _ s => s.heap = h) x
  cache : KeepsCache x
  emits : Proc.Emits Effect.IsLocal x

namespace Quiet

variable {α β : Type} {x : RM α} {f : α → RM β} {env : Env} {s s' : RState} {w : List Effect}

theorem pure (a : α) : Quiet (pure a : RM α) := ⟨fun _ => .pure a, fun _ _ => .pure a, .pure a⟩

theorem throw (e : Exn) : Quiet (Proc.throw e : RM α) :=
  ⟨fun _ => .throw e, fun _ _ => .throw e, .throw e⟩

theorem ofOption (e : Exn) (o : Option α) : Quiet (Proc.ofOption e o : RM α) :=
  ⟨fun _ => .ofOption e o, fun _ _ => .ofOption e o, .ofOption e o⟩

theorem ask : Quiet (Proc.ask : RM Env) := ⟨fun _ => .ask, fun _ _ => .ask, .ask⟩

theorem get : Quiet (Proc.get : RM RState) := ⟨fun _ => .get, fun _ _ => .get, .get⟩

theorem modify {g : RState → RState} (h : ∀ s, (g s).heap = s.heap)
    (hc : ∀ s, (g s).cache = s.cache) : Quiet (Proc.modify g : RM Unit) :=
  ⟨fun _ => .modify fun _ s hs => (h s).trans hs, .modify hc, .modify g⟩

theorem emit {o : Effect} (h : o.IsLocal) : Quiet (Proc.emit o : RM Unit) :=
  ⟨fun _ => .emit o, fun _ _ => .emit o, .emit h⟩

theorem bind (hx : Quiet x) (hf : ∀ a, Quiet (f a)) : Quiet (x >>= f) :=
  ⟨fun h => .bind (hx.keeps h) fun a => (hf a).keeps h, .bind hx.cache fun a => (hf a).cache,
    .bind hx.emits fun a => (hf a).emits⟩

theorem ite {c : Prop} [Decidable c] {y : RM α} (hx : Quiet x) (hy : Quiet y) :
    Quiet (if c then x else y) :=
  ⟨fun h => .ite (hx.keeps h) (hy.keeps h), .ite hx.cache hy.cache, .ite hx.emits hy.emits⟩

/-- What the run of a quiet procedure leaves. -/
theorem run {v : Except Exn α} (hx : Quiet x) (h : x env s = ⟨v, s', w⟩) :
    s'.heap = s.heap ∧ ∀ o ∈ w, o.IsLocal := by
  have hk := hx.keeps s.heap env s rfl
  have he := hx.emits env s
  rw [h] at hk he
  exact ⟨hk, he⟩

/-! ### The primitives of the relayer -/

theorem getConfig : Quiet RM.getConfig := .bind .ask fun _ => .pure _

theorem timestampMsec : Quiet RM.timestampMsec := .bind .ask fun _ => .bind .get fun _ => .pure _

theorem sign (msg : Bytes) : Quiet (RM.sign msg) :=
  .bind .ask fun _ => .bind (.emit trivial) fun _ => .pure _

theorem getValueByKey (k : Int) : Quiet (RM.getValueByKey k) := .bind .get fun _ => .pure _

theorem isInCache (k : Int) : Quiet (RM.isInCache k) := .bind .get fun _ => .pure _

theorem worldCall (chain : ChainEnum) (method : String) (answer : View → α) :
    Quiet (RM.worldCall chain method answer) :=
  .bind .ask fun _ => .bind .get fun _ => .bind (.modify (fun _ => rfl) fun _ => rfl) fun _ =>
    .bind (.emit trivial) fun _ => .ite (.throw _) (.pure _)

theorem fetchLatestRound (chain : ChainEnum) : Quiet (RM.fetchLatestRound chain) := worldCall ..

theorem fetchSortedRelayerListLower (chain : ChainEnum) (rnd : Option Int) (b : Bool) :
    Quiet (RM.fetchSortedRelayerListLower chain rnd b) := .bind (worldCall ..) fun _ => .pure _

theorem fetchRelayerIndex (chain : ChainEnum) (rnd : Option Int) (a : Option Address) :
    Quiet (RM.fetchRelayerIndex chain rnd a) :=
  .bind (fetchSortedRelayerListLower ..) fun _ => .bind .ask fun _ => .pure _

/-- Storing the index that `fetch_relayer_index` gave, if it gave one. -/
theorem storeIndex (k : Int) {y z : RM α} (hy : Quiet y) (hz : Quiet z) :
    Quiet (do
      let i ← RM.fetchRelayerIndex .bifrost (some k) none
      match i with
      | some i => do
        RM.setValueByKey k (some i)
        y
      | none => z) := by
  have hset : ∀ v, Proc.Emits Effect.IsLocal (RM.setValueByKey k v) := fun v => .modify _
  refine ⟨fun h => .bind ((fetchRelayerIndex ..).keeps h) fun i => ?_,
    .storeIndex k hy.cache hz.cache, .bind (fetchRelayerIndex ..).emits fun i => ?_⟩
  · cases i with
    | none => exact hz.keeps h
    | some i => exact .bind (.modify fun _ _ hs => hs) fun _ => hy.keeps h
  · cases i with
    | none => exact hz.emits
    | some i => exact .bind (hset _) fun _ => hy.emits

theorem fetchRelayerNum (chain : ChainEnum) (b : Bool) : Quiet (RM.fetchRelayerNum chain b) :=
  .bind (fetchSortedRelayerListLower ..) fun _ => .pure _

theorem isSelectedRelayer (chain : ChainEnum) (rnd : Option Int) (a : Address) (b : Bool) :
    Quiet (RM.isSelectedRelayer chain rnd a b) := by
  unfold RM.isSelectedRelayer
  split <;> exact worldCall ..

theorem fetchQuorum (chain : ChainEnum) (rnd : Option Int) (b : Bool) :
    Quiet (RM.fetchQuorum chain rnd b) := by
  unfold RM.fetchQuorum
  split <;> exact worldCall ..

theorem fetchSocketRbcSigs (rid : RequestId) (status : ChainEventStatus) :
    Quiet (RM.fetchSocketRbcSigs rid status) := worldCall ..

theorem fetchSocketVspSigs (rnd : Nat) : Quiet (RM.fetchSocketVspSigs rnd) := worldCall ..

end Quiet

end Bifrost
