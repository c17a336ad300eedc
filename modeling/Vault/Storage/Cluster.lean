import Vault.Lib.Deliveries
import Vault.Lib.Simulation
import Vault.Storage.Client
import Vault.Storage.Endpoints
import Vault.Storage.Identifiers
import Vault.Storage.RetryAgreement

/-! The storage nodes behind their HTTP interface. A call of `StorageNodeClient` sends its requests over a network
that may lose them or their answers; a node works off a request before the next one is sent. What the disks hold is
abstracted to a `Store`, and every call does to it what its namesake in `Store` does under some fault. -/

namespace Vault.Storage

open Vault.Common Vault.Metadata Vault.Lib
open StorageNodeClient (Received Transport)

instance (u : UUID) : Decidable (Genuine u) := inferInstanceAs (Decidable (_ < _))

/-- What comes back in place of the answer of a node; a status is that of a proxy in between. -/
inductive Outage
  | timeout
  | requestError
  | status (code : ℕ) (h : code ∈ NodeClient.retryableStatusCodes)
  deriving DecidableEq, Repr

def transport : Outage ⊕ Received → Transport
  | .inl .timeout => .timeout
  | .inl .requestError => .requestError
  | .inl (.status code _) => .response { status := code, body := .text }
  | .inr r => .response r

/-- What is left open about a call: the fate of its requests, the staging name that the node draws, the body that a
`PUT` sends with what `disk_usage` shows beside it, and what the clock and the task queue answer. -/
structure Trip where
  deliveries : ℕ → Delivery Outage := fun _ => .answered
  statsDeliveries : ℕ → Delivery Outage := fun _ => .answered
  healthFails : Bool := true
  uuid : String := ""
  turns : List (Bytes × ℕ) := []
  free : ℕ := 0
  now : Time := 0
  taskId : String := ""

structure ClusterConfig where
  sha256 : Bytes → Checksum
  engines : String → EngineConfig
  clients : String → StorageNodeClient.Config
  objectOf : UUID → UUID

structure Cluster where
  nodes : String → Engine
  future : ℕ → Trip

namespace Cluster

variable (cfg : ClusterConfig)

def key (i : UUID) : Key := ⟨toString (cfg.objectOf i), toString i⟩

def pass (n : String) (e : Engine) (c : Cluster) : Cluster :=
  ⟨Function.update c.nodes n e, fun m => c.future (m + 1)⟩

/-- An operation of the client against one node. -/
def converse {α : Type} (act : Engine → Engine × Received) (ds : ℕ → Delivery Outage) (e : Engine)
    (op : (ℕ → Transport) → Except Failure α × ℕ) : Except Failure α × Engine :=
  let answer := op fun m => transport (Delivery.outcome act e ds m)
  (answer.1, Delivery.after act e ds answer.2)

/-- No other exception than a `StorageNodeClientError` comes out of the calls below. -/
def clientAnswer {α : Type} : Except Failure α → Except ClientError α
  | .ok a => .ok a
  | .error (.client e) => .error e
  | .error _ => .error (NodeClient.protocolError "unexpected exception")

/-- A call about a version. There are no identifiers of more than 128 bits. -/
def onVersion {α : Type} (n : String) (i : UUID) (call : Key → Call)
    (op : Key → (ℕ → Transport) → Except Failure α × ℕ) (c : Cluster) : Except ClientError α × Cluster :=
  if Genuine i then
    let answer := converse (NodeServer.handle cfg.sha256 (cfg.engines n) n (call (key cfg i))) (c.future 0).deliveries
      (c.nodes n) (op (key cfg i))
    (clientAnswer answer.1, c.pass n answer.2)
  else (.error (NodeClient.protocolError "no identifier"), c.pass n (c.nodes n))

def blobOf (v : VerifiedObject) : Blob := ⟨v.checksum, v.sizeBytes, v.valid⟩

/-- `asyncio.gather` of `health` and `stats`. -/
def polled (healthFails : Bool) : Except Failure NodeHealth → Except Failure StorageNodeClient.NodeReport →
    Except Failure (NodeHealth × NodeStats)
  | .ok health, .ok report => .ok (health, report.toNodeStats)
  | .error e, .ok _ => .error e
  | .ok _, .error e => .error e
  | .error e, .error e' => .error (if healthFails then e else e')

def serve : ∀ {β : Type}, Request β → Cluster → β × Cluster
  | _, .verify n i, c =>
    let answer := c.onVersion cfg n i .verify fun k => StorageNodeClient.verifyObject (cfg.clients n) false k
    (answer.1.map blobOf, answer.2)
  | _, .delete n i, c => c.onVersion cfg n i .delete fun k => StorageNodeClient.deleteObject (cfg.clients n) k
  | _, .stream n i, c =>
    let answer := c.onVersion cfg n i .get fun k => StorageNodeClient.streamObject (cfg.clients n) k
    (answer.1.map fun _ => (), answer.2)
  | _, .put n i, c =>
    let answer := c.onVersion cfg n i (fun k => .put k (c.future 0).uuid (c.future 0).turns)
      fun k => StorageNodeClient.putObject (cfg.clients n) k
    (answer.1.map fun _ => (), answer.2)
  | _, .poll n, c =>
    let act := NodeServer.handle cfg.sha256 (cfg.engines n) n
    let health := converse (act .health) (c.future 0).deliveries (c.nodes n) (StorageNodeClient.health (cfg.clients n))
    let stats := converse (act (.stats (c.future 0).free)) (c.future 0).statsDeliveries health.2
      (StorageNodeClient.stats (cfg.clients n))
    (polled (c.future 0).healthFails health.1 stats.1, c.pass n stats.2)
  | _, .now, c => ((c.future 0).now, ⟨c.nodes, fun m => c.future (m + 1)⟩)
  | _, .enqueue _ _, c => ((c.future 0).taskId, ⟨c.nodes, fun m => c.future (m + 1)⟩)

/-- The store that the disks amount to. -/
def store (nodes : String → Engine) : Store := fun n i =>
  if Genuine i then held cfg.sha256 (key cfg i) (nodes n) else none

end Cluster

section Decisions

open StorageNodeClient NodeClient

variable {α : Type}

/-- An operation that succeeds reads its result off the last answer. -/
def Decided (op : (ℕ → Transport) → Except Failure α × ℕ) (reads : Received → α → Prop) : Prop :=
  ∀ outcomes a n, op outcomes = (.ok a, n) → ∃ m r, n = m + 1 ∧ outcomes m = .response r ∧ reads r a

/-- An attempt that ends the loop without an error hands over the response. -/
lemma requestAttempt_ends {config : Config} {operation : Operation} {attempts attempt : ℕ} {o : Transport}
    {x : Except ClientError Received} (h : requestAttempt config operation attempts attempt o = some x) :
    (∃ e, x = .error e) ∨ ∃ r, o = .response r ∧ x = .ok r := by
  cases o with
  | timeout =>
    simp only [requestAttempt] at h
    split_ifs at h
    exact Or.inl ⟨_, (Option.some.inj h).symm⟩
  | requestError =>
    simp only [requestAttempt] at h
    split_ifs at h
    exact Or.inl ⟨_, (Option.some.inj h).symm⟩
  | response r =>
    simp only [requestAttempt] at h
    split_ifs at h
    exact Or.inr ⟨r, rfl, (Option.some.inj h).symm⟩

lemma streamAttempt_ends {config : Config} {attempt : ℕ} {o : Transport} {x : Except Failure Received}
    (h : streamAttempt config attempt o = some x) : (∃ e, x = .error e) ∨ ∃ r, o = .response r ∧ openStreamed r = x := by
  cases o with
  | timeout =>
    simp only [streamAttempt] at h
    split_ifs at h
    exact Or.inl ⟨_, (Option.some.inj h).symm⟩
  | requestError =>
    simp only [streamAttempt] at h
    split_ifs at h
    exact Or.inl ⟨_, (Option.some.inj h).symm⟩
  | response r =>
    simp only [streamAttempt] at h
    split_ifs at h
    exact Or.inr ⟨r, rfl, Option.some.inj h⟩

lemma bind_ok_of_mapError {x : Except ClientError Received} {read : Received → Except ClientError α} {a : α}
    (h : (x.bind read).mapError Failure.client = .ok a) : ∃ r, x = .ok r ∧ read r = .ok a := by
  cases x with
  | error e => cases h
  | ok r =>
    refine ⟨r, rfl, ?_⟩
    simp only [Except.bind] at h
    cases hr : read r with
    | error e =>
      rw [hr] at h
      cases h
    | ok b =>
      rw [hr] at h
      cases h
      rfl

lemma exchange_decided (config : Config) (operation : Operation) (retry : Bool) (checks : Except Failure Unit)
    (read : Received → Except ClientError α) :
    Decided (exchange config operation retry checks read) (fun r a => read r = .ok a) := by
  intro outcomes a n h
  simp only [exchange] at h
  cases hc : checks with
  | error e =>
    rw [hc] at h
    cases h
  | ok _ =>
    rw [hc] at h
    simp only [Prod.mk.injEq] at h
    obtain ⟨hread, hsent⟩ := h
    simp only [request] at hread hsent
    set attempts := if retry ∧ operation ∈ safeRetryOperations then config.maxAttempts else 1
    rcases attemptLoop_decided (requestAttempt config operation attempts)
      (.error (unavailable s!"Storage node request failed during {operation}.")) outcomes (List.range' 1 attempts) 0 with
      hnone | ⟨x, attempt, m, hloop, hbody⟩
    · rw [hnone] at hread
      cases hread
    · rw [hloop] at hread hsent
      obtain ⟨r, hx, hr⟩ := bind_ok_of_mapError hread
      rcases requestAttempt_ends hbody with ⟨e, he⟩ | ⟨r', ho, hr'⟩
      · cases he.symm.trans hx
      · cases hr'.symm.trans hx
        exact ⟨m, r, hsent.symm, ho, hr⟩

lemma streamObject_decided (config : Config) (k : Key) :
    Decided (streamObject config k) (fun r a => openStreamed r = .ok a) := by
  intro outcomes a n h
  simp only [streamObject] at h
  cases hc : validateIdentifiers k with
  | error e =>
    rw [hc] at h
    cases h
  | ok _ =>
    rw [hc] at h
    rcases attemptLoop_decided (streamAttempt config) (.error (.other "generator didn't yield")) outcomes
      (List.range' 1 config.maxAttempts) 0 with hnone | ⟨x, attempt, m, hloop, hbody⟩
    · cases hnone.symm.trans (congrArg Prod.fst h)
    · cases hloop.symm.trans h
      rcases streamAttempt_ends hbody with ⟨e, he⟩ | ⟨r, ho, hr⟩
      · cases he
      · exact ⟨m, r, rfl, ho, hr⟩

end Decisions

namespace Cluster

variable {cfg : ClusterConfig} {α : Type} {act : Engine → Engine × Received} {ds : ℕ → Delivery Outage} {e : Engine}
  {op : (ℕ → Transport) → Except Failure α × ℕ} {reads : Received → α → Prop}

lemma converse_state {P : Engine → Prop} (hs : P e) (hact : ∀ t, P t → P (act t).1) : P (converse act ds e op).2 :=
  Delivery.after_of_invariant hs hact _

/-- An operation that succeeds has read what the node answered last, in a state that the earlier requests can lead to. -/
lemma converse_ok {P : Engine → Prop} (hop : Decided op reads)
    (hreads : ∀ r a, reads r a → r.status ∉ NodeClient.retryableStatusCodes) (hs : P e) (hact : ∀ t, P t → P (act t).1)
    {a : α} (h : (converse act ds e op).1 = .ok a) :
    ∃ t, P t ∧ reads (act t).2 a ∧ (converse act ds e op).2 = (act t).1 := by
  obtain ⟨m, r, hn, ho, hr⟩ := hop _ a _ (Prod.ext h rfl)
  have hanswer : Delivery.outcome act e ds m = .inr r := by
    cases hd : Delivery.outcome act e ds m with
    | inr r' =>
      rw [hd] at ho
      cases ho
      rfl
    | inl outage =>
      rw [hd] at ho
      cases outage with
      | timeout => cases ho
      | requestError => cases ho
      | status code hcode =>
        cases ho
        exact absurd hcode (hreads _ a hr)
  obtain ⟨hsent, hafter⟩ := Delivery.outcome_answer hanswer
  refine ⟨Delivery.after act e ds m, Delivery.after_of_invariant hs hact m, by rw [hsent]; exact hr, ?_⟩
  exact (congrArg (Delivery.after act e ds) hn).trans hafter

/-- An operation that leaves the node as it is. -/
lemma converse_unchanged (hact : ∀ t, (act t).1 = t) : (converse act ds e op).2 = e := by
  apply converse_state (P := fun t => t = e) rfl
  rintro t rfl
  exact hact t

lemma key_valid (i : UUID) : (key cfg i).Valid := ⟨validId_uuid _, validId_uuid _⟩

lemma held_of_dirOf {k : Key} {e e' : Engine} (h : NodeServer.dirOf k e' = NodeServer.dirOf k e) :
    held cfg.sha256 k e' = held cfg.sha256 k e := congrArg (heldDir cfg.sha256 k) h

lemma store_genuine {nodes : String → Engine} {n : String} {i : UUID} (h : Genuine i) :
    store cfg nodes n i = held cfg.sha256 (key cfg i) (nodes n) := if_pos h

/-- A change below one key is a change of one entry. -/
lemma store_update {nodes : String → Engine} {n : String} {i : UUID} (hi : Genuine i)
    (h : SameOthers (key cfg i) (nodes n) e) :
    store cfg (Function.update nodes n e) = (store cfg nodes).set n i (held cfg.sha256 (key cfg i) e) := by
  funext m j
  simp only [store, Store.set, Function.update_apply]
  by_cases hm : m = n
  · subst hm
    by_cases hj : j = i
    · subst hj
      rw [if_pos hi, if_pos rfl, if_pos ⟨rfl, rfl⟩]
    · simp only [hj, and_false, if_false, if_true]
      split_ifs with hg
      · have hne : key cfg j ≠ key cfg i := by
          intro heq
          exact hj (toString_injective hg hi (congrArg Key.versionId heq))
        exact held_of_dirOf (h _ hne)
      · rfl
  · simp only [hm, false_and, if_false]

lemma store_unchanged (nodes : String → Engine) (n : String) :
    store cfg (Function.update nodes n (nodes n)) = store cfg nodes := by
  rw [Function.update_eq_self]

section Calls

open StorageNodeClient (Retried)

lemma clientAnswer_cases (x : Except Failure α) :
    (∃ a, x = .ok a ∧ clientAnswer x = .ok a) ∨ ∃ y, clientAnswer x = .error y := by
  cases x with
  | ok a => exact Or.inl ⟨a, rfl, rfl⟩
  | error f => cases f <;> exact Or.inr ⟨_, rfl⟩

variable {n : String} {i : UUID} {call : Key → Call} {operation : Key → (ℕ → Transport) → Except Failure α × ℕ}
  {c : Cluster}

lemma onVersion_genuine (hi : Genuine i) :
    c.onVersion cfg n i call operation =
      (clientAnswer (converse (NodeServer.handle cfg.sha256 (cfg.engines n) n (call (key cfg i)))
          (c.future 0).deliveries (c.nodes n) (operation (key cfg i))).1,
        c.pass n (converse (NodeServer.handle cfg.sha256 (cfg.engines n) n (call (key cfg i)))
          (c.future 0).deliveries (c.nodes n) (operation (key cfg i))).2) := if_pos hi

lemma onVersion_unknown (hi : ¬Genuine i) :
    c.onVersion cfg n i call operation =
      (.error (NodeClient.protocolError "no identifier"), c.pass n (c.nodes n)) := if_neg hi

/-- A call that only reads, and that succeeds only where the node holds something. -/
lemma onVersion_reads (n : String) (c : Cluster) (call : Key → Call)
    (operation : Key → (ℕ → Transport) → Except Failure α × ℕ) {reads : Received → α → Prop}
    (hop : Decided (operation (key cfg i)) reads)
    (hreads : ∀ r a, reads r a → r.status ∉ NodeClient.retryableStatusCodes)
    (hact : ∀ t, (NodeServer.handle cfg.sha256 (cfg.engines n) n (call (key cfg i)) t).1 = t) :
    store cfg (c.onVersion cfg n i call operation).2.nodes = store cfg c.nodes ∧
      ((∃ x, (c.onVersion cfg n i call operation).1 = .error x) ∨
        ∃ a, Genuine i ∧ (c.onVersion cfg n i call operation).1 = .ok a ∧
          reads (NodeServer.handle cfg.sha256 (cfg.engines n) n (call (key cfg i)) (c.nodes n)).2 a) := by
  by_cases hi : Genuine i
  · rw [onVersion_genuine hi]
    refine ⟨?_, ?_⟩
    · rw [pass, converse_unchanged hact, store_unchanged]
    · rcases clientAnswer_cases (converse (NodeServer.handle cfg.sha256 (cfg.engines n) n (call (key cfg i)))
        (c.future 0).deliveries (c.nodes n) (operation (key cfg i))).1 with ⟨a, hok, hanswer⟩ | ⟨x, hanswer⟩
      · have hsame : ∀ t, t = c.nodes n →
            (NodeServer.handle cfg.sha256 (cfg.engines n) n (call (key cfg i)) t).1 = c.nodes n := by
          rintro t rfl
          exact hact _
        obtain ⟨t, rfl, hread, -⟩ := converse_ok (P := fun t => t = c.nodes n) hop hreads rfl hsame hok
        exact Or.inr ⟨a, hi, hanswer, hread⟩
      · exact Or.inl ⟨x, hanswer⟩
  · rw [onVersion_unknown hi]
    exact ⟨store_unchanged _ _, Or.inl ⟨_, rfl⟩⟩

lemma verify_refines (cfg : ClusterConfig) (n : String) (i : UUID) (c : Cluster) :
    store cfg (serve cfg (.verify n i) c).2.nodes = store cfg c.nodes ∧
      ∃ fault, measureObject fault n i (store cfg c.nodes) = (serve cfg (.verify n i) c).1 := by
  have hreads : ∀ (r : Received) (v : VerifiedObject), NodeClient.readReport false (key cfg i) r.toHttpResponse = .ok v →
      r.status ∉ NodeClient.retryableStatusCodes := by
    intro r v hr hcode
    cases hr.symm.trans ((Retried.verify false (key cfg i)).read_transient hcode)
  obtain ⟨hstore, hanswer⟩ := onVersion_reads n c .verify
    (fun k => StorageNodeClient.verifyObject (cfg.clients n) false k)
    (exchange_decided (cfg.clients n) .verify true (NodeClient.validateIdentifiers (key cfg i)) _) hreads (fun t => rfl)
  refine ⟨hstore, ?_⟩
  rcases hanswer with ⟨x, hx⟩ | ⟨v, hi, hv, hread⟩
  · exact ⟨some (.refused x), by simp only [serve, hx]; rfl⟩
  · have hheld : held cfg.sha256 (key cfg i) (c.nodes n) = some (blobOf v) := readReport_held (key_valid i) hread
    refine ⟨none, ?_⟩
    simp only [serve, hv, measureObject, store_genuine hi, hheld]
    rfl

lemma openStreamed_ok {r a : Received} (h : StorageNodeClient.openStreamed r = .ok a) : r.status = 200 := by
  simp only [StorageNodeClient.openStreamed] at h
  split at h
  · cases h
  · split_ifs at h with hstatus
    exact hstatus

lemma stream_refines (cfg : ClusterConfig) (n : String) (i : UUID) (c : Cluster) :
    store cfg (serve cfg (.stream n i) c).2.nodes = store cfg c.nodes ∧
      ∃ fault, openStream fault n i (store cfg c.nodes) = (serve cfg (.stream n i) c).1 := by
  have hreads : ∀ r a : Received, StorageNodeClient.openStreamed r = .ok a →
      r.status ∉ NodeClient.retryableStatusCodes := by
    intro r a hr
    rw [openStreamed_ok hr]
    decide
  obtain ⟨hstore, hanswer⟩ := onVersion_reads n c .get
    (fun k => StorageNodeClient.streamObject (cfg.clients n) k)
    (streamObject_decided (cfg.clients n) (key cfg i)) hreads (fun t => rfl)
  refine ⟨hstore, ?_⟩
  rcases hanswer with ⟨x, hx⟩ | ⟨a, hi, ha, hread⟩
  · exact ⟨some (.refused x), by simp only [serve, hx]; rfl⟩
  · obtain ⟨size, hsize⟩ := sizeAnswer_success (openStreamed_ok hread)
    obtain ⟨b, hb⟩ := objectSize_held cfg.sha256 hsize
    have hheld : held cfg.sha256 (key cfg i) (c.nodes n) = some b := hb
    refine ⟨none, ?_⟩
    simp only [serve, ha, openStream, store_genuine hi, hheld]
    rfl

/-- Either nothing has been done yet, or the object is gone and nothing else has changed. -/
def Deleting (k : Key) (e t : Engine) : Prop := t = e ∨ NodeServer.dirOf k t = none ∧ SameOthers k e t

lemma Deleting.handled {k : Key} {e t : Engine} (h : Deleting k e t) :
    Deleting k e (NodeServer.handle cfg.sha256 (cfg.engines n) n (.delete k) t).1 := by
  have hstep := delete_deletes k t
  simp only [NodeServer.handle]
  generalize t.delete k = answer at hstep ⊢
  obtain ⟨t', reply⟩ := answer
  generalize reply.result = result at hstep
  cases hstep with
  | done hgone hothers =>
    refine Or.inr ⟨hgone, fun k' hk' => (hothers k' hk').trans ?_⟩
    rcases h with rfl | ⟨-, hbefore⟩
    · rfl
    · exact hbefore k' hk'
  | missing _ _ => exact h
  | refused _ => exact h

/-- A `DELETE` that succeeds has met an answer 204 or 404. -/
lemma Deleting.answered {k : Key} {e t : Engine} (h : Deleting k e t)
    (hread : StorageNodeClient.readDeleted (NodeServer.handle cfg.sha256 (cfg.engines n) n (.delete k) t).2 = .ok ()) :
    held cfg.sha256 k (NodeServer.handle cfg.sha256 (cfg.engines n) n (.delete k) t).1 = none ∧
      SameOthers k e (NodeServer.handle cfg.sha256 (cfg.engines n) n (.delete k) t).1 := by
  have hothers : SameOthers k e t := by
    rcases h with rfl | ⟨-, hbefore⟩
    · exact fun _ _ => rfl
    · exact hbefore
  have hstep := delete_deletes k t
  simp only [NodeServer.handle] at hread ⊢
  generalize t.delete k = answer at hstep hread ⊢
  obtain ⟨t', reply⟩ := answer
  dsimp only at hread hstep ⊢
  generalize reply.result = result at hstep hread
  cases hstep with
  | done hgone hsame =>
    refine ⟨congrArg (heldDir cfg.sha256 k) hgone, fun k' hk' => (hsame k' hk').trans (hothers k' hk')⟩
  | missing message hfile =>
    refine ⟨?_, hothers⟩
    rw [held]
    cases hd : NodeServer.dirOf k t with
    | none => rfl
    | some d => exact if_neg (by rw [hfile d hd]; exact Bool.noConfusion)
  | refused message => cases hread

lemma delete_refines (cfg : ClusterConfig) (n : String) (i : UUID) (c : Cluster) :
    ∃ fault, deleteObject fault n i (store cfg c.nodes) =
      ((serve cfg (.delete n i) c).1, store cfg (serve cfg (.delete n i) c).2.nodes) := by
  simp only [serve]
  by_cases hi : Genuine i
  swap
  · rw [onVersion_unknown hi]
    exact ⟨some (.refused (NodeClient.protocolError "no identifier")), by rw [pass, store_unchanged]; rfl⟩
  rw [onVersion_genuine hi]
  set act := NodeServer.handle cfg.sha256 (cfg.engines n) n (.delete (key cfg i))
  set answer := converse act (c.future 0).deliveries (c.nodes n)
    (StorageNodeClient.deleteObject (cfg.clients n) (key cfg i)) with hconverse
  have hact : ∀ t, Deleting (key cfg i) (c.nodes n) t → Deleting (key cfg i) (c.nodes n) (act t).1 :=
    fun t ht => Deleting.handled ht
  have hreads : ∀ (r : Received) (u : Unit), StorageNodeClient.readDeleted r = .ok u →
      r.status ∉ NodeClient.retryableStatusCodes := by
    intro r u hr hcode
    cases hr.symm.trans ((Retried.delete (key cfg i)).read_transient hcode)
  rcases clientAnswer_cases answer.1 with ⟨u, hok, hanswer⟩ | ⟨x, hanswer⟩
  · obtain ⟨t, ht, hread, hlast⟩ := converse_ok
      (exchange_decided (cfg.clients n) .delete true (NodeClient.validateIdentifiers (key cfg i)) _) hreads
      (Or.inl rfl : Deleting (key cfg i) (c.nodes n) (c.nodes n)) hact hok
    obtain ⟨hgone, hothers⟩ := ht.answered hread
    refine ⟨none, ?_⟩
    have hfinal : answer.2 = (act t).1 := hlast
    rw [hanswer, pass, hfinal, store_update hi hothers, hgone]
    rfl
  · have hstate : Deleting (key cfg i) (c.nodes n) answer.2 := converse_state (Or.inl rfl) hact
    rw [hanswer, pass]
    rcases hstate with hsame | ⟨hgone, hothers⟩
    · exact ⟨some (.refused x), by rw [hsame, store_unchanged]; rfl⟩
    · refine ⟨some (.lost x), ?_⟩
      rw [store_update hi hothers, held, hgone]
      rfl

/-- Either nothing has been done yet, or an object is there where none was and nothing else has changed. -/
def Writing (k : Key) (e t : Engine) : Prop :=
  t = e ∨
    NodeServer.dirOf k e = none ∧ (∃ d, NodeServer.dirOf k t = some d ∧ d.metadata.isFile = true) ∧ SameOthers k e t

lemma Writing.handled {k : Key} {e t : Engine} (h : Writing k e t) (uuid : String) (turns : List (Bytes × ℕ)) :
    Writing k e (NodeServer.handle cfg.sha256 (cfg.engines n) n (.put k uuid turns) t).1 := by
  have hstep := writeStream_writes cfg.sha256 (cfg.engines n) k uuid turns t
  simp only [NodeServer.handle]
  generalize Chunking.writeStream cfg.sha256 (cfg.engines n) k uuid (turns.map Turn.ofBytes) t = answer at hstep ⊢
  cases hstep with
  | done _ hfree hdir hothers =>
    rcases h with rfl | ⟨-, ⟨d, hd, -⟩, -⟩
    · exact Or.inr ⟨hfree, ⟨_, hdir, rfl⟩, hothers⟩
    · cases hfree.symm.trans hd
  | refused x => exact h

lemma readStored_ok {k : Key} {x : Except EngineError ℕ} {stored : StorageNodeClient.StoredObject}
    (h : StorageNodeClient.readStored k (NodeServer.putObject k x) = .ok stored) : ∃ size, x = .ok size := by
  cases x with
  | ok size => exact ⟨size, rfl⟩
  | error y => cases y <;> cases h

/-- A `PUT` that succeeds has written the object itself. -/
lemma Writing.answered {k : Key} {e t : Engine} (h : Writing k e t) {uuid : String} {turns : List (Bytes × ℕ)}
    {stored : StorageNodeClient.StoredObject} (hread : StorageNodeClient.readStored k
      (NodeServer.handle cfg.sha256 (cfg.engines n) n (.put k uuid turns) t).2 = .ok stored) :
    NodeServer.dirOf k e = none ∧ ∃ t', (NodeServer.handle cfg.sha256 (cfg.engines n) n (.put k uuid turns) t).1 = t' ∧
      (∃ d, NodeServer.dirOf k t' = some d ∧ d.metadata.isFile = true) ∧ SameOthers k e t' := by
  have hstep := writeStream_writes cfg.sha256 (cfg.engines n) k uuid turns t
  simp only [NodeServer.handle] at hread ⊢
  generalize Chunking.writeStream cfg.sha256 (cfg.engines n) k uuid (turns.map Turn.ofBytes) t = answer at hstep hread ⊢
  cases hstep with
  | done _ hfree hdir hothers =>
    rcases h with rfl | ⟨-, ⟨d, hd, -⟩, -⟩
    · exact ⟨hfree, _, rfl, ⟨_, hdir, rfl⟩, hothers⟩
    · cases hfree.symm.trans hd
  | refused x =>
    obtain ⟨size, hsize⟩ := readStored_ok hread
    cases hsize

lemma putObject_free {s : Store} {b : Blob} (h : s n i = none) :
    putObject none n i b s = (.ok (), s.set n i (some b)) := by
  simp only [putObject, h]

lemma putObject_free_lost {s : Store} {b : Blob} (h : s n i = none) (x : ClientError) :
    putObject (some (.lost x)) n i b s = (.error x, s.set n i (some b)) := by
  simp only [putObject, h]

lemma put_refines (cfg : ClusterConfig) (n : String) (i : UUID) (c : Cluster) :
    ∃ fault received, putObject fault n i received (store cfg c.nodes) =
      ((serve cfg (.put n i) c).1, store cfg (serve cfg (.put n i) c).2.nodes) := by
  simp only [serve]
  by_cases hi : Genuine i
  swap
  · rw [onVersion_unknown hi]
    refine ⟨some (.refused (NodeClient.protocolError "no identifier")), ⟨zeroChecksum, 0, true⟩, ?_⟩
    rw [pass, store_unchanged]
    rfl
  rw [onVersion_genuine hi]
  set act := NodeServer.handle cfg.sha256 (cfg.engines n) n (.put (key cfg i) (c.future 0).uuid (c.future 0).turns)
  set answer := converse act (c.future 0).deliveries (c.nodes n)
    (StorageNodeClient.putObject (cfg.clients n) (key cfg i)) with hconverse
  have hact : ∀ t, Writing (key cfg i) (c.nodes n) t → Writing (key cfg i) (c.nodes n) (act t).1 :=
    fun t ht => Writing.handled ht _ _
  have hreads : ∀ (r : Received) (stored : StorageNodeClient.StoredObject),
      StorageNodeClient.readStored (key cfg i) r = .ok stored → r.status ∉ NodeClient.retryableStatusCodes := by
    intro r stored hr hcode
    simp only [StorageNodeClient.readStored, StorageNodeClient.raiseForResponse_transient hcode] at hr
    cases hr
  have hstored : ∀ t, (∃ d, NodeServer.dirOf (key cfg i) t = some d ∧ d.metadata.isFile = true) →
      ∃ b, held cfg.sha256 (key cfg i) t = some b := by
    rintro t ⟨d, hd, hfile⟩
    exact ⟨_, (congrArg (heldDir cfg.sha256 (key cfg i)) hd).trans (if_pos hfile)⟩
  have hempty : NodeServer.dirOf (key cfg i) (c.nodes n) = none → store cfg c.nodes n i = none := by
    intro hfree
    rw [store_genuine hi, held, hfree]
    rfl
  rcases clientAnswer_cases answer.1 with ⟨stored, hok, hanswer⟩ | ⟨x, hanswer⟩
  · obtain ⟨t, ht, hread, hlast⟩ := converse_ok
      (exchange_decided (cfg.clients n) .write false (NodeClient.validateIdentifiers (key cfg i)) _) hreads
      (Or.inl rfl : Writing (key cfg i) (c.nodes n) (c.nodes n)) hact hok
    obtain ⟨hfree, t', ht', hdir, hothers⟩ := Writing.answered ht hread
    obtain ⟨b, hb⟩ := hstored t' hdir
    have hfinal : answer.2 = t' := hlast.trans ht'
    refine ⟨none, b, ?_⟩
    rw [hanswer, pass, hfinal, store_update hi hothers, hb, putObject_free (hempty hfree)]
    rfl
  · have hstate : Writing (key cfg i) (c.nodes n) answer.2 := converse_state (Or.inl rfl) hact
    rw [hanswer, pass]
    rcases hstate with hsame | ⟨hfree, hdir, hothers⟩
    · refine ⟨some (.refused x), ⟨zeroChecksum, 0, true⟩, ?_⟩
      rw [hsame, store_unchanged]
      rfl
    · obtain ⟨b, hb⟩ := hstored answer.2 hdir
      refine ⟨some (.lost x), b, ?_⟩
      rw [store_update hi hothers, hb, putObject_free_lost (hempty hfree)]
      rfl

end Calls

/-- A world of `Store` that holds what the disks hold, whatever it says of the calls to come. -/
def Shows (cfg : ClusterConfig) (c : Cluster) (w : World) : Prop := w.store = store cfg c.nodes

/-- Every request does to the store what it does under some outcome. -/
lemma serve_refines (cfg : ClusterConfig) {β : Type} (q : Request β) (c : Cluster) :
    ∃ o : Outcome, ∀ future : ℕ → Outcome, future 0 = o →
      Storage.serve q ⟨store cfg c.nodes, future⟩ =
        ((serve cfg q c).1, ⟨store cfg (serve cfg q c).2.nodes, fun m => future (m + 1)⟩) := by
  cases q with
  | verify n i =>
    obtain ⟨hstore, fault, hanswer⟩ := verify_refines cfg n i c
    refine ⟨{ fault := fault }, fun future hf => ?_⟩
    simp only [Storage.serve, World.pass, hf, hanswer, hstore]
  | delete n i =>
    obtain ⟨fault, hanswer⟩ := delete_refines cfg n i c
    refine ⟨{ fault := fault }, fun future hf => ?_⟩
    simp only [Storage.serve, World.pass, hf, hanswer]
  | stream n i =>
    obtain ⟨hstore, fault, hanswer⟩ := stream_refines cfg n i c
    refine ⟨{ fault := fault }, fun future hf => ?_⟩
    simp only [Storage.serve, World.pass, hf, hanswer, hstore]
  | put n i =>
    obtain ⟨fault, received, hanswer⟩ := put_refines cfg n i c
    refine ⟨{ fault := fault, received := received }, fun future hf => ?_⟩
    simp only [Storage.serve, World.pass, hf, hanswer]
  | poll n =>
    refine ⟨{ health := (serve cfg (.poll n) c).1 }, fun future hf => ?_⟩
    have hsame : store cfg (serve cfg (.poll n) c).2.nodes = store cfg c.nodes := by
      simp only [serve, pass]
      rw [converse_unchanged fun t => rfl, converse_unchanged fun t => rfl, store_unchanged]
    simp only [Storage.serve, World.pass, hf, hsame]
  | now => exact ⟨{ now := (c.future 0).now }, fun future hf => by simp only [Storage.serve, World.pass, hf]; rfl⟩
  | enqueue i j => exact ⟨{ taskId := (c.future 0).taskId }, fun future hf => by simp only [Storage.serve, World.pass, hf]; rfl⟩

lemma backward (cfg : ClusterConfig) : Script.Backward (serve cfg) Storage.serve (Shows cfg) where
  explained c := ⟨⟨store cfg c.nodes, fun _ => {}⟩, rfl⟩
  traced q c w hw := by
    obtain ⟨o, hserve⟩ := serve_refines cfg q c
    refine ⟨⟨store cfg c.nodes, fun m => m.casesOn o w.future⟩, rfl, ?_⟩
    rw [hserve _ rfl]
    obtain ⟨held, future⟩ := w
    cases hw
    rfl

/-- Whatever a task of the control plane does, on nodes of any state and over a network that loses any requests and
answers: it runs as it would on a `Store` whose calls fail in some way, which holds at every moment what the disks
hold. -/
theorem tasks_run_as_on_a_store (cfg : ClusterConfig) {α : Type} (task : Job α) (db : Db) (c : Cluster) :
    ∃ future : ℕ → Outcome,
      let real := task.exec (serve cfg) (Point.start db c)
      let ideal := task.exec Storage.serve (Point.start db ⟨store cfg c.nodes, future⟩)
      ideal.1 = real.1 ∧ ideal.2.session = real.2.session ∧ ideal.2.world.store = store cfg real.2.world.nodes ∧
        List.Forall₂ (Script.EventRel (Shows cfg)) real.2.past ideal.2.past := by
  obtain ⟨w, hw, hrun⟩ := (backward cfg).exec task (Point.start db c)
  obtain ⟨held, future⟩ := w
  obtain rfl : held = store cfg c.nodes := hw
  obtain ⟨hresult, hrel⟩ := hrun (Point.start db ⟨store cfg c.nodes, future⟩) rfl ⟨rfl, rfl, .nil⟩
  exact ⟨future, hresult, hrel.session, hrel.world, hrel.past⟩

end Cluster

end Vault.Storage
