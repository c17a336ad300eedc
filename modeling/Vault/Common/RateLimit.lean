import Vault.Common.Errors
import Vault.Lib.Runs
import Vault.Lib.Table
import Mathlib.Data.Rat.Floor

/-! `SlidingWindowRateLimiter` of `common/rate_limit.py`, with exact instants. The dictionary of clients is a table in the
order in which its keys came in. -/

namespace Vault.Common.RateLimit

open Vault.Common Vault.Lib

structure Limits where
  limit : ℕ
  windowSeconds : ℚ
  maxClients : ℕ
  windowSeconds_pos : 0 < windowSeconds
  maxClients_pos : 1 ≤ maxClients

def checkLimits (limit : ℤ) (windowSeconds : ℚ) (maxClients : ℤ) : Except Failure Limits :=
  if limit < 0 then .error (.value "limit must be non-negative")
  else if hw : 0 < windowSeconds then
    if hm : 1 ≤ maxClients.toNat then .ok ⟨limit.toNat, windowSeconds, maxClients.toNat, hw, hm⟩
    else .error (.value "max_clients must be at least 1")
  else .error (.value "window_seconds must be greater than zero")

structure Client where
  key : String
  events : List ℚ
  deriving DecidableEq

structure Call where
  key : Arg String
  now : ℚ
  deriving DecidableEq

def stored (key : String) (clients : List Client) : List ℚ :=
  (Table.lookup Client.key key clients).elim [] Client.events

def setDefault (key : String) (clients : List Client) : List Client :=
  if (Table.lookup Client.key key clients).isSome then clients else clients ++ [⟨key, []⟩]

def assign (key : String) (events : List ℚ) (clients : List Client) : List Client :=
  Table.amend Client.key key (fun client => { client with events := events }) clients

def evictOneEmptyClient (clients : List Client) : List Client :=
  match clients.find? (fun client => client.events = []) with
  | some client => Table.remove Client.key client.key clients
  | none => clients.tail

variable (cfg : Limits)

def live (key : String) (now : ℚ) (clients : List Client) : List ℚ :=
  (stored key clients).dropWhile (fun event => event ≤ now - cfg.windowSeconds)

def retryAfter (now : ℚ) (events : List ℚ) : ℤ := max 1 ⌈cfg.windowSeconds - (now - events.headD 0)⌉

def allow (call : Call) (clients : List Client) : Except Failure (Bool × ℤ) × List Client :=
  match call.key with
  | .illTyped => (.error (.value "client_key must be a non-empty string"), clients)
  | .value key =>
    if key = "" then (.error (.value "client_key must be a non-empty string"), clients)
    else if cfg.limit = 0 then (.ok (true, 0), clients)
    else
      let clients := setDefault key clients
      let events := live cfg key call.now clients
      if cfg.limit ≤ events.length then (.ok (false, retryAfter cfg call.now events), assign key events clients)
      else
        let clients := assign key (events ++ [call.now]) clients
        (.ok (true, 0), if cfg.maxClients < clients.length then evictOneEmptyClient clients else clients)

def step (clients : List Client) (call : Call) : List Client := (allow cfg call clients).2

def Granted (key : String) (clients : List Client) (call : Call) : Prop :=
  call.key = .value key ∧ (allow cfg call clients).1 = .ok (true, 0)

instance (key : String) (clients : List Client) (call : Call) : Decidable (Granted cfg key clients call) :=
  inferInstanceAs (Decidable (_ ∧ _))

/-- The instants of the calls of the client that are allowed in a run. -/
def allowedTimes (key : String) : List Client → List Call → List ℚ
  | _, [] => []
  | clients, call :: calls =>
    (if Granted cfg key clients call then [call.now] else []) ++ allowedTimes key (step cfg clients call) calls

variable {cfg} {key : String} {clients : List Client} {call : Call} {now : ℚ}

lemma allowedTimes_append (calls calls' : List Call) : allowedTimes cfg key clients (calls ++ calls') =
    allowedTimes cfg key clients calls ++ allowedTimes cfg key (Runs.run (step cfg) clients calls) calls' := by
  induction calls generalizing clients with
  | nil => rfl
  | cons call calls ih =>
    rw [List.cons_append, allowedTimes, ih, allowedTimes, List.append_assoc]
    rfl

section Tables

variable {events : List ℚ}

lemma keys_setDefault : (setDefault key clients).map Client.key =
    if key ∈ clients.map Client.key then clients.map Client.key else clients.map Client.key ++ [key] := by
  unfold setDefault
  cases h : Table.lookup Client.key key clients with
  | some client =>
    have hmem : key ∈ clients.map Client.key := Table.lookup_key h ▸ List.mem_map_of_mem (Table.lookup_mem h)
    simp [hmem]
  | none =>
    have hmem : key ∉ clients.map Client.key := by
      intro hk
      obtain ⟨client, hc, he⟩ := List.mem_map.mp hk
      exact Table.lookup_eq_none.mp h client hc he
    simp [hmem]

lemma nodup_setDefault (h : (clients.map Client.key).Nodup) : ((setDefault key clients).map Client.key).Nodup := by
  rw [keys_setDefault]
  split_ifs with hk
  · exact h
  · simpa [List.nodup_append] using ⟨h, fun client hc he => hk (he ▸ List.mem_map_of_mem hc)⟩

lemma stored_setDefault (key' : String) : stored key' (setDefault key clients) = stored key' clients := by
  unfold setDefault stored
  split_ifs with h
  · rfl
  · by_cases hk : key' = key
    · subst hk
      have hnone := Option.not_isSome_iff_eq_none.mp h
      rw [Table.lookup_append, hnone]
      simp [Table.lookup]
    · rw [Table.lookup_concat_of_ne fun he => hk he.symm]

lemma mem_setDefault : key ∈ (setDefault key clients).map Client.key := by
  rw [keys_setDefault]
  split_ifs with hk
  · exact hk
  · simp

lemma keys_assign : (assign key events clients).map Client.key = clients.map Client.key :=
  Table.map_amend (f := fun client : Client => { client with events := events }) Client.key (fun _ => rfl) clients

lemma stored_assign_self (h : key ∈ clients.map Client.key) : stored key (assign key events clients) = events := by
  obtain ⟨client, hc, he⟩ := List.mem_map.mp h
  cases hl : Table.lookup Client.key key clients with
  | none => exact absurd he (Table.lookup_eq_none.mp hl client hc)
  | some found =>
    unfold stored assign
    rw [Table.lookup_amend_self (f := fun client => { client with events := events }) (fun _ => rfl) hl]
    rfl

lemma stored_assign_ne {key' : String} (h : key' ≠ key) : stored key' (assign key events clients) = stored key' clients := by
  unfold stored assign
  rw [Table.lookup_amend_ne (f := fun client => { client with events := events }) (fun _ => rfl) clients h]

lemma mem_assign {client : Client} (h : client ∈ assign key events clients) :
    client ∈ clients ∨ client = ⟨key, events⟩ := by
  obtain ⟨old, hold, rfl⟩ := Table.mem_amend.mp h
  split_ifs with hk
  · exact Or.inr (by rw [← hk])
  · exact Or.inl hold

lemma mem_of_setDefault {client : Client} (h : client ∈ setDefault key clients) :
    client ∈ clients ∨ client = ⟨key, []⟩ := by
  unfold setDefault at h
  split_ifs at h
  · exact Or.inl h
  · simpa using h

lemma length_setDefault_le : (setDefault key clients).length ≤ clients.length + 1 := by
  unfold setDefault
  split_ifs
  · exact Nat.le_succ _
  · simp

lemma setDefault_of_stored (h : stored key clients ≠ []) : setDefault key clients = clients := by
  unfold setDefault
  cases hl : Table.lookup Client.key key clients with
  | some client => rfl
  | none =>
    apply absurd _ h
    simp [stored, hl]

lemma evict_sublist : (evictOneEmptyClient clients).Sublist clients := by
  unfold evictOneEmptyClient
  split
  · exact List.filter_sublist
  · exact List.tail_sublist clients

lemma length_evict (h : 0 < clients.length) : (evictOneEmptyClient clients).length < clients.length := by
  unfold evictOneEmptyClient
  split
  · next client hc =>
    apply List.length_filter_lt_length_iff_exists.mpr
    exact ⟨client, List.mem_of_find?_eq_some hc, by simp⟩
  · rw [List.length_tail]
    omega

end Tables

section Steps

variable (hlimit : 1 ≤ cfg.limit)

include hlimit

lemma stored_ne_nil (h : cfg.limit ≤ (live cfg key now clients).length) :
    stored key clients ≠ [] := by
  intro he
  rw [live, he, List.dropWhile_nil, List.length_nil] at h
  omega

lemma allow_rejected (hkey : call.key = .value key) (hne : key ≠ "")
    (h : cfg.limit ≤ (live cfg key call.now clients).length) :
    allow cfg call clients = (.ok (false, retryAfter cfg call.now (live cfg key call.now clients)),
      assign key (live cfg key call.now clients) clients) := by
  have hzero : cfg.limit ≠ 0 := by omega
  simp [allow, hkey, hne, hzero, setDefault_of_stored (stored_ne_nil hlimit h), h]

lemma allow_granted (hkey : call.key = .value key) (hne : key ≠ "")
    (h : (live cfg key call.now clients).length < cfg.limit) :
    allow cfg call clients = (.ok (true, 0),
      let clients := assign key (live cfg key call.now clients ++ [call.now]) (setDefault key clients)
      if cfg.maxClients < clients.length then evictOneEmptyClient clients else clients) := by
  have hzero : cfg.limit ≠ 0 := by omega
  have hlive : live cfg key call.now (setDefault key clients) = live cfg key call.now clients := by
    rw [live, stored_setDefault]
    rfl
  simp [allow, hkey, hne, hzero, hlive, not_le.mpr h]

omit hlimit in
/-- A call leaves the clients as they were, or is that of a client whose key is not empty. -/
lemma allow_cases (call : Call) (clients : List Client) :
    (∃ e, allow cfg call clients = (.error e, clients)) ∨ ∃ key, call.key = .value key ∧ key ≠ "" ∧
      (cfg.limit ≤ (live cfg key call.now clients).length ∨ (live cfg key call.now clients).length < cfg.limit) := by
  cases hkey : call.key with
  | illTyped => exact Or.inl ⟨.value "client_key must be a non-empty string", by simp only [allow, hkey]⟩
  | value key =>
    by_cases hne : key = ""
    · exact Or.inl ⟨.value "client_key must be a non-empty string", by simp only [allow, hkey, hne, if_true]⟩
    · exact Or.inr ⟨key, rfl, hne, le_or_gt _ _⟩

end Steps

end Vault.Common.RateLimit
