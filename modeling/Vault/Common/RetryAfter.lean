import Vault.Common.SlidingWindow

/-! The `Retry-After` of a rejected call. Until the client calls again its stored instants stay as they are, unless it is
evicted; the oldest of them decides from when on there is room again. -/

namespace Vault.Common.RateLimit

open Vault.Common Vault.Lib

variable {cfg : Limits} {key : String} {clients clients' : List Client} {call : Call} {now : ℚ}

/-- Some client is not tracked any more after the call. -/
def Evicts (cfg : Limits) (clients : List Client) (call : Call) : Prop :=
  ∃ client ∈ clients, client.key ∉ (step cfg clients call).map Client.key

lemma stored_of_not_mem (h : key ∉ clients.map Client.key) : stored key clients = [] := by
  have hnone : Table.lookup Client.key key clients = none := by
    apply Table.lookup_eq_none.mpr
    intro client hc he
    exact h (he ▸ List.mem_map_of_mem hc)
  rw [stored, hnone]
  rfl

lemma stored_sublist (hs : clients'.Sublist clients) (hkeys : (clients.map Client.key).Nodup)
    (hmem : key ∈ clients'.map Client.key) : stored key clients' = stored key clients := by
  obtain ⟨client, hc, rfl⟩ := List.mem_map.mp hmem
  rw [stored, Table.lookup_of_mem (hkeys.sublist (hs.map _)) hc, stored, Table.lookup_of_mem hkeys (hs.subset hc)]

/-- A call of another client leaves what is stored of this one, or evicts it. -/
lemma stored_step (hlimit : 1 ≤ cfg.limit) (hkeys : (clients.map Client.key).Nodup) (hother : call.key ≠ .value key) :
    stored key (step cfg clients call) = stored key clients ∨
      key ∉ (step cfg clients call).map Client.key := by
  unfold step
  rcases allow_cases call clients with ⟨e, he⟩ | ⟨key', hkey', hne, hfull | hroom⟩
  · rw [he]
    exact Or.inl rfl
  · have hk : key ≠ key' := fun he => hother (he ▸ hkey')
    rw [allow_rejected hlimit hkey' hne hfull]
    exact Or.inl (stored_assign_ne hk)
  · have hk : key ≠ key' := fun he => hother (he ▸ hkey')
    rw [allow_granted hlimit hkey' hne hroom]
    have hsame : stored key (assign key' (live cfg key' call.now clients ++ [call.now]) (setDefault key' clients)) =
        stored key clients := by
      rw [stored_assign_ne hk, stored_setDefault]
    have hnodup : ((assign key' (live cfg key' call.now clients ++ [call.now]) (setDefault key' clients)).map
        Client.key).Nodup := by
      rw [keys_assign]
      exact nodup_setDefault hkeys
    dsimp only
    split_ifs
    · by_cases hmem : key ∈ (evictOneEmptyClient (assign key' (live cfg key' call.now clients ++ [call.now])
          (setDefault key' clients))).map Client.key
      · exact Or.inl ((stored_sublist evict_sublist hnodup hmem).trans hsame)
      · exact Or.inr hmem
    · exact Or.inl hsame

section Between

variable {between : List Call}

/-- What is known of a client until its next call: its stored instants, or nothing. -/
lemma stored_run (hlimit : 1 ≤ cfg.limit) (h : Orderly cfg now clients)
    (htimes : (between.map Call.now).Pairwise (· ≤ ·)) (hlater : ∀ c ∈ between, now ≤ c.now)
    (hother : ∀ c ∈ between, c.key ≠ .value key) :
    stored key (Runs.run (step cfg) clients between) = stored key clients ∨
      stored key (Runs.run (step cfg) clients between) = [] := by
  induction between generalizing clients now with
  | nil => exact Or.inl rfl
  | cons c between ih =>
    rw [List.map_cons, List.pairwise_cons] at htimes
    have hnext := ih (h.step hlimit (hlater c (by simp))) htimes.2
      (fun c' hc' => htimes.1 c'.now (List.mem_map_of_mem hc')) fun c' hc' => hother c' (by simp [hc'])
    rw [Runs.run_cons]
    rcases stored_step hlimit h.keys (hother c (by simp)) with hs | hs
    · rwa [hs] at hnext
    · rw [stored_of_not_mem hs] at hnext
      exact Or.inr (hnext.elim id id)

lemma stored_run_kept (hlimit : 1 ≤ cfg.limit) (h : Orderly cfg now clients)
    (htimes : (between.map Call.now).Pairwise (· ≤ ·)) (hlater : ∀ c ∈ between, now ≤ c.now)
    (hother : ∀ c ∈ between, c.key ≠ .value key) (hmem : key ∈ clients.map Client.key)
    (hkept : Runs.Along (step cfg) (fun clients c => ¬Evicts cfg clients c) clients between) :
    stored key (Runs.run (step cfg) clients between) = stored key clients := by
  induction between generalizing clients now with
  | nil => rfl
  | cons c between ih =>
    rw [List.map_cons, List.pairwise_cons] at htimes
    have hstill : key ∈ (step cfg clients c).map Client.key := by
      by_contra hno
      obtain ⟨client, hc, rfl⟩ := List.mem_map.mp hmem
      exact hkept.1 ⟨client, hc, hno⟩
    rw [Runs.run_cons, ih (h.step hlimit (hlater c (by simp))) htimes.2
      (fun c' hc' => htimes.1 c'.now (List.mem_map_of_mem hc')) (fun c' hc' => hother c' (by simp [hc'])) hstill hkept.2]
    exact (stored_step hlimit h.keys (hother c (by simp))).resolve_right (not_not.mpr hstill)

end Between

/-- A rejected call leaves `limit` instants of the client, the oldest of which decides when to retry. -/
lemma rejected_cases {retry : ℤ} (hlimit : 1 ≤ cfg.limit) (h : Orderly cfg call.now clients)
    (hkey : call.key = .value key) (hr : (allow cfg call clients).1 = .ok (false, retry)) :
    key ≠ "" ∧ key ∈ (step cfg clients call).map Client.key ∧ ∃ oldest rest,
      stored key (step cfg clients call) = oldest :: rest ∧ (oldest :: rest).length = cfg.limit ∧
      (∀ e ∈ oldest :: rest, oldest ≤ e) ∧ retry = max 1 ⌈cfg.windowSeconds - (call.now - oldest)⌉ := by
  rcases allow_cases call clients with ⟨e, he⟩ | ⟨key', hkey', hne, hfull | hroom⟩
  · rw [he] at hr
    cases hr
  · cases hkey.symm.trans hkey'
    have hnonempty := stored_ne_nil hlimit hfull
    have hmem : key ∈ clients.map Client.key := by
      by_contra hno
      exact hnonempty (stored_of_not_mem hno)
    have hshort : (stored key clients).length ≤ cfg.limit := by
      obtain ⟨client, hc, he⟩ := stored_mem hnonempty
      exact he ▸ h.short client hc
    have hsub : (live cfg key call.now clients).Sublist (stored key clients) := live_sublist key call.now clients
    have hsorted := (h.stored_sorted key).sublist hsub
    have hans := allow_rejected hlimit hkey hne hfull
    have hstored : stored key (step cfg clients call) = live cfg key call.now clients := by
      rw [step, hans]
      exact stored_assign_self hmem
    have htracked : key ∈ (step cfg clients call).map Client.key := by
      rw [step, hans, keys_assign]
      exact hmem
    rw [hans] at hr
    cases hlive : live cfg key call.now clients with
    | nil =>
      rw [hlive, List.length_nil] at hfull
      omega
    | cons oldest rest =>
      rw [hlive] at hsorted hfull hsub hr
      refine ⟨hne, htracked, oldest, rest, hstored.trans hlive, ?_, ?_, ?_⟩
      · exact le_antisymm (hsub.length_le.trans hshort) hfull
      · intro e he
        rcases List.mem_cons.mp he with rfl | he
        · exact le_rfl
        · exact List.rel_of_pairwise_cons hsorted he
      · simpa [retryAfter] using hr.symm
  · rw [allow_granted hlimit hkey' hne hroom] at hr
    cases hr

/-- Whoever waits as long as the answer says is let in; whoever comes a second or more before that is not, unless a client
was evicted meanwhile. -/
theorem retry_after_sufficient_and_tight (cfg : Limits) (hlimit : 1 ≤ cfg.limit) (before between : List Call)
    (call next : Call) (key : String) (retry : ℤ)
    (htimes : ((before ++ call :: (between ++ [next])).map Call.now).Pairwise (· ≤ ·))
    (hkey : call.key = .value key) (hnext : next.key = .value key) (hother : ∀ c ∈ between, c.key ≠ .value key)
    (hr : (allow cfg call (Runs.run (step cfg) [] before)).1 = .ok (false, retry)) :
    let rejected := step cfg (Runs.run (step cfg) [] before) call
    let later := Runs.run (step cfg) rejected between
    (call.now + retry ≤ next.now → (allow cfg next later).1 = .ok (true, 0)) ∧
    (2 ≤ retry → Runs.Along (step cfg) (fun clients c => ¬Evicts cfg clients c) rejected between →
      next.now ≤ call.now + (retry - 1) → ∃ retry', (allow cfg next later).1 = .ok (false, retry')) := by
  intro rejected later
  rw [List.map_append, List.map_cons, List.map_append, List.pairwise_append, List.pairwise_cons,
    List.pairwise_append] at htimes
  obtain ⟨hbefore, ⟨hafter, hbetween, -⟩, hlast⟩ := htimes
  have hstart : Orderly cfg call.now (Runs.run (step cfg) [] before) :=
    orderly_run hlimit hbefore fun c hc => hlast c.now (List.mem_map_of_mem hc) call.now (by simp)
  have horderly : Orderly cfg call.now rejected := hstart.step hlimit le_rfl
  have hlater : ∀ c ∈ between, call.now ≤ c.now :=
    fun c hc => hafter c.now (List.mem_append_left _ (List.mem_map_of_mem hc))
  obtain ⟨hne, hmem, oldest, rest, hstored, hlength, holdest, rfl⟩ := rejected_cases hlimit hstart hkey hr
  constructor
  · intro hwait
    have hroom : (live cfg key next.now later).length < cfg.limit := by
      rcases stored_run hlimit horderly hbetween hlater hother with hs | hs
      · have hexpired : oldest ≤ next.now - cfg.windowSeconds := by
          have hceil : cfg.windowSeconds - (call.now - oldest) ≤ (max 1 ⌈cfg.windowSeconds - (call.now - oldest)⌉ : ℤ) :=
            (Int.le_ceil _).trans (Int.cast_le.mpr (le_max_right _ _))
          linarith
        have hlive : live cfg key next.now later = rest.dropWhile (fun e => e ≤ next.now - cfg.windowSeconds) := by
          rw [live, hs, hstored]
          exact List.dropWhile_cons_of_pos (by simpa using hexpired)
        have hdrop := (List.dropWhile_sublist (fun e => decide (e ≤ next.now - cfg.windowSeconds)) (l := rest)).length_le
        rw [hlive]
        rw [List.length_cons] at hlength
        omega
      · rw [live, hs, List.dropWhile_nil, List.length_nil]
        omega
    rw [allow_granted hlimit hnext hne hroom]
  · intro htwo hkept hsoon
    have hs := stored_run_kept hlimit horderly hbetween hlater hother hmem hkept
    have hfresh : next.now - cfg.windowSeconds < oldest := by
      have hretry : max 1 ⌈cfg.windowSeconds - (call.now - oldest)⌉ = ⌈cfg.windowSeconds - (call.now - oldest)⌉ := by
        omega
      rw [hretry] at hsoon
      have hceil := Int.ceil_lt_add_one (cfg.windowSeconds - (call.now - oldest))
      linarith
    have hlive : live cfg key next.now later = oldest :: rest := by
      rw [live, hs, hstored]
      exact List.dropWhile_cons_of_neg (by simpa using hfresh)
    have hfull : cfg.limit ≤ (live cfg key next.now later).length := by rw [hlive, hlength]
    exact ⟨_, congrArg Prod.fst (allow_rejected hlimit hnext hne hfull)⟩

theorem burst_retried_in_time :
    let rejected := Runs.run (step twoAMinute) [] burst
    (allow twoAMinute ⟨.value "client-a", 160⟩ rejected).1 = .ok (true, 0) ∧
      ∃ retry, (allow twoAMinute ⟨.value "client-a", 159⟩ rejected).1 = .ok (false, retry) := by
  intro rejected
  have hr : (allow twoAMinute ⟨.value "client-a", 102⟩ (Runs.run (step twoAMinute) [] (burst.take 2))).1 =
      .ok (false, 58) := by decide +kernel
  constructor
  · obtain ⟨hwait, -⟩ := retry_after_sufficient_and_tight twoAMinute (by decide) (burst.take 2) []
      ⟨.value "client-a", 102⟩ ⟨.value "client-a", 160⟩ "client-a" 58 (by decide +kernel) rfl rfl (by simp) hr
    exact hwait (by norm_num)
  · obtain ⟨-, hsoon⟩ := retry_after_sufficient_and_tight twoAMinute (by decide) (burst.take 2) []
      ⟨.value "client-a", 102⟩ ⟨.value "client-a", 159⟩ "client-a" 58 (by decide +kernel) rfl rfl (by simp) hr
    exact hsoon (by decide) trivial (by norm_num)

end Vault.Common.RateLimit
