import Vault.Common.RateLimit

/-! What the limiter guarantees along a run. While no client is evicted, what is stored of a client is the end of the
list of its allowed calls, and what has been dropped from the front is older than the window. -/

namespace Vault.Common.RateLimit

open Vault.Common Vault.Lib

variable {cfg : Limits} {key : String} {clients : List Client} {call : Call} {now : ℚ}

lemma dropWhile_split (cutoff : ℚ) (events : List ℚ) : ∃ dropped, (∀ e ∈ dropped, e ≤ cutoff) ∧
    events = dropped ++ events.dropWhile (fun e => e ≤ cutoff) := by
  refine ⟨events.takeWhile (fun e => e ≤ cutoff), fun e he => ?_, List.takeWhile_append_dropWhile.symm⟩
  simpa using List.mem_takeWhile_imp he

lemma lt_of_mem_dropWhile {cutoff : ℚ} {events : List ℚ} (h : events.Pairwise (· ≤ ·)) :
    ∀ e ∈ events.dropWhile (fun e => e ≤ cutoff), cutoff < e := by
  induction events with
  | nil => simp
  | cons e events ih =>
    rw [List.pairwise_cons] at h
    by_cases he : e ≤ cutoff
    · rw [List.dropWhile_cons_of_pos (by simpa using he)]
      exact ih h.2
    · rw [List.dropWhile_cons_of_neg (by simpa using he)]
      intro e' he'
      rcases List.mem_cons.mp he' with rfl | he'
      · exact not_le.mp he
      · exact (not_le.mp he).trans_le (h.1 e' he')

/-- What holds of the clients when no call was later than `now`. -/
structure Orderly (cfg : Limits) (now : ℚ) (clients : List Client) : Prop where
  keys : (clients.map Client.key).Nodup
  sorted : ∀ client ∈ clients, client.events.Pairwise (· ≤ ·)
  short : ∀ client ∈ clients, client.events.length ≤ cfg.limit
  past : ∀ client ∈ clients, ∀ e ∈ client.events, e ≤ now

lemma orderly_nil (cfg : Limits) (now : ℚ) : Orderly cfg now [] := ⟨List.nodup_nil, by simp, by simp, by simp⟩

lemma Orderly.later (h : Orderly cfg now clients) {now' : ℚ} (hle : now ≤ now') : Orderly cfg now' clients :=
  { h with past := fun client hc e he => (h.past client hc e he).trans hle }

lemma stored_mem (h : stored key clients ≠ []) : ∃ client ∈ clients, client.events = stored key clients := by
  unfold stored at h ⊢
  cases hl : Table.lookup Client.key key clients with
  | none => simp [hl] at h
  | some client => exact ⟨client, Table.lookup_mem hl, rfl⟩

lemma Orderly.stored_sorted (h : Orderly cfg now clients) (key : String) : (stored key clients).Pairwise (· ≤ ·) := by
  by_cases hs : stored key clients = []
  · rw [hs]
    exact List.Pairwise.nil
  · obtain ⟨client, hc, he⟩ := stored_mem hs
    exact he ▸ h.sorted client hc

lemma Orderly.stored_past (h : Orderly cfg now clients) (key : String) : ∀ e ∈ stored key clients, e ≤ now := by
  intro e hm
  obtain ⟨client, hc, he⟩ := stored_mem (List.ne_nil_of_mem hm)
  exact h.past client hc e (he ▸ hm)

lemma live_sublist (key : String) (now : ℚ) (clients : List Client) : (live cfg key now clients).Sublist (stored key clients) :=
  List.dropWhile_sublist _

/-- A client of the new table is an old one, or that of the call with what the call stores. -/
lemma Orderly.assign (h : Orderly cfg now clients) {events : List ℚ} (hs : events.Pairwise (· ≤ ·))
    (hl : events.length ≤ cfg.limit) (hp : ∀ e ∈ events, e ≤ now) :
    Orderly cfg now (assign key events (setDefault key clients)) := by
  have hold : ∀ client ∈ RateLimit.assign key events (setDefault key clients),
      client ∈ clients ∨ client.events = [] ∨ client.events = events := by
    intro client hc
    rcases mem_assign hc with hc | rfl
    · rcases mem_of_setDefault hc with hc | rfl
      · exact Or.inl hc
      · exact Or.inr (Or.inl rfl)
    · exact Or.inr (Or.inr rfl)
  constructor
  · rw [keys_assign]
    exact nodup_setDefault h.keys
  · intro client hc
    rcases hold client hc with hc | he | he
    · exact h.sorted client hc
    · rw [he]
      exact List.Pairwise.nil
    · rwa [he]
  · intro client hc
    rcases hold client hc with hc | he | he
    · exact h.short client hc
    · simp [he]
    · rwa [he]
  · intro client hc
    rcases hold client hc with hc | he | he
    · exact h.past client hc
    · simp [he]
    · rwa [he]

lemma Orderly.sublist (h : Orderly cfg now clients) {clients' : List Client} (hs : clients'.Sublist clients) :
    Orderly cfg now clients' :=
  ⟨h.keys.sublist (hs.map _), fun c hc => h.sorted c (hs.subset hc), fun c hc => h.short c (hs.subset hc),
    fun c hc => h.past c (hs.subset hc)⟩

lemma Orderly.live_append (h : Orderly cfg now clients) (key : String) :
    (live cfg key now clients ++ [now]).Pairwise (· ≤ ·) ∧ ∀ e ∈ live cfg key now clients ++ [now], e ≤ now := by
  have hpast : ∀ e ∈ live cfg key now clients, e ≤ now :=
    fun e he => h.stored_past key e ((live_sublist key now clients).subset he)
  constructor
  · rw [List.pairwise_append]
    refine ⟨(h.stored_sorted key).sublist (live_sublist key now clients), List.pairwise_singleton _ _, ?_⟩
    intro e he e' he'
    rw [List.mem_singleton.mp he']
    exact hpast e he
  · intro e he
    rcases List.mem_append.mp he with he | he
    · exact hpast e he
    · exact (List.mem_singleton.mp he).le

lemma Orderly.step (h : Orderly cfg now clients) (hlimit : 1 ≤ cfg.limit) (hle : now ≤ call.now) :
    Orderly cfg call.now (step cfg clients call) := by
  have h := h.later hle
  unfold RateLimit.step
  rcases allow_cases call clients with ⟨e, he⟩ | ⟨key, hkey, hne, hfull | hroom⟩
  · rw [he]
    exact h
  · rw [allow_rejected hlimit hkey hne hfull]
    have hstored := stored_ne_nil hlimit hfull
    have hsub : (live cfg key call.now clients).Sublist (stored key clients) := live_sublist key call.now clients
    obtain ⟨client, hc, he⟩ := stored_mem hstored
    rw [← setDefault_of_stored hstored]
    refine h.assign ?_ ?_ ?_
    · rw [setDefault_of_stored hstored]
      exact (h.stored_sorted key).sublist hsub
    · rw [setDefault_of_stored hstored]
      exact hsub.length_le.trans (he ▸ h.short client hc)
    · rw [setDefault_of_stored hstored]
      exact fun e he => h.stored_past key e (hsub.subset he)
  · rw [allow_granted hlimit hkey hne hroom]
    obtain ⟨hsorted, hpast⟩ := h.live_append key
    have hassign : Orderly cfg call.now (RateLimit.assign key (live cfg key call.now clients ++ [call.now]) (setDefault key clients)) := by
      apply h.assign hsorted _ hpast
      rw [List.length_append, List.length_singleton]
      omega
    dsimp only
    split_ifs
    · exact hassign.sublist evict_sublist
    · exact hassign

lemma length_step (hlimit : 1 ≤ cfg.limit) (h : clients.length ≤ cfg.maxClients) (call : Call) :
    (step cfg clients call).length ≤ cfg.maxClients := by
  unfold step
  rcases allow_cases call clients with ⟨e, he⟩ | ⟨key, hkey, hne, hfull | hroom⟩
  · rwa [he]
  · rw [allow_rejected hlimit hkey hne hfull]
    rwa [assign, Table.length_amend]
  · rw [allow_granted hlimit hkey hne hroom]
    have hlength := @length_setDefault_le key clients
    dsimp only
    split_ifs with hmany
    · have hevict := length_evict (Nat.zero_lt_of_lt hmany)
      rw [assign, Table.length_amend] at hevict
      rw [assign]
      omega
    · exact not_lt.mp hmany

/-- The instants in the window that ends `cfg.windowSeconds` after `a`. -/
def inWindow (cfg : Limits) (a : ℚ) (events : List ℚ) : List ℚ :=
  events.filter (fun t => a < t ∧ t ≤ a + cfg.windowSeconds)

lemma inWindow_append (a : ℚ) (events events' : List ℚ) :
    inWindow cfg a (events ++ events') = inWindow cfg a events ++ inWindow cfg a events' := List.filter_append ..

lemma inWindow_of_le {a : ℚ} {events : List ℚ} (h : ∀ e ∈ events, e ≤ a) : inWindow cfg a events = [] := by
  apply List.filter_eq_nil_iff.mpr
  intro e he
  simp [not_lt.mpr (h e he)]

/-- What the limiter knows of the calls that were allowed, while no client has been evicted. -/
structure Exact (cfg : Limits) (now : ℚ) (calls : List Call) (clients : List Client) : Prop where
  orderly : Orderly cfg now clients
  used : ∀ k ∈ clients.map Client.key, Arg.value k ∈ calls.map Call.key
  suffix : ∀ key, ∃ dropped, allowedTimes cfg key [] calls = dropped ++ stored key clients ∧
    ∀ e ∈ dropped, e ≤ now - cfg.windowSeconds
  window : ∀ key a, (inWindow cfg a (allowedTimes cfg key [] calls)).length ≤ cfg.limit

lemma allowedTimes_concat (key : String) (calls : List Call) (call : Call) :
    allowedTimes cfg key [] (calls ++ [call]) = allowedTimes cfg key [] calls ++
      if Granted cfg key (Runs.run (step cfg) [] calls) call then [call.now] else [] := by
  rw [allowedTimes_append, allowedTimes, allowedTimes, List.append_nil]

/-- The stored calls of a client that are not older than the window, and the rest of its allowed calls. -/
lemma Exact.live {calls : List Call} (h : Exact cfg now calls clients) (key : String) (hle : now ≤ call.now) :
    ∃ dropped, allowedTimes cfg key [] calls = dropped ++ live cfg key call.now clients ∧
      ∀ e ∈ dropped, e ≤ call.now - cfg.windowSeconds := by
  obtain ⟨dropped, hsplit, hold⟩ := h.suffix key
  obtain ⟨expired, hexpired, hstored⟩ := dropWhile_split (call.now - cfg.windowSeconds) (stored key clients)
  refine ⟨dropped ++ expired, ?_, fun e he => ?_⟩
  · rw [hsplit, List.append_assoc]
    exact congrArg _ hstored
  · rcases List.mem_append.mp he with he | he
    · exact (hold e he).trans (by linarith)
    · exact hexpired e he

/-- A window that reaches the call begins after everything that is not stored any more. -/
lemma Exact.window_granted {calls : List Call} (h : Exact cfg now calls clients) (key : String) (hle : now ≤ call.now)
    (hroom : (RateLimit.live cfg key call.now clients).length < cfg.limit) (a : ℚ) :
    (inWindow cfg a (allowedTimes cfg key [] calls ++ [call.now])).length ≤ cfg.limit := by
  by_cases hreach : a < call.now ∧ call.now ≤ a + cfg.windowSeconds
  · obtain ⟨dropped, hsplit, hold⟩ := h.live key hle
    have hgone : inWindow cfg a dropped = [] := inWindow_of_le fun e he => (hold e he).trans (by linarith [hreach.2])
    have hlive : (inWindow cfg a (RateLimit.live cfg key call.now clients)).length ≤
        (RateLimit.live cfg key call.now clients).length := List.length_filter_le _ _
    rw [hsplit, inWindow_append, inWindow_append, hgone, List.nil_append, List.length_append]
    have hone : (inWindow cfg a [call.now]).length ≤ 1 := List.length_filter_le _ _
    omega
  · have hnone : inWindow cfg a [call.now] = [] := by
      apply List.filter_eq_nil_iff.mpr
      intro e he
      rw [List.mem_singleton.mp he]
      simpa using hreach
    rw [inWindow_append, hnone, List.append_nil]
    exact h.window key a

lemma Exact.later {calls : List Call} (h : Exact cfg now calls clients) {now' : ℚ} (hle : now ≤ now') :
    Exact cfg now' calls clients := by
  refine ⟨h.orderly.later hle, h.used, fun key => ?_, h.window⟩
  obtain ⟨dropped, hsplit, hold⟩ := h.suffix key
  exact ⟨dropped, hsplit, fun e he => (hold e he).trans (by linarith)⟩

lemma Exact.unchanged {calls : List Call} (h : Exact cfg now calls clients) (hle : now ≤ call.now)
    (hsame : ∀ key, allowedTimes cfg key [] (calls ++ [call]) = allowedTimes cfg key [] calls) :
    Exact cfg call.now (calls ++ [call]) clients := by
  have h := h.later hle
  refine ⟨h.orderly, fun k hk => ?_, fun key => ?_, fun key a => ?_⟩
  · rw [List.map_append]
    exact List.mem_append_left _ (h.used k hk)
  · rw [hsame]
    exact h.suffix key
  · rw [hsame]
    exact h.window key a

/-- The keys of the table are keys of the calls, so a table of `maxClients` clients is not exceeded. -/
lemma length_le_of_used {calls : List Call} (hkeys : (clients.map Client.key).Nodup)
    (hused : ∀ k ∈ clients.map Client.key, Arg.value k ∈ calls.map Call.key) :
    clients.length ≤ (calls.map Call.key).toFinset.card := by
  have hnodup : ((clients.map Client.key).map Arg.value).Nodup := hkeys.map fun a b h => Arg.value.inj h
  have hsub : ((clients.map Client.key).map Arg.value).toFinset ⊆ (calls.map Call.key).toFinset := by
    intro a ha
    rw [List.mem_toFinset] at ha ⊢
    obtain ⟨k, hk, rfl⟩ := List.mem_map.mp ha
    exact hused k hk
  have hcard := Finset.card_le_card hsub
  rwa [List.toFinset_card_of_nodup hnodup, List.length_map, List.length_map] at hcard

lemma Exact.step {calls : List Call} (h : Exact cfg now calls (Runs.run (step cfg) [] calls)) (hlimit : 1 ≤ cfg.limit)
    (hle : now ≤ call.now) (hfew : ((calls ++ [call]).map Call.key).toFinset.card ≤ cfg.maxClients) :
    Exact cfg call.now (calls ++ [call]) (step cfg (Runs.run (step cfg) [] calls) call) := by
  have horderly := h.orderly.step hlimit hle
  revert horderly
  generalize hclients : Runs.run (RateLimit.step cfg) [] calls = clients at h
  intro horderly
  unfold RateLimit.step at horderly ⊢
  rcases allow_cases call clients with ⟨e, he⟩ | ⟨key, hkey, hne, hfull | hroom⟩
  · rw [he]
    apply h.unchanged hle
    intro key
    rw [allowedTimes_concat, hclients, if_neg, List.append_nil]
    rintro ⟨-, hg⟩
    rw [he] at hg
    cases hg
  · have hans := allow_rejected hlimit hkey hne hfull
    have hsame : ∀ key', allowedTimes cfg key' [] (calls ++ [call]) = allowedTimes cfg key' [] calls := by
      intro key'
      rw [allowedTimes_concat, hclients, if_neg, List.append_nil]
      rintro ⟨-, hg⟩
      rw [hans] at hg
      cases hg
    have hlater := h.unchanged hle hsame
    have htracked : key ∈ clients.map Client.key := by
      have hdefault := @mem_setDefault key clients
      rwa [setDefault_of_stored (stored_ne_nil hlimit hfull)] at hdefault
    rw [hans] at horderly ⊢
    refine ⟨horderly, fun k hk => ?_, fun key' => ?_, hlater.window⟩
    · rw [keys_assign] at hk
      exact hlater.used k hk
    · by_cases hk : key' = key
      · subst hk
        rw [stored_assign_self htracked, hsame]
        exact h.live key' hle
      · rw [stored_assign_ne hk]
        exact hlater.suffix key'
  · have hans := allow_granted hlimit hkey hne hroom
    have hused : ∀ k ∈ (assign key (RateLimit.live cfg key call.now clients ++ [call.now]) (setDefault key clients)).map
        Client.key, Arg.value k ∈ (calls ++ [call]).map Call.key := by
      intro k hk
      rw [keys_assign, keys_setDefault] at hk
      rw [List.map_append, List.mem_append, List.map_singleton, List.mem_singleton, hkey]
      split_ifs at hk
      · exact Or.inl (h.used k hk)
      · rcases List.mem_append.mp hk with hk | hk
        · exact Or.inl (h.used k hk)
        · exact Or.inr (congrArg _ (List.mem_singleton.mp hk))
    have hkept : ¬cfg.maxClients < (assign key (RateLimit.live cfg key call.now clients ++ [call.now])
        (setDefault key clients)).length := by
      have hnodup : ((setDefault key clients).map Client.key).Nodup := nodup_setDefault h.orderly.keys
      rw [← keys_assign] at hnodup
      exact not_lt.mpr ((length_le_of_used hnodup hused).trans hfew)
    dsimp only at hans
    rw [if_neg hkept] at hans
    have hself : allowedTimes cfg key [] (calls ++ [call]) = allowedTimes cfg key [] calls ++ [call.now] := by
      rw [allowedTimes_concat, hclients, if_pos]
      exact ⟨hkey, congrArg Prod.fst hans⟩
    have hother : ∀ key', key' ≠ key → allowedTimes cfg key' [] (calls ++ [call]) = allowedTimes cfg key' [] calls := by
      intro key' hk
      rw [allowedTimes_concat, hclients, if_neg, List.append_nil]
      rintro ⟨hkey', -⟩
      exact hk (Arg.value.inj (hkey'.symm.trans hkey))
    rw [hans] at horderly ⊢
    refine ⟨horderly, hused, fun key' => ?_, fun key' a => ?_⟩
    · by_cases hk : key' = key
      · subst hk
        obtain ⟨dropped, hsplit, hold⟩ := h.live key' hle
        rw [stored_assign_self mem_setDefault, hself, hsplit, List.append_assoc]
        exact ⟨dropped, rfl, hold⟩
      · obtain ⟨dropped, hsplit, hold⟩ := h.suffix key'
        rw [stored_assign_ne hk, stored_setDefault, hother key' hk]
        exact ⟨dropped, hsplit, fun e he => (hold e he).trans (by linarith)⟩
    · by_cases hk : key' = key
      · subst hk
        rw [hself]
        exact h.window_granted key' hle hroom a
      · rw [hother key' hk]
        exact h.window key' a

section Run

variable {calls : List Call}

lemma length_run (hlimit : 1 ≤ cfg.limit) (calls : List Call) :
    (Runs.run (step cfg) [] calls).length ≤ cfg.maxClients :=
  Runs.run_invariant (I := fun clients : List Client => clients.length ≤ cfg.maxClients) (fun _ call h => length_step hlimit h call)
    (Nat.zero_le _) calls

lemma times_concat (h : ((calls ++ [call]).map Call.now).Pairwise (· ≤ ·)) :
    (calls.map Call.now).Pairwise (· ≤ ·) ∧ ∀ c ∈ calls, c.now ≤ call.now := by
  rw [List.map_append, List.pairwise_append] at h
  exact ⟨h.1, fun c hc => h.2.2 c.now (List.mem_map_of_mem hc) call.now (by simp)⟩

lemma card_keys_le (calls calls' : List Call) :
    (calls.map Call.key).toFinset.card ≤ ((calls ++ calls').map Call.key).toFinset.card := by
  apply Finset.card_le_card
  intro k hk
  rw [List.mem_toFinset] at hk ⊢
  rw [List.map_append]
  exact List.mem_append_left _ hk

lemma orderly_run (hlimit : 1 ≤ cfg.limit) (htimes : (calls.map Call.now).Pairwise (· ≤ ·))
    (hnow : ∀ c ∈ calls, c.now ≤ now) : Orderly cfg now (Runs.run (step cfg) [] calls) := by
  induction calls using List.reverseRecOn generalizing now with
  | nil => exact orderly_nil cfg now
  | append_singleton calls call ih =>
    obtain ⟨hbefore, hlast⟩ := times_concat htimes
    rw [Runs.run_append]
    apply Orderly.later _ (hnow call (by simp))
    exact (ih hbefore hlast).step hlimit le_rfl

lemma exact_run (hlimit : 1 ≤ cfg.limit) (htimes : (calls.map Call.now).Pairwise (· ≤ ·))
    (hfew : (calls.map Call.key).toFinset.card ≤ cfg.maxClients) (hnow : ∀ c ∈ calls, c.now ≤ now) :
    Exact cfg now calls (Runs.run (step cfg) [] calls) := by
  induction calls using List.reverseRecOn generalizing now with
  | nil =>
    refine ⟨orderly_nil cfg now, by simp [Runs.run], fun key => ⟨[], ?_, by simp⟩, fun key a => ?_⟩
    · rfl
    · simp [allowedTimes, inWindow]
  | append_singleton calls call ih =>
    obtain ⟨hbefore, hlast⟩ := times_concat htimes
    have hexact := (ih hbefore ((card_keys_le calls [call]).trans hfew) hlast).step hlimit le_rfl hfew
    rw [Runs.run_append]
    exact hexact.later (hnow call (by simp))

lemma Exact.rejected {retry : ℤ} (h : Exact cfg call.now calls clients) (hlimit : 1 ≤ cfg.limit)
    (hkey : call.key = .value key) (hr : (allow cfg call clients).1 = .ok (false, retry)) :
    cfg.limit ≤ (inWindow cfg (call.now - cfg.windowSeconds) (allowedTimes cfg key [] calls)).length := by
  rcases allow_cases call clients with ⟨e, he⟩ | ⟨key', hkey', hne, hfull | hroom⟩
  · rw [he] at hr
    cases hr
  · cases hkey.symm.trans hkey'
    obtain ⟨dropped, hsplit, hold⟩ := h.live key le_rfl
    have hall : inWindow cfg (call.now - cfg.windowSeconds) (RateLimit.live cfg key call.now clients) =
        RateLimit.live cfg key call.now clients := by
      apply List.filter_eq_self.mpr
      intro e he
      have hlate := lt_of_mem_dropWhile (h.orderly.stored_sorted key) e he
      have hpast := h.orderly.stored_past key e ((live_sublist key call.now clients).subset he)
      simpa using ⟨hlate, hpast⟩
    rw [hsplit, inWindow_append, hall, List.length_append]
    omega
  · rw [allow_granted hlimit hkey' hne hroom] at hr
    cases hr

/-- The table never exceeds its size and each client has at most `limit` instants, in their order. While the calls use no
more keys than there is room for, no window has more than `limit` allowed calls of a client, and a call is rejected only
when the window that ends with it is full. -/
theorem sliding_window_limit (cfg : Limits) (hlimit : 1 ≤ cfg.limit) (calls : List Call)
    (htimes : (calls.map Call.now).Pairwise (· ≤ ·)) :
    (Runs.run (step cfg) [] calls).length ≤ cfg.maxClients ∧
    (∀ client ∈ Runs.run (step cfg) [] calls, client.events.Pairwise (· ≤ ·) ∧ client.events.length ≤ cfg.limit) ∧
    ((calls.map Call.key).toFinset.card ≤ cfg.maxClients →
      (∀ key a, (inWindow cfg a (allowedTimes cfg key [] calls)).length ≤ cfg.limit) ∧
      ∀ before call after key retry, calls = before ++ call :: after → call.key = .value key →
        (allow cfg call (Runs.run (step cfg) [] before)).1 = .ok (false, retry) →
        cfg.limit ≤ (inWindow cfg (call.now - cfg.windowSeconds) (allowedTimes cfg key [] before)).length) := by
  obtain ⟨now, hnow⟩ : ∃ now, ∀ c ∈ calls, c.now ≤ now := by
    obtain ⟨now, hnow⟩ := (calls.map Call.now).toFinset.bddAbove
    exact ⟨now, fun c hc => hnow (by simpa using ⟨c, hc, rfl⟩)⟩
  have horderly := orderly_run hlimit htimes hnow
  refine ⟨length_run hlimit calls, fun c hc => ⟨horderly.sorted c hc, horderly.short c hc⟩, fun hfew => ⟨?_, ?_⟩⟩
  · exact (exact_run hlimit htimes hfew hnow).window
  · rintro before call after key retry rfl hkey hr
    have hsplit : before ++ call :: after = (before ++ [call]) ++ after := by simp
    rw [hsplit, List.map_append] at htimes
    obtain ⟨hbefore, hlast⟩ := times_concat (List.pairwise_append.mp htimes).1
    exact (exact_run hlimit hbefore ((card_keys_le before (call :: after)).trans hfew) hlast).rejected hlimit hkey hr

end Run

def twoAMinute : Limits := ⟨2, 60, 4, by norm_num, by norm_num⟩

def burst : List Call := [⟨.value "client-a", 100⟩, ⟨.value "client-a", 101⟩, ⟨.value "client-a", 102⟩]

theorem burst_limited : (burst.map Call.now).Pairwise (· ≤ ·) ∧ (burst.map Call.key).toFinset.card ≤ 4 ∧
    (allow twoAMinute ⟨.value "client-a", 102⟩ (Runs.run (step twoAMinute) [] (burst.take 2))).1 = .ok (false, 58) ∧
    2 ≤ (inWindow twoAMinute 42 (allowedTimes twoAMinute "client-a" [] (burst.take 2))).length := by
  have htimes : (burst.map Call.now).Pairwise (· ≤ ·) := by decide +kernel
  have hfew : (burst.map Call.key).toFinset.card ≤ 4 := by decide +kernel
  have hr : (allow twoAMinute ⟨.value "client-a", 102⟩ (Runs.run (step twoAMinute) [] (burst.take 2))).1 =
      .ok (false, 58) := by decide +kernel
  obtain ⟨-, -, hexact⟩ := sliding_window_limit twoAMinute (by decide) burst htimes
  have hfull := (hexact hfew).2 (burst.take 2) ⟨.value "client-a", 102⟩ [] "client-a" 58 rfl rfl hr
  refine ⟨htimes, hfew, hr, ?_⟩
  have hstart : (102 : ℚ) - twoAMinute.windowSeconds = 42 := by norm_num [twoAMinute]
  rwa [hstart] at hfull

end Vault.Common.RateLimit
