import Vault.Gateway.Receipts
import Vault.Gateway.Streaming

/-! What was uploaded is what is downloaded. A `HEALTHY` replica holds what a verification accepted, the generator
streams one such replica, and a stream that does not break off is all of it. Nothing is assumed of the hash: two
payloads that it does not tell apart are named as such. -/

namespace Vault.Gateway

open Vault.Common Vault.Metadata Vault.Storage Vault.Lib Vault.Lib.Script Vault.Lib.Transaction Vault.Replication

/-- Two payloads of one length that the hash does not tell apart. -/
def Collision (sha256 : Bytes → Checksum) (a b : Bytes) : Prop := a ≠ b ∧ a.length = b.length ∧ sha256 a = sha256 b

section Content

variable {sha256 : Bytes → Checksum} {v : Version} {d : Option Dir}

/-- What a verification has accepted can be read, and is what it has measured. -/
lemma readBytes_of_intact (h : Intact sha256 v d) : ∃ content, content.length = v.sizeBytes ∧
    sha256 content = v.checksum ∧ ∀ cfg, readBytes cfg (versionKey v) d = .ok content := by
  obtain ⟨r, hr, hvalid, hsum, hsize⟩ := h
  obtain ⟨hk, dir, fields, rfl, -, hmeta, hl, hinspect⟩ := verify_valid hr hvalid
  obtain ⟨found, findings, hfound, hfindings, hcount, hlength, hchecksum, -, hclean⟩ := inspect_ok hl hinspect
  obtain ⟨hlayout, -, hchunks⟩ := (clean_findings hfound hfindings).mp (hclean.mp hvalid).1
  obtain ⟨size, chunkSize, count, checksum, items, hrec, hl'⟩ := readLayout_clean hlayout
  rw [hl'] at hcount hchunks hfindings
  obtain rfl : r.chunkCount = count := hcount
  obtain ⟨contents, hcontents, hstored⟩ := exists_contents hchunks
  have hfiles : List.Forall₂ (fun i c => ∃ size, dir.entryAt? (chunkName i) = some (.file c size none))
      (List.range r.chunkCount) contents := by
    rw [List.forall₂_iff_get]
    refine ⟨by simp [hcontents], fun i hi hi' => ?_⟩
    obtain ⟨stored, hentry, -⟩ := hstored i contents[i] (List.getElem?_eq_getElem hi')
    simp only [List.get_eq_getElem, List.getElem_range]
    exact ⟨stored, hentry⟩
  have hbytes : findings.bytes = contents.flatten := by
    rw [foldlM_measureChunk_bytes hfindings hfiles, bytes_of_foldlM hfound, List.nil_append]
  rw [hbytes] at hlength hchecksum
  refine ⟨contents.flatten, hlength.symm.trans hsize, ?_, fun cfg => readBytes_recorded hk hmeta hrec hfiles⟩
  exact Option.some.inj (hchecksum.symm.trans hsum)

end Content

section Targets

variable {db : Db} {name : Arg String} {obj : Object} {version : Version} {targets : List StorageNode}

lemma mem_healthyTargets {i : UUID} {n : StorageNode} (h : n ∈ healthyTargets db i) :
    n ∈ db.nodes ∧ n.status = .healthy ∧ ∃ r ∈ db.replicas, r.versionId = i ∧ r.nodeId = n.nodeId ∧ r.status = .healthy := by
  rw [healthyTargets, List.mem_mergeSort, List.mem_flatMap] at h
  obtain ⟨m, hm, hn⟩ := h
  obtain ⟨r, hr, rfl⟩ := List.mem_map.mp hn
  obtain ⟨hmem, hr⟩ := List.mem_filter.mp hr
  obtain ⟨hnode, hversion, hstatus, hhealthy⟩ := of_decide_eq_true hr
  exact ⟨hm, hhealthy, r, hmem, hversion, hnode, hstatus⟩

lemma readTargets_ok (h : readTargets name db = .ok (obj, version, targets)) :
    ∃ n i, normalizeObjectName name = .ok n ∧ findByName db n = some obj ∧ obj.currentVersionId = some i ∧
      db.version? i = some version ∧ targets = healthyTargets db version.versionId := by
  unfold readTargets headObject getLiveObject findObject at h
  cases hn : normalizeObjectName name with
  | error e => simp [hn] at h
  | ok n =>
    cases ho : db.objects.find? (fun o => o.name = n) with
    | none => simp [hn, ho] at h
    | some o =>
      simp only [hn, ho] at h
      split_ifs at h with hactive
      · cases hi : o.currentVersionId with
        | none => simp [hi] at h
        | some i =>
          cases hv : db.version? i with
          | none => simp [hi, hv] at h
          | some w =>
            simp only [hi, hv] at h
            split_ifs at h with hcommitted
            · cases ht : healthyTargets db w.versionId with
              | nil => simp [ht] at h
              | cons m ms =>
                simp only [ht, Except.ok.injEq, Prod.mk.injEq] at h
                obtain ⟨rfl, rfl, rfl⟩ := h
                exact ⟨n, i, rfl, ho, hi, hv, ht.symm⟩

end Targets

section Bodies

variable {ρ : Type} {answers : ∀ {β : Type}, ReadCall β → ρ → β → ρ → Prop} {sha256 : Bytes → Checksum}
  {cfg : String → EngineConfig} {k : Key} {disk : ρ → String → Option Dir} {w : ρ}

/-- What a download relies on at the nodes: a directory that is there stays as it is, and the chunks of a stream are the
first bytes that the engine reads, all of them if the stream does not end with an error. -/
structure Streaming (cfg : String → EngineConfig) (k : Key) (disk : ρ → String → Option Dir)
    (answers : ∀ {β : Type}, ReadCall β → ρ → β → ρ → Prop) : Prop where
  kept : ∀ {β : Type} (c : ReadCall β) w b w', answers c w b w' → ∀ n d, disk w n = some d → disk w' n = some d
  streamed : ∀ n w d w', answers (.stream n k) w d w' → ∀ content, readBytes (cfg n) k (disk w n) = .ok content →
    d.chunks.flatten <+: content ∧ (d.ending = none → d.chunks.flatten = content)

/-- Every directory that was there at `w` is still the same. -/
def KeptSince (disk : ρ → String → Option Dir) (w w' : ρ) : Prop := ∀ n d, disk w n = some d → disk w' n = some d

lemma Streaming.stays (h : Streaming cfg k disk answers) (w : ρ) : Stays answers (KeptSince disk w) :=
  fun c w₁ b w₂ hb hw n d hd => h.kept c w₁ b w₂ hb n d (hw n d hd)

/-- A body that comes from nodes that hold the version intact is a part of one content of the version, or all of it. -/
lemma Served.content (h : Streaming cfg k disk answers) {v : Version} (hk : versionKey v = k) {targets : List String}
    (hintact : ∀ n ∈ targets, Intact sha256 v (disk w n)) {r : Except Failure Unit} {chunks : List Bytes}
    (hbody : Served answers (KeptSince disk w) k targets r chunks) :
    chunks = [] ∧ (∃ e, r = .error e) ∨ ∃ content, content.length = v.sizeBytes ∧ sha256 content = v.checksum ∧
      chunks.flatten <+: content ∧ (r = .ok () → chunks.flatten = content) := by
  rcases hbody with ⟨n, hn, d, ⟨w₁, w₂, hw, hd⟩, rfl, hend⟩ | hnone
  · right
    obtain ⟨dir, hdir⟩ := dir_of_intact (hintact n hn)
    obtain ⟨content, hlength, hsum, hread⟩ := readBytes_of_intact (hintact n hn)
    rw [hk, hdir, ← hw n dir hdir] at hread
    obtain ⟨hpart, hwhole⟩ := h.streamed n w₁ d w₂ hd content (hread (cfg n))
    exact ⟨content, hlength, hsum, hpart, fun hr => hwhole (hend hr)⟩
  · exact Or.inl hnone

end Bodies

/-- What has become of the tables since an upload: its object and its version are still the current ones, and no other
replica of the version has become `HEALTHY`. The nodes may have changed in any way. -/
structure StillCurrent (receipt : UploadReceipt) (db db' : Db) : Prop where
  object : findByName db' receipt.name = findByName db receipt.name
  version : db'.version? receipt.versionId = db.version? receipt.versionId
  replicas : ∀ r ∈ db'.replicas, r.versionId = receipt.versionId → r.status = .healthy →
    ∃ s ∈ db.replicas, s.versionId = r.versionId ∧ s.nodeId = r.nodeId ∧ s.status = .healthy

/-- What a client has received of a version whose payload was uploaded. -/
def Received (sha256 : Bytes → Checksum) (payload : Bytes) (receipt : UploadReceipt) (r : Except Failure Unit)
    (sent : List Sent) : Prop :=
  sent = [] ∧ (∃ e, r = .error e) ∨ ∃ (chunks : List Bytes) (content : Bytes),
    sent = .headers ⟨payload.length, receipt.versionId, receipt.versionNumber, sha256 payload⟩ :: chunks.map .chunk ∧
      (content = payload ∨ Collision sha256 content payload) ∧ chunks.flatten <+: content ∧
      (r = .ok () → chunks.flatten = content)

section Reading

variable {ρ : Type} {answers : ∀ {β : Type}, ReadCall β → ρ → β → ρ → Prop} {sha256 : Bytes → Checksum}
  {cfg : String → EngineConfig} {disk : ρ → String → Option Dir} {payload : Bytes} {quorum : ℕ} {obj : Object}
  {v : Version} {receipt : UploadReceipt} {db db' : Db} {w : ρ}

/-- As long as the receipt is true, a download of that name delivers the payload. -/
lemma Uploaded.received {Vouched : Version → String → Prop} (h : Uploaded sha256 payload Vouched quorum obj v receipt db)
    (hlater : StillCurrent receipt db db') (hvouched : ∀ n, Vouched v n → Intact sha256 v (disk w n))
    (hnodes : Streaming cfg (versionKey v) disk answers) {name : Arg String}
    (hname : normalizeObjectName name = .ok receipt.name) {r : Except Failure Unit} {sent : List Sent}
    (hdown : Downloaded answers (KeptSince disk w) name db' r sent) : Received sha256 payload receipt r sent := by
  rcases hdown with hnothing | ⟨obj', v', targets, chunks, htargets, hsent, hserved⟩
  · exact Or.inl hnothing
  · obtain ⟨n, i, hn, hobj, hi, hv', rfl⟩ := readTargets_ok htargets
    cases hname.symm.trans hn
    obtain rfl : obj = obj' := Option.some.inj (h.found.symm.trans (hlater.object.symm.trans hobj))
    cases h.current.symm.trans hi
    have hversion : db'.version? v.versionId = db.version? v.versionId := h.named.2.1 ▸ hlater.version
    obtain rfl : v = v' := Option.some.inj (h.version.symm.trans (hversion.symm.trans hv'))
    have hkey : versionKey v = objectKey obj v := by rw [versionKey, objectKey, h.owner]
    have hintact : ∀ m ∈ (healthyTargets db' v.versionId).map StorageNode.nodeId, Intact sha256 v (disk w m) := by
      intro m hm
      obtain ⟨node, hnode, rfl⟩ := List.mem_map.mp hm
      obtain ⟨-, -, row, hrow, hver, hplace, hstatus⟩ := mem_healthyTargets hnode
      obtain ⟨old, hold, hover, hoplace, hostatus⟩ := hlater.replicas row hrow (hver.trans h.named.2.1.symm) hstatus
      rw [← hplace, ← hoplace]
      exact hvouched _ (h.vouched old hold (hover.trans hver) hostatus)
    have hheaders : headersOf v = ⟨payload.length, receipt.versionId, receipt.versionNumber, sha256 payload⟩ := by
      rw [headersOf, h.content.1, h.content.2, h.named.2.1, h.named.2.2]
    rw [← hkey] at hserved
    right
    rcases hserved.content hnodes rfl hintact with ⟨rfl, e, rfl⟩ | ⟨content, hlength, hsum, hpart, hwhole⟩
    · exact ⟨[], payload, hheaders ▸ hsent, Or.inl rfl, List.nil_prefix, fun hr => by cases hr⟩
    · refine ⟨chunks, content, hheaders ▸ hsent, ?_, hpart, hwhole⟩
      by_cases hsame : content = payload
      · exact Or.inl hsame
      · exact Or.inr ⟨hsame, hlength.trans h.content.1, hsum.trans h.content.2⟩

/-- The same from what an upload has promised, when the directories that it left are still there. -/
lemma Promised.received {name name' : Arg String} {pieces : List Bytes} {shelf : String → Option Dir}
    (hp : Promised sha256 name (pieces.map .bytes) quorum shelf receipt db)
    (hkept : ∀ n d, shelf n = some d → disk w n = some d) (hlater : StillCurrent receipt db db')
    (hnodes : Streaming cfg receipt.key disk answers) (hname : normalizeObjectName name' = normalizeObjectName name)
    {r : Except Failure Unit} {sent : List Sent} (hdown : Downloaded answers (KeptSince disk w) name' db' r sent) :
    Received sha256 pieces.flatten receipt r sent := by
  obtain ⟨pieces', hbody, hn, obj, v, hup⟩ := hp
  obtain rfl : pieces = pieces' := List.map_injective_iff.mpr (fun _ _ => BodyItem.bytes.inj) hbody
  have hkey : versionKey v = receipt.key := by
    rw [versionKey, UploadReceipt.key, hup.owner, hup.named.1, hup.named.2.1]
  have hintact : ∀ n, Intact sha256 v (shelf n) → Intact sha256 v (disk w n) := by
    intro n hn
    obtain ⟨d, hd⟩ := dir_of_intact hn
    rw [hkept n d hd, ← hd]
    exact hn
  rw [← hkey] at hnodes
  exact hup.received hlater hintact hnodes (hname.trans hn) hdown

end Reading

/-- What was uploaded is what is downloaded. Between an upload that returned and the download the nodes may come, go
and restart, as long as the directories of the version stay as they are: then a client receives the headers of the
upload and a prefix of its payload, and the whole payload if the body ends without an error. -/
theorem upload_then_download {ρ ρ' : Type} (serve : ∀ {β : Type}, Replication.Call β → ρ → β × ρ)
    (serve' : ∀ {β : Type}, ReadCall β → ρ' → β × ρ') (disk : ρ → String → Option Dir) (disk' : ρ' → String → Option Dir)
    (sha256 : Bytes → Checksum) (cfg : String → EngineConfig) (maxUploadBytes : Arg ℤ) (path : String) (temp : TempFiles)
    (name name' : Arg String) (pieces : List Bytes) (expected : Arg (Option ℤ)) (policy : Option ReplicationPolicy)
    (db db' : Db) (w : ρ) (w' : ρ') (h : Referenced db) (receipt : UploadReceipt) (q : Point Db ρ Empty)
    (hnodes : Truthful sha256 receipt.key disk (ServedBy serve))
    (hput : exec serve (putObject sha256 maxUploadBytes path temp name (pieces.map .bytes) expected policy)
      (Point.start db w) = (.ok receipt, q))
    (hkept : ∀ n d, disk q.world n = some d → disk' w' n = some d)
    (hlater : StillCurrent receipt q.session.durable db')
    (hnodes' : Streaming cfg receipt.key disk' (ReadBy serve'))
    (hname : normalizeObjectName name' = normalizeObjectName name) :
    Received sha256 pieces.flatten receipt (exec serve' (getObject name') (Point.start db' w')).1
      (exec serve' (getObject name') (Point.start db' w')).2.notes := by
  have hserve : ∀ {β : Type} (c : Replication.Call β) (w : ρ), ServedBy serve c w (serve c w).1 (serve c w).2 :=
    fun _ _ => rfl
  have hserve' : ∀ {β : Type} (c : ReadCall β) (w : ρ'), ReadBy serve' c w (serve' c w).1 (serve' c w).2 :=
    fun _ _ => rfl
  have hend := wp_sound hserve
    (wp_putObject_promised hnodes maxUploadBytes path temp name (pieces.map .bytes) expected policy w h)
  rw [hput] at hend
  have hdown := wp_sound hserve' (wp_getObject (hnodes'.stays w') name' db' w' fun _ _ hd => hd)
  exact (hend rfl).received hkept hlater hnodes' hname hdown

lemma stillCurrent_refl (receipt : UploadReceipt) (db : Db) : StillCurrent receipt db db :=
  ⟨rfl, rfl, fun r hr _ hs => ⟨r, hr, rfl, rfl, hs⟩⟩

/-- The node streams its two bytes one by one. -/
def deliverBytes : ∀ {β : Type}, ReadCall β → Unit → β × Unit
  | _, .connect _, w => (.ok (), w)
  | _, .head _ _, w => (.ok 2, w)
  | _, .stream _ _, w => (⟨[[1], [2]], none⟩, w)
  | _, .close _, w => (.ok (), w)

lemma deliverBytes_streaming :
    Streaming (fun _ => smallEngine) soleKey (fun (_ : Unit) _ => some soleDir) (ReadBy deliverBytes) where
  kept _ _ _ _ _ _ _ hd := hd
  streamed n w d w' hd content hread := by
    have hstored : readBytes smallEngine soleKey (some soleDir) = .ok [1, 2] := by decide +kernel
    cases hd
    cases hstored.symm.trans hread
    exact ⟨List.prefix_refl _, fun _ => rfl⟩

theorem two_bytes_there_and_back :
    ∃ q, exec (serveAttempts fun _ => holding)
        (putObject plainHash (.value 9) "/tmp/u" [] (.value "report") ([[1, 2]].map .bytes) (.value none) (some solePolicy))
        (Point.start oneNodeDb fun _ => 0) = (.ok soleReceipt, q) ∧
      Received plainHash [1, 2] soleReceipt
        (exec deliverBytes (getObject (.value " report ")) (Point.start q.session.durable ())).1
        (exec deliverBytes (getObject (.value " report ")) (Point.start q.session.durable ())).2.notes := by
  have hreturns : (exec (serveAttempts fun _ => holding)
      (putObject plainHash (.value 9) "/tmp/u" [] (.value "report") ([[1, 2]].map .bytes) (.value none) (some solePolicy))
      (Point.start oneNodeDb fun _ => 0)).1 = .ok soleReceipt := by decide +kernel
  cases hrun : exec (serveAttempts fun _ => holding)
      (putObject plainHash (.value 9) "/tmp/u" [] (.value "report") ([[1, 2]].map .bytes) (.value none) (some solePolicy))
      (Point.start oneNodeDb fun _ => 0) with
  | mk r q =>
    rw [hrun] at hreturns
    obtain rfl : r = .ok soleReceipt := hreturns
    have hname : normalizeObjectName (.value " report ") = normalizeObjectName (.value "report") := by decide +kernel
    exact ⟨q, rfl, upload_then_download (serveAttempts fun _ => holding) deliverBytes (fun _ _ => some soleDir)
      (fun _ _ => some soleDir) plainHash (fun _ => smallEngine) (.value 9) "/tmp/u" [] (.value "report")
      (.value " report ") [[1, 2]] (.value none) (some solePolicy) oneNodeDb q.session.durable (fun _ => 0) ()
      oneNodeDb_referenced soleReceipt q holding_truthful hrun (fun _ _ hd => hd) (stillCurrent_refl _ _)
      deliverBytes_streaming hname⟩

end Vault.Gateway
