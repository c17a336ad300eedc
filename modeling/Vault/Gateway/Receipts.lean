import Vault.Gateway.UploadAtomicity
import Vault.Storage.Soundness

/-! What the receipt of an upload promises. The version that it names is committed, is the current one of its object
and tells of the bytes of the request; its `HEALTHY` replicas are those of the nodes that the receipt lists, a write
quorum of them, and each node has vouched for its own. -/

namespace Vault.Gateway

open Vault.Common Vault.Metadata Vault.Storage Vault.Lib Vault.Lib.Script Vault.Lib.Transaction Vault.Replication

/-- The receipt of an upload of `payload` is true of the tables `view`; `Vouched` is what a node has confirmed. -/
structure Uploaded (sha256 : Bytes → Checksum) (payload : Bytes) (Vouched : Version → String → Prop) (quorum : ℕ)
    (obj : Object) (w : Version) (receipt : UploadReceipt) (view : Db) : Prop where
  found : findByName view receipt.name = some obj
  active : obj.state = .active
  current : obj.currentVersionId = some w.versionId
  version : view.version? w.versionId = some w
  committed : w.state = .committed
  owner : w.objectId = obj.objectId
  content : w.sizeBytes = payload.length ∧ w.checksum = sha256 payload
  named : receipt.objectId = obj.objectId ∧ receipt.versionId = w.versionId ∧ receipt.versionNumber = w.versionNumber
  measured : receipt.sizeBytes = w.sizeBytes ∧ receipt.checksum = w.checksum
  vouched : ∀ r ∈ view.replicas, r.versionId = w.versionId → r.status = .healthy → Vouched w r.nodeId
  placed : ∀ n, n ∈ receipt.replicas ↔ ∃ r ∈ view.replicas, r.versionId = w.versionId ∧ r.nodeId = n ∧ r.status = .healthy
  enough : quorum ≤ receipt.replicas.length ∧ receipt.replicas.Nodup

section Checksums

lemma validateChecksum_toString (c : Checksum) : validateChecksum (.value (toString c)) = .ok c := by
  have hlist : (toString c).toList = c.digits.map (fun d => hexDigit d.val) := String.toList_ofList
  have hdigits : parseDigits (toString c).toList = some c.digits := by
    rw [hlist, parseDigits_hexDigits]
  have hlength : (toString c).toList.length = 64 := by
    rw [hlist, List.length_map, c.length_eq]
  unfold validateChecksum
  dsimp only
  rw [dif_pos hlength]
  split
  · next ds hd =>
    cases hdigits.symm.trans hd
    rfl
  · next hd => cases hdigits.symm.trans hd

/-- The version of an upload tells of the staged bytes. -/
lemma prepareVersion_content {obj : Object} {staged : StagedUpload} {expected : Arg (Option ℤ)} {d d' : Db} {v : Version}
    (h : (prepareVersion obj staged expected).run d = .ok (v, d')) :
    v.sizeBytes = staged.sizeBytes ∧ v.checksum = staged.checksum := by
  simp [prepareVersion, createVersion, validateChecksum_toString] at h
  obtain ⟨size, hsize, expected', -, i, -, o, -, -, current, -, -, rfl, -⟩ := h
  cases hsize
  exact ⟨rfl, rfl⟩

end Checksums

section Tables

variable {db view₀ base : Db} {name : String} {located : Object × Bool} {v : Version}

lemma findByName_name {o : Object} (h : findByName db name = some o) : o.name = name := by
  have hname := List.find?_some h
  simpa using hname

lemma findByName_amend {i : UUID} {f : Object → Object} (hf : ∀ o, (f o).name = o.name) (o : Object)
    (h : findByName db name = some o) (hid : o.objectId = i) : findByName (db.amendObject i f) name = some (f o) := by
  unfold findByName Db.amendObject Table.amend at *
  have hname : ((fun o : Object => decide (o.name = name)) ∘ fun r => if r.objectId = i then f r else r) =
      fun o => decide (o.name = name) := by
    funext r
    simp only [Function.comp_apply]
    split_ifs
    · rw [hf]
    · rfl
  rw [List.find?_map, hname, h, Option.map_some, if_pos hid]

/-- The object that an upload works on is found by its name and by its identifier. -/
lemma Located.found (h : Referenced db) (hl : Located db name located view₀) :
    findByName view₀ name = some located.1 ∧ (view₀.objects.map Object.objectId).Nodup := by
  rcases hl with ⟨-, hfound, rfl⟩ | ⟨-, hnone, ho, rfl⟩
  · exact ⟨hfound, h.versions.objectIds⟩
  · constructor
    · have hname : (located.1).name = name := by rw [ho]
      simp only [findByName, insertObject] at hnone ⊢
      rw [List.find?_append, hnone, List.find?_singleton]
      simp [hname]
    · apply Table.nodup_append_fresh h.versions.objectIds
      intro p hp
      rw [ho]
      exact (h.fresh le_rfl (Nat.le_succ db.nextId)).objects p hp

end Tables

section Receipts

variable {sha256 : Bytes → Checksum} {policy : ReplicationPolicy} {name : String} {staged : StagedUpload}
  {expected : Arg (Option ℤ)} {Told : Version → String → Except Failure ReplicaWriteResult → Prop} {db view : Db}
  {receipt : UploadReceipt} {payload : Bytes} {Vouched : Version → String → Prop}

lemma asked_default {factor quorum : ℕ} (h : Asked policy (.value none) (.value none) factor quorum) :
    factor = policy.factor ∧ quorum = policy.writeQuorum := by
  obtain ⟨hfactor, hquorum, -⟩ := h
  cases hfactor
  cases hquorum
  exact ⟨rfl, rfl⟩

lemma Stored.name_eq (h : Referenced db) (hstored : Stored policy name staged expected Told db receipt view) :
    receipt.name = name := by
  obtain ⟨located, view₀, v, base, result, w, hl, -, -, rfl, -⟩ := hstored.made
  exact findByName_name (hl.found h).1

lemma Uploaded.mono {Vouched' : Version → String → Prop} {quorum : ℕ} {obj : Object} {w : Version}
    (h : Uploaded sha256 payload Vouched quorum obj w receipt view) (hv : ∀ n, Vouched w n → Vouched' w n) :
    Uploaded sha256 payload Vouched' quorum obj w receipt view :=
  { h with vouched := fun r hr hver hs => hv r.nodeId (h.vouched r hr hver hs) }

/-- Each healthy replica of a committed version belongs to a node that its writer has verified. -/
lemma Stored.uploaded (Vouched : Version → String → Prop) (h : Referenced db)
    (hstaged : staged.sizeBytes = payload.length ∧ staged.checksum = sha256 payload)
    (hvouched : ∀ v n x, Told v n x → isVerified x = true → Vouched v n)
    (hcommit : ∀ v now n, Vouched v n → Vouched (v.commit now) n)
    (hstored : Stored policy name staged expected Told db receipt view) :
    ∃ obj w, Uploaded sha256 payload Vouched policy.writeQuorum obj w receipt view := by
  obtain ⟨located, view₀, v, base, result, w, hl, hrun, hprep, rfl, hw, -, hreplicated⟩ := hstored.made
  obtain ⟨hsize, hchecksum⟩ := prepareVersion_content hrun
  obtain ⟨obj', hi, hobj', hactive, hid, howner, hpreparing, -, hbase⟩ := createVersion_ok hrun
  obtain ⟨hfound, hids⟩ := hl.found h
  obtain ⟨hversions, hrows, hnodes, hnext, -⟩ := hl.ready h
  have hname := findByName_name hfound
  have hlocated : obj' = located.1 := by
    have hmem : located.1 ∈ view₀.objects := List.mem_of_find?_eq_some hfound
    exact Table.eq_of_key hids (Table.lookup_mem hobj') hmem (Arg.value.inj hi).symm
  subst hlocated
  rcases hreplicated with ⟨⟨e, he⟩, -⟩ | ⟨factor, quorum, hasked, hlength, hended⟩
  · cases he
  obtain ⟨rfl, rfl⟩ := asked_default hasked
  cases hended with
  | @committed pairs rows hs he hq now w' view hc =>
    obtain ⟨-, v', o, -, -, hi', hv', ho, -, -, -, -, -, rfl⟩ := commitVersion_ok hc
    have hvid : v.versionId = v'.versionId := Arg.value.inj hi'
    obtain rfl : v = v' := Option.some.inj (hprep.version.symm.trans (hvid ▸ hv'))
    have hcommitted : ((withRows base rows).amendVersion v.versionId (Version.commit now)).version? v.versionId =
        some (v.commit now) := Table.lookup_amend_self (f := Version.commit now) (fun _ => rfl) hprep.version
    obtain rfl : v.commit now = w := Option.some.inj (hcommitted.symm.trans hw)
    have hno : ∀ r ∈ base.replicas, r.versionId ≠ v.versionId := by
      rw [hbase, hid]
      exact fun r hr => (h.fresh le_rfl hnext).replicas r (hrows ▸ hr)
    have hfaithful : ∀ pair ∈ pairs, Faithful v pair.1.nodeId pair.2 := fun pair hp => (hs.told pair hp).1
    have hhealthy := healthyIds_eq hfaithful
    have hverified : ∀ pair r, SettledAs v pair r → (r.status = .healthy ↔ isVerified pair.2 = true) := by
      intro pair r hr
      rw [hr.status]
      cases isVerified pair.2 <;> simp
    refine ⟨located.1.serve v.versionId, v.commit now, ?_, rfl, rfl, hw, rfl, howner, ⟨hsize.trans hstaged.1, hchecksum.trans hstaged.2⟩,
      ⟨rfl, rfl, rfl⟩, ⟨rfl, rfl⟩, ?_, ?_, ?_⟩
    · rw [← hname] at hfound
      rw [hbase]
      exact findByName_amend (f := Object.serve v.versionId) (fun _ => rfl) located.1 hfound howner.symm
    · intro r hr hver hstatus
      obtain ⟨pair, hp, hsettled⟩ := hs.row (mem_withRows hno hr hver)
      apply hcommit
      rw [hsettled.identity.2.2]
      exact hvouched v _ _ (hs.told pair hp).2 ((hverified pair r hsettled).mp hstatus)
    · intro n
      change n ∈ healthyIds pairs ↔ _
      rw [hhealthy]
      constructor
      · intro hn
        obtain ⟨pair, hp, rfl⟩ := List.mem_map.mp hn
        obtain ⟨hmem, hv⟩ := List.mem_filter.mp hp
        obtain ⟨r, hr, hsettled⟩ := hs.pair hmem
        exact ⟨r, List.mem_append_right _ hr, hs.versionId hr, hsettled.identity.2.2, (hverified pair r hsettled).mpr hv⟩
      · rintro ⟨r, hr, hver, rfl, hstatus⟩
        obtain ⟨pair, hp, hsettled⟩ := hs.row (mem_withRows hno hr hver)
        rw [hsettled.identity.2.2]
        exact List.mem_map_of_mem (List.mem_filter.mpr ⟨hp, (hverified pair r hsettled).mp hstatus⟩)
    · refine ⟨hq, ?_⟩
      change (healthyIds pairs).Nodup
      have hdistinct : (pairs.map fun pair => pair.1.nodeId).Nodup := by
        rw [hs.nodeIds]
        apply Placement.nodup_candidates
        rw [hbase]
        exact hnodes ▸ h.nodes.distinct
      rw [hhealthy]
      exact hdistinct.sublist (List.filter_sublist.map _)

end Receipts

section Nodes

variable {ρ : Type} {answers : ∀ {β : Type}, Replication.Call β → ρ → β → ρ → Prop} {sha256 : Bytes → Checksum} {k : Key}
  {disk : ρ → String → Option Dir}

/-- What is relied on at the nodes, of which `disk` shows the directories of one version: a directory that is there
stays as it is, and a verification that answers tells what is there. A `PUT` may fail, lose bytes or store others. -/
structure Truthful (sha256 : Bytes → Checksum) (k : Key) (disk : ρ → String → Option Dir)
    (answers : ∀ {β : Type}, Replication.Call β → ρ → β → ρ → Prop) : Prop where
  kept : ∀ {β : Type} (c : Replication.Call β) w b w', answers c w b w' → ∀ n d, disk w n = some d → disk w' n = some d
  verified : ∀ n w b w', answers (.verify n k) w (.ok b) w' → measureRemote sha256 k (disk w' n) = .ok b

lemma dir_of_intact {v : Version} {d : Option Dir} (h : Intact sha256 v d) : ∃ dir, d = some dir := by
  obtain ⟨r, hr, hvalid, -⟩ := h
  obtain ⟨-, dir, -, hd, -⟩ := verify_valid hr hvalid
  exact ⟨dir, hd⟩

lemma Truthful.stable (h : Truthful sha256 k disk answers) {β : Type} {c : Replication.Call β} {w w' : ρ} {b : β}
    (hb : answers c w b w') {v : Version} {n : String} (hi : Intact sha256 v (disk w n)) : Intact sha256 v (disk w' n) := by
  obtain ⟨d, hd⟩ := dir_of_intact hi
  rw [h.kept c w b w' hb n d hd, ← hd]
  exact hi

lemma tells_intact (h : Truthful sha256 k disk answers) (v : Version) (payload : Payload) :
    Tells answers v payload fun n x w => isVerified x = true → versionKey v = k → Intact sha256 v (disk w n) where
  written node p := by
    refine wp_writeOne (R := fun x w => isVerified x = true → versionKey v = k → Intact sha256 v (disk w node.nodeId)) ?_ ?_
    · intro e w _ hx
      cases hx
    · refine fun w₁ _ a w₂ _ => ⟨fun e _ c w _ hx => ?_, fun _ m w₃ hm c w hc hx hk => ?_⟩
      · cases c with
        | error e' => cases hx
        | ok _ =>
          simp only [Except.bind, reported] at hx
          split_ifs at hx <;> cases hx
      · cases c with
        | error e' => cases hx
        | ok _ =>
          cases hmeasured : measuredFor v m with
          | error e =>
            simp only [Except.bind, hmeasured, reported] at hx
            split_ifs at hx <;> cases hx
          | ok b =>
            obtain ⟨rfl, hmatches⟩ := measuredFor_ok.mp hmeasured
            rw [hk] at hm
            have hintact : Intact sha256 v (disk w₃ node.nodeId) := by
              rw [intact_iff, hk]
              exact ⟨b, h.verified node.nodeId w₂ b w₃ hm, hmatches⟩
            exact h.stable hc hintact
  stable c w b w' hb n x hx hv hk := h.stable hb (hx hv hk)

end Nodes

lemma stageUpload_ok {sha256 : Bytes → Checksum} {path : String} {maxBytes : Arg ℤ} {body : List BodyItem}
    {temp temp' : TempFiles} {staged : StagedUpload}
    (h : stageUpload sha256 path maxBytes body temp = (.ok staged, temp')) :
    ∃ pieces : List Bytes, body = pieces.map .bytes ∧ staged.sizeBytes = pieces.flatten.length ∧
      staged.checksum = sha256 pieces.flatten := by
  unfold stageUpload at h
  cases hlimit : positiveMaxBytes maxBytes with
  | error e => simp [hlimit] at h
  | ok limit =>
    have hempty : ({} : Spool).Holds limit [] := ⟨rfl, rfl, rfl, Nat.zero_le _⟩
    rcases hempty.acceptAll body with ⟨pieces, hbody, s, hs, hholds⟩ | ⟨-, -, -, e, -, -, he⟩
    · simp only [hlimit, hs, Prod.mk.injEq, Except.ok.injEq] at h
      obtain ⟨rfl, -⟩ := h
      exact ⟨pieces, hbody, hholds.size, congrArg sha256 hholds.digest⟩
    · simp [hlimit, he] at h

/-- The key under which the nodes keep the uploaded version. -/
def UploadReceipt.key (receipt : UploadReceipt) : Key := ⟨toString receipt.objectId, toString receipt.versionId⟩

/-- What an upload has reached when it returns. -/
def Promised (sha256 : Bytes → Checksum) (name : Arg String) (body : List BodyItem) (quorum : ℕ)
    (disk : String → Option Dir) (receipt : UploadReceipt) (durable : Db) : Prop :=
  ∃ pieces : List Bytes, body = pieces.map .bytes ∧ normalizeObjectName name = .ok receipt.name ∧ ∃ obj version,
    Uploaded sha256 pieces.flatten (fun v n => Intact sha256 v (disk n)) quorum obj version receipt durable

lemma wp_putObject_promised {ρ : Type} {answers : ∀ {β : Type}, Replication.Call β → ρ → β → ρ → Prop}
    {sha256 : Bytes → Checksum} {k : Key} {disk : ρ → String → Option Dir} {db : Db} (hnodes : Truthful sha256 k disk answers)
    (maxUploadBytes : Arg ℤ) (path : String) (temp : TempFiles) (name : Arg String) (body : List BodyItem)
    (expected : Arg (Option ℤ)) (policy : Option ReplicationPolicy) (w : ρ) (h : Referenced db) :
    wp answers (Post.seq (fun receipt q => receipt.key = k →
        Promised sha256 name body (policy.getD defaultPolicy).writeQuorum (disk q.world) receipt q.session.durable)
      fun _ _ => True)
      (putObject sha256 maxUploadBytes path temp name body expected policy) (Point.start db w) := by
  refine wp_mono ?_ (wp_putObject sha256 maxUploadBytes path temp name body expected policy w h (tells_intact hnodes))
  intro r q hq
  cases r with
  | error e => trivial
  | ok receipt =>
    rintro rfl
    obtain ⟨hcommitted, n, staged, temp', hname, hstaged, hstored⟩ := hq
    obtain ⟨pieces, hbody, hcontent⟩ := stageUpload_ok hstaged
    obtain ⟨obj, version, hup⟩ := hstored.uploaded
      (fun v n => versionKey v = receipt.key → Intact sha256 v (disk q.world n)) h hcontent
      (fun _ _ _ hx => hx) fun _ _ _ hv => hv
    have hkey : versionKey version = receipt.key := by
      rw [versionKey, UploadReceipt.key, hup.owner, hup.named.1, hup.named.2.1]
    refine ⟨pieces, hbody, ?_, obj, version, ?_⟩
    · rw [hname, hstored.name_eq h]
    · rw [hcommitted.session]
      exact hup.mono fun n hv => hv hkey

/-- A receipt is true of the durable tables, and every node that it lists holds the bytes of the request, as far as a
verification can tell. -/
theorem receipts_are_honest {ρ : Type} (serve : ∀ {β : Type}, Replication.Call β → ρ → β × ρ)
    (disk : ρ → String → Option Dir) (sha256 : Bytes → Checksum) (maxUploadBytes : Arg ℤ) (path : String)
    (temp : TempFiles) (name : Arg String) (body : List BodyItem) (expected : Arg (Option ℤ))
    (policy : Option ReplicationPolicy) (db : Db) (w : ρ) (h : Referenced db) (receipt : UploadReceipt)
    (q : Point Db ρ Empty) (hnodes : Truthful sha256 receipt.key disk (ServedBy serve))
    (hrun : exec serve (putObject sha256 maxUploadBytes path temp name body expected policy) (Point.start db w) =
      (.ok receipt, q)) :
    Promised sha256 name body (policy.getD defaultPolicy).writeQuorum (disk q.world) receipt q.session.durable := by
  have hserve : ∀ {β : Type} (c : Replication.Call β) (w : ρ), ServedBy serve c w (serve c w).1 (serve c w).2 :=
    fun _ _ => rfl
  have hend := wp_sound hserve (wp_putObject_promised hnodes maxUploadBytes path temp name body expected policy w h)
  rw [hrun] at hend
  exact hend rfl

def oneNodeDb : Db := { nodes := [{ nodeId := "a", address := "http://a", status := .healthy, capacityBytes := 100 }] }

lemma oneNodeDb_referenced : Referenced oneNodeDb where
  versions := VersionInv.empty.frame rfl rfl le_rfl
  replicas := by decide
  wellFormed := ⟨by decide, by decide, by decide, by decide⟩
  nodes := ⟨by decide, by decide⟩

def solePolicy : ReplicationPolicy := ⟨1, 1, 1, one_vote_pos, one_vote_pos, one_vote_pos, one_vote_pos⟩

def soleKey : Key := ⟨toString (⟨0⟩ : UUID), toString (⟨1⟩ : UUID)⟩

def soleDir : Dir := objectDir plainHash smallEngine soleKey [[1, 2]]

/-- The node holds two bytes, whatever it is sent. -/
def holding : Replication.Attempt := { verify := .ok ⟨plainHash [1, 2], 2, true⟩ }

def soleReceipt : UploadReceipt :=
  { objectId := ⟨0⟩, name := "report", versionId := ⟨1⟩, versionNumber := 1, sizeBytes := 2, checksum := plainHash [1, 2],
    replicas := ["a"], replicationFactor := 1, writeQuorum := 1 }

lemma holding_truthful : Truthful plainHash soleKey (fun (_ : Clock) _ => some soleDir)
    (ServedBy (serveAttempts fun _ => holding)) where
  kept _ _ _ _ _ _ _ hd := hd
  verified n w b w' hb := by
    have hmeasured : measureRemote plainHash soleKey (some soleDir) = .ok ⟨plainHash [1, 2], 2, true⟩ := by decide +kernel
    cases hb
    exact hmeasured

theorem two_bytes_received :
    ∃ q, exec (serveAttempts fun _ => holding)
        (putObject plainHash (.value 9) "/tmp/u" [] (.value "report") [.bytes [1, 2]] (.value none) (some solePolicy))
        (Point.start oneNodeDb fun _ => 0) = (.ok soleReceipt, q) ∧
      Promised plainHash (.value "report") [.bytes [1, 2]] 1 (fun _ => some soleDir) soleReceipt q.session.durable := by
  have hreturns : (exec (serveAttempts fun _ => holding)
      (putObject plainHash (.value 9) "/tmp/u" [] (.value "report") [.bytes [1, 2]] (.value none) (some solePolicy))
      (Point.start oneNodeDb fun _ => 0)).1 = .ok soleReceipt := by decide +kernel
  cases hrun : exec (serveAttempts fun _ => holding)
      (putObject plainHash (.value 9) "/tmp/u" [] (.value "report") [.bytes [1, 2]] (.value none) (some solePolicy))
      (Point.start oneNodeDb fun _ => 0) with
  | mk r q =>
    rw [hrun] at hreturns
    obtain rfl : r = .ok soleReceipt := hreturns
    exact ⟨q, rfl, receipts_are_honest (serveAttempts fun _ => holding) (fun _ _ => some soleDir) plainHash
      (.value 9) "/tmp/u" [] (.value "report") [.bytes [1, 2]] (.value none) (some solePolicy) oneNodeDb (fun _ => 0)
      oneNodeDb_referenced soleReceipt q holding_truthful hrun⟩

end Vault.Gateway
