import Vault.Replication.Rows

/-! The writers of a replication. They leave the session alone, and each reports the outcome of its node; what
is learnt from them beyond that is a parameter. -/

namespace Vault.Replication

open Vault.Common Vault.Metadata Vault.Storage Vault.Lib Vault.Lib.Script Vault.Lib.Transaction

variable {ρ : Type} {answers : ∀ {β : Type}, Call β → ρ → β → ρ → Prop} {v : Version} {payload : Payload}
  {nodes : List StorageNode} {Told : String → Except Failure ReplicaWriteResult → ρ → Prop}

section Writers

lemma wp_call {α : Type} {R : Post Db Failure Empty ρ α} {q : Call (Except Failure α)} {p : Point Db ρ Empty} :
    wp answers R (call q) p ↔ ∀ r w, answers q p.world r w → R r (p.turn w) := by
  rw [call, wp_bind, wp_request]
  simp only [Post.seq_ok, wp_lift]

lemma keeps_call {α : Type} {I : Point Db ρ Empty → Prop}
    (hI : ∀ {β : Type} (q : Call β) (p : Point Db ρ Empty) b w, answers q p.world b w → I p → I (p.turn w))
    (q : Call (Except Failure α)) : Keeps answers I (call q) :=
  keeps_bind (keeps_request_of (hI q)) fun r => keeps_done r

lemma keeps_writeOne {I : Point Db ρ Empty → Prop}
    (hI : ∀ {β : Type} (q : Call β) (p : Point Db ρ Empty) b w, answers q p.world b w → I p → I (p.turn w))
    (v : Version) (payload : Payload) (node : StorageNode) : Keeps answers I (writeOne v payload node) := by
  have hsend : Keeps answers I (sendAndVerify v payload node.nodeId) := by
    refine keeps_bind (keeps_request_of (hI _)) fun answer => ?_
    refine keeps_bind (keeps_done _) fun _ => ?_
    refine keeps_bind (keeps_call hI _) fun measured => ?_
    exact keeps_bind (keeps_done _) fun _ => keeps_pure _
  refine keeps_bind (keeps_call hI _) fun _ => ?_
  refine keeps_bind (keeps_attempt (keeps_handle hsend fun e => ?_)) fun r => ?_
  · exact keeps_ite (fun _ => keeps_pure _) fun _ => keeps_raise _
  · exact keeps_bind (keeps_call hI _) fun _ => keeps_done r

lemma checkMeasurement_ok {b : Blob} : checkMeasurement v b = .ok () ↔ b.Matches v := by
  unfold checkMeasurement Blob.Matches
  split_ifs with hvalid hc hs
  · simp [hvalid]
  · simp [hc]
  · simp [hs]
  · simp only [ne_eq, not_not] at hc hs
    simp [hc, hs, Bool.eq_false_iff.not_left.mp hvalid]

/-- What a writer makes of the verification of its replica. -/
def reported (nodeId : String) : Except Failure Blob → Except Failure ReplicaWriteResult
  | .ok b => .ok (verifiedWrite nodeId b)
  | .error e => if Expected e then .ok (failedWrite nodeId e) else .error e

def measuredFor (v : Version) (m : Except Failure Blob) : Except Failure Blob :=
  m.bind fun b => (checkMeasurement v b).map fun _ => b

lemma measuredFor_ok {m : Except Failure Blob} {b : Blob} :
    measuredFor v m = .ok b ↔ m = .ok b ∧ b.Matches v := by
  cases m with
  | error e => simp [measuredFor, Except.bind]
  | ok b' =>
    rw [← checkMeasurement_ok]
    cases hc : checkMeasurement v b' with
    | error e =>
      simp only [measuredFor, Except.bind, hc, Except.map, reduceCtorEq, Except.ok.injEq, false_iff, not_and]
      rintro rfl
      simp [hc]
    | ok _ =>
      simp only [measuredFor, Except.bind, hc, Except.map, Except.ok.injEq, iff_self_and]
      rintro rfl
      exact hc

/-- A writer through its calls: it connects, sends, verifies what was sent or was there already, and closes. -/
lemma wp_writeOne {R : Except Failure ReplicaWriteResult → ρ → Prop} {node : StorageNode} {p : Point Db ρ Empty}
    (hrefused : ∀ e w, answers (.connect node.nodeId) p.world (.error e) w → R (.error e) w)
    (hsent : ∀ w₁, answers (.connect node.nodeId) p.world (.ok ()) w₁ →
      ∀ a w₂, answers (.put node.nodeId (versionKey v) payload) w₁ a w₂ →
        (∀ e, putResult a = .error e → ∀ c w, answers (.close node.nodeId) w₂ c w →
          R (c.bind fun _ => reported node.nodeId (.error e)) w) ∧
        (putResult a = .ok () → ∀ m w₃, answers (.verify node.nodeId (versionKey v)) w₂ m w₃ →
          ∀ c w, answers (.close node.nodeId) w₃ c w →
            R (c.bind fun _ => reported node.nodeId (measuredFor v m)) w)) :
    wp answers (fun r q => R r q.world) (writeOne v payload node) p := by
  have hclose : ∀ (x : Except Failure ReplicaWriteResult) (q : Point Db ρ Empty),
      (∀ c w, answers (.close node.nodeId) q.world c w → R (c.bind fun _ => x) w) →
      wp answers (fun r q => R r q.world) (do call (.close node.nodeId); lift x) q := by
    intro x q hx
    rw [wp_bind, wp_call]
    intro c w hc
    have hr := hx c w hc
    cases c with
    | error e => exact hr
    | ok _ => exact wp_lift.mpr hr
  have hhandle : ∀ (e : Failure) (q : Point Db ρ Empty),
      (∀ c w, answers (.close node.nodeId) q.world c w → R (c.bind fun _ => reported node.nodeId (.error e)) w) →
      wp answers (fun r q => wp answers (fun r q => R r q.world) (do call (.close node.nodeId); lift r) q)
        (if Expected e then pure (failedWrite node.nodeId e) else raise e : Upload ReplicaWriteResult) q := by
    intro e q hx
    simp only [reported] at hx
    split_ifs at hx ⊢ with he
    · exact wp_pure.mpr (hclose _ q hx)
    · exact wp_raise.mpr (hclose _ q hx)
  rw [writeOne, wp_bind, wp_call]
  intro opened w₁ hopened
  cases opened with
  | error e => exact hrefused e w₁ hopened
  | ok _ =>
    rw [Post.seq_ok, ensure, wp_bind, wp_attempt, wp_handle, sendAndVerify, wp_bind, wp_request]
    intro a w₂ ha
    obtain ⟨hput, hverify⟩ := hsent w₁ hopened a w₂ ha
    rw [Post.seq_ok, wp_bind, wp_lift]
    cases hr : putResult a with
    | error e => exact hhandle e _ (hput e hr)
    | ok _ =>
      rw [Post.seq_ok, wp_bind, wp_call]
      intro m w₃ hm
      have hend := hverify hr m w₃ hm
      cases m with
      | error e => exact hhandle e _ hend
      | ok b =>
        simp only [measuredFor, Except.bind] at hend
        rw [Post.seq_ok, wp_bind, wp_lift]
        cases hc : checkMeasurement v b with
        | error e =>
          rw [hc] at hend
          exact hhandle e _ hend
        | ok _ =>
          rw [hc] at hend
          rw [Post.seq_ok, wp_pure]
          exact hclose _ _ hend

lemma faithful_reported (v : Version) (n : String) (c : Except Failure Unit) (x : Except Failure Blob)
    (hx : ∀ b, x = .ok b → b.Matches v) : Faithful v n (c.bind fun _ => reported n x) := by
  intro result h
  cases c with
  | error e => cases h
  | ok _ =>
    cases x with
    | error e =>
      simp only [Except.bind, reported] at h
      split_ifs at h
      cases h
      exact ⟨rfl, fun hv => by cases hv⟩
    | ok b =>
      cases h
      obtain ⟨-, hc, hs⟩ := hx b rfl
      exact ⟨rfl, fun _ => ⟨congrArg some hc, congrArg some hs⟩⟩

/-- Whatever a node answers, its writer reports its own node and verifies nothing but the version. -/
lemma wp_writeOne_faithful (v : Version) (payload : Payload) (node : StorageNode) (p : Point Db ρ Empty) :
    wp answers (fun r _ => Faithful v node.nodeId r) (writeOne v payload node) p := by
  refine wp_writeOne (R := fun r _ => Faithful v node.nodeId r) (fun e w _ result h => by cases h) ?_
  refine fun _ _ a _ _ => ⟨fun e _ c _ _ => ?_, fun _ m _ _ c _ _ => ?_⟩
  · exact faithful_reported v node.nodeId c _ fun b hb => by cases hb
  · exact faithful_reported v node.nodeId c _ fun b hb => (measuredFor_ok.mp hb).2

end Writers

/-- What is learnt from the writers, and stays true whatever is asked afterwards. -/
structure Tells (answers : ∀ {β : Type}, Call β → ρ → β → ρ → Prop) (v : Version) (payload : Payload)
    (Told : String → Except Failure ReplicaWriteResult → ρ → Prop) : Prop where
  written : ∀ (node : StorageNode) (p : Point Db ρ Empty),
    wp answers (fun r q => Told node.nodeId r q.world) (writeOne v payload node) p
  stable : ∀ {β : Type} (q : Call β) w b w', answers q w b w' → ∀ n x, Told n x w → Told n x w'

section Gathering

/-- The session is left alone, and each outcome is that of its node. -/
def Gathered (v : Version) (Told : String → Except Failure ReplicaWriteResult → ρ → Prop) (s : Session Db)
    (nodes : List StorageNode) (pending : List (Except Failure ReplicaWriteResult)) (q : Point Db ρ Empty) : Prop :=
  q.session = s ∧ List.Forall₂ (fun node x => Faithful v node.nodeId x ∧ Told node.nodeId x q.world) nodes pending

lemma wp_gatherWrites (ht : Tells answers v payload Told) (p : Point Db ρ Empty) :
    wp answers (Post.seq (fun pending => Gathered v Told p.session nodes pending) fun _ _ => False)
      (gatherWrites v payload nodes) p := by
  let J : List (Except Failure ReplicaWriteResult) → List StorageNode → Point Db ρ Empty → Prop :=
    fun pending rest q => ∃ done, nodes = done ++ rest ∧ Gathered v Told p.session done pending q
  have hstep : ∀ pending node rest q, J pending (node :: rest) q → wp answers
      (Post.seq (fun x => J (pending ++ [x]) rest) fun _ _ => False) (writeOne v payload node).attempt q := by
    rintro pending node rest q ⟨done, hnodes, hsession, hall⟩
    have hkeep : Keeps answers (fun q' : Point Db ρ Empty => q'.session = p.session ∧
        List.Forall₂ (fun node x => Faithful v node.nodeId x ∧ Told node.nodeId x q'.world) done pending)
        (writeOne v payload node) := by
      refine keeps_writeOne ?_ v payload node
      rintro β c q' b w hb ⟨hs, hq'⟩
      exact ⟨hs, hq'.imp fun node x hx => ⟨hx.1, ht.stable c _ b w hb _ _ hx.2⟩⟩
    rw [wp_attempt]
    refine wp_mono ?_ (wp_and (hkeep q ⟨hsession, hall⟩) (wp_and (wp_writeOne_faithful v payload node q)
      (ht.written node q)))
    rintro x q' ⟨⟨hs, hq'⟩, hf, hx⟩
    refine ⟨done ++ [node], by simp [hnodes], hs, ?_⟩
    exact List.rel_append hq' (.cons ⟨hf, hx⟩ .nil)
  have hstart : J [] nodes p := ⟨[], rfl, rfl, .nil⟩
  refine wp_mono ?_ (wp_forEach_collect hstep hstart)
  intro r q hq
  cases r with
  | error e => exact hq
  | ok pending =>
    obtain ⟨done, hnodes, hall⟩ := hq
    rw [List.append_nil] at hnodes
    exact hnodes ▸ hall

end Gathering

end Vault.Replication
