import Vault.Gateway.Download
import Vault.Lib.Emission

/-! What a client of the gateway receives. The generator turns to the next node only while nothing has been sent, so
the chunks of one body all come from one stream of one node; a body that ends without an error is the whole of such
a stream. -/

namespace Vault.Gateway

open Vault.Common Vault.Metadata Vault.Storage Vault.Lib Vault.Lib.Script

variable {ρ : Type} {answers : ∀ {β : Type}, ReadCall β → ρ → β → ρ → Prop} {W : ρ → Prop} {key : Key}
  {sent : List Sent} {p : Point Db ρ Sent}

/-- The nodes may change their state at every call, but `W` stays true of it. -/
def Stays (answers : ∀ {β : Type}, ReadCall β → ρ → β → ρ → Prop) (W : ρ → Prop) : Prop :=
  ∀ {β : Type} (q : ReadCall β) w b w', answers q w b w' → W w → W w'

/-- The node `n` delivers `d` for the key, in a state of which `W` is true. -/
def Delivers (answers : ∀ {β : Type}, ReadCall β → ρ → β → ρ → Prop) (W : ρ → Prop) (key : Key) (n : String)
    (d : Delivery) : Prop :=
  ∃ w w', W w ∧ answers (.stream n key) w d w'

/-- The chunks of a body, and how it has ended. -/
def Served (answers : ∀ {β : Type}, ReadCall β → ρ → β → ρ → Prop) (W : ρ → Prop) (key : Key) (targets : List String)
    (r : Except Failure Unit) (chunks : List Bytes) : Prop :=
  (∃ n ∈ targets, ∃ d, Delivers answers W key n d ∧ d.chunks = chunks ∧ (r = .ok () → d.ending = none)) ∨
    chunks = [] ∧ ∃ e, r = .error e

/-- Where a download stands: `W` is true of the nodes, and this is what has been sent. -/
structure Sending (W : ρ → Prop) (sent : List Sent) (p : Point Db ρ Sent) : Prop where
  world : W p.world
  notes : p.notes = sent

lemma Sending.turn (hW : Stays answers W) (h : Sending W sent p) {β : Type} {q : ReadCall β} {b : β} {w : ρ}
    (hb : answers q p.world b w) : Sending W sent (p.turn w) where
  world := hW q _ b w hb h.world
  notes := (Point.notes_turn w p).trans h.notes

lemma keeps_readCall (hW : Stays answers W) {α : Type} (q : ReadCall (Except Failure α)) :
    Keeps answers (Sending W sent) (readCall q) :=
  keeps_bind (keeps_request_of fun _ _ _ hb hp => hp.turn hW hb) fun r => keeps_done r

lemma wp_ensure_close (hW : Stays answers W) {α : Type} {x : Download α} {n : String}
    {S : α → List Sent → Prop} {E : List Sent → Prop} (hS : ∀ a l, S a l → E l)
    (hx : wp answers (Post.seq (fun a q => W q.world ∧ S a q.notes) fun _ q => W q.world ∧ E q.notes) x p) :
    wp answers (Post.seq (fun a q => W q.world ∧ S a q.notes) fun _ q => W q.world ∧ E q.notes)
      (ensure x (readCall (.close n))) p := by
  refine wp_ensure.mpr (wp_mono ?_ hx)
  intro r q hq
  have hkeep : ∀ l, q.notes = l → W q.world → wp answers (fun _ => Sending W l) (readCall (.close n)) q :=
    fun l hl hw => keeps_readCall hW (.close n) q ⟨hw, hl⟩
  cases r with
  | ok a =>
    refine wp_mono ?_ (hkeep q.notes rfl hq.1)
    intro r' q' hq'
    cases r' with
    | ok _ => exact ⟨hq'.world, hq'.notes ▸ hq.2⟩
    | error e => exact ⟨hq'.world, hq'.notes ▸ hS a _ hq.2⟩
  | error e =>
    refine wp_mono ?_ (hkeep q.notes rfl hq.1)
    intro r' q' hq'
    cases r' with
    | ok _ => exact ⟨hq'.world, hq'.notes ▸ hq.2⟩
    | error e' => exact ⟨hq'.world, hq'.notes ▸ hq.2⟩

/-- What one round of the generator can have sent. -/
lemma wp_streamFrom (hW : Stays answers W) (last : Bool) (n : String) (h : Sending W sent p) :
    wp answers (Post.seq
      (fun complete q => W q.world ∧ (if complete = true
        then ∃ d, Delivers answers W key n d ∧ d.ending = none ∧ q.notes = sent ++ d.chunks.map .chunk
        else last = false ∧ q.notes = sent))
      fun _ q => W q.world ∧ (q.notes = sent ∨ ∃ d, Delivers answers W key n d ∧ q.notes = sent ++ d.chunks.map .chunk))
      (streamFrom key last n) p := by
  refine wp_bind.mpr (wp_mono ?_ (keeps_readCall hW (.connect n) p h))
  intro r q hq
  cases r with
  | error e => exact ⟨hq.world, Or.inl hq.notes⟩
  | ok _ =>
    have hloss : ∀ (complete : Bool) (l : List Sent), (if complete = true
        then ∃ d, Delivers answers W key n d ∧ d.ending = none ∧ l = sent ++ d.chunks.map .chunk
        else last = false ∧ l = sent) → l = sent ∨ ∃ d, Delivers answers W key n d ∧ l = sent ++ d.chunks.map .chunk := by
      intro complete l hl
      cases complete with
      | true =>
        obtain ⟨d, hd, -, hl⟩ := hl
        exact Or.inr ⟨d, hd, hl⟩
      | false => exact Or.inl hl.2
    apply wp_ensure_close hW hloss
    refine wp_bind.mpr (wp_request.mpr fun d w hd => ?_)
    have hdelivers : Delivers answers W key n d := ⟨q.world, w, hq.world, hd⟩
    have hturn := hq.turn hW hd
    refine wp_bind.mpr (wp_mono ?_ (wp_remarkAll Sent.chunk d.chunks (q.turn w)))
    intro r q' hq'
    cases r with
    | error e => exact hq'.elim
    | ok _ =>
      obtain ⟨hnotes, hworld, -⟩ := hq'
      rw [hturn.notes] at hnotes
      have hw : W q'.world := hworld ▸ hturn.world
      rw [Post.seq_ok]
      cases hend : d.ending with
      | none => exact wp_pure.mpr ⟨hw, d, hdelivers, hend, hnotes⟩
      | some e =>
        refine wp_ite.mpr ⟨fun ⟨_, hnone, hlast⟩ => ?_, fun _ => wp_raise.mpr ⟨hw, Or.inr ⟨d, hdelivers, hnotes⟩⟩⟩
        rw [hnone, List.map_nil, List.append_nil] at hnotes
        exact wp_pure.mpr ⟨hw, hlast, hnotes⟩

/-- The loop over the targets: all chunks are those of one stream. -/
lemma wp_body (hW : Stays answers W) (n : String) (targets : List String) (h : Sending W sent p) :
    wp answers (fun r q => ∃ chunks, q.notes = sent ++ chunks.map .chunk ∧ Served answers W key (n :: targets) r chunks)
      (body key (n :: targets)) p := by
  induction targets generalizing n p with
  | nil =>
    refine wp_bind.mpr (wp_mono ?_ (wp_streamFrom hW _ n h))
    intro r q hq
    cases r with
    | error e =>
      rcases hq.2 with hnone | ⟨d, hd, hnotes⟩
      · exact ⟨[], by simpa using hnone, Or.inr ⟨rfl, e, rfl⟩⟩
      · exact ⟨d.chunks, hnotes, Or.inl ⟨n, List.mem_singleton_self n, d, hd, rfl, fun he => by cases he⟩⟩
    | ok complete =>
      cases complete with
      | true =>
        obtain ⟨-, d, hd, hend, hnotes⟩ := hq
        exact wp_pure.mpr ⟨d.chunks, hnotes, Or.inl ⟨n, List.mem_singleton_self n, d, hd, rfl, fun _ => hend⟩⟩
      | false => cases hq.2.1
  | cons m targets ih =>
    refine wp_bind.mpr (wp_mono ?_ (wp_streamFrom hW _ n h))
    intro r q hq
    cases r with
    | error e =>
      rcases hq.2 with hnone | ⟨d, hd, hnotes⟩
      · exact ⟨[], by simpa using hnone, Or.inr ⟨rfl, e, rfl⟩⟩
      · exact ⟨d.chunks, hnotes, Or.inl ⟨n, List.mem_cons_self, d, hd, rfl, fun he => by cases he⟩⟩
    | ok complete =>
      cases complete with
      | true =>
        obtain ⟨-, d, hd, hend, hnotes⟩ := hq
        exact wp_pure.mpr ⟨d.chunks, hnotes, Or.inl ⟨n, List.mem_cons_self, d, hd, rfl, fun _ => hend⟩⟩
      | false =>
        refine wp_mono ?_ (ih m ⟨hq.1, hq.2.2⟩)
        rintro r' q' ⟨chunks, hnotes, hserved⟩
        refine ⟨chunks, hnotes, ?_⟩
        rcases hserved with ⟨k, hk, hd⟩ | hnone
        · exact Or.inl ⟨k, List.mem_cons_of_mem _ hk, hd⟩
        · exact Or.inr hnone

lemma keeps_answersHead (hW : Stays answers W) (n : String) : Keeps answers (Sending W sent) (answersHead key n) := by
  have hhead : Keeps answers (Sending W sent) (handle (do let _ ← readCall (.head n key); pure true) fun e =>
      if isClientError e then pure false else raise e : Download Bool) := by
    apply keeps_handle (keeps_bind (keeps_readCall hW _) fun _ => keeps_pure _)
    intro e
    exact keeps_ite (fun _ => keeps_pure _) fun _ => keeps_raise _
  exact keeps_bind (keeps_attempt hhead) fun _ => keeps_bind (keeps_readCall hW _) fun _ => keeps_done _

lemma wp_preflight (hW : Stays answers W) (targets : List String) (h : Sending W sent p) :
    wp answers (Post.seq (fun found q => Sending W sent q ∧ found.1 ∈ targets ∧ found.2 ⊆ targets)
      fun _ q => Sending W sent q) (preflightReadTarget key targets) p := by
  induction targets generalizing p with
  | nil => exact wp_raise.mpr h
  | cons n targets ih =>
    refine wp_bind.mpr (wp_mono ?_ (keeps_readCall hW (.connect n) p h))
    intro r q hq
    cases r with
    | error e => exact hq
    | ok _ =>
      refine wp_bind.mpr (wp_mono ?_ (keeps_answersHead hW n q hq))
      intro r' q' hq'
      cases r' with
      | error e => exact hq'
      | ok answered =>
        cases answered with
        | true => exact wp_pure.mpr ⟨hq', List.mem_cons_self, List.Subset.refl _⟩
        | false =>
          refine wp_mono ?_ (ih hq')
          intro r'' q'' hq''
          cases r'' with
          | error e => exact hq''
          | ok found =>
            obtain ⟨hsending, hfound, hrest⟩ := hq''
            exact ⟨hsending, List.mem_cons_of_mem _ hfound, fun m hm => List.mem_cons_of_mem _ (hrest hm)⟩

lemma Served.mono {targets targets' : List String} {r : Except Failure Unit} {chunks : List Bytes}
    (h : Served answers W key targets r chunks) (hsub : targets ⊆ targets') : Served answers W key targets' r chunks := by
  rcases h with ⟨n, hn, hd⟩ | hnone
  · exact Or.inl ⟨n, hsub hn, hd⟩
  · exact Or.inr hnone

/-- What a whole download has sent: nothing, or the headers of the version and one body. -/
def Downloaded (answers : ∀ {β : Type}, ReadCall β → ρ → β → ρ → Prop) (W : ρ → Prop) (name : Arg String) (db : Db)
    (r : Except Failure Unit) (sent : List Sent) : Prop :=
  sent = [] ∧ (∃ e, r = .error e) ∨
    ∃ obj version targets chunks, readTargets name db = .ok (obj, version, targets) ∧
      sent = .headers (headersOf version) :: chunks.map .chunk ∧
      Served answers W (objectKey obj version) (targets.map StorageNode.nodeId) r chunks

lemma wp_getObject (hW : Stays answers W) (name : Arg String) (db : Db) (w : ρ) (hw : W w) :
    wp answers (fun r q => Downloaded answers W name db r q.notes) (getObject name) (Point.start db w) := by
  have hstart : Sending W [] (Point.start db w : Point Db ρ Sent) := ⟨hw, rfl⟩
  refine wp_bind.mpr (wp_query.mpr (wp_bind_lift.mpr ⟨fun found hfound => ?_, fun e _ => Or.inl ⟨rfl, e, rfl⟩⟩))
  obtain ⟨obj, version, targets⟩ := found
  have hread : readTargets name db = .ok (obj, version, targets) := hfound
  refine wp_bind.mpr (wp_mono ?_ (wp_preflight hW (targets.map StorageNode.nodeId) ⟨hw, rfl⟩))
  intro r q hq
  cases r with
  | error e => exact Or.inl ⟨hq.notes, e, rfl⟩
  | ok found =>
    obtain ⟨selected, remaining⟩ := found
    obtain ⟨hsending, hselected, hremaining⟩ := hq
    have hsub : selected :: remaining ⊆ targets.map StorageNode.nodeId := List.cons_subset.mpr ⟨hselected, hremaining⟩
    have hheaders : Sending W [.headers (headersOf version)] (q.remark (.headers (headersOf version))) := by
      refine ⟨hsending.world, ?_⟩
      rw [Point.notes_remark, hsending.notes]
      rfl
    refine wp_bind.mpr (wp_remark.mpr (wp_mono ?_ (wp_body hW selected remaining hheaders)))
    rintro r' q' ⟨chunks, hnotes, hserved⟩
    exact Or.inr ⟨obj, version, targets, chunks, hread, hnotes, hserved.mono hsub⟩

def ReadBy (serve : ∀ {β : Type}, ReadCall β → ρ → β × ρ) {β : Type} (q : ReadCall β) (w : ρ) (b : β) (w' : ρ) : Prop :=
  serve q w = (b, w')

/-- The bytes of two replicas are never spliced: whatever the nodes do and whenever they fail, a client receives
nothing, or the headers of the current version and the chunks of a single stream of a single healthy target; and when
the body ends without an error, that stream has ended so, too. -/
theorem bodies_never_spliced {ρ : Type} (serve : ∀ {β : Type}, ReadCall β → ρ → β × ρ) (name : Arg String) (db : Db)
    (w : ρ) :
    Downloaded (ReadBy serve) (fun _ => True) name db (exec serve (getObject name) (Point.start db w)).1
      (exec serve (getObject name) (Point.start db w)).2.notes := by
  have hserve : ∀ {β : Type} (c : ReadCall β) (w : ρ), ReadBy serve c w (serve c w).1 (serve c w).2 := fun _ _ => rfl
  exact wp_sound hserve (wp_getObject (fun _ _ _ _ _ _ => trivial) name db w trivial)

end Vault.Gateway
