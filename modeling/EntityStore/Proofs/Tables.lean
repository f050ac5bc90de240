import EntityStore.Proofs.WriteAttempts
/-!
# The tables of a storage

A table comes to exist with the first write that is applied to it, whatever comes of the write, and it stays when the
write is taken back.  `Storage.Gains` says which tables are new; `Repository.gains_after` says of a run that the new
ones are those that some transaction has applied a write to, at once or with its commit.
-/
namespace EntityStore

variable {X : Scalars} {κ : Type} [DecidableEq κ] {C : κ → EntityType X}

/-! ## Writes, publications and rollbacks -/

namespace Storage

/-- The tables of the second storage are those of the first one, and behind them those that are `new`. -/
def Gains (s s' : Storage C) (new : κ → Prop) : Prop :=
  ∃ extra, s'.shards.keys = s.shards.keys ++ extra ∧ ∀ k, k ∈ extra ↔ k ∉ s.shards.keys ∧ new k

section

variable {s s' s'' : Storage C} {new new' : κ → Prop}

omit [DecidableEq κ] in
theorem gains_of_keys_eq (h : s'.shards.keys = s.shards.keys) : s.Gains s' (fun _ => False) :=
  ⟨[], by rw [h, List.append_nil], fun k => by simp⟩

omit [DecidableEq κ] in
theorem Gains.congr (h : s.Gains s' new) (hnew : ∀ k, new k ↔ new' k) : s.Gains s' new' := by
  obtain ⟨extra, hkeys, hextra⟩ := h
  exact ⟨extra, hkeys, fun k => by rw [hextra, hnew]⟩

omit [DecidableEq κ] in
theorem Gains.trans (h : s.Gains s' new) (h' : s'.Gains s'' new') : s.Gains s'' (fun k => new k ∨ new' k) := by
  obtain ⟨extra, hkeys, hextra⟩ := h
  obtain ⟨extra', hkeys', hextra'⟩ := h'
  refine ⟨extra ++ extra', by rw [hkeys', hkeys, List.append_assoc], fun k => ?_⟩
  rw [List.mem_append, hextra', hkeys, List.mem_append, hextra]
  tauto

omit [DecidableEq κ] in
theorem Gains.tables_eq (h : s.Gains s' new) (hnone : ∀ k, new k → k ∈ s.shards.keys) : s'.tables = s.tables := by
  obtain ⟨extra, hkeys, hextra⟩ := h
  have hnil : extra = [] := List.eq_nil_iff_forall_not_mem.2 fun k hk =>
    ((hextra k).1 hk).1 (hnone k ((hextra k).1 hk).2)
  unfold tables
  rw [hkeys, hnil, List.append_nil]

end

theorem gains_write (s : Storage C) (tx : TxId) (v : Nat) (k : κ) (w : Write (C k)) :
    s.Gains (s.write tx v k w).2 (k = ·) := by
  have hkeys : (s.write tx v k w).2.shards.keys =
      if k ∈ s.shards.keys then s.shards.keys else s.shards.keys ++ [k] := by
    unfold write
    dsimp only
    rw [shards_touch]
    exact s.shards.keys_set k _
  by_cases hk : k ∈ s.shards.keys
  · refine ⟨[], by rw [hkeys, if_pos hk, List.append_nil], fun j => iff_of_false List.not_mem_nil ?_⟩
    rintro ⟨hj, rfl⟩
    exact hj hk
  · refine ⟨[k], by rw [hkeys, if_neg hk], fun j => List.mem_singleton.trans ⟨?_, fun h => h.2.symm⟩⟩
    rintro rfl
    exact ⟨hk, rfl⟩

/-- A replay gets to a write to the table. -/
def Reaches (s : Storage C) (tx : TxId) (v : Nat) : List (TableWrite C) → κ → Prop
  | [], _ => False
  | w :: rest, k =>
    w.kind = k ∨ (s.write tx v w.kind w.write).1 = .ok () ∧ (s.write tx v w.kind w.write).2.Reaches tx v rest k

theorem gains_replay (tx : TxId) (v : Nat) : ∀ (ws : List (TableWrite C)) (s : Storage C),
    s.Gains (s.replay tx v ws).2 (s.Reaches tx v ws)
  | [], s => gains_of_keys_eq rfl
  | w :: rest, s => by
    have hfirst := s.gains_write tx v w.kind w.write
    have hrest := gains_replay tx v rest (s.write tx v w.kind w.write).2
    have hreaches : ∀ k, s.Reaches tx v (w :: rest) k ↔ w.kind = k ∨
        (s.write tx v w.kind w.write).1 = .ok () ∧ (s.write tx v w.kind w.write).2.Reaches tx v rest k := fun _ => Iff.rfl
    rw [replay]
    generalize s.write tx v w.kind w.write = r at hfirst hrest hreaches
    obtain ⟨result, s'⟩ := r
    cases result with
    | error e => exact hfirst.congr fun k => by simp [hreaches]
    | ok u => exact (hfirst.trans hrest).congr fun k => by simp [hreaches]

theorem keys_onKinds (f : (k : κ) → Shard (C k) → Shard (C k)) : ∀ (ks : List κ)
    (shards : KindMap κ (fun k => Shard (C k))), (onKinds f shards ks).keys = shards.keys
  | [], _ => rfl
  | k :: rest, shards => by
    rw [onKinds]
    cases hk : shards.get? k with
    | none => exact keys_onKinds f rest shards
    | some shard =>
      have hmem : k ∈ shards.keys := (shards.mem_keys k).2 (by rw [hk]; rfl)
      exact (keys_onKinds f rest _).trans ((shards.keys_set k _).trans (if_pos hmem))

theorem keys_publish (s : Storage C) (tx : TxId) : (s.publish tx).shards.keys = s.shards.keys := keys_onKinds ..

theorem keys_rollback (s : Storage C) (tx : TxId) : (s.rollback tx).shards.keys = s.shards.keys := keys_onKinds ..

end Storage

/-! ## Turns -/

/-- The transaction applies a write to a table in its turn: it is open and may write, and it makes a write that is to be
applied at once, or commits and gets to the write in its queue. -/
def Session.WritesTo (s : Session C) (k : κ) : Action C → Prop
  | .statement _ op =>
    s.tx.closedBy = none ∧ s.tx.isMutable = true ∧ s.tx.options.isImmediate = true ∧ ∃ w, op.write? = some w ∧ w.kind = k
  | .commit _ =>
    s.tx.closedBy = none ∧ s.tx.isMutable = true ∧ s.tx.invalidated = false ∧
      s.storage.Reaches s.tx.id s.version (s.tx.pending.map Pending.toTableWrite) k
  | _ => False

namespace Session

theorem gains_statement (s : Session C) (id : TxId) (op : TableOp C) :
    s.storage.Gains (op.run s).2.storage (fun k => s.WritesTo k (.statement id op)) := by
  by_cases hwrites : s.tx.closedBy = none ∧ s.tx.isMutable = true ∧ s.tx.options.isImmediate = true ∧
      ∃ w, op.write? = some w
  · obtain ⟨ho, hm, hi, w, hw⟩ := hwrites
    rcases (op.writes hw ho hm).1 with ⟨hd, -⟩ | ⟨-, happlies⟩
    · rw [hi] at hd
      cases hd
    · rw [happlies.storage]
      refine (s.storage.gains_write s.tx.id s.version w.kind w.write).congr fun k => ?_
      unfold WritesTo
      simp only [ho, hm, hi, hw, Option.some.injEq, exists_eq_left', true_and]
  · have hno : ∀ k, False ↔ s.WritesTo k (.statement id op) := by
      refine fun k => iff_of_false (fun h => h) fun ⟨ho, hm, hi, w, hw, _⟩ => hwrites ⟨ho, hm, hi, w, hw⟩
    have hsame : (op.run s).2.storage = s.storage := by
      cases op.effect s with
      | reads hr _ => exact hr.storage
      | queues w _ _ _ _ hq _ => exact hq.storage
      | applies w hw ho hm hi _ _ => exact absurd ⟨ho, hm, hi, w, hw⟩ hwrites
    exact (Storage.gains_of_keys_eq (congrArg (fun st => st.shards.keys) hsame)).congr hno

theorem gains_commit (s : Session C) (id : TxId) :
    s.storage.Gains s.commit.2.storage (fun k => s.WritesTo k (.commit id)) := by
  have hsame : s.commit.2.storage = s.storage → (∀ k, ¬s.WritesTo k (.commit id)) →
      s.storage.Gains s.commit.2.storage (fun k => s.WritesTo k (.commit id)) := fun hst hno =>
    (Storage.gains_of_keys_eq (congrArg (fun st => st.shards.keys) hst)).congr fun k => iff_of_false (fun h => h) (hno k)
  rcases s.commit_spec with ⟨hinvalid, hc⟩ | ⟨hvalid, hclose⟩
  · refine hsame (congrArg (fun r => r.2.storage) hc) fun k h => ?_
    rw [h.2.2.1] at hinvalid
    cases hinvalid
  · cases hclose with
    | refused _ _ same closed => exact hsame (congrArg Session.storage same) fun k h => closed h.1
    | idle _ _ immutable hst _ _ =>
      refine hsame hst fun k h => ?_
      rw [h.2.1] at immutable
      cases immutable
    | ends _ ho hm hst _ _ =>
      -- the replay makes the tables, and what follows it makes none and takes none away
      have hkeys : s.commit.2.storage.shards.keys = s.replayed.2.shards.keys := by
        rw [hst]
        cases s.commitWrites_spec.1 with
        | failed _ _ hst' _ => rw [hst', Storage.keys_rollback]
        | unwritten _ hst' _ _ => rw [hst']
        | published _ hst' _ _ _ => rw [hst', Storage.keys_publish]
      have hreplay := Storage.gains_replay s.tx.id s.version (s.tx.pending.map Pending.toTableWrite) s.storage
      refine (hreplay.trans (Storage.gains_of_keys_eq hkeys)).congr fun k => ?_
      unfold WritesTo
      simp only [ho, hm, hvalid, true_and, or_false]

end Session

/-- **The tables that a turn makes are those that it applies a write to.** -/
theorem Action.gains_turn (a : Action C) (s : Session C) :
    s.storage.Gains (a.turn s).storage (fun k => s.WritesTo k a) := by
  cases a with
  | statement id op => exact s.gains_statement id op
  | commit id => exact s.gains_commit id
  | openTable id k =>
    exact Storage.gains_of_keys_eq (congrArg (fun st => st.shards.keys) (Session.Reads.openTable s k).storage)
  | rollback id =>
    refine Storage.gains_of_keys_eq ?_
    show s.rollback.2.storage.shards.keys = _
    cases s.rollback_spec with
    | refused _ _ same _ => rw [same]
    | idle _ _ _ hst _ _ => rw [hst]
    | ends _ _ _ hst _ _ => exact (congrArg (fun st => st.shards.keys) hst).trans (Storage.keys_rollback ..)
  | release id =>
    refine Storage.gains_of_keys_eq ?_
    show s.release.storage.shards.keys = _
    unfold Session.release
    split
    · exact Storage.keys_rollback ..
    · rfl
  | _ => exact Storage.gains_of_keys_eq rfl

/-! ## Runs -/

namespace Repository

/-- A transaction in the storage in place `home` applies a write to a table. -/
def WritesTo (id : TxId) (home : Nat) (k : κ) (r : Repository C) (a : Action C) : Prop :=
  ∃ s, a.actor? = some id ∧ r.session? id = some s ∧ s.tx.home = home ∧ s.WritesTo k a

theorem gains_next {r : Repository C} (h : r.Sound) (a : Action C) {home : Nat} (hhome : home ≤ r.retired.length) :
    (r.storage home).Gains ((r.next a).storage home) (fun k => ∃ id, WritesTo id home k r a) := by
  rcases storage_next h a hhome with ⟨hsame, hnone⟩ | ⟨id, s, hact, hs, hplace, hstorage⟩
  · rw [hsame]
    refine (Storage.gains_of_keys_eq rfl).congr fun k => iff_of_false (fun h => h) ?_
    rintro ⟨id, s, hact, hs, hplace, -⟩
    exact hnone id s hact hs hplace
  · rw [hstorage, ← hplace, ← storage_of_session? hs]
    refine (a.gains_turn s).congr fun k => ⟨fun hw => ⟨id, s, hact, hs, rfl, hw⟩, ?_⟩
    rintro ⟨other, s', hact', hs', -, hw⟩
    cases hact.symm.trans hact'
    cases hs.symm.trans hs'
    exact hw

/-- **The tables that a run makes are those that its transactions apply a write to.** -/
theorem gains_after {home : Nat} : ∀ (as : List (Action C)) {r : Repository C}, r.Sound → home ≤ r.retired.length →
    (r.storage home).Gains ((r.after as).storage home) (fun k => ∃ id, r.Happens (WritesTo id home k) as)
  | [], r, _, _ => (Storage.gains_of_keys_eq rfl).congr fun k => by simp [Happens]
  | a :: rest, r, h, hhome => by
    have hrest := gains_after rest (sound_next h a) (Nat.le_trans hhome (retired_length_next_le r a))
    refine ((gains_next h a hhome).trans hrest).congr fun k => ?_
    rw [← exists_or]
    rfl

end Repository

end EntityStore
