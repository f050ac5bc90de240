import EntityStore.Proofs.Staleness
/-!
# Transactions on either side of a load

A load gives the transactions that start from there on storages of their own (`Repository.Parted`).  So a run on a
parted repository falls into two that know nothing of each other: the transactions from before it go on as if all other
actions were left out (`Parted.session?_after`), and the current storage, the snapshots and the later transactions are
the same as if those from before did nothing (`Parted.sameFrom_after`).
-/
namespace EntityStore

variable {X : Scalars} {κ : Type} [DecidableEq κ] {C : κ → EntityType X}

/-- Whether a transaction with a number up to `n` acts. -/
def Action.actsUpTo (n : TxId) (a : Action C) : Bool := a.actor?.any (fun id => decide (id ≤ n))

/-- What there is of a transaction when the action that made it `s` is over. -/
def Action.kept (a : Action C) (s : Session C) : Option (Session C) :=
  match a with
  | .release _ => none
  | _ => some s

namespace Repository

/-- **What an action makes of the sessions**: the one that acts takes its turn, and the others follow in their storage. -/
theorem session?_next {r : Repository C} (h : r.Sound) {a : Action C} {id : TxId} (ha : a.actor? = some id)
    {s : Session C} (hs : r.session? id = some s) (other : TxId) :
    (r.next a).session? other =
      if id = other then a.kept (a.turn s) else (r.session? other).map (fun t => t.following (a.turn s)) := by
  obtain ⟨hid, -, hhome, -⟩ := h.session id s hs
  have hadv := a.advances_turn s
  have hput : (r.putSession (a.turn s)).session? other =
      if id = other then some (a.turn s) else (r.session? other).map (fun t => t.following (a.turn s)) := by
    split
    · rename_i he
      subst he
      exact session?_putSession_of_advances h hs hadv
    · rename_i hne
      exact session?_putSession_of_ne h (hadv.home ▸ hhome) (hadv.id.trans hid ▸ hne)
  cases a with
  | release id' =>
    cases ha
    have hnext : r.next (.release id) = (r.putSession s.release).forget id := by
      show r.release id = _
      unfold release
      rw [hs]
      rfl
    rw [hnext, session?_forget]
    split
    · rfl
    · rename_i hne
      exact hput.trans (if_neg hne)
  | start _ => cases ha
  | makeSnapshot _ => cases ha
  | loadSnapshot _ => cases ha
  | dropSnapshot _ => cases ha
  | _ =>
    rcases next_of_actor ha hs with hnext | ⟨he, -⟩
    · rw [hnext, hput]
      rfl
    · cases he

theorem current_next {r : Repository C} (h : r.Sound) {a : Action C} {id : TxId} (ha : a.actor? = some id) :
    (r.next a).current =
      match r.session? id with
      | none => r.current
      | some s => if s.tx.home = r.retired.length then (a.turn s).storage else r.current := by
  cases hs : r.session? id with
  | none => rw [next_of_absent ha hs]
  | some s =>
    have hadv := a.advances_turn s
    have hput := current_putSession r (hadv.home ▸ (h.session id s hs).2.2.1 : (a.turn s).tx.home ≤ _)
    rw [hadv.home] at hput
    rcases next_of_actor ha hs with hnext | ⟨-, hnext⟩
    · rw [hnext]
      exact hput
    · rw [hnext]
      exact hput

/-! ## The two sides -/

/-- The transactions up to the number `n` work on storages before the given place, and the later ones on storages from
there on. -/
structure Parted (n : TxId) (place : Nat) (r : Repository C) : Prop where
  used : n ≤ r.lastTx
  current : place ≤ r.retired.length
  earlier : ∀ id s, r.session? id = some s → id ≤ n → s.tx.home < place
  later : ∀ id s, r.session? id = some s → n < id → place ≤ s.tx.home

theorem parted_load {r : Repository C} (h : r.Sound) (st : Storage C) :
    (r.load st).Parted r.lastTx (r.retired.length + 1) := by
  have hlength : (r.load st).retired.length = r.retired.length + 1 := by simp [load]
  refine ⟨Nat.le_refl _, Nat.le_of_eq hlength.symm, fun id s hs _ => ?_, fun id s hs hlt => ?_⟩
  · rw [session?_load h] at hs
    exact Nat.lt_succ_of_le (h.session id s hs).2.2.1
  · rw [session?_load h] at hs
    exact absurd (h.session id s hs).2.1 (Nat.not_le_of_lt hlt)

namespace Parted

variable {n : TxId} {place : Nat} {r : Repository C} {a : Action C} {id other : TxId} {s t : Session C}

omit [DecidableEq κ] in
theorem home_ne (hp : r.Parted n place) (hs : r.session? id = some s) (hid : id ≤ n) (ht : r.session? other = some t)
    (hother : n < other) : s.tx.home ≠ t.tx.home :=
  Nat.ne_of_lt (Nat.lt_of_lt_of_le (hp.earlier id s hs hid) (hp.later other t ht hother))

/-- **Sides stay parted.** -/
theorem next (hp : r.Parted n place) (h : r.Sound) (a : Action C) : (r.next a).Parted n place := by
  have hhome : ∀ id s', (r.next a).session? id = some s' →
      (id = r.lastTx + 1 ∧ s'.tx.home = r.retired.length) ∨ ∃ s, r.session? id = some s ∧ s'.tx.home = s.tx.home := by
    intro id s' hs'
    have hid := ((sound_next h a).session id s' hs').1
    rcases next_cases h a hs' with ⟨o, rfl, rfl⟩ | ⟨s, hs, ⟨-, htx⟩ | ⟨-, rfl⟩⟩
    · exact .inl ⟨hid.symm, rfl⟩
    · exact .inr ⟨s, hs, congrArg Transaction.home htx⟩
    · exact .inr ⟨s, hs, (a.advances_turn s).home⟩
  refine ⟨Nat.le_trans hp.used (r.lastTx_next a), Nat.le_trans hp.current (retired_length_next_le r a),
    fun id s' hs' hid => ?_, fun id s' hs' hid => ?_⟩
  · rcases hhome id s' hs' with ⟨rfl, -⟩ | ⟨s, hs, he⟩
    · exact absurd (Nat.le_trans hid hp.used) (Nat.not_succ_le_self _)
    · exact he ▸ hp.earlier id s hs hid
  · rcases hhome id s' hs' with ⟨-, he⟩ | ⟨s, hs, he⟩
    · exact he ▸ hp.current
    · exact he ▸ hp.later id s hs hid

theorem session?_next_of_apart (h : r.Sound) (ha : a.actor? = some other)
    (hapart : ∀ s t, r.session? id = some s → r.session? other = some t → s.tx.home ≠ t.tx.home) (hne : other ≠ id) :
    (r.next a).session? id = r.session? id := by
  cases ht : r.session? other with
  | none => rw [next_of_absent ha ht]
  | some t =>
    rw [session?_next h ha ht, if_neg hne]
    cases hs : r.session? id with
    | none => rfl
    | some s =>
      have hhome : (a.turn t).tx.home ≠ s.tx.home := by
        rw [(a.advances_turn t).home]
        exact (hapart s t hs ht).symm
      unfold Session.following
      rw [Option.map_some, if_neg hhome]

/-! ## The transactions from before -/

theorem session?_next (hp : r.Parted n place) (h : r.Sound) (ha : a.actsUpTo n = false) (hid : id ≤ n) :
    (r.next a).session? id = r.session? id := by
  cases hact : a.actor? with
  | some other =>
    have hother : n < other := by
      unfold Action.actsUpTo at ha
      rw [hact] at ha
      exact Nat.lt_of_not_le (of_decide_eq_false ha)
    exact session?_next_of_apart h hact (fun s t hs ht => hp.home_ne hs hid ht hother)
      (Nat.ne_of_gt (Nat.lt_of_le_of_lt hid hother))
  | none =>
    have he := r.effect a
    generalize r.next a = r' at he
    cases he with
    | started options =>
      rw [session?_start, if_neg]
      rintro rfl
      exact Nat.not_succ_le_self _ (Nat.le_trans hid hp.used)
    | advanced other t t' hact' => rw [hact] at hact'; cases hact'
    | released other t ht => cases hact
    | loaded sid st hst => exact session?_load h st id
    | _ => rfl

end Parted

variable {n : TxId} {place : Nat} {r r' : Repository C} {a : Action C}

/-- Transactions that are the same in two repositories stay so when one of them acts. -/
theorem session?_next_congr (h : r.Sound) (h' : r'.Sound) {P : TxId → Prop}
    (hsame : ∀ id, P id → r'.session? id = r.session? id) {actor : TxId} (ha : a.actor? = some actor) (hP : P actor)
    (id : TxId) (hid : P id) : (r'.next a).session? id = (r.next a).session? id := by
  have hactor := hsame actor hP
  cases hs : r.session? actor with
  | none =>
    rw [next_of_absent ha hs, next_of_absent ha (hactor.trans hs)]
    exact hsame id hid
  | some s => rw [session?_next h ha hs, session?_next h' ha (hactor.trans hs), hsame id hid]

/-- **The transactions from before go on as if all other actions were left out.** -/
theorem Parted.session?_after : ∀ (cs : List (Action C)) {r r' : Repository C}, r.Parted n place → r.Sound → r'.Sound →
    (∀ id ≤ n, r'.session? id = r.session? id) →
      ∀ id ≤ n, (r'.after (cs.filter (Action.actsUpTo n))).session? id = (r.after cs).session? id
  | [], _, _, _, _, _, hsame => hsame
  | a :: rest, r, r', hp, h, h', hsame => by
    cases ha : a.actsUpTo n with
    | false =>
      -- the action is left out on one side, and the transactions from before do not notice it on the other
      rw [List.filter_cons_of_neg (by rw [ha]; exact Bool.false_ne_true)]
      exact Parted.session?_after rest (hp.next h a) (sound_next h a) h' fun id hid =>
        (hsame id hid).trans (hp.session?_next h ha hid).symm
    | true =>
      rw [List.filter_cons_of_pos ha]
      obtain ⟨actor, hactor, hle⟩ := (Option.any_eq_true ..).1 ha
      exact Parted.session?_after rest (hp.next h a) (sound_next h a) (sound_next h' a) fun id hid =>
        session?_next_congr (P := (· ≤ n)) h h' hsame hactor (of_decide_eq_true hle) id hid

/-! ## The current storage and the later transactions -/

/-- Two repositories are the same but for the retired storages and for transactions up to the number `n`. -/
structure SameFrom (n : TxId) (r r' : Repository C) : Prop where
  current : r'.current = r.current
  length : r'.retired.length = r.retired.length
  snapshots : r'.snapshots = r.snapshots
  lastTx : r'.lastTx = r.lastTx
  session : ∀ id, n < id → r'.session? id = r.session? id

omit [DecidableEq κ] in
theorem SameFrom.refl (n : TxId) (r : Repository C) : SameFrom n r r := ⟨rfl, rfl, rfl, rfl, fun _ _ => rfl⟩

omit [DecidableEq κ] in
theorem SameFrom.trans {r'' : Repository C} (h : SameFrom n r r') (h' : SameFrom n r' r'') : SameFrom n r r'' where
  current := h'.current.trans h.current
  length := h'.length.trans h.length
  snapshots := h'.snapshots.trans h.snapshots
  lastTx := h'.lastTx.trans h.lastTx
  session id hid := (h'.session id hid).trans (h.session id hid)

theorem Parted.sameFrom_next (hp : r.Parted n place) (h : r.Sound) (ha : a.actsUpTo n = true) :
    SameFrom n r (r.next a) := by
  obtain ⟨actor, hactor, hle⟩ := (Option.any_eq_true ..).1 ha
  have hle : actor ≤ n := of_decide_eq_true hle
  obtain ⟨hlength, hlastTx, hsnapshots, -⟩ := frame_of_actor h hactor
  refine ⟨?_, hlength, hsnapshots, hlastTx, fun id hid => ?_⟩
  · rw [← storage_length, ← storage_length, hlength]
    rcases storage_next h a (Nat.le_refl r.retired.length) with ⟨hst, -⟩ | ⟨id, s, hact, hs, hhome, -⟩
    · exact hst
    · rw [hactor] at hact
      cases hact
      exact absurd hhome (Nat.ne_of_lt (Nat.lt_of_lt_of_le (hp.earlier _ s hs hle) hp.current))
  · exact Parted.session?_next_of_apart h hactor (fun s t hs ht => (hp.home_ne ht hle hs hid).symm)
      (Nat.ne_of_lt (Nat.lt_of_le_of_lt hle hid))

omit [DecidableEq κ] in
theorem SameFrom.begun (hsame : SameFrom n r r') (options : TxOptions) : r'.begun options = r.begun options := by
  unfold Repository.begun
  rw [hsame.current, hsame.length, hsame.lastTx]

theorem SameFrom.next_of_actor (hsame : SameFrom n r r') (h : r.Sound) (h' : r'.Sound) {actor : TxId}
    (ha : a.actor? = some actor) (hlater : n < actor) : SameFrom n (r.next a) (r'.next a) := by
  obtain ⟨hcurrent, hlength, hsnapshots, hlastTx, hsession⟩ := hsame
  obtain ⟨hl, ht, hsn, -⟩ := frame_of_actor h ha
  obtain ⟨hl', ht', hsn', -⟩ := frame_of_actor h' ha
  refine ⟨?_, by rw [hl, hl', hlength], by rw [hsn, hsn', hsnapshots], by rw [ht, ht', hlastTx],
    session?_next_congr (P := (n < ·)) h h' hsession ha hlater⟩
  rw [current_next h ha, current_next h' ha, hsession actor hlater, hcurrent, hlength]

/-- The action of a transaction from after the parting, or of none, comes to the same. -/
theorem SameFrom.next (hsame : SameFrom n r r') (h : r.Sound) (h' : r'.Sound) (ha : a.actsUpTo n = false) :
    SameFrom n (r.next a) (r'.next a) := by
  cases hact : a.actor? with
  | some actor =>
    refine hsame.next_of_actor h h' hact (Nat.lt_of_not_le ?_)
    unfold Action.actsUpTo at ha
    rw [hact] at ha
    exact of_decide_eq_false ha
  | none =>
    -- an action of nobody looks only at what the two repositories share
    obtain ⟨hcurrent, hlength, hsnapshots, hlastTx, hsession⟩ := hsame
    cases a with
    | start options =>
      refine ⟨hcurrent, hlength, hsnapshots, congrArg (· + 1) hlastTx, fun id hid => ?_⟩
      show (r'.start options).2.session? id = (r.start options).2.session? id
      rw [session?_start, session?_start, hsession id hid, hlastTx]
      rw [SameFrom.begun ⟨hcurrent, hlength, hsnapshots, hlastTx, hsession⟩]
    | makeSnapshot new =>
      refine ⟨hcurrent, hlength, ?_, hlastTx, hsession⟩
      show r'.snapshots.insert new r'.current.settled = r.snapshots.insert new r.current.settled
      rw [hsnapshots, hcurrent]
    | loadSnapshot sid =>
      show SameFrom n (r.orSame (r.loadSnapshot sid)).2 (r'.orSame (r'.loadSnapshot sid)).2
      unfold loadSnapshot
      rw [hsnapshots]
      cases hs : r.snapshots.get? sid with
      | none => exact ⟨hcurrent, hlength, hsnapshots, hlastTx, hsession⟩
      | some st =>
        show SameFrom n (r.load st) { r'.load st with snapshots := r.snapshots }
        refine ⟨rfl, ?_, rfl, hlastTx, fun id hid => ?_⟩
        · show (r'.retired ++ [r'.current]).length = (r.retired ++ [r.current]).length
          rw [List.length_append, List.length_append, hlength]
          rfl
        · exact (session?_load h' st id).trans ((hsession id hid).trans (session?_load h st id).symm)
    | dropSnapshot sid =>
      show SameFrom n (r.orSame (r.dropSnapshot sid)).2 (r'.orSame (r'.dropSnapshot sid)).2
      unfold dropSnapshot
      rw [hsnapshots]
      split
      · exact ⟨hcurrent, hlength, rfl, hlastTx, hsession⟩
      · exact ⟨hcurrent, hlength, hsnapshots, hlastTx, hsession⟩
    | _ => cases hact

/-- **The other side goes on as if the transactions from before did nothing.** -/
theorem Parted.sameFrom_after : ∀ (cs : List (Action C)) {r r' : Repository C}, r.Parted n place → r.Sound → r'.Sound →
    SameFrom n r' r → SameFrom n (r'.after (cs.filter (fun a => !a.actsUpTo n))) (r.after cs)
  | [], _, _, _, _, _, hsame => hsame
  | a :: rest, r, r', hp, h, h', hsame => by
    cases ha : a.actsUpTo n with
    | true =>
      rw [List.filter_cons_of_neg (by rw [ha]; exact Bool.false_ne_true)]
      exact Parted.sameFrom_after rest (hp.next h a) (sound_next h a) h' (hsame.trans (hp.sameFrom_next h ha))
    | false =>
      rw [List.filter_cons_of_pos (by rw [ha]; rfl)]
      exact Parted.sameFrom_after rest (hp.next h a) (sound_next h a) (sound_next h' a) (hsame.next h' h ha)

end Repository

end EntityStore
