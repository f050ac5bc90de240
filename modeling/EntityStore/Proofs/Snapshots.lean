import EntityStore.Proofs.Copies
import EntityStore.Proofs.Partings
import EntityStore.Proofs.Serializability
import Mathlib.Data.List.Induction
import Mathlib.Data.List.Nodup
/-!
# Saved states

Every snapshot of a repository was made and not dropped since, and has the published state of the moment when it was made
(`Repository.exists_saved_of_get?_snapshots`).  The identifiers of snapshots are drawn elsewhere; as long as none is drawn
twice, whatever was made and not dropped is there (`Repository.get?_snapshots_of_saved`).  A load brings its state back
for the transactions that start from there on, whatever came in between (`Repository.Restores`), and parts them from those
that were open before.  `Repository.snapshots_restore` puts both together.
-/
namespace EntityStore

variable {X : Scalars} {κ : Type} [DecidableEq κ] {C : κ → EntityType X}

namespace Repository

/-! ## What is saved -/

/-- In a run, the snapshot was made of the state `r` and not dropped since. -/
def Saved (as : List (Action C)) (sid : X.uuid) (r : Repository C) : Prop :=
  ∃ before between, as = before ++ .makeSnapshot sid :: between ∧ r = ({} : Repository C).after before ∧
    .dropSnapshot sid ∉ between

/-- The identifiers that a run draws for its snapshots, in order. -/
def drawn (as : List (Action C)) : List X.uuid :=
  as.filterMap fun
    | .makeSnapshot sid => some sid
    | _ => none

/-- No identifier is drawn twice. -/
def DrawsFresh (as : List (Action C)) : Prop := (drawn as).Nodup

omit [DecidableEq κ] in
theorem mem_drawn_iff (as : List (Action C)) (sid : X.uuid) : sid ∈ drawn as ↔ .makeSnapshot sid ∈ as := by
  unfold drawn
  rw [List.mem_filterMap]
  constructor
  · rintro ⟨a, ha, hdraws⟩
    cases a <;> cases hdraws
    exact ha
  · exact fun h => ⟨_, h, rfl⟩

omit [DecidableEq κ] in
theorem DrawsFresh.not_mem {before between : List (Action C)} {sid : X.uuid}
    (h : DrawsFresh (before ++ .makeSnapshot sid :: between)) : .makeSnapshot sid ∉ between := by
  have h : (drawn before ++ sid :: drawn between).Nodup := by simpa [DrawsFresh, drawn] using h
  exact mt (mem_drawn_iff between sid).2 (List.nodup_cons.1 (List.nodup_append.1 h).2.1).1

theorem Saved.concat {as : List (Action C)} {sid : X.uuid} {r : Repository C} (h : Saved as sid r) {a : Action C}
    (ha : a ≠ .dropSnapshot sid) : Saved (as ++ [a]) sid r := by
  obtain ⟨before, between, rfl, hr, hkept⟩ := h
  refine ⟨before, between ++ [a], by simp, hr, ?_⟩
  rw [List.mem_append, List.mem_singleton, not_or]
  exact ⟨hkept, Ne.symm ha⟩

theorem get?_snapshots_next {r : Repository C} (h : r.Sound) (a : Action C) (sid : X.uuid) :
    (r.next a).snapshots.get? sid =
      match a with
      | .makeSnapshot new => if new = sid then some r.current.settled else r.snapshots.get? sid
      | .dropSnapshot other => if other = sid then none else r.snapshots.get? sid
      | _ => r.snapshots.get? sid := by
  cases hact : a.actor? with
  | some id =>
    rw [(frame_of_actor h hact).2.2.1]
    cases a with
    | makeSnapshot new => cases hact
    | dropSnapshot other => cases hact
    | _ => rfl
  | none =>
    cases a with
    | start options => rfl
    | makeSnapshot new => exact Dict.get?_insert ..
    | loadSnapshot other =>
      show (r.orSame (r.loadSnapshot other)).2.snapshots.get? sid = r.snapshots.get? sid
      unfold loadSnapshot
      cases r.snapshots.get? other <;> rfl
    | dropSnapshot other =>
      show (r.orSame (r.dropSnapshot other)).2.snapshots.get? sid = if other = sid then none else r.snapshots.get? sid
      unfold dropSnapshot
      by_cases hc : r.snapshots.contains other = true
      · rw [if_pos hc]
        exact Dict.get?_erase ..
      · rw [if_neg hc]
        split
        · rename_i he
          subst he
          exact Option.not_isSome_iff_eq_none.1 hc
        · rfl
    | _ => cases hact

/-- **A snapshot is a published state that was saved and not dropped since.** -/
theorem exists_saved_of_get?_snapshots (as : List (Action C)) {sid : X.uuid} {st : Storage C}
    (h : (({} : Repository C).after as).snapshots.get? sid = some st) : ∃ r, Saved as sid r ∧ st = r.current.settled := by
  induction as using List.reverseRecOn with
  | nil => cases h
  | append_singleton as a ih =>
    have hother (ha : a ≠ .dropSnapshot sid) (h : (({} : Repository C).after as).snapshots.get? sid = some st) :
        ∃ r, Saved (as ++ [a]) sid r ∧ st = r.current.settled :=
      (ih h).imp fun _ hr => ⟨hr.1.concat ha, hr.2⟩
    rw [after_concat, get?_snapshots_next (sound_after sound_empty as)] at h
    cases a with
    | makeSnapshot new =>
      dsimp only at h
      split at h
      · rename_i hsid
        cases h
        exact ⟨_, ⟨as, [], by rw [hsid], rfl, List.not_mem_nil⟩, rfl⟩
      · exact hother (by simp) h
    | dropSnapshot other =>
      dsimp only at h
      split at h
      · cases h
      · rename_i hne
        exact hother (fun he => hne (Action.dropSnapshot.inj he)) h
    | _ => exact hother (by simp) h

/-- A snapshot stays as it is while nobody drops it and its identifier is not drawn again. -/
theorem get?_snapshots_after {sid : X.uuid} {st : Storage C} : ∀ (as : List (Action C)) {r : Repository C}, r.Sound →
    r.snapshots.get? sid = some st → .makeSnapshot sid ∉ as → .dropSnapshot sid ∉ as →
    (r.after as).snapshots.get? sid = some st
  | [], _, _, hget, _, _ => hget
  | a :: rest, r, h, hget, hmake, hdrop => by
    rw [List.mem_cons, not_or] at hmake hdrop
    refine get?_snapshots_after rest (sound_next h a) ?_ hmake.2 hdrop.2
    rw [get?_snapshots_next h]
    cases a with
    | makeSnapshot new => exact (if_neg fun he => hmake.1 (congrArg Action.makeSnapshot he.symm)).trans hget
    | dropSnapshot other => exact (if_neg fun he => hdrop.1 (congrArg Action.dropSnapshot he.symm)).trans hget
    | _ => exact hget

/-- **What was saved is there until it is dropped**, if no identifier is drawn twice. -/
theorem get?_snapshots_of_saved {as : List (Action C)} (hfresh : DrawsFresh as) {sid : X.uuid} {r : Repository C}
    (h : Saved as sid r) : (({} : Repository C).after as).snapshots.get? sid = some r.current.settled := by
  obtain ⟨before, between, rfl, rfl, hkept⟩ := h
  rw [after_append]
  refine get?_snapshots_after between (sound_next (sound_after sound_empty before) (.makeSnapshot sid)) ?_
    hfresh.not_mem hkept
  exact (get?_snapshots_next (sound_after sound_empty before) _ sid).trans (if_pos rfl)

/-! ## What a load brings back -/

theorem rows_begun {r : Repository C} (h : r.Sound) (options : TxOptions) (k : κ) :
    (r.begun options).rows k = r.committed k := by
  refine Storage.rows_eq_of_read_eq (Storage.sound_settled h.current) h.current fun c => ?_
  rw [Storage.read_eq r.current.settled, Storage.draft?_settled, Storage.published_settled]
  exact Session.row_eq_published (s := r.begun options) h.current (h.untouched_begun options) k c

/-- A transaction that starts in `q` finds what one that starts in `r` would find: the published state of `r`. -/
structure Restores (r q : Repository C) : Prop where
  version : q.version = r.version
  row : ∀ options k c, (q.begun options).row k c = r.current.published r.version k c
  rows : ∀ options k, (q.begun options).rows k = r.committed k
  answers : ∀ options ops, ((q.begun options).runAll ops).1 = ((r.begun options).runAll ops).1

theorem restores_load {r p : Repository C} (h : r.Sound) : Restores r (p.load r.current.settled) := by
  -- to a new transaction, which has no drafts, a storage and its settled copy are the same
  have hcopies : ∀ options, Session.Copies (r.begun options) ((p.load r.current.settled).begun options) := by
    intro options
    have hfree := h.untouched_begun options
    exact ⟨rfl, (Storage.Copies.of_untouched h.current hfree).settled hfree⟩
  refine ⟨rfl, fun options k c => ?_, fun options k => ?_, fun options ops => ?_⟩
  · exact ((hcopies options).row k c).trans
      (Session.row_eq_published (s := r.begun options) h.current (h.untouched_begun options) k c)
  · exact ((hcopies options).rows k).trans (rows_begun h options k)
  · exact ((hcopies options).runAll ops).1.symm

/-- **A snapshot brings back what was saved, and nothing else.**  The identifiers of snapshots come from elsewhere; it is
assumed that none is drawn twice.  Let a snapshot be made in any history and not dropped since, whatever came in between.
A load of it succeeds, and the transactions that start from there find the version and the rows that were published when
it was made.  From then on the transactions that were open before go on as if there had been no load and nobody had
started since, and everybody else as if they did nothing.  A drop succeeds and takes away this snapshot alone.  To load
or drop a snapshot that was not made, or was dropped, fails and changes nothing. -/
theorem snapshots_restore (as : List (Action C)) (hfresh : DrawsFresh as) (sid : X.uuid) :
    let p := ({} : Repository C).after as
    (∀ r, Saved as sid r →
      let q := p.next (.loadSnapshot sid)
      let p' := p.next (.dropSnapshot sid)
      (p.perform (.loadSnapshot sid)).1 = .ok () ∧ Restores r q ∧
      (∀ cs : List (Action C),
        (∀ id ≤ p.lastTx, (p.after (cs.filter (Action.actsUpTo p.lastTx))).session? id = (q.after cs).session? id) ∧
        SameFrom p.lastTx (q.after (cs.filter (fun a => !a.actsUpTo p.lastTx))) (q.after cs)) ∧
      (p.perform (.dropSnapshot sid)).1 = .ok () ∧ p' = { p with snapshots := p'.snapshots } ∧
      ∀ other, other ≠ sid → p'.snapshots.get? other = p.snapshots.get? other) ∧
    ((¬∃ r, Saved as sid r) →
      p.perform (.loadSnapshot sid) = (.error (StoreError.snapshotNotFound (X.uuid.text sid)).toError, p) ∧
      p.perform (.dropSnapshot sid) = (.error (StoreError.snapshotNotFound (X.uuid.text sid)).toError, p)) := by
  intro p
  have hp : p.Sound := sound_after sound_empty as
  refine ⟨fun r hsaved => ?_, fun hnone => ?_⟩
  · have hr : r.Sound := by
      obtain ⟨before, -, -, rfl, -⟩ := hsaved
      exact sound_after sound_empty before
    have hget : p.snapshots.get? sid = some r.current.settled := get?_snapshots_of_saved hfresh hsaved
    have hload : p.perform (.loadSnapshot sid) = (.ok (), p.load r.current.settled) := by
      show p.orSame (p.loadSnapshot sid) = _
      unfold loadSnapshot
      rw [hget]
      rfl
    have hdrop : p.perform (.dropSnapshot sid) = (.ok (), { p with snapshots := p.snapshots.erase sid }) := by
      show p.orSame (p.dropSnapshot sid) = _
      unfold dropSnapshot Dict.contains
      rw [hget]
      rfl
    have hnext : p.next (.loadSnapshot sid) = p.load r.current.settled := congrArg Prod.snd hload
    have hq : (p.load r.current.settled).Sound := sound_load hp hget
    -- who was there keeps the storage that is retired; everybody else finds the one that was saved
    have hparted := parted_load hp r.current.settled
    have hnext' : p.next (.dropSnapshot sid) = { p with snapshots := p.snapshots.erase sid } := congrArg Prod.snd hdrop
    rw [hnext, hnext']
    refine ⟨congrArg Prod.fst hload, restores_load hr, fun cs => ⟨?_, ?_⟩, congrArg Prod.fst hdrop, rfl,
      fun other hne => (Dict.get?_erase ..).trans (if_neg hne.symm)⟩
    · exact hparted.session?_after cs hq hp fun id _ => (session?_load hp _ id).symm
    · exact hparted.sameFrom_after cs hq hq (.refl _ _)
  -- whatever the repository knows was saved, so what was never saved it does not know
  · have hget : p.snapshots.get? sid = none := by
      cases hget : p.snapshots.get? sid with
      | none => rfl
      | some st =>
        obtain ⟨r, hsaved, -⟩ := exists_saved_of_get?_snapshots as hget
        exact absurd ⟨r, hsaved⟩ hnone
    constructor
    · show p.orSame (p.loadSnapshot sid) = _
      unfold loadSnapshot
      rw [hget]
      rfl
    · show p.orSame (p.dropSnapshot sid) = _
      unfold dropSnapshot Dict.contains
      rw [hget]
      rfl

end Repository

/-- An identifier that is drawn for a snapshot. -/
def Sample.kept : Sample.scalars.uuid := Uuid.mk 7

/-- The published item is saved beside a second one that is not published; then a third transaction replaces it, and the
snapshot is loaded a first time for a fourth one that adds another item. -/
def Sample.savedBetween : List (Action (Sample.catalog "sample")) :=
  Sample.oneItem ++ [.start { writeMode := .immediate }, .statement 2 (.save .item (Sample.numbered 2 "second")),
    .makeSnapshot Sample.kept, .start {}, .statement 3 (.save .item (Sample.numbered 1 "changed")), .commit 3,
    .loadSnapshot Sample.kept, .start {}, .statement 4 (.save .item (Sample.numbered 3 "third")), .commit 4]

open Sample in
theorem Repository.snapshots_restore_savedBetween :
    let p := ({} : Repository (catalog "sample")).after savedBetween
    let q := p.next (.loadSnapshot kept)
    (p.committed .item).length = 2 ∧ q.version = 1 ∧
      (∀ options, ((q.begun options).rows .item).map (fun p => Item.payload p.2) = ["first"]) ∧
      (q.perform (.commit 2)).1 = .ok () ∧ (q.next (.commit 2)).current = q.current ∧
      let p' := p.next (.dropSnapshot kept)
      p'.perform (.loadSnapshot kept) = (.error (StoreError.snapshotNotFound (scalars.uuid.text kept)).toError, p') := by
  intro p q
  have hfresh : DrawsFresh savedBetween := List.nodup_singleton kept
  have hfresh' : DrawsFresh (savedBetween ++ [.dropSnapshot kept]) := List.nodup_singleton kept
  have hsaved : Saved savedBetween kept (({} : Repository (catalog "sample")).after (savedBetween.take 6)) :=
    ⟨savedBetween.take 6, savedBetween.drop 7, rfl, rfl, by simp [savedBetween, oneItem]⟩
  obtain ⟨-, hrestores, happart, -⟩ := (snapshots_restore savedBetween hfresh kept).1 _ hsaved
  have hdropped : ¬∃ r, Saved (savedBetween ++ [.dropSnapshot kept]) kept r := by
    rintro ⟨r, hr⟩
    cases get?_snapshots_of_saved hfresh' hr
  have hfails := (snapshots_restore (savedBetween ++ [.dropSnapshot kept]) hfresh' kept).2 hdropped
  rw [after_concat] at hfails
  have hcommitted : ((({} : Repository (catalog "sample")).after (savedBetween.take 6)).committed .item).map
      (fun p => Item.payload p.2) = ["first"] := by decide +kernel
  refine ⟨by decide +kernel, hrestores.version.trans rfl, fun options =>
    (congrArg _ (hrestores.rows options .item)).trans hcommitted, rfl, (happart [.commit 2]).2.current, hfails.1⟩

end EntityStore
