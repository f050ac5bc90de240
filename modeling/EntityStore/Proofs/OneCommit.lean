import EntityStore.Proofs.Programs
import EntityStore.Proofs.Serializability
/-!
# A call publishes once or not at all

`Manager.tx_publishes_once` puts the account of a call together with the chronicle of the repository: of all that the
attempts of a call have written, at most what the last one wrote is published, as one version and only if the result
of the call stands for it, and nothing of the rest stays in the store.
-/
namespace EntityStore

variable {X : Scalars} {κ : Type} [DecidableEq κ] {C : κ → EntityType X} {V α : Type}

/-- Of what some new transactions have written, nothing is published but by their commits. -/
theorem Chronicle.published_by {before as later : List (Action C)} {ids : List TxId} {commit? : Option Commit}
    (hfresh : ∀ id ∈ ids, (({} : Repository C).after before).lastTx < id)
    (hcommits : (({} : Repository C).after before).commitsOf ids (as ++ later) = commit?.toList) {p : Publication C}
    (hp : (({} : Chronicle C).along {} (before ++ as ++ later)).Holds p) (hid : p.tx ∈ ids) :
    ∃ k ∈ commit?, k.tx = p.tx ∧ k.version = some p.version := by
  obtain ⟨k, hk, hkp⟩ := Chronicle.exists_commit_of_holds hp
  rw [List.append_assoc, Repository.commits_append] at hk
  rcases List.mem_append.1 hk with hk | hk
  · have hle := Repository.le_lastTx_of_mem_commits Repository.sound_empty k hk
    exact absurd (hfresh p.tx hid) (Nat.not_lt_of_le (hkp.1 ▸ hle))
  · have hmem : k ∈ (({} : Repository C).after before).commitsOf ids (as ++ later) :=
      List.mem_filter.2 ⟨hk, decide_eq_true (hkp.1 ▸ hid)⟩
    rw [hcommits] at hmem
    exact ⟨k, Option.mem_toList.1 hmem, hkp⟩

namespace Manager

/-- **A call publishes what one attempt has written, or nothing, and leaves nothing else behind.**  Whatever failures
are queued, whatever its code does beside its own transaction, and whatever is done after it: if its result stands for
a commit, then the last attempt, which came to that result, is the only one that ever commits, and all that the call
publishes is of this attempt and of one version; else none of its attempts ever publishes anything. -/
theorem tx_publishes_once (before : List (Action C)) (m : Manager) (site : CallSite) {body : Body C V α}
    (hbody : body.LeavesEnd) {s : Shared C V} (hs : s.store.inner = ({} : Repository C).after before) :
    let result := (m.tx site body s).1
    let r := (m.tx site body s).2.store.inner
    let made := m.made site body s
    let ids := made.map Made.tx
    ∃ (as : List (Action C)) (commit? : Option Commit), r = s.store.inner.after as ∧
      commit?.isSome = m.options.publishes result ∧
      (∀ k ∈ commit?, made.getLast? = some { tx := k.tx, result }) ∧
      (∀ later, s.store.inner.commitsOf ids (as ++ later) = commit?.toList ∧
        let ch := ({} : Chronicle C).along {} (before ++ as ++ later)
        ch.Tells (r.after later) ∧
          ∀ p, ch.Holds p → p.tx ∈ ids → ∃ k ∈ commit?, k.tx = p.tx ∧ k.version = some p.version) ∧
      ∀ id ∈ ids, r.session? id = none ∧
        ∀ home ≤ r.retired.length, ∀ k c, (r.storage home).draft? id k c = none := by
  intro result r made ids
  have hsound : s.store.inner.Sound := hs ▸ Repository.sound_after Repository.sound_empty before
  obtain ⟨as, commit?, hr, hcounts, hlast, hcommits, hgone⟩ := m.tx_spec site hbody hsound
  change r = s.store.inner.after as at hr
  have hids : ∀ id ∈ ids, s.store.inner.lastTx < id ∧ r.Gone id := by
    intro id hid
    obtain ⟨x, hx, rfl⟩ := List.mem_map.1 hid
    exact ⟨(hgone x hx).1, hr ▸ (hgone x hx).2⟩
  have hrs : r.Sound := hr ▸ Repository.sound_after hsound as
  refine ⟨as, commit?, hr, hcounts, hlast, fun later => ?_, fun id hid => ⟨(hids id hid).2.absent, ?_⟩⟩
  · have hall : s.store.inner.commitsOf ids (as ++ later) = commit?.toList := by
      rw [Repository.commitsOf_append, hcommits, ← hr,
        Repository.commitsOf_of_gone hrs (fun id hid => (hids id hid).2) later, List.append_nil]
    refine ⟨hall, ?_, fun p hp hid => ?_⟩
    · have htells := Chronicle.tells_along Chronicle.tells_empty Repository.sound_empty (before ++ as ++ later)
      rw [Repository.after_append, Repository.after_append, ← hs, ← hr] at htells
      exact htells
    · exact Chronicle.published_by (fun id hid => hs ▸ (hids id hid).1) (hs ▸ hall) hp hid
  · exact fun home hhome k c => (hids id hid).2.draft?_eq_none hrs hhome k c

end Manager

namespace Sample

/-- Changes an item, after another transaction has published one more. -/
def relabel (n : Nat) : Program (catalog "sample") Nat .attempt :=
  .aside (.ofOp (.save .item (numbered n "aside")) fun _ => n) fun _ =>
    .work (.ofOp (.save .item (numbered 1 "changed")) fun _ => n) fun result =>
      .beforeCommit (.record .info "almost" (.finish (.ok n))) (.finish result)

/-- One item is published, and the next start and the first commits of attempts after it fail. -/
def failing : Shared (catalog "sample") Nat where
  store := {
    inner := ({} : Repository (catalog "sample")).after oneItem
    faults := { start := [.optimisticLock "start"], commit := [.optimisticLock "first", .optimisticLock "second"] } }

/-- A manager that makes many attempts. -/
def caller : Manager := { token := ⟨0⟩ }

end Sample

open Sample in
theorem Manager.tx_publishes_once_after_failures :
    let site : CallSite := ⟨"sample", 1⟩
    let body : Body (catalog "sample") Nat Nat := fun n a => (relabel n).denote a
    (caller.tx site body failing).1.toOption = some 3 ∧ (caller.made site body failing).map Made.tx = [2, 4, 6] ∧
      ∃ as k, (caller.tx site body failing).2.store.inner = failing.store.inner.after as ∧ k.tx = 6 ∧
        ∀ later, failing.store.inner.commitsOf [2, 4, 6] (as ++ later) = [k] := by
  intro site body
  have hbody : body.LeavesEnd := Program.leavesEnd fun n _ _ => ⟨trivial, trivial⟩
  have hstart : failing.store.inner = ({} : Repository (catalog "sample")).after oneItem := rfl
  have hresult : (caller.tx site body failing).1.toOption = some 3 := by decide +kernel
  have hids : (caller.made site body failing).map Made.tx = [2, 4, 6] := by decide +kernel
  obtain ⟨as, commit?, hr, hcounts, hlast, hlater, -⟩ := tx_publishes_once oneItem caller site hbody hstart
  dsimp only at hr hcounts hlast hlater
  have hpublishes : commit?.isSome = true := by
    rw [hcounts, TxOptions.publishes, hresult]
    rfl
  obtain ⟨k, rfl⟩ := Option.isSome_iff_exists.1 hpublishes
  refine ⟨hresult, hids, as, k, hr, ?_, fun later => ?_⟩
  · have h := congrArg (Option.map Made.tx) (hlast k rfl)
    rw [← List.getLast?_map, hids] at h
    exact (Option.some.inj h).symm
  · rw [← hids]
    exact (hlater later).1

end EntityStore
