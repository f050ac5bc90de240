import EntityStore.Proofs.Locking
import EntityStore.Proofs.Visibility
/-!
# What a statement depends on

A statement is made of few steps: it locks, reads, writes and remembers.  A relation between sessions that these steps
respect (`Session.Congruence`) is respected by every statement (`TableOp.run_congruence`), if the two transactions see
the same rows under the keys that the first one's locks cover afterwards; a statement that leaves the snapshot open has
not looked at any row.  Locks are thus a bound on what a statement depends on: a point read depends on its row, present
or not, a scan on the rows that belong to it, and what the cache knows on nothing.  `TableOp.run_congr` is the case of
two transactions in the same inner state (`Transaction.core`) that queue their writes.
-/
namespace EntityStore

variable {X : Scalars} {κ : Type} [DecidableEq κ] {C : κ → EntityType X}

/-! ## Answers in terms of the rows that are seen -/

namespace Session

/-- Whether a scan has to look at a row: it is wanted, or cannot be judged. -/
def judged (keep : Cells X → Except Error Bool) (c : Cells X) : Bool :=
  match keep c with
  | .ok wanted => wanted
  | .error _ => true

theorem keepRows_filter {ρ : Type} (keep : Cells X → Except Error Bool) : ∀ rows : List (Cells X × ρ),
    keepRows keep (rows.filter (fun p => judged keep p.1)) = keepRows keep rows
  | [] => rfl
  | (c, row) :: rest => by
    have ih := keepRows_filter keep rest
    rw [List.filter_cons, keepRows]
    cases hk : keep c with
    | error e =>
      have hj : judged keep c = true := by unfold judged; rw [hk]
      rw [if_pos hj, keepRows, hk]
    | ok wanted =>
      have hj : judged keep c = wanted := by unfold judged; rw [hk]
      cases wanted with
      | true => rw [if_pos hj, keepRows, hk, ih]
      | false =>
        rw [if_neg (by rw [hj]; exact Bool.false_ne_true), ih]
        cases keepRows keep rest <;> rfl

/-- The rows of a table that are wanted, within the limits of a scan. -/
def pick (t : Transaction C) (k : κ) (keep : Cells X → Except Error Bool) (rows : List (Cells X × (C k).Entity)) :
    Except Error (List (C k).Entity) :=
  match keepRows keep rows with
  | .error e => .error e
  | .ok rows =>
    match t.checkScanSize (C k).table rows.length with
    | .error e => .error e.toError
    | .ok () => .ok rows

omit [DecidableEq κ] in
theorem pick_nil (t : Transaction C) (k : κ) (keep : Cells X → Except Error Bool) : pick t k keep [] = .ok [] := by
  unfold pick keepRows Transaction.checkScanSize
  cases t.options.scan <;> simp

theorem collect_eq_pick (s : Session C) (k : κ) (keep : Cells X → Except Error Bool) (st : Storage C) (v : Nat) :
    s.collect k keep (st.shard? k) v = pick s.tx k keep (st.rows s.tx.id v k) := by
  unfold Storage.rows
  cases st.shard? k with
  | none => exact (pick_nil ..).symm
  | some shard => rfl

/-- The rows that each of the keys asks for, one key after another. -/
def pickKeys (t : Transaction C) (k : κ) (row : Cells X → Option (C k).Entity) (rows : List (Cells X × (C k).Entity)) :
    List (Cells X) → Except Error (List (C k).Entity)
  | [] => .ok []
  | c :: rest =>
    match (if Cells.isPartial c then pick t k (fun key => .ok (Cells.agrees c key)) rows else .ok (row c).toList) with
    | .error e => .error e
    | .ok here =>
      match pickKeys t k row rows rest with
      | .error e => .error e
      | .ok more => .ok (here ++ more)

omit [DecidableEq κ] in
theorem pickKeys_nil (t : Transaction C) (k : κ) : ∀ keys, pickKeys t k (fun _ => none) [] keys = .ok []
  | [] => rfl
  | c :: rest => by
    rw [pickKeys, pickKeys_nil t k rest, pick_nil]
    split <;> simp_all

omit [DecidableEq κ] in
theorem rowsOfKeys_eq_pickKeys (s : Session C) (k : κ) (shard : Shard (C k)) (v : Nat) : ∀ keys,
    s.rowsOfKeys k shard v keys = pickKeys s.tx k (shard.read s.tx.id v) (shard.rows s.tx.id v) keys
  | [] => rfl
  | c :: rest => by
    rw [rowsOfKeys, pickKeys, rowsOfKeys_eq_pickKeys s k shard v rest]
    rfl

theorem rowsOfKeys_storage (s : Session C) (k : κ) (st : Storage C) (v : Nat) (keys : List (Cells X)) :
    (match st.shard? k with
      | none => .ok []
      | some shard => s.rowsOfKeys k shard v keys) =
    pickKeys s.tx k (st.read s.tx.id v k) (st.rows s.tx.id v k) keys := by
  unfold Storage.read Storage.rows
  cases st.shard? k with
  | none => exact (pickKeys_nil ..).symm
  | some shard => exact rowsOfKeys_eq_pickKeys ..

omit [DecidableEq κ] in
theorem pick_congr {t t' : Transaction C} (h : t'.options.scan = t.options.scan) (k : κ)
    (keep : Cells X → Except Error Bool) (rows : List (Cells X × (C k).Entity)) :
    pick t' k keep rows = pick t k keep rows := by
  unfold pick Transaction.checkScanSize
  rw [h]

omit [DecidableEq κ] in
theorem pickKeys_congr {t t' : Transaction C} (h : t'.options.scan = t.options.scan) (k : κ)
    (row : Cells X → Option (C k).Entity) (rows : List (Cells X × (C k).Entity)) : ∀ keys,
      pickKeys t' k row rows keys = pickKeys t k row rows keys
  | [] => rfl
  | c :: rest => by rw [pickKeys, pickKeys, pickKeys_congr h k row rows rest, pick_congr h]

end Session

/-! ## Relations that statements respect -/

namespace Session

/-- Two transactions see the same under all keys that some locks cover. -/
def Agree (locks : Locks X κ) (s₁ s₂ : Session C) : Prop := ∀ k c, locks.covers k c = true → s₁.row k c = s₂.row k c

theorem Reads.row_eq {s s' : Session C} (h : Reads s s') (k : κ) (c : Cells X) : s'.row k c = s.row k c := by
  unfold row
  rw [h.storage, h.id, h.version_eq]

theorem Reads.rows_eq {s s' : Session C} (h : Reads s s') (k : κ) : s'.rows k = s.rows k := by
  unfold rows
  rw [h.storage, h.id, h.version_eq]

/-- Two steps with the same answer that leave related sessions. -/
def Matches (R : Session C → Session C → Prop) {α : Type} (r₁ r₂ : α × Session C) : Prop := r₁.1 = r₂.1 ∧ R r₁.2 r₂.2

omit [DecidableEq κ] in
theorem Matches.of {R : Session C → Session C → Prop} {α : Type} {answer : α} {s₁ s₂ : Session C} (h : R s₁ s₂) :
    Matches R (answer, s₁) (answer, s₂) := ⟨rfl, h⟩

/-- A relation between sessions that the steps of statements respect, but for writes. -/
structure Congruence (R : Session C → Session C → Prop) : Prop where
  cache : ∀ {s₁ s₂}, R s₁ s₂ → ∀ k, s₁.tx.cache k = s₂.tx.cache k
  limits : ∀ {s₁ s₂}, R s₁ s₂ → s₁.tx.options.scan = s₂.tx.options.scan
  sound : ∀ {s₁ s₂}, R s₁ s₂ → s₁.storage.Sound ∧ s₂.storage.Sound
  lockRow : ∀ {s₁ s₂}, R s₁ s₂ → ∀ k c, R (s₁.lockRow k c) (s₂.lockRow k c)
  lockScan : ∀ {s₁ s₂}, R s₁ s₂ → ∀ k scan, R (s₁.lockScan k scan) (s₂.lockScan k scan)
  setCache : ∀ {s₁ s₂}, R s₁ s₂ → ∀ k c, R (s₁.setCache k c) (s₂.setCache k c)
  openTable : ∀ {s₁ s₂}, R s₁ s₂ → ∀ k, R (s₁.openTable k) (s₂.openTable k)
  read : ∀ {s₁ s₂}, R s₁ s₂ → ∀ {α : Type} (k : κ) (action : String) (summary : α → String)
    (f₁ f₂ : Option (Shard (C k)) → Nat → Except Error α),
    (s₁.tx.closedBy = none → f₁ (s₁.storage.shard? k) s₁.version = f₂ (s₂.storage.shard? k) s₂.version) →
      Matches R (s₁.read k action summary f₁) (s₂.read k action summary f₂)

namespace Congruence

variable {R : Session C → Session C → Prop} {s₁ s₂ : Session C} {k : κ}

theorem pick (hR : Congruence R) (h : R s₁ s₂) (keep : Cells X → Except Error Bool)
    (hrow : ∀ c, judged keep c = true → s₁.row k c = s₂.row k c) :
    Session.pick s₁.tx k keep (s₁.rows k) = Session.pick s₂.tx k keep (s₂.rows k) := by
  obtain ⟨hs₁, hs₂⟩ := hR.sound h
  have hrows : (s₁.rows k).filter (fun p => judged keep p.1) = (s₂.rows k).filter (fun p => judged keep p.1) := by
    refine Ascending.ext (Ascending.filter (hs₁.ascending_rows ..) _) (Ascending.filter (hs₂.ascending_rows ..) _)
      fun p => ?_
    obtain ⟨c, entity⟩ := p
    rw [List.mem_filter, List.mem_filter]
    refine and_congr_left fun hj => ?_
    refine (hs₁.mem_rows ..).trans (Iff.trans ?_ (hs₂.mem_rows ..).symm)
    have := hrow c hj
    unfold row at this
    rw [this]
  have hsize : s₁.tx.checkScanSize = s₂.tx.checkScanSize := by
    funext table rows
    unfold Transaction.checkScanSize
    rw [hR.limits h]
  unfold Session.pick
  rw [← keepRows_filter keep (s₁.rows k), ← keepRows_filter keep (s₂.rows k), hrows, hsize]

theorem pickKeys (hR : Congruence R) (h : R s₁ s₂) : ∀ {keys : List (Cells X)},
    (∀ c ∈ keys, Cells.isPartial c = false → s₁.row k c = s₂.row k c) →
    (∀ c ∈ keys, Cells.isPartial c = true → ∀ d, Cells.agrees c d = true → s₁.row k d = s₂.row k d) →
      Session.pickKeys s₁.tx k (s₁.row k) (s₁.rows k) keys = Session.pickKeys s₂.tx k (s₂.row k) (s₂.rows k) keys
  | [], _, _ => rfl
  | c :: rest, hfull, hpartial => by
    have hrest := hR.pickKeys h (fun c hc => hfull c (List.mem_cons_of_mem _ hc))
      (fun c hc => hpartial c (List.mem_cons_of_mem _ hc))
    rw [Session.pickKeys, Session.pickKeys, hrest]
    cases hp : Cells.isPartial c with
    | true =>
      have := hR.pick h (fun key => .ok (Cells.agrees c key)) (hpartial c List.mem_cons_self hp)
      simp only [if_true]
      rw [this]
    | false =>
      have := hfull c List.mem_cons_self hp
      simp only [Bool.false_eq_true, if_false]
      rw [this]

theorem findUnknown (hR : Congruence R) (h : R s₁ s₂) (id : (C k).Id) {c : Cells X}
    (hrow : s₁.tx.closedBy = none → s₁.row k c = s₂.row k c) :
    Matches R (s₁.findUnknown k id c) (s₂.findUnknown k id c) := by
  have hr := hR.read (hR.lockRow h k c) k s!"find({(C k).idText id})" (rowText k)
    (fun shard v => .ok (shard.bind (fun shard => shard.read (s₁.lockRow k c).tx.id v c)))
    (fun shard v => .ok (shard.bind (fun shard => shard.read (s₂.lockRow k c).tx.id v c)))
    (fun ho => congrArg Except.ok (hrow ho))
  unfold Session.findUnknown
  dsimp only
  generalize (s₁.lockRow k c).read k _ _ _ = r₁ at hr
  generalize (s₂.lockRow k c).read k _ _ _ = r₂ at hr
  obtain ⟨answer, s₁'⟩ := r₁
  obtain ⟨answer', s₂'⟩ := r₂
  obtain ⟨rfl, ht⟩ := hr
  cases answer with
  | error e => exact ⟨rfl, ht⟩
  | ok row =>
    dsimp only
    rw [hR.cache ht]
    exact ⟨rfl, hR.setCache ht k _⟩

theorem find_of_row (hR : Congruence R) (h : R s₁ s₂) (id : (C k).Id)
    (hrow : s₁.tx.closedBy = none → ∀ c, (C k).flatten id = .ok c → Cells.isPartial c = false →
      (s₁.tx.cache k).contains id = false → s₁.row k c = s₂.row k c) :
    Matches R (s₁.find k id) (s₂.find k id) := by
  unfold Session.find
  rw [← hR.cache h]
  split
  · exact ⟨rfl, h⟩
  · rename_i c hc
    split
    · exact ⟨rfl, h⟩
    · rename_i hpartial
      split
      · exact ⟨rfl, h⟩
      · rename_i hunknown
        exact hR.findUnknown h id fun ho => hrow ho c hc (by simpa using hpartial) (by simpa using hunknown)

theorem find (hR : Congruence R) (h : R s₁ s₂) (id : (C k).Id)
    (ha : s₁.tx.closedBy = none → (s₁.find k id).2.tx.snapshot ≠ none → Agree (s₁.find k id).2.tx.locks s₁ s₂) :
    Matches R (s₁.find k id) (s₂.find k id) := by
  refine hR.find_of_row h id fun ho c hc hpartial hunknown => ?_
  have hfind : s₁.find k id = s₁.findUnknown k id c := by
    unfold Session.find
    simp only [hc, hpartial, hunknown, Bool.false_eq_true, if_false]
  rw [hfind, locks_findUnknown] at ha
  refine ha ho ?_ k c (Locks.covers_lockRow_self ..)
  rw [snapshot_findUnknown ho]
  exact Option.some_ne_none _

theorem lockIds (hR : Congruence R) : ∀ (ids : List (C k).Id) {s₁ s₂ : Session C}, R s₁ s₂ →
    Matches R (s₁.lockIds k ids) (s₂.lockIds k ids)
  | [], _, _, h => ⟨rfl, h⟩
  | id :: rest, s₁, s₂, h => by
    rw [Session.lockIds, Session.lockIds]
    cases (C k).flatten id with
    | error e => exact ⟨rfl, h⟩
    | ok c =>
      have hl : R (if Cells.isPartial c = true then s₁.lockScan k (.agreeing c) else s₁.lockRow k c)
          (if Cells.isPartial c = true then s₂.lockScan k (.agreeing c) else s₂.lockRow k c) := by
        split
        · exact hR.lockScan h k _
        · exact hR.lockRow h k _
      have hr := hR.lockIds rest hl
      dsimp only
      generalize Session.lockIds _ k rest = r₁ at hr
      generalize Session.lockIds _ k rest = r₂ at hr
      obtain ⟨answer, s₁'⟩ := r₁
      obtain ⟨answer', s₂'⟩ := r₂
      obtain ⟨rfl, ht⟩ := hr
      cases answer <;> exact ⟨rfl, ht⟩

end Congruence

section

variable {k : κ}

theorem keys_of_lockIds (k : κ) : ∀ (ids : List (C k).Id) {s : Session C} {keys : List (Cells X)},
    (s.lockIds k ids).1 = .ok keys → (∀ id ∈ ids, ∃ c ∈ keys, (C k).flatten id = .ok c) ∧
      ∀ c ∈ keys, ∃ id ∈ ids, (C k).flatten id = .ok c
  | [], _, keys, h => by
    cases h
    exact ⟨nofun, nofun⟩
  | id :: rest, s, keys, h => by
    rw [lockIds] at h
    split at h
    · cases h
    · rename_i c hc
      dsimp only at h
      split at h
      · cases h
      · rename_i more _ hr
        cases h
        obtain ⟨hkey, hid⟩ := keys_of_lockIds k rest (congrArg Prod.fst hr)
        refine ⟨fun id' hid' => ?_, fun c' hc' => ?_⟩
        · rcases List.mem_cons.1 hid' with rfl | hid'
          · exact ⟨c, List.mem_cons_self, hc⟩
          · obtain ⟨c', hc', hflat⟩ := hkey id' hid'
            exact ⟨c', List.mem_cons_of_mem c hc', hflat⟩
        · rcases List.mem_cons.1 hc' with rfl | hc'
          · exact ⟨id, List.mem_cons_self, hc⟩
          · obtain ⟨id', hid', hflat⟩ := hid c' hc'
            exact ⟨id', List.mem_cons_of_mem id hid', hflat⟩

theorem fst_lockIds (k : κ) : ∀ (ids : List (C k).Id) (s s' : Session C), (s.lockIds k ids).1 = (s'.lockIds k ids).1
  | [], _, _ => rfl
  | id :: rest, s, s' => by
    rw [lockIds, lockIds]
    cases (C k).flatten id with
    | error e => rfl
    | ok c =>
      dsimp only
      have hrest := fst_lockIds k rest (if Cells.isPartial c = true then s.lockScan k (.agreeing c) else s.lockRow k c)
        (if Cells.isPartial c = true then s'.lockScan k (.agreeing c) else s'.lockRow k c)
      generalize lockIds _ k rest = r at hrest ⊢
      generalize lockIds _ k rest = r' at hrest ⊢
      obtain ⟨answer, s₁⟩ := r
      obtain ⟨answer', s₁'⟩ := r'
      cases hrest
      cases answer <;> rfl

theorem exists_keys_of_lockIds (k : κ) : ∀ (ids : List (C k).Id) (s : Session C),
    (∀ id ∈ ids, ∃ c, (C k).flatten id = .ok c) → ∃ keys, (s.lockIds k ids).1 = .ok keys
  | [], _, _ => ⟨[], rfl⟩
  | id :: rest, s, h => by
    obtain ⟨c, hc⟩ := h id List.mem_cons_self
    rw [lockIds, hc]
    dsimp only
    obtain ⟨keys, hkeys⟩ := exists_keys_of_lockIds k rest
      (if Cells.isPartial c = true then s.lockScan k (.agreeing c) else s.lockRow k c)
      fun id' hid' => h id' (List.mem_cons_of_mem id hid')
    split
    · rename_i hr
      rw [hr] at hkeys
      cases hkeys
    · exact ⟨_, rfl⟩

theorem findUncached_eq_read {s : Session C} {ids : List (C k).Id} {keys : List (Cells X)} {schema : Schema}
    (hschema : (C k).schema = .ok schema) (hkeys : (s.lockIds k ids.eraseDups).1 = .ok keys) :
    let s₁ := (s.lockIds k ids.eraseDups).2
    s.findUncached k ids = s₁.read k s!"find_uncached({keys.length} ids)" (rowsText k) fun shard v =>
      match shard with
      | none => .ok []
      | some shard => s₁.rowsOfKeys k shard v keys := by
  unfold findUncached
  rw [hschema]
  generalize s.lockIds k ids.eraseDups = locked at hkeys
  obtain ⟨answer, s₁⟩ := locked
  cases hkeys
  rfl

theorem Reads.rowsOfKeys_eq {s s₁ : Session C} (h : Reads s s₁) (keys : List (Cells X)) :
    (match s₁.storage.shard? k with
      | none => .ok []
      | some shard => s₁.rowsOfKeys k shard s₁.version keys) = Session.pickKeys s.tx k (s.row k) (s.rows k) keys := by
  have hrow : s₁.storage.read s₁.tx.id s₁.version k = s.row k := funext (h.row_eq k)
  have hrows : s₁.storage.rows s₁.tx.id s₁.version k = s.rows k := h.rows_eq k
  rw [rowsOfKeys_storage s₁ k s₁.storage, hrow, hrows]
  exact pickKeys_congr (congrArg TxOptions.scan h.options) k _ _ keys

theorem covers_lockIds : ∀ (ids : List (C k).Id) (s : Session C) (keys : List (Cells X)), (s.lockIds k ids).1 = .ok keys →
    ∀ c ∈ keys, ∀ d, (if Cells.isPartial c then Cells.agrees c d = true else c = d) →
      (s.lockIds k ids).2.tx.locks.covers k d = true
  | [], _, _, hok, c, hc, _, _ => by
    cases hok
    cases hc
  | id :: rest, s, keys, hok, c, hc, d, hd => by
    rw [Session.lockIds] at hok ⊢
    cases hf : (C k).flatten id with
    | error e =>
      rw [hf] at hok
      cases hok
    | ok c' =>
      rw [hf] at hok
      dsimp only at hok ⊢
      have hgrows := Grows.lockIds k rest
        (if Cells.isPartial c' = true then s.lockScan k (.agreeing c') else s.lockRow k c')
      have ih := covers_lockIds rest
        (if Cells.isPartial c' = true then s.lockScan k (.agreeing c') else s.lockRow k c')
      have hself : ∀ d, (if Cells.isPartial c' then Cells.agrees c' d = true else c' = d) →
          (if Cells.isPartial c' = true then s.lockScan k (.agreeing c')
            else s.lockRow k c').tx.locks.covers k d = true := by
        intro d hd
        split
        · rename_i hp
          rw [if_pos hp] at hd
          exact Locks.covers_lockScan_self (show Scan.covers (.agreeing c') d = true from hd) k
        · rename_i hp
          rw [if_neg hp] at hd
          exact hd ▸ Locks.covers_lockRow_self ..
      generalize Session.lockIds _ k rest = r at hok hgrows ih
      obtain ⟨answer, s'⟩ := r
      cases answer with
      | error e => cases hok
      | ok more =>
        cases hok
        -- the lock for the first identifier is kept while the others are locked
        rcases List.mem_cons.1 hc with rfl | hc
        · exact hgrows k d (hself d hd)
        · exact ih more rfl c hc d hd

theorem covers_lockScan (s : Session C) (scan : Scan X) {c : Cells X} (h : scan.covers c = true) :
    (s.lockScan k scan).tx.locks.covers k c = true := Locks.covers_lockScan_self h k

end

namespace Congruence

variable {R : Session C → Session C → Prop} {s₁ s₂ : Session C} {k : κ}

theorem findUncached_of_rows (hR : Congruence R) (h : R s₁ s₂) (ids : List (C k).Id)
    (hrow : s₁.tx.closedBy = none → ∀ id ∈ ids, ∀ p, (C k).flatten id = .ok p → ∀ c,
      (if Cells.isPartial p = true then Cells.agrees p c = true else p = c) → s₁.row k c = s₂.row k c) :
    Matches R (s₁.findUncached k ids) (s₂.findUncached k ids) := by
  unfold Session.findUncached
  cases hs : (C k).schema with
  | error e => exact ⟨rfl, h⟩
  | ok schema =>
    have hl := hR.lockIds (k := k) ids.eraseDups h
    have hkeys := fun keys => @keys_of_lockIds _ _ _ C k ids.eraseDups s₁ keys
    have hreads₁ := Reads.lockIds k ids.eraseDups s₁
    have hreads₂ := Reads.lockIds k ids.eraseDups s₂
    dsimp only
    generalize s₁.lockIds k ids.eraseDups = r₁ at hl hkeys hreads₁
    generalize s₂.lockIds k ids.eraseDups = r₂ at hl hreads₂
    obtain ⟨answer, s₁'⟩ := r₁
    obtain ⟨answer', s₂'⟩ := r₂
    obtain ⟨rfl, ht⟩ := hl
    cases answer with
    | error e => exact ⟨rfl, ht⟩
    | ok keys =>
      dsimp only
      refine hR.read ht k _ _ _ _ fun ho => ?_
      have hsame : ∀ p ∈ keys, ∀ c, (if Cells.isPartial p = true then Cells.agrees p c = true else p = c) →
          s₁'.row k c = s₂'.row k c := by
        intro p hp c hc
        obtain ⟨id, hid, hflat⟩ := (hkeys keys rfl).2 p hp
        rw [hreads₁.row_eq, hreads₂.row_eq]
        exact hrow (hreads₁.closedBy ▸ ho) id (List.mem_eraseDups.1 hid) p hflat c hc
      refine (rowsOfKeys_storage s₁' k s₁'.storage s₁'.version keys).trans
        (Eq.trans ?_ (rowsOfKeys_storage s₂' k s₂'.storage s₂'.version keys).symm)
      refine hR.pickKeys ht (fun c hc hp => hsame c hc c ?_) fun c hc hp d hd => hsame c hc d ?_
      · rw [if_neg (by rw [hp]; exact Bool.false_ne_true)]
      · rw [if_pos hp]
        exact hd

theorem findUncached (hR : Congruence R) (h : R s₁ s₂) (ids : List (C k).Id)
    (ha : s₁.tx.closedBy = none → (s₁.findUncached k ids).2.tx.snapshot ≠ none →
      Agree (s₁.findUncached k ids).2.tx.locks s₁ s₂) :
    Matches R (s₁.findUncached k ids) (s₂.findUncached k ids) := by
  cases hs : (C k).schema with
  | error e =>
    unfold Session.findUncached
    rw [hs]
    exact ⟨rfl, h⟩
  | ok schema =>
    cases hlock : (s₁.lockIds k ids.eraseDups).1 with
    | error e =>
      -- neither of the two looks at any row
      have hl := hR.lockIds (k := k) ids.eraseDups h
      have hl₂ := hl.1.symm.trans hlock
      unfold Session.findUncached
      rw [hs, show s₁.lockIds k ids.eraseDups = (.error e, _) from Prod.ext hlock rfl,
        show s₂.lockIds k ids.eraseDups = (.error e, _) from Prod.ext hl₂ rfl]
      exact ⟨rfl, hl.2⟩
    | ok keys =>
      refine hR.findUncached_of_rows h ids fun ho id hid p hp c hc => ?_
      obtain ⟨p', hp', hflat⟩ := (keys_of_lockIds k ids.eraseDups hlock).1 id (List.mem_eraseDups.2 hid)
      rw [hp] at hflat
      cases hflat
      have hclosed : (s₁.lockIds k ids.eraseDups).2.tx.closedBy = none := (Reads.lockIds k _ s₁).closedBy.trans ho
      rw [findUncached_eq_read hs hlock, locks_read, snapshot_read hclosed] at ha
      exact ha ho (Option.some_ne_none _) k c (covers_lockIds ids.eraseDups s₁ keys hlock p hp' c hc)

/-- A read of identifiers through the cache depends on the rows that those ask for that the cache does not know. -/
theorem findMany_of_rows (hR : Congruence R) (h : R s₁ s₂) (ids : List (C k).Id)
    (hask : Matches R (s₁.findUncached k ((s₁.tx.cache k).unknown ids.eraseDups))
      (s₂.findUncached k ((s₁.tx.cache k).unknown ids.eraseDups))) :
    Matches R (s₁.findMany k ids) (s₂.findMany k ids) := by
  unfold Session.findMany
  rw [← hR.cache h]
  rcases (s₁.tx.cache k).merge_cases ids (fun wanted (s : Session C) => s.findUncached k wanted) with
    ⟨r, c, hm⟩ | ⟨g, hm⟩
  · rw [hm, hm]
    cases r <;> exact ⟨rfl, hR.setCache h k _⟩
  · rw [hm, hm, hask.1]
    generalize g (s₂.findUncached k _).1 = answer
    obtain ⟨result, c⟩ := answer
    cases result <;> exact ⟨rfl, hR.setCache hask.2 k _⟩

theorem findMany (hR : Congruence R) (h : R s₁ s₂) (ids : List (C k).Id)
    (ha : s₁.tx.closedBy = none → (s₁.findMany k ids).2.tx.snapshot ≠ none →
      Agree (s₁.findMany k ids).2.tx.locks s₁ s₂) :
    Matches R (s₁.findMany k ids) (s₂.findMany k ids) := by
  rcases (s₁.tx.cache k).merge_cases ids (fun wanted (s : Session C) => s.findUncached k wanted) with
    ⟨r, c, hm⟩ | ⟨g, hm⟩
  · unfold Session.findMany
    rw [← hR.cache h, hm, hm]
    cases r <;> exact ⟨rfl, hR.setCache h k _⟩
  · refine hR.findMany_of_rows h ids (hR.findUncached h _ ?_)
    unfold Session.findMany at ha
    rw [hm] at ha
    generalize g (s₁.findUncached k _).1 = answer at ha
    obtain ⟨result, c⟩ := answer
    cases result <;> exact ha

theorem absorbRows (hR : Congruence R) (h : R s₁ s₂) (rows : Except Error (List (C k).Entity)) :
    Matches R (s₁.absorbRows k rows) (s₂.absorbRows k rows) := by
  cases rows with
  | error e => exact ⟨rfl, h⟩
  | ok rows =>
    unfold Session.absorbRows
    rw [hR.cache h]
    exact ⟨rfl, hR.setCache h k _⟩

theorem scan (hR : Congruence R) (h : R s₁ s₂) (scan : Scan X) (action : String) (keep : Cells X → Except Error Bool)
    (hkeep : ∀ c, judged keep c = true → scan.covers c = true)
    (ha : s₁.tx.closedBy = none → ∀ c, scan.covers c = true → s₁.row k c = s₂.row k c) :
    Matches R
      (((s₁.lockScan k scan).read k action (rowsText k) ((s₁.lockScan k scan).collect k keep)).2.absorbRows k
        ((s₁.lockScan k scan).read k action (rowsText k) ((s₁.lockScan k scan).collect k keep)).1)
      (((s₂.lockScan k scan).read k action (rowsText k) ((s₂.lockScan k scan).collect k keep)).2.absorbRows k
        ((s₂.lockScan k scan).read k action (rowsText k) ((s₂.lockScan k scan).collect k keep)).1) := by
  have hl := hR.lockScan h k scan
  have hr := hR.read hl k action (rowsText k) ((s₁.lockScan k scan).collect k keep)
    ((s₂.lockScan k scan).collect k keep) fun ho => by
      rw [collect_eq_pick, collect_eq_pick]
      exact hR.pick hl keep fun c hc => ha ho c (hkeep c hc)
  rw [hr.1]
  exact hR.absorbRows hr.2 _

theorem findRange (hR : Congruence R) (h : R s₁ s₂) (r : Interval X)
    (ha : s₁.tx.closedBy = none → (s₁.findRange k r).2.tx.snapshot ≠ none →
      Agree (s₁.findRange k r).2.tx.locks s₁ s₂) :
    Matches R (s₁.findRange k r) (s₂.findRange k r) := by
  refine hR.scan h (.interval r) _ r.containsCells (fun c hc => ?_) fun ho c hc => ha ho ?_ k c ?_
  · unfold judged at hc
    unfold Scan.covers
    split at hc <;> simp_all
  · unfold Session.findRange
    dsimp only
    rw [snapshot_absorbRows, snapshot_read (show (s₁.lockScan k (.interval r)).tx.closedBy = none from ho)]
    exact Option.some_ne_none _
  · unfold Session.findRange
    dsimp only
    rw [locks_absorbRows, locks_read]
    exact covers_lockScan s₁ _ hc

theorem findAll (hR : Congruence R) (h : R s₁ s₂)
    (ha : s₁.tx.closedBy = none → (s₁.findAll k).2.tx.snapshot ≠ none → Agree (s₁.findAll k).2.tx.locks s₁ s₂) :
    Matches R (s₁.findAll k) (s₂.findAll k) := by
  refine hR.scan h .table _ (fun _ => .ok true) (fun _ _ => rfl) fun ho c hc => ha ho ?_ k c ?_
  · unfold Session.findAll
    dsimp only
    rw [snapshot_absorbRows, snapshot_read (show (s₁.lockScan k .table).tx.closedBy = none from ho)]
    exact Option.some_ne_none _
  · unfold Session.findAll
    dsimp only
    rw [locks_absorbRows, locks_read]
    exact covers_lockScan s₁ _ hc

theorem lockRowIf (hR : Congruence R) (h : R s₁ s₂) (lock : Bool) (k : κ) (c : Cells X) :
    R (s₁.lockRowIf lock k c) (s₂.lockRowIf lock k c) := by
  cases lock with
  | true => exact hR.lockRow h k c
  | false => exact h

theorem writeThrough {α : Type} (hR : Congruence R) {action : String} {w : Write (C k)}
    (hw : Matches R (s₁.write action k w) (s₂.write action k w)) (a : α) (cache : Session C → Cache (C k))
    (hc : ∀ {t₁ t₂ : Session C}, (∀ j, t₁.tx.cache j = t₂.tx.cache j) → cache t₁ = cache t₂) :
    Matches R (s₁.writeThrough action k w a cache) (s₂.writeThrough action k w a cache) := by
  unfold Session.writeThrough
  generalize s₁.write action k w = r₁ at hw
  generalize s₂.write action k w = r₂ at hw
  obtain ⟨answer, s₁'⟩ := r₁
  obtain ⟨answer', s₂'⟩ := r₂
  obtain ⟨rfl, ht⟩ := hw
  cases answer with
  | error e => exact ⟨rfl, ht⟩
  | ok u =>
    dsimp only
    rw [hc (hR.cache ht)]
    exact ⟨rfl, hR.setCache ht k _⟩

end Congruence

end Session

namespace TableOp

open Session

variable {R : Session C → Session C → Prop} {s₁ s₂ : Session C}

theorem runOpen_congruence_of_write (hR : Congruence R) (op : TableOp C) (hop : op.isWrite = true) (h : R s₁ s₂)
    (hw : ∀ {t₁ t₂ : Session C} (w : TableWrite C) (action : String), op.write? = some w → R t₁ t₂ → Reads s₁ t₁ →
      Reads s₂ t₂ → Matches R (t₁.write action w.kind w.write) (t₂.write action w.kind w.write)) :
    Matches R (op.runOpen s₁) (op.runOpen s₂) := by
  cases op.writing hop with
  | fails _ _ _ hrun =>
    rw [hrun, hrun]
    exact ⟨rfl, h⟩
  | writes k w id slot lock action a _ hwrite _ _ _ hrun =>
    rw [hrun, hrun]
    exact hR.writeThrough (hw ⟨k, w⟩ action hwrite (hR.lockRowIf h lock k w.cells) (Notes.lockRowIf ..).reads
      (Notes.lockRowIf ..).reads) a (fun s => (s.tx.cache k).setSlot id slot) fun hc => by rw [hc]

theorem runOpen_congruence (hR : Congruence R) (op : TableOp C) (h : R s₁ s₂)
    (ha : s₁.tx.closedBy = none → (op.runOpen s₁).2.tx.snapshot ≠ none → Agree (op.runOpen s₁).2.tx.locks s₁ s₂)
    (hw : ∀ {t₁ t₂ : Session C} (w : TableWrite C) (action : String), op.write? = some w → R t₁ t₂ → Reads s₁ t₁ →
      Reads s₂ t₂ → Matches R (t₁.write action w.kind w.write) (t₂.write action w.kind w.write)) :
    Matches R (op.runOpen s₁) (op.runOpen s₂) := by
  cases op with
  | find k id => exact hR.find h id ha
  | findMany k ids => exact hR.findMany h ids ha
  | findUncached k ids => exact hR.findUncached h ids ha
  | findRange k r => exact hR.findRange h r ha
  | findAll k => exact hR.findAll h ha
  | postLoad k row =>
    simp only [runOpen, Session.postLoad]
    rw [hR.cache h]
    exact ⟨rfl, hR.setCache h k _⟩
  | cache k op =>
    simp only [runOpen]
    rw [hR.cache h]
    exact ⟨rfl, hR.setCache h k _⟩
  | _ => exact runOpen_congruence_of_write hR _ rfl h hw

/-- **What the steps of statements respect, every statement respects**, if the rows that it locks are the same. -/
theorem run_congruence (hR : Congruence R) (op : TableOp C) (h : R s₁ s₂)
    (ha : s₁.tx.closedBy = none → (op.run s₁).2.tx.snapshot ≠ none → Agree (op.run s₁).2.tx.locks s₁ s₂)
    (hw : ∀ {t₁ t₂ : Session C} (w : TableWrite C) (action : String), op.write? = some w → R t₁ t₂ → Reads s₁ t₁ →
      Reads s₂ t₂ → Matches R (t₁.write action w.kind w.write) (t₂.write action w.kind w.write)) :
    Matches R (op.run s₁) (op.run s₂) := by
  have hreads₁ := Reads.openTable s₁ op.kind
  have hreads₂ := Reads.openTable s₂ op.kind
  refine op.runOpen_congruence hR (hR.openTable h op.kind) (fun ho hs k c hc => ?_) fun w action hop ht h₁ h₂ =>
    hw w action hop ht (hreads₁.trans h₁) (hreads₂.trans h₂)
  rw [hreads₁.row_eq, hreads₂.row_eq]
  exact ha (hreads₁.closedBy ▸ ho) hs k c hc

end TableOp

/-! ## Transactions in the same inner state -/

/-- The inner state of a transaction: all but its number, its place, its snapshot, its log and its caches. -/
def Transaction.core (t : Transaction C) : Transaction C :=
  { t with id := 0, home := 0, snapshot := none, log := { level := .off }, caches := {} }

namespace Session

/-- Two open transactions in the same inner state, with the same caches, that have applied nothing and queue their
writes. -/
structure Twins (s₁ s₂ : Session C) : Prop where
  core : s₁.tx.core = s₂.tx.core
  cache : ∀ k, s₁.tx.cache k = s₂.tx.cache k
  isOpen : s₁.tx.closedBy = none
  unwritten : s₁.tx.hasWritten = false
  delayed : s₁.tx.options.isImmediate = false
  sound₁ : s₁.storage.Sound
  sound₂ : s₂.storage.Sound

namespace Twins

variable {s₁ s₂ s₁' s₂' : Session C}

theorem options (h : Twins s₁ s₂) : s₁.tx.options = s₂.tx.options := (congrArg Transaction.options h.core :)

theorem pending (h : Twins s₁ s₂) : s₁.tx.pending = s₂.tx.pending := (congrArg Transaction.pending h.core :)

theorem isOpen₂ (h : Twins s₁ s₂) : s₂.tx.closedBy = none :=
  (congrArg (fun t : Transaction C => t.closedBy) h.core).symm.trans h.isOpen

theorem unwritten₂ (h : Twins s₁ s₂) : s₂.tx.hasWritten = false :=
  (congrArg (fun t : Transaction C => t.hasWritten) h.core).symm.trans h.unwritten

/-- Twins stay twins through reads that leave both in the same inner state, with the same caches. -/
theorem reads (h : Twins s₁ s₂) (h₁ : Reads s₁ s₁') (h₂ : Reads s₂ s₂') (hcore : s₁'.tx.core = s₂'.tx.core)
    (hcache : ∀ k, s₁'.tx.cache k = s₂'.tx.cache k) : Twins s₁' s₂' where
  core := hcore
  cache := hcache
  isOpen := h₁.closedBy.trans h.isOpen
  unwritten := h₁.hasWritten.trans h.unwritten
  delayed := h₁.options ▸ h.delayed
  sound₁ := h₁.storage ▸ h.sound₁
  sound₂ := h₂.storage ▸ h.sound₂

theorem lockRow (h : Twins s₁ s₂) (k : κ) (c : Cells X) : Twins (s₁.lockRow k c) (s₂.lockRow k c) :=
  h.reads (.lockRow ..) (.lockRow ..)
    (congrArg (fun t : Transaction C => { t with locks := t.locks.lockRow k c }) h.core) h.cache

theorem lockScan (h : Twins s₁ s₂) (k : κ) (scan : Scan X) : Twins (s₁.lockScan k scan) (s₂.lockScan k scan) :=
  h.reads (.lockScan ..) (.lockScan ..)
    (congrArg (fun t : Transaction C => { t with locks := t.locks.lockScan k scan }) h.core) h.cache

theorem setCache (h : Twins s₁ s₂) (k : κ) {c₁ c₂ : Cache (C k)} (hc : c₁ = c₂) :
    Twins (s₁.setCache k c₁) (s₂.setCache k c₂) := by
  subst hc
  refine h.reads (.setCache ..) (.setCache ..) h.core fun j => ?_
  refine (s₁.tx.cache_setCache k j c₁).trans (Eq.trans ?_ (s₂.tx.cache_setCache k j c₁).symm)
  split
  · rfl
  · exact h.cache j

theorem core_openTable (s : Session C) (k : κ) : (s.openTable k).tx.core = s.tx.core := by
  unfold Session.openTable
  split <;> rfl

theorem openTable (h : Twins s₁ s₂) (k : κ) : Twins (s₁.openTable k) (s₂.openTable k) :=
  h.reads (.openTable ..) (.openTable ..) ((core_openTable s₁ k).trans (h.core.trans (core_openTable s₂ k).symm))
    fun j => (s₁.cache_openTable k j).trans ((h.cache j).trans (s₂.cache_openTable k j).symm)

end Twins

theorem read_eq {α : Type} {s : Session C} (ho : s.tx.closedBy = none) (hw : s.tx.hasWritten = false) (k : κ)
    (action : String) (summary : α → String) (f : Option (Shard (C k)) → Nat → Except Error α) :
    s.read k action summary f =
      (f (s.storage.shard? k) s.version, s.pin.logStatement action summary (f (s.storage.shard? k) s.version)) := by
  rcases s.read_cases k action summary f with ⟨_, hc, -⟩ | ⟨-, e, hconflict, -⟩ | ⟨-, -, he⟩
  · rw [ho] at hc
    cases hc
  · rw [show s.tx.hasWritten = true from hasWritten_of_conflict? hconflict] at hw
    cases hw
  · exact he

omit [DecidableEq κ] in
theorem core_logStatement {α : Type} (s : Session C) (action : String) (summary : α → String) (r : Except Error α) :
    (s.logStatement action summary r).tx.core = s.tx.core := by cases r <;> rfl

theorem cache_logStatement {α : Type} (s : Session C) (action : String) (summary : α → String) (r : Except Error α)
    (k : κ) : (s.logStatement action summary r).tx.cache k = s.tx.cache k := by cases r <;> rfl

section

variable {s₁ s₂ : Session C} {k : κ}

theorem Twins.read {α : Type} (h : Twins s₁ s₂) (k : κ) (action : String) (summary : α → String)
    (f₁ f₂ : Option (Shard (C k)) → Nat → Except Error α)
    (hf : f₁ (s₁.storage.shard? k) s₁.version = f₂ (s₂.storage.shard? k) s₂.version) :
    Matches Twins (s₁.read k action summary f₁) (s₂.read k action summary f₂) := by
  refine ⟨?_, h.reads (.read ..) (.read ..) ?_ fun j => ?_⟩
  · rw [read_eq h.isOpen h.unwritten, read_eq h.isOpen₂ h.unwritten₂]
    exact hf
  · rw [read_eq h.isOpen h.unwritten, read_eq h.isOpen₂ h.unwritten₂, core_logStatement, core_logStatement]
    exact h.core
  · rw [read_eq h.isOpen h.unwritten, read_eq h.isOpen₂ h.unwritten₂, cache_logStatement, cache_logStatement]
    exact h.cache j

theorem Twins.write (h : Twins s₁ s₂) (action : String) (w : Write (C k)) :
    Matches Twins (s₁.write action k w) (s₂.write action k w) := by
  have hm : s₁.tx.ensureMutable = s₂.tx.ensureMutable := by
    unfold Transaction.ensureMutable
    rw [h.options]
  have hd₂ : s₂.tx.options.isImmediate = false := h.options ▸ h.delayed
  unfold Session.write Transaction.ensureActive
  rw [h.isOpen, h.isOpen₂, hm]
  dsimp only
  cases s₂.tx.ensureMutable with
  | error e => exact ⟨rfl, h⟩
  | ok u =>
    rw [h.delayed, hd₂]
    refine ⟨rfl, ?_, h.cache, h.isOpen, h.unwritten, h.delayed, h.sound₁, h.sound₂⟩
    exact congrArg (fun t : Transaction C => { t with pending := t.pending ++ [(⟨action, k, w⟩ : Pending C)] }) h.core

theorem congruence_twins : Congruence (Twins (C := C)) where
  cache h := h.cache
  limits h := congrArg TxOptions.scan h.options
  sound h := ⟨h.sound₁, h.sound₂⟩
  lockRow h := h.lockRow
  lockScan h := h.lockScan
  setCache h k _ := h.setCache k rfl
  openTable h := h.openTable
  read h _ k action summary f₁ f₂ hf := h.read k action summary f₁ f₂ (hf h.isOpen)

end

end Session

/-- **A statement depends on the inner state and, if it fixes the snapshot, on the rows that it locks.** -/
theorem TableOp.run_congr (op : TableOp C) {s₁ s₂ : Session C} (h : Session.Twins s₁ s₂)
    (ha : (op.run s₁).2.tx.snapshot ≠ none → Session.Agree (op.run s₁).2.tx.locks s₁ s₂) :
    Session.Matches Session.Twins (op.run s₁) (op.run s₂) :=
  op.run_congruence Session.congruence_twins h (fun _ => ha) fun w action _ ht _ _ => ht.write action w.write

end EntityStore
