import EntityStore.Proofs.Congruence
import EntityStore.Proofs.Slots
/-!
# What the statements of a transaction give out

`Session.Confirms V s k` says that a view `V` of the entities agrees with the rows of table `k` that the session `s`
sees and its cache does not know.  If it does, and if the cache agrees with the view, then a statement on the table
gives out what the view has, and leaves a cache that agrees with the view (`Session.reflects_find`,
`Session.reflects_findMany`, `Session.reflects_scan`).  `Session.Overwrites` is what a write does to the caches.
-/
namespace EntityStore

variable {X : Scalars} {κ : Type} [DecidableEq κ] {C : κ → EntityType X}

/-- Identifiers with the same complete flat form are the same. -/
def EntityType.TellsApart (E : EntityType X) : Prop :=
  ∀ id id' c, E.flatten id = .ok c → E.flatten id' = .ok c → Cells.isPartial c = false → id = id'

/-- An identifier that is not partial. -/
def EntityType.IsComplete (E : EntityType X) (id : E.Id) : Prop := ∀ c, E.flatten id = .ok c → Cells.isPartial c = false

namespace Session

theorem read_eq_ok {α : Type} {s s' : Session C} {k : κ} {action : String} {summary : α → String}
    {f : Option (Shard (C k)) → Nat → Except Error α} {a : α} (h : s.read k action summary f = (.ok a, s')) :
    s.tx.closedBy = none ∧ f (s.storage.shard? k) s.version = .ok a ∧ s'.tx.snapshot = some s.version := by
  rcases s.read_cases k action summary f with ⟨_, -, he⟩ | ⟨-, _, -, he⟩ | ⟨ho, -, he⟩
  · rw [he] at h
    cases h
  · rw [he] at h
    cases h
  · have hsnapshot := snapshot_read ho k action summary f
    rw [h] at hsnapshot
    exact ⟨ho, congrArg Prod.fst (he.symm.trans h), hsnapshot⟩

theorem cache_of_caches {s s' : Session C} (hs : s'.tx.caches = s.tx.caches) (ho : s'.tx.options = s.tx.options) (j : κ) :
    s'.tx.cache j = s.tx.cache j := by
  unfold Transaction.cache
  rw [hs, ho]

theorem caches_read {α : Type} (s : Session C) (k : κ) (action : String) (summary : α → String)
    (f : Option (Shard (C k)) → Nat → Except Error α) : (s.read k action summary f).2.tx.caches = s.tx.caches := by
  rcases s.read_cases k action summary f with ⟨_, -, he⟩ | ⟨-, _, -, he⟩ | ⟨-, -, he⟩
  · rw [he]
  · rw [he]
    rfl
  · rw [he]
    cases f (s.storage.shard? k) s.version <;> rfl

theorem caches_lockIds (k : κ) : ∀ (ids : List (C k).Id) (s : Session C),
    (s.lockIds k ids).2.tx.caches = s.tx.caches
  | [], s => rfl
  | id :: rest, s => by
    rw [lockIds]
    split
    · rfl
    · rename_i cells _
      have hrest := caches_lockIds k rest
        (if Cells.isPartial cells = true then s.lockScan k (.agreeing cells) else s.lockRow k cells)
      have hlock : (if Cells.isPartial cells = true then s.lockScan k (.agreeing cells)
          else s.lockRow k cells).tx.caches = s.tx.caches := by split <;> rfl
      dsimp only
      split
      · rename_i hr
        exact (congrArg (fun r => r.2.tx.caches) hr).symm.trans (hrest.trans hlock)
      · rename_i hr
        exact (congrArg (fun r => r.2.tx.caches) hr).symm.trans (hrest.trans hlock)

theorem caches_findUncached (s : Session C) (k : κ) (ids : List (C k).Id) :
    (s.findUncached k ids).2.tx.caches = s.tx.caches := by
  unfold findUncached
  split
  · rfl
  · have hlock := caches_lockIds k ids.eraseDups s
    split
    · rename_i hr
      rw [hr] at hlock
      exact hlock
    · rename_i hr
      rw [hr] at hlock
      exact (caches_read ..).trans hlock

section

variable {ρ : Type} {keep : Cells X → Except Error Bool}

theorem keepRows_of_judges : ∀ {rows : List (Cells X × ρ)}, (∀ p ∈ rows, ∃ b, keep p.1 = .ok b) →
    keepRows keep rows = .ok ((rows.filter (fun p => judged keep p.1)).map Prod.snd)
  | [], _ => rfl
  | (c, row) :: rest, h => by
    obtain ⟨b, hb⟩ := h (c, row) List.mem_cons_self
    have hj : judged keep c = b := by
      unfold judged
      rw [show keep c = .ok b from hb]
    rw [keepRows, show keep c = .ok b from hb, keepRows_of_judges fun p hp => h p (List.mem_cons_of_mem _ hp),
      List.filter_cons, hj]
    cases b <;> rfl

theorem judges_of_keepRows : ∀ {rows : List (Cells X × ρ)} {kept : List ρ}, keepRows keep rows = .ok kept →
    ∀ p ∈ rows, ∃ b, keep p.1 = .ok b
  | (c, row) :: rest, kept, h, p, hp => by
    rw [keepRows] at h
    split at h
    · cases h
    · rename_i b hb
      split at h
      · cases h
      · rename_i more hmore
        rcases List.mem_cons.1 hp with rfl | hp
        · exact ⟨b, hb⟩
        · exact judges_of_keepRows hmore p hp

theorem error_of_keepRows {e : Error} : ∀ {rows : List (Cells X × ρ)}, keepRows keep rows = .error e →
    ∃ p ∈ rows, keep p.1 = .error e
  | (c, row) :: rest, h => by
    rw [keepRows] at h
    split at h
    · rename_i hc
      cases h
      exact ⟨(c, row), List.mem_cons_self, hc⟩
    · split at h
      · rename_i hrest
        cases h
        obtain ⟨p, hp, he⟩ := error_of_keepRows hrest
        exact ⟨p, List.mem_cons_of_mem _ hp, he⟩
      · cases h

theorem judged_iff {c : Cells X} (h : ∃ b, keep c = .ok b) : judged keep c = true ↔ keep c = .ok true := by
  obtain ⟨b, hb⟩ := h
  unfold judged
  rw [hb, Except.ok.injEq]

theorem mem_keepRows_iff {rows : List (Cells X × ρ)} {kept : List ρ} (h : keepRows keep rows = .ok kept) (row : ρ) :
    row ∈ kept ↔ ∃ c, (c, row) ∈ rows ∧ keep c = .ok true := by
  have hjudges := judges_of_keepRows h
  rw [Except.ok.inj (h.symm.trans (keepRows_of_judges hjudges)), List.mem_map]
  constructor
  · rintro ⟨⟨c, _⟩, hmem, rfl⟩
    obtain ⟨hrow, hjudged⟩ := List.mem_filter.1 hmem
    exact ⟨c, hrow, (judged_iff (hjudges _ hrow)).1 hjudged⟩
  · rintro ⟨c, hrow, hkeep⟩
    exact ⟨(c, row), List.mem_filter.2 ⟨hrow, (judged_iff (hjudges _ hrow)).2 hkeep⟩, rfl⟩

end

omit [DecidableEq κ] in
theorem mem_pick_iff {t : Transaction C} {k : κ} {keep : Cells X → Except Error Bool}
    {rows : List (Cells X × (C k).Entity)} {picked : List (C k).Entity} (h : pick t k keep rows = .ok picked)
    (row : (C k).Entity) : row ∈ picked ↔ ∃ c, (c, row) ∈ rows ∧ keep c = .ok true := by
  unfold pick at h
  split at h
  · cases h
  · rename_i kept hkept
    split at h
    · cases h
    · cases h
      exact mem_keepRows_iff hkept row

omit [DecidableEq κ] in
theorem judges_of_pick {t : Transaction C} {k : κ} {keep : Cells X → Except Error Bool}
    {rows : List (Cells X × (C k).Entity)} {picked : List (C k).Entity} (h : pick t k keep rows = .ok picked) :
    ∀ p ∈ rows, ∃ b, keep p.1 = .ok b := by
  unfold pick at h
  split at h
  · cases h
  · rename_i kept hkept
    exact judges_of_keepRows hkept

omit [DecidableEq κ] in
/-- What is picked for keys are the rows of the complete ones, and those that agree with a partial one. -/
theorem mem_pickKeys_iff {t : Transaction C} {k : κ} {row : Cells X → Option (C k).Entity}
    {rows : List (Cells X × (C k).Entity)} (hrows : ∀ c e, (c, e) ∈ rows ↔ row c = some e) (e : (C k).Entity) :
    ∀ {keys : List (Cells X)} {picked : List (C k).Entity}, pickKeys t k row rows keys = .ok picked →
      (e ∈ picked ↔ ∃ p ∈ keys, ∃ c, (if Cells.isPartial p = true then Cells.agrees p c = true else p = c) ∧
        row c = some e)
  | [], _, h => by
    cases h
    simp
  | p :: rest, picked, h => by
    rw [pickKeys] at h
    split at h
    · cases h
    · rename_i here hhere
      split at h
      · cases h
      · rename_i more hmore
        cases h
        have hfirst : e ∈ here ↔
            ∃ c, (if Cells.isPartial p = true then Cells.agrees p c = true else p = c) ∧ row c = some e := by
          split at hhere
          · rename_i hpartial
            rw [mem_pick_iff hhere]
            simp only [hrows, hpartial, if_true, Except.ok.injEq, and_comm]
          · rename_i hcomplete
            cases hhere
            simp [hcomplete]
        rw [List.mem_append, hfirst, mem_pickKeys_iff hrows e hmore]
        simp

end Session

/-! ## Agreement with a view -/

/-- A view of the entities of all tables. -/
abbrev View (C : κ → EntityType X) : Type := (k : κ) → (C k).Id → Option (C k).Entity → Prop

namespace Session

variable {V : View C} {s s' : Session C} {k : κ}

/-- The view agrees with the rows that the session sees and the cache of the table does not know. -/
structure Confirms (V : View C) (s : Session C) (k : κ) : Prop where
  present : ∀ c e, s.row k c = some e →
    (C k).flatten ((C k).idOf e) = .ok c ∧ Cache.Agrees (V k) (s.tx.cache k) e
  absent : ∀ id c, (C k).flatten id = .ok c → Cells.isPartial c = false → s.row k c = none →
    (s.tx.cache k).lookup id = none → V k id none

/-- After a statement on the table `k`, the caches agree with the view, and all that was known is known. -/
structure Reflects (V : View C) (s s' : Session C) (k : κ) : Prop where
  others : ∀ j, j ≠ k → s'.tx.cache j = s.tx.cache j
  holds : (s'.tx.cache k).Holds (V k)
  learns : Cache.Extends (s.tx.cache k) (s'.tx.cache k)

theorem Reflects.of_eq (h : (s.tx.cache k).Holds (V k)) (hs : s'.tx.caches = s.tx.caches)
    (ho : s'.tx.options = s.tx.options) : Reflects V s s' k := by
  have hcache := cache_of_caches hs ho
  exact ⟨fun j _ => hcache j, hcache k ▸ h, hcache k ▸ .refl _⟩

theorem Reflects.setCache (hs : s'.tx.caches = s.tx.caches) (ho : s'.tx.options = s.tx.options) {c : Cache (C k)}
    (hc : c.Holds (V k)) (hext : Cache.Extends (s.tx.cache k) c) : Reflects V s (s'.setCache k c) k := by
  have hk : (s'.setCache k c).tx.cache k = c := by
    refine (s'.tx.cache_setCache k k c).trans ?_
    rw [dif_pos rfl]
  refine ⟨fun j hj => ?_, hk.symm ▸ hc, hk.symm ▸ hext⟩
  refine (s'.tx.cache_setCache k j c).trans ?_
  rw [dif_neg (Ne.symm hj)]
  exact cache_of_caches hs ho j

/-- The condition under which a statement that takes `s` to `s'` reads the store. -/
def ConfirmsRead (V : View C) (s s' : Session C) (k : κ) : Prop :=
  s.tx.closedBy = none → s'.tx.snapshot = some s.version → Confirms V s k

theorem row_of_read {s₁ : Session C} (h : Reads s s₁) (c : Cells X) :
    (s₁.storage.shard? k).bind (fun shard => shard.read s₁.tx.id s₁.version c) = s.row k c := h.row_eq k c

/-- What a point read leaves: the caches as they were, or else what the store has under an identifier that the cache did
not know. -/
theorem find_settles (s : Session C) (k : κ) (id : (C k).Id) :
    ((s.find k id).2.tx.caches = s.tx.caches ∧ (s.find k id).2.tx.options = s.tx.options ∧
      ∀ e?, (s.find k id).1 = .ok e? → ∃ slot, (s.tx.cache k).lookup id = some slot ∧ slot.entity? = e?) ∨
    ∃ (c : Cells X) (s' : Session C), (C k).flatten id = .ok c ∧ Cells.isPartial c = false ∧
      (s.tx.cache k).lookup id = none ∧
      s.tx.closedBy = none ∧ s'.tx.caches = s.tx.caches ∧ s'.tx.options = s.tx.options ∧
      s'.tx.snapshot = some s.version ∧ s.find k id = (.ok ((s.row k c).map (C k).onLoad),
        s'.setCache k ((s.tx.cache k).settle id ((s.row k c).map (C k).onLoad))) := by
  unfold Session.find
  split
  · exact .inl ⟨rfl, rfl, fun _ he => by cases he⟩
  rename_i c hc
  split
  · exact .inl ⟨rfl, rfl, fun _ he => by cases he⟩
  rename_i hcomplete
  split
  · refine .inl ⟨rfl, rfl, fun e? he => ?_⟩
    unfold Cache.peek at he
    split at he
    · cases he
    · rename_i slot hslot
      cases he
      exact ⟨slot, hslot, rfl⟩
  rename_i hunknown
  have hnone : (s.tx.cache k).lookup id = none := by
    unfold Cache.contains at hunknown
    simpa using hunknown
  unfold findUnknown
  dsimp only
  have hcaches := caches_read (s.lockRow k c) k s!"find({(C k).idText id})" (rowText k)
    (fun shard v => .ok (shard.bind (fun shard => shard.read (s.lockRow k c).tx.id v c)))
  have hoptions := (Reads.read (s.lockRow k c) k s!"find({(C k).idText id})" (rowText k)
    (fun shard v => .ok (shard.bind (fun shard => shard.read (s.lockRow k c).tx.id v c)))).options
  split
  · rename_i hr
    rw [hr] at hcaches hoptions
    exact .inl ⟨hcaches, hoptions, fun _ he => by cases he⟩
  · rename_i row s' hr
    rw [hr] at hcaches hoptions
    obtain ⟨ho, hrow, hsnapshot⟩ := read_eq_ok hr
    cases hrow
    have hread := row_of_read (k := k) (Reads.lockRow s k c) c
    rw [hread, cache_of_caches (s := s) hcaches hoptions k]
    exact .inr ⟨c, s', hc, eq_false_of_ne_true hcomplete, hnone, ho, hcaches, hoptions, hsnapshot, rfl⟩

/-- **A point read answers with the view.** -/
theorem reflects_find (hload : Cache.KeepsIds (C k)) (hids : (C k).TellsApart) (h : (s.tx.cache k).Holds (V k))
    {id : (C k).Id} (hV : ConfirmsRead V s (s.find k id).2 k) :
    Reflects V s (s.find k id).2 k ∧ ∀ e?, (s.find k id).1 = .ok e? → V k id e? := by
  obtain ⟨hcaches, hoptions, hknown⟩ |
    ⟨c, s', hc, hcomplete, hnone, ho, hcaches, hoptions, hsnapshot, hfind⟩ := s.find_settles k id
  · refine ⟨.of_eq h hcaches hoptions, fun e? he => ?_⟩
    obtain ⟨slot, hslot, rfl⟩ := hknown e? he
    exact (h id slot hslot).1
  · rw [hfind] at hV ⊢
    obtain ⟨hpresent, habsent⟩ := hV ho hsnapshot
    have hview : V k id ((s.row k c).map (C k).onLoad) ∧
        ∀ e ∈ (s.row k c).map (C k).onLoad, (C k).idOf e = id := by
      cases hsees : s.row k c with
      | none => exact ⟨habsent id c hc hcomplete hsees hnone, fun _ he => by cases he⟩
      | some e =>
        obtain ⟨hflat, hagrees⟩ := hpresent c e hsees
        have hid : (C k).idOf e = id := hids _ _ c hflat hc hcomplete
        rw [← hid] at hnone ⊢
        refine ⟨hagrees hnone, fun e' he' => ?_⟩
        cases he'
        exact hload e
    obtain ⟨hholds, hext⟩ := h.settle hview.1 hview.2
    refine ⟨.setCache hcaches hoptions hholds hext, fun e? he => ?_⟩
    cases he
    exact hview.1

theorem caches_scan (s : Session C) (k : κ) (scan : Scan X) (action : String) (keep : Cells X → Except Error Bool) :
    let r := (s.lockScan k scan).read k action (rowsText k) ((s.lockScan k scan).collect k keep)
    r.2.tx.caches = s.tx.caches ∧ r.2.tx.options = s.tx.options :=
  ⟨caches_read (s.lockScan k scan) .., (Reads.read (s.lockScan k scan) k action (rowsText k)
    ((s.lockScan k scan).collect k keep)).options⟩

theorem caches_merge (s : Session C) (k : κ) (ids : List (C k).Id) :
    let merged := (s.tx.cache k).merge ids (fun wanted s => s.findUncached k wanted) s
    merged.2.2.tx.caches = s.tx.caches ∧ merged.2.2.tx.options = s.tx.options :=
  (s.tx.cache k).merge_state (P := fun s' : Session C => s'.tx.caches = s.tx.caches ∧ s'.tx.options = s.tx.options)
    ids (fun wanted s => s.findUncached k wanted) ⟨rfl, rfl⟩
    (fun wanted => ⟨caches_findUncached s k wanted, (Reads.findUncached s k wanted).options⟩)

theorem reflects_absorbRows (hload : Cache.KeepsIds (C k)) (h : (s.tx.cache k).Holds (V k)) {s₁ : Session C}
    (hcaches : s₁.tx.caches = s.tx.caches) (hoptions : s₁.tx.options = s.tx.options)
    {answer : Except Error (List (C k).Entity)}
    (hrows : ∀ rows, answer = .ok rows → ∀ row ∈ rows, Cache.Agrees (V k) (s.tx.cache k) row) :
    Reflects V s (s₁.absorbRows k answer).2 k ∧
      ∀ es, (s₁.absorbRows k answer).1 = .ok es → ∀ e ∈ es, V k ((C k).idOf e) (some e) := by
  cases answer with
  | error e => exact ⟨.of_eq h hcaches hoptions, fun _ he => by cases he⟩
  | ok rows =>
    have hcache := cache_of_caches hcaches hoptions k
    obtain ⟨hholds, hext, hgiven⟩ := h.absorbAll hload rows (hrows rows rfl)
    unfold Session.absorbRows
    rw [hcache]
    refine ⟨.setCache hcaches hoptions hholds hext, fun es hes => ?_⟩
    cases hes
    exact hgiven

theorem scan_eq_ok (hs : s.storage.Sound) {scan : Scan X} {action : String} {keep : Cells X → Except Error Bool}
    {rows : List (C k).Entity}
    (h : ((s.lockScan k scan).read k action (rowsText k) ((s.lockScan k scan).collect k keep)).1 = .ok rows) :
    s.tx.closedBy = none ∧ ((s.lockScan k scan).read k action (rowsText k)
        ((s.lockScan k scan).collect k keep)).2.tx.snapshot = some s.version ∧
      (∀ row, row ∈ rows ↔ ∃ c, s.row k c = some row ∧ keep c = .ok true) ∧
      ∀ c row, s.row k c = some row → (judged keep c = true ↔ keep c = .ok true) := by
  obtain ⟨ho, hcollect, hsnapshot⟩ := read_eq_ok (Prod.ext h rfl : _ = (Except.ok rows, _))
  rw [collect_eq_pick] at hcollect
  refine ⟨ho, hsnapshot, fun row => ?_, fun c row hrow => ?_⟩
  · rw [mem_pick_iff hcollect]
    exact exists_congr fun c => and_congr_left fun _ => hs.mem_rows _ _ k c row
  · exact judged_iff (judges_of_pick hcollect (c, row) ((hs.mem_rows _ _ k c row).2 hrow))

/-- **A scan answers with the view.** -/
theorem reflects_scan (hs : s.storage.Sound) (hload : Cache.KeepsIds (C k)) (h : (s.tx.cache k).Holds (V k))
    (scan : Scan X) (action : String) (keep : Cells X → Except Error Bool) :
    let r := (s.lockScan k scan).read k action (rowsText k) ((s.lockScan k scan).collect k keep)
    ConfirmsRead V s (r.2.absorbRows k r.1).2 k →
      Reflects V s (r.2.absorbRows k r.1).2 k ∧
        ∀ es, (r.2.absorbRows k r.1).1 = .ok es → ∀ e ∈ es, V k ((C k).idOf e) (some e) := by
  intro r hV
  obtain ⟨hcaches, hoptions⟩ := s.caches_scan k scan action keep
  refine reflects_absorbRows hload h hcaches hoptions fun rows hrows row hrow => ?_
  obtain ⟨ho, hsnapshot, hmem, -⟩ := scan_eq_ok hs hrows
  obtain ⟨c, hc, -⟩ := (hmem row).1 hrow
  exact ((hV ho ((snapshot_absorbRows ..).trans hsnapshot)).present c row hc).2

/-- What the store answers for identifiers: the rows under the complete ones, and those that agree with a partial one. -/
theorem findUncached_eq_ok (hs : s.storage.Sound) {ids : List (C k).Id} {rows : List (C k).Entity}
    (h : (s.findUncached k ids).1 = .ok rows) :
    s.tx.closedBy = none ∧ (s.findUncached k ids).2.tx.snapshot = some s.version ∧
      ∀ e, e ∈ rows ↔ ∃ id ∈ ids, ∃ p, (C k).flatten id = .ok p ∧
        ∃ c, (if Cells.isPartial p = true then Cells.agrees p c = true else p = c) ∧ s.row k c = some e := by
  unfold findUncached at h ⊢
  split at h
  · cases h
  have hlock := fun keys => @keys_of_lockIds _ _ _ C k ids.eraseDups s keys
  have hreads := Reads.lockIds k ids.eraseDups s
  split at h
  · cases h
  rename_i keys s₁ hr
  rw [hr] at hlock hreads
  obtain ⟨hkey, hid⟩ := hlock keys rfl
  simp only [List.mem_eraseDups] at hkey hid
  have hread := read_eq_ok (Prod.ext h rfl : _ = (Except.ok rows, _))
  obtain ⟨ho, hrows, hsnapshot⟩ := hread
  have hpick := (rowsOfKeys_storage s₁ k s₁.storage s₁.version keys).symm.trans hrows
  have hsound : s₁.storage.Sound := hreads.storage ▸ hs
  refine ⟨hreads.closedBy ▸ ho, hsnapshot.trans (by rw [hreads.version_eq]), fun e => ?_⟩
  rw [mem_pickKeys_iff (fun c e => hsound.mem_rows s₁.tx.id s₁.version k c e) e hpick]
  have hrow : ∀ c, s₁.storage.read s₁.tx.id s₁.version k c = s.row k c := hreads.row_eq k
  simp only [hrow]
  constructor
  · rintro ⟨p, hp, hasked⟩
    obtain ⟨id, hmem, hflat⟩ := hid p hp
    exact ⟨id, hmem, p, hflat, hasked⟩
  · rintro ⟨id, hmem, p, hflat, hasked⟩
    obtain ⟨p', hp', hflat'⟩ := hkey id hmem
    rw [hflat] at hflat'
    cases hflat'
    exact ⟨p, hp', hasked⟩

/-- **A read of identifiers answers with the view.** -/
theorem reflects_findMany (hs : s.storage.Sound) (hload : Cache.KeepsIds (C k)) (hids : (C k).TellsApart)
    (h : (s.tx.cache k).Holds (V k)) {ids : List (C k).Id} (hV : ConfirmsRead V s (s.findMany k ids).2 k) :
    Reflects V s (s.findMany k ids).2 k ∧
      ∀ es, (s.findMany k ids).1 = .ok es → ∀ e ∈ es, V k ((C k).idOf e) (some e) := by
  have hsnapshot : (s.findMany k ids).2.tx.snapshot =
      ((s.tx.cache k).merge ids (fun wanted s => s.findUncached k wanted) s).2.2.tx.snapshot := by
    unfold Session.findMany
    split <;> rename_i hr <;> rw [hr] <;> rfl
  have hwanted : ∀ id ∈ (s.tx.cache k).unknown ids.eraseDups, id ∈ ids.eraseDups ∧ (s.tx.cache k).lookup id = none := by
    intro id hid
    obtain ⟨hmem, hunknown⟩ := List.mem_filter.1 hid
    refine ⟨hmem, ?_⟩
    unfold Cache.contains at hunknown
    simpa using hunknown
  obtain ⟨hholds, hext, hgiven⟩ := h.merge hload ids (fun wanted s => s.findUncached k wanted) s
      fun isPartial hsame rows hrows hst => by
    obtain ⟨ho, hpinned, hmem⟩ := findUncached_eq_ok hs hrows
    obtain ⟨hpresent, habsent⟩ := hV ho (by rw [hsnapshot, hst, hpinned])
    refine ⟨fun e he => ?_, fun hcomplete id hid hmissing => ?_⟩
    · obtain ⟨id, -, p, -, c, -, hrow⟩ := (hmem e).1 he
      exact (hpresent c e hrow).2
    · obtain ⟨hmem', hunknown⟩ := hwanted id hid
      obtain ⟨c, hflat, hc⟩ := Cache.flatten_of_arePartial hsame id hmem'
      rw [hcomplete] at hc
      refine habsent id c hflat hc ?_ hunknown
      rw [Option.eq_none_iff_forall_ne_some]
      intro e hrow
      have hasked : if Cells.isPartial c = true then Cells.agrees c c = true else c = c := by
        rw [hc]
        exact rfl
      exact hmissing e ((hmem e).2 ⟨id, hid, c, hflat, c, hasked, hrow⟩) (hids _ _ c (hpresent c e hrow).1 hflat hc)
  have hcaches := s.caches_merge k ids
  unfold Session.findMany
  generalize (s.tx.cache k).merge ids (fun wanted s => s.findUncached k wanted) s = r at hholds hext hgiven hcaches
  obtain ⟨answer, c, s'⟩ := r
  cases answer with
  | error e => exact ⟨.setCache hcaches.1 hcaches.2 hholds hext, fun _ he => by cases he⟩
  | ok es => exact ⟨.setCache hcaches.1 hcaches.2 hholds hext, hgiven⟩

/-! ## Writes -/

theorem caches_apply (s : Session C) (action : String) (k : κ) (w : Write (C k)) :
    (s.apply action k w).2.tx.caches = s.tx.caches := by
  unfold apply
  dsimp only
  split <;> rfl

theorem caches_write (s : Session C) (action : String) (k : κ) (w : Write (C k)) :
    (s.write action k w).2.tx.caches = s.tx.caches := by
  rcases s.write_cases action k w with ⟨e, he⟩ | ⟨-, -, -, he⟩ | ⟨-, -, -, he⟩
  · rw [he]
  · rw [he, caches_apply]
  · rw [he]

theorem options_write (s : Session C) (action : String) (k : κ) (w : Write (C k)) :
    (s.write action k w).2.tx.options = s.tx.options := by
  rcases s.write_cases action k w with ⟨e, he⟩ | ⟨-, -, -, he⟩ | ⟨-, -, -, he⟩
  · rw [he]
  · rw [he, (s.apply_spec action k w).2.1.options]
  · rw [he]

/-- The caches remember a write, and nothing else has become of them. -/
def Overwrites (s s' : Session C) (w : TableWrite C) : Prop :=
  ∃ id slot, (C w.kind).flatten id = .ok w.write.cells ∧ slot.entity? = w.write.change.row? ∧
    (∀ e ∈ slot.entity?, (C w.kind).idOf e = id) ∧
      s'.tx.cache w.kind = (s.tx.cache w.kind).setSlot id slot ∧ ∀ j, j ≠ w.kind → s'.tx.cache j = s.tx.cache j

/-- A write is remembered in its slot if it is answered without an error, and else not at all. -/
theorem overwrites_writeThrough {α : Type} (s : Session C) (action : String) (w : Write (C k)) (a : α)
    (id : (C k).Id) (slot : Slot (C k).Entity) (hflat : (C k).flatten id = .ok w.cells)
    (hslot : slot.entity? = w.change.row?) (hown : ∀ e ∈ slot.entity?, (C k).idOf e = id) :
    let r := s.writeThrough action k w a (fun s => (s.tx.cache k).setSlot id slot)
    (∃ e, r.1 = .error e ∧ ∀ j, r.2.tx.cache j = s.tx.cache j) ∨ (∃ a, r.1 = .ok a) ∧ Overwrites s r.2 ⟨k, w⟩ := by
  intro r
  have hcaches := s.caches_write action k w
  have hoptions := s.options_write action k w
  have hr : r = s.writeThrough action k w a (fun s => (s.tx.cache k).setSlot id slot) := rfl
  rw [hr]
  unfold writeThrough
  generalize s.write action k w = written at hcaches hoptions
  obtain ⟨answer, s'⟩ := written
  have hsame := cache_of_caches hcaches hoptions
  cases answer with
  | error e => exact .inl ⟨e, rfl, hsame⟩
  | ok u =>
    refine .inr ⟨⟨a, rfl⟩, id, slot, hflat, hslot, hown, ?_, fun j hj => ?_⟩
    · refine (s'.tx.cache_setCache k k _).trans ?_
      rw [dif_pos rfl, ← hsame k]
    · refine (s'.tx.cache_setCache k j _).trans ?_
      rw [dif_neg (Ne.symm hj)]
      exact hsame j

end Session

/-- **What a writing statement does to the caches.** -/
theorem TableOp.overwrites_runOpen (op : TableOp C) (s : Session C) (hop : op.isWrite = true) :
    (∃ e, (op.runOpen s).1 = .error e ∧ ∀ j, (op.runOpen s).2.tx.cache j = s.tx.cache j) ∨
      (∃ a, (op.runOpen s).1 = .ok a) ∧ ∃ w, op.write? = some w ∧ Session.Overwrites s (op.runOpen s).2 w := by
  cases op.writing hop with
  | fails e _ _ hrun =>
    rw [hrun]
    exact .inl ⟨e, rfl, fun _ => rfl⟩
  | writes k w id slot lock action a hflat hwrite hslot hown _ hrun =>
    rw [hrun]
    have hspec := Session.overwrites_writeThrough (s.lockRowIf lock k w.cells) action w a id slot hflat hslot hown
    -- A lock is not seen in a cache.
    cases lock <;> exact hspec.imp_right fun h => ⟨h.1, _, hwrite, h.2⟩

end EntityStore
