import EntityStore.Proofs.CommitOutcome
import EntityStore.Proofs.FlatForms
import EntityStore.Proofs.PointView
/-!
# The limit of a scan

A scan transaction sets a limit to the rows of a read, and each lookup in the store is held against it: the listing of a
table, an interval, and each partial identifier of a set by itself.  The rows of complete identifiers are fetched one by
one and are not counted, nor is what several identifiers bring together.  `Repository.scan_limit` says exactly which
reads the limit refuses, and what the others can bring.
-/
namespace EntityStore

variable {X : Scalars} {κ : Type} [DecidableEq κ] {C : κ → EntityType X}

/-! ## How much comes out of a cache -/

theorem length_eraseDups_le {α : Type} [BEq α] : ∀ l : List α, l.eraseDups.length ≤ l.length
  | [] => Nat.le_refl _
  | a :: rest => by
    have hfilter : (rest.filter fun b => !b == a).length ≤ rest.length := List.length_filter_le ..
    rw [List.eraseDups_cons]
    exact Nat.succ_le_succ (Nat.le_trans (length_eraseDups_le _) hfilter)
termination_by l => l.length
decreasing_by exact Nat.lt_succ_of_le hfilter

theorem Dict.length_values_insert {α β : Type} [DecidableEq α] (d : Dict α β) (k : α) (v : β) :
    (d.insert k v).values.length ≤ d.values.length + 1 := by
  obtain ⟨entries⟩ := d
  unfold insert values
  simp only [List.length_map]
  induction entries with
  | nil => exact Nat.le_refl _
  | cons p rest ih =>
    obtain ⟨k', w⟩ := p
    unfold put
    split
    · exact Nat.le_succ _
    · exact Nat.succ_le_succ ih

namespace EntityType

variable {E : EntityType X}

theorem keyed_error {e : Error} : ∀ {entities : List E.Entity}, E.keyed entities = .error e →
    ∃ type message, e = .invalidSchema type message
  | first :: rest, h => by
    unfold keyed at h
    split at h
    · rename_i hflat
      cases h
      exact flatten_error hflat
    · split at h
      · rename_i hrest
        cases h
        exact keyed_error hrest
      · cases h

theorem sortById_error {entities : List E.Entity} {e : Error} (h : E.sortById entities = .error e) :
    ∃ type message, e = .invalidSchema type message := by
  unfold sortById at h
  split at h
  · rename_i hs
    cases h
    exact schema_error hs
  · split at h
    · rename_i hkeyed
      cases h
      exact keyed_error hkeyed
    · cases h

end EntityType

namespace Cache

variable {E : EntityType X} {c : Cache E}

theorem length_absorbAll : ∀ (rows : List E.Entity) (c : Cache E), (c.absorbAll rows).1.length ≤ rows.length
  | [], _ => Nat.le_refl _
  | row :: rest, c => by
    have hrest := length_absorbAll rest (c.absorb row).2
    have hfirst : ∀ e? : Option E.Entity, e?.toList.length ≤ 1 := by
      rintro (_ | e)
      · exact Nat.zero_le _
      · exact Nat.le_refl _
    have hhere := hfirst (c.absorb row).1
    rw [absorbAll, List.length_append, List.length_cons]
    omega

theorem length_absorbRows : ∀ (rows : List E.Entity) (c : Cache E) (found : Dict E.Id E.Entity),
    (c.absorbRows found rows).1.values.length ≤ found.values.length + rows.length
  | [], _, _ => Nat.le_refl _
  | row :: rest, c, found => by
    rw [absorbRows, List.length_cons]
    split
    · rename_i e c' _
      have hrest := length_absorbRows rest c' (found.insert (E.idOf row) e)
      have hinsert := found.length_values_insert (E.idOf row) e
      omega
    · rename_i c' _
      have hrest := length_absorbRows rest c' found
      omega

/-- The identifiers that the cache knows. -/
def known (c : Cache E) (ids : List E.Id) : List E.Id := ids.filter (fun id => c.contains id)

theorem length_held (c : Cache E) (ids : List E.Id) : (c.held ids).values.length ≤ (c.known ids).length := by
  induction ids using List.reverseRecOn with
  | nil => exact Nat.le_refl _
  | append_singleton ids id ih =>
    unfold known at ih ⊢
    rw [held_concat, List.filter_append, List.length_append]
    cases hid : (c.lookup id).bind Slot.entity? with
    | some e =>
      obtain ⟨slot, hslot, -⟩ := Option.bind_eq_some_iff.1 hid
      have hknown : c.contains id = true := by
        unfold contains
        rw [hslot]
        rfl
      -- an identifier that comes twice is held once, so that this is no equation
      have hinsert := (c.held ids).length_values_insert id e
      rw [List.filter_cons_of_pos hknown, List.filter_nil, List.length_singleton]
      dsimp only
      omega
    | none => exact Nat.le_trans ih (Nat.le_add_right _ _)

/-! ## What a set of identifiers brings through the cache -/

theorem samePattern_error {schema : Schema} {pattern : List Bool} {e : Error} : ∀ {ids : List E.Id},
    samePattern (E := E) schema pattern ids = .error e →
      (∃ type message, e = .invalidSchema type message) ∨ ∃ message, e = .invalidArgument message
  | id :: rest, h => by
    unfold samePattern at h
    split at h
    · rename_i hflat
      unfold Schema.flatten at hflat
      split at hflat
      · cases hflat
        cases h
        exact .inl ⟨_, _, rfl⟩
      · cases hflat
    · split at h
      · exact samePattern_error h
      · cases h
        exact .inr ⟨_, rfl⟩

theorem arePartial_error {ids : List E.Id} {e : Error} (h : arePartial (E := E) ids = .error e) :
    (∃ type message, e = .invalidSchema type message) ∨ ∃ message, e = .invalidArgument message := by
  unfold arePartial at h
  split at h
  · rename_i hschema
    cases h
    exact .inl (EntityType.schema_error hschema)
  · rename_i schema hschema
    split at h
    · cases h
    · rename_i id rest
      split at h
      · rename_i hflat
        cases h
        exact .inl (EntityType.flatten_error ((EntityType.flatten_of_schema hschema id).trans hflat))
      · rename_i cells hflat
        cases hsame : samePattern (E := E) schema (cells.map Option.isNone) rest with
        | error e' =>
          rw [hsame] at h
          cases h
          exact samePattern_error hsame
        | ok u =>
          rw [hsame] at h
          cases h

section

variable {σ : Type} {ids : List E.Id} {ask : List E.Id → σ → Except Error (List E.Entity) × σ} {s : σ}

theorem merge_invalidOperation_iff {message : String} :
    (c.merge ids ask s).1 = .error (.invalidOperation message) ↔
      (∃ isPartial, arePartial (E := E) ids.eraseDups = .ok isPartial) ∧ c.unknown ids.eraseDups ≠ [] ∧
        (ask (c.unknown ids.eraseDups) s).1 = .error (.invalidOperation message) := by
  unfold merge
  by_cases hids : ids.isEmpty = true
  · rw [if_pos hids]
    cases List.isEmpty_iff.1 hids
    refine ⟨nofun, fun ⟨_, hne, _⟩ => (hne ?_).elim⟩
    rfl
  · rw [if_neg hids]
    dsimp only
    cases hpartial : arePartial (E := E) ids.eraseDups with
    | error e =>
      refine ⟨fun h => ?_, fun ⟨⟨_, h⟩, _⟩ => (nomatch h)⟩
      cases h
      rcases arePartial_error hpartial with ⟨_, _, he⟩ | ⟨_, he⟩ <;> cases he
    | ok isPartial =>
      have hsort : ∀ entities : List E.Entity, E.sortById entities ≠ .error (.invalidOperation message) := by
        intro entities he
        obtain ⟨_, _, he⟩ := EntityType.sortById_error he
        cases he
      dsimp only
      by_cases hwanted : (c.unknown ids.eraseDups).isEmpty = true
      · rw [if_pos hwanted]
        exact ⟨fun h => (hsort _ h).elim, fun ⟨_, hne, _⟩ => (hne (List.isEmpty_iff.1 hwanted)).elim⟩
      · rw [if_neg hwanted]
        have hne : c.unknown ids.eraseDups ≠ [] := fun he => hwanted (List.isEmpty_iff.2 he)
        obtain ⟨answer, s'⟩ := ask (c.unknown ids.eraseDups) s
        cases answer with
        | error e => exact ⟨fun h => ⟨⟨isPartial, rfl⟩, hne, h⟩, fun ⟨_, _, h⟩ => h⟩
        | ok rows => exact ⟨fun h => (hsort _ h).elim, fun ⟨_, _, h⟩ => (nomatch h)⟩

/-- What a set of identifiers brings is what is known of them and what the store brings for the others. -/
theorem length_merge {bound : Nat} {es : List E.Entity} (hes : (c.merge ids ask s).1 = .ok es)
    (hask : ∀ rows, (ask (c.unknown ids.eraseDups) s).1 = .ok rows → rows.length ≤ bound) :
    es.length ≤ (c.known ids.eraseDups).length + bound := by
  rcases merge_eq_ok hes with ⟨-, rfl⟩ | ⟨-, rows, hsort, hrows⟩
  · exact Nat.zero_le _
  · have habsorbed := length_absorbRows rows c (c.held ids.eraseDups)
    have hheld := c.length_held ids.eraseDups
    have hbound : rows.length ≤ bound := by
      rcases hrows with ⟨-, rfl⟩ | ⟨hrows, -⟩
      · exact Nat.zero_le _
      · exact hask rows hrows
    rw [(EntityType.sortById_perm hsort).length_eq]
    omega

end

end Cache

/-! ## One lookup -/

namespace Session

variable {s : Session C} {k : κ} {limits : ScanLimits}

/-- The error of a read that brings more rows than a scan may have. -/
def tooLarge (k : κ) (limits : ScanLimits) (C : κ → EntityType X) : Error :=
  (StoreError.scanTooLarge (C k).table limits.maxSize).toError

/-- The number of rows in a table that a session sees under keys of some kind. -/
def matching (s : Session C) (k : κ) (keep : Cells X → Bool) : Nat := ((s.rows k).filter (fun p => keep p.1)).length

section

variable {t : Transaction C} {keep : Cells X → Except Error Bool} {rows : List (Cells X × (C k).Entity)}

omit [DecidableEq κ] in
/-- **A lookup in a scan whose rows can all be judged** is too large or brings those that are wanted. -/
theorem pick_of_judges (hscan : t.options.scan = some limits) (hjudges : ∀ p ∈ rows, ∃ b, keep p.1 = .ok b) :
    pick t k keep rows =
      if limits.maxSize < (rows.filter (fun p => judged keep p.1)).length then .error (tooLarge k limits C)
      else .ok ((rows.filter (fun p => judged keep p.1)).map Prod.snd) := by
  unfold pick Transaction.checkScanSize
  rw [hscan, keepRows_of_judges hjudges]
  dsimp only
  rw [List.length_map]
  by_cases hsize : limits.maxSize < (rows.filter (fun p => judged keep p.1)).length
  · rw [if_pos hsize, if_pos hsize]
    rfl
  · rw [if_neg hsize, if_neg hsize]

omit [DecidableEq κ] in
theorem length_pick (hscan : t.options.scan = some limits) {picked : List (C k).Entity}
    (h : pick t k keep rows = .ok picked) : picked.length ≤ limits.maxSize := by
  have hpick := pick_of_judges hscan (judges_of_pick h)
  rw [h] at hpick
  split at hpick
  · cases hpick
  · rename_i hsize
    cases hpick
    rw [List.length_map]
    exact Nat.le_of_not_lt hsize

omit [DecidableEq κ] in
/-- **A lookup is too large if more rows are wanted than the limit allows**, and all can be judged. -/
theorem pick_eq_tooLarge_iff (hscan : t.options.scan = some limits) (keep : Cells X → Except Error Bool)
    (rows : List (Cells X × (C k).Entity)) (hkeep : ∀ c e, keep c = .error e → e ≠ tooLarge k limits C) :
    pick t k keep rows = .error (tooLarge k limits C) ↔ (∀ p ∈ rows, ∃ b, keep p.1 = .ok b) ∧
      limits.maxSize < (rows.filter (fun p => judged keep p.1)).length := by
  by_cases hjudges : ∀ p ∈ rows, ∃ b, keep p.1 = .ok b
  · rw [pick_of_judges hscan hjudges, and_iff_right hjudges]
    by_cases hsize : limits.maxSize < (rows.filter (fun p => judged keep p.1)).length <;> simp [hsize]
  · refine iff_of_false (fun h => ?_) fun h => hjudges h.1
    unfold pick at h
    cases hk : keepRows keep rows with
    | error e =>
      rw [hk] at h
      cases h
      obtain ⟨p, -, hp⟩ := error_of_keepRows hk
      exact hkeep p.1 _ hp rfl
    | ok kept => exact hjudges (judges_of_keepRows hk)

omit [DecidableEq κ] in
/-- Keys are too many to ask for if more rows agree with one of the partial ones than the limit allows. -/
theorem pickKeys_eq_tooLarge_iff (hscan : t.options.scan = some limits) (row : Cells X → Option (C k).Entity)
    (keys : List (Cells X)) : pickKeys t k row rows keys = .error (tooLarge k limits C) ↔
      ∃ p ∈ keys, Cells.isPartial p = true ∧ limits.maxSize < (rows.filter (fun q => Cells.agrees p q.1)).length := by
  induction keys with
  | nil => simp [pickKeys]
  | cons p rest ih =>
    rw [pickKeys, List.exists_mem_cons_iff, ← ih]
    cases hp : Cells.isPartial p with
    | false =>
      rw [if_neg Bool.false_ne_true]
      dsimp only
      cases pickKeys t k row rows rest <;> simp
    | true =>
      have hpick : pick t k (fun key => .ok (Cells.agrees p key)) rows =
          if limits.maxSize < (rows.filter (fun q => Cells.agrees p q.1)).length then .error (tooLarge k limits C)
          else .ok ((rows.filter (fun q => Cells.agrees p q.1)).map Prod.snd) :=
        pick_of_judges hscan fun _ _ => ⟨_, rfl⟩
      rw [if_pos rfl, hpick]
      by_cases hsize : limits.maxSize < (rows.filter (fun q => Cells.agrees p q.1)).length
      · rw [if_pos hsize]
        exact iff_of_true rfl (.inl ⟨rfl, hsize⟩)
      · rw [if_neg hsize]
        simp only [hsize, and_false, false_or]
        cases pickKeys t k row rows rest <;> simp

omit [DecidableEq κ] in
/-- What keys bring: a row for a complete one, and as many as the limit allows for a partial one. -/
theorem length_pickKeys (hscan : t.options.scan = some limits) {row : Cells X → Option (C k).Entity} {isPartial : Bool} :
    ∀ {keys : List (Cells X)} {picked : List (C k).Entity}, (∀ p ∈ keys, Cells.isPartial p = isPartial) →
      pickKeys t k row rows keys = .ok picked → picked.length ≤ keys.length * if isPartial then limits.maxSize else 1
  | [], _, _, h => by
    cases h
    exact Nat.zero_le _
  | p :: rest, picked, hkeys, h => by
    rw [pickKeys] at h
    split at h
    · cases h
    · rename_i here hhere
      split at h
      · cases h
      · rename_i more hmore
        cases h
        have hrest := length_pickKeys hscan (fun q hq => hkeys q (List.mem_cons_of_mem p hq)) hmore
        have hfirst : here.length ≤ if isPartial then limits.maxSize else 1 := by
          rw [hkeys p List.mem_cons_self] at hhere
          cases isPartial with
          | true => exact length_pick hscan hhere
          | false =>
            cases hhere
            cases row p
            · exact Nat.zero_le _
            · exact Nat.le_refl _
        rw [List.length_append, List.length_cons, Nat.succ_mul]
        omega

end

/-! ## The reads of a scan -/

/-- **The limit on a scan of a table.** -/
theorem collect_limit (hs : s.storage.Sound) (hscan : s.tx.options.scan = some limits) (scan : Scan X) (action : String)
    (keep : Cells X → Except Error Bool) (hkeep : ∀ c e, keep c = .error e → e ≠ tooLarge k limits C) :
    let r := (s.lockScan k scan).read k action (rowsText k) ((s.lockScan k scan).collect k keep)
    (∀ es, (r.2.absorbRows k r.1).1 = .ok es → es.length ≤ limits.maxSize) ∧
      (s.tx.closedBy = none → s.tx.hasWritten = false →
        ((r.2.absorbRows k r.1).1 = .error (tooLarge k limits C) ↔
          (∀ c e, s.row k c = some e → ∃ b, keep c = .ok b) ∧ limits.maxSize < s.matching k (judged keep))) := by
  intro r
  refine ⟨fun es hes => ?_, fun ho hw => ?_⟩
  · cases hr : r.1 with
    | error e =>
      rw [hr] at hes
      cases hes
    | ok rows =>
      obtain ⟨-, hcollect, -⟩ := read_eq_ok (Prod.ext hr rfl : _ = (Except.ok rows, _))
      rw [collect_eq_pick] at hcollect
      rw [hr] at hes
      cases hes
      exact Nat.le_trans (Cache.length_absorbAll rows _) (length_pick hscan hcollect)
  · have hread : r.1 = pick s.tx k keep (s.rows k) := by
      refine (congrArg Prod.fst (read_eq (s := s.lockScan k scan) ho hw k action (rowsText k) _)).trans ?_
      rw [collect_eq_pick]
      rfl
    have hanswer : (r.2.absorbRows k r.1).1 = .error (tooLarge k limits C) ↔ r.1 = .error (tooLarge k limits C) := by
      cases r.1 <;> simp [absorbRows]
    rw [hanswer, hread, pick_eq_tooLarge_iff hscan keep _ hkeep]
    refine and_congr_left fun _ => ⟨fun h c e hrow => ?_, fun h p hp => ?_⟩
    · exact h (c, e) ((hs.mem_rows _ _ k c e).2 hrow)
    · exact h p.1 p.2 ((hs.mem_rows _ _ k p.1 p.2).1 hp)

theorem length_of_lockIds (k : κ) : ∀ (ids : List (C k).Id) {s : Session C} {keys : List (Cells X)},
    (s.lockIds k ids).1 = .ok keys → keys.length = ids.length
  | [], _, _, h => by
    cases h
    rfl
  | id :: rest, s, keys, h => by
    rw [lockIds] at h
    split at h
    · cases h
    · dsimp only at h
      split at h
      · cases h
      · rename_i hr
        cases h
        exact congrArg Nat.succ (length_of_lockIds k rest (congrArg Prod.fst hr))

/-- The rows in which a lookup for one of the identifiers overruns the limit. -/
def Overruns (s : Session C) (k : κ) (limits : ScanLimits) (ids : List (C k).Id) : Prop :=
  ∃ id ∈ ids, ∃ p, (C k).flatten id = .ok p ∧ Cells.isPartial p = true ∧ limits.maxSize < s.matching k (Cells.agrees p)

theorem findUncached_eq_pickKeys {ids : List (C k).Id} {keys : List (Cells X)} {schema : Schema}
    (hschema : (C k).schema = .ok schema) (hkeys : (s.lockIds k ids.eraseDups).1 = .ok keys) :
    (∀ rows, (s.findUncached k ids).1 = .ok rows → pickKeys s.tx k (s.row k) (s.rows k) keys = .ok rows) ∧
      (s.tx.closedBy = none → s.tx.hasWritten = false →
        (s.findUncached k ids).1 = pickKeys s.tx k (s.row k) (s.rows k) keys) := by
  have hreads := Reads.lockIds k ids.eraseDups s
  rw [findUncached_eq_read hschema hkeys]
  refine ⟨fun rows h => ?_, fun ho hw => ?_⟩
  · obtain ⟨-, hf, -⟩ := read_eq_ok (Prod.ext h rfl : _ = (Except.ok rows, _))
    exact (hreads.rowsOfKeys_eq keys).symm.trans hf
  · rw [read_eq (hreads.closedBy.trans ho) (hreads.hasWritten.trans hw)]
    exact hreads.rowsOfKeys_eq keys

/-- **The limit on a lookup of identifiers in the store.** -/
theorem findUncached_limit (hscan : s.tx.options.scan = some limits) (ids : List (C k).Id) {isPartial : Bool}
    (hids : ∀ id ∈ ids, ∃ p, (C k).flatten id = .ok p ∧ Cells.isPartial p = isPartial) :
    (∀ rows, (s.findUncached k ids).1 = .ok rows →
      rows.length ≤ ids.length * if isPartial then limits.maxSize else 1) ∧
      (s.tx.closedBy = none → s.tx.hasWritten = false →
        ((s.findUncached k ids).1 = .error (tooLarge k limits C) ↔ s.Overruns k limits ids)) := by
  cases hschema : (C k).schema with
  | error e =>
    have hfails : (s.findUncached k ids).1 = .error e := by
      unfold findUncached
      rw [hschema]
    obtain ⟨type, message, rfl⟩ := EntityType.schema_error hschema
    rw [hfails]
    refine ⟨nofun, fun _ _ => ⟨nofun, fun ⟨id, _, p, hp, _⟩ => ?_⟩⟩
    rw [EntityType.flatten_of_no_schema hschema] at hp
    cases hp
  | ok schema =>
    obtain ⟨keys, hkeys⟩ := exists_keys_of_lockIds k ids.eraseDups s fun id hid =>
      (hids id (List.mem_eraseDups.1 hid)).imp fun _ => And.left
    obtain ⟨hrows, hanswer⟩ := findUncached_eq_pickKeys hschema hkeys
    obtain ⟨hkey, hid⟩ := keys_of_lockIds k ids.eraseDups hkeys
    refine ⟨fun rows hok => ?_, fun ho hw => ?_⟩
    · have hpartial : ∀ p ∈ keys, Cells.isPartial p = isPartial := by
        intro p hp
        obtain ⟨id, hmem, hflat⟩ := hid p hp
        obtain ⟨p', hflat', hpartial⟩ := hids id (List.mem_eraseDups.1 hmem)
        rw [hflat] at hflat'
        cases hflat'
        exact hpartial
      refine Nat.le_trans (length_pickKeys hscan hpartial (hrows rows hok)) (Nat.mul_le_mul_right _ ?_)
      rw [length_of_lockIds k _ hkeys]
      exact length_eraseDups_le ids
    · rw [hanswer ho hw, pickKeys_eq_tooLarge_iff hscan]
      constructor
      · rintro ⟨p, hp, hpartial, hsize⟩
        obtain ⟨id, hmem, hflat⟩ := hid p hp
        exact ⟨id, List.mem_eraseDups.1 hmem, p, hflat, hpartial, hsize⟩
      · rintro ⟨id, hmem, p, hflat, hpartial, hsize⟩
        obtain ⟨p', hp', hflat'⟩ := hkey id (List.mem_eraseDups.2 hmem)
        rw [hflat] at hflat'
        cases hflat'
        exact ⟨p, hp', hpartial, hsize⟩

/-- **The limit on a set of identifiers**, of which the store is asked for those that the cache does not know. -/
theorem findMany_limit (hscan : s.tx.options.scan = some limits) (ids : List (C k).Id) :
    let wanted := (s.tx.cache k).unknown ids.eraseDups
    (∀ isPartial es, Cache.arePartial (E := C k) ids.eraseDups = .ok isPartial → (s.findMany k ids).1 = .ok es →
      es.length ≤ ((s.tx.cache k).known ids.eraseDups).length +
        wanted.length * if isPartial then limits.maxSize else 1) ∧
      (s.tx.closedBy = none → s.tx.hasWritten = false →
        ((s.findMany k ids).1 = .error (tooLarge k limits C) ↔
          (∃ isPartial, Cache.arePartial (E := C k) ids.eraseDups = .ok isPartial) ∧ s.Overruns k limits wanted)) := by
  intro wanted
  have hanswer : (s.findMany k ids).1 =
      ((s.tx.cache k).merge ids (fun wanted s => s.findUncached k wanted) s).1 := by
    unfold findMany
    split <;> rename_i hmerge <;> rw [hmerge]
  have hlimit : ∀ isPartial, Cache.arePartial (E := C k) ids.eraseDups = .ok isPartial → _ :=
    fun isPartial hsame => findUncached_limit hscan wanted fun id hid =>
      Cache.flatten_of_arePartial hsame id (List.mem_filter.1 hid).1
  rw [hanswer]
  refine ⟨fun isPartial es hsame hes => Cache.length_merge hes (hlimit isPartial hsame).1, fun ho hw => ?_⟩
  refine Cache.merge_invalidOperation_iff.trans (and_congr_right fun hpartial => ?_)
  obtain ⟨isPartial, hsame⟩ := hpartial
  rw [← (hlimit isPartial hsame).2 ho hw]
  refine ⟨And.right, fun h => ⟨fun hnone => ?_, h⟩⟩
  obtain ⟨id, hid, -⟩ := ((hlimit isPartial hsame).2 ho hw).1 h
  rw [show wanted = [] from hnone] at hid
  cases hid

end Session

/-! ## Scans of a repository -/

theorem Session.overruns_congr {s s' : Session C} {k : κ} (h : s'.rows k = s.rows k) (limits : ScanLimits)
    (ids : List (C k).Id) : s'.Overruns k limits ids ↔ s.Overruns k limits ids := by
  unfold Overruns matching
  rw [h]

namespace Repository

/-- **What the limit of a scan refuses.**  After any history, no table and no interval that a scan reads has more rows
in the answer than the limit allows, and while the scan is open it is refused exactly if the rows it sees there are
more; of an interval, provided that it can judge the keys of the table.  A set of identifiers that are all complete or
all partial brings at most what the cache knows of them, and of the others one row for each complete one and as many
rows as the limit allows for each partial one; it is refused exactly if a single partial identifier that the cache does
not know agrees with more. -/
theorem scan_limit (as : List (Action C)) (id : TxId) (s : Session C) {limits : ScanLimits}
    (hs : (({} : Repository C).after as).session? id = some s) (hscan : s.tx.options.scan = some limits) (k : κ) :
    let r := ({} : Repository C).after as
    let refused {α : Type} (answer : Except Error α) : Prop := answer = .error (Session.tooLarge k limits C)
    let isOpen := s.tx.closedBy = none
    ((∀ es, (r.perform (.statement id (.findAll k))).1 = .ok es → es.length ≤ limits.maxSize) ∧
      (isOpen → (refused (r.perform (.statement id (.findAll k))).1 ↔ limits.maxSize < (s.rows k).length))) ∧
    (∀ range : Interval X,
      (∀ es, (r.perform (.statement id (.findRange k range))).1 = .ok es → es.length ≤ limits.maxSize) ∧
        (isOpen → (refused (r.perform (.statement id (.findRange k range))).1 ↔
          (∀ c e, s.row k c = some e → ∃ b, range.containsCells c = .ok b) ∧
            limits.maxSize < s.matching k (Session.judged range.containsCells)))) ∧
    ∀ ids : List (C k).Id,
      let wanted := (s.tx.cache k).unknown ids.eraseDups
      (∀ isPartial es, Cache.arePartial (E := C k) ids.eraseDups = .ok isPartial →
        (r.perform (.statement id (.findMany k ids))).1 = .ok es →
          es.length ≤ ((s.tx.cache k).known ids.eraseDups).length +
            wanted.length * if isPartial then limits.maxSize else 1) ∧
      (isOpen → (refused (r.perform (.statement id (.findMany k ids))).1 ↔
        (∃ isPartial, Cache.arePartial (E := C k) ids.eraseDups = .ok isPartial) ∧ s.Overruns k limits wanted)) := by
  intro r refused isOpen
  have hsound : s.storage.Sound := ((sound_after sound_empty as).session id s hs).2.2.2.storage
  have hopens := Session.Reads.openTable s k
  have hrows := hopens.rows_eq k
  have hsound' : (s.openTable k).storage.Sound := hopens.storage ▸ hsound
  have hscan' : (s.openTable k).tx.options.scan = some limits := hopens.options ▸ hscan
  have hclosed : (s.openTable k).tx.closedBy = s.tx.closedBy := hopens.closedBy
  -- a scan never writes
  have hunwritten : isOpen → (s.openTable k).tx.hasWritten = false := fun ho => by
    refine hopens.hasWritten.trans (valid_of_unapplied as s hs (fun hm => ?_) ho).1
    unfold Transaction.isMutable TxOptions.isScan at hm
    rw [hscan] at hm
    cases hm
  have hanswer : ∀ op : TableOp C, (r.perform (.statement id op)).1 = (op.run s).1 :=
    fun op => congrArg Prod.fst (onSession_of_some hs op.run)
  refine ⟨?_, fun range => ?_, fun ids => ?_⟩
  · rw [hanswer (.findAll k)]
    obtain ⟨hsize, hrefused⟩ := Session.collect_limit (k := k) hsound' hscan' .table s!"findAll({(C k).table})"
      (fun _ => .ok true) nofun
    refine ⟨hsize, fun ho => (hrefused (hclosed.trans ho) (hunwritten ho)).trans ?_⟩
    have hall : (s.openTable k).matching k (Session.judged fun _ => .ok true) = (s.rows k).length := by
      unfold Session.matching
      rw [hrows]
      exact congrArg List.length (List.filter_eq_self.2 fun _ _ => rfl)
    rw [hall]
    exact and_iff_right fun _ _ _ => ⟨true, rfl⟩
  · rw [hanswer (.findRange k range)]
    obtain ⟨hsize, hrefused⟩ := Session.collect_limit (k := k) hsound' hscan' (.interval range) s!"find({range.text})"
      range.containsCells fun c e hc he => by
        rw [Interval.eq_unjudged_of_containsCells hc] at he
        cases he
    refine ⟨hsize, fun ho => (hrefused (hclosed.trans ho) (hunwritten ho)).trans ?_⟩
    unfold Session.matching
    simp only [hrows, hopens.row_eq]
  · rw [hanswer (.findMany k ids)]
    obtain ⟨hsize, hrefused⟩ := Session.findMany_limit (k := k) hscan' ids
    rw [s.cache_openTable k k] at hsize hrefused
    refine ⟨hsize, fun ho => (hrefused (hclosed.trans ho) (hunwritten ho)).trans ?_⟩
    rw [Session.overruns_congr hrows]

end Repository

namespace Sample

/-- Two items are published, and a scan begins that may read a single row at a time. -/
def scanned : List (Action (catalog "sample")) :=
  [.start {}, .statement 1 (.save .item (numbered 1 "first")), .statement 1 (.save .item (numbered 2 "second")),
    .commit 1, .start { scan := some { maxSize := 1 } }]

/-- What the scan brings for a set of identifiers. -/
def brought (ids : List ItemId) : Option (List Item) :=
  ((({} : Repository (catalog "sample")).after scanned).perform (.statement 2 (.findMany .item ids))).1.toOption

end Sample

open Sample in
theorem Repository.scan_limit_scanned :
    let r := ({} : Repository (catalog "sample")).after scanned
    ∃ s, r.session? 2 = some s ∧ s.tx.options.scan = some { maxSize := 1 } ∧
      (r.perform (.statement 2 (.findMany .item [⟨none, some 0, none, none⟩]))).1 =
        .error (Session.tooLarge .item { maxSize := 1 } (catalog "sample")) := by
  intro r
  obtain ⟨s, hs⟩ : ∃ s, r.session? 2 = some s := ⟨_, rfl⟩
  have hscan : s.tx.options.scan = some { maxSize := 1 } := by cases hs; rfl
  refine ⟨s, hs, hscan, (((scan_limit scanned 2 s hs hscan .item).2.2 _).2 ?_).2 ⟨⟨true, rfl⟩, ?_⟩⟩
  · cases hs
    rfl
  · cases hs
    exact ⟨⟨none, some 0, none, none⟩, List.mem_singleton.2 rfl, _, rfl, rfl, by decide +kernel⟩

open Sample in
/-- A scan that may read one row returns two for two complete identifiers, and for two partial ones. -/
theorem Repository.scan_limit_passed_by_sets :
    (∃ s, (({} : Repository (catalog "sample")).after scanned).session? 2 = some s ∧
      s.tx.options.scan = some { maxSize := 1 }) ∧
    brought [(numbered 1 "").id, (numbered 2 "").id] = some [numbered 1 "first", numbered 2 "second"] ∧
      brought [⟨some 1, none, none, none⟩, ⟨some 2, none, none, none⟩] =
        some [numbered 1 "first", numbered 2 "second"] := by
  exact ⟨⟨_, rfl, rfl⟩, EntityType.mergeSort_of_ordered some rfl (List.pairwise_pair.2 (by decide)),
    EntityType.mergeSort_of_ordered some rfl (List.pairwise_pair.2 (by decide))⟩

end EntityStore
