import EntityStore.Proofs.CanonicalOrder
import EntityStore.Proofs.Latest
import EntityStore.Samples.Account
/-!
# The cache does not show

Where load hooks leave entities alone and writes are applied at once, a cache is a copy: each of its slots is the row that
the transaction sees (`Session.Faithful`), and whatever it answers, the rows answer too.  So a transaction that runs by
itself says and does the same with its caches and without (`Repository.cache_transparent`).
-/
namespace EntityStore

variable {X : Scalars} {κ : Type} [DecidableEq κ] {C : κ → EntityType X}

namespace Storage

theorem read_write_of_refused {s : Storage C} (h : s.Sound) {tx : TxId} {v : Nat} {k : κ} {w : Write (C k)}
    (hno : (s.write tx v k w).1 ≠ .ok ()) (other : TxId) (u : Nat) (j : κ) (c : Cells X) :
    (s.write tx v k w).2.read other u j c = s.read other u j c := by
  rw [read_eq, read_eq, published_write h, draft?_write_of_refused h hno]

end Storage

theorem Cache.schema_of_arePartial {E : EntityType X} {ids : List E.Id} {isPartial : Bool}
    (h : Cache.arePartial (E := E) ids = .ok isPartial) : ∃ schema, E.schema = .ok schema := by
  unfold Cache.arePartial at h
  split at h
  · cases h
  · exact ⟨_, ‹_›⟩

namespace Session

variable {s s' : Session C} {k : κ}

/-! ## What reads answer from the rows alone -/

theorem Latest.fst_findUncached (h : s.Latest) (k : κ) (ids : List (C k).Id) :
    (s.findUncached k ids).1 =
      match (C k).schema with
      | .error e => .error e
      | .ok _ =>
        match (s.lockIds k ids.eraseDups).1 with
        | .error e => .error e
        | .ok keys => pickKeys s.tx k (s.row k) (s.rows k) keys := by
  cases hschema : (C k).schema with
  | error e =>
    unfold findUncached
    rw [hschema]
  | ok schema =>
    cases hlock : (s.lockIds k ids.eraseDups).1 with
    | error e =>
      unfold findUncached
      rw [hschema, show s.lockIds k ids.eraseDups = (.error e, _) from Prod.ext hlock rfl]
    | ok keys =>
      have hlatest : (s.lockIds k ids.eraseDups).2.Latest :=
        (congruence_alike.lockIds ids.eraseDups h.alike).2.latest₁
      rw [findUncached_eq_read hschema hlock, hlatest.read_eq]
      exact (Reads.lockIds k ids.eraseDups s).rowsOfKeys_eq keys

omit [DecidableEq κ] in
theorem pickKeys_of_complete (t : Transaction C) (k : κ) (row : Cells X → Option (C k).Entity)
    (rows : List (Cells X × (C k).Entity)) : ∀ {keys : List (Cells X)}, (∀ c ∈ keys, Cells.isPartial c = false) →
      ∃ picked, pickKeys t k row rows keys = .ok picked
  | [], _ => ⟨[], rfl⟩
  | c :: rest, hkeys => by
    obtain ⟨more, hmore⟩ := pickKeys_of_complete t k row rows fun c' hc' => hkeys c' (List.mem_cons_of_mem c hc')
    refine ⟨(row c).toList ++ more, ?_⟩
    rw [pickKeys, if_neg (by rw [hkeys c List.mem_cons_self]; exact Bool.false_ne_true), hmore]

/-! ## Caches that are copies -/

/-- The rows that a transaction sees, under complete identifiers. -/
def stored (s : Session C) : View C := fun k id e? =>
  ∃ c, (C k).flatten id = .ok c ∧ Cells.isPartial c = false ∧ s.row k c = e?

/-- A transaction that applies its writes at once and that nobody has overtaken.  All rows that it sees lie under the
complete flat forms of their own identifiers, and its caches, if it has any, know of them only what is so. -/
structure Faithful (s : Session C) : Prop where
  latest : s.Latest
  immediate : s.tx.options.isImmediate = true
  tidy : ∀ k c e, s.row k c = some e → (C k).flatten ((C k).idOf e) = .ok c ∧ Cells.isPartial c = false
  holds : ∀ k, (s.tx.cache k).Holds (s.stored k)
  blank : ∀ k, (s.tx.cache k).enabled = false → ∀ id, (s.tx.cache k).lookup id = none

theorem decides_stored (s : Session C) (k : κ) : Cache.Decides (s.stored k) := by
  rintro id _ _ ⟨c, hc, -, rfl⟩ ⟨c', hc', -, rfl⟩
  rw [hc] at hc'
  cases hc'
  rfl

theorem stored_congr (hrow : ∀ k c, s'.row k c = s.row k c) : s'.stored = s.stored := by
  unfold stored
  simp only [hrow]

section

variable (hload : ∀ k (e : (C k).Entity), (C k).onLoad e = e) (hids : ∀ k, (C k).TellsApart)

include hload in
omit [DecidableEq κ] in
theorem keepsIds_of_identity (k : κ) : Cache.KeepsIds (C k) := fun e => congrArg (C k).idOf (hload k e)

include hload in
theorem Faithful.agrees (h : s.Faithful) {c : Cells X} {e : (C k).Entity} (hrow : s.row k c = some e) (t : Cache (C k)) :
    Cache.Agrees (s.stored k) t e := fun _ =>
  ⟨c, (h.tidy k c e hrow).1, (h.tidy k c e hrow).2, hrow.trans (congrArg some (hload k e).symm)⟩

include hload in
theorem Faithful.confirms (h : s.Faithful) (k : κ) : s.Confirms s.stored k where
  present _ _ hrow := ⟨(h.tidy k _ _ hrow).1, h.agrees hload hrow _⟩
  absent _ c hc hcomplete hrow _ := ⟨c, hc, hcomplete, hrow⟩

theorem Faithful.learns (h : s.Faithful) (hlatest : s'.Latest) (hoptions : s'.tx.options = s.tx.options)
    (hrow : ∀ k c, s'.row k c = s.row k c) (hlearns : ∀ k, (s.tx.cache k).Learns (s'.tx.cache k))
    (hholds : ∀ k, (s'.tx.cache k).Holds (s.stored k)) : s'.Faithful where
  latest := hlatest
  immediate := hoptions ▸ h.immediate
  tidy k c e he := h.tidy k c e (hrow k c ▸ he)
  holds k := stored_congr hrow ▸ hholds k
  blank k hdisabled := by
    have hbefore := (hlearns k).extends.enabled.symm.trans hdisabled
    rw [(hlearns k).eq_of_disabled hbefore]
    exact h.blank k hbefore

/-! ## What a copy answers -/

include hload in
theorem Faithful.fst_find (h : s.Faithful) (k : κ) (id : (C k).Id) :
    (s.find k id).1 =
      match (C k).flatten id with
      | .error e => .error e
      | .ok c =>
        if Cells.isPartial c then .error (.invalidArgument s!"Cannot use partial id in find method: {(C k).idText id}")
        else .ok (s.row k c) := by
  unfold find
  cases hc : (C k).flatten id with
  | error e => rfl
  | ok c =>
    dsimp only
    split
    · rfl
    · split
      · rename_i hknown
        obtain ⟨slot, hslot⟩ := Option.isSome_iff_exists.1 hknown
        obtain ⟨⟨c', hc', -, hrow⟩, -⟩ := h.holds k id slot hslot
        rw [hc] at hc'
        cases hc'
        unfold Cache.peek
        rw [hslot, hrow]
      · have hlocked : (s.lockRow k c).Latest := h.latest.reads (.lockRow ..) rfl
        unfold findUnknown
        dsimp only
        rw [hlocked.read_eq]
        refine congrArg Except.ok ?_
        have hrow : ((s.lockRow k c).storage.shard? k).bind (fun shard =>
            shard.read (s.lockRow k c).tx.id (s.lockRow k c).version c) = s.row k c := (Reads.lockRow s k c).row_eq k c
        rw [hrow]
        cases s.row k c with
        | none => rfl
        | some e => exact congrArg some (hload k e)

include hload in
theorem Faithful.absorb_eq (h : s.Faithful) {c : Cells X} {e : (C k).Entity} (hrow : s.row k c = some e)
    {t : Cache (C k)} (ht : t.Holds (s.stored k)) : (t.absorb e).1 = some e := by
  have hview := (ht.absorb_view (keepsIds_of_identity hload k) (h.agrees hload hrow t)).1
  exact s.decides_stored k _ _ _ hview ⟨c, (h.tidy k c e hrow).1, (h.tidy k c e hrow).2, hrow⟩

include hload in
theorem Faithful.absorbAll_eq (h : s.Faithful) : ∀ {rows : List (C k).Entity} {t : Cache (C k)},
    (∀ e ∈ rows, ∃ c, s.row k c = some e) → t.Holds (s.stored k) → (t.absorbAll rows).1 = rows
  | [], _, _, _ => rfl
  | e :: rest, t, hrows, ht => by
    obtain ⟨c, hrow⟩ := hrows e List.mem_cons_self
    obtain ⟨hfirst, -, -⟩ := ht.absorb (keepsIds_of_identity hload k) (h.agrees hload hrow t)
    have hrest := h.absorbAll_eq (fun e' he' => hrows e' (List.mem_cons_of_mem e he')) hfirst
    rw [Cache.absorbAll]
    dsimp only
    rw [h.absorb_eq hload hrow ht, hrest]
    rfl

include hload in
theorem Faithful.fst_scan (h : s.Faithful) (k : κ) (scan : Scan X) (action : String) (keep : Cells X → Except Error Bool) :
    let r := (s.lockScan k scan).read k action (rowsText k) ((s.lockScan k scan).collect k keep)
    (r.2.absorbRows k r.1).1 = pick s.tx k keep (s.rows k) := by
  intro r
  have hlocked : (s.lockScan k scan).Latest := h.latest.reads (.lockScan ..) rfl
  obtain ⟨hcaches, hoptions⟩ := s.caches_scan k scan action keep
  have hcache : r.2.tx.cache k = s.tx.cache k := cache_of_caches hcaches hoptions k
  have hanswer : r.1 = pick s.tx k keep (s.rows k) := by
    have hread : r.1 = (s.lockScan k scan).collect k keep (s.storage.shard? k) s.version :=
      congrArg Prod.fst (hlocked.read_eq ..)
    rw [hread, collect_eq_pick]
    rfl
  rw [hanswer]
  cases hpick : pick s.tx k keep (s.rows k) with
  | error e => rfl
  | ok rows =>
    unfold absorbRows
    rw [hcache]
    refine congrArg Except.ok (h.absorbAll_eq hload (fun e he => ?_) (h.holds k))
    obtain ⟨c, hc, -⟩ := (mem_pick_iff hpick e).1 he
    exact ⟨c, (h.latest.sound.storage.mem_rows _ _ k c e).1 hc⟩

/-- An entity lies under an identifier that is asked for. -/
def Brings (s : Session C) (k : κ) (ids : List (C k).Id) (e : (C k).Entity) : Prop :=
  ∃ id ∈ ids, ∃ p, (C k).flatten id = .ok p ∧ ∃ c, Cells.Wants p c ∧ s.row k c = some e

theorem Latest.findUncached_of_complete (h : s.Latest) {schema : Schema} (hschema : (C k).schema = .ok schema)
    {ids : List (C k).Id} (hflat : ∀ id ∈ ids, ∃ p, (C k).flatten id = .ok p ∧ Cells.isPartial p = false) :
    ∃ rows, (s.findUncached k ids).1 = .ok rows := by
  have hmem : ∀ id ∈ ids.eraseDups, ∃ p, (C k).flatten id = .ok p ∧ Cells.isPartial p = false :=
    fun id hid => hflat id (List.mem_eraseDups.1 hid)
  obtain ⟨keys, hkeys⟩ := exists_keys_of_lockIds k ids.eraseDups s fun id hid => (hmem id hid).imp fun _ => And.left
  rw [h.fst_findUncached, hschema, hkeys]
  refine pickKeys_of_complete s.tx k _ _ fun c hc => ?_
  obtain ⟨id, hid, hflat'⟩ := (keys_of_lockIds k ids.eraseDups hkeys).2 c hc
  obtain ⟨p, hp, hcomplete⟩ := hmem id hid
  rw [hflat'] at hp
  cases hp
  exact hcomplete

theorem Faithful.isPartial_of_known (h : s.Faithful) {id : (C k).Id} (hknown : (s.tx.cache k).contains id = true)
    {p : Cells X} (hp : (C k).flatten id = .ok p) : Cells.isPartial p = false := by
  obtain ⟨slot, hslot⟩ := Option.isSome_iff_exists.1 hknown
  obtain ⟨⟨c, hc, hcomplete, -⟩, -⟩ := h.holds k id slot hslot
  rw [hp] at hc
  cases hc
  exact hcomplete

include hids in
/-- What a copy knows and what the store is asked for are together what is asked for. -/
theorem Faithful.brings_iff (h : s.Faithful) {ids : List (C k).Id} {rows : List (C k).Entity}
    (hrows : ∀ e, e ∈ rows ↔ s.Brings k ((s.tx.cache k).unknown ids) e) (e : (C k).Entity) :
    (s.stored k ((C k).idOf e) (some e) ∧ (((C k).idOf e ∈ ids ∧ (s.tx.cache k).contains ((C k).idOf e) = true) ∨
      ∃ row ∈ rows, (C k).idOf row = (C k).idOf e)) ↔ s.Brings k ids e := by
  constructor
  · rintro ⟨⟨c, hc, hcomplete, hrow⟩, ⟨hid, -⟩ | ⟨row, hmem, hid⟩⟩
    · refine ⟨_, hid, c, hc, c, ?_, hrow⟩
      unfold Cells.Wants
      rw [if_neg (by rw [hcomplete]; exact Bool.false_ne_true)]
    · obtain ⟨id, hwanted, p, hp, c', hwants, hrow'⟩ := (hrows row).1 hmem
      have hc' := (h.tidy k c' row hrow').1
      rw [hid, hc] at hc'
      cases hc'
      exact ⟨id, (List.mem_filter.1 hwanted).1, p, hp, c, hwants, hrow⟩
  · rintro ⟨id, hid, p, hp, c, hwants, hrow⟩
    obtain ⟨hc, hcomplete⟩ := h.tidy k c e hrow
    refine ⟨⟨c, hc, hcomplete, hrow⟩, ?_⟩
    cases hknown : (s.tx.cache k).contains id with
    | true =>
      -- a known identifier is complete, so that the only row under it is its own
      have hp' := h.isPartial_of_known hknown hp
      unfold Cells.Wants at hwants
      rw [if_neg (by rw [hp']; exact Bool.false_ne_true)] at hwants
      subst hwants
      cases hids k _ _ p hp hc hp'
      exact .inl ⟨hid, hknown⟩
    | false =>
      refine .inr ⟨e, (hrows e).2 ⟨id, List.mem_filter.2 ⟨hid, ?_⟩, p, hp, c, hwants, hrow⟩, rfl⟩
      rw [hknown]
      rfl

/-- What the store is asked for if some identifiers are wanted of it. -/
def asked (s : Session C) (k : κ) (wanted : List (C k).Id) : Except Error (List (C k).Entity) :=
  if wanted.isEmpty then .ok [] else (s.findUncached k wanted).1

theorem asked_of_ne {wanted : List (C k).Id} (hne : wanted ≠ []) : s.asked k wanted = (s.findUncached k wanted).1 :=
  if_neg (by simpa using hne)

theorem fst_findMany_eq (s : Session C) {ids : List (C k).Id} (hne : ids ≠ []) :
    (s.findMany k ids).1 =
      match Cache.arePartial (E := C k) ids.eraseDups with
      | .error e => .error e
      | .ok isPartial => ((s.tx.cache k).mergeAnswer ids isPartial
          (s.asked k ((s.tx.cache k).unknown ids.eraseDups))).1 := by
  refine Eq.trans ?_ ((s.tx.cache k).fst_merge (fun wanted s => s.findUncached k wanted) s hne)
  unfold findMany
  split <;> rename_i hmerge <;> rw [hmerge]

theorem mem_asked_iff (hs : s.storage.Sound) {wanted : List (C k).Id} {rows : List (C k).Entity}
    (h : s.asked k wanted = .ok rows) (e : (C k).Entity) : e ∈ rows ↔ s.Brings k wanted e := by
  by_cases hne : wanted = []
  · subst hne
    cases h
    exact ⟨nofun, fun ⟨_, hid, _⟩ => by cases hid⟩
  · exact (findUncached_eq_ok hs ((asked_of_ne hne).symm.trans h)).2.2 e

/-- The store fails for what a copy does not know just if it fails for all that is asked. -/
theorem Faithful.asked_unknown (h : s.Faithful) {ids : List (C k).Id} {isPartial : Bool}
    (hpartial : Cache.arePartial (E := C k) ids = .ok isPartial) :
    match s.asked k ids with
    | .error e => s.asked k ((s.tx.cache k).unknown ids) = .error e
    | .ok _ => ∃ rows, s.asked k ((s.tx.cache k).unknown ids) = .ok rows := by
  have hflat := Cache.flatten_of_arePartial hpartial
  -- a lookup of complete identifiers cannot fail; of partial ones a copy knows none, so that all of them are asked for
  cases isPartial with
  | false =>
    obtain ⟨schema, hschema⟩ := Cache.schema_of_arePartial hpartial
    have hasked : ∀ wanted : List (C k).Id, (∀ id ∈ wanted, id ∈ ids) → ∃ rows, s.asked k wanted = .ok rows := by
      intro wanted hwanted
      by_cases hne : wanted = []
      · subst hne
        exact ⟨[], rfl⟩
      · rw [asked_of_ne hne]
        exact h.latest.findUncached_of_complete hschema fun id hid => hflat id (hwanted id hid)
    obtain ⟨all, hall⟩ := hasked ids fun _ hid => hid
    rw [hall]
    exact hasked _ fun id hid => (List.mem_filter.1 hid).1
  | true =>
    have hwanted : (s.tx.cache k).unknown ids = ids := by
      refine List.filter_eq_self.2 fun id hid => ?_
      obtain ⟨p, hp, hpart⟩ := hflat id hid
      by_contra hknown
      rw [h.isPartial_of_known (by simpa using hknown) hp] at hpart
      cases hpart
    rw [hwanted]
    cases s.asked k ids with
    | error e => rfl
    | ok rows => exact ⟨rows, rfl⟩

include hload hids in
/-- **A read of identifiers fails as one past the cache does, and else lists what is there.** -/
theorem Faithful.fst_findMany (h : s.Faithful) {ids : List (C k).Id} (hne : ids ≠ []) {isPartial : Bool}
    (hpartial : Cache.arePartial (E := C k) ids.eraseDups = .ok isPartial) :
    match s.asked k ids.eraseDups with
    | .error e => (s.findMany k ids).1 = .error e
    | .ok _ => ∃ es, (s.findMany k ids).1 = .ok es ∧ (C k).Lists (s.Brings k ids.eraseDups) es := by
  have hasked := h.asked_unknown hpartial
  rw [s.fst_findMany_eq hne, hpartial]
  dsimp only
  cases hall : s.asked k ids.eraseDups with
  | error e =>
    rw [hall] at hasked
    dsimp only at hasked ⊢
    rw [hasked]
    rfl
  | ok all =>
    rw [hall] at hasked
    obtain ⟨rows, hrows⟩ := hasked
    have hmem := mem_asked_iff h.latest.sound.storage hrows
    obtain ⟨schema, hschema⟩ := Cache.schema_of_arePartial hpartial
    obtain ⟨es, hes, hlists⟩ := (h.holds k).lists_merged (s.decides_stored k) (keepsIds_of_identity hload k) (hids k)
      (fun id e ⟨c, hc, hcomplete, _⟩ => ⟨c, hc, hcomplete⟩) hschema ids.eraseDups fun e he => by
        obtain ⟨_, _, _, _, c, _, hrow⟩ := (hmem e).1 he
        exact h.agrees hload hrow _
    rw [hrows]
    exact ⟨es, hes, hlists.congr (h.brings_iff hids hmem)⟩

/-! ## Statements keep copies -/

theorem Reflects.holds_all {V : View C} (h : Reflects V s s' k) (hholds : ∀ j, (s.tx.cache j).Holds (V j)) (j : κ) :
    (s'.tx.cache j).Holds (V j) := by
  by_cases hj : j = k
  · subst hj
    exact h.holds
  · exact h.others j hj ▸ hholds j

include hload hids in
theorem Faithful.holds_runOpen (h : s.Faithful) {op : TableOp C} (hop : op.WritesComplete) (hw : op.isWrite = false)
    (j : κ) : ((op.runOpen s).2.tx.cache j).Holds (s.stored j) := by
  have hconfirms : ∀ k s', ConfirmsRead s.stored s s' k := fun k _ _ _ => h.confirms hload k
  have hs := h.latest.sound.storage
  cases op with
  | find k id =>
    exact (reflects_find (keepsIds_of_identity hload k) (hids k) (h.holds k) (hconfirms k _)).1.holds_all h.holds j
  | findMany k ids =>
    exact (reflects_findMany hs (keepsIds_of_identity hload k) (hids k) (h.holds k) (hconfirms k _)).1.holds_all h.holds j
  | findUncached k ids =>
    exact cache_of_caches (s.caches_findUncached k ids) (Reads.findUncached s k ids).options j ▸ h.holds j
  | findRange k r =>
    exact (reflects_scan hs (keepsIds_of_identity hload k) (h.holds k) (.interval r) _ r.containsCells
      (hconfirms k _)).1.holds_all h.holds j
  | findAll k =>
    exact (reflects_scan hs (keepsIds_of_identity hload k) (h.holds k) .table _ (fun _ => .ok true)
      (hconfirms k _)).1.holds_all h.holds j
  | postLoad k row => exact hop.elim
  | cache k op => exact hop.elim
  | _ => cases hw

/-- A write that is applied at once and accepted shows, and one that is refused does not. -/
theorem row_of_writing (hs : s.storage.Sound) (hi : s.tx.options.isImmediate = true)
    {w : TableWrite C} (hid : s'.tx.id = s.tx.id) (hversion : s'.version = s.version)
    (hstorage : s'.storage = (s.writing w).2) (k : κ) (c : Cells X) :
    ((s.writing w).1 = .ok () → s'.row k c = (w.row? k c).getD (s.row k c)) ∧
      ((s.writing w).1 ≠ .ok () → s'.row k c = s.row k c) := by
  unfold row
  rw [hid, hversion, hstorage]
  unfold writing
  cases s.tx.ensureMutable with
  | error e => exact ⟨nofun, fun _ => rfl⟩
  | ok u =>
    dsimp only
    rw [if_pos hi]
    exact ⟨fun hok => Storage.read_write hs hok _ k c, fun hno => Storage.read_write_of_refused hs hno _ _ k c⟩

theorem Faithful.tidy_of_write (h : s.Faithful) {w : TableWrite C} (hkeyed : w.IsKeyed)
    (hcomplete : Cells.isPartial w.write.cells = false) (hrow : ∀ k c, s'.row k c = (w.row? k c).getD (s.row k c)) (k : κ)
    (c : Cells X) (e : (C k).Entity) (he : s'.row k c = some e) :
    (C k).flatten ((C k).idOf e) = .ok c ∧ Cells.isPartial c = false := by
  rw [hrow] at he
  cases hw : w.row? k c with
  | none =>
    rw [hw] at he
    exact h.tidy k c e he
  | some row =>
    rw [hw] at he
    obtain ⟨rfl, rfl⟩ := TableWrite.eq_of_row? hw
    rw [TableWrite.row?_self w.kind w.write, if_pos rfl] at hw
    exact ⟨hkeyed e ((Option.some.inj hw).trans he), hcomplete⟩

theorem Overwrites.blank {w : TableWrite C} (hover : Overwrites s s' w)
    (hblank : ∀ k, (s.tx.cache k).enabled = false → ∀ id, (s.tx.cache k).lookup id = none) (k : κ)
    (hdisabled : (s'.tx.cache k).enabled = false) (id' : (C k).Id) : (s'.tx.cache k).lookup id' = none := by
  obtain ⟨id, slot, -, -, -, hcache, hothers⟩ := hover
  by_cases hk : k = w.kind
  · subst hk
    rw [hcache, Cache.enabled_setSlot] at hdisabled
    rw [hcache, Cache.lookup_setSlot, hdisabled, if_neg (fun hc => Bool.false_ne_true hc.1)]
    exact hblank _ hdisabled id'
  · rw [hothers k hk] at hdisabled ⊢
    exact hblank k hdisabled id'

include hids in
theorem Faithful.overwrites (h : s.Faithful) (hlatest : s'.Latest) (hoptions : s'.tx.options = s.tx.options)
    {w : TableWrite C} (hkeyed : w.IsKeyed) (hcomplete : Cells.isPartial w.write.cells = false)
    (hover : Overwrites s s' w) (hrow : ∀ k c, s'.row k c = (w.row? k c).getD (s.row k c)) : s'.Faithful := by
  have hblank := hover.blank h.blank
  refine ⟨hlatest, hoptions ▸ h.immediate, h.tidy_of_write hkeyed hcomplete hrow, fun k => ?_, hblank⟩
  obtain ⟨id, slot, hflat, hslot, hown, hcache, hothers⟩ := hover
  -- under every other identifier the row is what it was
  have hkept : ∀ k id', (∀ c, (C k).flatten id' = .ok c → w.row? k c = none) → ∀ e?, s.stored k id' e? →
      s'.stored k id' e? := by
    rintro k id' hnone e? ⟨c, hc, hc', he⟩
    refine ⟨c, hc, hc', ?_⟩
    rw [hrow, hnone c hc, Option.getD_none]
    exact he
  by_cases hk : k = w.kind
  · subst hk
    cases henabled : (s'.tx.cache w.kind).enabled with
    | false =>
      intro id' slot' hslot'
      rw [hblank _ henabled id'] at hslot'
      cases hslot'
    | true =>
      rw [hcache] at henabled ⊢
      rw [Cache.enabled_setSlot] at henabled
      refine (h.holds w.kind).overwrite henabled ⟨w.write.cells, hflat, hcomplete, ?_⟩ hown fun id' hne => ?_
      · rw [hrow, TableWrite.row?_self w.kind w.write, if_pos rfl, hslot]
        rfl
      · rintro e? ⟨c, hc, hc', he⟩
        refine hkept w.kind id' (fun p hp => ?_) e? ⟨c, hc, hc', he⟩
        rw [hc] at hp
        cases hp
        rw [TableWrite.row?_self w.kind w.write, if_neg]
        rintro rfl
        exact hne (hids _ _ _ _ hc hflat hc')
  · rw [hothers k hk]
    refine (h.holds k).mono fun id' => hkept k id' fun c _ => ?_
    exact TableWrite.row?_of_ne (Ne.symm hk) w.write c

theorem Faithful.openTable (h : s.Faithful) (k : κ) : (s.openTable k).Faithful := by
  have hr := Reads.openTable s k
  refine h.learns (congruence_alike.openTable h.latest.alike k).latest₁ hr.options hr.row_eq (fun j => ?_) fun j => ?_
  · rw [s.cache_openTable k j]
    exact .refl
  · rw [s.cache_openTable k j]
    exact h.holds j

include hload hids in
/-- **Every statement leaves a copy.** -/
theorem Faithful.run (h : s.Faithful) {op : TableOp C} (hop : op.WritesComplete) : (op.run s).2.Faithful := by
  have hopen := h.openTable op.kind
  have hlatest : (op.runOpen (s.openTable op.kind)).2.Latest := op.latest_run h.latest
  show (op.runOpen (s.openTable op.kind)).2.Faithful
  generalize s.openTable op.kind = t at hopen hlatest ⊢
  have hoptions := (op.effect_runOpen t).advances.options
  cases hw : op.isWrite with
  | false =>
    exact hopen.learns hlatest hoptions (op.reads_runOpen hw t).row_eq (op.learns_runOpen t)
      (hopen.holds_runOpen hload hids hop hw)
  | true =>
    rcases op.runOpen_of_isWrite hw with ⟨_, _, he⟩ | ⟨w, a, hwrite, hspec⟩
    · rw [he]
      exact hopen
    · obtain ⟨hfst, hstorage⟩ := hspec t hopen.latest.isOpen
      have hrow := row_of_writing hopen.latest.sound.storage hopen.immediate (op.effect_runOpen t).advances.id
        (op.version_runOpen t) hstorage
      rcases op.overwrites_runOpen t hw with ⟨e, herror, hsame⟩ | ⟨⟨a', hok⟩, w', hwrite', hover⟩
      · have hno : (t.writing w).1 ≠ .ok () := by
          rw [refused_of_answer (hfst.symm.trans herror)]
          exact nofun
        exact hopen.learns hlatest hoptions (fun k c => (hrow k c).2 hno) (fun j => hsame j ▸ .refl)
          fun j => hsame j ▸ hopen.holds j
      · have hyes : (t.writing w).1 = .ok () := accepted_of_answer (hfst.symm.trans hok)
        rw [hwrite] at hwrite'
        cases hwrite'
        exact hopen.overwrites hids hlatest hoptions (TableOp.isKeyed_of_write? hwrite) (hop.write? hwrite) hover
          fun k c => (hrow k c).1 hyes

/-! ## Two copies side by side -/

/-- Two transactions that differ in their caches alone, both of which are copies. -/
structure Level (s₁ s₂ : Session C) : Prop where
  faithful₁ : s₁.Faithful
  faithful₂ : s₂.Faithful
  storage : s₁.storage = s₂.storage
  id : s₁.tx.id = s₂.tx.id
  options : { s₁.tx.options with cache := true } = { s₂.tx.options with cache := true }

section

variable {s₁ s₂ : Session C}

theorem Level.scan (h : Level s₁ s₂) : s₁.tx.options.scan = s₂.tx.options.scan := (congrArg TxOptions.scan h.options :)

theorem Level.isolation (h : Level s₁ s₂) : s₁.tx.options.isolation = s₂.tx.options.isolation :=
  (congrArg TxOptions.isolation h.options :)

theorem Level.version (h : Level s₁ s₂) : s₁.version = s₂.version := by
  rw [h.faithful₁.latest.newest, h.faithful₂.latest.newest, h.storage]

theorem Level.row (h : Level s₁ s₂) (k : κ) : s₁.row k = s₂.row k := by
  funext c
  unfold Session.row
  rw [h.storage, h.id, h.version]

theorem Level.rows (h : Level s₁ s₂) (k : κ) : s₁.rows k = s₂.rows k := by
  unfold Session.rows
  rw [h.storage, h.id, h.version]

theorem Level.writing (h : Level s₁ s₂) (w : TableWrite C) : s₁.writing w = s₂.writing w :=
  writing_congr (ensureMutable_congr h.scan h.isolation)
    (h.faithful₁.immediate.trans h.faithful₂.immediate.symm) h.id h.storage h.version w

theorem Level.openTable (h : Level s₁ s₂) (k : κ) : Level (s₁.openTable k) (s₂.openTable k) where
  faithful₁ := h.faithful₁.openTable k
  faithful₂ := h.faithful₂.openTable k
  storage := by rw [(Reads.openTable s₁ k).storage, (Reads.openTable s₂ k).storage, h.storage]
  id := by rw [(Reads.openTable s₁ k).id, (Reads.openTable s₂ k).id, h.id]
  options := by rw [(Reads.openTable s₁ k).options, (Reads.openTable s₂ k).options, h.options]

theorem Level.fst_findUncached (h : Level s₁ s₂) (k : κ) (ids : List (C k).Id) :
    (s₁.findUncached k ids).1 = (s₂.findUncached k ids).1 := by
  rw [h.faithful₁.latest.fst_findUncached, h.faithful₂.latest.fst_findUncached, h.row k, h.rows k,
    fst_lockIds k ids.eraseDups s₁ s₂]
  simp only [pickKeys_congr h.scan]

include hload hids in
theorem Level.fst_findMany (h : Level s₁ s₂) (k : κ) (ids : List (C k).Id) :
    (s₁.findMany k ids).1 = (s₂.findMany k ids).1 := by
  by_cases hne : ids = []
  · subst hne
    rfl
  cases hpartial : Cache.arePartial (E := C k) ids.eraseDups with
  | error e => rw [fst_findMany_eq s₁ hne, fst_findMany_eq s₂ hne, hpartial]
  | ok isPartial =>
    have hlists₁ := h.faithful₁.fst_findMany hload hids hne hpartial
    have hlists₂ := h.faithful₂.fst_findMany hload hids hne hpartial
    have hasked : s₁.asked k ids.eraseDups = s₂.asked k ids.eraseDups := by
      unfold asked
      rw [h.fst_findUncached]
    rw [hasked] at hlists₁
    cases hanswer : s₂.asked k ids.eraseDups with
    | error e =>
      rw [hanswer] at hlists₁ hlists₂
      exact hlists₁.trans hlists₂.symm
    | ok rows =>
      rw [hanswer] at hlists₁ hlists₂
      obtain ⟨es, hes, hlist⟩ := hlists₁
      obtain ⟨es', hes', hlist'⟩ := hlists₂
      have hsame : s₁.Brings k ids.eraseDups = s₂.Brings k ids.eraseDups := by
        unfold Brings
        rw [h.row k]
      rw [hes, hes', hlist.unique (hsame ▸ hlist')]

include hload hids in
theorem Level.fst_runOpen (h : Level s₁ s₂) {op : TableOp C} (hop : op.WritesComplete) :
    (op.runOpen s₁).1 = (op.runOpen s₂).1 := by
  cases hw : op.isWrite with
  | true =>
    rcases op.runOpen_of_isWrite hw with ⟨_, _, he⟩ | ⟨w, a, -, hspec⟩
    · rw [he, he]
    · rw [(hspec s₁ h.faithful₁.latest.isOpen).1, (hspec s₂ h.faithful₂.latest.isOpen).1, h.writing]
  | false =>
    have hscan : ∀ k scan action keep, _ := fun k scan action keep =>
      ((h.faithful₁.fst_scan hload k scan action keep).trans
        ((congrArg (pick s₁.tx k keep) (h.rows k)).trans (pick_congr h.scan k keep _))).trans
          (h.faithful₂.fst_scan hload k scan action keep).symm
    cases op with
    | find k id =>
      show (s₁.find k id).1 = (s₂.find k id).1
      rw [h.faithful₁.fst_find hload, h.faithful₂.fst_find hload, h.row k]
    | findMany k ids => exact h.fst_findMany hload hids k ids
    | findUncached k ids => exact h.fst_findUncached k ids
    | findRange k r => exact hscan k (.interval r) _ r.containsCells
    | findAll k => exact hscan k .table _ (fun _ => .ok true)
    | postLoad k row => exact hop.elim
    | cache k op => exact hop.elim
    | _ => cases hw

include hload hids in
/-- **Two copies side by side answer the same, and stay side by side.** -/
theorem Level.run (h : Level s₁ s₂) {op : TableOp C} (hop : op.WritesComplete) :
    (op.run s₁).1 = (op.run s₂).1 ∧ Level (op.run s₁).2 (op.run s₂).2 := by
  have hopen := h.openTable op.kind
  have hadv₁ := (op.effect s₁).advances
  have hadv₂ := (op.effect s₂).advances
  refine ⟨hopen.fst_runOpen hload hids hop, h.faithful₁.run hload hids hop, h.faithful₂.run hload hids hop, ?_, ?_, ?_⟩
  · show (op.runOpen (s₁.openTable op.kind)).2.storage = (op.runOpen (s₂.openTable op.kind)).2.storage
    cases hw : op.isWrite with
    | false => rw [(op.reads_runOpen hw _).storage, (op.reads_runOpen hw _).storage, hopen.storage]
    | true =>
      rcases op.runOpen_of_isWrite hw with ⟨_, _, he⟩ | ⟨w, a, -, hspec⟩
      · rw [he, he, hopen.storage]
      · rw [(hspec _ hopen.faithful₁.latest.isOpen).2, (hspec _ hopen.faithful₂.latest.isOpen).2, hopen.writing]
  · rw [hadv₁.id, hadv₂.id, h.id]
  · rw [hadv₁.options, hadv₂.options, h.options]

include hload hids in
theorem Level.runAll : ∀ {ops : List (TableOp C)} {s₁ s₂ : Session C}, Level s₁ s₂ →
    (∀ op ∈ ops, op.WritesComplete) →
      (s₁.runAll ops).1 = (s₂.runAll ops).1 ∧ Level (s₁.runAll ops).2 (s₂.runAll ops).2
  | [], _, _, h, _ => ⟨rfl, h⟩
  | op :: rest, s₁, s₂, h, hops => by
    obtain ⟨hanswer, hnext⟩ := h.run hload hids (hops op List.mem_cons_self)
    obtain ⟨hrest, hlevel⟩ := Level.runAll hnext fun op' hop' => hops op' (List.mem_cons_of_mem op hop')
    refine ⟨?_, hlevel⟩
    rw [Session.runAll, Session.runAll]
    dsimp only
    rw [hanswer, hrest]

theorem Level.conclude (h : Level s₁ s₂) (closing : Closing) :
    (s₁.conclude closing).1 = (s₂.conclude closing).1 ∧
      (s₁.conclude closing).2.storage = (s₂.conclude closing).2.storage := by
  have hm : s₁.tx.isMutable = s₂.tx.isMutable := by
    unfold Transaction.isMutable TxOptions.isScan TxOptions.isReadOnly TxOptions.isReadWrite
    rw [h.scan, h.isolation]
  have hreplayed : s₁.replayed = s₂.replayed := by
    unfold replayed
    rw [h.faithful₁.latest.sound.queued h.faithful₁.immediate, h.faithful₂.latest.sound.queued h.faithful₂.immediate,
      h.storage]
    rfl
  have hsame := unopposed_congr h.id hm hreplayed h.storage closing
  rw [← h.faithful₁.latest.conclude_eq, ← h.faithful₂.latest.conclude_eq] at hsame
  exact Prod.mk.inj hsame

end

end

end Session

/-! ## In a repository -/

namespace Repository

theorem mem_committed_iff {r : Repository C} (h : r.Sound) (k : κ) (c : Cells X) (e : (C k).Entity) :
    (c, e) ∈ r.committed k ↔ r.current.published r.current.version k c = some e := by
  refine ((Storage.sound_settled h.current).mem_rows ..).trans ?_
  rw [Storage.read_eq, Storage.draft?_settled, Storage.published_settled]
  rfl

/-- A transaction that begins on complete keys and applies its writes at once is a copy. -/
theorem faithful_begun (as : List (Action C))
    (hkeys : ∀ k, ∀ p ∈ (({} : Repository C).after as).committed k, Cells.isPartial p.1 = false) {options : TxOptions}
    (hi : options.isImmediate = true) : ((({} : Repository C).after as).begun options).Faithful := by
  have hr : (({} : Repository C).after as).Sound := sound_after sound_empty as
  have htells := Chronicle.tells_along Chronicle.tells_empty (sound_empty (C := C)) as
  have hkeyed := Chronicle.isKeyed_empty.along as ({} : Repository C)
  have hblank : ∀ k id, (((({} : Repository C).after as).begun options).tx.cache k).lookup id = none := fun _ _ => rfl
  refine ⟨Session.latest_begun hr options, hi, fun k c e hrow => ?_, fun k id slot hslot => ?_, fun k _ => hblank k⟩
  · rw [Session.row_eq_published hr.current (hr.untouched_begun options)] at hrow
    refine ⟨?_, hkeys k (c, e) ((mem_committed_iff hr k c e).2 hrow)⟩
    have hledger := htells.ledger _ (Nat.le_refl _) (({} : Repository C).after as).current.version k c
    rw [storage_length] at hledger
    exact flatten_of_ledger_row (fun p hp => hkeyed.published p (.inl ⟨_, hp⟩)) (hledger.symm.trans hrow)
  · rw [hblank] at hslot
    cases hslot

/-- **The cache does not show.**  Let load hooks leave entities alone, and distinct complete identifiers have distinct
flat forms.  After any history that leaves complete keys only, a transaction that applies its writes at once and runs by
itself, writing complete identifiers, gets the same answers with its caches and without, from the first statement to the
commit or the rollback, and leaves the same rows in the same version. -/
theorem cache_transparent (hload : ∀ k (e : (C k).Entity), (C k).onLoad e = e) (hids : ∀ k, (C k).TellsApart)
    (as : List (Action C)) (hkeys : ∀ k, ∀ p ∈ (({} : Repository C).after as).committed k, Cells.isPartial p.1 = false)
    (options : TxOptions) (hi : options.isImmediate = true) (ops : List (TableOp C))
    (hops : ∀ op ∈ ops, op.WritesComplete) (closing : Closing) :
    let r := ({} : Repository C).after as
    let cached := r.single { options with cache := true } ops closing
    let uncached := r.single { options with cache := false } ops closing
    cached.1 = uncached.1 ∧ cached.2.version = uncached.2.version ∧
      ∀ k, cached.2.committed k = uncached.2.committed k := by
  intro r cached uncached
  have hr : r.Sound := sound_after sound_empty as
  obtain ⟨htold, hsound, hcurrent⟩ := single_spec hr { options with cache := true } ops closing
  obtain ⟨htold', hsound', hcurrent'⟩ := single_spec hr { options with cache := false } ops closing
  have hbegin : Session.Level (r.begun { options with cache := true }) (r.begun { options with cache := false }) :=
    ⟨faithful_begun as hkeys hi, faithful_begun as hkeys hi, rfl, rfl, rfl⟩
  obtain ⟨hanswers, hlevel⟩ := hbegin.runAll hload hids hops
  obtain ⟨hend, hstorage⟩ := hlevel.conclude closing
  have hsame : cached.2.current = uncached.2.current := hcurrent.trans (hstorage.trans hcurrent'.symm)
  refine ⟨?_, congrArg Storage.version hsame, fun k => ?_⟩
  · rw [htold, htold', hanswers, hend]
  · unfold committed
    rw [hsame]

end Repository

namespace Sample

/-- Accounts alone, whose load hook leaves them alone. -/
@[reducible] def plain : Unit → EntityType scalars := fun _ => Account.type "sample"

theorem flatten_plain (id : AccountId) : (plain ()).flatten id = .ok [some (.string id.name)] := rfl

theorem isComplete_plain (id : AccountId) : (plain ()).IsComplete id := by
  intro c hc
  cases hc
  rfl

theorem tellsApart_plain (k : Unit) : (plain k).TellsApart := by
  intro ⟨name⟩ ⟨name'⟩ c hc hc' _
  rw [flatten_plain, ← hc'] at hc
  cases hc
  rfl

/-- An account is published. -/
def onePlain : List (Action plain) := [.start {}, .statement 1 (.save () (Account.mk ⟨"first"⟩ "" 100)), .commit 1]

/-- The account is inserted once more, in vain; it is deleted, and then inserted anew, with reads in between. -/
def renewing : List (TableOp plain) :=
  [.insert () (Account.mk ⟨"first"⟩ "" 200), .find () (AccountId.mk "first"), .delete () (AccountId.mk "first"),
    .find () (AccountId.mk "first"), .insert () (Account.mk ⟨"first"⟩ "" 300),
    .findMany () [AccountId.mk "second", AccountId.mk "first"], .findAll ()]

theorem writesComplete_renewing (op : TableOp plain) (hop : op ∈ renewing) : op.WritesComplete := by
  simp only [renewing, List.mem_cons, List.not_mem_nil, or_false] at hop
  rcases hop with rfl | rfl | rfl | rfl | rfl | rfl | rfl <;> first | exact isComplete_plain _ | trivial

end Sample

open Sample in
theorem Repository.cache_transparent_renewing :
    let r := ({} : Repository plain).after onePlain
    let cached := r.single { writeMode := .immediate, cache := true } renewing .commit
    let uncached := r.single { writeMode := .immediate, cache := false } renewing .commit
    cached.1 = uncached.1 ∧ cached.2.version = uncached.2.version ∧
      (cached.2.committed ()).map (fun p => Account.balance p.2) = [300] ∧
      ∀ k, cached.2.committed k = uncached.2.committed k := by
  intro r cached uncached
  have hkeys : ∀ k, ∀ p ∈ r.committed k, Cells.isPartial p.1 = false := by
    rintro ⟨⟩
    decide +kernel
  obtain ⟨htold, hversion, hrows⟩ := cache_transparent (fun _ _ => rfl) tellsApart_plain onePlain hkeys
    { writeMode := .immediate } rfl renewing writesComplete_renewing .commit
  exact ⟨htold, hversion, by decide +kernel, hrows⟩

/-- A hall is looked up without its light, saved with it, and looked up without it once more. -/
def Sample.lightingUp : List (TableOp Sample.halls) :=
  [.find () Sample.darkHall, .save () ⟨Sample.litHall⟩, .find () Sample.darkHall]

open Sample in
/-- The flat forms must be distinct: a hall with a light and the same hall without it lie under one key, but in two slots of
a cache. -/
theorem Repository.cache_shows_of_shared_key :
    (∃ schema, (halls ()).schema = .ok schema) ∧ (∀ e, (halls ()).onLoad e = e) ∧
      (∀ p ∈ ({} : Repository halls).committed (), Cells.isPartial p.1 = false) ∧
      (∀ op ∈ lightingUp, op.WritesComplete) ∧
      let cached := ({} : Repository halls).single { writeMode := .immediate, cache := true } lightingUp .commit
      let uncached := ({} : Repository halls).single { writeMode := .immediate, cache := false } lightingUp .commit
      found cached.1.1 = [none, none] ∧ found uncached.1.1 = [none, some ⟨litHall⟩] := by
  refine ⟨⟨_, rfl⟩, fun _ => rfl, by decide +kernel, fun op hop => ?_, by decide +kernel, by decide +kernel⟩
  simp only [lightingUp, List.mem_cons, List.not_mem_nil, or_false] at hop
  rcases hop with rfl | rfl | rfl <;> first | exact isComplete_halls _ | trivial

end EntityStore
