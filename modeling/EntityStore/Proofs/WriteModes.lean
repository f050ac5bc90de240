import EntityStore.Proofs.Latest
/-!
# Writes at once and writes in a queue

A transaction that queues its writes trails one that applies them (`Session.Trails`): made in order, its queue would give
just the storage that the other one works on.  Its reads are not led astray, because what it has queued it also remembers
(`Session.Ahead`).  So the two say the same and commit the same, as long as the first one's writes succeed; and where it
finds a key taken, the commit of the other one does (`Repository.write_modes_agree`).
-/
namespace EntityStore

variable {X : Scalars} {κ : Type} [DecidableEq κ] {C : κ → EntityType X}

/-- The statement names its identifiers one by one. -/
def TableOp.namesIds : TableOp C → Bool
  | .find _ _ | .findMany _ _ | .insert _ _ | .save _ _ | .delete _ _ => true
  | _ => false

namespace Session

variable {s s' s₁ s₂ s₁' s₂' : Session C} {k : κ}

/-! ## A queue behind a storage -/

/-- Of two transactions alike the first applies its writes at once and the second queues them.  The queue can be made, and
would leave the storage of the first. -/
structure Trails (s₁ s₂ : Session C) : Prop where
  alike : Alike s₁ s₂
  immediate : s₁.tx.options.isImmediate = true
  delayed : s₂.tx.options.isImmediate = false
  isolation : s₁.tx.options.isolation = s₂.tx.options.isolation
  id : s₁.tx.id = s₂.tx.id
  replayed : s₂.replayed = (.ok (), s₁.storage)
  idle : s₂.tx.isMutable = false → s₂.tx.pending = []

theorem Reads.replayed_eq (h : Reads s s') : s'.replayed = s.replayed := by
  unfold replayed
  rw [h.storage, h.id, h.version_eq, h.pending]

theorem Reads.writing_eq (h : Reads s s') (w : TableWrite C) : s'.writing w = s.writing w :=
  writing_congr (ensureMutable_congr (congrArg TxOptions.scan h.options) (congrArg TxOptions.isolation h.options))
    (congrArg TxOptions.isImmediate h.options) h.id h.storage h.version_eq w

theorem writing_of_immediate (hm : s.tx.ensureMutable = .ok ()) (hi : s.tx.options.isImmediate = true)
    (w : TableWrite C) : s.writing w = s.storage.write s.tx.id s.version w.kind w.write := by
  unfold writing
  rw [hm]
  exact if_pos hi

theorem ensureMutable_of_writing {w : TableWrite C} (h : (s.writing w).1 = .ok ()) : s.tx.ensureMutable = .ok () := by
  unfold writing at h
  cases hm : s.tx.ensureMutable with
  | error e =>
    rw [hm] at h
    cases h
  | ok u => rfl

theorem write_applies (ho : s.tx.closedBy = none) (hm : s.tx.ensureMutable = .ok ())
    (hi : s.tx.options.isImmediate = true) (action : String) (w : TableWrite C) :
    (s.write action w.kind w.write).1 = (s.storage.write s.tx.id s.version w.kind w.write).1 ∧
      Applies s w (s.write action w.kind w.write).2 := by
  have happly : s.write action w.kind w.write = s.apply action w.kind w.write := by
    unfold Session.write
    rw [s.tx.ensureActive_eq_ok_iff.2 ho, hm]
    exact if_pos hi
  rw [happly]
  exact ⟨(s.apply_spec action w.kind w.write).1, (s.apply_spec action w.kind w.write).2.1⟩

theorem write_queues (ho : s.tx.closedBy = none) (hm : s.tx.ensureMutable = .ok ())
    (hd : s.tx.options.isImmediate = false) (action : String) (w : TableWrite C) :
    (s.write action w.kind w.write).1 = .ok () ∧ Queues s w (s.write action w.kind w.write).2 := by
  have hqueue : s.write action w.kind w.write =
      (.ok (), { s with tx := { s.tx with pending := s.tx.pending ++ [⟨action, w.kind, w.write⟩] } }) := by
    unfold Session.write
    rw [s.tx.ensureActive_eq_ok_iff.2 ho, hm, hd]
    rfl
  rw [hqueue]
  exact ⟨rfl, Queues.push s action w⟩

theorem Queues.replayed_eq {w : TableWrite C} (h : Queues s w s') :
    s'.replayed =
      match s.replayed with
      | (.error e, storage) => (.error e, storage)
      | (.ok (), storage) => storage.write s.tx.id s.version w.kind w.write := by
  have hversion : s'.version = s.version := by
    unfold version
    rw [h.snapshot, h.storage]
  obtain ⟨action, hpending⟩ := h.pending
  unfold replayed
  rw [h.storage, h.id, hversion, hpending, List.map_append, Storage.replay_append]
  generalize s.storage.replay s.tx.id s.version (s.tx.pending.map Pending.toTableWrite) = made
  obtain ⟨answer, storage⟩ := made
  cases answer with
  | error e => rfl
  | ok u => exact storage.replay_singleton s.tx.id s.version w

theorem Queues.replayed_of_ok {w : TableWrite C} (h : Queues s w s') {storage : Storage C}
    (hr : s.replayed = (.ok (), storage)) : s'.replayed = storage.write s.tx.id s.version w.kind w.write := by
  rw [h.replayed_eq, hr]

namespace Trails

theorem reads (h : Trails s₁ s₂) (h₁ : Reads s₁ s₁') (h₂ : Reads s₂ s₂') (ha : Alike s₁' s₂') : Trails s₁' s₂' where
  alike := ha
  immediate := h₁.options ▸ h.immediate
  delayed := h₂.options ▸ h.delayed
  isolation := by rw [h₁.options, h₂.options, h.isolation]
  id := by rw [h₁.id, h₂.id, h.id]
  replayed := by rw [h₂.replayed_eq, h.replayed, h₁.storage]
  idle hm := by
    rw [h₂.pending]
    exact h.idle (isMutable_congr h₂.options ▸ hm)

theorem ensureMutable_eq (h : Trails s₁ s₂) : s₁.tx.ensureMutable = s₂.tx.ensureMutable :=
  ensureMutable_congr h.alike.limits h.isolation

theorem version_eq (h : Trails s₁ s₂) : s₁.version = s₂.version := by
  have hstorage : s₂.replayed.2.version = s₁.storage.version := congrArg (fun r => r.2.version) h.replayed
  rw [h.alike.latest₁.newest, h.alike.latest₂.newest, ← hstorage]
  exact Storage.version_replay ..

theorem row_eq (h : Trails s₁ s₂) (k : κ) (c : Cells X) :
    s₁.row k c = (lastRow? (s₂.tx.pending.map Pending.toTableWrite) k c).getD (s₂.row k c) := by
  have hread := Storage.read_replay s₂.tx.id s₂.version (s₂.tx.pending.map Pending.toTableWrite)
    h.alike.latest₂.sound.storage (congrArg Prod.fst h.replayed) s₂.version k c
  have hstorage : (s₂.storage.replay s₂.tx.id s₂.version (s₂.tx.pending.map Pending.toTableWrite)).2 = s₁.storage :=
    congrArg Prod.snd h.replayed
  rw [hstorage] at hread
  unfold row
  rw [h.id, h.version_eq]
  exact hread

theorem write (h : Trails s₁ s₂) (action : String) (w : TableWrite C) (hok : (s₁.writing w).1 = .ok ()) :
    Matches Trails (s₁.write action w.kind w.write) (s₂.write action w.kind w.write) := by
  have hmutable := ensureMutable_of_writing hok
  obtain ⟨hanswer₁, happlies⟩ := write_applies h.alike.latest₁.isOpen hmutable h.immediate action w
  obtain ⟨hanswer₂, hqueues⟩ := write_queues h.alike.latest₂.isOpen (h.ensureMutable_eq ▸ hmutable) h.delayed action w
  rw [writing_of_immediate hmutable h.immediate] at hok
  have hreplayed := hqueues.replayed_of_ok h.replayed
  rw [← h.id, ← h.version_eq] at hreplayed
  refine ⟨?_, ⟨h.alike.latest₁.write .., h.alike.latest₂.write .., fun j => ?_, ?_⟩, ?_, ?_, ?_, ?_, ?_, fun hm => ?_⟩
  · rw [hanswer₁, hok, hanswer₂]
  · rw [cache_of_caches (caches_write ..) happlies.options, cache_of_caches (caches_write ..) hqueues.options]
    exact h.alike.cache j
  · rw [happlies.options, hqueues.options, h.alike.limits]
  · rw [happlies.options, h.immediate]
  · rw [hqueues.options, h.delayed]
  · rw [happlies.options, hqueues.options, h.isolation]
  · rw [happlies.id, hqueues.id, h.id]
  · rw [hreplayed, happlies.storage, ← hok]
  · rw [isMutable_congr hqueues.options] at hm
    rw [(s₂.tx.ensureMutable_eq_ok_iff).1 (h.ensureMutable_eq ▸ hmutable)] at hm
    cases hm

end Trails

theorem congruence_trails : Congruence (Trails (C := C)) where
  cache h := h.alike.cache
  limits h := h.alike.limits
  sound h := ⟨h.alike.latest₁.sound.storage, h.alike.latest₂.sound.storage⟩
  lockRow h k c := h.reads (.lockRow ..) (.lockRow ..) (congruence_alike.lockRow h.alike k c)
  lockScan h k scan := h.reads (.lockScan ..) (.lockScan ..) (congruence_alike.lockScan h.alike k scan)
  setCache h k c := h.reads (.setCache ..) (.setCache ..) (congruence_alike.setCache h.alike k c)
  openTable h k := h.reads (.openTable ..) (.openTable ..) (congruence_alike.openTable h.alike k)
  read h _ k action summary f₁ f₂ hf :=
    have hr := congruence_alike.read h.alike k action summary f₁ f₂ hf
    ⟨hr.1, h.reads (.read ..) (.read ..) hr.2⟩

/-! ## A queue that is remembered -/

/-- A queue that trails, and whose identifiers the caches know. -/
structure Ahead (s₁ s₂ : Session C) : Prop where
  trails : Trails s₁ s₂
  enabled : ∀ k, (s₂.tx.cache k).enabled = true
  known : ∀ w ∈ s₂.tx.pending.map Pending.toTableWrite, Cells.isPartial w.write.cells = false ∧
    ∃ id, (C w.kind).flatten id = .ok w.write.cells ∧ (s₂.tx.cache w.kind).contains id = true

theorem contains_of_learns {E : EntityType X} {c c' : Cache E} (h : c.Learns c') {id : E.Id} (hid : c.contains id = true) :
    c'.contains id = true := by
  unfold Cache.contains at hid ⊢
  rw [Option.isSome_iff_ne_none] at hid ⊢
  exact fun hnone => hid (h.extends.known id hnone)

namespace Ahead

theorem reads (h : Ahead s₁ s₂) (ht : Trails s₁' s₂') (hpending : s₂'.tx.pending = s₂.tx.pending)
    (hlearns : ∀ k, (s₂.tx.cache k).Learns (s₂'.tx.cache k)) : Ahead s₁' s₂' where
  trails := ht
  enabled k := (hlearns k).extends.enabled.trans (h.enabled k)
  known w hw := by
    rw [hpending] at hw
    obtain ⟨hcomplete, id, hflat, hid⟩ := h.known w hw
    exact ⟨hcomplete, id, hflat, contains_of_learns (hlearns w.kind) hid⟩

theorem openTable (h : Ahead s₁ s₂) (k : κ) : Ahead (s₁.openTable k) (s₂.openTable k) :=
  h.reads (congruence_trails.openTable h.trails k) (Reads.openTable s₂ k).pending
    fun j => s₂.cache_openTable k j ▸ .refl

theorem row_eq_of_unknown (hids : ∀ k, (C k).TellsApart) (h : Ahead s₁ s₂) {id : (C k).Id} {c : Cells X}
    (hc : (C k).flatten id = .ok c) (hunknown : (s₁.tx.cache k).contains id = false) : s₁.row k c = s₂.row k c := by
  have hlast : lastRow? (s₂.tx.pending.map Pending.toTableWrite) k c = none := by
    by_contra hne
    obtain ⟨⟨j, w⟩, hw, hrow⟩ := exists_row?_of_lastRow? hne
    obtain ⟨hcomplete, id', hflat, hknown⟩ := h.known _ hw
    by_cases hj : j = k
    · subst hj
      rw [TableWrite.row?_self] at hrow
      have hcells : w.cells = c := by
        by_contra hne
        exact hrow (if_neg hne)
      subst hcells
      cases hids j _ _ _ hflat hc hcomplete
      rw [h.trails.alike.cache j] at hunknown
      exact Bool.false_ne_true (hunknown.symm.trans hknown)
    · exact hrow (TableWrite.row?_of_ne hj w c)
  rw [h.trails.row_eq, hlast, Option.getD_none]

/-- A read of complete identifiers answers the same, as it looks at rows of unknown ones alone. -/
theorem matches_read (hids : ∀ k, (C k).TellsApart) (h : Ahead s₁ s₂) {op : TableOp C} (hop : op.IsComplete)
    (hnames : op.namesIds = true) (hw : op.isWrite = false) : Matches Trails (op.runOpen s₁) (op.runOpen s₂) := by
  cases op with
  | find k id =>
    exact congruence_trails.find_of_row h.trails id fun _ c hc _ hunknown => h.row_eq_of_unknown hids hc hunknown
  | findMany k ids =>
    refine congruence_trails.findMany_of_rows h.trails ids (congruence_trails.findUncached_of_rows h.trails _ ?_)
    intro _ id hid p hp c hc
    obtain ⟨hmem, hunknown⟩ := List.mem_filter.1 hid
    rw [if_neg (by rw [hop id (List.mem_eraseDups.1 hmem) p hp]; exact Bool.false_ne_true)] at hc
    exact h.row_eq_of_unknown hids (hc ▸ hp) (by simpa using hunknown)
  | insert k e => cases hw
  | save k e => cases hw
  | delete k id => cases hw
  | _ => cases hnames

theorem contains_of_written {op : TableOp C} (hw : op.isWrite = true) {w : TableWrite C} (hwrite : op.write? = some w)
    {a : op.Answer} (hok : (op.runOpen s).1 = .ok a) (henabled : (s.tx.cache w.kind).enabled = true) :
    ∃ id, (C w.kind).flatten id = .ok w.write.cells ∧ ((op.runOpen s).2.tx.cache w.kind).contains id = true := by
  rcases op.overwrites_runOpen s hw with ⟨e, he, -⟩ | ⟨-, w', hw', id, slot, hflat, -, -, hcache, -⟩
  · rw [hok] at he
    cases he
  · rw [hwrite] at hw'
    cases hw'
    refine ⟨id, hflat, ?_⟩
    unfold Cache.contains
    rw [hcache, Cache.lookup_setSlot, if_pos ⟨henabled, rfl⟩]
    rfl

/-- A write that the first transaction accepts is queued by the second and remembered by both. -/
theorem runOpen_of_accepted (h : Ahead s₁ s₂) {op : TableOp C} (hop : op.WritesComplete) (hw : op.isWrite = true)
    {a : op.Answer} (hok : (op.runOpen s₁).1 = .ok a) :
    (op.runOpen s₁).1 = (op.runOpen s₂).1 ∧ Ahead (op.runOpen s₁).2 (op.runOpen s₂).2 := by
  rcases op.runOpen_of_isWrite hw with ⟨type, message, he⟩ | ⟨w, b, hwrite, hspec⟩
  · rw [he] at hok
    cases hok
  have haccepted : (s₁.writing w).1 = .ok () :=
    accepted_of_answer ((hspec s₁ h.trails.alike.latest₁.isOpen).1.symm.trans hok)
  obtain ⟨hsame, htrails⟩ := op.runOpen_congruence_of_write congruence_trails hw h.trails
    fun w' action hw' ht h₁ _ => ht.write action w' (by
      rw [hwrite] at hw'
      cases hw'
      rw [h₁.writing_eq, haccepted])
  have hlearns := op.learns_runOpen s₂
  refine ⟨hsame, htrails, fun k => (hlearns k).extends.enabled.trans (h.enabled k), fun w' hw' => ?_⟩
  cases op.effect_runOpen s₂ with
  | reads hr hn =>
    rcases hn with hn | ⟨e, he⟩
    · rw [hwrite] at hn
      cases hn
    · rw [← hsame, hok] at he
      cases he
  | applies _ _ _ _ hi _ _ =>
    rw [h.trails.delayed] at hi
    cases hi
  | queues w'' hw'' _ _ _ hq _ =>
    rw [hwrite] at hw''
    cases hw''
    obtain ⟨action, hpending⟩ := hq.pending
    rw [hpending, List.map_append, List.mem_append] at hw'
    rcases hw' with hw' | hw'
    · obtain ⟨hcomplete, id, hflat, hid⟩ := h.known w' hw'
      exact ⟨hcomplete, id, hflat, contains_of_learns (hlearns w'.kind) hid⟩
    · cases List.mem_singleton.1 hw'
      exact ⟨hop.write? hwrite, contains_of_written hw hwrite (hsame ▸ hok) (h.enabled w.kind)⟩

/-- **A statement on complete identifiers answers the same, as long as the first transaction's writes succeed.** -/
theorem run (hids : ∀ k, (C k).TellsApart) (h : Ahead s₁ s₂) {op : TableOp C} (hop : op.IsComplete)
    (hnames : op.namesIds = true) (hok : op.isWrite = true → ∃ a, (op.run s₁).1 = .ok a) :
    (op.run s₁).1 = (op.run s₂).1 ∧ Ahead (op.run s₁).2 (op.run s₂).2 := by
  have hopen := h.openTable op.kind
  have hlearns := op.learns_runOpen (s₂.openTable op.kind)
  cases hw : op.isWrite with
  | true =>
    obtain ⟨a, ha⟩ := hok hw
    exact hopen.runOpen_of_accepted hop.writesComplete hw ha
  | false =>
    obtain ⟨hsame, htrails⟩ := hopen.matches_read hids hop hnames hw
    exact ⟨hsame, hopen.reads htrails (op.reads_runOpen hw _).pending hlearns⟩

theorem runAll (hids : ∀ k, (C k).TellsApart) : ∀ {ops : List (TableOp C)} {s₁ s₂ : Session C}, Ahead s₁ s₂ →
    (∀ op ∈ ops, op.IsComplete ∧ op.namesIds = true) →
    (∀ x ∈ (s₁.runAll ops).1, x.op.isWrite = true → ∃ a, x.answer = .ok a) →
      (s₂.runAll ops).1 = (s₁.runAll ops).1 ∧ Ahead (s₁.runAll ops).2 (s₂.runAll ops).2
  | [], _, _, h, _, _ => ⟨rfl, h⟩
  | op :: rest, s₁, s₂, h, hops, hok => by
    obtain ⟨hop, hnames⟩ := hops op List.mem_cons_self
    obtain ⟨hanswer, hnext⟩ := h.run hids hop hnames (hok _ List.mem_cons_self)
    obtain ⟨hrest, hahead⟩ := runAll hids hnext (fun op' hop' => hops op' (List.mem_cons_of_mem op hop'))
      fun x hx => hok x (List.mem_cons_of_mem _ hx)
    refine ⟨?_, hahead⟩
    rw [Session.runAll, Session.runAll]
    dsimp only
    rw [hanswer, hrest]

end Ahead

/-- **Both commit, and leave the same storage.** -/
theorem Trails.commit (h : Trails s₁ s₂) :
    s₁.commit.1 = .ok () ∧ s₂.commit.1 = .ok () ∧ s₁.commit.2.storage = s₂.commit.2.storage := by
  have hreplayed₁ : s₁.replayed = (.ok (), s₁.storage) := by
    unfold Session.replayed
    rw [h.alike.latest₁.sound.queued h.immediate]
    rfl
  have hmutable : s₁.tx.isMutable = s₂.tx.isMutable := by
    rw [Bool.eq_iff_iff, ← s₁.tx.ensureMutable_eq_ok_iff, ← s₂.tx.ensureMutable_eq_ok_iff, h.ensureMutable_eq]
  have hsame : s₁.unopposed .commit = s₂.unopposed .commit ∧ (s₁.unopposed .commit).1 = .ok () := by
    unfold unopposed
    rw [hreplayed₁, h.replayed, hmutable, h.id]
    cases hm : s₂.tx.isMutable with
    | true => exact ⟨rfl, rfl⟩
    | false =>
      -- who may not write has queued nothing, so that the two storages are one
      have hreplayed₂ : s₂.replayed = (.ok (), s₂.storage) := by
        unfold Session.replayed
        rw [h.idle hm]
        rfl
      have hstorage : s₁.storage = s₂.storage := congrArg Prod.snd (h.replayed.symm.trans hreplayed₂)
      exact ⟨by rw [hstorage], rfl⟩
  obtain ⟨hend, hok⟩ := hsame
  have hcommit₁ := h.alike.latest₁.commit_eq
  have hcommit₂ := h.alike.latest₂.commit_eq.trans hend.symm
  refine ⟨(congrArg Prod.fst hcommit₁).trans hok, (congrArg Prod.fst hcommit₂).trans hok, ?_⟩
  exact (Prod.mk.inj (hcommit₁.trans hcommit₂.symm)).2

/-! ## A queue that cannot be made -/

theorem fails_run (op : TableOp C) (hd : s.tx.options.isImmediate = false) {e : Error} (he : s.replayed.1 = .error e) :
    (op.run s).2.replayed.1 = .error e := by
  cases op.effect s with
  | reads h _ => rw [h.replayed_eq, he]
  | queues w _ _ _ _ h _ =>
    rw [h.replayed_eq, show s.replayed = (.error e, s.replayed.2) from Prod.ext he rfl]
  | applies w _ _ _ hi _ _ =>
    rw [hd] at hi
    cases hi

theorem fails_runAll {e : Error} : ∀ (ops : List (TableOp C)) {s : Session C}, s.tx.options.isImmediate = false →
    s.replayed.1 = .error e → (s.runAll ops).2.replayed.1 = .error e
  | [], _, _, he => he
  | op :: rest, s, hd, he =>
    fails_runAll rest ((s.advances_statement op).options ▸ hd) (fails_run op hd he)

theorem Trails.fails_of_taken (h : Trails s₁ s₂) {k : κ} {e : (C k).Entity} {text : String}
    (hfail : ((TableOp.insert k e).runOpen s₁).1 = .error (.entityAlreadyExists text)) :
    ((TableOp.insert k e).runOpen s₂).2.replayed.1 = .error (.entityAlreadyExists text) ∧ s₂.tx.isMutable = true := by
  rcases (TableOp.insert k e).runOpen_of_isWrite rfl with ⟨type, message, he⟩ | ⟨w, a, hwrite, hspec⟩
  · rw [he] at hfail
    cases hfail
  have hrefused : (s₁.writing w).1 = .error (.entityAlreadyExists text) :=
    refused_of_answer ((hspec s₁ h.alike.latest₁.isOpen).1.symm.trans hfail)
  have hmutable : s₁.tx.ensureMutable = .ok () := by
    cases hm : s₁.tx.ensureMutable with
    | ok u => rfl
    | error e' =>
      unfold writing at hrefused
      rw [hm] at hrefused
      cases e' <;> cases hrefused
  rw [writing_of_immediate hmutable h.immediate] at hrefused
  rw [h.ensureMutable_eq] at hmutable
  refine ⟨?_, (s₂.tx.ensureMutable_eq_ok_iff).1 hmutable⟩
  cases (TableOp.insert k e).effect_runOpen s₂ with
  | reads _ hn =>
    rcases hn with hn | ⟨e', he'⟩
    · rw [hwrite] at hn
      cases hn
    · rw [(hspec s₂ h.alike.latest₂.isOpen).1] at he'
      unfold writing at he'
      rw [hmutable, h.delayed] at he'
      cases he'
  | applies _ _ _ _ hi _ _ =>
    rw [h.delayed] at hi
    cases hi
  | queues w' hw' _ _ _ hq _ =>
    rw [hwrite] at hw'
    cases hw'
    rw [hq.replayed_of_ok h.replayed, ← h.id, ← h.version_eq]
    exact hrefused

/-- **If the first of the writes to fail finds its key taken, then the queue cannot be made.** -/
theorem Ahead.fails (hids : ∀ k, (C k).TellsApart) {k : κ} {e : (C k).Entity} {text : String}
    {after : List (Exchange C)} : ∀ {before : List (Exchange C)} {ops : List (TableOp C)} {s₁ s₂ : Session C},
      Ahead s₁ s₂ → (∀ op ∈ ops, op.IsComplete ∧ op.namesIds = true) →
      (s₁.runAll ops).1 = before ++ ⟨.insert k e, .error (.entityAlreadyExists text)⟩ :: after →
      (∀ x ∈ before, x.op.isWrite = true → ∃ a, x.answer = .ok a) →
        (s₂.runAll ops).2.replayed.1 = .error (.entityAlreadyExists text) ∧ s₂.tx.isMutable = true
  -- the two go on alike up to the failure, and from there the queue of the second cannot be made any more
  | before, [], _, _, _, _, hrun, _ => by cases before <;> cases hrun
  | [], op :: rest, s₁, s₂, h, _, hrun, _ => by
    obtain ⟨hfirst, -⟩ := List.cons.inj hrun
    obtain rfl : op = .insert k e := congrArg Exchange.op hfirst
    obtain ⟨-, hanswer⟩ := Exchange.mk.inj hfirst
    obtain ⟨hfails, hm⟩ := (h.openTable k).trails.fails_of_taken (eq_of_heq hanswer)
    have hd : ((TableOp.insert k e).run s₂).2.tx.options.isImmediate = false := by
      rw [(s₂.advances_statement (.insert k e)).options, h.trails.delayed]
    exact ⟨fails_runAll rest hd hfails, isMutable_congr (Reads.openTable s₂ k).options ▸ hm⟩
  | x :: before, op :: rest, s₁, s₂, h, hops, hrun, hok => by
    obtain ⟨hfirst, hrest⟩ := List.cons.inj hrun
    obtain rfl : (⟨op, (op.run s₁).1⟩ : Exchange C) = x := hfirst
    obtain ⟨hop, hnames⟩ := hops op List.mem_cons_self
    obtain ⟨-, hnext⟩ := h.run hids hop hnames (hok _ List.mem_cons_self)
    obtain ⟨hfails, hm⟩ := Ahead.fails hids hnext (fun op' hop' => hops op' (List.mem_cons_of_mem op hop')) hrest
      fun x' hx' => hok x' (List.mem_cons_of_mem _ hx')
    exact ⟨hfails, isMutable_congr (s₂.advances_statement op).options ▸ hm⟩

/-- The commit of a queue that cannot be made fails for the reason for which it cannot. -/
theorem Latest.commit_of_fails (h : s.Latest) (hm : s.tx.isMutable = true) {e : Error} (he : s.replayed.1 = .error e) :
    s.commit.1 = .error e := by
  refine (congrArg Prod.fst h.commit_eq).trans ?_
  unfold unopposed
  dsimp only
  rw [if_pos hm, show s.replayed = (.error e, s.replayed.2) from Prod.ext he rfl]

end Session

/-! ## In a repository -/

namespace Repository

theorem ahead_begun {r : Repository C} (h : r.Sound) (options : TxOptions) :
    Session.Ahead (r.begun { options with cache := true, writeMode := .immediate })
      (r.begun { options with cache := true, writeMode := .delayed }) where
  trails := ⟨⟨Session.latest_begun h _, Session.latest_begun h _, fun _ => rfl, rfl⟩, rfl, rfl, rfl, rfl, rfl, fun _ => rfl⟩
  enabled _ := rfl
  known := nofun

/-- **Writes at once and writes in a queue come to the same.**  Let distinct complete identifiers have distinct flat forms.
After any history, a transaction with caches runs by itself to its commit, and what it says is said in complete
identifiers.  If it applies its writes at once and they all succeed, then it gets the same answers when it queues them, it
commits either way, and leaves the same rows in the same version.  If the first of its writes to fail is an insertion
that finds its key taken, then with a queue its commit fails for just that identifier, and publishes nothing. -/
theorem write_modes_agree (hids : ∀ k, (C k).TellsApart) (as : List (Action C)) (options : TxOptions)
    (ops : List (TableOp C)) (hops : ∀ op ∈ ops, op.IsComplete ∧ op.namesIds = true) :
    let r := ({} : Repository C).after as
    let immediate := r.alone { options with cache := true, writeMode := .immediate } ops
    let delayed := r.alone { options with cache := true, writeMode := .delayed } ops
    let succeed (told : List (Exchange C)) : Prop := ∀ x ∈ told, x.op.isWrite = true → ∃ a, x.answer = .ok a
    (succeed immediate.1.1 →
      delayed.1 = immediate.1 ∧ delayed.1.2 = .ok () ∧ delayed.2.version = immediate.2.version ∧
        ∀ k, delayed.2.committed k = immediate.2.committed k) ∧
    ∀ (before after : List (Exchange C)) (k : κ) (e : (C k).Entity) (text : String),
      immediate.1.1 = before ++ ⟨.insert k e, .error (.entityAlreadyExists text)⟩ :: after → succeed before →
        delayed.1.2 = .error (.entityAlreadyExists text) ∧ delayed.2.version = r.version ∧
          ∀ k, delayed.2.committed k = r.committed k := by
  intro r immediate delayed succeed
  have hr : r.Sound := sound_after sound_empty as
  have hbegin := ahead_begun hr options
  obtain ⟨htold₁, -, hcurrent₁⟩ := alone_spec hr { options with cache := true, writeMode := .immediate } ops
  obtain ⟨htold₂, hsound₂, hcurrent₂⟩ := alone_spec hr { options with cache := true, writeMode := .delayed } ops
  refine ⟨fun hok => ?_, fun before after k e text hrun hok => ?_⟩
  · obtain ⟨hanswers, hahead⟩ := hbegin.runAll hids hops (by rw [← congrArg Prod.fst htold₁]; exact hok)
    obtain ⟨hcommit₁, hcommit₂, hstorage⟩ := hahead.trails.commit
    have hsame : delayed.2.current = immediate.2.current := hcurrent₂.trans (hstorage.symm.trans hcurrent₁.symm)
    refine ⟨?_, (congrArg Prod.snd htold₂).trans hcommit₂, congrArg Storage.version hsame, fun k => ?_⟩
    · rw [htold₁, htold₂, hanswers, hcommit₁, hcommit₂]
    · unfold committed
      rw [hsame]
  · obtain ⟨hfails, hm⟩ := hbegin.fails hids hops ((congrArg Prod.fst htold₁).symm.trans hrun) hok
    have hadv := Session.advances_runAll ops (r.begun { options with cache := true, writeMode := .delayed })
    have hlatest := Session.latest_runAll ops hbegin.trails.alike.latest₂
    have hstorage := (Session.stays_runAll ops hbegin.trails.delayed).storage
    have hanswer := hlatest.commit_of_fails (Session.isMutable_congr hadv.options ▸ hm) hfails
    have hversion := Session.version_commit_of_error hanswer
    have hpublished := (Session.advances_commit _).moves.published_eq_of_version hlatest.sound.storage hversion
    rw [← hcurrent₂, hstorage] at hversion hpublished
    refine ⟨(congrArg Prod.snd htold₂).trans hanswer, hversion, fun k => committed_eq hr hsound₂ fun c => ?_⟩
    exact (hpublished _ k c).trans (congrArg (fun v => r.current.published v k c) hversion)

end Repository

namespace Sample

/-- An account is published. -/
def oneMarked : List (Action marked) := [.start {}, .statement 1 (.save () (Account.mk ⟨"first"⟩ "" 100)), .commit 1]

/-- The account is deleted, inserted, deleted and inserted once more, with reads in between. -/
def reinserting : List (TableOp marked) :=
  [.delete () (AccountId.mk "first"), .insert () (Account.mk ⟨"first"⟩ "" 200), .find () (AccountId.mk "first"),
    .delete () (AccountId.mk "first"), .insert () (Account.mk ⟨"first"⟩ "" 300),
    .findMany () [AccountId.mk "second", AccountId.mk "first"]]

theorem isComplete_reinserting (op : TableOp marked) (hop : op ∈ reinserting) : op.IsComplete ∧ op.namesIds = true := by
  simp only [reinserting, List.mem_cons, List.not_mem_nil, or_false] at hop
  rcases hop with rfl | rfl | rfl | rfl | rfl | rfl <;>
    first | exact ⟨isComplete_marked _, rfl⟩ | exact ⟨fun id _ => isComplete_marked id, rfl⟩

theorem succeed_reinserting : ∀ x ∈ ((({} : Repository marked).after oneMarked).alone { writeMode := .immediate }
    reinserting).1.1, x.op.isWrite = true → ∃ a, x.answer = .ok a := by
  have hall : ((({} : Repository marked).after oneMarked).alone { writeMode := .immediate } reinserting).1.1.all
      (fun x => !x.op.isWrite || x.answer.toOption.isSome) = true := by decide +kernel
  intro x hx hw
  have hx := List.all_eq_true.1 hall x hx
  rw [hw] at hx
  cases ha : x.answer with
  | ok a => exact ⟨a, rfl⟩
  | error e =>
    rw [ha] at hx
    cases hx

/-- The account is inserted although it is there. -/
def inserting : List (TableOp marked) := [.insert () (Account.mk ⟨"first"⟩ "" 200)]

theorem isComplete_inserting (op : TableOp marked) (hop : op ∈ inserting) : op.IsComplete ∧ op.namesIds = true := by
  cases List.mem_singleton.1 hop
  exact ⟨isComplete_marked _, rfl⟩

end Sample

open Sample in
theorem Repository.write_modes_agree_reinserting :
    let r := ({} : Repository marked).after oneMarked
    let immediate := r.alone { writeMode := .immediate } reinserting
    let delayed := r.alone { writeMode := .delayed } reinserting
    let clashing := r.alone { writeMode := .delayed } inserting
    (delayed.1 = immediate.1 ∧ delayed.2.version = immediate.2.version ∧
      ∀ k, delayed.2.committed k = immediate.2.committed k) ∧
    clashing.1.2 = .error (.entityAlreadyExists (AccountId.text ⟨"first"⟩)) ∧ clashing.2.version = r.version ∧
      ∀ k, clashing.2.committed k = r.committed k := by
  intro r immediate delayed clashing
  obtain ⟨hagree, -⟩ :=
    write_modes_agree wellIdentified_marked.tellsApart oneMarked {} reinserting isComplete_reinserting
  obtain ⟨-, hclash⟩ :=
    write_modes_agree wellIdentified_marked.tellsApart oneMarked {} inserting isComplete_inserting
  obtain ⟨htold, -, hversion, hrows⟩ := hagree succeed_reinserting
  exact ⟨⟨htold, hversion, hrows⟩, hclash [] [] () (Account.mk ⟨"first"⟩ "" 200) _ rfl nofun⟩

/-- A hall is saved with its light, and looked up without it. -/
def Sample.lighting : List (TableOp Sample.halls) := [.save () ⟨Sample.litHall⟩, .find () Sample.darkHall]

open Sample in
/-- The flat forms must be distinct: a hall with a light is stored under the key of the same hall without it, but a queue
does not show it there. -/
theorem Repository.write_modes_differ_of_shared_key :
    (∃ schema, (halls ()).schema = .ok schema) ∧ (∀ op ∈ lighting, op.IsComplete ∧ op.namesIds = true) ∧
      let immediate := ({} : Repository halls).alone { writeMode := .immediate } lighting
      let delayed := ({} : Repository halls).alone { writeMode := .delayed } lighting
      immediate.1.1.all (fun x => x.answer.toOption.isSome) = true ∧ immediate.1.2 = .ok () ∧
        found immediate.1.1 = [some ⟨litHall⟩] ∧ found delayed.1.1 = [none] := by
  refine ⟨⟨_, rfl⟩, fun op hop => ?_, by decide +kernel, by decide +kernel, by decide +kernel, by decide +kernel⟩
  simp only [lighting, List.mem_cons, List.not_mem_nil, or_false] at hop
  rcases hop with rfl | rfl <;> exact ⟨isComplete_halls _, rfl⟩

end EntityStore
