import EntityStore.Proofs.Contiguity
import EntityStore.Proofs.Flattening
import EntityStore.Samples.Item
/-!
# Values of one kind

The order of values puts kinds before contents, and a field has values of one kind only; so an interval should never
have to compare values of different kinds.  A row suits a schema (`Schema.Suits`) if its filled cells have the kinds of
their fields.  Flat forms do, and with them the intervals between identifiers; an interval between any two rows holds
what the rows hold, and suits the schema just if they do (`Interval.kinds_agree`).

Nothing asks for that where cells are handed in: `Interval.foreign_kind_admitted` is an interval over an integer that
begins with a word.
-/
namespace EntityStore

variable {X : Scalars}

/-- The filled cells have the kinds of their fields. -/
def Schema.Suits (s : Schema) (cells : Cells X) : Prop :=
  ∀ (i : Nat) (field : Field) (v : Value X), s.fields[i]? = some field → cells[i]? = some (some v) → v.kind = field.kind

/-- A value is an end of the bound, or what the bound pins its field to. -/
def Bound.Holds (bound : Bound X) (v : Value X) : Prop :=
  bound.equal? = some v ∨ bound.lower? = some v ∨ bound.upper? = some v

/-- What an interval holds for a field has the field's kind. -/
def Interval.Suited (r : Interval X) : Prop :=
  ∀ (i : Nat) (field : Field) (bound : Bound X) (v : Value X), r.schema.fields[i]? = some field →
    r.bounds[i]? = some bound → bound.Holds v → v.kind = field.kind

/-- Where both of two rows are filled, they have values of one kind. -/
def Cells.MeetAlike (a b : Cells X) : Prop :=
  ∀ (i : Nat) (v w : Value X), a[i]? = some (some v) → b[i]? = some (some w) → v.kind = w.kind

/-- Where a row is filled, it has a value of the kind of what the interval holds there. -/
def Interval.MeetsAlike (r : Interval X) (cells : Cells X) : Prop :=
  ∀ (i : Nat) (bound : Bound X) (v w : Value X), r.bounds[i]? = some bound → bound.Holds v → cells[i]? = some (some w) →
    v.kind = w.kind

namespace Bound

theorem holds_iff_of_ofEnds {a b : Option (Value X)} {bound : Bound X} (h : ofEnds a b = .ok bound) (v : Value X) :
    bound.Holds v ↔ a = some v ∨ b = some v := by
  obtain ⟨w, rfl, rfl, rfl⟩ | ⟨-, rfl⟩ | ⟨rfl, rfl, rfl⟩ := ofEnds_cases h
  · simp [Holds, equal?, lower?, upper?]
  · simp [Holds, equal?, lower?, upper?]
  · simp [Holds, equal?, lower?, upper?]

theorem zipWith_of_ofRows : ∀ {lower upper : Cells X} {bounds : List (Bound X)}, ofRows lower upper = .ok bounds →
    List.zipWith ofEnds lower upper = bounds.map .ok
  | [], _, _, h => by
    cases h
    rfl
  | _ :: _, [], _, h => by
    cases h
    rfl
  | a :: lower, b :: upper, _, h => by
    obtain ⟨first, rest, hfirst, hrest, rfl⟩ := ofRows_cons_eq_ok_iff.1 h
    rw [List.zipWith_cons_cons, List.map_cons, hfirst, zipWith_of_ofRows hrest]

end Bound

namespace Schema

variable {typeName : String} {shape : Shape} {s : Schema}

theorem suits_of_flatten (hs : ofShape typeName shape = .ok s) {node : Node X} {c : Cells X} (h : s.flatten node = .ok c) :
    s.Suits c := by
  intro i field v hfield hv
  obtain ⟨hfits, rfl⟩ := (flatten_eq_ok_iff hs).1 h
  obtain ⟨column, hcolumn, hkind⟩ := hfits.kind_row hv
  rw [← (fields_of_ofShape hs).2.2, hfield] at hcolumn
  cases hcolumn
  exact hkind

theorem exists_field {cells : Cells X} (hwidth : cells.length = s.width) {i : Nat} {cell : Option (Value X)}
    (h : cells[i]? = some cell) : ∃ field, s.fields[i]? = some field := by
  have hi := (List.getElem?_eq_some_iff.1 h).1
  rw [hwidth] at hi
  exact ⟨_, List.getElem?_eq_getElem hi⟩

theorem Suits.meetAlike {a b : Cells X} (ha : s.Suits a) (hb : s.Suits b) (hwidth : a.length = s.width) :
    a.MeetAlike b := by
  intro i v w hv hw
  obtain ⟨field, hfield⟩ := exists_field hwidth hv
  exact (ha i field v hfield hv).trans (hb i field w hfield hw).symm

end Schema

namespace Interval

variable {s : Schema} {lower upper : Cells X} {r : Interval X}

/-- **An interval holds what its ends hold**, in the same fields. -/
theorem holds_iff_of_ofBounds (h : ofBounds s lower upper = .ok r) (i : Nat) (v : Value X) :
    (∃ bound, r.bounds[i]? = some bound ∧ bound.Holds v) ↔
      lower[i]? = some (some v) ∨ upper[i]? = some (some v) := by
  obtain ⟨hlower, hupper, bounds, hrows, -, rfl⟩ := ofBounds_eq_ok_iff.1 h
  have hbound := congrArg (fun l => l[i]?) (Bound.zipWith_of_ofRows hrows)
  simp only [List.getElem?_zipWith, List.getElem?_map] at hbound
  by_cases hi : i < s.width
  · have ha := List.getElem?_eq_getElem (lt_of_lt_of_eq hi hlower.symm)
    have hb := List.getElem?_eq_getElem (lt_of_lt_of_eq hi hupper.symm)
    rw [ha, hb] at hbound
    obtain ⟨bound, hbound, hends⟩ := Option.map_eq_some_iff.1 hbound.symm
    simp only [ha, hb, hbound, Option.some.injEq, exists_eq_left']
    exact Bound.holds_iff_of_ofEnds hends.symm v
  · have ha := List.getElem?_eq_none (le_of_eq_of_le hlower (Nat.le_of_not_lt hi))
    have hb := List.getElem?_eq_none (le_of_eq_of_le hupper (Nat.le_of_not_lt hi))
    rw [ha, hb] at hbound
    have hnone := Option.map_eq_none_iff.1 hbound.symm
    simp only [ha, hb, hnone, reduceCtorEq, false_and, exists_false, or_self]

theorem suited_iff (h : ofBounds s lower upper = .ok r) : r.Suited ↔ s.Suits lower ∧ s.Suits upper := by
  have hholds := holds_iff_of_ofBounds h
  obtain rfl := schema_of_ofBounds h
  constructor
  · intro hsuited
    have hend {i : Nat} {field : Field} {v : Value X} (hfield : r.schema.fields[i]? = some field)
        (hv : lower[i]? = some (some v) ∨ upper[i]? = some (some v)) : v.kind = field.kind := by
      obtain ⟨bound, hbound, hv⟩ := (hholds i v).2 hv
      exact hsuited i field bound v hfield hbound hv
    exact ⟨fun i field v hfield hv => hend hfield (.inl hv), fun i field v hfield hv => hend hfield (.inr hv)⟩
  · rintro ⟨hlower, hupper⟩ i field bound v hfield hbound hv
    rcases (hholds i v).1 ⟨bound, hbound, hv⟩ with hv | hv
    · exact hlower i field v hfield hv
    · exact hupper i field v hfield hv

theorem Suited.meetsAlike (hr : r.Suited) {cells : Cells X} (hwidth : cells.length = r.schema.width)
    (hcells : r.schema.Suits cells) : r.MeetsAlike cells := by
  intro i bound v w hbound hv hw
  obtain ⟨field, hfield⟩ := Schema.exists_field hwidth hw
  exact (hr i field bound v hfield hbound hv).trans (hcells i field w hfield hw).symm

/-- **Values of one kind meet.**  Flat forms suit their schema, and rows that suit it meet alike when an interval is
made of them.  The interval suits the schema if and only if both rows do; so the intervals between identifiers do, and
one that does meets every flat form alike. -/
theorem kinds_agree {typeName : String} {shape : Shape} {s : Schema} (hs : Schema.ofShape typeName shape = .ok s) :
    (∀ (node : Node X) c, s.flatten node = .ok c → c.length = s.width ∧ s.Suits c) ∧
    (∀ lower upper : Cells X, lower.length = s.width → s.Suits lower → s.Suits upper → lower.MeetAlike upper) ∧
    (∀ (lower upper : Cells X) r, ofBounds s lower upper = .ok r → (r.Suited ↔ s.Suits lower ∧ s.Suits upper)) ∧
    (∀ (cells : Cells X) r, ofCells s cells = .ok r → (r.Suited ↔ s.Suits cells)) ∧
    (∀ E : EntityType X, E.schema = .ok s →
      (∀ first last r, E.interval first last = .ok r → r.Suited) ∧ ∀ id r, E.intervalUnder id = .ok r → r.Suited) ∧
    ∀ r : Interval X, r.schema = s → r.Suited → ∀ node c, s.flatten node = .ok c → r.MeetsAlike c := by
  have hflat (node : Node X) (c : Cells X) (h : s.flatten node = .ok c) : c.length = s.width ∧ s.Suits c :=
    ⟨Schema.length_of_flatten hs h, Schema.suits_of_flatten hs h⟩
  have hbetween (E : EntityType X) (hschema : E.schema = .ok s) (first last : E.Id) (r : Interval X)
      (h : E.interval first last = .ok r) : r.Suited := by
    obtain ⟨lower, upper, hlower, hupper, hr⟩ := (EntityType.interval_eq_ok_iff hschema).1 h
    rw [EntityType.flatten_of_schema hschema] at hlower hupper
    exact (suited_iff hr).2 ⟨(hflat _ _ hlower).2, (hflat _ _ hupper).2⟩
  refine ⟨hflat, fun lower upper hwidth hlower hupper => hlower.meetAlike hupper hwidth,
    fun lower upper r => suited_iff, fun cells r hr => (suited_iff hr).trans (and_self_iff ..),
    fun E hschema => ⟨hbetween E hschema, fun id r => hbetween E hschema id id r⟩, ?_⟩
  rintro r rfl hsuited node c hc
  obtain ⟨hwidth, hsuits⟩ := hflat node c hc
  exact hsuited.meetsAlike hwidth hsuits

/-- The items with a given first field. -/
theorem kinds_agree_items : ∃ s r c, Schema.ofShape "app::ItemId" ItemId.shape = .ok s ∧
    (Item.type "app").intervalUnder ⟨some 1, none, none, none⟩ = .ok r ∧ r.Suited ∧
    s.flatten (ItemId.node ⟨some 1, some 2, some "a", some .ok⟩) = .ok c ∧ r.containsCells c = .ok true ∧
      r.MeetsAlike c := by
  obtain ⟨s, hs⟩ : ∃ s, Schema.ofShape "app::ItemId" ItemId.shape = .ok s := ⟨_, rfl⟩
  obtain ⟨-, -, -, -, hbetween, hmeet⟩ := Interval.kinds_agree hs
  have hsuited := (hbetween (Item.type "app") hs).2 ⟨some 1, none, none, none⟩ _ rfl
  cases hs
  exact ⟨_, _, _, rfl, rfl, hsuited, rfl, rfl,
    hmeet _ rfl hsuited (ItemId.node ⟨some 1, some 2, some "a", some .ok⟩) _ rfl⟩

/-- Nothing asks for the kind of a cell that is handed in: an interval over an integer may begin with a word, which is
then compared with integers. -/
theorem foreign_kind_admitted : ∃ (s : Schema) (r : Interval Sample.scalars) (c : Cells Sample.scalars),
    Schema.ofShape "app::HourId" (.converted .integer) = .ok s ∧
    ofBounds s [some (.string "six")] [none] = .ok r ∧ ¬r.Suited ∧
    s.flatten (.value (.integer 6)) = .ok c ∧ r.containsCells c = .ok true ∧ ¬r.MeetsAlike c := by
  have hholds : (Bound.within (X := Sample.scalars) (some (.string "six")) none).Holds (.string "six") := .inr (.inl rfl)
  refine ⟨⟨"app::HourId", .converted .integer, [⟨"id", .integer⟩]⟩, _, _, by cbv, rfl, fun h => ?_, rfl, rfl,
    fun h => ?_⟩
  · cases h 0 _ _ _ rfl rfl hholds
  · cases h 0 _ _ _ rfl hholds rfl

end Interval

end EntityStore
