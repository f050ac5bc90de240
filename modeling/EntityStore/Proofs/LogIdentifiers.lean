import EntityStore.Tx.Name
import Mathlib.Data.List.Induction
import Mathlib.Data.Nat.Digits.Lemmas
/-!
# Log identifiers

A log identifier is a number in base 36 followed by the mark of an isolation level.  `Digits.Spells` says which digits
may stand for a number: no zero is put in front beyond the width that is asked for.  There is one such list
(`Spells.unique`), and it is the one that is written (`spells_padded`).  No mark has a figure in it, so that the digits
end where the mark begins and the text can be read back (`readLogId?_logId`); and where the width is enough for both of
two numbers, their digits are in the order of the numbers (`value_lt_value_iff`), and so are the texts.
-/
namespace EntityStore

namespace Digits

/-! ## The value of a list of digits -/

theorem value_eq_ofDigits (b : Nat) (ds : List Nat) : value b ds = Nat.ofDigits b ds.reverse := by
  induction ds using List.reverseRecOn with
  | nil => rfl
  | append_singleton ds d ih =>
    rw [value_append_singleton, ih, List.reverse_append, List.reverse_singleton, List.singleton_append,
      Nat.ofDigits_cons, Nat.mul_comm, Nat.add_comm]

theorem value_cons (b d : Nat) (ds : List Nat) : value b (d :: ds) = d * b ^ ds.length + value b ds := by
  rw [value_eq_ofDigits, value_eq_ofDigits, List.reverse_cons, Nat.ofDigits_append, Nat.ofDigits_singleton,
    List.length_reverse, Nat.mul_comm, Nat.add_comm]

theorem value_lt {b : Nat} (hb : 1 < b) {ds : List Nat} (h : ∀ d ∈ ds, d < b) : value b ds < b ^ ds.length := by
  rw [value_eq_ofDigits, ← List.length_reverse]
  exact Nat.ofDigits_lt_base_pow_length hb fun d hd => h d (List.mem_reverse.1 hd)

theorem value_padded (b width : Nat) (ds : List Nat) : value b (padded width ds) = value b ds := by
  rw [value_eq_ofDigits, value_eq_ofDigits, padded, List.reverse_append, List.reverse_replicate,
    Nat.ofDigits_append_replicate_zero]

/-- A list that does not begin with a zero stands for a number that needs all its digits. -/
theorem pow_le_value {b d : Nat} {ds : List Nat} (hd : d ≠ 0) : b ^ ds.length ≤ value b (d :: ds) := by
  rw [value_cons]
  exact Nat.le_add_right_of_le (Nat.le_mul_of_pos_left _ (Nat.pos_of_ne_zero hd))

/-- **Of two lists of one length the first digit that differs tells which number is less.** -/
theorem value_lt_value_iff {b : Nat} (hb : 1 < b) : ∀ {ds es : List Nat}, ds.length = es.length →
    (∀ d ∈ ds, d < b) → (∀ e ∈ es, e < b) → (value b ds < value b es ↔ ds < es)
  | [], [], _, _, _ => by simp
  | d :: ds, e :: es, hlength, hds, hes => by
    have hlength := Nat.succ.inj hlength
    obtain ⟨-, hds⟩ := List.forall_mem_cons.1 hds
    obtain ⟨-, hes⟩ := List.forall_mem_cons.1 hes
    have hd := value_lt hb hds
    have he := value_lt hb hes
    rw [hlength] at hd
    rw [List.cons_lt_cons_iff, ← value_lt_value_iff hb hlength hds hes, value_cons, value_cons, hlength]
    generalize b ^ es.length = unit at hd he
    rcases Nat.lt_trichotomy d e with hlt | rfl | hgt
    · have hstep : (d + 1) * unit ≤ e * unit := Nat.mul_le_mul_right unit hlt
      rw [Nat.succ_mul] at hstep
      exact iff_of_true (by omega) (.inl hlt)
    · simp
    · have hstep : (e + 1) * unit ≤ d * unit := Nat.mul_le_mul_right unit hgt
      rw [Nat.succ_mul] at hstep
      exact iff_of_false (by omega) (by omega)

/-! ## The digits of a number -/

/-- The list has digits of base `b`, at least `width` of them, and stands for `n`; more than `width` digits do not begin
with a zero. -/
structure Spells (b width n : Nat) (ds : List Nat) : Prop where
  digit_lt : ∀ d ∈ ds, d < b
  value_eq : value b ds = n
  width_le : width ≤ ds.length
  head?_ne : width < ds.length → ds.head? ≠ some 0

theorem Spells.length_le {b width n : Nat} (hb : 1 < b) {ds es : List Nat} (h : Spells b width n ds)
    (h' : Spells b width n es) : es.length ≤ ds.length := by
  by_contra hlonger
  rw [Nat.not_le] at hlonger
  have hhead := h'.head?_ne (Nat.lt_of_le_of_lt h.width_le hlonger)
  cases es with
  | nil => cases hlonger
  | cons e es =>
    have he : e ≠ 0 := fun he => hhead (by rw [he]; rfl)
    have hsmall : n < b ^ ds.length := h.value_eq ▸ value_lt hb h.digit_lt
    have hlarge : b ^ es.length ≤ n := h'.value_eq ▸ pow_le_value he
    have hpow : b ^ ds.length ≤ b ^ es.length :=
      Nat.pow_le_pow_right (Nat.le_of_lt hb) (Nat.le_of_lt_succ hlonger)
    omega

/-- **One list of digits stands for a number.** -/
theorem Spells.unique {b width n : Nat} (hb : 1 < b) {ds es : List Nat} (h : Spells b width n ds)
    (h' : Spells b width n es) : ds = es := by
  have hlength : ds.length = es.length := Nat.le_antisymm (h'.length_le hb h) (h.length_le hb h')
  refine List.reverse_injective (Nat.ofDigits_inj_of_len_eq hb (by simp [hlength]) ?_ ?_ ?_)
  · exact fun d hd => h.digit_lt d (List.mem_reverse.1 hd)
  · exact fun e he => h'.digit_lt e (List.mem_reverse.1 he)
  · rw [← value_eq_ofDigits, ← value_eq_ofDigits, h.value_eq, h'.value_eq]

theorem digits_lt {b : Nat} (hb : 1 < b) (n : Nat) : ∀ d ∈ digits b n, d < b := by
  fun_induction digits b n with
  | case1 n h =>
    intro d hd
    rw [List.mem_singleton.1 hd]
    omega
  | case2 n h ih =>
    intro d hd
    rcases List.mem_append.1 hd with hd | hd
    · exact ih d hd
    · rw [List.mem_singleton.1 hd]
      exact Nat.mod_lt n (Nat.zero_lt_of_lt hb)

theorem head?_digits_ne {b : Nat} (hb : 1 < b) {n : Nat} (hn : n ≠ 0) : (digits b n).head? ≠ some 0 := by
  fun_induction digits b n with
  | case1 n h => simpa using hn
  | case2 n h ih =>
    have hquotient : n / b ≠ 0 := (Nat.div_pos (by omega) (Nat.zero_lt_of_lt hb)).ne'
    rw [ne_eq, List.head?_append, Option.or_eq_some_iff]
    rintro (hzero | ⟨hnone, -⟩)
    · exact ih hquotient hzero
    · -- the higher digits are not an empty list
      unfold digits at hnone
      split at hnone <;> simp at hnone

/-- **What is written stands for the number**, with no zero too many. -/
theorem spells_padded {b width : Nat} (hb : 1 < b) (hwidth : 0 < width) (n : Nat) :
    Spells b width n (padded width (digits b n)) where
  digit_lt d hd := by
    rcases List.mem_append.1 hd with hd | hd
    · rw [List.eq_of_mem_replicate hd]
      exact Nat.zero_lt_of_lt hb
    · exact digits_lt hb n d hd
  value_eq := (value_padded b width _).trans (value_digits b n)
  width_le := by
    rw [padded, List.length_append, List.length_replicate]
    omega
  head?_ne hlonger := by
    rw [padded, List.length_append, List.length_replicate] at hlonger
    rw [padded, Nat.sub_eq_zero_of_le (by omega), List.replicate_zero, List.nil_append]
    refine head?_digits_ne hb ?_
    rintro rfl
    -- zero has one digit, which the width has room for
    have hone : (digits b 0).length = 1 := by
      unfold digits
      rw [dif_pos (.inl (Nat.zero_lt_of_lt hb))]
      rfl
    omega

/-! ## Figures -/

theorem digit?_figure : ∀ {d : Nat}, d < 36 → digit? (figure d) = some d := by decide

theorem figure_lt_figure_iff : ∀ {d : Nat}, d < 36 → ∀ {e : Nat}, e < 36 → (figure d < figure e ↔ d < e) := by decide

theorem figure_injective {d e : Nat} (hd : d < 36) (he : e < 36) (h : figure d = figure e) : d = e :=
  Option.some.inj ((digit?_figure hd).symm.trans ((congrArg digit? h).trans (digit?_figure he)))

theorem map_figure_append_lt_iff (mark : List Char) : ∀ {ds es : List Nat}, ds.length = es.length →
    (∀ d ∈ ds, d < 36) → (∀ e ∈ es, e < 36) → (ds.map figure ++ mark < es.map figure ++ mark ↔ ds < es)
  | [], [], _, _, _ => iff_of_false (List.lt_irrefl _) (List.lt_irrefl _)
  | d :: ds, e :: es, hlength, hds, hes => by
    obtain ⟨hd, hds⟩ := List.forall_mem_cons.1 hds
    obtain ⟨he, hes⟩ := List.forall_mem_cons.1 hes
    have hsame : figure d = figure e ↔ d = e := ⟨figure_injective hd he, congrArg figure⟩
    rw [List.map_cons, List.map_cons, List.cons_append, List.cons_append, List.cons_lt_cons_iff, List.cons_lt_cons_iff,
      figure_lt_figure_iff hd he, hsame, map_figure_append_lt_iff mark (Nat.succ.inj hlength) hds hes]

/-- The digits that a text begins with, and the rest of it. -/
def scan : List Char → List Nat × List Char
  | [] => ([], [])
  | c :: rest =>
    match digit? c with
    | none => ([], c :: rest)
    | some d => (d :: (scan rest).1, (scan rest).2)

theorem scan_map_figure_append {mark : List Char} (hmark : ∀ c ∈ mark, digit? c = none) :
    ∀ {ds : List Nat}, (∀ d ∈ ds, d < 36) → scan (ds.map figure ++ mark) = (ds, mark)
  | [], _ => by
    cases mark with
    | nil => rfl
    | cons c rest =>
      rw [List.map_nil, List.nil_append, scan, hmark c List.mem_cons_self]
  | d :: ds, h => by
    obtain ⟨hd, hds⟩ := List.forall_mem_cons.1 h
    rw [List.map_cons, List.cons_append, scan, digit?_figure hd, scan_map_figure_append hmark hds]

end Digits

/-! ## Numbers with the mark of a level -/

theorem Isolation.digit?_suffix (i : Isolation) : ∀ c ∈ i.suffix.toList, Digits.digit? c = none := by
  have hall : (i.suffix.toList.all fun c => (Digits.digit? c).isNone) = true := by cases i <;> rfl
  exact fun c hc => Option.isNone_iff_eq_none.1 (List.all_eq_true.1 hall c hc)

theorem Isolation.find?_suffix (i : Isolation) :
    all.find? (fun j => decide (j.suffix.toList = i.suffix.toList)) = some i := by
  cases i <;> decide

/-- The number and the level of a log identifier; `none` if the digits do not end in the mark of a level. -/
def readLogId? (text : String) : Option (Nat × Isolation) :=
  let (ds, mark) := Digits.scan text.toList
  (Isolation.all.find? fun i => i.suffix.toList = mark).map fun i => (Digits.value 36 ds, i)

theorem toList_logId (n : Nat) (i : Isolation) :
    (logId n i).toList = (Digits.padded 6 (Digits.digits 36 n)).map Digits.figure ++ i.suffix.toList := by
  rw [logId, String.toList_append, Digits.text, String.toList_ofList]

theorem spells_logId (n : Nat) : Digits.Spells 36 6 n (Digits.padded 6 (Digits.digits 36 n)) :=
  Digits.spells_padded (by decide) (by decide) n

/-- **A log identifier can be read back.** -/
theorem readLogId?_logId (n : Nat) (i : Isolation) : readLogId? (logId n i) = some (n, i) := by
  have hspells := spells_logId n
  rw [readLogId?, toList_logId, Digits.scan_map_figure_append i.digit?_suffix hspells.digit_lt]
  dsimp only
  rw [i.find?_suffix, Option.map_some, hspells.value_eq]

theorem length_padded_of_lt {n : Nat} (h : n < 36 ^ 6) : (Digits.padded 6 (Digits.digits 36 n)).length = 6 := by
  have hspells := spells_logId n
  refine Nat.le_antisymm (Nat.le_of_not_lt fun hlonger => ?_) hspells.width_le
  have hhead := hspells.head?_ne hlonger
  have hvalue := hspells.value_eq
  generalize Digits.padded 6 (Digits.digits 36 n) = ds at hlonger hhead hvalue
  cases ds with
  | nil => cases hlonger
  | cons d ds =>
    have hd : d ≠ 0 := fun hd => hhead (by rw [hd]; rfl)
    have hpow : 36 ^ 6 ≤ 36 ^ ds.length := Nat.pow_le_pow_right (by decide) (Nat.le_of_lt_succ hlonger)
    have hlarge : 36 ^ ds.length ≤ Digits.value 36 (d :: ds) := Digits.pow_le_value hd
    omega

/-- **Log identifiers are legible.**  One list of digits stands for a number in base 36, at least six of them and no zero
too many, and the text is the figures of this list and the mark of the level.  It can be read back, so that two texts
are the same only if the numbers and the levels are.  Of two numbers that six figures are enough for, the texts are in
the order of the numbers. -/
theorem logId_legible :
    (List.range 36).map Digits.figure = "0123456789abcdefghijklmnopqrstuvwxyz".toList ∧
    (∀ n i, ∃ ds, (∀ es, Digits.Spells 36 6 n es ↔ es = ds) ∧
      (logId n i).toList = ds.map Digits.figure ++ i.suffix.toList) ∧
    (∀ n i, readLogId? (logId n i) = some (n, i)) ∧
    (∀ n i m j, logId n i = logId m j ↔ n = m ∧ i = j) ∧
    ∀ n m i, n < 36 ^ 6 → m < 36 ^ 6 → (logId n i < logId m i ↔ n < m) := by
  refine ⟨by decide, fun n i => ⟨_, fun es => ?_, toList_logId n i⟩, readLogId?_logId, fun n i m j => ?_,
    fun n m i hn hm => ?_⟩
  · have hspells := spells_logId n
    exact ⟨fun h => h.unique (by decide) hspells, fun h => h ▸ hspells⟩
  · constructor
    · intro h
      have hread := congrArg readLogId? h
      rw [readLogId?_logId, readLogId?_logId] at hread
      exact Prod.ext_iff.1 (Option.some.inj hread)
    · rintro ⟨rfl, rfl⟩
      rfl
  · have hspells := spells_logId n
    have hspells' := spells_logId m
    have hlength := (length_padded_of_lt hn).trans (length_padded_of_lt hm).symm
    rw [String.lt_iff, toList_logId, toList_logId,
      Digits.map_figure_append_lt_iff _ hlength hspells.digit_lt hspells'.digit_lt,
      ← Digits.value_lt_value_iff (by decide) hlength hspells.digit_lt hspells'.digit_lt, hspells.value_eq,
      hspells'.value_eq]

/-- After `z` another figure goes up. -/
theorem logId_legible_carrying : 35 < 36 ^ 6 ∧ 36 < 36 ^ 6 ∧ logId 35 .snapshot < logId 36 .snapshot :=
  ⟨by decide, by decide, (logId_legible.2.2.2.2 35 36 .snapshot (by decide) (by decide)).2 (by decide)⟩

/-- A seventh figure comes before all texts that six are enough for. -/
example : logId 2176782335 .serializableReadWrite = "zzzzzz" ∧ logId 2176782336 .serializableReadWrite = "1000000" :=
  ⟨by cbv, by cbv⟩

end EntityStore
