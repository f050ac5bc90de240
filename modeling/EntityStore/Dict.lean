/-!
# Finite maps as lists of entries

A `Dict` holds its entries in the order in which their keys first came, one entry a key.  The rest of the
library reads a map through `get?` alone; `get?_insert` and `get?_erase` say what an operation does to that
view, and nobody unfolds the list after that.
-/
namespace EntityStore

/-- A finite map, as the list of its entries. -/
structure Dict (α β : Type) where
  entries : List (α × β) := []
deriving DecidableEq

namespace Dict

variable {α β : Type} [DecidableEq α]

instance : Inhabited (Dict α β) := ⟨{}⟩

/-- The value of the first entry under `k`. -/
def find (k : α) : List (α × β) → Option β
  | [] => none
  | (k', v) :: rest => if k' = k then some v else find k rest

/-- Replaces the entry under `k`, or adds one at the end. -/
def put (k : α) (v : β) : List (α × β) → List (α × β)
  | [] => [(k, v)]
  | (k', w) :: rest => if k' = k then (k, v) :: rest else (k', w) :: put k v rest

def get? (d : Dict α β) (k : α) : Option β := find k d.entries

def getD (d : Dict α β) (k : α) (fallback : β) : β := (d.get? k).getD fallback

def contains (d : Dict α β) (k : α) : Bool := (d.get? k).isSome

def insert (d : Dict α β) (k : α) (v : β) : Dict α β := ⟨put k v d.entries⟩

def erase (d : Dict α β) (k : α) : Dict α β := ⟨d.entries.filter (fun p => decide (p.1 ≠ k))⟩

def keys (d : Dict α β) : List α := d.entries.map Prod.fst

def values (d : Dict α β) : List β := d.entries.map Prod.snd

def size (d : Dict α β) : Nat := d.entries.length

@[simp] theorem get?_empty (k : α) : ({} : Dict α β).get? k = none := rfl

theorem find_put (k j : α) (v : β) (l : List (α × β)) :
    find j (put k v l) = if k = j then some v else find j l := by
  induction l with
  | nil => simp [put, find]
  | cons p rest ih =>
    obtain ⟨k', w⟩ := p
    by_cases h : k' = k
    · subst h; by_cases hj : k' = j <;> simp [put, find, hj]
    · by_cases hj : k' = j
      · subst hj; simp [put, find, h, Ne.symm h]
      · simp [put, find, h, hj, ih]

theorem find_filter_ne (k j : α) (l : List (α × β)) :
    find j (l.filter (fun p => decide (p.1 ≠ k))) = if k = j then none else find j l := by
  induction l with
  | nil => simp [find]
  | cons p rest ih =>
    obtain ⟨k', w⟩ := p
    by_cases h : k' = k
    · subst h; by_cases hj : k' = j <;> simp_all [find]
    · by_cases hj : k' = j
      · subst hj; simp [find, h, Ne.symm h]
      · simp_all [find]

theorem get?_insert (d : Dict α β) (k j : α) (v : β) :
    (d.insert k v).get? j = if k = j then some v else d.get? j := find_put k j v d.entries

theorem get?_erase (d : Dict α β) (k j : α) :
    (d.erase k).get? j = if k = j then none else d.get? j := find_filter_ne k j d.entries

theorem contains_erase (d : Dict α β) (k j : α) : (d.erase k).contains j = if k = j then false else d.contains j := by
  unfold contains
  rw [get?_erase]
  split <;> rfl

theorem contains_of_mem_getD {d : Dict α (List β)} {k : α} {v : β} (h : v ∈ d.getD k []) : d.contains k = true := by
  unfold getD at h
  unfold contains
  cases hk : d.get? k with
  | none =>
    rw [hk] at h
    cases h
  | some vs => rfl

theorem put_put (k : α) (v w : β) (l : List (α × β)) : put k w (put k v l) = put k w l := by
  induction l with
  | nil => simp [put]
  | cons p rest ih =>
    obtain ⟨k', u⟩ := p
    by_cases h : k' = k
    · simp [put, h]
    · simp [put, h, ih]

theorem put_of_find {k : α} {v : β} {l : List (α × β)} (h : find k l = some v) : put k v l = l := by
  induction l with
  | nil => cases h
  | cons p rest ih =>
    obtain ⟨k', u⟩ := p
    by_cases hk : k' = k
    · simp only [find, if_pos hk, Option.some.injEq] at h
      simp [put, hk, h]
    · simp only [find, if_neg hk] at h
      simp [put, hk, ih h]

theorem insert_insert (d : Dict α β) (k : α) (v w : β) : (d.insert k v).insert k w = d.insert k w :=
  congrArg Dict.mk (put_put k v w d.entries)

theorem insert_of_get? {d : Dict α β} {k : α} {v : β} (h : d.get? k = some v) : d.insert k v = d :=
  congrArg Dict.mk (put_of_find h)

end Dict

end EntityStore
