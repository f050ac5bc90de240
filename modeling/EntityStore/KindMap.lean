/-!
# One value for each kind

A repository holds entities of several kinds, and what it keeps for a kind has that kind's own types.  A
`KindMap F` holds at most one value of type `F k` for each kind `k`, in the order in which the kinds first
came.  It is read through `get?`: `get?_set_self` and `get?_set_of_ne` are the two equations.
-/
namespace EntityStore

/-- A finite map whose value type depends on the key. -/
structure KindMap (κ : Type) (F : κ → Type) where
  entries : List (Sigma F) := []

namespace KindMap

variable {κ : Type} {F : κ → Type} [DecidableEq κ]

instance : Inhabited (KindMap κ F) := ⟨{}⟩

/-- The value of the first entry of kind `k`. -/
def find (k : κ) : List (Sigma F) → Option (F k)
  | [] => none
  | ⟨k', v⟩ :: rest => if h : k' = k then some (h ▸ v) else find k rest

/-- Replaces the entry of kind `k`, or adds one at the end. -/
def put (k : κ) (v : F k) : List (Sigma F) → List (Sigma F)
  | [] => [⟨k, v⟩]
  | ⟨k', w⟩ :: rest => if k' = k then ⟨k, v⟩ :: rest else ⟨k', w⟩ :: put k v rest

def get? (m : KindMap κ F) (k : κ) : Option (F k) := find k m.entries

def set (m : KindMap κ F) (k : κ) (v : F k) : KindMap κ F := ⟨put k v m.entries⟩

def keys (m : KindMap κ F) : List κ := m.entries.map Sigma.fst

def size (m : KindMap κ F) : Nat := m.entries.length

/-- Every value changed by a function of its kind. -/
def map {G : κ → Type} (f : (k : κ) → F k → G k) (m : KindMap κ F) : KindMap κ G :=
  ⟨m.entries.map (fun p => ⟨p.1, f p.1 p.2⟩)⟩

@[simp] theorem get?_empty (k : κ) : ({} : KindMap κ F).get? k = none := rfl

theorem find_put_self (k : κ) (v : F k) (l : List (Sigma F)) : find k (put k v l) = some v := by
  induction l with
  | nil => simp [put, find]
  | cons p rest ih =>
    obtain ⟨k', w⟩ := p
    by_cases h : k' = k
    · simp [put, find, h]
    · simp [put, find, h, ih]

theorem find_put_of_ne {k j : κ} (h : k ≠ j) (v : F k) (l : List (Sigma F)) :
    find j (put k v l) = find j l := by
  induction l with
  | nil => simp [put, find, h]
  | cons p rest ih =>
    obtain ⟨k', w⟩ := p
    by_cases hk : k' = k
    · subst hk; simp [put, find, h]
    · by_cases hj : k' = j
      · subst hj; simp [put, find, hk]
      · simp [put, find, hk, hj, ih]

@[simp] theorem get?_set_self (m : KindMap κ F) (k : κ) (v : F k) : (m.set k v).get? k = some v :=
  find_put_self k v m.entries

theorem get?_set_of_ne (m : KindMap κ F) {k j : κ} (h : k ≠ j) (v : F k) :
    (m.set k v).get? j = m.get? j := find_put_of_ne h v m.entries

theorem mem_map_fst_iff (k : κ) (l : List (Sigma F)) : k ∈ l.map Sigma.fst ↔ (find k l).isSome = true := by
  induction l with
  | nil => simp [find]
  | cons p rest ih =>
    obtain ⟨k', v⟩ := p
    by_cases h : k' = k
    · simp [find, h]
    · simp only [List.map_cons, List.mem_cons, Ne.symm h, false_or, ih, find, h, dif_neg, not_false_eq_true]

theorem mem_keys (m : KindMap κ F) (k : κ) : k ∈ m.keys ↔ (m.get? k).isSome = true := mem_map_fst_iff k m.entries

theorem map_fst_put (k : κ) (v : F k) (l : List (Sigma F)) :
    (put k v l).map Sigma.fst = if k ∈ l.map Sigma.fst then l.map Sigma.fst else l.map Sigma.fst ++ [k] := by
  induction l with
  | nil => rfl
  | cons p rest ih =>
    obtain ⟨k', w⟩ := p
    by_cases h : k' = k
    · subst h; simp [put]
    · rw [put, if_neg h, List.map_cons, ih]
      by_cases hr : k ∈ rest.map Sigma.fst <;> simp [hr, Ne.symm h]

theorem keys_set (m : KindMap κ F) (k : κ) (v : F k) :
    (m.set k v).keys = if k ∈ m.keys then m.keys else m.keys ++ [k] := map_fst_put k v m.entries

theorem find_map {G : κ → Type} (f : (k : κ) → F k → G k) (k : κ) (l : List (Sigma F)) :
    find k (l.map (fun p => (⟨p.1, f p.1 p.2⟩ : Sigma G))) = (find k l).map (f k) := by
  induction l with
  | nil => rfl
  | cons p rest ih =>
    obtain ⟨k', w⟩ := p
    by_cases h : k' = k
    · subst h; simp [find]
    · simp [find, h, ih]

@[simp] theorem get?_map {G : κ → Type} (f : (k : κ) → F k → G k) (m : KindMap κ F) (k : κ) :
    (m.map f).get? k = (m.get? k).map (f k) := find_map f k m.entries

end KindMap

end EntityStore
