/-!
# Dictionaries

A dictionary maps names to values and keeps them in the order in which the names came. A later value
takes the place of an earlier one of the same name. The view is `Dictionary.get?`; `get?_insert` and
`get?_erase` say what the operations do to it.
-/

namespace ExprCalculus

structure Dictionary (α : Type) where
  toList : List (String × α)

namespace Dictionary

variable {α : Type}

def empty : Dictionary α := ⟨[]⟩

instance : EmptyCollection (Dictionary α) := ⟨empty⟩
instance : Inhabited (Dictionary α) := ⟨empty⟩

def get? (d : Dictionary α) (name : String) : Option α := d.toList.lookup name

def contains (d : Dictionary α) (name : String) : Bool := (d.get? name).isSome

def size (d : Dictionary α) : Nat := d.toList.length

def names (d : Dictionary α) : List String := d.toList.map Prod.fst

/-- The entries with the value of a name set: in place, or at the end for a new name. -/
def insertEntry (name : String) (value : α) : List (String × α) → List (String × α)
  | [] => [(name, value)]
  | (n, v) :: rest =>
    if name == n then (name, value) :: rest else (n, v) :: insertEntry name value rest

def insert (d : Dictionary α) (name : String) (value : α) : Dictionary α :=
  ⟨insertEntry name value d.toList⟩

def erase (d : Dictionary α) (name : String) : Dictionary α :=
  ⟨d.toList.filter fun entry => entry.1 != name⟩

/-- The dictionary of these entries; of two with one name the later counts. -/
def ofList (entries : List (String × α)) : Dictionary α :=
  entries.foldl (fun d entry => d.insert entry.1 entry.2) empty

/-- All entries of the second dictionary, and those of the first under other names. -/
def union (d e : Dictionary α) : Dictionary α :=
  e.toList.foldl (fun d entry => d.insert entry.1 entry.2) d

def sorted (d : Dictionary α) : List (String × α) :=
  d.toList.mergeSort fun a b => a.1 ≤ b.1

/-- Two dictionaries are equal when they have the same names and equal values. -/
instance [BEq α] : BEq (Dictionary α) where
  beq d e := d.size == e.size && d.toList.all fun entry =>
    match e.get? entry.1 with
    | some v => entry.2 == v
    | none => false

@[simp] theorem get?_empty (name : String) : (empty : Dictionary α).get? name = none := rfl

theorem lookup_cons (entry : String × α) (rest : List (String × α)) (n : String) :
    (entry :: rest).lookup n = if n = entry.1 then some entry.2 else rest.lookup n := by
  obtain ⟨name, value⟩ := entry
  rw [List.lookup_cons]
  by_cases h : n = name
  · simp [h]
  · rw [beq_false_of_ne h, if_neg h]

theorem lookup_insertEntry (name : String) (value : α) (entries : List (String × α)) (n : String) :
    (insertEntry name value entries).lookup n
      = if n = name then some value else entries.lookup n := by
  induction entries with
  | nil => simp [insertEntry, lookup_cons]
  | cons entry rest ih =>
    by_cases hk : name = entry.1
    · subst hk
      by_cases h : n = entry.1 <;> simp [insertEntry, lookup_cons, h]
    · by_cases h : n = entry.1
      · subst h
        simp [insertEntry, lookup_cons, hk, Ne.symm hk]
      · simp [insertEntry, lookup_cons, hk, h, ih]

theorem get?_insert (d : Dictionary α) (name : String) (value : α) (n : String) :
    (d.insert name value).get? n = if n = name then some value else d.get? n :=
  lookup_insertEntry name value d.toList n

theorem lookup_filter (entries : List (String × α)) (name n : String) :
    (entries.filter fun entry => entry.1 != name).lookup n
      = if n = name then none else entries.lookup n := by
  induction entries with
  | nil => simp
  | cons entry rest ih =>
    by_cases hk : entry.1 = name
    · rw [List.filter_cons_of_neg (by simp [hk]), ih, lookup_cons, hk]
      by_cases h : n = name <;> simp only [h, if_true, if_false]
    · by_cases h : n = entry.1
      · subst h
        simp [hk, lookup_cons]
      · simp [hk, lookup_cons, h, ih]

theorem get?_erase (d : Dictionary α) (name n : String) :
    (d.erase name).get? n = if n = name then none else d.get? n :=
  lookup_filter d.toList name n

end Dictionary

abbrev Bindings (ν : Type) := Dictionary ν

end ExprCalculus
