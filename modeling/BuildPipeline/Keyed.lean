/-!
Lists of pairs as finite maps. Looking a key up after `put` and `erase` gives what a map would;
putting what is already there changes nothing.
-/

namespace BuildPipeline.Keyed

variable {κ α : Type} [DecidableEq κ]

/-- The value of a key. -/
def get? (key : κ) : List (κ × α) → Option α
  | [] => none
  | (k, a) :: rest => if k = key then some a else get? key rest

/-- Gives a key a value: in the place of the one that it has, or at the end. -/
def put (key : κ) (value : α) : List (κ × α) → List (κ × α)
  | [] => [(key, value)]
  | (k, a) :: rest => if k = key then (k, value) :: rest else (k, a) :: put key value rest

/-- Takes a key away. -/
def erase (key : κ) (entries : List (κ × α)) : List (κ × α) :=
  entries.filter (·.1 ≠ key)

@[simp]
theorem get?_put_self (key : κ) (value : α) (entries : List (κ × α)) :
    get? key (put key value entries) = some value := by
  induction entries with
  | nil => simp [put, get?]
  | cons entry rest ih =>
    by_cases h : entry.1 = key
    · simp [put, get?, h]
    · simp [put, get?, h, ih]

theorem get?_put_of_ne {key other : κ} (ne : other ≠ key) (value : α) (entries : List (κ × α)) :
    get? other (put key value entries) = get? other entries := by
  induction entries with
  | nil => simp [put, get?, Ne.symm ne]
  | cons entry rest ih =>
    by_cases h : entry.1 = key
    · have : ¬entry.1 = other := fun same => ne (same.symm.trans h)
      simp [put, get?, h, Ne.symm ne]
    · by_cases h' : entry.1 = other
      · subst h'
        simp [put, get?, h]
      · simp [put, get?, h, h', ih]

@[simp]
theorem get?_erase_self (key : κ) (entries : List (κ × α)) :
    get? key (erase key entries) = none := by
  induction entries with
  | nil => rfl
  | cons entry rest ih =>
    by_cases h : entry.1 = key
    · simpa [erase, h] using ih
    · simpa [erase, h, get?] using ih

theorem get?_erase_of_ne {key other : κ} (ne : other ≠ key) (entries : List (κ × α)) :
    get? other (erase key entries) = get? other entries := by
  induction entries with
  | nil => rfl
  | cons entry rest ih =>
    by_cases h : entry.1 = key
    · have : ¬entry.1 = other := fun same => ne (same.symm.trans h)
      simpa [erase, h, get?, this, Ne.symm ne] using ih
    · by_cases h' : entry.1 = other
      · subst h'
        simp [erase, h, get?]
      · simpa [erase, h, get?, h'] using ih

/-- Putting what is already there changes nothing. -/
theorem put_of_get? {key : κ} {value : α} {entries : List (κ × α)}
    (there : get? key entries = some value) : put key value entries = entries := by
  induction entries with
  | nil => simp [get?] at there
  | cons entry rest ih =>
    by_cases h : entry.1 = key
    · simp only [get?, h, if_true, Option.some.injEq] at there
      simp [put, ← there, ← h]
    · simp only [get?, h, if_false] at there
      simp [put, h, ih there]

end BuildPipeline.Keyed
