/-! Tables by name. A name has one entry; a later entry of the name takes the place of the earlier one.
Looking a name up is `List.lookup`. -/

namespace Conform

abbrev NameTable (α : Type) := List (String × α)

namespace NameTable

variable {α : Type}

def put (t : NameTable α) (name : String) (a : α) : NameTable α :=
  match t with
  | [] => [(name, a)]
  | e :: rest => if e.1 = name then (name, a) :: rest else e :: put rest name a

theorem lookup_put_self (t : NameTable α) (name : String) (a : α) :
    (t.put name a).lookup name = some a := by
  induction t with
  | nil => simp [put]
  | cons e rest ih =>
    obtain ⟨other, b⟩ := e
    simp only [put]
    split
    · simp
    · next h =>
      have : (name == other) = false := by simpa using fun h' => h h'.symm
      simp [List.lookup_cons, this, ih]

theorem lookup_put_of_ne (t : NameTable α) {name other : String} (a : α) (h : other ≠ name) :
    (t.put name a).lookup other = t.lookup other := by
  have hn : (other == name) = false := by simpa using h
  induction t with
  | nil => simp [put, List.lookup_cons, hn]
  | cons e rest ih =>
    obtain ⟨n, b⟩ := e
    simp only [put]
    split
    · next he => simp [List.lookup_cons, show n = name from he, hn]
    · simp only [List.lookup_cons, ih]

end NameTable

end Conform
