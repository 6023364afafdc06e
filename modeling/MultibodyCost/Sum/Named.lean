/-!
# Values by name

A list of named values in strictly increasing order of the names, without two of one name. Names are
ordered by their characters' code points. `insert` puts a value at its place and replaces one of the
same name, `erase` takes it away, and `find?` is the finite map that the list stands for.
-/

namespace MultibodyCost

abbrev Named (β : Type) := List (String × β)

namespace Named

variable {β : Type}

def find? (xs : Named β) (name : String) : Option β := xs.lookup name

def insert (xs : Named β) (name : String) (value : β) : Named β :=
  match xs with
  | [] => [(name, value)]
  | (n, v) :: rest =>
    if name < n then (name, value) :: (n, v) :: rest
    else if name = n then (name, value) :: rest
    else (n, v) :: insert rest name value

def erase (xs : Named β) (name : String) : Named β := xs.filter fun x => x.1 ≠ name

def names (xs : Named β) : List String := xs.map Prod.fst

theorem not_mem_names_erase (xs : Named β) (name : String) : name ∉ names (erase xs name) := by
  simp [names, erase]

end Named

end MultibodyCost
