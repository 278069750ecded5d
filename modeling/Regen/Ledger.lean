import Regen.Text.Order

/-! # Ledgers

    Entries by name, in the order in which the names first arrived.  Giving a known name a new
    entry keeps its place. -/

namespace Regen

/-- Entries by name in order of arrival. -/
abbrev Ledger (α : Type) := List (String × α)

namespace Ledger

variable {α : Type}

/-- The entry of a name. -/
def find? (l : Ledger α) (name : String) : Option α :=
  (List.find? (fun e => e.1 == name) l).map (·.2)

def has (l : Ledger α) (name : String) : Bool := (l.find? name).isSome

def names (l : Ledger α) : List String := l.map (·.1)

/-- Give a name an entry. -/
def insert (l : Ledger α) (name : String) (entry : α) : Ledger α :=
  match l with
  | [] => [(name, entry)]
  | (n, e) :: rest => if n == name then (n, entry) :: rest else (n, e) :: insert rest name entry

/-- Give a name an entry unless it has one. -/
def insertNew (l : Ledger α) (name : String) (entry : α) : Ledger α :=
  if l.has name then l else l.insert name entry

/-- Collect entries one after the other. -/
def ofEntries (entries : List (String × α)) : Ledger α :=
  entries.foldl (fun l e => l.insert e.1 e.2) []

/-- The entries in the order of their names. -/
def sorted (l : Ledger α) : Ledger α :=
  sortBy (fun a b => Text.atMost a.1 b.1) l

/-- Do two ledgers give the same names equal entries, in whatever order? -/
def sameBy (eq : α → α → Bool) (l m : Ledger α) : Bool :=
  l.length == m.length && l.all fun e => match m.find? e.1 with
    | some x => eq e.2 x
    | none => false

/-! ## Small facts -/

theorem insert_nil (name : String) (entry : α) :
    insert ([] : Ledger α) name entry = [(name, entry)] := rfl

theorem insert_cons (n name : String) (e entry : α) (rest : Ledger α) :
    insert ((n, e) :: rest) name entry =
      if n == name then (n, entry) :: rest else (n, e) :: insert rest name entry := rfl

@[simp] theorem find?_nil (name : String) : find? ([] : Ledger α) name = none := rfl

theorem find?_cons (n name : String) (e : α) (rest : Ledger α) :
    find? ((n, e) :: rest) name = if n == name then some e else find? rest name := by
  by_cases h : n == name <;> simp [find?, h]

/-- What a name has is among the entries. -/
theorem mem_of_find? {l : Ledger α} {name : String} {entry : α} (h : l.find? name = some entry) :
    (name, entry) ∈ l := by
  obtain ⟨⟨n, e⟩, he, rfl⟩ := Option.map_eq_some_iff.mp h
  have hname : n = name := by simpa using List.find?_some he
  exact hname ▸ List.mem_of_find?_eq_some he

/-- A name has the entry that it was given last. -/
@[simp] theorem find?_insert_self (l : Ledger α) (name : String) (entry : α) :
    (l.insert name entry).find? name = some entry := by
  induction l with
  | nil => simp [insert_nil, find?]
  | cons x rest ih =>
    obtain ⟨n, e⟩ := x
    by_cases h : n == name
    · simp [insert_cons, h, find?_cons]
    · simp [insert_cons, h, find?_cons, ih]

/-- Other names keep their entries. -/
theorem find?_insert_of_ne (l : Ledger α) {name other : String} (entry : α) (h : name ≠ other) :
    (l.insert name entry).find? other = l.find? other := by
  induction l with
  | nil => simp [insert_nil, find?, h]
  | cons x rest ih =>
    obtain ⟨n, e⟩ := x
    by_cases hn : n = name
    · subst hn; simp [insert_cons, find?_cons, h]
    · simp [insert_cons, hn, find?_cons, ih]

/-- A known name keeps its place, a new one comes last. -/
theorem names_insert (l : Ledger α) (name : String) (entry : α) :
    (l.insert name entry).names = if name ∈ l.names then l.names else l.names ++ [name] := by
  induction l with
  | nil => simp [insert_nil, names]
  | cons x rest ih =>
    obtain ⟨n, e⟩ := x
    by_cases hn : n = name
    · subst hn; simp [insert_cons, names]
    · have hne : name ≠ n := Ne.symm hn
      simp only [names] at ih
      by_cases hm : name ∈ rest.map (·.1) <;> simp_all [insert_cons, names]

end Ledger

end Regen
