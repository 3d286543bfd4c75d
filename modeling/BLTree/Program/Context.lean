import BLTree.Statement.Basic

/-!
# Contexts

A context binds procedure names to statements. It is a list that the order of the names sorts, with
no name twice, so that equal contexts are equal lists whatever the order of the insertions was.
-/

namespace BLTree

structure Context where
  entries : List (Identifier × Statement)
  sorted : entries.Pairwise fun a b ↦ a.1 < b.1
  deriving DecidableEq

namespace Context

def empty : Context := ⟨[], .nil⟩

instance : Inhabited Context := ⟨empty⟩

/-- The statement bound to the identifier whose text is `name`. -/
def get? (c : Context) (name : String) : Option Statement :=
  (c.entries.find? fun entry ↦ entry.1.text == name).map (·.2)

def contains (c : Context) (name : Identifier) : Bool := (c.get? name.text).isSome

def names (c : Context) : List Identifier := c.entries.map (·.1)

/-- Puts a binding in its place, over an earlier one for the same name. -/
def insertEntry (name : Identifier) (body : Statement) :
    List (Identifier × Statement) → List (Identifier × Statement)
  | [] => [(name, body)]
  | entry :: others =>
    if name < entry.1 then (name, body) :: entry :: others
    else if name = entry.1 then (name, body) :: others
    else entry :: insertEntry name body others

theorem mem_insertEntry {name : Identifier} {body : Statement}
    {entries : List (Identifier × Statement)} {entry : Identifier × Statement}
    (h : entry ∈ insertEntry name body entries) : entry = (name, body) ∨ entry ∈ entries := by
  induction entries with
  | nil => simpa [insertEntry] using h
  | cons head others ih =>
    unfold insertEntry at h
    split at h
    · simpa using h
    · split at h
      · rcases List.mem_cons.mp h with h | h
        · exact .inl h
        · exact .inr (List.mem_cons_of_mem _ h)
      · rcases List.mem_cons.mp h with h | h
        · exact .inr (h ▸ List.mem_cons_self)
        · exact (ih h).imp_right (List.mem_cons_of_mem _)

theorem sorted_insertEntry (name : Identifier) (body : Statement)
    {entries : List (Identifier × Statement)} (h : entries.Pairwise fun a b ↦ a.1 < b.1) :
    (insertEntry name body entries).Pairwise fun a b ↦ a.1 < b.1 := by
  induction entries with
  | nil => simp [insertEntry]
  | cons head others ih =>
    obtain ⟨hhead, hothers⟩ := List.pairwise_cons.mp h
    unfold insertEntry
    split
    · rename_i hlt
      refine List.pairwise_cons.mpr ⟨fun entry hentry ↦ ?_, h⟩
      rcases List.mem_cons.mp hentry with rfl | hentry
      · exact hlt
      · exact Identifier.lt_trans hlt (hhead entry hentry)
    · rename_i hlt
      split
      · rename_i heq
        exact List.pairwise_cons.mpr ⟨fun entry hentry ↦ heq ▸ hhead entry hentry, hothers⟩
      · rename_i hne
        refine List.pairwise_cons.mpr ⟨fun entry hentry ↦ ?_, ih hothers⟩
        rcases mem_insertEntry hentry with rfl | hentry
        · exact Identifier.lt_of_not_lt_of_ne hlt hne
        · exact hhead entry hentry

def insert (c : Context) (name : Identifier) (body : Statement) : Context :=
  ⟨insertEntry name body c.entries, sorted_insertEntry name body c.sorted⟩

/-- Drops the binding of the identifier whose text is `name`. -/
def erase (c : Context) (name : String) : Context :=
  ⟨c.entries.filter fun entry ↦ entry.1.text != name, c.sorted.filter _⟩

end Context

end BLTree
