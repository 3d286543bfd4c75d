import BLTree.Proofs.Addresses

/-!
# The flaw that is reported

What is wrong with a tree, place by place: a node may be misplaced under its parent, a place may be
empty, and a node may have a wrong number of children. A tree is refused exactly if something is
wrong at some address. The report then names the first such address in pre-order, although the check
looks at a node from two levels: its parent judges its kind and the node itself its children.
-/

namespace BLTree.Statement

open Flaw

variable {t : Tree Label} {address above : List Nat} {position : Nat} {text : String}

/-! ## What is wrong at an address -/

/-- The node at an address is not allowed under its parent, with what is said of it. -/
inductive Misplaced (t : Tree Label) : List Nat → String → Prop
  | blockInBlock {above : List Nat} {position : Nat} {siblings children : List (Tree Label)}
      (parent : t.descend above = .ok (.node .block siblings))
      (child : t.descend (above ++ [position]) = .ok (.node .block children)) :
    Misplaced t (above ++ [position]) "a BLOCK may not directly contain a BLOCK"
  | bodyNotBlock {above : List Nat} {position : Nat} {label inner : Label}
      {siblings children : List (Tree Label)}
      (parent : t.descend above = .ok (.node label siblings)) (guarded : IsGuarded label.kind)
      (child : t.descend (above ++ [position]) = .ok (.node inner children))
      (notBlock : inner.kind ≠ .block) :
    Misplaced t (above ++ [position])
      ("body of " ++ label.kind.spelling ++ " must be a BLOCK, found " ++ inner.kind.spelling)

/-- The place at an address is empty, or its node has a wrong number of children. -/
inductive Misshapen (t : Tree Label) (address : List Nat) : String → Prop
  | vacant (place : t.descend address = .ok .empty) : Misshapen t address "empty tree"
  | miscounted {label : Label} {children : List (Tree Label)} {wanted : Nat}
      (place : t.descend address = .ok (.node label children))
      (arity : label.kind.arity? = some wanted) (wrong : children.length ≠ wanted) :
    Misshapen t address
      (label.kind.spelling ++ " takes " ++ toString wanted ++ " children, found " ++
        toString children.length)

/-- Something is wrong at the address itself, whatever there may be above or below it. -/
def LocallyBad (t : Tree Label) (address : List Nat) : Prop :=
  (∃ text, Misplaced t address text) ∨ ∃ text, Misshapen t address text

/-- What is said of an address. A misplaced node is not asked for its children as well. -/
inductive Complaint (t : Tree Label) (address : List Nat) : String → Prop
  | misplaced {text : String} (h : Misplaced t address text) : Complaint t address text
  | misshapen {text : String} (h : Misshapen t address text)
      (placed : ∀ other, ¬ Misplaced t address other) : Complaint t address text

theorem locallyBad_iff_exists_complaint :
    LocallyBad t address ↔ ∃ text, Complaint t address text := by
  constructor
  · intro h
    by_cases hplaced : ∃ text, Misplaced t address text
    · obtain ⟨text, hmisplaced⟩ := hplaced
      exact ⟨text, .misplaced hmisplaced⟩
    · obtain ⟨text, hmisshapen⟩ := h.resolve_left hplaced
      exact ⟨text, .misshapen hmisshapen (not_exists.mp hplaced)⟩
  · intro ⟨text, h⟩
    cases h with
    | misplaced h => exact .inl ⟨text, h⟩
    | misshapen h _ => exact .inr ⟨text, h⟩

/-- A place forbids a block, or it asks for one. -/
theorem misplaced?_eq_some_iff {parent child : Kind} {problem : Problem} :
    misplaced? parent child = some problem ↔
      (parent = .block ∧ child = .block ∧ problem = .blockInBlock) ∨
        IsGuarded parent ∧ child ≠ .block ∧ problem = .bodyNotBlock parent child := by
  cases parent <;> cases child <;> simp [misplaced?, IsGuarded, eq_comm]

theorem miscounted?_eq_some_iff {kind : Kind} {count : Nat} {problem : Problem} :
    miscounted? kind count = some problem ↔
      ∃ wanted, kind.arity? = some wanted ∧ count ≠ wanted ∧
        problem = .arity kind wanted count := by
  unfold miscounted?
  cases kind.arity? <;> simp [eq_comm]

/-- What the node above, if there is one, has against the root of a tree. -/
def placeProblem? (parent : Option Kind) (t : Tree Label) : Option Problem :=
  parent.bind fun kind ↦ t.label?.bind fun label ↦ misplaced? kind label.kind

/-- What is wrong with the root of a tree by itself. -/
def ownProblem? : Tree Label → Option Problem
  | .empty => some .vacant
  | .node label children => miscounted? label.kind children.length

/-- The problem at an address of a tree that stands below a node of kind `parent`, if below any. -/
def problemAt? (parent : Option Kind) (t : Tree Label) : List Nat → Option Problem
  | [] => (placeProblem? parent t).or (ownProblem? t)
  | position :: address =>
    t.children[position]?.bind fun child ↦
      problemAt? (t.label?.map Label.kind) child address

/-- Away from the root, what is wrong with a place is told before what is wrong with the node
itself. -/
theorem problemAt?_concat_eq_some_iff {parent : Option Kind} {problem : Problem} :
    problemAt? parent t (above ++ [position]) = some problem ↔
      ∃ node child, t.descend above = .ok node ∧ node.children[position]? = some child ∧
        (placeProblem? (node.label?.map Label.kind) child).or (ownProblem? child) =
          some problem := by
  induction above generalizing t parent with
  | nil => simp [problemAt?, Option.bind_eq_some_iff]
  | cons first above ih =>
    simp only [List.cons_append, problemAt?, Option.bind_eq_some_iff, ih,
      Tree.descend_cons_eq_ok_iff]
    constructor
    · intro ⟨next, hnext, node, child, hnode, hchild, hproblem⟩
      exact ⟨node, child, ⟨next, hnext, hnode⟩, hchild, hproblem⟩
    · intro ⟨node, child, ⟨next, hnext, hnode⟩, hchild, hproblem⟩
      exact ⟨next, hnext, node, child, hnode, hchild, hproblem⟩

theorem not_misplaced_nil : ¬ Misplaced t [] text := by
  intro h
  generalize hroot : ([] : List Nat) = root at h
  cases h <;> simp at hroot

/-- A node is misplaced for the kind of its parent only. -/
theorem misplaced_iff {node child : Tree Label} (hnode : t.descend above = .ok node)
    (hchild : node.children[position]? = some child) :
    Misplaced t (above ++ [position]) text ↔
      ∃ problem, placeProblem? (node.label?.map Label.kind) child = some problem ∧
        problem.message = text := by
  have hat : t.descend (above ++ [position]) = .ok child :=
    Tree.descend_concat_eq_ok_iff.mpr ⟨node, hnode, hchild⟩
  constructor
  · intro h
    generalize haddress : above ++ [position] = address at h
    cases h with
    | blockInBlock hparent hinner =>
      obtain ⟨rfl, -⟩ := List.append_inj' haddress rfl
      rw [← haddress, hat] at hinner
      rw [hnode] at hparent
      cases hparent
      cases hinner
      exact ⟨.blockInBlock, rfl, rfl⟩
    | @bodyNotBlock _ _ label inner _ _ hparent hguarded hinner hnotBlock =>
      obtain ⟨rfl, -⟩ := List.append_inj' haddress rfl
      rw [← haddress, hat] at hinner
      rw [hnode] at hparent
      cases hparent
      cases hinner
      exact ⟨.bodyNotBlock label.kind inner.kind,
        misplaced?_eq_some_iff.mpr (.inr ⟨hguarded, hnotBlock, rfl⟩), rfl⟩
  · intro ⟨problem, hproblem, htext⟩
    subst htext
    cases node with
    | empty => cases hchild
    | node label siblings =>
      cases child with
      | empty => cases hproblem
      | node inner children =>
        rcases misplaced?_eq_some_iff.mp hproblem with
          ⟨hlabel, hinner, rfl⟩ | ⟨hguarded, hinner, rfl⟩
        · obtain rfl := eq_block_of_kind hlabel
          obtain rfl := eq_block_of_kind hinner
          exact .blockInBlock hnode hat
        · exact .bodyNotBlock hnode hguarded hat hinner

theorem misshapen_iff {s : Tree Label} (hat : t.descend address = .ok s) :
    Misshapen t address text ↔
      ∃ problem, ownProblem? s = some problem ∧ problem.message = text := by
  constructor
  · intro h
    cases h with
    | vacant place =>
      rw [hat] at place
      cases place
      exact ⟨.vacant, rfl, rfl⟩
    | @miscounted label children wanted place harity hwrong =>
      rw [hat] at place
      cases place
      exact ⟨.arity label.kind wanted children.length,
        miscounted?_eq_some_iff.mpr ⟨wanted, harity, hwrong, rfl⟩, rfl⟩
  · intro ⟨problem, hproblem, htext⟩
    subst htext
    cases s with
    | empty =>
      cases hproblem
      exact .vacant hat
    | node label children =>
      obtain ⟨wanted, harity, hwrong, rfl⟩ := miscounted?_eq_some_iff.mp hproblem
      exact .miscounted hat harity hwrong

theorem complaint_nil_iff :
    Complaint t [] text ↔ ∃ problem, ownProblem? t = some problem ∧ problem.message = text := by
  rw [← misshapen_iff (Tree.descend_nil t)]
  constructor
  · intro h
    cases h with
    | misplaced h => exact absurd h not_misplaced_nil
    | misshapen h _ => exact h
  · intro h
    exact .misshapen h fun _ ↦ not_misplaced_nil

/-- Both sorts of complaints in the order in which the check looks for them. -/
theorem complaint_concat_iff {node child : Tree Label} (hnode : t.descend above = .ok node)
    (hchild : node.children[position]? = some child) :
    Complaint t (above ++ [position]) text ↔
      ∃ problem, (placeProblem? (node.label?.map Label.kind) child).or (ownProblem? child) =
        some problem ∧ problem.message = text := by
  have hat := Tree.descend_concat_eq_ok_iff.mpr ⟨node, hnode, hchild⟩
  cases hplace : placeProblem? (node.label?.map Label.kind) child with
  | some problem =>
    have hfound : Misplaced t (above ++ [position]) problem.message :=
      (misplaced_iff hnode hchild).mpr ⟨problem, hplace, rfl⟩
    rw [Option.some_or, ← hplace, ← misplaced_iff hnode hchild]
    constructor
    · intro h
      cases h with
      | misplaced h => exact h
      | misshapen _ hplaced => exact absurd hfound (hplaced problem.message)
    · exact .misplaced
  | none =>
    have hplaced : ∀ other, ¬ Misplaced t (above ++ [position]) other := by
      intro other hother
      obtain ⟨problem, hproblem, -⟩ := (misplaced_iff hnode hchild).mp hother
      rw [hplace] at hproblem
      cases hproblem
    rw [Option.none_or, ← misshapen_iff hat]
    constructor
    · intro h
      cases h with
      | misplaced h => exact absurd h (hplaced text)
      | misshapen h _ => exact h
    · intro h
      exact .misshapen h hplaced

/-- There is something to complain about only where there is a place. -/
theorem Complaint.exists_descend (h : Complaint t address text) :
    ∃ s, t.descend address = .ok s := by
  cases h with
  | misplaced h =>
    cases h with
    | blockInBlock _ hat => exact ⟨_, hat⟩
    | bodyNotBlock _ _ hat _ => exact ⟨_, hat⟩
  | misshapen h _ =>
    cases h with
    | vacant hat => exact ⟨_, hat⟩
    | miscounted hat _ _ => exact ⟨_, hat⟩

/-- The check complains about an address exactly as it is said above. -/
theorem complaint_iff :
    Complaint t address text ↔
      ∃ problem, problemAt? none t address = some problem ∧ problem.message = text := by
  rcases List.eq_nil_or_concat address with rfl | ⟨above, position, rfl⟩
  · exact complaint_nil_iff
  · rw [List.concat_eq_append]
    constructor
    · intro h
      obtain ⟨child, hat⟩ := h.exists_descend
      obtain ⟨node, hnode, hchild⟩ := Tree.descend_concat_eq_ok_iff.mp hat
      obtain ⟨problem, hproblem, htext⟩ := (complaint_concat_iff hnode hchild).mp h
      have hfound : problemAt? none t (above ++ [position]) = some problem :=
        problemAt?_concat_eq_some_iff.mpr ⟨node, child, hnode, hchild, hproblem⟩
      exact ⟨problem, hfound, htext⟩
    · intro ⟨problem, hfound, htext⟩
      obtain ⟨node, child, hnode, hchild, hproblem⟩ := problemAt?_concat_eq_some_iff.mp hfound
      exact (complaint_concat_iff hnode hchild).mpr ⟨problem, hproblem, htext⟩

/-- What is wrong at an address can be computed from the tree. -/
theorem locallyBad_iff :
    LocallyBad t address ↔ ∃ problem, problemAt? none t address = some problem := by
  rw [locallyBad_iff_exists_complaint]
  simp only [complaint_iff]
  constructor
  · intro ⟨text, problem, hproblem, _⟩
    exact ⟨problem, hproblem⟩
  · intro ⟨problem, hproblem⟩
    exact ⟨problem.message, problem, hproblem, rfl⟩

/-! ## The first address -/

/-- The flaw is the first of the problems that an assignment to addresses knows of; no flaw means
that there is no problem at all. -/
def Foremost (problems : List Nat → Option Problem) : Option Flaw → Prop
  | none => ∀ address, problems address = none
  | some flaw =>
    problems flaw.address = some flaw.problem ∧
      ∀ address, problems address ≠ none → address ≠ flaw.address →
        List.Lex (· < ·) flaw.address address

/-- No address comes before the root. -/
theorem foremost_nil {problems : List Nat → Option Problem} {problem : Problem}
    (h : problems [] = some problem) : Foremost problems (some ⟨[], problem⟩) := by
  refine ⟨h, ?_⟩
  intro address _ hne
  cases address with
  | nil => exact absurd rfl hne
  | cons position address => exact .nil

/-- The first flaw in a tree that stands below a node of kind `parent`. -/
def flawBelow? (parent : Kind) (t : Tree Label) : Option Flaw :=
  match placeProblem? (some parent) t with
  | some problem => some ⟨[], problem⟩
  | none => firstFlaw? t

theorem firstFlawAmong?_cons (parent : Kind) (position : Nat) (child : Tree Label)
    (others : List (Tree Label)) :
    firstFlawAmong? parent position (child :: others) =
      match flawBelow? parent child with
      | some flaw => some (flaw.below position)
      | none => firstFlawAmong? parent (position + 1) others := by
  rw [firstFlawAmong?, flawBelow?, placeProblem?, Option.bind_some]
  cases child.label?.bind fun label ↦ misplaced? parent label.kind with
  | some problem => rfl
  | none => rfl

/-- The place of a child is looked at before the child itself. -/
theorem foremost_flawBelow? (parent : Kind) (h : Foremost (problemAt? none t) (firstFlaw? t)) :
    Foremost (problemAt? (some parent) t) (flawBelow? parent t) := by
  unfold flawBelow?
  cases hplace : placeProblem? (some parent) t with
  | some problem => exact foremost_nil (by rw [problemAt?, hplace, Option.some_or])
  | none =>
    have hsame : problemAt? (some parent) t = problemAt? none t := by
      funext address
      cases address with
      | nil =>
        rw [problemAt?, problemAt?, hplace]
        rfl
      | cons position address => rfl
    rw [hsame]
    exact h

-- The children `before` have been looked at and are all right, so that the next one to look at
-- has their number as its position.
/-- Children are searched from left to right, as addresses are ordered. The invariant is that no
child that has been passed has a problem. -/
theorem foremost_firstFlawAmong? {parent : Kind} {problems : List Nat → Option Problem}
    (before : List (Tree Label)) {after : List (Tree Label)} (hroot : problems [] = none)
    (hbelow : ∀ position address, problems (position :: address) =
      (before ++ after)[position]?.bind fun child ↦ problemAt? (some parent) child address)
    (hbefore : ∀ child ∈ before, ∀ address, problemAt? (some parent) child address = none)
    (hafter : ∀ child ∈ after, Foremost (problemAt? none child) (firstFlaw? child)) :
    Foremost problems (firstFlawAmong? parent before.length after) := by
  induction after generalizing before with
  | nil =>
    intro address
    cases address with
    | nil => exact hroot
    | cons position address =>
      rw [hbelow, List.append_nil, Option.bind_eq_none_iff]
      intro child hchild
      exact hbefore child (List.mem_of_getElem? hchild) address
  | cons child others ih =>
    obtain ⟨hchild, hothers⟩ := List.forall_mem_cons.mp hafter
    have hfirst := foremost_flawBelow? parent hchild
    rw [firstFlawAmong?_cons]
    cases hflaw : flawBelow? parent child with
    | none =>
      rw [hflaw] at hfirst
      have hlater := ih (before ++ [child])
      rw [List.length_append, List.length_singleton, List.append_assoc] at hlater
      apply hlater hbelow ?_ hothers
      intro other hother
      rcases List.mem_append.mp hother with hother | hother
      · exact hbefore other hother
      · obtain rfl := List.mem_singleton.mp hother
        exact hfirst
    | some flaw =>
      rw [hflaw] at hfirst
      have hat : ∀ address, problems (before.length :: address) =
          problemAt? (some parent) child address := by
        intro address
        rw [hbelow, List.getElem?_append_right (Nat.le_refl _), Nat.sub_self,
          List.getElem?_cons_zero, Option.bind_some]
      refine ⟨(hat flaw.address).trans hfirst.1, ?_⟩
      intro address hproblem hne
      cases address with
      | nil => exact absurd hroot hproblem
      | cons position address =>
        rcases Nat.lt_trichotomy position before.length with hlt | rfl | hgt
        · rw [hbelow, List.getElem?_append_left hlt, List.getElem?_eq_getElem hlt,
            Option.bind_some] at hproblem
          exact absurd (hbefore _ (List.getElem_mem hlt) address) hproblem
        · rw [hat] at hproblem
          have hother : address ≠ flaw.address := by
            intro heq
            exact hne (by rw [heq]; rfl)
          exact .cons (hfirst.2 address hproblem hother)
        · exact .rel hgt

/-- The check finds the first address with a problem, by induction over the tree. -/
theorem foremost_firstFlaw? (t : Tree Label) : Foremost (problemAt? none t) (firstFlaw? t) := by
  induction t with
  | empty => exact foremost_nil rfl
  | node label children ih =>
    rw [firstFlaw?]
    cases hcount : miscounted? label.kind children.length with
    | some problem => exact foremost_nil hcount
    | none =>
      apply foremost_firstFlawAmong? [] hcount (fun _ _ ↦ rfl) ?_ ih
      intro child hchild
      exact absurd hchild List.not_mem_nil

theorem path_eq (address : List Nat) :
    path address = "root" ++ String.join (address.map fun position ↦ "/" ++ toString position) := by
  have hfold : ∀ start : String,
      address.foldl (fun done position ↦ done ++ "/" ++ toString position) start =
        start ++ String.join (address.map fun position ↦ "/" ++ toString position) := by
    induction address with
    | nil => simp
    | cons position address ih =>
      intro start
      rw [List.foldl_cons, ih, List.map_cons, String.join_cons]
      simp only [String.append_assoc]
  exact hfold "root"

theorem ofTree_eq_error_iff {flaw : Flaw} : ofTree t = .error flaw ↔ firstFlaw? t = some flaw := by
  unfold ofTree
  cases firstFlaw? t <;> simp

/-- A tree is refused exactly if something is wrong at some address. The report names the first such
address in pre-order, as a path from the root, and says what is wrong there. -/
theorem ofTree_reports_first_bad_address (t : Tree Label) :
    ((∃ flaw, ofTree t = .error flaw) ↔ ∃ address, LocallyBad t address) ∧
    ∀ flaw, ofTree t = .error flaw →
      LocallyBad t flaw.address ∧
      (∀ address, LocallyBad t address → address ≠ flaw.address →
        List.Lex (· < ·) flaw.address address) ∧
      ∃ text, Complaint t flaw.address text ∧
        flaw.message =
          "root" ++ String.join (flaw.address.map fun position ↦ "/" ++ toString position) ++
            ": " ++ text := by
  have hforemost := foremost_firstFlaw? t
  simp only [ofTree_eq_error_iff, locallyBad_iff]
  constructor
  · cases hflaw : firstFlaw? t with
    | none =>
      rw [hflaw] at hforemost
      simp [hforemost _]
    | some flaw =>
      rw [hflaw] at hforemost
      exact ⟨fun _ ↦ ⟨flaw.address, flaw.problem, hforemost.1⟩, fun _ ↦ ⟨flaw, rfl⟩⟩
  · intro flaw hflaw
    rw [hflaw] at hforemost
    refine ⟨⟨flaw.problem, hforemost.1⟩, ?_, ?_⟩
    · intro address ⟨problem, hproblem⟩ hne
      exact hforemost.2 address (by simp [hproblem]) hne
    · refine ⟨flaw.problem.message, complaint_iff.mpr ⟨flaw.problem, hforemost.1, rfl⟩, ?_⟩
      rw [Flaw.message, path_eq]

end BLTree.Statement
