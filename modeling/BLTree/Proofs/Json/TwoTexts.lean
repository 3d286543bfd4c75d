import BLTree.Proofs.Json.Indifference
import BLTree.Proofs.Json.Places

/-!
# Reading two texts with different ends

Two texts that begin in the same way are read in the same way until a reader comes to where they
differ. Outcomes on both are compared: they are the same once the difference has been read to the
same result, and a failure before it leaves either text with its own end. A bracket around such a
failure does not look past the common part. The rules follow the building blocks of readers.
-/

namespace BLTree

open Json Json.Reader

namespace Json.Reader

variable {α β : Type} {deep : Prop} {holds : List Char → Prop} {u v : List Char}

/-- Outcomes on two texts that end in `u` and in `v`: they are the same, or a failure leaves each
text before its end, or, if that is granted, both texts are too `deep`. -/
inductive Alike (deep : Prop) (holds : List Char → Prop) (u v : List Char) :
    Except Failure (α × List Char) → Except Failure (α × List Char) → Prop
  | same (outcome : Except Failure (α × List Char)) : Alike deep holds u v outcome outcome
  | before (failure : Failure) (rest : holds failure.rest) :
    Alike deep holds u v (followedBy u (.error failure)) (followedBy v (.error failure))
  | tooDeep {outcome outcome' : Except Failure (α × List Char)} (granted : deep)
      (left : TooDeep outcome) (right : TooDeep outcome') : Alike deep holds u v outcome outcome'

theorem Alike.bind {r : Reader α} {text text' : List Char}
    (h : Alike deep holds u v (r text) (r text')) (f : α → Reader β) :
    Alike deep holds u v ((r >>= f) text) ((r >>= f) text') := by
  rw [bind_apply, bind_apply]
  generalize r text = outcome, r text' = outcome' at h
  cases h with
  | same => exact .same _
  | before failure rest => exact .before failure rest
  | tooDeep granted left right =>
    obtain ⟨rest, rfl⟩ := left
    obtain ⟨rest', rfl⟩ := right
    exact .tooDeep granted ⟨rest, rfl⟩ ⟨rest', rfl⟩

/-- A failure without a place gets one before the ends of the texts, where both still agree. -/
theorem Alike.enclosed {close : Reader Unit} (hclose : Closes close) {inner : Nat → Reader α}
    {budget : Nat} {text text' : List Char}
    (h : Alike deep Halts u v (inner budget text) (inner budget text')) (opening : Char) :
    Alike deep (fun _ ↦ True) u v (enclosed close inner (budget + 1) (opening :: text))
      (enclosed close inner (budget + 1) (opening :: text')) := by
  have hsettled : Alike deep (fun _ ↦ True) u v
      ((inner budget text).mapError (settledBy close))
      ((inner budget text').mapError (settledBy close)) := by
    generalize inner budget text = outcome, inner budget text' = outcome' at h
    cases h with
    | same => exact .same _
    | before failure rest =>
      obtain ⟨settled, hsettled⟩ := hclose.exists_settled failure rest
      have hmap (tail : List Char) : (followedBy tail (.error failure) :
          Except Failure (α × List Char)).mapError (settledBy close) =
            followedBy tail (.error settled) := congrArg Except.error (hsettled tail)
      rw [hmap, hmap]
      exact .before settled trivial
    | tooDeep granted left right =>
      obtain ⟨rest, rfl⟩ := left
      obtain ⟨rest', rfl⟩ := right
      exact .tooDeep granted ⟨rest, rfl⟩ ⟨rest', rfl⟩
  exact Alike.bind (r := fun rest ↦ (inner budget rest).mapError (settledBy close)) hsettled
    fun a ↦ close >>= fun _ ↦ pure a

/-- Loops over texts that agree in their first pieces. -/
theorem Loop.alike {γ σ : Type} {step : σ → Reader (σ ⊕ α)} {piece : Bool → γ → List Char}
    {isFirst : σ → Bool} {absorbs : γ → σ → σ → Prop} {finish : σ → α} {bracket : Bracket}
    (loop : Loop step piece isFirst absorbs finish bracket) {xs : List γ}
    (hpiece : ∀ x ∈ xs, ∀ s, Determined Follows (step s) (piece (isFirst s) x)) (start : σ)
    (hstart : isFirst start = true) {rest rest' : List Char} (hlength : rest.length = rest'.length)
    (hrest : xs ≠ [] → Follows rest) (hrest' : xs ≠ [] → Follows rest')
    (hfront : ∀ failure, Alike deep holds u v (followedBy rest (.error failure) :
      Except Failure (α × List Char)) (followedBy rest' (.error failure)))
    (hstep : ∀ s, isFirst s = xs.isEmpty → Alike deep holds u v (step s rest) (step s rest')) :
    Alike deep holds u v (repeatFrom start step (piecesFrom piece true xs ++ rest))
      (repeatFrom start step (piecesFrom piece true xs ++ rest')) := by
  obtain ⟨rounds, hrounds⟩ := loop.exists_rounds xs hstart rest.length
  rw [hrounds rest rfl, hrounds rest' hlength.symm]
  rcases loop.front hpiece start with ⟨failure, hfailure⟩ | ⟨s, hfirst, hs⟩
  · rw [hfailure _ rest (Nat.le_add_right _ _) hrest,
      hfailure _ rest' (Nat.le_add_right _ _) hrest']
    exact hfront failure
  · rw [hstart, Bool.true_and] at hfirst
    rw [hs _ rest hrest, hs _ rest' hrest']
    exact (hstep s hfirst).bind _

end Json.Reader

namespace Json

variable {α : Type} {deep : Prop} {u v : List Char}

theorem decode_of_error {reader : Nat → Reader α} {text : String} {failure : Failure}
    (h : reader nestingLimit text.toList = .error failure) :
    decode reader text = .error failure := by
  rw [decode, decodeChars, h]
  rfl

/-- Texts with like outcomes are both decoded, to the same value, or both refused, for the same
cause and, unless they are too deep, with as many bytes left. -/
theorem decode_of_alike (huv : u.Perm v) {reader : Nat → Reader α} {text text' : String}
    (h : Alike deep (fun _ ↦ True) u v (reader nestingLimit text.toList)
      (reader nestingLimit text'.toList)) :
    (∃ a, decode reader text = .ok a ∧ decode reader text' = .ok a) ∨
      ∃ failure failure' : Failure, decode reader text = .error failure ∧
        decode reader text' = .error failure' ∧ failure.cause = failure'.cause ∧
          (deep ∨ failure.reach = failure'.reach ∧
            byteLength failure.rest = byteLength failure'.rest) := by
  generalize houtcome : reader nestingLimit text.toList = outcome,
    houtcome' : reader nestingLimit text'.toList = outcome' at h
  cases h with
  | same =>
    have heq : decode reader text = decode reader text' := by
      rw [decode, decode, decodeChars, decodeChars, houtcome, houtcome']
    cases hdecode : decode reader text' with
    | ok a => exact .inl ⟨a, heq.trans hdecode, rfl⟩
    | error failure =>
      exact .inr ⟨failure, failure, heq.trans hdecode, rfl, rfl, .inr ⟨rfl, rfl⟩⟩
  | before failure =>
    have hbytes : byteLength (failure.rest ++ u) = byteLength (failure.rest ++ v) :=
      byteLength_perm (huv.append_left _)
    exact .inr ⟨_, _, decode_of_error houtcome, decode_of_error houtcome', rfl, .inr ⟨rfl, hbytes⟩⟩
  | tooDeep granted left right =>
    obtain ⟨rest, rfl⟩ := left
    obtain ⟨rest', rfl⟩ := right
    exact .inr ⟨_, _, decode_of_error houtcome, decode_of_error houtcome', rfl, .inl granted⟩

end Json

end BLTree
