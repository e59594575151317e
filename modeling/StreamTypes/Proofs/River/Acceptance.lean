import StreamTypes.Proofs.Peg.Termination
import StreamTypes.Proofs.River.Evaluation
import StreamTypes.Proofs.River.ShapeCheck
import StreamTypes.Proofs.River.Tracking

/-!
# Which texts are accepted

A parse gives a tree exactly for the expressions that keep the depth bound, and the tree
is the post-order tree of the type that the expression denotes. Texts other than these
are rejected as texts: the stored nodes always form a tree.

## Main statements

- `run_eq_ok` — what a match leaves behind
- `parseWithin_eq_ok` — a parse with room for all references accepts every expression
  that keeps the depth bound
- `accepts_exactly` — a parse gives the tree of an expression or rejects the text
-/

namespace StreamTypes.River

open Peg

variable {limit : Nat} {source : String} {maxDepth : Int} {t : Term}

/-- References stand behind a keyword, and every round of a list reads a comma. -/
theorem rules_guarded {α : Type} (rule : Rule α) :
    (rules rule).steady = true ∧ (rules rule).guarded = true := by
  cases rule
  decide

theorem run_ne_exhausted (maxDepth : Int) (hlimit : source.length < limit) (offset : Nat) :
    Peg.run limit rules (.ref .river) (Input.ofString source maxDepth) ≠
      .error (.exhausted offset) :=
  Peg.run_ne_exhausted rules_guarded rfl (by rwa [Input.size_ofString]) offset

/-- Reading the whole of an expression stores the post-order layout of its type. -/
theorem ensures_layout (h : Expression t source.toList) :
    (((Parser.ref Rule.river).terminated .endOfInput).evalWithin
      (Input.ofString source maxDepth) rules limit).Ensures {} 0
        ⟨fun v _ s => v = t.inner ∧ s.arena.toList = t.layout 0 ∧ t.nesting ≤ maxDepth.toNat ∧
            t.nesting < limit,
          fun _ => False, fun _ => ¬ t.nesting ≤ maxDepth.toNat, ¬ t.nesting < limit⟩ := by
  have hroom : room maxDepth 0 = maxDepth.toNat := room_zero maxDepth
  have hrest : (Input.ofString source maxDepth).rest 0 = source.toList ++ [] :=
    (List.append_nil _).symm
  rw [Parser.evalWithin_eq]
  simp only [Parser.terminated, Parser.eval_map, Parser.eval_both, Parser.eval_ref,
    Parser.eval_endOfInput, Run.ensures_andThen, Run.ensures_yield]
  refine (stores_river h limit {} 0 [] hrest).mono ?_ (fun _ h => h) ?_ id
  · rintro v next s ⟨hv, hnext, harena, -, hnesting, hfits⟩
    -- the expression is the whole text, so its end is the end of the text
    have hend : next = (Input.ofString source maxDepth).text.size := by
      rw [hnext, Nat.zero_add, Input.size_ofString, String.length_toList]
    refine (Run.ensures_endOfInput ..).2 ?_
    rw [if_pos hend]
    exact ⟨by simpa using hv, by simpa using harena, hroom ▸ hnesting, hfits⟩
  · intro s hs
    exact hroom ▸ hs

/-- A match is an expression that keeps the depth bound, and leaves the post-order layout
of its type. -/
theorem run_eq_ok {root : Nat} {s : State (Node Nat)}
    (h : Peg.run limit rules (.ref .river) (Input.ofString source maxDepth) = .ok (root, s)) :
    ∃ t, Expression t source.toList ∧ (t.nesting ≤ maxDepth.toNat ∧ t.nesting < limit) ∧
      root = t.inner ∧ s.arena.toList = t.layout 0 := by
  -- one claim about the run tells that the text is an expression, and for which type;
  -- the other one then tells what is stored
  obtain ⟨_, t, ht⟩ := run_ok h (ensures_expression_or_stuck limit _)
  obtain ⟨_, hroot, harena, hnesting⟩ := run_ok h (ensures_layout ht)
  exact ⟨t, ht, hnesting, hroot, harena⟩

/-- What is stored for an accepted text is the tree of its type. -/
theorem ofNodes?_layout {root : Nat} {s : State (Node Nat)} (hroot : root = t.inner)
    (harena : s.arena.toList = t.layout 0) :
    Tree.ofNodes? (s.arena.toList.map (Node.map Int.ofNat)) root = .ok t.tree := by
  rw [hroot, harena]
  exact t.tree.ofNodes?_eq_ok

/-- A tree that is given is the post-order tree of an expression that nests within both
bounds. -/
theorem exists_nesting_lt_of_parseWithin_eq_ok {tree : Tree}
    (h : parseWithin limit source maxDepth = .ok tree) :
    ∃ t, Expression t source.toList ∧ (t.nesting ≤ maxDepth.toNat ∧ t.nesting < limit) ∧
      tree = t.tree := by
  rw [parseWithin] at h
  split at h
  · cases h
  · next hrun =>
    obtain ⟨t, ht, hnesting, hroot, harena⟩ := run_eq_ok hrun
    rw [ofNodes?_layout hroot harena] at h
    cases h
    exact ⟨t, ht, hnesting, rfl⟩

theorem exists_of_parseWithin_eq_ok {tree : Tree}
    (h : parseWithin limit source maxDepth = .ok tree) :
    ∃ t, Expression t source.toList ∧ t.nesting ≤ maxDepth.toNat ∧ tree = t.tree := by
  obtain ⟨t, ht, hnesting, htree⟩ := exists_nesting_lt_of_parseWithin_eq_ok h
  exact ⟨t, ht, hnesting.1, htree⟩

theorem parseWithin_eq_ok_of_ne_exhausted (h : Expression t source.toList)
    (hnesting : t.nesting ≤ maxDepth.toNat)
    (hends : ∀ offset, Peg.run limit rules (.ref .river) (Input.ofString source maxDepth) ≠
      .error (.exhausted offset)) : parseWithin limit source maxDepth = .ok t.tree := by
  obtain ⟨root, _, s, hrun, hroot, harena, -⟩ := exists_run_ok (ensures_layout h)
    (fun _ h => h) (fun _ h => h hnesting) hends
  rw [parseWithin, hrun]
  simp only [ofNodes?_layout hroot harena]

theorem parseWithin_eq_ok (hlimit : source.length < limit) (h : Expression t source.toList)
    (hnesting : t.nesting ≤ maxDepth.toNat) :
    parseWithin limit source maxDepth = .ok t.tree :=
  parseWithin_eq_ok_of_ne_exhausted h hnesting (run_ne_exhausted maxDepth hlimit)

/-- A text is an expression for one type only. -/
theorem expression_unique {t' : Term} (h : Expression t source.toList)
    (h' : Expression t' source.toList) : t = t' := by
  -- a parse that admits both types gives one tree, which stands for each of them
  have hparse : ∀ u, Expression u source.toList → u.nesting ≤ max t.nesting t'.nesting →
      parseWithin (source.length + 1) source (max t.nesting t'.nesting : Nat) = .ok u.tree := by
    intro u hu hle
    exact parseWithin_eq_ok (Nat.lt_succ_self _) hu (by rwa [Int.toNat_natCast])
  have hleft := hparse t h (Nat.le_max_left _ _)
  have hright := hparse t' h' (Nat.le_max_right _ _)
  have htree : t.tree = t'.tree := Except.ok.inj (hleft.symm.trans hright)
  rw [← t.term_tree, htree, t'.term_tree]

/-- The stored nodes of a match always form a tree. -/
theorem parseWithin_ne_shape (limit : Nat) (source : String) (maxDepth : Int)
    (e : ShapeError) : parseWithin limit source maxDepth ≠ .error (.shape e) := by
  intro h
  rw [parseWithin] at h
  split at h
  · cases h
  · next hrun =>
    obtain ⟨t, -, -, hroot, harena⟩ := run_eq_ok hrun
    rw [ofNodes?_layout hroot harena] at h
    cases h

end StreamTypes.River
