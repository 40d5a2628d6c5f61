import Exemplar.Proofs.Term
import Mathlib.Algebra.BigOperators.Group.Multiset.Basic
import Mathlib.Algebra.Order.Group.Multiset

/-!
# Replacing a subterm

What becomes of a term in which `new` stands for the subterm `s` at a path: together with `s`, its symbols are
those of the term together with `new` (`Replaced.symbols_add`), so that nodes and size are balanced alike; its
depth is that of the term, or of `new` at the end of the path (`Replaced.depth_le`); and it has the form of
the term if `new` has the form of `s` (`Replaced.alike`).

All of this is by induction on how the replacement lies in the term (`Replaced`), which is what `replaceAt`
does at a path that leads to `s` (`replaced_replaceAt`).
-/

namespace Exemplar.Term

variable {e e' s new : Term} {path : Path}

/-! ## Replacements -/

/-- The second term is the first one with `new` in the place of `s` at a path. -/
inductive Replaced (s new : Term) : Path → Term → Term → Prop
  | root : Replaced s new [] s new
  | arg (id : PrimId) (before after : List Term) {path : Path} {a a' : Term}
    (h : Replaced s new path a a') :
    Replaced s new (before.length :: path) (.apply id (before ++ a :: after))
      (.apply id (before ++ a' :: after))

theorem replaced_replaceAt (hat : e.at? path = some s) (new : Term) :
    Replaced s new path e (replaceAt new e path) := by
  induction path generalizing e with
  | nil =>
    obtain rfl : e = s := by simpa [at?] using hat
    rw [replaceAt]
    exact .root
  | cons i rest ih =>
    cases e with
    | lit v => simp [at?] at hat
    | var j => simp [at?] at hat
    | apply id args =>
      rw [at?, Option.bind_eq_some_iff] at hat
      obtain ⟨a, ha, hat⟩ := hat
      obtain ⟨hi, rfl⟩ := List.getElem?_eq_some_iff.mp ha
      obtain ⟨before, a, after, rfl, rfl, hmodify⟩ :=
        List.exists_of_modify (fun a => replaceAt new a rest) hi
      rw [List.getElem_append_right (Nat.le_refl _)] at hat
      rw [replaceAt, hmodify]
      exact .arg id before after (ih (by simpa using hat))

/-! ## Symbols -/

/-- What stands at a node. -/
inductive Symbol where
  | lit (v : Value)
  | var (i : Nat)
  | apply (id : PrimId)
  deriving DecidableEq

mutual

/-- The leaves and the applied primitives of a term, each as often as it occurs. -/
def symbols : Term → Multiset Symbol
  | .lit v => {.lit v}
  | .var i => {.var i}
  | .apply id args => .apply id ::ₘ symbolsList args

def symbolsList : List Term → Multiset Symbol
  | [] => 0
  | t :: ts => t.symbols + symbolsList ts

end

def Symbol.weight (cost : PrimId → Nat) : Symbol → Nat
  | .lit _ => 1
  | .var _ => 1
  | .apply id => cost id

theorem symbolsList_append (before after : List Term) :
    symbolsList (before ++ after) = symbolsList before + symbolsList after := by
  induction before with
  | nil => rw [List.nil_append, symbolsList, zero_add]
  | cons t ts ih => rw [List.cons_append, symbolsList, ih, symbolsList, add_assoc]

mutual

theorem card_symbols : (e : Term) → e.symbols.card = e.nodes
  | .lit _ => rfl
  | .var _ => rfl
  | .apply id args => by rw [symbols, Multiset.card_cons, card_symbolsList args, nodes, Nat.add_comm]

theorem card_symbolsList : (es : List Term) → (symbolsList es).card = nodesList es
  | [] => rfl
  | e :: es => by rw [symbolsList, Multiset.card_add, card_symbols e, card_symbolsList es, nodesList]

end

mutual

theorem sum_symbols (cost : PrimId → Nat) : (e : Term) →
    (e.symbols.map (Symbol.weight cost)).sum = e.weight cost
  | .lit _ => rfl
  | .var _ => rfl
  | .apply id args => by
    rw [symbols, Multiset.map_cons, Multiset.sum_cons, sum_symbolsList cost args, weight, Symbol.weight]

theorem sum_symbolsList (cost : PrimId → Nat) : (es : List Term) →
    ((symbolsList es).map (Symbol.weight cost)).sum = weightList cost es
  | [] => rfl
  | e :: es => by
    rw [symbolsList, Multiset.map_add, Multiset.sum_add, sum_symbols cost e, sum_symbolsList cost es,
      weightList]

end

/-- **A replacement exchanges the symbols of the subterm for those of the new one.** -/
theorem Replaced.symbols_add (h : Replaced s new path e e') :
    e'.symbols + s.symbols = e.symbols + new.symbols := by
  induction h with
  | root => exact add_comm _ _
  | @arg id before after path a a' _ ih =>
    have hsymbols : ∀ b, symbols (.apply id (before ++ b :: after)) =
        b.symbols + (.apply id ::ₘ (symbolsList before + symbolsList after)) := by
      intro b
      rw [symbols, symbolsList_append, symbolsList, Multiset.add_cons, add_left_comm]
    rw [hsymbols, hsymbols, add_right_comm, ih, add_right_comm]

theorem nodes_add_of_symbols {a b c d : Term} (h : c.symbols + d.symbols = a.symbols + b.symbols) :
    c.nodes + d.nodes = a.nodes + b.nodes := by
  have hcards := congrArg Multiset.card h
  rwa [Multiset.card_add, Multiset.card_add, card_symbols, card_symbols, card_symbols, card_symbols] at hcards

theorem weight_add_of_symbols (cost : PrimId → Nat) {a b c d : Term}
    (h : c.symbols + d.symbols = a.symbols + b.symbols) :
    c.weight cost + d.weight cost = a.weight cost + b.weight cost := by
  have hsums := congrArg (fun m => (m.map (Symbol.weight cost)).sum) h
  simpa only [Multiset.map_add, Multiset.sum_add, sum_symbols] using hsums

/-! ## Depth -/

theorem depthList_append (before after : List Term) :
    depthList (before ++ after) = max (depthList before) (depthList after) := by
  induction before with
  | nil => simp [depthList]
  | cons t ts ih => rw [List.cons_append, depthList, ih, depthList, Nat.max_assoc]

theorem Replaced.length_add_depth_le (h : Replaced s new path e e') : path.length + s.depth ≤ e.depth := by
  induction h with
  | root => simp
  | arg id before after _ ih =>
    rw [List.length_cons, depth, depthList_append, depthList]
    omega

theorem Replaced.depth_le (h : Replaced s new path e e') :
    e'.depth ≤ max e.depth (path.length + new.depth) := by
  induction h with
  | root => simp
  | arg id before after _ ih =>
    rw [List.length_cons, depth, depth, depthList_append, depthList_append, depthList, depthList]
    omega

/-! ## Form -/

/-- The paths to all subterms, the root first and arguments from the left. -/
def paths (e : Term) : List Path := e.subterms.map Prod.fst

/-- Two terms of the same form: applications stand at the same places. -/
structure Alike (e e' : Term) : Prop where
  nodes : e'.nodes = e.nodes
  depth : e'.depth = e.depth
  paths : e'.paths = e.paths

theorem Alike.refl (e : Term) : Alike e e := ⟨rfl, rfl, rfl⟩

theorem alike_of_isLeaf (h : e.isLeaf = true) (h' : e'.isLeaf = true) : Alike e e' where
  nodes := by rw [nodes_of_isLeaf h, nodes_of_isLeaf h']
  depth := by rw [depth_of_isLeaf h, depth_of_isLeaf h']
  paths := by rw [paths, paths, subterms_of_isLeaf h, subterms_of_isLeaf h']; rfl

theorem alike_apply (id id' : PrimId) (args : List Term) : Alike (.apply id args) (.apply id' args) where
  nodes := by rw [nodes, nodes]
  depth := by rw [depth, depth]
  paths := by rw [paths, paths, subterms, subterms]; rfl

theorem nodesList_append (before after : List Term) :
    nodesList (before ++ after) = nodesList before + nodesList after := by
  induction before with
  | nil => simp [nodesList]
  | cons t ts ih => rw [List.cons_append, nodesList, ih, nodesList, Nat.add_assoc]

theorem subtermsFrom_append (i : Nat) (before after : List Term) :
    subtermsFrom i (before ++ after) = subtermsFrom i before ++ subtermsFrom (i + before.length) after := by
  induction before generalizing i with
  | nil => rfl
  | cons t ts ih =>
    rw [List.cons_append, subtermsFrom, ih, subtermsFrom, List.append_assoc, List.length_cons,
      Nat.add_right_comm, Nat.add_assoc]

theorem paths_apply (id : PrimId) (before : List Term) (a : Term) (after : List Term) :
    (Term.apply id (before ++ a :: after)).paths =
      [] :: ((subtermsFrom 0 before).map Prod.fst ++ (a.paths.map (before.length :: ·) ++
        (subtermsFrom (before.length + 1) after).map Prod.fst)) := by
  rw [paths, subterms, subtermsFrom_append, subtermsFrom]
  simp [paths]

theorem Replaced.alike (h : Replaced s new path e e') (hnew : Alike s new) : Alike e e' := by
  induction h with
  | root => exact hnew
  | arg id before after _ ih =>
    refine ⟨?_, ?_, ?_⟩
    · rw [nodes, nodes, nodesList_append, nodesList_append, nodesList, nodesList, ih.nodes]
    · rw [depth, depth, depthList_append, depthList_append, depthList, depthList, ih.depth]
    · rw [paths_apply, paths_apply, ih.paths]

end Exemplar.Term
